import HookWeave.Proofs.Semantics.Straight
import HookWeave.Proofs.Weaving.Shape

/-!
# What hooks are given

The loads in front of a woven call push one value for each parameter of the hook
(`pushes_loads`): the result where the parameter takes it, and else the next argument of the target.
That the hook fits makes sure that there is such an argument.
-/

namespace HookWeave
namespace Weaving

variable {M : Machine} {w : Weaving} {a : Activation M} {memory : M.Memory}

/-- What a parameter that takes the result is given: the address of the local for the result, or
what this local holds if the result is an address. -/
def resultValue (w : Weaving) (memory : M.Memory) (cell : M.Cell) : M.Value :=
  if w.target.ret.isByRef then M.load memory cell else M.address cell

/-- What the parameters are given from an argument of the target on. -/
def givenFrom (w : Weaving) (a : Activation M) (memory : M.Memory) (result : Option M.Cell) :
    Nat → List Parameter → List (Option M.Value)
  | _, [] => []
  | position, p :: params =>
    match result.filter fun _ => w.takesResult p with
    | some cell => some (w.resultValue memory cell) :: w.givenFrom a memory result position params
    | none =>
      a.args[position]?.map (M.load memory) :: w.givenFrom a memory result (position + 1) params

lemma argumentSlot_eq_ok {position : Nat} {slot : UInt16} (h : w.argumentSlot position = .ok slot) :
    slot.toNat = position := by
  unfold argumentSlot at h
  by_cases small : position < UInt16.size
  · rw [if_pos small] at h
    cases h
    exact UInt16.toNat_ofNat_of_lt' small
  · rw [if_neg small] at h
    cases h

lemma pushes_loadArg {slot : UInt16} {cell : M.Cell} (h : a.args[slot.toNat]? = some cell) :
    a.Pushes memory (ShortForm.loadArg slot) (M.load memory cell) := by
  intro s same t
  cases same
  exact Activation.does_loadArg h

lemma pushes_loadResult {slot : UInt16} {cell : M.Cell} (h : a.locals[slot.toNat]? = some cell) :
    a.Pushes memory (w.loadResult slot) (w.resultValue memory cell) := by
  intro s same t
  cases same
  unfold loadResult resultValue
  by_cases byRef : w.target.ret.isByRef = true
  · simp only [byRef, if_true]
    exact Activation.does_loadLocal h
  · simp only [byRef]
    exact Activation.does_loadLocalAddress h

/-- The parameter is given the result by a hook that runs before its target. -/
def givesResult (w : Weaving) (p : Parameter) : Prop :=
  w.request.kind = .before ∧ w.takesResult p = true

/-- Parameters fit if the first takes the result or the next argument, and the others fit what is
left. -/
lemma of_checkParameters_eq_ok {position : Nat} {p : Parameter} {params : List Parameter}
    (h : w.checkParameters position (p :: params) = .ok ()) :
    (w.givesResult p ∧ w.checkResult p = .ok () ∧ w.checkParameters position params = .ok ())
      ∨ (¬ w.givesResult p ∧ position < w.target.argCount
        ∧ w.fitsArgument position p.type = true
        ∧ w.checkParameters (position + 1) params = .ok ()) := by
  unfold checkParameters at h
  by_cases gives : w.request.kind = .before ∧ w.takesResult p = true
  · rw [if_pos gives] at h
    obtain ⟨_, first, others⟩ := bind_eq_ok.1 h
    exact .inl ⟨gives, first, others⟩
  · rw [if_neg gives] at h
    by_cases short : w.target.argCount ≤ position
    · rw [if_pos short] at h
      cases h
    rw [if_neg short] at h
    by_cases unfit : (!w.fitsArgument position p.type) = true
    · rw [if_pos unfit] at h
      cases h
    rw [if_neg unfit] at h
    refine .inr ⟨gives, Nat.lt_of_not_le short, ?_, h⟩
    simpa only [Bool.not_eq_true, Bool.not_eq_false'] using unfit

lemma of_checkParameters_of_gives {position : Nat} {p : Parameter} {params : List Parameter}
    (gives : w.givesResult p) (h : w.checkParameters position (p :: params) = .ok ()) :
    w.checkResult p = .ok () ∧ w.checkParameters position params = .ok () := by
  obtain ⟨_, first, others⟩ | ⟨other, _⟩ := of_checkParameters_eq_ok h
  · exact ⟨first, others⟩
  · exact absurd gives other

lemma of_checkParameters_of_not_gives {position : Nat} {p : Parameter} {params : List Parameter}
    (gives : ¬ w.givesResult p) (h : w.checkParameters position (p :: params) = .ok ()) :
    position < w.target.argCount ∧ w.fitsArgument position p.type = true
      ∧ w.checkParameters (position + 1) params = .ok () := by
  obtain ⟨other, _⟩ | ⟨_, enough, fits, others⟩ := of_checkParameters_eq_ok h
  · exact absurd other gives
  · exact ⟨enough, fits, others⟩

/-- A hook that fits is static, and its parameters and its result fit. -/
lemma of_check_eq_ok (h : w.check = .ok ()) :
    w.request.hookIsStatic = true ∧ w.checkReceiver = .ok ()
      ∧ w.checkParameters 0 w.request.hookParams = .ok () ∧ w.checkReturn = .ok () := by
  unfold check at h
  cases static : w.request.hookIsStatic with
  | false =>
    simp only [static, Bool.not_false, if_true] at h
    cases h
  | true =>
    simp only [static, Bool.not_true, Bool.false_eq_true, if_false] at h
    obtain ⟨_, receiver, rest⟩ := bind_eq_ok.1 h
    obtain ⟨_, parameters, result⟩ := bind_eq_ok.1 rest
    exact ⟨rfl, receiver, parameters, result⟩

/-- The loads push a value for each parameter, if the hook fits and there is a cell for the result
where a parameter takes it. -/
lemma pushes_loads {slot : Option UInt16} {result : Option M.Cell} {position : Nat}
    {params : List Parameter} {code : Code} (loaded : w.loads slot position params = .ok code)
    (checked : w.checkParameters position params = .ok ())
    (args : a.args.length = w.target.argCount)
    (cells : Option.Rel (fun slot cell => a.locals[slot.toNat]? = some cell) slot result)
    (results : ∀ p ∈ params, w.givesResult p ↔ (slot.filter fun _ => w.takesResult p).isSome) :
    ∃ values, values.map some = w.givenFrom a memory result position params
      ∧ List.Forall₂ (a.Pushes memory) code values := by
  replace loaded := loading_of_loads loaded
  induction loaded with
  | nil => exact ⟨[], rfl, .nil⟩
  | @result position p params s code taken _ ih =>
    obtain ⟨gives, others⟩ := List.forall_mem_cons.1 results
    obtain ⟨_, rest⟩ := of_checkParameters_of_gives (gives.2 (taken ▸ rfl)) checked
    obtain ⟨values, given, pushed⟩ := ih rest others
    obtain ⟨there, takes⟩ := Option.filter_eq_some_iff.1 taken
    unfold givenFrom
    cases cells with
    | none => cases there
    | @some slot cell found =>
      cases there
      refine ⟨w.resultValue memory cell :: values, ?_, .cons (pushes_loadResult found) pushed⟩
      rw [Option.filter_some, if_pos takes, List.map_cons, given]
  | @argument position p params s code taken found _ ih =>
    obtain ⟨gives, others⟩ := List.forall_mem_cons.1 results
    replace gives : ¬ w.givesResult p := fun h => Option.isSome_iff_ne_none.1 (gives.1 h) taken
    obtain ⟨enough, _, rest⟩ := of_checkParameters_of_not_gives gives checked
    obtain ⟨values, given, pushed⟩ := ih rest others
    have bound : position < a.args.length := args ▸ enough
    have cell : a.args[s.toNat]? = some a.args[position] := by
      rw [argumentSlot_eq_ok found]
      exact List.getElem?_eq_getElem bound
    have none : (result.filter fun _ => w.takesResult p) = none := by
      cases cells with
      | none => rfl
      | some =>
        rw [Option.filter_some] at taken ⊢
        split_ifs at taken ⊢
        rfl
    unfold givenFrom
    refine ⟨M.load memory a.args[position] :: values, ?_, .cons (pushes_loadArg cell) pushed⟩
    rw [none, List.getElem?_eq_getElem bound, List.map_cons, given]
    rfl

/-- What each parameter of a hook that runs before its target is given: the result, or the argument
whose position is the number of parameters before it that take no result. -/
def given (w : Weaving) (a : Activation M) (memory : M.Memory) (result : Option M.Cell) :
    List (Option M.Value) :=
  w.request.hookParams.mapIdx fun k p =>
    if w.takesResult p then result.map (w.resultValue memory)
    else a.args[(w.request.hookParams.take k).countP (!w.takesResult ·)]?.map (M.load memory)

/-- Counting arguments from a position on counts the parameters that take no result. -/
lemma givenFrom_eq_mapIdx {result : Option M.Cell} {position : Nat} {params : List Parameter}
    (present : ∀ p ∈ params, w.takesResult p = true → result.isSome) :
    w.givenFrom a memory result position params = params.mapIdx fun k p =>
      if w.takesResult p then result.map (w.resultValue memory)
      else a.args[position + (params.take k).countP (!w.takesResult ·)]?.map (M.load memory) := by
  induction params generalizing position with
  | nil => rfl
  | cons p params ih =>
    obtain ⟨here, others⟩ := List.forall_mem_cons.1 present
    rw [List.mapIdx_cons, givenFrom]
    cases takes : w.takesResult p with
    | true =>
      obtain ⟨cell, rfl⟩ := Option.isSome_iff_exists.1 (here takes)
      simp [ih others, takes, Option.filter]
    | false => simp [ih others, takes, Nat.add_assoc, Nat.add_comm 1]

/-- Without a result every parameter is given the argument at its own position. -/
lemma givenFrom_none {position : Nat} {params : List Parameter} :
    w.givenFrom a memory none position params
      = (List.range params.length).map fun k => a.args[position + k]?.map (M.load memory) := by
  induction params generalizing position with
  | nil => rfl
  | cons p params ih =>
    show a.args[position]?.map (M.load memory) :: _ = _
    rw [ih, List.length_cons, List.range_succ_eq_map, List.map_cons, List.map_map]
    simp [Function.comp_def, Nat.add_assoc, Nat.add_comm 1]

end Weaving
end HookWeave
