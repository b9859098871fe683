import HookWeave.Proofs.Code.Splices

/-!
# Bodies inside larger bodies

A body lies inside another, up to new identities, if the other holds its instructions with the same
successors, regions and clauses (`Activation.Embeds`). What the body names it has handed out, so that no
branch of it leads to what the other holds besides. The steps that the other takes from a state of the
body are then the steps of the body (`Embeds.step_iff`), the ones on which it goes wrong included. States
keep naming what was handed out (`Step.handedOut`), and so this goes on for whole runs, up to instructions
at which they are watched no longer.
-/

namespace HookWeave

variable {M : Machine} {f : InstrId → InstrId}

/-! ## New identities -/

/-- The operand with every identity replaced. -/
def Operand.relabel (f : InstrId → InstrId) : Operand → Operand
  | target id => target (f id)
  | switch ids => switch (ids.map f)
  | operand => operand

/-- The instruction with every identity replaced, its own included. -/
def Instruction.relabel (f : InstrId → InstrId) (i : Instruction) : Instruction :=
  ⟨f i.id, i.op, i.operand.relabel f⟩

/-- The state with every identity replaced. -/
def State.relabel (f : InstrId → InstrId) (s : State M) : State M :=
  ⟨f s.here, s.stack, s.control, s.left.map f, s.memory⟩

/-- The configuration with every identity replaced. -/
def Configuration.relabel (f : InstrId → InstrId) : Configuration M → Configuration M
  | running s => running (s.relabel f)
  | c => c

namespace Instruction

variable (f) (i : Instruction)

lemma argSlot?_relabel : (i.relabel f).argSlot? = i.argSlot? := by
  obtain ⟨id, op, operand⟩ := i
  cases operand with
  | target | switch => cases op <;> rfl
  | _ => rfl

lemma localSlot?_relabel : (i.relabel f).localSlot? = i.localSlot? := by
  obtain ⟨id, op, operand⟩ := i
  cases operand with
  | target | switch => cases op <;> rfl
  | _ => rfl

lemma routine?_relabel : (i.relabel f).routine? = i.routine? := by
  obtain ⟨id, op, operand⟩ := i
  cases operand with
  | target | switch => cases op <;> rfl
  | _ => rfl

lemma method?_relabel : (i.relabel f).method? = i.method? := by
  obtain ⟨id, op, operand⟩ := i
  cases operand <;> rfl

lemma stackEffect_relabel (returnsValue : Bool) :
    (i.relabel f).stackEffect returnsValue = i.stackEffect returnsValue := by
  rw [stackEffect, stackEffect, method?_relabel]
  rfl

lemma shown_relabel : (i.relabel f).shown = i.shown := by
  obtain ⟨id, op, operand⟩ := i
  cases operand with
  | switch ids => exact congrArg Operand.switch List.map_map
  | _ => rfl

lemma targets_relabel : (i.relabel f).targets = i.targets.map f := by
  obtain ⟨id, op, operand⟩ := i
  cases operand <;> rfl

end Instruction

/-! ## Identities that were handed out -/

/-- The state names identities that the list has handed out. -/
structure State.HandedOut (l : InstructionList) (s : State M) : Prop where
  here : s.here.val < l.nextId
  left : ∀ id ∈ s.left, id.val < l.nextId

/-- A configuration that runs is in such a state. -/
def Configuration.HandedOut (l : InstructionList) (c : Configuration M) : Prop :=
  ∀ s, c = running s → s.HandedOut l

lemma Configuration.handedOut_running {l : InstructionList} {s : State M} (h : s.HandedOut l) :
    (running s).HandedOut l := by
  rintro _ ⟨rfl⟩
  exact h

lemma State.handedOut_start {l : InstructionList} {i : Instruction} (control : M.Control)
    (memory : M.Memory) (h : i ∈ l.items) : (State.start i.id control memory).HandedOut l :=
  ⟨l.below i h, fun _ named => absurd named List.not_mem_nil⟩

namespace Activation

section

variable {a : Activation M} {i : Instruction} {s s' : State M} {t : Turn M} {c : Configuration M}
  {coverage : List Coverage} {control : M.Control} {verdict : Verdict M.Value} {cause : Cause M.Value}
  {calls : List (Call M.Value)}

lemma Follows.handedOut (named : a.body.HandedOut) (out : s.HandedOut a.body.instructions)
    (h : a.Follows s coverage control verdict c) : c.HandedOut a.body.instructions := by
  cases h with
  | enter found =>
    obtain ⟨_, _, start, _⟩ := named.clauses _ (List.mem_of_getElem? found)
    exact Configuration.handedOut_running ⟨start, out.left⟩
  | resume found =>
    exact Configuration.handedOut_running ⟨out.left _ (List.mem_of_getElem? found), out.left⟩
  | escape => exact nofun

lemma Routes.handedOut (named : a.body.HandedOut) (out : s.HandedOut a.body.instructions)
    (h : a.Routes s cause c) : c.HandedOut a.body.instructions := by
  cases covered : a.body.coverage? s.here with
  | none =>
    cases (routes_uncovered covered).1 h
    exact nofun
  | some coverage =>
    obtain ⟨_, _, _, followed⟩ := (routes_iff covered).1 h
    exact followed.handedOut named out

lemma Lands.handedOut (named : a.body.HandedOut) (listed : i ∈ a.body.instructions.items)
    (out : s.HandedOut a.body.instructions) (h : a.Lands i s t c) :
    c.HandedOut a.body.instructions := by
  cases h with
  | next found =>
    obtain ⟨k, at'⟩ := List.mem_iff_getElem?.1 listed
    rw [InstructionList.successor?_getElem at'] at found
    obtain ⟨j, behind, rfl⟩ := Option.map_eq_some_iff.1 found
    exact Configuration.handedOut_running
      ⟨a.body.instructions.below j (List.mem_of_getElem? behind), out.left⟩
  | jump _ contained =>
    exact Configuration.handedOut_running ⟨InstructionList.lt_of_contains contained, out.left⟩
  | @leave id _ _ found _ routed =>
    have target := named.targets i listed id (List.mem_of_getElem? found)
    have left : ∀ old ∈ id :: s.left, old.val < a.body.instructions.nextId :=
      List.forall_mem_cons.2 ⟨target, out.left⟩
    exact routed.handedOut named (s := { s with left := id :: s.left }) ⟨out.here, left⟩
  | @raise _ memory _ routed =>
    exact routed.handedOut named (s := { s with memory := memory }) ⟨out.here, out.left⟩
  | endFinally routed => exact routed.handedOut named out
  | pastEnd | stray | lost | ret | wrong => exact nofun

/-- A step names what was handed out if the body does and the state did. -/
lemma Step.handedOut (named : a.body.HandedOut) (out : s.HandedOut a.body.instructions)
    (h : a.Step s calls c) : c.HandedOut a.body.instructions := by
  cases h with
  | execute found _ lands =>
    obtain ⟨_, at', _⟩ := InstructionList.get?_eq_some.1 found
    exact lands.handedOut named (List.mem_of_getElem? at') out
  | lost => exact nofun

/-- So does a run. -/
lemma run_handedOut {step : State M → List (Call M.Value) → Configuration M → Prop}
    (keeps : ∀ {s more c}, s.HandedOut a.body.instructions → step s more c →
      c.HandedOut a.body.instructions)
    (out : s.HandedOut a.body.instructions) (run : Run step (.running s) calls c) :
    c.HandedOut a.body.instructions := by
  induction run with
  | refl => exact Configuration.handedOut_running out
  | snoc _ last ih => exact keeps (ih _ rfl) last

end

/-! ## Bodies inside others -/

/-- One activation runs a body that holds the other's under new identities, except for instructions
that are not `live`. What the other's body names it has handed out, and the larger body has the locals that
it names and no others of these. -/
structure Embeds (a a' : Activation M) (f : InstrId → InstrId) (live : InstrId → Prop) : Prop where
  returnsValue : a'.returnsValue = a.returnsValue
  args : a'.args = a.args
  locals : ∀ i ∈ a.body.instructions.items, ∀ slot, i.localSlot? = some slot →
    a'.locals[slot.toNat]? = a.locals[slot.toNat]?
  named : a.body.HandedOut
  get? : ∀ {id i}, live id → a.body.instructions.get? id = some i →
    a'.body.instructions.get? (f id) = some (i.relabel f)
  successor? : ∀ {id i}, live id → a.body.instructions.get? id = some i →
    a'.body.instructions.successor? (f id) = (a.body.instructions.successor? id).map f
  contains : ∀ {id}, id.val < a.body.instructions.nextId →
    a'.body.instructions.contains (f id) = a.body.instructions.contains id
  coverage? : ∀ {id}, id.val < a.body.instructions.nextId →
    a'.body.coverage? (f id) = a.body.coverage? id
  clauses : a'.body.clauses.map (fun c => (c.handlerStart, c.entryDepth))
    = a.body.clauses.map fun c => (f c.handlerStart, c.entryDepth)

namespace Embeds

variable {a a' : Activation M} {live : InstrId → Prop} {i : Instruction} {s : State M} {t : Turn M}
  {c c' : Configuration M} {calls : List (Call M.Value)}

lemma cell? (e : a.Embeds a' f live) (listed : i ∈ a.body.instructions.items) :
    a'.cell? (i.relabel f) = a.cell? i := by
  rw [Activation.cell?, Activation.cell?, i.argSlot?_relabel, i.localSlot?_relabel, e.args]
  cases i.argSlot? with
  | some slot => rfl
  | none =>
    cases there : i.localSlot? with
    | some slot => exact e.locals i listed slot there
    | none => rfl

/-- A routine does the same in the larger body. -/
lemma turn (e : a.Embeds a' f live) (listed : i ∈ a.body.instructions.items) (r : Routine) :
    a'.turn (i.relabel f) (s.relabel f) r = a.turn i s r := by
  cases r with
  | load | store | address =>
    rw [Activation.turn, Activation.turn, e.cell? listed]
    rfl
  | ret =>
    rw [Activation.turn, Activation.turn, e.returnsValue]
    rfl
  | _ => rfl

/-- What an instruction does in the larger body is what it does in the body. -/
lemma does_iff (e : a.Embeds a' f live) (listed : i ∈ a.body.instructions.items) :
    a'.Does (i.relabel f) (s.relabel f) t ↔ a.Does i s t := by
  rw [Does, Does, i.routine?_relabel]
  cases i.routine? with
  | some r =>
    show t = a'.turn (i.relabel f) (s.relabel f) r ↔ t = a.turn i s r
    rw [e.turn listed]
  | none =>
    simp only
    rw [e.returnsValue, i.stackEffect_relabel, i.shown_relabel]
    rfl

lemma calls_eq (e : a.Embeds a' f live) :
    a'.calls (i.relabel f) (s.relabel f) = a.calls i s := by
  rw [Activation.calls, i.method?_relabel, e.returnsValue, i.stackEffect_relabel]
  rfl

/-! ## Control -/

lemma clause (e : a.Embeds a' f live) (k : Nat) :
    (a'.body.clauses[k]?).map (fun c => (c.handlerStart, c.entryDepth))
      = (a.body.clauses[k]?).map fun c => (f c.handlerStart, c.entryDepth) := by
  rw [← List.getElem?_map, ← List.getElem?_map, e.clauses]

variable {coverage : List Coverage} {control : M.Control} {verdict : Verdict M.Value}
  {cause : Cause M.Value}

/-- A verdict leads to the same place in the larger body. -/
lemma follows_iff (e : a.Embeds a' f live) :
    a'.Follows (s.relabel f) coverage control verdict c'
      ↔ ∃ c, a.Follows s coverage control verdict c ∧ c' = c.relabel f := by
  constructor
  · intro h
    cases h with
    | @enter k entry clause' found' guarded depth =>
      have both := e.clause k
      rw [found'] at both
      obtain ⟨clause, found, same⟩ := Option.map_eq_some_iff.1 both.symm
      obtain ⟨start, depth'⟩ := Prod.mk.inj same
      refine ⟨_, .enter found guarded (depth.trans depth'.symm), ?_⟩
      rw [← start]
      rfl
    | resume found' =>
      have mapped : (s.left.map f)[_]? = _ := found'
      rw [List.getElem?_map] at mapped
      obtain ⟨target, found, rfl⟩ := Option.map_eq_some_iff.1 mapped
      exact ⟨_, .resume found, rfl⟩
    | escape => exact ⟨_, .escape, rfl⟩
  · rintro ⟨c, h, rfl⟩
    cases h with
    | @enter k entry clause found guarded depth =>
      have both := e.clause k
      rw [found] at both
      obtain ⟨clause', found', same⟩ := Option.map_eq_some_iff.1 both
      obtain ⟨start, depth'⟩ := Prod.mk.inj same
      have entered : a'.Follows (s.relabel f) coverage control _ _ :=
        .enter found' guarded (depth.trans depth'.symm)
      rw [start] at entered
      exact entered
    | resume found =>
      refine .resume ?_
      show (s.left.map f)[_]? = _
      rw [List.getElem?_map, found]
      rfl
    | escape => exact .escape

/-- The clauses of the larger body send control to the same places. -/
lemma routes_iff (e : a.Embeds a' f live) (here : s.here.val < a.body.instructions.nextId) :
    a'.Routes (s.relabel f) cause c' ↔ ∃ c, a.Routes s cause c ∧ c' = c.relabel f := by
  have same : a'.body.coverage? (s.relabel f).here = a.body.coverage? s.here := e.coverage? here
  cases covered : a.body.coverage? s.here with
  | none =>
    simp only [routes_uncovered (same.trans covered), routes_uncovered covered, exists_eq_left]
    rfl
  | some coverage =>
    simp only [Activation.routes_iff (same.trans covered), Activation.routes_iff covered,
      e.follows_iff]
    constructor
    · rintro ⟨verdict, control, routed, c, followed, rfl⟩
      exact ⟨c, ⟨verdict, control, routed, followed⟩, rfl⟩
    · rintro ⟨c, ⟨verdict, control, routed, followed⟩, rfl⟩
      exact ⟨verdict, control, routed, c, followed, rfl⟩

lemma target {n : Nat} {id : InstrId} (h : i.targets[n]? = some id) :
    (i.relabel f).targets[n]? = some (f id) := by
  rw [i.targets_relabel, List.getElem?_map, h]
  rfl

lemma target_back {n : Nat} {id' : InstrId} (h : (i.relabel f).targets[n]? = some id') :
    ∃ id, i.targets[n]? = some id ∧ f id = id' := by
  rw [i.targets_relabel, List.getElem?_map] at h
  exact Option.map_eq_some_iff.1 h

/-- What an instruction names was handed out. -/
lemma lt_of_target (e : a.Embeds a' f live) (listed : i ∈ a.body.instructions.items) {n : Nat}
    {id : InstrId} (h : i.targets[n]? = some id) : id.val < a.body.instructions.nextId :=
  e.named.targets i listed id (List.mem_of_getElem? h)

lemma lands (e : a.Embeds a' f live) (alive : live i.id)
    (found : a.body.instructions.get? i.id = some i) (listed : i ∈ a.body.instructions.items)
    (out : s.HandedOut a.body.instructions) (h : a.Lands i s t c) :
    a'.Lands (i.relabel f) (s.relabel f) t (c.relabel f) := by
  have next : a'.body.instructions.successor? (i.relabel f).id = _ := e.successor? alive found
  cases h with
  | next behind =>
    refine .next ?_
    rw [next, behind]
    rfl
  | pastEnd none => exact .pastEnd (next.trans (Option.map_eq_none_iff.2 none))
  | jump named contained =>
    exact .jump (target named) ((e.contains (e.lt_of_target listed named)).trans contained)
  | stray unlisted =>
    refine .stray fun id' named' contained => ?_
    obtain ⟨id, named, rfl⟩ := target_back named'
    exact unlisted id named ((e.contains (e.lt_of_target listed named)).symm.trans contained)
  | @leave id coverage c named covered routed =>
    refine .leave (target named) ((e.coverage? (e.lt_of_target listed named)).trans covered) ?_
    exact (e.routes_iff (s := { s with left := id :: s.left }) out.here).2 ⟨c, routed, rfl⟩
  | lost uncovered =>
    refine .lost fun id' named' => ?_
    obtain ⟨id, named, rfl⟩ := target_back named'
    exact (e.coverage? (e.lt_of_target listed named)).trans (uncovered id named)
  | ret => exact .ret
  | @raise exception memory c routed =>
    exact .raise ((e.routes_iff (s := { s with memory := memory }) out.here).2 ⟨c, routed, rfl⟩)
  | endFinally routed => exact .endFinally ((e.routes_iff out.here).2 ⟨c, routed, rfl⟩)
  | wrong => exact .wrong

/-- What an instruction does in the larger body leads to a place of the body. -/
lemma lands_back (e : a.Embeds a' f live) (alive : live i.id)
    (found : a.body.instructions.get? i.id = some i) (listed : i ∈ a.body.instructions.items)
    (out : s.HandedOut a.body.instructions) (h : a'.Lands (i.relabel f) (s.relabel f) t c') :
    ∃ c, a.Lands i s t c ∧ c' = c.relabel f := by
  have next : a'.body.instructions.successor? (i.relabel f).id = _ := e.successor? alive found
  cases h with
  | next behind =>
    rw [next] at behind
    obtain ⟨id, follows, rfl⟩ := Option.map_eq_some_iff.1 behind
    exact ⟨_, .next follows, rfl⟩
  | pastEnd none => exact ⟨.wrong, .pastEnd (Option.map_eq_none_iff.1 (next.symm.trans none)), rfl⟩
  | jump named' contained =>
    obtain ⟨id, named, rfl⟩ := target_back named'
    rw [e.contains (e.lt_of_target listed named)] at contained
    exact ⟨_, .jump named contained, rfl⟩
  | stray unlisted =>
    refine ⟨.wrong, .stray fun id named contained => ?_, rfl⟩
    exact unlisted _ (target named) ((e.contains (e.lt_of_target listed named)).trans contained)
  | leave named' covered routed =>
    obtain ⟨id, named, rfl⟩ := target_back named'
    rw [e.coverage? (e.lt_of_target listed named)] at covered
    obtain ⟨c, routed, same⟩ :=
      (e.routes_iff (s := { s with left := id :: s.left }) out.here).1 routed
    exact ⟨c, .leave named covered routed, same⟩
  | lost uncovered =>
    refine ⟨.wrong, .lost fun id named => ?_, rfl⟩
    exact (e.coverage? (e.lt_of_target listed named)).symm.trans (uncovered _ (target named))
  | ret => exact ⟨_, .ret, rfl⟩
  | @raise exception memory _ routed =>
    obtain ⟨c, routed, same⟩ := (e.routes_iff (s := { s with memory := memory }) out.here).1 routed
    exact ⟨c, .raise routed, same⟩
  | endFinally routed =>
    obtain ⟨c, routed, same⟩ := (e.routes_iff out.here).1 routed
    exact ⟨c, .endFinally routed, same⟩
  | wrong => exact ⟨.wrong, .wrong, rfl⟩

/-! ## Steps -/

/-- The steps of the larger body from a state of the body are the steps of the body. -/
theorem step_iff (e : a.Embeds a' f live) (alive : live s.here)
    (out : s.HandedOut a.body.instructions) :
    a'.Step (s.relabel f) calls c' ↔ ∃ c, a.Step s calls c ∧ c' = c.relabel f := by
  cases found : a.body.instructions.get? s.here with
  | none =>
    have nowhere : a'.body.instructions.get? (s.relabel f).here = none := by
      have gone := InstructionList.get?_eq_none.1 found
      exact InstructionList.get?_eq_none.2 ((e.contains out.here).trans gone)
    rw [step_lost_iff nowhere]
    simp only [step_lost_iff found, and_assoc, exists_and_left, exists_eq_left]
    rfl
  | some i =>
    obtain ⟨k, at', here⟩ := InstructionList.get?_eq_some.1 found
    have listed := List.mem_of_getElem? at'
    have moved : a'.body.instructions.get? (s.relabel f).here = some (i.relabel f) :=
      e.get? alive found
    rw [← here] at alive found
    rw [Activation.step_iff moved, e.calls_eq]
    simp only [Activation.step_iff (here ▸ found), e.does_iff listed]
    constructor
    · rintro ⟨rfl, t, does, lands⟩
      obtain ⟨c, lands, same⟩ := e.lands_back alive found listed out lands
      exact ⟨c, ⟨rfl, t, does, lands⟩, same⟩
    · rintro ⟨c, ⟨rfl, t, does, lands⟩, rfl⟩
      exact ⟨rfl, t, does, e.lands alive found listed out lands⟩

end Embeds
end Activation
end HookWeave
