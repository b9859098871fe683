import HookWeave.Proofs.Code.StackDepth

/-!
# Searches that compute

The search for the greatest depth of the stack recurses over a well-founded order and looks positions up in
a hash table, so that it does not compute within a proof. With a bound on its steps, and positions looked up
in the list, it does (`InstructionList.maxStackWithin`), and where it comes to an end it gives what the
search gives (`InstructionList.maxStack_of_within`).
-/

namespace HookWeave

open StackDepth

namespace InstructionList

/-- The arrivals at handlers, by the positions in the list. -/
def atHandlers? (l : InstructionList) (handlers : List (InstrId × Nat)) : Option (List Arrival) :=
  handlers.mapM fun e => (l.position? e.1).map (⟨·, e.2⟩)

/-- Where control arrives after an instruction at a position, by the positions in the list. -/
def successors? (l : InstructionList) (i : Instruction) (position depth : Nat) :
    Option (List Arrival) :=
  match i.flow with
  | .next | .call => some [⟨position + 1, depth⟩]
  | .conditional | .switch =>
    (l.atHandlers? (i.targets.map (·, depth))).map (· ++ [⟨position + 1, depth⟩])
  | .jump => l.atHandlers? (i.targets.map (·, depth))
  | .leave => l.atHandlers? (i.targets.map (·, 0))
  | .ret | .throw | .endFinally => some []

/-- The search in at most so many steps. It gives nothing where it takes more, or fails. -/
def exploreWithin (l : InstructionList) (returnsValue : Bool) :
    Nat → Known → List Arrival → Option Known
  | _, known, [] => some known
  | 0, _, _ :: _ => none
  | n + 1, known, a :: worklist =>
    if inside : a.position < l.items.length then
      if bound : a.position < known.depths.size then
        match known.depths[a.position] with
        | some depth =>
          if depth = a.depth then l.exploreWithin returnsValue n known worklist else none
        | none =>
          match step returnsValue l.items[a.position] a.depth with
          | .error _ => none
          | .ok after =>
            match l.successors? l.items[a.position] a.position after with
            | none => none
            | some next =>
              l.exploreWithin returnsValue n ⟨known.depths.set a.position (some a.depth),
                max (max known.greatest a.depth) after⟩ (next.reverse ++ worklist)
      else none
    else none

/-- The greatest depth of the stack, searched for in at most so many steps. -/
def maxStackWithin (n : Nat) (l : InstructionList) (handlers : List (InstrId × Nat))
    (returnsValue : Bool) : Option Nat := do
  let arrivals ← l.atHandlers? handlers
  let known ← l.exploreWithin returnsValue n ⟨Array.replicate l.size none, 0⟩
    (arrivals.reverse ++ [⟨0, 0⟩])
  if known.greatest ≤ 65535 then some known.greatest else none

variable {l : InstructionList} {handlers : List (InstrId × Nat)} {next : List Arrival}
  {i : Instruction} {returnsValue : Bool} {n p d m : Nat} {known known' : Known}
  {worklist : List Arrival}

lemma atHandlers_of_atHandlers? (h : l.atHandlers? handlers = some next) :
    atHandlers l.index handlers = .ok next := by
  induction handlers generalizing next with
  | nil =>
    cases h
    rfl
  | cons e handlers ih =>
    unfold atHandlers? at h
    rw [List.mapM_cons] at h
    obtain ⟨a, here, rest⟩ := Option.bind_eq_some_iff.1 h
    obtain ⟨as, others, same⟩ := Option.bind_eq_some_iff.1 rest
    cases same
    obtain ⟨q, position, rfl⟩ := Option.map_eq_some_iff.1 here
    refine mapM_eq_ok.2 (.cons ?_ (mapM_eq_ok.1 (ih others)))
    exact bind_eq_ok.2 ⟨q, index_position.2 position, rfl⟩

lemma atTargets_of_atHandlers? {ids : List InstrId} (h : l.atHandlers? (ids.map (·, d)) = some next) :
    atTargets l.index d ids = .ok next :=
  atTargets_eq_atHandlers.trans (atHandlers_of_atHandlers? h)

lemma successors_of_successors? (h : l.successors? i p d = some next) :
    successors l.index i p d = .ok next := by
  unfold successors? at h
  unfold successors
  cases flow : i.flow with
  | next | call | ret | throw | endFinally =>
    rw [flow] at h
    cases h
    rfl
  | conditional | switch =>
    rw [flow] at h
    obtain ⟨targets, found, rfl⟩ := Option.map_eq_some_iff.1 h
    exact bind_eq_ok.2 ⟨targets, atTargets_of_atHandlers? found, rfl⟩
  | jump | leave =>
    rw [flow] at h
    exact atTargets_of_atHandlers? h

/-- A search that comes to an end gives what the search without a bound gives. -/
lemma explore_of_within (h : l.exploreWithin returnsValue n known worklist = some known') :
    explore returnsValue l.index l.items.toArray known worklist = .ok known' := by
  induction n generalizing known worklist with
  | zero =>
    cases worklist with
    | nil =>
      cases h
      exact explore_nil
    | cons => cases h
  | succ n ih =>
    cases worklist with
    | nil =>
      cases h
      exact explore_nil
    | cons a worklist =>
      unfold exploreWithin at h
      split_ifs at h with inside bound
      split at h
      · next depth at' =>
        split_ifs at h with same
        cases same
        exact (explore_known inside (Array.getElem?_eq_some_iff.2 ⟨bound, at'⟩)).trans (ih h)
      · next unknown =>
        split at h
        · cases h
        · next after stepped =>
          split at h
          · cases h
          · next next listed =>
            exact (explore_unknown inside bound unknown stepped (successors_of_successors? listed)).trans
              (ih h)

/-- A search that comes to an end gives the greatest depth of the stack. -/
theorem maxStack_of_within (inhabited : l.isEmpty = false) (n : Nat)
    (h : l.maxStackWithin n handlers returnsValue = some m) : l.maxStack handlers returnsValue = .ok m := by
  obtain ⟨arrivals, entered, rest⟩ := Option.bind_eq_some_iff.1 h
  obtain ⟨known, explored, fits⟩ := Option.bind_eq_some_iff.1 rest
  split_ifs at fits with small
  cases fits
  refine (maxStack_eq_ok inhabited).2 ⟨known, ?_, rfl, small⟩
  exact bind_eq_ok.2 ⟨arrivals, atHandlers_of_atHandlers? entered, explore_of_within explored⟩

end InstructionList
end HookWeave
