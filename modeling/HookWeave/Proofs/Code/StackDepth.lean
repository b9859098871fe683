import HookWeave.Code.StackDepth
import HookWeave.Proofs.Code.Lists
import HookWeave.Proofs.Code.ShortForms
import HookWeave.Proofs.Outcomes

/-!
# Depths that are consistent

A body whose greatest depth is computed has one depth at every position that can be reached
(`InstructionList.balanced_of_maxStack`): no instruction takes more than there is, and each arrives
with that depth where control goes after it. The search keeps that this is so for every position it
has been to, up to the arrivals that it has yet to follow (`StackDepth.Known.Followed`). Beside the
functions that it calls stand the lemmas that say when they go well, and what they give
(`StackDepth.step_eq_ok`, `StackDepth.mem_atHandlers_iff`, `InstructionList.maxStack_eq_ok`).
-/

namespace HookWeave

/-- The depth behind an instruction with the effect. -/
def StackEffect.after (effect : StackEffect) (depth : Nat) : Nat :=
  depth - effect.pops + effect.pushes

namespace StackDepth

variable {returnsValue : Bool} {index : InstructionIndex} {items : Array Instruction}
  {known known' : Known} {worklist : List Arrival} {p d : Nat}

/-- The depth at a position is known. -/
def Known.Holds (known : Known) (a : Arrival) : Prop :=
  known.depths[a.position]? = some (some a.depth)

/-- Each known depth suffices for the instruction at its position, and what control arrives with
after that is known or yet to be followed. -/
def Known.Followed (returnsValue : Bool) (index : InstructionIndex) (items : Array Instruction)
    (known : Known) (worklist : List Arrival) : Prop :=
  ∀ a, known.Holds a → ∃ i after next, items[a.position]? = some i
    ∧ step returnsValue i a.depth = .ok after ∧ successors index i a.position after = .ok next
    ∧ a.depth ≤ known.greatest ∧ after ≤ known.greatest ∧ ∀ b ∈ next, known.Holds b ∨ b ∈ worklist

lemma explore_nil : explore returnsValue index items known [] = .ok known := by
  rw [explore]

/-- An arrival with the depth that is known is not followed again. -/
lemma explore_known {a : Arrival} (inside : a.position < items.size)
    (holds : known.Holds a) :
    explore returnsValue index items known (a :: worklist)
      = explore returnsValue index items known worklist := by
  obtain ⟨bound, at'⟩ := Array.getElem?_eq_some_iff.1 holds
  rw [explore, dif_pos inside, dif_pos bound]
  split
  · next depth recorded =>
    cases at'.symm.trans recorded
    rw [if_pos rfl]
  · next unknown =>
    cases at'.symm.trans unknown

/-- An arrival at a position without a depth is recorded, and what comes after it is followed. -/
lemma explore_unknown {a : Arrival} {after : Nat} {next : List Arrival}
    (inside : a.position < items.size) (bound : a.position < known.depths.size)
    (unknown : known.depths[a.position] = none)
    (stepped : step returnsValue items[a.position] a.depth = .ok after)
    (listed : successors index items[a.position] a.position after = .ok next) :
    explore returnsValue index items known (a :: worklist)
      = explore returnsValue index items ⟨known.depths.set a.position (some a.depth),
        max (max known.greatest a.depth) after⟩ (next.reverse ++ worklist) := by
  rw [explore, dif_pos inside, dif_pos bound]
  split
  · next depth recorded =>
    rw [unknown] at recorded
    cases recorded
  · simp only [stepped, listed]

lemma holds_set {depths : Array (Option Nat)} {a b : Arrival} {greatest greatest' : Nat}
    (bound : a.position < depths.size) (unknown : depths[a.position] = none) :
    Known.Holds ⟨depths.set a.position (some a.depth) bound, greatest'⟩ b
      ↔ b = a ∨ Known.Holds ⟨depths, greatest⟩ b := by
  unfold Known.Holds
  show (depths.set a.position (some a.depth) bound)[b.position]? = _ ↔ _ ∨ depths[b.position]? = _
  rw [Array.getElem?_set]
  by_cases same : a.position = b.position
  · rw [if_pos same, ← same, Array.getElem?_eq_getElem bound, unknown]
    constructor
    · intro h
      cases b
      cases same
      cases h
      exact .inl rfl
    · intro h
      cases h with
      | inl h => rw [h]
      | inr h => cases h
  · rw [if_neg same]
    constructor
    · exact .inr
    · intro h
      cases h with
      | inl h => exact absurd (congrArg Arrival.position h.symm) same
      | inr h => exact h

/-- An arrival with the depth that is known need not be followed. -/
lemma Known.Followed.of_known {a : Arrival}
    (followed : known.Followed returnsValue index items (a :: worklist)) (arrived : known.Holds a) :
    known.Followed returnsValue index items worklist := by
  intro b hb
  obtain ⟨i, after, next, found, stepped, listed, low, high, arrivals⟩ := followed b hb
  refine ⟨i, after, next, found, stepped, listed, low, high, fun b hb => ?_⟩
  cases arrivals b hb with
  | inl holds => exact .inl holds
  | inr waits =>
    cases waits with
    | head => exact .inl arrived
    | tail _ waits => exact .inr waits

/-- An arrival is recorded once what comes after it waits to be followed. -/
lemma Known.Followed.record {a : Arrival} {after : Nat} {next : List Arrival}
    (followed : known.Followed returnsValue index items (a :: worklist))
    (inside : a.position < items.size) (bound : a.position < known.depths.size)
    (unknown : known.depths[a.position] = none)
    (stepped : step returnsValue items[a.position] a.depth = .ok after)
    (listed : successors index items[a.position] a.position after = .ok next) :
    Known.Followed returnsValue index items
      ⟨known.depths.set a.position (some a.depth), max (max known.greatest a.depth) after⟩
      (next.reverse ++ worklist) := by
  have learned : ∀ b, Known.Holds ⟨known.depths.set a.position (some a.depth) bound,
      max (max known.greatest a.depth) after⟩ b ↔ b = a ∨ known.Holds b :=
    fun b => holds_set bound unknown
  intro b hb
  cases (learned b).1 hb with
  | inl same =>
    cases same
    refine ⟨_, after, next, Array.getElem?_eq_getElem inside, stepped, listed, ?_, ?_, ?_⟩
    · exact Nat.le_trans (Nat.le_max_right _ _) (Nat.le_max_left _ _)
    · exact Nat.le_max_right _ _
    · intro b hb
      exact .inr (List.mem_append_left _ (List.mem_reverse.2 hb))
  | inr holds =>
    obtain ⟨j, after', next', found, stepped', listed', low, high, arrivals⟩ := followed b holds
    have grown : known.greatest ≤ max (max known.greatest a.depth) after :=
      Nat.le_trans (Nat.le_max_left _ _) (Nat.le_max_left _ _)
    refine ⟨j, after', next', found, stepped', listed', Nat.le_trans low grown,
      Nat.le_trans high grown, fun b hb => ?_⟩
    cases arrivals b hb with
    | inl holds => exact .inl ((learned b).2 (.inr holds))
    | inr waits =>
      cases waits with
      | head => exact .inl ((learned a).2 (.inl rfl))
      | tail _ waits => exact .inr (List.mem_append_right _ waits)

/-- A search that goes well has followed every arrival, and forgets nothing. -/
theorem followed_explore (h : explore returnsValue index items known worklist = .ok known')
    (followed : known.Followed returnsValue index items worklist) :
    known'.Followed returnsValue index items [] ∧ (∀ a, known.Holds a → known'.Holds a)
      ∧ ∀ a ∈ worklist, known'.Holds a := by
  fun_induction explore with
  | case1 known =>
    cases h
    exact ⟨followed, fun a ha => ha, fun a ha => by cases ha⟩
  | case2 known a worklist _ bound at' ih =>
    have arrived : known.Holds a := Array.getElem?_eq_some_iff.2 ⟨bound, at'⟩
    obtain ⟨all, kept, reached⟩ := ih h (followed.of_known arrived)
    refine ⟨all, kept, fun b hb => ?_⟩
    cases hb with
    | head => exact kept a arrived
    | tail _ hb => exact reached b hb
  | case6 known a worklist inside i bound unknown after stepped next listed ih =>
    obtain ⟨all, kept, reached⟩ := ih h (followed.record inside bound unknown stepped listed)
    have kept' : ∀ b, b = a ∨ known.Holds b → known'.Holds b :=
      fun b hb => kept b ((holds_set bound unknown).2 hb)
    refine ⟨all, fun b hb => kept' b (.inr hb), fun b hb => ?_⟩
    cases hb with
    | head => exact kept' a (.inl rfl)
    | tail _ hb => exact reached b (List.mem_append_right _ hb)
  | case3 | case4 | case5 | case7 | case8 => cases h

section

variable {l : InstructionList} {i : Instruction} {after : Nat} {ids : List InstrId}
  {handlers : List (InstrId × Nat)} {next : List Arrival} {b : Arrival}

/-- A step goes well if the instruction has an effect for which there is enough on the stack. -/
lemma step_eq_ok : step returnsValue i d = .ok after ↔ ∃ effect,
    i.stackEffect returnsValue = .ok effect ∧ effect.pops ≤ d ∧ effect.after d = after := by
  constructor
  · intro h
    obtain ⟨effect, takes, rest⟩ := bind_eq_ok.1 h
    have enough : ¬ d < effect.pops := by
      intro short
      simp only [short, if_true] at rest
      cases rest
    simp only [enough, if_false] at rest
    cases rest
    exact ⟨effect, takes, Nat.le_of_not_lt enough, rfl⟩
  · rintro ⟨effect, takes, enough, rfl⟩
    refine bind_eq_ok.2 ⟨effect, takes, ?_⟩
    simp only [Nat.not_lt.2 enough, if_false]
    rfl

/-- The arrivals at handlers. -/
def atHandlers (index : InstructionIndex) (handlers : List (InstrId × Nat)) :
    Except Fault (List Arrival) :=
  handlers.mapM fun e => return ⟨← index.position e.1, e.2⟩

/-- Targets are like handlers that are all entered with one depth. -/
lemma atTargets_eq_atHandlers :
    atTargets l.index d ids = atHandlers l.index (ids.map (·, d)) := by
  rw [atHandlers, List.mapM_map]
  rfl

/-- What arrives at handlers is at their positions, with their depths. -/
lemma mem_atHandlers_iff (h : atHandlers l.index handlers = .ok next) :
    b ∈ next ↔ ∃ e ∈ handlers, l.position? e.1 = some b.position ∧ e.2 = b.depth := by
  have found := mapM_eq_ok.1 h
  constructor
  · intro hb
    obtain ⟨k, hk⟩ := List.mem_iff_getElem?.1 hb
    obtain ⟨e, he, there⟩ := forall₂_getElem? found.flip hk
    obtain ⟨q, position, same⟩ := bind_eq_ok.1 there
    cases same
    exact ⟨e, List.mem_of_getElem? he, InstructionList.index_position.1 position, rfl⟩
  · rintro ⟨e, he, position, depth⟩
    obtain ⟨k, hk⟩ := List.mem_iff_getElem?.1 he
    obtain ⟨a, ha, there⟩ := forall₂_getElem? found hk
    obtain ⟨q, position', same⟩ := bind_eq_ok.1 there
    cases same
    cases position.symm.trans (InstructionList.index_position.1 position')
    cases b
    cases depth
    exact List.mem_of_getElem? ha

/-- Handlers can be arrived at if they are listed. -/
lemma atHandlers_eq_ok : (∃ next, atHandlers l.index handlers = .ok next)
    ↔ ∀ e ∈ handlers, l.contains e.1 = true := by
  constructor
  · rintro ⟨next, h⟩ e he
    obtain ⟨k, hk⟩ := List.mem_iff_getElem?.1 he
    obtain ⟨_, _, there⟩ := forall₂_getElem? (mapM_eq_ok.1 h) hk
    obtain ⟨q, position, _⟩ := bind_eq_ok.1 there
    exact InstructionList.contains_iff_position?.2 ⟨q, InstructionList.index_position.1 position⟩
  · intro h
    induction handlers with
    | nil => exact ⟨[], rfl⟩
    | cons e handlers ih =>
      obtain ⟨here, others⟩ := List.forall_mem_cons.1 h
      obtain ⟨q, position⟩ := InstructionList.contains_iff_position?.1 here
      obtain ⟨next, found⟩ := ih others
      refine ⟨⟨q, e.2⟩ :: next, mapM_eq_ok.2 (.cons ?_ (mapM_eq_ok.1 found))⟩
      exact bind_eq_ok.2 ⟨q, InstructionList.index_position.2 position, rfl⟩

lemma mem_atTargets_iff (h : atTargets l.index d ids = .ok next) :
    b ∈ next ↔ b.depth = d ∧ ∃ id ∈ ids, l.position? id = some b.position := by
  rw [mem_atHandlers_iff (atTargets_eq_atHandlers ▸ h)]
  constructor
  · rintro ⟨e, he, position, depth⟩
    obtain ⟨id, hid, rfl⟩ := List.mem_map.1 he
    exact ⟨depth.symm, id, hid, position⟩
  · rintro ⟨depth, id, hid, position⟩
    exact ⟨_, List.mem_map_of_mem hid, position, depth.symm⟩

lemma atTargets_eq_ok : (∃ next, atTargets l.index d ids = .ok next)
    ↔ ∀ id ∈ ids, l.contains id = true := by
  rw [atTargets_eq_atHandlers, atHandlers_eq_ok, List.forall_mem_map]

lemma mem_atTargets {id : InstrId} (h : atTargets l.index d ids = .ok next) (mem : id ∈ ids) :
    ∃ q, l.position? id = some q ∧ ⟨q, d⟩ ∈ next := by
  have listed := atTargets_eq_ok.1 ⟨next, h⟩ id mem
  obtain ⟨q, position⟩ := InstructionList.contains_iff_position?.1 listed
  exact ⟨q, position, (mem_atTargets_iff h).2 ⟨rfl, id, mem, position⟩⟩

end

end StackDepth

open StackDepth

variable {l : InstructionList} {returnsValue : Bool} {entries handlers : List (InstrId × Nat)}
  {m : Nat}

/-- There is one depth at every position of a list that can be reached. -/
structure InstructionList.Balanced (l : InstructionList) (returnsValue : Bool)
    (entries : List (InstrId × Nat)) (depth : Nat → Option Nat) : Prop where
  first : depth 0 = some 0
  entry : ∀ e ∈ entries, ∃ p, l.position? e.1 = some p ∧ depth p = some e.2
  follow : ∀ {p d}, depth p = some d → ∃ i after next, l.items[p]? = some i
    ∧ step returnsValue i d = .ok after ∧ successors l.index i p after = .ok next
    ∧ ∀ b ∈ next, depth b.position = some b.depth

namespace InstructionList

/-- The search from the first instruction and from the handlers. -/
def search (l : InstructionList) (handlers : List (InstrId × Nat)) (returnsValue : Bool) :
    Except Fault Known := do
  let arrivals ← atHandlers l.index handlers
  explore returnsValue l.index l.items.toArray ⟨Array.replicate l.size none, 0⟩
    (arrivals.reverse ++ [⟨0, 0⟩])

/-- The greatest depth is taken from the search. -/
lemma maxStack_eq_search (inhabited : l.isEmpty = false) : l.maxStack handlers returnsValue
    = l.search handlers returnsValue >>= fun known =>
      if known.greatest < UInt16.size then return known.greatest
      else throw (.malformed (.stackTooDeep known.greatest)) := by
  unfold maxStack search
  rw [inhabited, bind_assoc]
  rfl

/-- The greatest depth is that of the search if it fits. -/
lemma maxStack_eq_ok (inhabited : l.isEmpty = false) : l.maxStack handlers returnsValue = .ok m
    ↔ ∃ known, l.search handlers returnsValue = .ok known ∧ known.greatest = m ∧ m ≤ 65535 := by
  rw [maxStack_eq_search inhabited, bind_eq_ok]
  refine exists_congr fun known => and_congr_right fun _ => ?_
  by_cases fits : known.greatest < UInt16.size
  · rw [if_pos fits]
    constructor
    · intro h
      cases h
      exact ⟨rfl, Nat.le_of_lt_succ fits⟩
    · rintro ⟨rfl, _⟩
      rfl
  · rw [if_neg fits]
    constructor
    · intro h
      cases h
    · rintro ⟨rfl, small⟩
      exact absurd (Nat.lt_succ_of_le small) fits

/-- No depth is known at first, so that there is nothing to follow. -/
lemma followed_first {worklist : List Arrival} : Known.Followed returnsValue l.index l.items.toArray
    ⟨Array.replicate l.size none, 0⟩ worklist := by
  intro a holds
  unfold Known.Holds at holds
  rw [Array.getElem?_replicate] at holds
  split at holds <;> cases holds

/-- A list whose greatest depth is computed is balanced. -/
theorem balanced_of_maxStack (h : l.maxStack entries returnsValue = .ok m)
    (inhabited : l.isEmpty = false) : ∃ depth, l.Balanced returnsValue entries depth := by
  obtain ⟨known, searched, _⟩ := (maxStack_eq_ok inhabited).1 h
  obtain ⟨arrivals, handlers, explored⟩ := bind_eq_ok.1 searched
  obtain ⟨all, _, reached⟩ := followed_explore explored followed_first
  refine ⟨fun p => (known.depths[p]?).join, ?_, fun e he => ?_, fun {p d} hd => ?_⟩
  · have first := reached ⟨0, 0⟩ (List.mem_append_right _ (List.mem_singleton_self _))
    show (known.depths[0]?).join = _
    rw [show known.depths[0]? = _ from first]
    rfl
  · have listed := atHandlers_eq_ok.1 ⟨arrivals, handlers⟩ e he
    obtain ⟨p, position⟩ := contains_iff_position?.1 listed
    have mem := (mem_atHandlers_iff (b := ⟨p, e.2⟩) handlers).2 ⟨e, he, position, rfl⟩
    have holds := reached ⟨p, e.2⟩ (List.mem_append_left _ (List.mem_reverse.2 mem))
    refine ⟨p, position, ?_⟩
    show (known.depths[p]?).join = _
    rw [show known.depths[p]? = _ from holds]
    rfl
  · obtain ⟨i, after, next, found, stepped, listed, _, _, arrivals⟩ :=
      all ⟨p, d⟩ (Option.join_eq_some_iff.1 hd)
    refine ⟨i, after, next, ?_, stepped, listed, fun b hb => ?_⟩
    · rw [← List.getElem?_toArray]
      exact found
    · cases arrivals b hb with
      | inl holds =>
        show (known.depths[b.position]?).join = _
        rw [show known.depths[b.position]? = _ from holds]
        rfl
      | inr waits => cases waits

end InstructionList

namespace InstructionList.Balanced

variable {depth : Nat → Option Nat} {p d : Nat} {i : Instruction} {effect : StackEffect}

/-- No instruction takes more than there is, and what arrives elsewhere follows from its effect. -/
lemma allows (b : l.Balanced returnsValue entries depth) (known : depth p = some d)
    (here : l.items[p]? = some i) : ∃ effect next, i.stackEffect returnsValue = .ok effect
      ∧ effect.pops ≤ d ∧ successors l.index i p (d - effect.pops + effect.pushes) = .ok next
      ∧ ∀ b ∈ next, depth b.position = some b.depth := by
  obtain ⟨j, after, next, found, stepped, listed, arrivals⟩ := b.follow known
  cases here.symm.trans found
  obtain ⟨effect, takes, enough, rfl⟩ := step_eq_ok.1 stepped
  exact ⟨effect, next, takes, enough, listed, arrivals⟩

/-- Behind an instruction that goes on to the next is the depth that it leaves. -/
lemma next (b : l.Balanced returnsValue entries depth) (known : depth p = some d)
    (here : l.items[p]? = some i) (takes : i.stackEffect returnsValue = .ok effect)
    (goes : i.isTerminal = false) : depth (p + 1) = some (d - effect.pops + effect.pushes) := by
  obtain ⟨effect', next, takes', _, listed, arrivals⟩ := b.allows known here
  cases takes.symm.trans takes'
  unfold Instruction.isTerminal at goes
  unfold successors at listed
  cases flow : i.flow with
  | next | call =>
    rw [flow] at listed
    cases listed
    exact arrivals _ (List.mem_singleton_self _)
  | conditional | switch =>
    rw [flow] at listed
    obtain ⟨targets, _, same⟩ := bind_eq_ok.1 listed
    cases same
    exact arrivals _ (List.mem_append_right _ (List.mem_singleton_self _))
  | jump | ret | throw | endFinally | leave =>
    rw [flow] at goes
    cases goes

/-- At the targets of a branch is the depth that it leaves. -/
lemma target {id : InstrId} (b : l.Balanced returnsValue entries depth) (known : depth p = some d)
    (here : l.items[p]? = some i) (takes : i.stackEffect returnsValue = .ok effect)
    (branches : i.flow ∈ [.conditional, .switch, .jump]) (mem : id ∈ i.targets) :
    ∃ q, l.position? id = some q ∧ depth q = some (d - effect.pops + effect.pushes) := by
  obtain ⟨effect', next, takes', _, listed, arrivals⟩ := b.allows known here
  cases takes.symm.trans takes'
  unfold successors at listed
  cases flow : i.flow with
  | jump =>
    rw [flow] at listed
    obtain ⟨q, position, there⟩ := mem_atTargets listed mem
    exact ⟨q, position, arrivals _ there⟩
  | conditional | switch =>
    rw [flow] at listed
    obtain ⟨targets, targeted, same⟩ := bind_eq_ok.1 listed
    cases same
    obtain ⟨q, position, there⟩ := mem_atTargets targeted mem
    exact ⟨q, position, arrivals _ (List.mem_append_left _ there)⟩
  | next | call | ret | throw | endFinally | leave =>
    rw [flow] at branches
    simp at branches

/-- At the targets of an instruction that leaves a region the stack is empty. -/
lemma leave {id : InstrId} (b : l.Balanced returnsValue entries depth) (known : depth p = some d)
    (here : l.items[p]? = some i) (flow : i.flow = .leave) (mem : id ∈ i.targets) :
    ∃ q, l.position? id = some q ∧ depth q = some 0 := by
  obtain ⟨effect, next, _, _, listed, arrivals⟩ := b.allows known here
  unfold successors at listed
  rw [flow] at listed
  obtain ⟨q, position, there⟩ := mem_atTargets listed mem
  exact ⟨q, position, arrivals _ there⟩

end InstructionList.Balanced

/-! ## Pieces of code -/

/-- The code takes the stack from one depth to another, instruction by instruction. -/
def Lifts (returnsValue : Bool) : List (OpCode × Operand) → Nat → Nat → Prop
  | [], d, d' => d' = d
  | c :: code, d, d' => ∃ effect, (Instruction.ofCode ⟨0⟩ c).stackEffect returnsValue = .ok effect
    ∧ Lifts returnsValue code (d - effect.pops + effect.pushes) d'

lemma lifts_append {code code' : List (OpCode × Operand)} {d d' d'' : Nat}
    (first : Lifts returnsValue code d d') (second : Lifts returnsValue code' d' d'') :
    Lifts returnsValue (code ++ code') d d'' := by
  induction code generalizing d with
  | nil =>
    cases first
    exact second
  | cons c code ih =>
    obtain ⟨effect, takes, others⟩ := first
    exact ⟨effect, takes, ih others⟩

/-- Behind plain code is the depth to which it lifts the stack. -/
lemma InstructionList.Balanced.behind {depth : Nat → Option Nat} {code : List (OpCode × Operand)}
    {p d d' : Nat} (b : l.Balanced returnsValue entries depth)
    (stands : ∀ {k c}, code[k]? = some c → ∃ id, l.items[p + k]? = some (.ofCode id c))
    (plain : ∀ c ∈ code, Plain c) (known : depth p = some d) (lifts : Lifts returnsValue code d d') :
    depth (p + code.length) = some d' := by
  induction code generalizing p d with
  | nil =>
    cases lifts
    exact known
  | cons c code ih =>
    obtain ⟨effect, takes, others⟩ := lifts
    obtain ⟨here, rest⟩ := List.forall_mem_cons.1 plain
    obtain ⟨id, first⟩ := stands (k := 0) (c := c) rfl
    have goes : (Instruction.ofCode id c).isTerminal = false := by
      show c.1.info.flow.isTerminal = false
      rw [here.flow]
      rfl
    have next := b.next known first takes goes
    rw [List.length_cons, Nat.add_comm code.length, ← Nat.add_assoc]
    refine ih (fun {k c} at' => ?_) rest next others
    obtain ⟨id, found⟩ := stands (k := k + 1) at'
    exact ⟨id, by rw [Nat.add_assoc, Nat.add_comm 1]; exact found⟩

end HookWeave
