import HookWeave.Proofs.Code.Splices

/-!
# Arrivals in lists with code put into them

Code put into a list guides control: it leads to an instruction behind it, with an empty stack, or to a
return at its end, and there is enough on the stack on the way (`Guides`). In a list with such code in front,
or in place of its last instruction, paths arrive where they did without the code, with the same depths, and
in the code with the depth that the code before has (`InstructionList.Fronted.arrives_cases`,
`InstructionList.Ended.arrives_cases`). So the stack balances in the one list if and only if it does in the
other.
-/

namespace HookWeave

variable {returnsValue : Bool} {code rest : List (OpCode × Operand)} {c : OpCode × Operand}
  {d d' d'' e k : Nat} {exit : Option InstrId}

/-! ## Depths in code -/

lemma lifts_append_iff {code' : List (OpCode × Operand)} : Lifts returnsValue (code ++ code') d d''
    ↔ ∃ d', Lifts returnsValue code d d' ∧ Lifts returnsValue code' d' d'' := by
  induction code generalizing d with
  | nil => exact ⟨fun h => ⟨d, rfl, h⟩, fun ⟨_, same, h⟩ => same ▸ h⟩
  | cons c code ih =>
    constructor
    · rintro ⟨effect, takes, h⟩
      obtain ⟨d', first, second⟩ := ih.1 h
      exact ⟨d', ⟨effect, takes, first⟩, second⟩
    · rintro ⟨d', ⟨effect, takes, first⟩, second⟩
      exact ⟨effect, takes, ih.2 ⟨d', first, second⟩⟩

lemma lifts_unique (h : Lifts returnsValue code d d') (h' : Lifts returnsValue code d d'') : d' = d'' := by
  induction code generalizing d with
  | nil => exact h.trans h'.symm
  | cons c code ih =>
    obtain ⟨effect, takes, h⟩ := h
    obtain ⟨effect', takes', h'⟩ := h'
    cases takes.symm.trans takes'
    exact ih h h'

/-- The instruction finds enough on the stack and goes on to the next, with the depth that it leaves. -/
structure Passes (returnsValue : Bool) (c : OpCode × Operand) (d d' : Nat) : Prop where
  effect : ∃ effect, (Instruction.ofCode ⟨0⟩ c).stackEffect returnsValue = .ok effect ∧ effect.pops ≤ d
    ∧ effect.after d = d'
  targets : c.2.targets = []
  goes : c.1.info.flow.isTerminal = false

/-- From a depth the code leads to what is behind it, with an empty stack, or runs to a return at its end.
It leads to an instruction that it names on the way, if at all. -/
inductive Guides (returnsValue : Bool) : Option InstrId → List (OpCode × Operand) → Nat → Prop
  | through {first : InstrId} : Guides returnsValue (some first) [] 0
  | ret {d : Nat} : returnsValue.toNat ≤ d → Guides returnsValue none [(.ret, .none)] d
  | pass {exit : Option InstrId} {c : OpCode × Operand} {code : List (OpCode × Operand)} {d d' : Nat} :
    Passes returnsValue c d d' → Guides returnsValue exit code d' → Guides returnsValue exit (c :: code) d
  | branch {first : InstrId} {code : List (OpCode × Operand)} :
    Guides returnsValue none code 0 →
    Guides returnsValue (some first) ((.brtrueShort, .target first) :: code) 1

namespace Guides

/-- Code that guides control starts with its only return, with an instruction that goes on, or with the
branch by which it is left. -/
lemma of_cons (h : Guides returnsValue exit (c :: code) d) :
    (c = (.ret, .none) ∧ code = [] ∧ returnsValue.toNat ≤ d)
      ∨ (∃ d', Passes returnsValue c d d' ∧ Guides returnsValue exit code d')
      ∨ ∃ first, exit = some first ∧ c = (.brtrueShort, .target first) ∧ d = 1
        ∧ Guides returnsValue none code 0 := by
  cases h with
  | ret enough => exact .inl ⟨rfl, rfl, enough⟩
  | pass passes h => exact .inr (.inl ⟨_, passes, h⟩)
  | branch h => exact .inr (.inr ⟨_, rfl, rfl, rfl, h⟩)

/-- On the way, the rest of the code guides control. -/
lemma at' (h : Guides returnsValue exit code d) (lifts : Lifts returnsValue (code.take k) d e)
    (here : code[k]? = some c) : ∃ exit', Guides returnsValue exit' (c :: code.drop (k + 1)) e
      ∧ (exit' = exit ∨ exit' = none) := by
  induction k generalizing exit code d with
  | zero =>
    cases code with
    | nil => cases here
    | cons c' code =>
      cases here
      cases lifts
      exact ⟨exit, h, .inl rfl⟩
  | succ k ih =>
    cases h with
    | through => cases here
    | ret => cases here
    | pass passes h =>
      obtain ⟨effect, takes, lifts⟩ := lifts
      obtain ⟨⟨effect', takes', _, rfl⟩, _, _⟩ := passes
      cases takes.symm.trans takes'
      exact ih h lifts here
    | branch h =>
      obtain ⟨effect, takes, lifts⟩ := lifts
      cases takes
      obtain ⟨exit', guides, same⟩ := ih h lifts here
      exact ⟨exit', guides, .inr (same.elim id id)⟩

/-- The first instruction finds enough on the stack, names a method if it is a call, and names no instruction
but the one that the code leads to. -/
lemma admits (h : Guides returnsValue exit (c :: code) d) (id : InstrId) :
    (∀ effect, (Instruction.ofCode id c).stackEffect returnsValue = .ok effect → effect.pops ≤ d)
      ∧ (c.1 ∈ [.call, .callvirt, .newobj] → (Instruction.ofCode id c).method?.isSome = true)
      ∧ ∀ target ∈ c.2.targets, exit = some target := by
  obtain ⟨rfl, _, enough⟩ | ⟨d', passes, _⟩ | ⟨first, rfl, rfl, rfl, _⟩ := h.of_cons
  · refine ⟨fun effect takes => ?_, fun call => by simp at call, fun target mem => nomatch mem⟩
    cases takes
    exact enough
  · obtain ⟨effect, takes, enough, _⟩ := passes.effect
    refine ⟨fun effect' takes' => ?_, fun call => Instruction.isSome_method? takes call, fun target mem => ?_⟩
    · cases takes.symm.trans takes'
      exact enough
    · rw [passes.targets] at mem
      cases mem
  · refine ⟨fun effect takes => ?_, fun call => by simp at call, fun target mem => ?_⟩
    · cases takes
      exact Nat.le_refl _
    · rw [List.mem_singleton.1 mem]

end Guides

/-! ## Depths that are seen -/

/-- The stack has a depth before or behind an instruction of code that starts with another depth. -/
def Sees (returnsValue : Bool) (code : List (OpCode × Operand)) (start d : Nat) : Prop :=
  ∃ k c e, code[k]? = some c ∧ Lifts returnsValue (code.take k) start e
    ∧ (d = e ∨ ∃ effect, (Instruction.ofCode ⟨0⟩ c).stackEffect returnsValue = .ok effect
      ∧ d = effect.after e)

/-- The instructions of two pieces of code do the same to the depth of the stack. -/
def SameEffects (code code' : List (OpCode × Operand)) : Prop :=
  List.Forall₂ (fun c c' => ∀ returnsValue, (Instruction.ofCode ⟨0⟩ c').stackEffect returnsValue
    = (Instruction.ofCode ⟨0⟩ c).stackEffect returnsValue) code code'

lemma SameEffects.symm {code' : List (OpCode × Operand)} (same : SameEffects code code') :
    SameEffects code' code :=
  (List.Forall₂.flip same).imp fun _ _ effects returnsValue => (effects returnsValue).symm

lemma SameEffects.lifts {code' : List (OpCode × Operand)} (same : SameEffects code code')
    (lifts : Lifts returnsValue code d d') : Lifts returnsValue code' d d' := by
  induction same generalizing d with
  | nil => exact lifts
  | cons here _ ih =>
    obtain ⟨effect, takes, lifts⟩ := lifts
    exact ⟨effect, (here _).trans takes, ih lifts⟩

lemma SameEffects.sees {code' : List (OpCode × Operand)} (same : SameEffects code code')
    (sees : Sees returnsValue code d e) : Sees returnsValue code' d e := by
  obtain ⟨k, c, d₁, at', lifts, seen⟩ := sees
  obtain ⟨c', at'', effects⟩ := forall₂_getElem? same at'
  have before : SameEffects (code.take k) (code'.take k) := List.forall₂_take k same
  refine ⟨k, c', d₁, at'', before.lifts lifts, seen.imp_right fun ⟨effect, takes, behind⟩ => ?_⟩
  exact ⟨effect, (effects _).trans takes, behind⟩

lemma Instruction.method?_retarget (i : Instruction) (old new : InstrId) :
    (i.retarget old new).method? = i.method? := by
  obtain ⟨_, _, operand⟩ := i
  cases operand <;> rfl

namespace InstructionList

/-- The stack has a depth before or behind one of the first so many instructions, at which a path arrives. -/
def OccursAmong (l : InstructionList) (entries : Set (InstrId × Nat)) (returnsValue : Bool) (n d : Nat) :
    Prop :=
  ∃ p e i, p < n ∧ l.Arrives entries returnsValue p e ∧ l.items[p]? = some i
    ∧ (d = e ∨ ∃ effect, i.stackEffect returnsValue = .ok effect ∧ d = effect.after e)

variable {l l' : InstructionList} {entries entries' : Set (InstrId × Nat)} {p n q : Nat} {i : Instruction}

lemma OccursAmong.occurs (h : l.OccursAmong entries returnsValue n d) :
    l.Occurs entries returnsValue d := by
  obtain ⟨p, e, i, _, arrived, here, rfl | ⟨effect, takes, rfl⟩⟩ := h
  · exact .before arrived here
  · exact .behind arrived here takes

/-- Control arrives behind an instruction that goes on to the next. -/
lemma Arrives.next {effect : StackEffect} (arrived : l.Arrives entries returnsValue p d)
    (here : l.items[p]? = some i) (takes : i.stackEffect returnsValue = .ok effect)
    (enough : effect.pops ≤ d) (goes : i.isTerminal = false) :
    l.Arrives entries returnsValue (p + 1) (effect.after d) := by
  have carried : i.carried (effect.after d) = effect.after d := by
    unfold Instruction.carried
    rw [if_neg]
    intro leaves
    unfold Instruction.isTerminal at goes
    rw [leaves] at goes
    cases goes
  rw [← carried]
  exact .follow arrived here takes enough (.next goes)

/-- Where control arrives at code that guides it, it arrives on the way, with the depths that there are. -/
lemma Holds.arrives (holds : l.Holds p n code) (guides : Guides returnsValue exit code d)
    (arrived : l.Arrives entries returnsValue p d) (lifts : Lifts returnsValue (code.take k) d e)
    (inside : k < code.length) : l.Arrives entries returnsValue (p + k) e := by
  induction k generalizing e with
  | zero =>
    cases lifts
    exact arrived
  | succ k ih =>
    have before : k < code.length := Nat.lt_of_succ_lt inside
    have here := List.getElem?_eq_getElem before
    rw [List.take_add_one, here, lifts_append_iff] at lifts
    obtain ⟨d₁, lifts, effect, takes, same⟩ := lifts
    cases same
    have arrived₁ := ih lifts before
    have there := holds k _ here
    obtain ⟨exit', guides', _⟩ := guides.at' lifts here
    rw [List.drop_eq_getElem_cons inside] at guides'
    obtain ⟨_, none, _⟩ | ⟨d', passes, _⟩ | ⟨first, _, same, rfl, _⟩ := guides'.of_cons
    · cases none
    · obtain ⟨effect', takes', enough, _⟩ := passes.effect
      cases takes.symm.trans takes'
      exact arrived₁.next there takes enough passes.goes
    · rw [same] at takes there
      cases takes
      exact arrived₁.next there rfl (Nat.le_refl _) rfl

/-- Control arrives at the instruction that the code leads to, if that is right behind. -/
lemma Holds.arrives_exit {first : InstrId} (holds : l.Holds p n code)
    (guides : Guides returnsValue (some first) code d) (arrived : l.Arrives entries returnsValue p d)
    (behind : l.position? first = some (p + code.length)) :
    l.Arrives entries returnsValue (p + code.length) 0 := by
  generalize leads : some first = exit at guides
  induction guides generalizing p n with
  | through => exact arrived
  | ret => cases leads
  | @pass _ c code d d' passes _ ih =>
    obtain ⟨effect, takes, enough, rfl⟩ := passes.effect
    have there : l.items[p]? = _ := holds 0 c rfl
    have on : l.Holds (p + 1) (n + 1) code := show l.Holds (p + [c].length) (n + [c].length) code from
      Holds.behind holds
    rw [List.length_cons, Nat.add_comm code.length, ← Nat.add_assoc] at behind ⊢
    exact ih on (arrived.next there takes enough passes.goes) behind leads
  | @branch _ code _ =>
    cases leads
    have there : l.items[p]? = _ := holds 0 _ rfl
    have branches : (Instruction.ofCode ⟨n + 0⟩ (.brtrueShort, .target first)).IsBranch :=
      List.mem_cons_self ..
    have takes : (Instruction.ofCode ⟨n + 0⟩ (.brtrueShort, .target first)).stackEffect returnsValue
      = .ok ⟨1, 0⟩ := rfl
    exact .follow arrived there takes (Nat.le_refl _)
      (.target branches (List.mem_singleton_self _) behind)

/-- What is seen in code that control arrives at occurs. -/
lemma Holds.occurs (holds : l.Holds p n code) (guides : Guides returnsValue exit code d)
    (arrived : l.Arrives entries returnsValue p d) (sees : Sees returnsValue code d e) :
    l.Occurs entries returnsValue e := by
  obtain ⟨k, c, d₁, at', lifts, seen⟩ := sees
  have arrived' := holds.arrives guides arrived lifts (List.getElem?_eq_some_iff.1 at').1
  obtain rfl | ⟨effect, takes, rfl⟩ := seen
  · exact .before arrived' (holds k c at')
  · exact .behind arrived' (holds k c at') takes

/-- From code that guides control it goes on to the next instruction of it, or to the one that the code leads
to. -/
lemma Continues.of_guides {id : InstrId} {effect : StackEffect}
    (goes : l.Continues (.ofCode id c) p q) (guides : Guides returnsValue exit (c :: code) d)
    (takes : (Instruction.ofCode id c).stackEffect returnsValue = .ok effect) :
    (q = p + 1 ∧ (Instruction.ofCode id c).carried (effect.after d) = effect.after d
        ∧ ∃ exit', Guides returnsValue exit' code (effect.after d) ∧ (exit' = exit ∨ exit' = none))
      ∨ ∃ first, exit = some first ∧ l.position? first = some q
        ∧ (Instruction.ofCode id c).carried (effect.after d) = 0 := by
  obtain ⟨rfl, _⟩ | ⟨d', passes, onward⟩ | ⟨first, rfl, rfl, rfl, onward⟩ := guides.of_cons
  · cases goes with
    | next on => cases on
    | target _ mem => cases mem
  · obtain ⟨effect', takes', _, rfl⟩ := passes.effect
    cases takes.symm.trans takes'
    refine .inl ⟨goes.next_of_plain passes.targets, ?_, exit, onward, .inl rfl⟩
    unfold Instruction.carried
    rw [if_neg]
    intro leaves
    have on := passes.goes
    rw [show c.1.info.flow = .leave from leaves] at on
    cases on
  · cases takes
    cases goes with
    | next => exact .inl ⟨rfl, rfl, none, onward, .inr rfl⟩
    | target _ mem position =>
      cases List.mem_singleton.1 mem
      exact .inr ⟨first, rfl, position, rfl⟩

/-! ## Code in front -/

namespace Fronted

lemma size' (h : l.Fronted l' code) : l'.size = code.length + l.size := by
  rw [InstructionList.size, h.items, List.length_append, length_number]
  rfl

lemma continues (h : l.Fronted l' code) (goes : l.Continues i p q) :
    l'.Continues i (code.length + p) (code.length + q) := by
  cases goes with
  | next on => exact .next on
  | target branch mem position => exact .target branch mem (h.position?_behind.2 position)

variable {first : InstrId} (h : l.Fronted l' code) (guides : Guides returnsValue (some first) code 0)
  (start : l.position? first = some 0)
include h guides start

/-- Where a path arrives in the list, one arrives behind the code. -/
lemma arrives_old (arrived : l.Arrives entries returnsValue p d) :
    l'.Arrives entries returnsValue (code.length + p) d := by
  induction arrived with
  | first =>
    have behind : l'.position? first = some (0 + code.length) := by
      rw [Nat.zero_add]
      exact h.position?_behind.2 start
    have entered : l'.Arrives entries returnsValue 0 0 := .first
    have arrived := h.holds.arrives_exit guides entered behind
    rwa [Nat.zero_add] at arrived
  | entry mem position => exact .entry mem (h.position?_behind.2 position)
  | follow _ here takes enough goes ih =>
    exact .follow ih (h.getElem?_behind.trans here) takes enough (h.continues goes)

/-- What occurs in the list occurs with the code in front. -/
lemma occurs_old (occurs : l.Occurs entries returnsValue d) : l'.Occurs entries returnsValue d := by
  cases occurs with
  | before arrived here =>
    exact .before (h.arrives_old guides start arrived) (h.getElem?_behind.trans here)
  | behind arrived here takes =>
    exact .behind (h.arrives_old guides start arrived) (h.getElem?_behind.trans here) takes

/-- A path arrives in the code, with the depth that the code before has, or where it did in the list. -/
lemma arrives_cases (balance : l.PathsBalance entries returnsValue)
    (arrived : l'.Arrives entries returnsValue q d) :
    (∃ c, code[q]? = some c ∧ Lifts returnsValue (code.take q) 0 d)
      ∨ ∃ p, q = code.length + p ∧ l.Arrives entries returnsValue p d := by
  have within {q d : Nat} (lifts : Lifts returnsValue (code.take q) 0 d)
      {exit' : Option InstrId} (onward : Guides returnsValue exit' (code.drop q) d) (bound : q ≤ code.length) :
      (∃ c, code[q]? = some c ∧ Lifts returnsValue (code.take q) 0 d)
        ∨ ∃ p, q = code.length + p ∧ l.Arrives entries returnsValue p d := by
    cases Nat.lt_or_eq_of_le bound with
    | inl inside => exact .inl ⟨_, List.getElem?_eq_getElem inside, lifts⟩
    | inr outside =>
      rw [outside, List.drop_length] at onward
      cases onward
      exact .inr ⟨0, outside, .first⟩
  induction arrived with
  | first => exact within (q := 0) rfl guides (Nat.zero_le _)
  | entry mem position =>
    obtain ⟨k, there⟩ := contains_iff_position?.1 (balance.handlers _ mem)
    cases (h.position?_behind.2 there).symm.trans position
    exact .inr ⟨k, rfl, .entry mem there⟩
  | @follow q q' d i effect before here takes enough goes ih =>
    obtain ⟨c, at', lifts⟩ | ⟨p, rfl, was⟩ := ih
    · cases here.symm.trans (h.getElem?_front at')
      obtain ⟨exit', onward, same⟩ := guides.at' lifts at'
      have bound := (List.getElem?_eq_some_iff.1 at').1
      obtain ⟨rfl, carried, exit'', onward, _⟩ | ⟨first', rfl, position, carried⟩ :=
        goes.of_guides onward takes
      · rw [carried]
        refine within ?_ onward bound
        rw [List.take_add_one, at', lifts_append_iff]
        exact ⟨d, lifts, effect, takes, rfl⟩
      · cases same.resolve_right nofun
        rw [carried]
        cases (h.position?_behind.2 start).symm.trans position
        exact .inr ⟨0, rfl, .first⟩
    · rw [h.getElem?_behind] at here
      refine .inr ?_
      cases goes with
      | next on => exact ⟨p + 1, Nat.add_assoc .., .follow was here takes enough (.next on)⟩
      | target branch mem position =>
        obtain ⟨k, there⟩ := contains_iff_position?.1 (balance.targets was here branch _ mem)
        cases (h.position?_behind.2 there).symm.trans position
        exact ⟨k, rfl, .follow was here takes enough (.target branch mem there)⟩

/-- What occurs in the list with the code in front is seen in the code or occurs in the list. -/
lemma occurs_iff (balance : l.PathsBalance entries returnsValue) :
    l'.Occurs entries returnsValue d ↔ Sees returnsValue code 0 d ∨ l.Occurs entries returnsValue d := by
  constructor
  · intro occurs
    cases occurs with
    | before arrived here =>
      obtain ⟨c, at', lifts⟩ | ⟨p, rfl, was⟩ := h.arrives_cases guides start balance arrived
      · exact .inl ⟨_, c, _, at', lifts, .inl rfl⟩
      · exact .inr (.before was (h.getElem?_behind.symm.trans here))
    | behind arrived here takes =>
      obtain ⟨c, at', lifts⟩ | ⟨p, rfl, was⟩ := h.arrives_cases guides start balance arrived
      · cases here.symm.trans (h.getElem?_front at')
        exact .inl ⟨_, c, _, at', lifts, .inr ⟨_, takes, rfl⟩⟩
      · exact .inr (.behind was (h.getElem?_behind.symm.trans here) takes)
  · rintro (seen | was)
    · exact h.holds.occurs guides .first seen
    · exact h.occurs_old guides start was

/-- The stack balances behind the code if it does with the code in front. -/
lemma balance_old (balance : l'.PathsBalance entries returnsValue)
    (handlers : ∀ e ∈ entries, l.contains e.1 = true)
    (targets : ∀ i ∈ l.items, ∀ id ∈ i.targets, l.contains id = true) :
    l.PathsBalance entries returnsValue where
  handlers := handlers
  inside arrived := by
    have bound := balance.inside (h.arrives_old guides start arrived)
    rw [h.size'] at bound
    exact Nat.lt_of_add_lt_add_left bound
  targets _ here _ := targets _ (List.mem_of_getElem? here)
  methods arrived here :=
    balance.methods (h.arrives_old guides start arrived) (h.getElem?_behind.trans here)
  enough arrived here :=
    balance.enough (h.arrives_old guides start arrived) (h.getElem?_behind.trans here)
  agree arrived arrived' :=
    balance.agree (h.arrives_old guides start arrived) (h.arrives_old guides start arrived')

/-- The stack balances with the code in front if it does without. -/
lemma balance_of_old (balance : l.PathsBalance entries returnsValue) :
    l'.PathsBalance entries returnsValue where
  handlers e he := h.contains (balance.handlers e he)
  inside arrived := by
    rw [h.size']
    obtain ⟨c, at', _⟩ | ⟨p, rfl, was⟩ := h.arrives_cases guides start balance arrived
    · exact Nat.lt_add_right _ (List.getElem?_eq_some_iff.1 at').1
    · exact Nat.add_lt_add_left (balance.inside was) _
  targets arrived here branch id mem := by
    obtain ⟨c, at', lifts⟩ | ⟨p, rfl, was⟩ := h.arrives_cases guides start balance arrived
    · cases here.symm.trans (h.getElem?_front at')
      obtain ⟨exit', onward, same⟩ := guides.at' lifts at'
      cases (onward.admits ⟨0⟩).2.2 id mem
      cases same.resolve_right nofun
      exact contains_iff_position?.2 ⟨_, h.position?_behind.2 start⟩
    · rw [h.getElem?_behind] at here
      exact h.contains (balance.targets was here branch id mem)
  methods arrived here := by
    obtain ⟨c, at', lifts⟩ | ⟨p, rfl, was⟩ := h.arrives_cases guides start balance arrived
    · cases here.symm.trans (h.getElem?_front at')
      obtain ⟨exit', onward, _⟩ := guides.at' lifts at'
      exact (onward.admits _).2.1
    · exact balance.methods was (h.getElem?_behind.symm.trans here)
  enough arrived here takes := by
    obtain ⟨c, at', lifts⟩ | ⟨p, rfl, was⟩ := h.arrives_cases guides start balance arrived
    · cases here.symm.trans (h.getElem?_front at')
      obtain ⟨exit', onward, _⟩ := guides.at' lifts at'
      exact (onward.admits _).1 _ takes
    · exact balance.enough was (h.getElem?_behind.symm.trans here) takes
  agree arrived arrived' := by
    obtain ⟨c, at', lifts⟩ | ⟨p, rfl, was⟩ := h.arrives_cases guides start balance arrived
    · obtain ⟨_, _, lifts'⟩ | ⟨p, rfl, _⟩ := h.arrives_cases guides start balance arrived'
      · exact lifts_unique lifts lifts'
      · exact absurd (List.getElem?_eq_some_iff.1 at').1 (Nat.not_lt.2 (Nat.le_add_right _ _))
    · obtain ⟨_, at', _⟩ | ⟨p', same, was'⟩ := h.arrives_cases guides start balance arrived'
      · exact absurd (List.getElem?_eq_some_iff.1 at').1 (Nat.not_lt.2 (Nat.le_add_right _ _))
      · cases Nat.add_left_cancel same
        exact balance.agree was was'

end Fronted

/-! ## Code in place of the last instruction -/

namespace Ended

variable {pre : List Instruction} {last : Instruction} (h : l.Ended l' pre last code)
  (isRet : last.op = .ret)
  (renamed : entries' = {e' | ∃ e ∈ entries, e' = (e.1.replace last.id ⟨l.nextId⟩, e.2)})

include h in
lemma continues (goes : l.Continues i p q) : l'.Continues (i.retarget last.id ⟨l.nextId⟩) p q := by
  cases goes with
  | next on => exact .next on
  | @target id _ branch mem position =>
    refine Continues.target branch ?_ (h.position? position)
    show _ ∈ (i.operand.retarget last.id ⟨l.nextId⟩).targets
    rw [Operand.targets_retarget]
    exact List.mem_map_of_mem mem

include isRet in
/-- Control does not go on from the last instruction. -/
lemma not_continues : ¬ l.Continues last p q := by
  intro goes
  cases goes with
  | next on =>
    unfold Instruction.isTerminal Instruction.flow at on
    rw [isRet] at on
    cases on
  | target branch =>
    unfold Instruction.IsBranch Instruction.flow at branch
    rw [isRet] at branch
    exact absurd branch (by decide)

include h isRet renamed

/-- Where a path arrives in the list, one arrives in the list with the code at its end. -/
lemma arrives_old (arrived : l.Arrives entries returnsValue p d) :
    p ≤ pre.length ∧ l'.Arrives entries' returnsValue p d := by
  induction arrived with
  | first => exact ⟨Nat.zero_le _, .first⟩
  | @entry e p mem position =>
    refine ⟨h.le_of_position? position,
      .entry (e := (e.1.replace last.id ⟨l.nextId⟩, e.2)) ?_ (h.position? position)⟩
    rw [renamed]
    exact ⟨e, mem, rfl⟩
  | @follow p q d i effect _ here takes enough goes ih =>
    cases Nat.lt_or_eq_of_le ih.1 with
    | inl before =>
      refine ⟨h.le_of_continues before goes,
        .follow (i := i.retarget last.id ⟨l.nextId⟩) ih.2 ?_ ?_ enough (h.continues goes)⟩
      · rw [h.getElem?_before before, here]
        rfl
      · rwa [Instruction.stackEffect_retarget]
    | inr final =>
      rw [final, h.getElem?_last] at here
      cases here
      exact absurd goes (not_continues isRet)

/-- What occurs in the list occurs with the code at its end, but for what the last instruction leaves, which is
no more than there was before it. -/
lemma occurs_old (occurs : l.Occurs entries returnsValue d) :
    ∃ d', d ≤ d' ∧ l'.Occurs entries' returnsValue d' := by
  have before {p d : Nat} {i : Instruction} (arrived : l.Arrives entries returnsValue p d)
      (here : l.items[p]? = some i) : l'.Occurs entries' returnsValue d := by
    obtain ⟨bound, arrived'⟩ := h.arrives_old isRet renamed arrived
    cases Nat.lt_or_eq_of_le bound with
    | inl old => exact .before arrived' ((h.getElem?_before old).trans (congrArg _ here))
    | inr final =>
      obtain ⟨c, others, same⟩ := List.exists_cons_of_ne_nil h.inhabited
      rw [final] at arrived'
      exact .before arrived' (h.holds 0 c (by rw [same]; rfl))
  cases occurs with
  | before arrived here => exact ⟨d, Nat.le_refl _, before arrived here⟩
  | @behind p d i effect arrived here takes =>
    obtain ⟨bound, arrived'⟩ := h.arrives_old isRet renamed arrived
    cases Nat.lt_or_eq_of_le bound with
    | inl old =>
      exact ⟨_, Nat.le_refl _, .behind arrived' ((h.getElem?_before old).trans (congrArg _ here))
        ((Instruction.stackEffect_retarget ..).trans takes)⟩
    | inr final =>
      refine ⟨d, ?_, before arrived here⟩
      rw [final, h.getElem?_last] at here
      cases here
      cases (Instruction.stackEffect_ret isRet).symm.trans takes
      exact Nat.sub_le _ _

/-- The stack balances in the list if it does in the list with the code at its end, which drops what the last
instruction returns. -/
lemma balance_old (balance : l'.PathsBalance entries' returnsValue)
    (handlers : ∀ e ∈ entries, l.contains e.1 = true)
    (targets : ∀ i ∈ l.items, ∀ id ∈ i.targets, l.contains id = true)
    (drops : returnsValue = true → code[0]? = some (.pop, .none)) :
    l.PathsBalance entries returnsValue where
  handlers := handlers
  inside arrived := by
    rw [h.size]
    exact Nat.lt_succ_of_le (h.arrives_old isRet renamed arrived).1
  targets _ here _ := targets _ (List.mem_of_getElem? here)
  methods arrived here call := by
    obtain ⟨bound, arrived'⟩ := h.arrives_old isRet renamed arrived
    cases Nat.lt_or_eq_of_le bound with
    | inl before =>
      have there := (h.getElem?_before before).trans (congrArg _ here)
      have named := balance.methods arrived' there call
      rwa [Instruction.method?_retarget] at named
    | inr final =>
      rw [final, h.getElem?_last] at here
      cases here
      rw [isRet] at call
      simp at call
  enough {p d i effect} arrived here takes := by
    obtain ⟨bound, arrived'⟩ := h.arrives_old isRet renamed arrived
    cases Nat.lt_or_eq_of_le bound with
    | inl before =>
      have there := (h.getElem?_before before).trans (congrArg _ here)
      exact balance.enough arrived' there ((Instruction.stackEffect_retarget ..).trans takes)
    | inr final =>
      rw [final, h.getElem?_last] at here
      cases here
      cases (Instruction.stackEffect_ret isRet).symm.trans takes
      cases returnsValue with
      | false => exact Nat.zero_le _
      | true =>
        have there := h.holds 0 _ (drops rfl)
        rw [final] at arrived'
        have pops (id : InstrId) :
            (Instruction.ofCode id (.pop, .none)).stackEffect true = .ok ⟨1, 0⟩ := rfl
        exact balance.enough arrived' there (pops _)
  agree arrived arrived' :=
    balance.agree (h.arrives_old isRet renamed arrived).2 (h.arrives_old isRet renamed arrived').2

variable (guides : ∀ d, returnsValue.toNat ≤ d → Guides returnsValue none code d)

omit renamed in
include guides in
/-- Where a path that comes to the last instruction has come to in the code, the rest of it guides control. -/
lemma guides_at (balance : l.PathsBalance entries returnsValue)
    (final : l.Arrives entries returnsValue pre.length d)
    (lifts : Lifts returnsValue (code.take k) d e) (at' : code[k]? = some c) :
    Guides returnsValue none (c :: code.drop (k + 1)) e := by
  have enough := balance.enough final h.getElem?_last (Instruction.stackEffect_ret isRet)
  obtain ⟨exit', onward, same⟩ := (guides d enough).at' lifts at'
  cases or_self_iff.1 same
  exact onward

include guides

/-- A path arrives where it did in the list, or in the code, with the depth that the code before has if it
starts with that at the last instruction. -/
lemma arrives_cases (balance : l.PathsBalance entries returnsValue)
    (arrived : l'.Arrives entries' returnsValue q d) :
    (q < pre.length ∧ l.Arrives entries returnsValue q d)
      ∨ ∃ k c d₀, q = pre.length + k ∧ code[k]? = some c ∧ l.Arrives entries returnsValue pre.length d₀
        ∧ Lifts returnsValue (code.take k) d₀ d := by
  have within {q d : Nat} (was : l.Arrives entries returnsValue q d) (bound : q ≤ pre.length) :
      (q < pre.length ∧ l.Arrives entries returnsValue q d)
        ∨ ∃ k c d₀, q = pre.length + k ∧ code[k]? = some c ∧ l.Arrives entries returnsValue pre.length d₀
          ∧ Lifts returnsValue (code.take k) d₀ d := by
    cases Nat.lt_or_eq_of_le bound with
    | inl before => exact .inl ⟨before, was⟩
    | inr final =>
      obtain ⟨c, others, same⟩ := List.exists_cons_of_ne_nil h.inhabited
      cases final
      exact .inr ⟨0, c, d, rfl, same ▸ rfl, was, rfl⟩
  induction arrived with
  | first => exact within .first (Nat.zero_le _)
  | entry mem position =>
    rw [renamed] at mem
    obtain ⟨e, he, rfl⟩ := mem
    have was := h.of_position? (balance.handlers e he) position
    exact within (.entry (e := e) he was) (h.le_of_position? was)
  | @follow q q' d i effect before here takes enough goes ih =>
    obtain ⟨old, was⟩ | ⟨k, c, d₀, rfl, at', final, lifts⟩ := ih
    · rw [h.getElem?_before old] at here
      obtain ⟨j, at', rfl⟩ := Option.map_eq_some_iff.1 here
      rw [Instruction.stackEffect_retarget] at takes
      have on : l.Continues j q q' := by
        cases goes with
        | next on => exact .next on
        | target branch mem position =>
          exact h.of_continues (balance.targets was at' branch) (.target branch mem position)
      exact within (.follow (i := j) was at' takes enough on) (h.le_of_continues old on)
    · cases here.symm.trans (h.holds k c at')
      have onward := h.guides_at isRet guides balance final lifts at'
      obtain ⟨rfl, carried, exit', onward, same⟩ | ⟨first, none, _⟩ := goes.of_guides onward takes
      · cases or_self_iff.1 same
        rw [carried]
        cases more : code.drop (k + 1) with
        | nil =>
          rw [more] at onward
          cases onward
        | cons c' others =>
          refine .inr ⟨k + 1, c', d₀, rfl, ?_, final, ?_⟩
          · rw [← List.head?_drop, more]
            rfl
          · rw [List.take_add_one, at', lifts_append_iff]
            exact ⟨_, lifts, effect, takes, rfl⟩
      · cases none

/-- Paths arrive at the end of code that leaves on the stack what there was as they did at the last
instruction. -/
lemma arrives_final {front : List (OpCode × Operand)} (split : code = front ++ [c])
    (lifts : ∀ d, returnsValue.toNat ≤ d → Lifts returnsValue front d d)
    (balance : l.PathsBalance entries returnsValue) :
    l'.Arrives entries' returnsValue (pre.length + front.length) d
      ↔ l.Arrives entries returnsValue pre.length d := by
  have enough {d : Nat} (final : l.Arrives entries returnsValue pre.length d) : returnsValue.toNat ≤ d :=
    balance.enough final h.getElem?_last (Instruction.stackEffect_ret isRet)
  have taken : code.take front.length = front := by
    rw [split, List.take_left]
  constructor
  · intro arrived
    obtain ⟨before, _⟩ | ⟨k, _, d₀, same, _, final, lifted⟩ :=
      h.arrives_cases isRet renamed guides balance arrived
    · exact absurd before (Nat.not_lt.2 (Nat.le_add_right _ _))
    · cases Nat.add_left_cancel same
      rw [taken] at lifted
      cases lifts_unique (lifts d₀ (enough final)) lifted
      exact final
  · intro final
    refine h.holds.arrives (guides d (enough final)) (h.arrives_old isRet renamed final).2 ?_ ?_
    · rw [taken]
      exact lifts d (enough final)
    · rw [split, List.length_append]
      exact Nat.lt_succ_self _

/-- What occurs in the list with the code at its end occurs in the list before the last instruction, or is
seen in the code if it starts with what there is at the last instruction. -/
lemma occurs_iff (balance : l.PathsBalance entries returnsValue) :
    l'.Occurs entries' returnsValue d ↔ l.OccursAmong entries returnsValue pre.length d
      ∨ ∃ d₀, l.Arrives entries returnsValue pre.length d₀ ∧ Sees returnsValue code d₀ d := by
  constructor
  · intro occurs
    cases occurs with
    | before arrived here =>
      obtain ⟨before, was⟩ | ⟨k, c, d₀, rfl, at', final, lifts⟩ :=
        h.arrives_cases isRet renamed guides balance arrived
      · rw [h.getElem?_before before] at here
        obtain ⟨j, there, rfl⟩ := Option.map_eq_some_iff.1 here
        exact .inl ⟨_, _, j, before, was, there, .inl rfl⟩
      · exact .inr ⟨d₀, final, k, c, _, at', lifts, .inl rfl⟩
    | behind arrived here takes =>
      obtain ⟨before, was⟩ | ⟨k, c, d₀, rfl, at', final, lifts⟩ :=
        h.arrives_cases isRet renamed guides balance arrived
      · rw [h.getElem?_before before] at here
        obtain ⟨j, there, rfl⟩ := Option.map_eq_some_iff.1 here
        rw [Instruction.stackEffect_retarget] at takes
        exact .inl ⟨_, _, j, before, was, there, .inr ⟨_, takes, rfl⟩⟩
      · cases here.symm.trans (h.holds k c at')
        exact .inr ⟨d₀, final, k, c, _, at', lifts, .inr ⟨_, takes, rfl⟩⟩
  · rintro (⟨p, e, i, before, was, here, seen⟩ | ⟨d₀, final, seen⟩)
    · obtain ⟨_, arrived⟩ := h.arrives_old isRet renamed was
      have there := (h.getElem?_before before).trans (congrArg _ here)
      obtain rfl | ⟨effect, takes, rfl⟩ := seen
      · exact .before arrived there
      · exact .behind arrived there ((Instruction.stackEffect_retarget ..).trans takes)
    · have enough := balance.enough final h.getElem?_last (Instruction.stackEffect_ret isRet)
      exact h.holds.occurs (guides d₀ enough) (h.arrives_old isRet renamed final).2 seen

/-- The stack balances in the list with the code at its end if it does in the list. -/
lemma balance_of_old (balance : l.PathsBalance entries returnsValue) :
    l'.PathsBalance entries' returnsValue where
  handlers e' he' := by
    rw [renamed] at he'
    obtain ⟨e, he, rfl⟩ := he'
    obtain ⟨k, there⟩ := contains_iff_position?.1 (balance.handlers e he)
    exact contains_iff_position?.2 ⟨k, h.position? there⟩
  inside arrived := by
    rw [h.size']
    obtain ⟨before, _⟩ | ⟨k, c, d₀, rfl, at', _⟩ := h.arrives_cases isRet renamed guides balance arrived
    · exact Nat.lt_add_right _ before
    · exact Nat.add_lt_add_left (List.getElem?_eq_some_iff.1 at').1 _
  targets arrived here branch id mem := by
    obtain ⟨before, was⟩ | ⟨k, c, d₀, rfl, at', final, lifts⟩ :=
      h.arrives_cases isRet renamed guides balance arrived
    · rw [h.getElem?_before before] at here
      obtain ⟨j, there, rfl⟩ := Option.map_eq_some_iff.1 here
      have mem : id ∈ (j.operand.retarget last.id ⟨l.nextId⟩).targets := mem
      rw [Operand.targets_retarget] at mem
      obtain ⟨id', named, rfl⟩ := List.mem_map.1 mem
      obtain ⟨q, position⟩ := contains_iff_position?.1 (balance.targets was there branch id' named)
      exact contains_iff_position?.2 ⟨q, h.position? position⟩
    · cases here.symm.trans (h.holds k c at')
      cases ((h.guides_at isRet guides balance final lifts at').admits ⟨0⟩).2.2 id mem
  methods arrived here := by
    obtain ⟨before, was⟩ | ⟨k, c, d₀, rfl, at', final, lifts⟩ :=
      h.arrives_cases isRet renamed guides balance arrived
    · rw [h.getElem?_before before] at here
      obtain ⟨j, there, rfl⟩ := Option.map_eq_some_iff.1 here
      rw [Instruction.method?_retarget]
      exact balance.methods was there
    · cases here.symm.trans (h.holds k c at')
      exact ((h.guides_at isRet guides balance final lifts at').admits _).2.1
  enough arrived here takes := by
    obtain ⟨before, was⟩ | ⟨k, c, d₀, rfl, at', final, lifts⟩ :=
      h.arrives_cases isRet renamed guides balance arrived
    · rw [h.getElem?_before before] at here
      obtain ⟨j, there, rfl⟩ := Option.map_eq_some_iff.1 here
      exact balance.enough was there ((Instruction.stackEffect_retarget ..).symm.trans takes)
    · cases here.symm.trans (h.holds k c at')
      exact ((h.guides_at isRet guides balance final lifts at').admits _).1 _ takes
  agree arrived arrived' := by
    obtain ⟨before, was⟩ | ⟨k, c, d₀, rfl, _, final, lifts⟩ :=
      h.arrives_cases isRet renamed guides balance arrived
    · obtain ⟨_, was'⟩ | ⟨k, _, _, rfl, _⟩ := h.arrives_cases isRet renamed guides balance arrived'
      · exact balance.agree was was'
      · exact absurd before (Nat.not_lt.2 (Nat.le_add_right _ _))
    · obtain ⟨before, _⟩ | ⟨k', _, d₀', same, _, final', lifts'⟩ :=
        h.arrives_cases isRet renamed guides balance arrived'
      · exact absurd before (Nat.not_lt.2 (Nat.le_add_right _ _))
      · cases Nat.add_left_cancel same
        cases balance.agree final final'
        exact lifts_unique lifts lifts'

end Ended

/-! ## Greatest depths -/

/-- Where the stack balances, only a depth that does not fit keeps the greatest from being computed. -/
lemma maxStack_of_balance {handlers : List (InstrId × Nat)} (inhabited : l.isEmpty = false)
    (balance : l.PathsBalance {e | e ∈ handlers} returnsValue) :
    ∃ m, IsGreatest {d | l.Occurs {e | e ∈ handlers} returnsValue d} m
      ∧ l.maxStack handlers returnsValue = if m ≤ 65535 then .ok m
        else .error (.malformed (.stackTooDeep m)) := by
  obtain ⟨known, searched⟩ := search_eq_ok inhabited balance
  refine ⟨known.greatest, (pathsBalance_of_search inhabited searched).2, ?_⟩
  rw [maxStack_eq_search inhabited, searched]
  show (if known.greatest < UInt16.size then _ else _) = _
  by_cases fits : known.greatest ≤ 65535
  · rw [if_pos fits, if_pos (Nat.lt_succ_of_le fits)]
    rfl
  · rw [if_neg fits, if_neg fun small => fits (Nat.le_of_lt_succ small)]
    rfl

/-- Two lists in which the stack balances, and which see the same depths that do not fit, both have a greatest
depth, or none for the same reason. -/
lemma maxStack_cases {handlers handlers' : List (InstrId × Nat)} (inhabited : l.isEmpty = false)
    (inhabited' : l'.isEmpty = false) (balance : l.PathsBalance {e | e ∈ handlers} returnsValue)
    (balance' : l'.PathsBalance {e | e ∈ handlers'} returnsValue)
    (deep : ∀ d, 65535 < d → (l.Occurs {e | e ∈ handlers} returnsValue d
      ↔ l'.Occurs {e | e ∈ handlers'} returnsValue d)) :
    (∃ m m', l.maxStack handlers returnsValue = .ok m ∧ l'.maxStack handlers' returnsValue = .ok m')
      ∨ ∃ e, l.maxStack handlers returnsValue = .error e ∧ l'.maxStack handlers' returnsValue = .error e := by
  obtain ⟨m, greatest, outcome⟩ := maxStack_of_balance inhabited balance
  obtain ⟨m', greatest', outcome'⟩ := maxStack_of_balance inhabited' balance'
  rw [outcome, outcome']
  by_cases fits : m ≤ 65535
  · have fits' : m' ≤ 65535 := by
      by_contra long
      exact long ((greatest.2 ((deep m' (Nat.lt_of_not_le long)).2 greatest'.1)).trans fits)
    rw [if_pos fits, if_pos fits']
    exact .inl ⟨m, m', rfl, rfl⟩
  · have le := greatest'.2 ((deep m (Nat.lt_of_not_le fits)).1 greatest.1)
    have long := (Nat.lt_of_not_le fits).trans_le le
    have same := Nat.le_antisymm le (greatest.2 ((deep m' long).2 greatest'.1))
    rw [← same, if_neg fits]
    exact .inr ⟨_, rfl, rfl⟩

end InstructionList
end HookWeave
