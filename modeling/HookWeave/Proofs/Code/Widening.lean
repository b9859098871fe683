import HookWeave.Proofs.Code.Reach
import Mathlib.Data.Finset.Card
import Mathlib.Order.Bounds.Basic

/-!
# Branches out of reach

Relaxation in terms of sets of short branches. With the branches of a set in their long forms
(`InstructionList.inForms`) every instruction has an offset (`offsetIn`), and a pass adds the branches to the
set that do not reach their targets then (`widenOnce`). Long forms only push instructions apart
(`reaches_mono`). So what the passes add is in every set that leaves no branch out of reach
(`widened_subset`), and where they leave none, it is the least of these sets (`isLeast_widened`). That takes
as many passes as the list has short branches at most (`exists_inReach`). The layout of a list goes through
these very sets and gives up if its last pass finds a branch out of reach (`Layable.layout_eq`).
-/

namespace HookWeave

/-! ## Forms -/

/-- The number of bytes of an instruction. -/
def Instruction.byteSize (i : Instruction) : Nat :=
  i.encodedSize.toOption.getD 0

/-- The form of an instruction where the short branches of a set are in their long forms. -/
def Instruction.formIn (S : Finset InstrId) (i : Instruction) : Instruction :=
  if i.id ∈ S then { i with op := i.op.longForm?.getD i.op } else i

variable {l : InstructionList} {S S' : Finset InstrId} {ps : List Placed} {p : Placed}
  {i : Instruction} {id : InstrId} {long : OpCode} {j k m n : Nat}

namespace Instruction

lemma byteSize_of_encodedSize (h : i.encodedSize = .ok n) : i.byteSize = n := by
  rw [byteSize, h]
  rfl

lemma formIn_id (S : Finset InstrId) (i : Instruction) : (i.formIn S).id = i.id := by
  unfold formIn
  split <;> rfl

lemma formIn_operand (S : Finset InstrId) (i : Instruction) : (i.formIn S).operand = i.operand := by
  unfold formIn
  split <;> rfl

lemma formIn_of_notMem (h : i.id ∉ S) : i.formIn S = i :=
  if_neg h

lemma formIn_of_mem (h : i.id ∈ S) (hlong : i.op.longForm? = some long) :
    i.formIn S = { i with op := long } := by
  rw [formIn, if_pos h, hlong, Option.getD_some]

/-- What has no long form stays. -/
lemma formIn_of_long (h : i.op.longForm? = none) : i.formIn S = i := by
  unfold formIn
  rw [h, Option.getD_none, ite_self]

lemma longForm?_of_not_short (h : ¬ i.op.isShortBranch = true) : i.op.longForm? = none := by
  cases hlong : i.op.longForm? with
  | some long => exact absurd (OpCode.isShortBranch_iff.2 ⟨long, hlong⟩) h
  | none => rfl

/-- A short branch has a displacement of one byte and its long form one of four. -/
lemma encodedSize_of_longForm? (h : i.op.longForm? = some long) :
    i.encodedSize = .ok (i.op.size + 1)
      ∧ ({ i with op := long } : Instruction).encodedSize = .ok (i.op.size + 4) := by
  obtain ⟨short, wide, size⟩ := OpCode.kind_of_longForm? h
  refine ⟨encodedSize_of_size? (by rw [short]; rfl), ?_⟩
  rw [← size]
  exact encodedSize_of_size? (by rw [wide]; rfl)

lemma exists_encodedSize_formIn (h : ∃ n, i.encodedSize = .ok n) :
    ∃ n, (i.formIn S).encodedSize = .ok n := by
  by_cases mem : i.id ∈ S
  · cases hlong : i.op.longForm? with
    | some long =>
      rw [formIn_of_mem mem hlong]
      exact ⟨_, (encodedSize_of_longForm? hlong).2⟩
    | none =>
      rw [formIn_of_long hlong]
      exact h
  · rw [formIn_of_notMem mem]
    exact h

/-- Forms only grow with the set. -/
lemma byteSize_formIn_mono (h : S ⊆ S') (i : Instruction) :
    (i.formIn S).byteSize ≤ (i.formIn S').byteSize := by
  cases hlong : i.op.longForm? with
  | none => rw [formIn_of_long hlong, formIn_of_long hlong]
  | some long =>
    by_cases mem : i.id ∈ S
    · rw [formIn_of_mem mem hlong, formIn_of_mem (h mem) hlong]
    · rw [formIn_of_notMem mem]
      by_cases mem' : i.id ∈ S'
      · obtain ⟨short, wide⟩ := encodedSize_of_longForm? hlong
        rw [formIn_of_mem mem' hlong, byteSize_of_encodedSize short, byteSize_of_encodedSize wide]
        omega
      · rw [formIn_of_notMem mem']

end Instruction

namespace InstructionList

/-- The short branches of a list. -/
def shortBranches (l : InstructionList) : Finset InstrId :=
  ((l.items.filter (·.op.isShortBranch)).map (·.id)).toFinset

/-- The list with the short branches of a set in their long forms. -/
def inForms (l : InstructionList) (S : Finset InstrId) : InstructionList where
  items := l.items.map (·.formIn S)
  nextId := l.nextId
  nodup := by
    simpa only [List.map_map, Function.comp_def, Instruction.formIn_id] using l.nodup
  below i h := by
    obtain ⟨j, hj, rfl⟩ := List.mem_map.1 h
    rw [Instruction.formIn_id]
    exact l.below j hj

/-- The offset of the instruction at a position, with the short branches of a set in their long forms. -/
def offsetIn (l : InstructionList) (S : Finset InstrId) (k : Nat) : Nat :=
  (((l.inForms S).items.take k).map (·.byteSize)).sum

/-- The positions of a branch and of its target. -/
def jump? (l : InstructionList) (id : InstrId) : Option (Nat × Nat) := do
  let k ← l.position? id
  match (← l.items[k]?).operand with
  | .target target => return (k, ← l.position? target)
  | _ => none

/-- The displacement of a branch, with the short branches of a set in their long forms. -/
def displacementIn (l : InstructionList) (S : Finset InstrId) (id : InstrId) : Option Int :=
  (l.jump? id).map fun jump => (l.offsetIn S jump.2 : Int) - l.offsetIn S (jump.1 + 1)

/-- A branch reaches its target over a displacement of one byte. -/
def Reaches (l : InstructionList) (S : Finset InstrId) (id : InstrId) : Prop :=
  ∃ d ∈ l.displacementIn S id, -128 ≤ d ∧ d ≤ 127

instance : DecidablePred (l.Reaches S) := fun id =>
  inferInstanceAs (Decidable (∃ d ∈ l.displacementIn S id, -128 ≤ d ∧ d ≤ 127))

/-- Every short branch outside the set reaches its target. -/
def InReach (l : InstructionList) (S : Finset InstrId) : Prop :=
  ∀ id ∈ l.shortBranches, id ∉ S → l.Reaches S id

instance : Decidable (l.InReach S) :=
  inferInstanceAs (Decidable (∀ id ∈ l.shortBranches, id ∉ S → l.Reaches S id))

/-- The set with the short branches that do not reach their targets. -/
def widenOnce (l : InstructionList) (S : Finset InstrId) : Finset InstrId :=
  S ∪ l.shortBranches.filter fun id => ¬ l.Reaches S id

/-- The branches that are in their long forms after so many passes. -/
def widened (l : InstructionList) : Nat → Finset InstrId
  | 0 => ∅
  | n + 1 => l.widenOnce (l.widened n)

/-! ## Offsets -/

lemma mem_shortBranches :
    id ∈ l.shortBranches ↔ ∃ i ∈ l.items, i.op.isShortBranch = true ∧ i.id = id := by
  simp only [shortBranches, List.mem_toFinset, List.mem_map, List.mem_filter, and_assoc]

/-- An instruction is a short branch if its identity is one of theirs. -/
lemma id_mem_shortBranches (h : i ∈ l.items) :
    i.id ∈ l.shortBranches ↔ i.op.isShortBranch = true := by
  rw [mem_shortBranches]
  constructor
  · rintro ⟨j, hj, short, same⟩
    rw [← List.inj_on_of_nodup_map l.nodup hj h same]
    exact short
  · intro short
    exact ⟨i, h, short, rfl⟩

lemma index_inForms (S : Finset InstrId) : (l.inForms S).index = l.index := by
  unfold index inForms
  rw [List.map_map]
  simp only [Function.comp_def, Instruction.formIn_id]

lemma getElem?_inForms (S : Finset InstrId) (k : Nat) :
    (l.inForms S).items[k]? = l.items[k]?.map (·.formIn S) :=
  List.getElem?_map

lemma offsetIn_succ (hk : l.items[k]? = some i) :
    l.offsetIn S (k + 1) = l.offsetIn S k + (i.formIn S).byteSize := by
  rw [offsetIn, List.take_add_one, getElem?_inForms, hk, List.map_append, List.sum_append]
  rfl

/-- Behind the end all offsets are that of the end. -/
lemma offsetIn_succ_of_none (hk : l.items[k]? = none) : l.offsetIn S (k + 1) = l.offsetIn S k := by
  rw [offsetIn, List.take_add_one, getElem?_inForms, hk]
  simp only [Option.map_none, Option.toList_none, List.append_nil, offsetIn]

lemma offsetIn_le (h : j ≤ k) : l.offsetIn S j ≤ l.offsetIn S k := by
  induction h with
  | refl => exact Nat.le_refl _
  | @step k _ ih =>
    cases hk : l.items[k]? with
    | some i =>
      rw [offsetIn_succ hk]
      omega
    | none =>
      rw [offsetIn_succ_of_none hk]
      exact ih

/-- Two instructions are no nearer to one another where more branches are in their long forms. -/
lemma offsetIn_mono (sub : S ⊆ S') (h : j ≤ k) :
    l.offsetIn S k + l.offsetIn S' j ≤ l.offsetIn S' k + l.offsetIn S j := by
  induction h with
  | refl => exact Nat.le_of_eq (Nat.add_comm _ _)
  | @step k _ ih =>
    cases hk : l.items[k]? with
    | some i =>
      have grows := Instruction.byteSize_formIn_mono sub i
      rw [offsetIn_succ hk, offsetIn_succ hk]
      omega
    | none =>
      rw [offsetIn_succ_of_none hk, offsetIn_succ_of_none hk]
      exact ih

/-- A branch that reaches its target does so where fewer branches are in their long forms. -/
lemma reaches_mono (sub : S ⊆ S') (h : l.Reaches S' id) : l.Reaches S id := by
  obtain ⟨d, hd, low, high⟩ := h
  obtain ⟨⟨k, j⟩, jump, rfl⟩ := Option.map_eq_some_iff.1 hd
  refine ⟨_, Option.map_eq_some_iff.2 ⟨(k, j), jump, rfl⟩, ?_⟩
  dsimp only at low high ⊢
  -- Forward the distance is what lies between the branch and its target, backward also the branch itself.
  obtain forward | backward := Nat.le_total (k + 1) j
  · have apart := offsetIn_mono (l := l) sub forward
    have ordered := offsetIn_le (l := l) (S := S) forward
    omega
  · have apart := offsetIn_mono (l := l) sub backward
    have ordered := offsetIn_le (l := l) (S := S) backward
    omega

/-! ## Passes -/

/-- A pass leaves a set as it is if no branch outside is out of reach. -/
lemma widenOnce_eq_self : l.widenOnce S = S ↔ l.InReach S := by
  rw [widenOnce, Finset.union_eq_left]
  constructor
  · intro within id short outside
    by_contra far
    exact outside (within (Finset.mem_filter.2 ⟨short, far⟩))
  · intro reach id hid
    obtain ⟨short, far⟩ := Finset.mem_filter.1 hid
    by_contra outside
    exact far (reach id short outside)

lemma subset_widenOnce (l : InstructionList) (S : Finset InstrId) : S ⊆ l.widenOnce S :=
  Finset.subset_union_left

lemma widenOnce_subset_shortBranches (sub : S ⊆ l.shortBranches) :
    l.widenOnce S ⊆ l.shortBranches :=
  Finset.union_subset sub (Finset.filter_subset _ _)

lemma widened_subset_shortBranches (l : InstructionList) (n : Nat) :
    l.widened n ⊆ l.shortBranches := by
  induction n with
  | zero => exact Finset.empty_subset _
  | succ n ih => exact widenOnce_subset_shortBranches ih

/-- The passes add no branch but those that every set without branches out of reach holds. -/
lemma widened_subset (h : l.InReach S) (n : Nat) : l.widened n ⊆ S := by
  induction n with
  | zero => exact Finset.empty_subset _
  | succ n ih =>
    refine Finset.union_subset ih fun id hid => ?_
    obtain ⟨short, far⟩ := Finset.mem_filter.1 hid
    -- A branch outside the set is in reach with more branches in their long forms, so it was before.
    by_contra outside
    exact far (reaches_mono ih (h id short outside))

/-- If the passes leave no branch out of reach, what they widened is the least set that does. -/
lemma isLeast_widened (reach : l.InReach (l.widened n)) :
    IsLeast {S | S ⊆ l.shortBranches ∧ l.InReach S} (l.widened n) :=
  ⟨⟨l.widened_subset_shortBranches n, reach⟩, fun _ other => widened_subset other.2 n⟩

/-- Once no branch is out of reach, later passes add none. -/
lemma widened_of_le (reach : l.InReach (l.widened n)) (le : n ≤ m) : l.widened m = l.widened n := by
  induction le with
  | refl => rfl
  | step _ ih =>
    rw [widened, ih]
    exact widenOnce_eq_self.2 reach

/-- As long as branches are out of reach, each pass adds one. -/
lemma le_card_widened (far : ∀ k < n, ¬ l.InReach (l.widened k)) : n ≤ (l.widened n).card := by
  induction n with
  | zero => exact Nat.zero_le _
  | succ n ih =>
    have before := ih fun k hk => far k (Nat.lt_succ_of_lt hk)
    have more : l.widened n ⊂ l.widened (n + 1) :=
      (subset_widenOnce l _).ssubset_of_ne fun same =>
        far n (Nat.lt_succ_self n) (widenOnce_eq_self.1 same.symm)
    have grown := Finset.card_lt_card more
    omega

/-- No branch is out of reach after as many passes as there are short branches at most. -/
lemma exists_inReach (l : InstructionList) :
    ∃ n ≤ l.shortBranches.card, l.InReach (l.widened n) := by
  by_contra none
  have many := le_card_widened (l := l) (n := l.shortBranches.card + 1)
    fun k hk reach => none ⟨k, Nat.le_of_lt_succ hk, reach⟩
  have few := Finset.card_le_card (l.widened_subset_shortBranches (l.shortBranches.card + 1))
  omega

/-! ## Layouts -/

/-- The instructions have sizes, and the short branches lead to listed instructions. -/
structure Layable (l : InstructionList) : Prop where
  sized : ∀ i ∈ l.items, ∃ n, i.encodedSize = .ok n
  leads : ∀ i ∈ l.items, i.op.isShortBranch = true →
    ∃ target j, i.operand = .target target ∧ l.position? target = some j

/-- The pieces are the instructions of the list one after another, the short branches of the set in their
long forms. -/
structure PlacedIn (l : InstructionList) (S : Finset InstrId) (ps : List Placed) : Prop where
  placed : ps.map (·.instruction) = (l.inForms S).items
  consecutive : Consecutive 0 ps

end InstructionList

/-- A piece starts where the pieces before it end. -/
lemma Consecutive.start_eq_sum (h : Consecutive n ps) (hk : ps[k]? = some p) :
    p.start = n + (((ps.map (·.instruction)).take k).map (·.byteSize)).sum := by
  induction h generalizing k with
  | nil => cases hk
  | @cons q qs sized _ ih =>
    cases k with
    | zero =>
      cases hk
      rfl
    | succ k =>
      rw [ih hk, List.map_cons, List.take_succ_cons, List.map_cons, List.sum_cons,
        Instruction.byteSize_of_encodedSize sized, Placed.stop, Nat.add_assoc]

/-- Pieces have as many bytes as their instructions. -/
lemma Consecutive.sum_size (h : Consecutive n ps) :
    (ps.map (·.size)).sum = ((ps.map (·.instruction)).map (·.byteSize)).sum := by
  induction h with
  | nil => rfl
  | cons sized _ ih =>
    simp only [List.map_cons, List.sum_cons, ih, Instruction.byteSize_of_encodedSize sized]

namespace InstructionList

namespace PlacedIn

/-- The piece at a position is the form of the instruction there, between the offsets of the position and
the next. -/
lemma piece (h : l.PlacedIn S ps) (hk : l.items[k]? = some i) :
    ∃ p, ps[k]? = some p ∧ p.instruction = i.formIn S ∧ p.start = l.offsetIn S k
      ∧ p.stop = l.offsetIn S (k + 1) := by
  have form : (ps.map (·.instruction))[k]? = some (i.formIn S) := by
    rw [h.placed, getElem?_inForms, hk, Option.map_some]
  rw [List.getElem?_map, Option.map_eq_some_iff] at form
  obtain ⟨p, hp, form⟩ := form
  have start : p.start = l.offsetIn S k := by
    rw [h.consecutive.start_eq_sum hp, h.placed, Nat.zero_add, offsetIn]
  have size := Instruction.byteSize_of_encodedSize (h.consecutive.encodedSize (List.mem_of_getElem? hp))
  refine ⟨p, hp, form, start, ?_⟩
  rw [offsetIn_succ hk, ← form, size, ← start, Placed.stop]

/-- Every piece is the form of the instruction at some position and ends at the offset of the next. -/
lemma of_mem (h : l.PlacedIn S ps) (hp : p ∈ ps) :
    ∃ k i, l.items[k]? = some i ∧ p.instruction = i.formIn S ∧ p.stop = l.offsetIn S (k + 1) := by
  obtain ⟨k, hk⟩ := List.mem_iff_getElem?.1 hp
  have listed : (ps.map (·.instruction))[k]? = some p.instruction := by
    rw [List.getElem?_map, hk, Option.map_some]
  rw [h.placed, getElem?_inForms, Option.map_eq_some_iff] at listed
  obtain ⟨i, hi, _⟩ := listed
  obtain ⟨_, hk', form, _, stop⟩ := h.piece hi
  cases hk.symm.trans hk'
  exact ⟨k, i, hi, form, stop⟩

/-- The pieces end at the offset of the end. -/
lemma sum_size (h : l.PlacedIn S ps) : (ps.map (·.size)).sum = l.offsetIn S l.size := by
  have whole : (l.inForms S).items.take l.size = (l.inForms S).items :=
    List.take_of_length_le (Nat.le_of_eq (List.length_map _))
  rw [h.consecutive.sum_size, h.placed, offsetIn, whole]

/-- A listed instruction starts at the offset of its position. -/
lemma startOf (h : l.PlacedIn S ps) (position : l.position? id = some k) :
    (l.laidOut ps).startOf id = .ok (l.offsetIn S k) := by
  obtain ⟨i, hk, _⟩ := position?_eq_some.1 position
  obtain ⟨p, hp, _, start, _⟩ := h.piece hk
  rw [startOf_laidOut position hp, start]

lemma ofInstructions (h : l.PlacedIn S ps) :
    Layout.ofInstructions l.index (l.inForms S).items = .ok (l.laidOut ps) := by
  rw [← h.placed]
  exact bind_eq_ok.2 ⟨ps, h.consecutive.placeFrom, rfl⟩

end PlacedIn

lemma jump?_eq_some (hk : l.items[k]? = some i) (operand : i.operand = .target id)
    (position : l.position? id = some j) : l.jump? i.id = some (k, j) := by
  simp only [jump?, position?_getElem hk, hk, operand, position, Option.bind_eq_bind, Option.bind_some]
  rfl

/-- A branch reaches its target if its displacement fits a byte. -/
lemma reaches_iff (hk : l.items[k]? = some i) (operand : i.operand = .target id)
    (position : l.position? id = some j) :
    l.Reaches S i.id ↔ Layout.fitsByte ((l.offsetIn S j : Int) - l.offsetIn S (k + 1)) = true := by
  rw [Reaches, displacementIn, jump?_eq_some hk operand position, Layout.fitsByte]
  simp

namespace Layable

lemma exists_placedIn (h : l.Layable) (S : Finset InstrId) : ∃ ps, l.PlacedIn S ps := by
  have sized : ∀ i ∈ (l.inForms S).items, ∃ n, i.encodedSize = .ok n := by
    intro i hi
    obtain ⟨j, hj, rfl⟩ := List.mem_map.1 hi
    exact Instruction.exists_encodedSize_formIn (h.sized j hj)
  obtain ⟨ps, consecutive, placed⟩ := exists_pieces 0 sized
  exact ⟨ps, placed, consecutive⟩

/-- A piece takes the form that it has after the next pass. -/
lemma widen (h : l.Layable) (placed : l.PlacedIn S ps)
    (hk : l.items[k]? = some i) (hp : ps[k]? = some p) :
    (l.laidOut ps).widen p = .ok (i.formIn (l.widenOnce S)) := by
  have listed := List.mem_of_getElem? hk
  obtain ⟨_, hp', form, _, stop⟩ := placed.piece hk
  cases hp.symm.trans hp'
  unfold Layout.widen
  rw [form]
  dsimp only
  -- A branch in the set is long by now and is not looked at; any other short branch is measured.
  by_cases short : i.op.isShortBranch = true
  · obtain ⟨long, hlong⟩ := OpCode.isShortBranch_iff.1 short
    by_cases mem : i.id ∈ S
    · have wide : ¬ long.isShortBranch = true := by
        rw [OpCode.isShortBranch_iff, OpCode.longForm?_longForm? hlong]
        exact fun ⟨_, h⟩ => nomatch h
      rw [Instruction.formIn_of_mem mem hlong,
        Instruction.formIn_of_mem (subset_widenOnce l S mem) hlong, if_neg wide]
      rfl
    · obtain ⟨target, j, operand, position⟩ := h.leads i listed short
      rw [Instruction.formIn_of_notMem mem, if_pos short, operand]
      refine bind_eq_ok.2 ⟨_, bind_eq_ok.2 ⟨_, placed.startOf position, rfl⟩, ?_⟩
      rw [stop]
      have near := reaches_iff (S := S) hk operand position
      by_cases reaches : l.Reaches S i.id
      · have stays : i.id ∉ l.widenOnce S := by
          rw [widenOnce, Finset.mem_union, Finset.mem_filter]
          rintro (mem' | ⟨_, far⟩)
          · exact mem mem'
          · exact far reaches
        rw [if_pos (near.1 reaches), Instruction.formIn_of_notMem stays]
        rfl
      · have added : i.id ∈ l.widenOnce S :=
          Finset.mem_union_right _ (Finset.mem_filter.2 ⟨(id_mem_shortBranches listed).2 short, reaches⟩)
        rw [if_neg fun fits => reaches (near.2 fits), hlong, Instruction.formIn_of_mem added hlong, operand]
        rfl
  · have stays := Instruction.longForm?_of_not_short short
    rw [Instruction.formIn_of_long stays, Instruction.formIn_of_long stays, if_neg short]
    rfl

/-- A pass widens the branches that are out of reach. -/
lemma widenAll (h : l.Layable) (placed : l.PlacedIn S ps) :
    (l.laidOut ps).widenAll = .ok (l.inForms (l.widenOnce S)).items := by
  refine mapM_eq_ok.2 ?_
  show List.Forall₂ _ ps (l.items.map _)
  have length : ps.length = l.items.length := by
    have lengths := congrArg List.length placed.placed
    rw [List.length_map] at lengths
    exact lengths.trans (List.length_map _)
  rw [List.forall₂_map_right_iff, List.forall₂_iff_get]
  refine ⟨length, fun k hp hk => ?_⟩
  exact h.widen placed (List.getElem?_eq_getElem hk) (List.getElem?_eq_getElem hp)

end Layable

/-- Forms have the same opcodes only if the same branches are widened. -/
lemma eq_of_ops_inForms (sub : S ⊆ l.shortBranches) (sub' : S' ⊆ l.shortBranches)
    (same : (l.inForms S).items.map (·.op) = (l.inForms S').items.map (·.op)) : S = S' := by
  have ops : ∀ i ∈ l.items, (i.formIn S).op = (i.formIn S').op := by
    have maps : l.items.map (fun i => (i.formIn S).op) = l.items.map fun i => (i.formIn S').op := by
      simpa only [inForms, List.map_map, Function.comp_def] using same
    exact List.map_inj_left.1 maps
  have member : ∀ i ∈ l.items, i.op.isShortBranch = true → (i.id ∈ S ↔ i.id ∈ S') := by
    intro i hi short
    obtain ⟨long, hlong⟩ := OpCode.isShortBranch_iff.1 short
    have differs : long ≠ i.op := by
      rintro rfl
      rw [OpCode.longForm?_longForm? hlong] at hlong
      cases hlong
    have op := ops i hi
    by_cases mem : i.id ∈ S
    · by_cases mem' : i.id ∈ S'
      · exact iff_of_true mem mem'
      · rw [Instruction.formIn_of_mem mem hlong, Instruction.formIn_of_notMem mem'] at op
        exact absurd op differs
    · by_cases mem' : i.id ∈ S'
      · rw [Instruction.formIn_of_notMem mem, Instruction.formIn_of_mem mem' hlong] at op
        exact absurd op.symm differs
      · exact iff_of_false mem mem'
  ext id
  constructor
  · intro mem
    obtain ⟨i, hi, short, rfl⟩ := mem_shortBranches.1 (sub mem)
    exact (member i hi short).1 mem
  · intro mem
    obtain ⟨i, hi, short, rfl⟩ := mem_shortBranches.1 (sub' mem)
    exact (member i hi short).2 mem

namespace Layable

/-- Relaxation goes through the sets of widened branches, from any of them on. -/
lemma relax_eq (h : l.Layable) (n m : Nat) :
    Layout.relax l.index (n + 1) (l.inForms (l.widened m)).items
      = if l.InReach (l.widened (m + n)) then
          Layout.ofInstructions l.index (l.inForms (l.widened (m + n))).items
        else .error (.malformed (.layoutUnstable Layout.maxPasses)) := by
  have pass : ∀ n m, Layout.relax l.index (n + 1) (l.inForms (l.widened m)).items
      = if l.InReach (l.widened m) then
          Layout.ofInstructions l.index (l.inForms (l.widened m)).items
        else Layout.relax l.index n (l.inForms (l.widened (m + 1))).items := by
    intro n m
    have sub := l.widened_subset_shortBranches m
    obtain ⟨ps, placed⟩ := h.exists_placedIn (l.widened m)
    rw [Layout.relax, placed.ofInstructions, ok_bind, h.widenAll placed, ok_bind]
    by_cases reach : l.InReach (l.widened m)
    · rw [if_pos reach, widenOnce_eq_self.2 reach, if_pos rfl]
      rfl
    · -- The opcodes that the pass compares differ, since it has added a branch.
      have different := mt (eq_of_ops_inForms (widenOnce_subset_shortBranches sub) sub)
        (mt widenOnce_eq_self.1 reach)
      rw [if_neg reach, if_neg different]
      rfl
  -- By induction on the passes that are left. A set that one of them leaves is left by all others.
  induction n generalizing m with
  | zero => exact pass 0 m
  | succ n ih =>
    rw [pass]
    by_cases reach : l.InReach (l.widened m)
    · rw [if_pos reach, widened_of_le reach (Nat.le_add_right m (n + 1)), if_pos reach]
    · rw [if_neg reach, ih, Nat.add_right_comm m 1 n]
      rfl

/-- The layout of a list has the branches in their long forms that the passes before the last widened; there
is none if that leaves a branch out of reach. -/
lemma layout_eq (h : l.Layable) :
    l.layout = if l.InReach (l.widened (Layout.maxPasses - 1)) then
        Layout.ofInstructions l.index (l.inForms (l.widened (Layout.maxPasses - 1))).items
      else .error (.malformed (.layoutUnstable Layout.maxPasses)) := by
  have start : (l.inForms (l.widened 0)).items = l.items :=
    (List.map_congr_left fun i _ => Instruction.formIn_of_notMem (Finset.notMem_empty i.id)).trans
      (List.map_id _)
  have relaxed := h.relax_eq (Layout.maxPasses - 1) 0
  rw [start, Nat.zero_add] at relaxed
  exact relaxed

end Layable

/-- A list that has a layout has sizes and targets for it. -/
lemma layable_of_layout {layout : Layout} (h : l.layout = .ok layout) : l.Layable := by
  obtain ⟨first, laid, h⟩ := bind_eq_ok.1 h
  obtain ⟨forms, wide, _⟩ := bind_eq_ok.1 h
  obtain ⟨index, _, consecutive, placed⟩ := Layout.ofInstructions_eq_ok laid
  refine ⟨fun i hi => ?_, fun i hi short => ?_⟩
  · rw [← placed] at hi
    obtain ⟨p, hp, rfl⟩ := List.mem_map.1 hi
    exact ⟨p.size, consecutive.encodedSize hp⟩
  · rw [← placed] at hi
    obtain ⟨p, hp, rfl⟩ := List.mem_map.1 hi
    obtain ⟨k, hk⟩ := List.mem_iff_getElem?.1 hp
    obtain ⟨_, _, widened⟩ := forall₂_getElem? (mapM_eq_ok.1 wide) hk
    unfold Layout.widen at widened
    dsimp only at widened
    rw [if_pos short] at widened
    cases operand : p.instruction.operand with
    | target target =>
      rw [operand] at widened
      obtain ⟨_, displaced, _⟩ := bind_eq_ok.1 widened
      obtain ⟨_, started, _⟩ := bind_eq_ok.1 displaced
      obtain ⟨j, position, _⟩ := bind_eq_ok.1 started
      rw [index] at position
      exact ⟨target, j, rfl, index_position.1 position⟩
    | _ =>
      rw [operand] at widened
      cases widened

end InstructionList

end HookWeave
