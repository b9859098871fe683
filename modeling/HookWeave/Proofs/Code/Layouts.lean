import HookWeave.Proofs.Code.Lists
import HookWeave.Proofs.Code.OpCodes
import HookWeave.Proofs.Outcomes

/-!
# What a layout says

The layout that relaxation settles on is the layout of the very forms that are written: its pieces
stand one after another from offset 0 (`Consecutive`), and each is an instruction of the list or the
long form of one (`layout_eq_ok`). Instructions have a byte at least, so their starts ascend and an
offset is the start of one of them at most (`Consecutive.idxOf?_start`).
-/

namespace HookWeave

variable {items forms : List Instruction} {ps : List Placed} {p : Placed} {start n k : Nat}

/-! ## Pieces one after another -/

/-- Instructions of the sizes that their forms have, one after another from an offset on. -/
inductive Consecutive : Nat → List Placed → Prop
  | nil {n : Nat} : Consecutive n []
  | cons {p : Placed} {ps : List Placed} :
    p.instruction.encodedSize = .ok p.size →
    Consecutive p.stop ps →
    Consecutive p.start (p :: ps)

/-- Instructions are placed one after another, all of them. -/
lemma placeFrom_eq_ok (h : placeFrom start items = .ok ps) :
    Consecutive start ps ∧ ps.map (·.instruction) = items := by
  induction items generalizing start ps with
  | nil =>
    cases h
    exact ⟨.nil, rfl⟩
  | cons i is ih =>
    obtain ⟨size, sized, h⟩ := bind_eq_ok.1 h
    obtain ⟨rest, placed, h⟩ := bind_eq_ok.1 h
    cases h
    obtain ⟨consecutive, all⟩ := ih placed
    refine ⟨.cons (p := ⟨i, start, size⟩) sized consecutive, ?_⟩
    rw [List.map_cons, all]

/-- An instruction takes a byte at least. -/
lemma Instruction.encodedSize_pos {i : Instruction} (h : i.encodedSize = .ok n) : 0 < n := by
  have op := i.op.size_pos
  unfold encodedSize at h
  split at h
  · cases h
    omega
  · cases h
    omega
  · cases h

/-- No piece starts before the first. -/
lemma Consecutive.le_start (h : Consecutive n ps) (hp : p ∈ ps) : n ≤ p.start := by
  induction h with
  | nil => cases hp
  | @cons q qs sized _ ih =>
    cases hp with
    | head => exact Nat.le_refl _
    | tail _ hp =>
      have := ih hp
      unfold Placed.stop at this
      omega

/-- The starts of pieces ascend. -/
lemma Consecutive.ascending (h : Consecutive n ps) : (ps.map (·.start)).Pairwise (· < ·) := by
  induction h with
  | nil => exact .nil
  | @cons q qs sized after ih =>
    refine List.pairwise_cons.2 ⟨fun start hs => ?_, ih⟩
    obtain ⟨p, hp, rfl⟩ := List.mem_map.1 hs
    have pos := Instruction.encodedSize_pos sized
    have le : q.start + q.size ≤ p.start := after.le_start hp
    show q.start < p.start
    omega

/-- The offset of a piece is found at the position of the piece. -/
lemma Consecutive.idxOf?_start (h : Consecutive n ps) (hk : ps[k]? = some p) :
    (ps.map (·.start)).idxOf? p.start = some k := by
  have nodup : (ps.map (·.start)).Nodup := h.ascending.imp Nat.ne_of_lt
  have found : (ps.map (·.start))[k]? = some p.start := by
    rw [List.getElem?_map, hk, Option.map_some]
  obtain ⟨bound, found⟩ := List.getElem?_eq_some_iff.1 found
  rw [List.idxOf?_eq_some_iff]
  refine ⟨bound, found, fun j before same => ?_⟩
  rw [← found] at same
  exact Nat.ne_of_lt before ((List.getElem_inj nodup).1 same)

/-! ## Forms -/

/-- The same instruction, or the same branch in its long form. -/
structure Instruction.Widens (i j : Instruction) : Prop where
  id : j.id = i.id
  operand : j.operand = i.operand
  op : j.op = i.op ∨ i.op.longForm? = some j.op

/-- An instruction is a form of itself. -/
lemma Instruction.Widens.refl (i : Instruction) : i.Widens i :=
  ⟨rfl, rfl, .inl rfl⟩

/-- Widening twice is widening once, since a long form stays. -/
lemma Instruction.Widens.trans {i j k : Instruction} (h : i.Widens j) (h' : j.Widens k) :
    i.Widens k := by
  refine ⟨h'.id.trans h.id, h'.operand.trans h.operand, ?_⟩
  cases h.op with
  | inl same =>
    rw [← same]
    exact h'.op
  | inr long =>
    cases h'.op with
    | inl same =>
      rw [same]
      exact .inr long
    | inr longer =>
      rw [OpCode.longForm?_longForm? long] at longer
      cases longer

namespace Layout

variable {l layout : Layout} {index : InstructionIndex}

/-- A piece keeps its form or takes the long one. -/
lemma widens_of_widen {i : Instruction} (h : l.widen p = .ok i) : p.instruction.Widens i := by
  unfold widen at h
  simp only at h
  split at h
  · split at h
    · obtain ⟨d, _, h⟩ := bind_eq_ok.1 h
      split at h
      · cases h
        exact .refl _
      · split at h
        · next long =>
          cases h
          exact ⟨rfl, rfl, .inr long⟩
        · cases h
    · cases h
  · cases h
    exact .refl _

/-- A layout widens the instructions that it places. -/
lemma widens_of_widenAll (h : l.widenAll = .ok forms) :
    List.Forall₂ Instruction.Widens (l.placed.map (·.instruction)) forms := by
  rw [List.forall₂_map_left_iff]
  exact (mapM_eq_ok.1 h).imp fun _ _ => widens_of_widen

/-- A layout places the instructions that it is made for. -/
lemma ofInstructions_eq_ok (h : ofInstructions index items = .ok l) :
    l.index = index ∧ l.starts = (l.placed.map (·.start)).toArray
      ∧ Consecutive 0 l.placed ∧ l.placed.map (·.instruction) = items := by
  obtain ⟨_, placed, h⟩ := bind_eq_ok.1 h
  cases h
  exact ⟨rfl, rfl, placeFrom_eq_ok placed⟩

/-- Relaxation ends with the layout of forms of the instructions. -/
lemma relax_eq_ok (h : relax index n items = .ok layout) :
    ∃ forms, List.Forall₂ Instruction.Widens items forms
      ∧ ofInstructions index forms = .ok layout := by
  induction n generalizing items with
  | zero => cases h
  | succ n ih =>
    obtain ⟨l, placed, h⟩ := bind_eq_ok.1 h
    obtain ⟨widened, wide, h⟩ := bind_eq_ok.1 h
    split at h
    · cases h
      exact ⟨items, List.forall₂_same.2 fun i _ => .refl i, placed⟩
    · obtain ⟨forms, wider, laid⟩ := ih h
      have wide := widens_of_widenAll wide
      rw [(ofInstructions_eq_ok placed).2.2.2] at wide
      exact ⟨forms, forall₂_comp wide wider fun _ _ _ => Instruction.Widens.trans, laid⟩

/-- A layout that widens nothing is the one that relaxation ends with. -/
lemma relax_of_widenAll (laid : ofInstructions index items = .ok layout)
    (stable : layout.widenAll = .ok items) : relax index (n + 1) items = .ok layout :=
  bind_eq_ok.2 ⟨layout, laid, bind_eq_ok.2 ⟨items, stable, if_pos rfl⟩⟩

end Layout

/-! ## The layout of a list -/

variable {l : InstructionList} {layout : Layout} {id : InstrId} {o : Nat}

/-- The layout of a list places forms of its instructions one after another from offset 0. -/
lemma InstructionList.layout_eq_ok (h : l.layout = .ok layout) :
    List.Forall₂ Instruction.Widens l.items (layout.placed.map (·.instruction))
      ∧ Consecutive 0 layout.placed ∧ layout.index = l.index
      ∧ layout.starts = (layout.placed.map (·.start)).toArray := by
  obtain ⟨forms, wide, h⟩ := Layout.relax_eq_ok h
  obtain ⟨index, starts, consecutive, placed⟩ := Layout.ofInstructions_eq_ok h
  rw [placed]
  exact ⟨wide, consecutive, index, starts⟩

/-- The start of a listed instruction is where the piece at its position starts. -/
lemma Layout.startOf_eq_ok (h : l.layout = .ok layout) (hs : layout.startOf id = .ok o) :
    ∃ k p, l.position? id = some k ∧ layout.placed[k]? = some p ∧ o = p.start := by
  obtain ⟨wide, _, index, starts⟩ := l.layout_eq_ok h
  obtain ⟨k, position, e⟩ := bind_eq_ok.1 hs
  cases e
  rw [index, InstructionList.index_position] at position
  obtain ⟨i, hk, _⟩ := InstructionList.position?_eq_some.1 position
  have bound : k < layout.placed.length := by
    have : k < l.items.length := (List.getElem?_eq_some_iff.1 hk).1
    rw [wide.length_eq, List.length_map] at this
    exact this
  refine ⟨k, layout.placed[k], position, List.getElem?_eq_getElem bound, ?_⟩
  rw [starts]
  simp [bound]

/-- Targets are valid if they are listed. -/
lemma InstructionList.validateTargets_of_listed {l : InstructionList}
    (listed : ∀ i ∈ l.items, ∀ id ∈ i.operand.targets, l.contains id = true) :
    l.validateTargets = .ok () := by
  have each : ∀ i ∈ l.items, l.checkTargets i.id i.operand = .ok () := by
    intro i hi
    rw [checkTargets, List.find?_eq_none.2 fun id hid => by rw [listed i hi id hid]; decide]
  have all : ∀ items : List Instruction, (∀ i ∈ items, l.checkTargets i.id i.operand = .ok ()) →
      items.forM (fun i => l.checkTargets i.id i.operand) = .ok () := by
    intro items
    induction items with
    | nil => exact fun _ => rfl
    | cons i items ih =>
      intro each
      obtain ⟨first, others⟩ := List.forall_mem_cons.1 each
      exact bind_eq_ok.2 ⟨(), first, ih others⟩
  exact all l.items each

end HookWeave
