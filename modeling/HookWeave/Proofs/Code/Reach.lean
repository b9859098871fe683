import HookWeave.Proofs.Code.Settled
import HookWeave.Proofs.Code.Splices

/-!
# Branches that stay in reach

Code is reaching if it is settled but for its size, which may be any (`InstructionList.Reaching`). It stays
so when other code is put into it. In front, all old instructions move by as many bytes, and the short
branches of the new code lead to the first of them over few bytes (`Reaching.fronted`). In place of the
last instruction the new code starts where that one did, and the others stay where they are
(`Reaching.ended`). Neither edit turns a region around (`Region.fronted`, `Region.ended`).
-/

namespace HookWeave

/-- The number of bytes that the instructions take in the forms that they have. -/
def InstructionList.byteSize (l : InstructionList) : Nat :=
  (l.items.map fun i => i.encodedSize.toOption.getD 0).sum

/-- All instructions of the list keep their forms when it is laid out. -/
def InstructionList.KeepsForms (l : InstructionList) : Prop :=
  ∃ layout, l.layout = .ok layout ∧ layout.placed.map (·.instruction) = l.items

/-- The operand is one that the opcode takes, and names no instruction. -/
def Takes (c : OpCode × Operand) : Prop :=
  c.1.info.kind.Holds c.2

/-- Code of so many bytes that goes ahead of an instruction: it holds no branches but short ones to that
instruction, from which it is in reach. -/
inductive Leads (first : InstrId) : Nat → List (OpCode × Operand) → Prop
  | nil : Leads first 0 []
  | plain {op : OpCode} {v : Operand} {code : List (OpCode × Operand)} {k n : Nat} :
    Takes (op, v) → op.info.kind.size? = some k → Leads first n code →
    Leads first (op.size + k + n) ((op, v) :: code)
  | branch {op : OpCode} {code : List (OpCode × Operand)} {n : Nat} :
    op.info.kind = .branch8 → n ≤ 127 → Leads first n code →
    Leads first (op.size + 1 + n) ((op, .target first) :: code)

variable {l l' : InstructionList} {ps ps' qs : List Placed} {p q : Placed} {i last : Instruction}
  {pre items : List Instruction} {code : List (OpCode × Operand)} {id first old new : InstrId}
  {v w : Operand} {n k o start stop : Nat}

/-! ## Operands -/

lemma Operand.sameBy_refl (v : Operand) : v.SameBy Eq v := by
  cases v with
  | switch ids => exact List.forall₂_same.2 fun _ _ => rfl
  | _ => rfl

/-- Operands correspond as their targets are replaced. -/
lemma Operand.sameBy_retarget (v : Operand) :
    v.SameBy (fun a b => b = a.replace old new) (v.retarget old new) := by
  cases v with
  | switch ids =>
    show List.Forall₂ _ ids (ids.map _)
    rw [List.forall₂_map_right_iff]
    exact List.forall₂_same.2 fun _ _ => rfl
  | _ => rfl

namespace OperandKind.Holds

variable {kind : OperandKind}

lemma targets (h : kind.Holds v) : v.targets = [] := by
  cases h with
  | _ => rfl

lemma size? (h : kind.Holds v) : ∃ n, kind.size? = some n := by
  cases h with
  | _ => exact ⟨_, rfl⟩

lemma eq_of_sameBy {r : InstrId → InstrId → Prop} (h : kind.Holds v) (same : v.SameBy r w) : w = v := by
  cases h with
  | _ => cases w <;> exact Eq.symm same

end OperandKind.Holds

lemma Instruction.encodedSize_of_size? (h : i.op.info.kind.size? = some n) :
    i.encodedSize = .ok (i.op.size + n) := by
  simp only [encodedSize, h]

/-- An instruction takes as many bytes whichever instructions it names. -/
lemma Instruction.encodedSize_retarget (h : i.encodedSize = .ok n) :
    (i.retarget old new).encodedSize = .ok n := by
  obtain ⟨id, op, operand⟩ := i
  unfold encodedSize at h ⊢
  unfold retarget
  dsimp only at h ⊢
  cases size : op.info.kind.size? with
  | some k =>
    rw [size] at h
    exact h
  | none =>
    rw [size] at h
    cases operand with
    | switch ids =>
      show Except.ok (op.size + (4 + 4 * (ids.map _).length)) = _
      rw [List.length_map]
      exact h
    | _ => cases h

/-! ## Pieces of code -/

/-- The piece so many bytes further on. -/
def Placed.after (n : Nat) (p : Placed) : Placed :=
  { p with start := p.start + n }

lemma Placed.stop_after : (p.after n).stop = p.stop + n :=
  Nat.add_right_comm p.start n p.size

/-- The piece with an identity replaced by another where its instruction names it. -/
def Placed.retarget (old new : InstrId) (p : Placed) : Placed :=
  { p with instruction := p.instruction.retarget old new }

namespace Consecutive

lemma append (h : Consecutive n ps) (h' : Consecutive (n + (ps.map (·.size)).sum) qs) :
    Consecutive n (ps ++ qs) := by
  induction h with
  | nil => exact h'
  | @cons p ps sized _ ih =>
    rw [List.map_cons, List.sum_cons, ← Nat.add_assoc] at h'
    exact .cons sized (ih h')

lemma of_append (h : Consecutive n (ps ++ qs)) :
    Consecutive n ps ∧ Consecutive (n + (ps.map (·.size)).sum) qs := by
  induction ps generalizing n with
  | nil => exact ⟨.nil, h⟩
  | cons p ps ih =>
    cases h with
    | cons sized others =>
      obtain ⟨front, back⟩ := ih others
      rw [List.map_cons, List.sum_cons, ← Nat.add_assoc]
      exact ⟨.cons sized front, back⟩

lemma start_eq (h : Consecutive n ps) (piece : ps[0]? = some p) : p.start = n := by
  cases h with
  | nil => cases piece
  | cons =>
    cases piece
    rfl

lemma after (h : Consecutive n ps) : Consecutive (n + k) (ps.map (·.after k)) := by
  induction h with
  | nil => exact .nil
  | @cons p ps sized _ ih =>
    rw [← Placed.stop_after] at ih
    exact .cons (p := p.after k) sized ih

lemma retarget (h : Consecutive n ps) : Consecutive n (ps.map (·.retarget old new)) := by
  induction h with
  | nil => exact .nil
  | @cons p ps sized _ ih =>
    exact .cons (p := p.retarget old new) (Instruction.encodedSize_retarget sized) ih

end Consecutive

/-- The operands of code are those of its instructions. -/
lemma holds_of_mem_number (takes : ∀ c ∈ code, Takes c)
    (h : i ∈ InstructionList.number n code) : i.op.info.kind.Holds i.operand := by
  induction code generalizing n with
  | nil => cases h
  | cons c code ih =>
    obtain ⟨first, others⟩ := List.forall_mem_cons.1 takes
    cases h with
    | head => exact first
    | tail _ h => exact ih others h

/-- Instructions that have sizes can be placed one after another. -/
lemma exists_pieces (start : Nat) (sized : ∀ i ∈ items, ∃ n, i.encodedSize = .ok n) :
    ∃ ps, Consecutive start ps ∧ ps.map (·.instruction) = items := by
  induction items generalizing start with
  | nil => exact ⟨[], .nil, rfl⟩
  | cons i is ih =>
    obtain ⟨⟨n, size⟩, others⟩ := List.forall_mem_cons.1 sized
    obtain ⟨ps, consecutive, placed⟩ := ih (start + n) others
    exact ⟨⟨i, start, n⟩ :: ps, .cons (p := ⟨i, start, n⟩) size consecutive, congrArg (i :: ·) placed⟩

/-- Code that leads to an instruction can be placed anywhere. Its operands fit, or are the target of a
branch that reaches the end of the code. -/
lemma Leads.exists_pieces (h : Leads first n code) (k start : Nat) :
    ∃ ps, Consecutive start ps ∧ ps.map (·.instruction) = InstructionList.number k code
      ∧ (ps.map (·.size)).sum = n
      ∧ ∀ p ∈ ps, p.instruction.op.info.kind.Holds p.instruction.operand
        ∨ p.instruction.op.info.kind = .branch8 ∧ p.instruction.operand = .target first
          ∧ Layout.fitsByte (((start + n : Nat) : Int) - p.stop) = true := by
  induction h generalizing k start with
  | nil => exact ⟨[], .nil, rfl, rfl, fun p hp => nomatch hp⟩
  | @plain op v code size n held sized _ ih =>
    obtain ⟨ps, consecutive, placed, sum, each⟩ := ih (k + 1) (start + (op.size + size))
    refine ⟨⟨⟨⟨k⟩, op, v⟩, start, op.size + size⟩ :: ps, ?_, ?_, ?_, ?_⟩
    · exact .cons (p := ⟨_, _, _⟩) (Instruction.encodedSize_of_size? sized) consecutive
    · exact congrArg (_ :: ·) placed
    · rw [List.map_cons, List.sum_cons, sum]
    · rw [Nat.add_assoc] at each
      exact List.forall_mem_cons.2 ⟨.inl held, each⟩
  | @branch op code n kind near _ ih =>
    obtain ⟨ps, consecutive, placed, sum, each⟩ := ih (k + 1) (start + (op.size + 1))
    have sized : op.info.kind.size? = some 1 := by
      rw [kind]
      rfl
    refine ⟨⟨⟨⟨k⟩, op, .target first⟩, start, op.size + 1⟩ :: ps, ?_, ?_, ?_, ?_⟩
    · exact .cons (p := ⟨_, _, _⟩) (Instruction.encodedSize_of_size? sized) consecutive
    · exact congrArg (_ :: ·) placed
    · rw [List.map_cons, List.sum_cons, sum]
    · rw [Nat.add_assoc] at each
      refine List.forall_mem_cons.2 ⟨.inr ⟨kind, rfl, ?_⟩, each⟩
      -- The displacement is the number of bytes that are left of the code.
      show Layout.fitsByte (((start + (op.size + 1 + n) : Nat) : Int) - (start + (op.size + 1) : Nat)) = true
      have left : ((start + (op.size + 1 + n) : Nat) : Int) - (start + (op.size + 1) : Nat) = n := by omega
      rw [left, Layout.fitsByte, Bool.and_eq_true, decide_eq_true_eq, decide_eq_true_eq]
      omega

namespace InstructionList

/-! ## Targets -/

lemma startOf_laidOut (position : l.position? id = some k) (piece : ps[k]? = some p) :
    (l.laidOut ps).startOf id = .ok p.start := by
  refine bind_eq_ok.2 ⟨k, index_position.2 position, congrArg Except.ok ?_⟩
  show (ps.map (·.start)).toArray.getD k 0 = p.start
  obtain ⟨bound, rfl⟩ := List.getElem?_eq_some_iff.1 piece
  simp [bound]

lemma of_startOf_laidOut (placed : ps.map (·.instruction) = l.items)
    (h : (l.laidOut ps).startOf id = .ok o) :
    ∃ k p, l.position? id = some k ∧ ps[k]? = some p ∧ o = p.start := by
  obtain ⟨k, indexed, _⟩ := bind_eq_ok.1 h
  have position := index_position.1 indexed
  obtain ⟨i, listed, rfl⟩ := position?_eq_some.1 position
  rw [← placed, List.getElem?_map, Option.map_eq_some_iff] at listed
  obtain ⟨p, piece, _⟩ := listed
  cases (startOf_laidOut position piece).symm.trans h
  exact ⟨k, p, position, piece, rfl⟩

/-- An operand still fits if its instruction and all of its targets move by as many bytes. -/
lemma exists_fits {r : InstrId → InstrId → Prop} {raw : RawOperand} {kind : OperandKind}
    (moves : ∀ a b o, r a b → (l.laidOut ps).startOf a = .ok o →
      (l'.laidOut ps').startOf b = .ok (o + n))
    (same : v.SameBy r w) (located : (l.laidOut ps).Located v raw) (fits : raw.Fits stop kind) :
    ∃ raw', (l'.laidOut ps').Located w raw' ∧ raw'.Fits (stop + n) kind := by
  cases fits with
  | @resolved _ v' held =>
    cases located with
    | resolved none =>
      rw [held.eq_of_sameBy same]
      exact ⟨.resolved v, .resolved none, .resolved held⟩
  | @near o reached =>
    cases located with
    | @target a o from' =>
      cases w with
      | target b =>
        refine ⟨.target (o + n), .target (moves a b o same from'), .near ?_⟩
        have apart : ((o + n : Nat) : Int) - (stop + n : Nat) = (o : Int) - stop := by omega
        rw [apart]
        exact reached
      | _ => cases same
  | @far o =>
    cases located with
    | @target a o from' =>
      cases w with
      | target b => exact ⟨.target (o + n), .target (moves a b o same from'), .far⟩
      | _ => cases same
  | @switch os =>
    cases located with
    | @switch as os starts =>
      cases w with
      | switch bs =>
        have same : List.Forall₂ r as bs := same
        refine ⟨.switch (os.map (· + n)), .switch ?_, .switch⟩
        rw [List.forall₂_map_right_iff]
        exact forall₂_comp same.flip starts fun b a o related from' => moves a b o related from'
      | _ => cases same

namespace Reaching

/-! ## What reaching code is -/

/-- The pieces take as many bytes as the instructions. -/
lemma sum_size (h : l.Reaching ps) : (ps.map (·.size)).sum = l.byteSize := by
  have sizes : ps.map (·.size) = ps.map fun p => p.instruction.encodedSize.toOption.getD 0 := by
    refine List.map_congr_left fun p hp => ?_
    rw [h.consecutive.encodedSize hp]
    rfl
  rw [sizes, byteSize, ← h.placed, List.map_map]
  rfl

/-- Reaching code is settled if it is not too large. -/
lemma settled (h : l.Reaching ps) (small : l.byteSize ≤ Encoding.maxCompressed) : l.Settled ps :=
  ⟨h.placed, h.consecutive, h.fits, h.sum_size.trans_le small⟩

end Reaching

lemma Settled.keepsForms (h : l.Settled ps) : l.KeepsForms :=
  ⟨_, h.reaching.layout, h.placed⟩

namespace Reaching

/-! ## Code in front -/

/-- Code in front of reaching code that leads to the first instruction leaves it reaching. -/
lemma fronted {i : Instruction} (h : l.Reaching ps) (fronted : l.Fronted l' code)
    (head : l.items[0]? = some i) (leads : Leads i.id n code) : ∃ ps', l'.Reaching ps' := by
  obtain ⟨qs, ahead, pieces, sum, each⟩ := leads.exists_pieces l.nextId 0
  have length : qs.length = code.length := by
    have lengths := congrArg List.length pieces
    rwa [List.length_map, length_number] at lengths
  have behind {k : Nat} {p : Placed} (piece : ps[k]? = some p) :
      (qs ++ ps.map (·.after n))[code.length + k]? = some (p.after n) := by
    rw [← length, List.getElem?_append_right (Nat.le_add_right _ _), Nat.add_sub_cancel_left,
      List.getElem?_map, piece]
    rfl
  have moves : ∀ a b o, a = b → (l.laidOut ps).startOf a = .ok o →
      (l'.laidOut (qs ++ ps.map (·.after n))).startOf b = .ok (o + n) := by
    rintro a _ o rfl started
    obtain ⟨k, p, position, piece, rfl⟩ := of_startOf_laidOut h.placed started
    exact startOf_laidOut (fronted.position?_behind.2 position) (behind piece)
  refine ⟨qs ++ ps.map (·.after n), ?_, ahead.append ?_, ?_⟩
  · rw [List.map_append, pieces, List.map_map, fronted.items, ← h.placed]
    rfl
  · rw [sum]
    exact h.consecutive.after
  · refine List.forall_mem_append.2 ⟨fun p hp => ?_, List.forall_mem_map.2 fun p hp => ?_⟩
    · obtain held | ⟨kind, operand, near⟩ := each p hp
      · exact ⟨_, .resolved held.targets, .resolved held⟩
      · -- The branch is to the first of the old instructions, which starts behind the code.
        have listed := head
        rw [← h.placed, List.getElem?_map, Option.map_eq_some_iff] at listed
        obtain ⟨q, piece, rfl⟩ := listed
        have started := moves _ _ _ rfl (startOf_laidOut (position?_getElem head) piece)
        rw [h.consecutive.start_eq piece] at started
        rw [kind, operand]
        exact ⟨_, .target started, .near near⟩
    · obtain ⟨raw, located, fits⟩ := h.fits p hp
      rw [Placed.stop_after]
      exact exists_fits moves (Operand.sameBy_refl _) located fits

/-! ## Code in place of the last instruction -/

/-- With other pieces in place of the last one, at each position something starts where a piece did. -/
lemma exists_start {ts : List Placed} {t : Placed} (le : k ≤ qs.length)
    (piece : (qs ++ [q])[k]? = some p) (there : ts[0]? = some t) (same : t.start = q.start) :
    ∃ p', (qs.map (·.retarget old new) ++ ts)[k]? = some p' ∧ p'.start = p.start := by
  cases Nat.lt_or_eq_of_le le with
  | inl lt =>
    rw [List.getElem?_append_left lt] at piece
    rw [List.getElem?_append_left (by rwa [List.length_map]), List.getElem?_map, piece]
    exact ⟨_, rfl, rfl⟩
  | inr last =>
    subst last
    rw [List.getElem?_append_right (Nat.le_refl _), Nat.sub_self] at piece
    cases piece
    rw [List.getElem?_append_right (by rw [List.length_map]), List.length_map, Nat.sub_self]
    exact ⟨t, there, same⟩

/-- Code without branches in place of the last instruction of reaching code leaves it reaching. -/
lemma ended (h : l.Reaching ps) (ended : l.Ended l' pre last code)
    (takes : ∀ c ∈ code, Takes c) : ∃ ps', l'.Reaching ps' := by
  obtain ⟨qs, rs, rfl, front, back⟩ := List.map_eq_append_iff.1 (h.placed.trans ended.was)
  obtain ⟨q, rfl, _⟩ := List.map_eq_singleton_iff.1 back
  have length : qs.length = pre.length := by rw [← front, List.length_map]
  obtain ⟨before, final⟩ := h.consecutive.of_append
  have sized : ∀ i ∈ number l.nextId code, ∃ n, i.encodedSize = .ok n := by
    intro i hi
    obtain ⟨n, size⟩ := (holds_of_mem_number takes hi).size?
    exact ⟨_, Instruction.encodedSize_of_size? size⟩
  obtain ⟨ts, behind, pieces⟩ := exists_pieces (0 + (qs.map (·.size)).sum) sized
  obtain ⟨t, there⟩ : ∃ t, ts[0]? = some t := by
    obtain ⟨c, others, rfl⟩ := List.exists_cons_of_ne_nil ended.inhabited
    obtain ⟨t, _, rfl, _⟩ := List.map_eq_cons_iff.1 pieces
    exact ⟨t, rfl⟩
  have moves : ∀ a b o, b = a.replace last.id ⟨l.nextId⟩ → (l.laidOut (qs ++ [q])).startOf a = .ok o →
      (l'.laidOut (qs.map (·.retarget last.id ⟨l.nextId⟩) ++ ts)).startOf b = .ok (o + 0) := by
    rintro a _ o rfl started
    obtain ⟨k, p, position, piece, rfl⟩ := of_startOf_laidOut h.placed started
    obtain ⟨p', piece', same⟩ := exists_start (length ▸ ended.le_of_position? position) piece there
      ((behind.start_eq there).trans (final.start_eq rfl).symm)
    rw [Nat.add_zero, ← same]
    exact startOf_laidOut (ended.position? position) piece'
  refine ⟨qs.map (·.retarget last.id ⟨l.nextId⟩) ++ ts, ?_, before.retarget.append ?_, ?_⟩
  · rw [List.map_append, pieces, List.map_map, ended.items, ← front, List.map_map]
    rfl
  · rw [List.map_map]
    exact behind
  · refine List.forall_mem_append.2 ⟨List.forall_mem_map.2 fun p hp => ?_, fun p hp => ?_⟩
    · obtain ⟨raw, located, fits⟩ := h.fits p (List.mem_append_left _ hp)
      exact exists_fits (n := 0) moves (Operand.sameBy_retarget _) located fits
    · have held := holds_of_mem_number takes (pieces ▸ List.mem_map_of_mem hp)
      exact ⟨_, .resolved held.targets, .resolved held⟩

end Reaching

/-! ## Regions -/

variable {a : InstrId} {b : Option InstrId}

lemma Region.fronted (h : l.Region a b) (fronted : l.Fronted l' code) : l'.Region a b := by
  obtain ⟨i, first, behind⟩ := h
  refine ⟨code.length + i, fronted.position?_behind.2 first, fun id hid => ?_⟩
  obtain ⟨j, stops, le⟩ := behind id hid
  exact ⟨code.length + j, fronted.position?_behind.2 stops, Nat.add_le_add_left le _⟩

lemma Region.ended (h : l.Region a b) (ended : l.Ended l' pre last code) :
    l'.Region (a.replace last.id ⟨l.nextId⟩) (b.map (·.replace last.id ⟨l.nextId⟩)) := by
  obtain ⟨i, first, behind⟩ := h
  refine ⟨i, ended.position? first, fun id hid => ?_⟩
  obtain ⟨id, there, rfl⟩ := Option.map_eq_some_iff.1 hid
  obtain ⟨j, stops, le⟩ := behind id there
  exact ⟨j, ended.position? stops, le⟩

end InstructionList

end HookWeave
