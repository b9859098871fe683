import HookWeave.Proofs.Code.RoundTrip
import Mathlib.Algebra.BigOperators.Group.List.Basic

/-!
# Code that keeps its layout

A list of instructions is reaching if its instructions, placed one after another as they are, hold
operands of the kinds of their opcodes and reach the targets that they name
(`InstructionList.Reaching`), and settled if they also are few enough bytes to be counted
(`InstructionList.Settled`). The layout of such a list widens no branch (`Reaching.layout`), and nothing
can go wrong with the bytes of an instruction but the request for the token of its reference
(`Reaching.operandBytes`), so reaching code is written if all of these requests are answered
(`Reaching.emit`). Regions of settled code that stop no earlier than they start have a length
(`Settled.region`).
-/

namespace HookWeave

/-! ## What settled code holds -/

/-- An operand without targets is one of those that the kind can hold. -/
inductive OperandKind.Holds : OperandKind → Operand → Prop
  | none : Holds .none .none
  | int8 {v : Int32} : -128 ≤ v ∧ v ≤ 127 → Holds .int8 (.int32 v)
  | int32 {v : Int32} : Holds .int32 (.int32 v)
  | int64 {v : Int64} : Holds .int64 (.int64 v)
  | float32 {bits : UInt32} : Holds .float32 (.float32 bits)
  | float64 {bits : UInt64} : Holds .float64 (.float64 bits)
  | arg8 {slot : UInt16} : slot ≤ 255 → Holds .arg8 (.arg slot)
  | arg16 {slot : UInt16} : Holds .arg16 (.arg slot)
  | loc8 {slot : UInt16} : slot ≤ 255 → Holds .loc8 (.loc slot)
  | loc16 {slot : UInt16} : Holds .loc16 (.loc slot)
  | method {m : MethodRef} : Holds .method (.method m)
  | field {f : FieldRef} : Holds .field (.field f)
  | type {t : TypeSig} : Holds .type (.type t)
  | string {s : String} : Holds .string (.string s)

/-- The operand of an instruction that ends at `stop` is one that the kind can hold; a target of a
short branch is in reach. -/
inductive RawOperand.Fits (stop : Nat) : OperandKind → RawOperand → Prop
  | resolved {k : OperandKind} {v : Operand} : k.Holds v → Fits stop k (.resolved v)
  | near {o : Nat} : Layout.fitsByte ((o : Int) - stop) = true → Fits stop .branch8 (.target o)
  | far {o : Nat} : Fits stop .branch32 (.target o)
  | switch {os : List Nat} : Fits stop .switch (.switch os)

namespace InstructionList

/-- The layout in which the pieces are placed for the instructions of the list. -/
def laidOut (l : InstructionList) (ps : List Placed) : Layout :=
  ⟨ps, (ps.map (·.start)).toArray, l.index⟩

/-- The pieces are the instructions of the list as they are, one after another, with operands that
fit. -/
structure Reaching (l : InstructionList) (ps : List Placed) : Prop where
  placed : ps.map (·.instruction) = l.items
  consecutive : Consecutive 0 ps
  fits : ∀ p ∈ ps, ∃ raw, (l.laidOut ps).Located p.instruction.operand raw
    ∧ raw.Fits p.stop p.instruction.op.info.kind

/-- The pieces are the instructions of the list as they are, one after another, with operands that
fit and few enough bytes to be counted. -/
structure Settled (l : InstructionList) (ps : List Placed) : Prop where
  placed : ps.map (·.instruction) = l.items
  consecutive : Consecutive 0 ps
  fits : ∀ p ∈ ps, ∃ raw, (l.laidOut ps).Located p.instruction.operand raw
    ∧ raw.Fits p.stop p.instruction.op.info.kind
  small : (ps.map (·.size)).sum ≤ Encoding.maxCompressed

/-- The region starts at a listed instruction and stops at none in front of it, or at the end. -/
def Region (l : InstructionList) (start : InstrId) (stop : Option InstrId) : Prop :=
  ∃ i, l.position? start = some i ∧ ∀ id ∈ stop, ∃ j, l.position? id = some j ∧ i ≤ j

end InstructionList

variable {ps : List Placed} {p : Placed} {n k : Nat} {l : InstructionList}

/-! ## Pieces one after another -/

/-- Pieces that stand one after another are placed like that. -/
lemma Consecutive.placeFrom (h : Consecutive n ps) :
    placeFrom n (ps.map (·.instruction)) = .ok ps := by
  induction h with
  | nil => rfl
  | @cons p ps sized _ ih =>
    exact bind_eq_ok.2 ⟨p.size, sized, bind_eq_ok.2 ⟨ps, ih, rfl⟩⟩

/-- No piece ends behind the sum of all sizes. -/
lemma Consecutive.stop_le (h : Consecutive n ps) (hp : p ∈ ps) :
    p.stop ≤ n + (ps.map (·.size)).sum := by
  induction h with
  | nil => cases hp
  | @cons q qs _ _ ih =>
    rw [List.map_cons, List.sum_cons]
    cases hp with
    | head =>
      unfold Placed.stop
      omega
    | tail _ hp =>
      have le := ih hp
      rw [show q.stop = q.start + q.size from rfl] at le
      omega

/-- Pieces have the sizes of their instructions. -/
lemma Consecutive.encodedSize (h : Consecutive n ps) (hp : p ∈ ps) :
    p.instruction.encodedSize = .ok p.size := by
  induction h with
  | nil => cases hp
  | cons sized _ ih =>
    cases hp with
    | head => exact sized
    | tail _ hp => exact ih hp

/-- Later pieces start later. -/
lemma Consecutive.start_le {q : Placed} {j : Nat} (h : Consecutive n ps) (hk : ps[k]? = some p)
    (hj : ps[j]? = some q) (le : k ≤ j) : p.start ≤ q.start := by
  obtain rfl | lt := Nat.eq_or_lt_of_le le
  · cases hk.symm.trans hj
    exact Nat.le_refl _
  · obtain ⟨boundk, rfl⟩ := List.getElem?_eq_some_iff.1 hk
    obtain ⟨boundj, rfl⟩ := List.getElem?_eq_some_iff.1 hj
    exact Nat.le_of_lt (List.pairwise_iff_getElem.1 (List.pairwise_map.1 h.ascending) k j boundk boundj lt)

namespace InstructionList.Reaching

variable {σ : Type} {qs : List Placed} {id : InstrId} {o : Nat}

/-! ## The layout -/

lemma ofInstructions (h : l.Reaching ps) :
    Layout.ofInstructions l.index l.items = .ok (l.laidOut ps) := by
  rw [← h.placed]
  exact bind_eq_ok.2 ⟨ps, h.consecutive.placeFrom, rfl⟩

/-- No branch of reaching code is widened. -/
lemma widen (h : l.Reaching ps) (hp : p ∈ ps) : (l.laidOut ps).widen p = .ok p.instruction := by
  obtain ⟨raw, located, fits⟩ := h.fits p hp
  unfold Layout.widen
  dsimp only
  split
  · next short =>
    rw [of_decide_eq_true short] at fits
    cases fits with
    | resolved held => cases held
    | @near o reached =>
      generalize p.instruction.operand = v at located
      cases located with
      | @target id o start =>
        refine bind_eq_ok.2 ⟨_, bind_eq_ok.2 ⟨o, start, rfl⟩, ?_⟩
        exact if_pos reached
  · rfl

/-- Reaching code is laid out as it stands. -/
lemma layout (h : l.Reaching ps) : l.layout = .ok (l.laidOut ps) := by
  refine Layout.relax_of_widenAll h.ofInstructions ?_
  rw [← h.placed]
  refine mapM_eq_ok.2 ?_
  rw [List.forall₂_map_right_iff]
  exact List.forall₂_same.2 fun p hp => h.widen hp

/-- A target of reaching code starts where a piece does. -/
lemma startOf (h : l.Reaching ps) (ho : (l.laidOut ps).startOf id = .ok o) :
    ∃ k p, l.position? id = some k ∧ ps[k]? = some p ∧ o = p.start :=
  Layout.startOf_eq_ok h.layout ho

/-- What an instruction of reaching code names is listed. -/
lemma contains (h : l.Reaching ps) (hp : p ∈ ps) (named : id ∈ p.instruction.operand.targets) :
    l.contains id = true := by
  obtain ⟨raw, located, _⟩ := h.fits p hp
  have started : ∃ o, (l.laidOut ps).startOf id = .ok o := by
    generalize p.instruction.operand = v at located named
    cases located with
    | resolved none =>
      rw [none] at named
      cases named
    | @target _ o start =>
      rw [List.mem_singleton.1 named]
      exact ⟨o, start⟩
    | @switch ids os starts =>
      obtain ⟨j, hj⟩ := List.mem_iff_getElem?.1 named
      obtain ⟨o, _, start⟩ := forall₂_getElem? starts hj
      exact ⟨o, start⟩
  obtain ⟨o, start⟩ := started
  obtain ⟨k, _, position, _⟩ := h.startOf start
  exact contains_iff_position?.2 ⟨k, position⟩

/-- All targets of reaching code are listed. -/
lemma validateTargets (h : l.Reaching ps) : l.validateTargets = .ok () := by
  refine validateTargets_of_listed fun i hi id named => ?_
  rw [← h.placed] at hi
  obtain ⟨p, hp, rfl⟩ := List.mem_map.1 hi
  exact h.contains hp named

/-! ## Bytes -/

/-- Displacements of reaching code of less than 2 GiB fit four bytes. -/
lemma displacement32 (cause : Int → Malformation) (h : l.Reaching ps)
    (small : (ps.map (·.size)).sum < 2 ^ 31) (hp : p ∈ ps) (start : (l.laidOut ps).startOf id = .ok o) :
    ∃ bytes, EncodedBody.displacement32 cause ((o : Int) - p.stop) = .ok bytes := by
  obtain ⟨k, q, _, hk, rfl⟩ := h.startOf start
  have stop := h.consecutive.stop_le hp
  have before := h.consecutive.stop_le (List.mem_of_getElem? hk)
  unfold Placed.stop at *
  exact ⟨_, if_pos ⟨by omega, by omega⟩⟩

/-- Jump tables of reaching code of less than 2 GiB can be written. -/
lemma jumpTable {ids : List InstrId} {os : List Nat} (h : l.Reaching ps)
    (small : (ps.map (·.size)).sum < 2 ^ 31) (hp : p ∈ ps)
    (starts : List.Forall₂ (fun id o => (l.laidOut ps).startOf id = .ok o) ids os) :
    ∃ bytes, EncodedBody.jumpTable (l.laidOut ps) p ids = .ok bytes := by
  induction starts with
  | nil => exact ⟨[], rfl⟩
  | @cons id o ids os start _ ih =>
    obtain ⟨entry, written⟩ := h.displacement32 .jumpTableDisplacement small hp start
    obtain ⟨entries, others⟩ := ih
    exact ⟨entry ++ entries, bind_eq_ok.2 ⟨_, bind_eq_ok.2 ⟨o, start, rfl⟩,
      bind_eq_ok.2 ⟨entry, written, bind_eq_ok.2 ⟨entries, others, rfl⟩⟩⟩⟩

/-- The operand of a piece of reaching code is written at once, or as the token of its reference. -/
lemma operandBytes (tokens : TokenAllocator σ) (h : l.Reaching ps)
    (small : (ps.map (·.size)).sum < 2 ^ 31) (hp : p ∈ ps) :
    (p.instruction.operand.references = []
        ∧ ∃ bytes, EncodedBody.operandBytes tokens (l.laidOut ps) p = pure bytes)
      ∨ ∃ r, p.instruction.operand.references = [r]
        ∧ EncodedBody.operandBytes tokens (l.laidOut ps) p
          = tokens.request r >>= fun token => pure (Encoding.uint32 token.value) := by
  obtain ⟨raw, located, fits⟩ := h.fits p hp
  have sized := h.consecutive.encodedSize hp
  have bounded := h.consecutive.stop_le hp
  unfold EncodedBody.operandBytes
  unfold Instruction.encodedSize at sized
  dsimp only
  generalize p.instruction.op.info.kind = k at fits sized ⊢
  generalize p.instruction.operand = v at located sized ⊢
  cases fits with
  | @resolved k v' held =>
    cases located with
    | resolved =>
      cases held with
      | none | int32 | int64 | float32 | float64 | arg16 | loc16 => exact .inl ⟨rfl, _, rfl⟩
      | int8 range | arg8 range | loc8 range => exact .inl ⟨rfl, _, if_pos range⟩
      | method | field | type | string => exact .inr ⟨_, rfl, rfl⟩
  | @near o reached =>
    cases located with
    | @target id o start =>
      refine .inl ⟨rfl, Encoding.int8 (Int8.ofInt ((o : Int) - p.stop)), ?_⟩
      have displaced : (l.laidOut ps).displacement p id = .ok ((o : Int) - p.stop) :=
        bind_eq_ok.2 ⟨o, start, rfl⟩
      funext s
      refine run_lift_bind_eq_ok.2 ⟨_, displaced, run_lift_eq_ok.2 ⟨?_, rfl⟩⟩
      exact if_pos reached
  | @far o =>
    cases located with
    | @target id o start =>
      obtain ⟨bytes, written⟩ := h.displacement32 .displacement small hp start
      refine .inl ⟨rfl, bytes, ?_⟩
      have displaced : (l.laidOut ps).displacement p id = .ok ((o : Int) - p.stop) :=
        bind_eq_ok.2 ⟨o, start, rfl⟩
      funext s
      refine run_lift_bind_eq_ok.2 ⟨_, displaced, ?_⟩
      exact run_lift_eq_ok.2 ⟨written, rfl⟩
  | @switch os =>
    cases located with
    | @switch ids os starts =>
      obtain ⟨entries, written⟩ := h.jumpTable small hp starts
      have few : ¬ UInt32.size ≤ ids.length := by
        have sized : p.instruction.op.size + (4 + 4 * ids.length) = p.size := Except.ok.inj sized
        unfold Placed.stop at bounded
        simp only [UInt32.size]
        omega
      refine .inl ⟨rfl, Encoding.uint32 (UInt32.ofNat ids.length) ++ entries, (if_neg few).trans ?_⟩
      funext s
      exact run_lift_bind_eq_ok.2 ⟨entries, written, rfl⟩

/-- Pieces of reaching code are written if the requests for the tokens of their references are answered. -/
lemma emit {tokens : TokenAllocator σ} {s s' : σ} {answered : Answers} (h : l.Reaching ps)
    (small : (ps.map (·.size)).sum < 2 ^ 31) (within : qs ⊆ ps)
    (granted : tokens.answers (qs.flatMap (·.instruction.operand.references)) s = .ok (answered, s')) :
    ∃ bytes, EncodedBody.emit tokens (l.laidOut ps) qs s = .ok (bytes, s') := by
  induction qs generalizing s answered with
  | nil =>
    cases granted
    exact ⟨[], rfl⟩
  | cons q qs ih =>
    obtain ⟨here, others⟩ := List.cons_subset.1 within
    rw [List.flatMap_cons] at granted
    obtain ⟨none, bytes, written⟩ | ⟨r, only, asked⟩ := h.operandBytes tokens small here
    · rw [none, List.nil_append] at granted
      obtain ⟨rest, emitted⟩ := ih others granted
      refine ⟨q.instruction.op.bytes ++ (bytes ++ rest), run_bind_eq_ok.2 ⟨bytes, s, ?_, ?_⟩⟩
      · rw [written]
        rfl
      · exact run_bind_eq_ok.2 ⟨rest, s', emitted, rfl⟩
    · rw [only, List.singleton_append] at granted
      obtain ⟨token, s₁, given, granted⟩ := run_bind_eq_ok.1 granted
      obtain ⟨later, s₂, granted, same⟩ := run_bind_eq_ok.1 granted
      obtain ⟨rfl, rfl⟩ := run_pure_eq_ok.1 same
      obtain ⟨rest, emitted⟩ := ih others granted
      refine ⟨q.instruction.op.bytes ++ (Encoding.uint32 token.value ++ rest),
        run_bind_eq_ok.2 ⟨_, s₁, ?_, run_bind_eq_ok.2 ⟨rest, s', emitted, rfl⟩⟩⟩
      rw [asked]
      exact run_bind_eq_ok.2 ⟨token, s₁, given, rfl⟩

end InstructionList.Reaching

namespace InstructionList.Settled

variable {σ : Type} {id : InstrId}

lemma reaching (h : l.Settled ps) : l.Reaching ps :=
  ⟨h.placed, h.consecutive, h.fits⟩

/-! ## Bytes -/

/-- The operand of a piece of settled code is written at once, or as the token of its reference. -/
lemma operandBytes (tokens : TokenAllocator σ) (h : l.Settled ps) (hp : p ∈ ps) :
    (∃ bytes, EncodedBody.operandBytes tokens (l.laidOut ps) p = pure bytes)
      ∨ ∃ r ∈ p.instruction.operand.references,
        EncodedBody.operandBytes tokens (l.laidOut ps) p
          = tokens.request r >>= fun token => pure (Encoding.uint32 token.value) := by
  have small := Nat.lt_of_le_of_lt h.small (by decide : Encoding.maxCompressed < 2 ^ 31)
  obtain ⟨_, written⟩ | ⟨r, only, asked⟩ := h.reaching.operandBytes tokens small hp
  · exact .inl written
  · exact .inr ⟨r, only ▸ List.mem_singleton.2 rfl, asked⟩

/-! ## Offsets -/

variable {e : EncodedBody}

/-- A listed instruction is at the offset of the piece at its position. -/
lemma offsetOf (h : l.Settled ps) (starts : e.starts = ps.map fun p => (p.instruction.id, p.start))
    (position : l.position? id = some k) :
    ∃ p, ps[k]? = some p ∧ e.offsetOf (some id) = .ok p.start := by
  obtain ⟨i, listed, rfl⟩ := position?_eq_some.1 position
  rw [← h.placed, List.getElem?_map, Option.map_eq_some_iff] at listed
  obtain ⟨p, hp, rfl⟩ := listed
  have nodup : (ps.map (·.instruction.id)).Nodup := by
    have ids := l.nodup
    rw [← h.placed, List.map_map] at ids
    exact ids
  refine ⟨p, hp, ?_⟩
  rw [EncodedBody.offsetOf, starts]
  simp only [lookup_start nodup (List.mem_of_getElem? hp)]

/-- A region stops at an offset that is no less than the one at which it starts. -/
lemma region {start : InstrId} {stop : Option InstrId} (h : l.Settled ps)
    (starts : e.starts = ps.map fun p => (p.instruction.id, p.start))
    (length : e.code.length = (ps.map (·.size)).sum) (region : l.Region start stop) :
    ∃ a b, e.offsetOf (some start) = .ok a ∧ e.offsetOf stop = .ok b ∧ a ≤ b := by
  obtain ⟨i, first, behind⟩ := region
  obtain ⟨p, hp, a⟩ := h.offsetOf starts first
  cases stop with
  | some id =>
    obtain ⟨j, last, le⟩ := behind id rfl
    obtain ⟨q, hq, b⟩ := h.offsetOf starts last
    exact ⟨p.start, q.start, a, b, h.consecutive.start_le hp hq le⟩
  | none =>
    have small := h.small
    refine ⟨p.start, e.code.length, a, if_pos ?_, ?_⟩
    · rw [length]
      exact Nat.lt_of_le_of_lt small (by decide)
    · have le := h.consecutive.stop_le (List.mem_of_getElem? hp)
      rw [length]
      unfold Placed.stop at le
      omega

end InstructionList.Settled

/-- What is written for pieces takes as many bytes as they say. -/
lemma EncodedBody.length_emit {σ : Type} {tokens : TokenAllocator σ} {layout : Layout} {s s' : σ}
    {bytes : Bytes} (consecutive : Consecutive n ps)
    (h : emit tokens layout ps s = .ok (bytes, s')) : bytes.length = (ps.map (·.size)).sum := by
  induction consecutive generalizing s bytes with
  | nil =>
    obtain ⟨rfl, rfl⟩ := run_pure_eq_ok.1 h
    rfl
  | @cons p ps sized _ ih =>
    obtain ⟨operand, s₁, written, h⟩ := run_bind_eq_ok.1 h
    obtain ⟨rest, s₂, emitted, h⟩ := run_bind_eq_ok.1 h
    obtain ⟨rfl, rfl⟩ := run_pure_eq_ok.1 h
    obtain ⟨_, _, written⟩ := RawInstruction.written_of_operandBytes written
    have first := written.length p.size sized
    have others := ih emitted
    rw [List.length_append, List.length_append, OpCode.length_bytes, List.map_cons, List.sum_cons]
    omega

end HookWeave
