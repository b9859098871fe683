import HookWeave.Proofs.Image.Found
import HookWeave.Proofs.Image.Loaded

/-!
# The limits of the reader

The writer does not ask how deep types and arguments nest or of which kind an exception clause is; the
reader does. An image that was written is accepted if and only if the module keeps to the limits of the
reader (`Module.exists_ofBytes_iff`): what is read is the module that was written, and what was read
keeps to them.
-/

namespace HookWeave

/-- The module keeps to the limits of the reader: its types and arguments take no more levels than the
reader has, and its exception clauses are usual. -/
def Module.Admitted (m : Module) : Prop :=
  ∀ t ∈ m.types, t.Admitted

/-! ## Limits that the same thing under other identities keeps to -/

/-- The same operand holds the same references. -/
lemma Operand.SameBy.references_eq {r : InstrId → InstrId → Prop} {v w : Operand} (h : v.SameBy r w) :
    w.references = v.references := by
  cases v with
  | target a =>
    cases w with
    | target b => rfl
    | _ => cases h
  | switch as =>
    cases w with
    | switch bs => rfl
    | _ => cases h
  | _ => cases w <;> exact congrArg references (Eq.symm h)

lemma InstructionList.SameCode.references_eq {l m : InstructionList} (h : l.SameCode m) :
    m.references = l.references := by
  have each : List.Forall₂ (fun i j => Operand.references (Instruction.operand j)
      = Operand.references (Instruction.operand i)) l.items m.items :=
    h.imp fun _ _ same => same.operand.references_eq
  have mapped : m.items.map (·.operand.references) = l.items.map (·.operand.references) := by
    rw [← List.forall₂_eq_eq_eq, List.forall₂_map_left_iff, List.forall₂_map_right_iff]
    exact each.flip
  exact congrArg List.flatten mapped

lemma ExceptionClause.SameBy.usual {r : InstrId → InstrId → Prop} {c d : ExceptionClause}
    (h : c.SameBy r d) (usual : d.Usual) : c.Usual := by
  unfold Usual at usual ⊢
  rw [h.flags, h.catchType] at usual
  exact usual

/-- A body can be read if the same body under other identities can. -/
lemma MethodBody.Same.readable {b c : MethodBody} (h : b.Same c) (readable : c.Readable) :
    b.Readable where
  locals := h.locals ▸ readable.locals
  references := h.code.references_eq ▸ readable.references
  clauses x hx := by
    obtain ⟨k, hk⟩ := List.getElem?_of_mem hx
    obtain ⟨y, hy, same⟩ := forall₂_getElem? h.clauses hk
    exact same.usual (readable.clauses y (List.mem_of_getElem? hy))

lemma MethodDeclaration.ReadBack.admitted {m n : MethodDeclaration} (h : m.ReadBack n)
    (admitted : n.Admitted) : m.Admitted := by
  obtain ⟨body, same, rfl⟩ := h
  refine ⟨admitted.params, admitted.ret, admitted.attributes, fun b hb => ?_⟩
  have readable := admitted.body
  rw [Option.mem_def.1 hb] at same
  cases same with
  | some same => exact same.same.readable (readable _ rfl)

/-- A type keeps to the limits of the reader if it does as it is read back. -/
lemma TypeDeclaration.ReadBack.admitted {s t : TypeDeclaration} (h : s.ReadBack t)
    (admitted : t.Admitted) : s.Admitted := by
  obtain ⟨methods, same, rfl⟩ := h
  refine ⟨admitted.attributes, admitted.fields, fun m hm => ?_⟩
  obtain ⟨k, hk⟩ := List.getElem?_of_mem hm
  obtain ⟨n, hn, read⟩ := forall₂_getElem? same hk
  exact read.admitted (admitted.methods n (List.mem_of_getElem? hn))

/-! ## Images that are accepted -/

/-- The image of a module is accepted if and only if the module keeps to the limits of the reader. -/
lemma Module.exists_ofBytes_iff {m : Module} {bytes : Bytes} (h : m.toBytes = .ok bytes) :
    (∃ n, Module.ofBytes bytes = .ok n) ↔ m.Admitted := by
  constructor
  · rintro ⟨n, read⟩ t ht
    obtain ⟨types, same, rfl⟩ := Module.readBack_of_ofBytes h read
    have loaded := Module.loaded_of_ofBytes read
    obtain ⟨k, hk⟩ := List.getElem?_of_mem ht
    obtain ⟨t', ht', readBack⟩ := forall₂_getElem? same hk
    exact readBack.admitted (loaded.admitted t' (List.mem_of_getElem? ht'))
  · intro admitted
    obtain ⟨types, _, read⟩ := Module.reads_of_toBytes h fun t ht _ _ _ written =>
      Image.Building.yields_writeType_readBack written (admitted t ht)
    exact ⟨_, read⟩

end HookWeave
