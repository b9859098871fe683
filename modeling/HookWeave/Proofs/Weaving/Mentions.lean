import HookWeave.Proofs.Weaving.Sound
import HookWeave.Proofs.Weaving.Typing

/-!
# What woven methods mention

A module that knows the scope of every type that it mentions is closed (`Module.Closed`). A woven method
mentions what its target does and what the reference to the hook does (`Weaving.knowsAll_of_weave`). Of that
reference, checks leave less open than it seems: parameters of a hook that fits have types that the target
mentions, or the type that declares the target (`Weaving.knowsAll_of_check`).
-/

namespace HookWeave

/-- The module knows the scope of what is mentioned. -/
def Module.KnowsMention (m : Module) : Mention → Prop
  | .typeRef t => m.knows t.scope = true
  | .reference _ | .signature _ => True

/-- The module knows the scopes of everything that is mentioned. -/
def Module.KnowsAll (m : Module) (mentions : List Mention) : Prop :=
  ∀ x ∈ mentions, m.KnowsMention x

/-- The module knows the scopes of all types that it mentions. -/
def Module.Closed (m : Module) : Prop :=
  m.KnowsAll m.mentions

variable {m : Module}

namespace Module.KnowsAll

variable {xs ys : List Mention}

/-! ## Parts -/

lemma nil : m.KnowsAll [] :=
  List.forall_mem_nil _

lemma append : m.KnowsAll (xs ++ ys) ↔ m.KnowsAll xs ∧ m.KnowsAll ys :=
  List.forall_mem_append

lemma flatMap {α : Type} {as : List α} {f : α → List Mention} :
    m.KnowsAll (as.flatMap f) ↔ ∀ a ∈ as, m.KnowsAll (f a) :=
  List.forall_mem_flatMap

lemma signature {s : MethodSig} : m.KnowsAll s.mentions ↔ m.KnowsAll s.ret.mentions
    ∧ ∀ type ∈ s.params, m.KnowsAll type.mentions :=
  (List.forall_mem_cons.trans (and_iff_right trivial)).trans (append.trans (and_congr_right' flatMap))

lemma method {ref : MethodRef} : m.KnowsAll (Reference.method ref).mentions
    ↔ m.knows ref.owner.scope = true ∧ m.KnowsAll ref.sig.mentions :=
  (List.forall_mem_cons.trans (and_iff_right trivial)).trans List.forall_mem_cons

lemma typeSpec {type : TypeSig} : m.KnowsAll (Reference.type type).mentions ↔ m.KnowsAll type.mentions :=
  List.forall_mem_cons.trans (and_iff_right trivial)

lemma body {b : MethodBody} : m.KnowsAll b.mentions ↔ (∀ type ∈ b.locals, m.KnowsAll type.mentions)
    ∧ (∀ r ∈ b.instructions.references, m.KnowsAll r.mentions) ∧ ∀ c ∈ b.clauses, m.KnowsAll c.mentions :=
  append.trans (and_congr flatMap (append.trans (and_congr flatMap flatMap)))

lemma declaration {method : MethodDeclaration} : m.KnowsAll method.mentions ↔ m.KnowsAll method.sig.mentions
    ∧ (∀ a ∈ method.attributes, m.KnowsAll a.mentions) ∧ ∀ b ∈ method.body, m.KnowsAll b.mentions := by
  refine append.trans (and_congr_right' (append.trans (and_congr flatMap (flatMap.trans ?_))))
  simp only [Option.mem_toList, Option.mem_def]

end Module.KnowsAll

namespace Weaving

open HookWeave.Module

variable {w : Weaving} {position : Nat} {params : List Parameter} {type : TypeSig} {body' : MethodBody}
  {target' : MethodDeclaration} {slot : Option UInt16} {first : InstrId} {code : Code} {verify : Bool}

/-! ## Checked hooks -/

/-- What the receiver of a type is taken as mentions that type alone. -/
lemma knowsAll_of_takenAs {owner : TypeRef} (known : m.knows owner.scope = true) (h : owner.TakenAs type) :
    m.KnowsAll type.mentions := by
  have itself {type : TypeSig} (named : type.typeRef? = some owner) : m.KnowsAll type.mentions := by
    cases type with
    | refType t | valueType t =>
      cases named
      exact List.forall_mem_singleton.2 known
    | _ => cases named
  cases h with
  | object => exact KnowsAll.nil
  | itself named => exact itself named
  | address named =>
    have pointed := itself named
    exact pointed

/-- What a method is passed has types that it mentions, or that of its receiver. -/
lemma knowsAll_of_passed {method : MethodDeclaration} {owner : TypeRef} (known : m.knows owner.scope = true)
    (params : ∀ type ∈ method.sig.params, m.KnowsAll type.mentions) (h : method.Passed owner position type) :
    m.KnowsAll type.mentions := by
  cases h with
  | receiver _ taken => exact knowsAll_of_takenAs known taken
  | ofInstance _ at' => exact params _ (List.mem_map_of_mem (List.mem_of_getElem? at'))
  | ofStatic _ at' => exact params _ (List.mem_map_of_mem (List.mem_of_getElem? at'))

/-- The types of parameters that fit are known where those of the target are. -/
lemma knowsAll_of_checkParameters (h : w.checkParameters position params = .ok ())
    (owner : m.knows w.owner.scope = true) (target : m.KnowsAll w.target.sig.mentions) :
    ∀ p ∈ params, m.KnowsAll p.type.mentions := by
  obtain ⟨ret, types⟩ := KnowsAll.signature.1 target
  induction params generalizing position with
  | nil => exact List.forall_mem_nil _
  | cons p params ih =>
    obtain ⟨_, result, rest⟩ | ⟨_, _, fits, rest⟩ := of_checkParameters_eq_ok h
    · refine List.forall_mem_cons.2 ⟨?_, ih rest⟩
      rw [type_of_checkResult result, resultType]
      split
      · exact ret
      · exact ret
    · exact List.forall_mem_cons.2 ⟨knowsAll_of_passed owner types (passed_of_fitsArgument fits), ih rest⟩

/-- Of a hook that fits, only the type of its result ahead of the target can be unknown, if its parameters
are as its signature says. -/
lemma knowsAll_of_check (h : w.check = .ok ()) (owner : m.knows w.owner.scope = true)
    (target : m.KnowsAll w.target.sig.mentions) : m.KnowsAll w.request.hook.sig.mentions
      ↔ (w.request.kind = .before → m.KnowsAll w.request.hook.sig.ret.mentions)
        ∧ (w.request.hook.sig.params ≠ w.request.hookParams.map (·.type) →
          ∀ type ∈ w.request.hook.sig.params, m.KnowsAll type.mentions) := by
  obtain ⟨_, _, parameters, returns⟩ := of_check_eq_ok h
  refine KnowsAll.signature.trans ⟨fun ⟨ret, params⟩ => ⟨fun _ => ret, fun _ => params⟩, ?_⟩
  rintro ⟨ret, params⟩
  constructor
  · cases kind : w.request.kind with
    | before => exact ret kind
    | after =>
      rw [ret_of_checkReturn returns kind]
      exact (KnowsAll.signature.1 target).1
  · by_cases described : w.request.hook.sig.params = w.request.hookParams.map (·.type)
    · rw [described]
      exact List.forall_mem_map.2 (knowsAll_of_checkParameters parameters owner target)
    · exact params described

/-! ## Woven code -/

/-- What runs ahead of a target mentions what the reference to the hook does, and else what the target's
result does. -/
lemma knowsAll_prologue (h : w.prologue slot first = .ok code) (target : m.KnowsAll w.target.sig.mentions) :
    (∀ r ∈ code.flatMap (·.2.references), m.KnowsAll r.mentions)
      ↔ m.KnowsAll (Reference.method w.request.hook).mentions := by
  constructor
  · intro known
    obtain ⟨loads, _, rfl⟩ := prologue_eq_ok h
    refine known _ (List.mem_flatMap.2 ⟨w.call, ?_, List.mem_singleton_self _⟩)
    exact List.mem_append_right _ List.mem_cons_self
  · intro hook r hr
    obtain rfl | ⟨element, ofType, rfl⟩ := references_prologue h hr
    · exact hook
    · have ret := (KnowsAll.signature.1 target).1
      rw [show w.target.sig.ret = .byRef element from ofType] at ret
      exact KnowsAll.typeSpec.2 ret

lemma knowsAll_bodyBefore (h : w.bodyBefore = .ok body') (target : m.KnowsAll w.target.mentions) :
    m.KnowsAll body'.mentions ↔ m.KnowsAll (Reference.method w.request.hook).mentions := by
  obtain ⟨body, first, result, code, there, _, written, items, clauses, _, extended, _⟩ :=
    of_bodyBefore_eq_ok h
  obtain ⟨sig, _, known⟩ := KnowsAll.declaration.1 target
  obtain ⟨locals, references, regions⟩ := KnowsAll.body.1 (known body there)
  have locals' : ∀ type ∈ body'.locals, m.KnowsAll type.mentions := by
    obtain ⟨_, _, same⟩ | ⟨_, _, _, same⟩ := extended
    · rw [same]
      exact locals
    · rw [same]
      exact List.forall_mem_append.2 ⟨locals, List.forall_mem_singleton.2 (KnowsAll.signature.1 sig).1⟩
  rw [InstructionList.references] at references
  rw [KnowsAll.body, clauses, and_iff_right locals', and_iff_left regions, InstructionList.references, items,
    List.flatMap_append, InstructionList.references_number, List.forall_mem_append, and_iff_left references]
  exact knowsAll_prologue written sig

lemma knowsAll_bodyAfter (h : w.bodyAfter = .ok body') (target : m.KnowsAll w.target.mentions) :
    m.KnowsAll body'.mentions ↔ m.KnowsAll (Reference.method w.request.hook).mentions := by
  obtain ⟨body, pre, last, code, there, split, _, written, items, clauses, locals, _⟩ :=
    of_bodyAfter_eq_ok h
  obtain ⟨_, _, known⟩ := KnowsAll.declaration.1 target
  obtain ⟨types, references, regions⟩ := KnowsAll.body.1 (known body there)
  have regions' : ∀ c ∈ body'.clauses, m.KnowsAll c.mentions := by
    rw [clauses]
    exact List.forall_mem_map.2 regions
  have front : ∀ r ∈ (pre.map (·.retarget last.id ⟨body.instructions.nextId⟩)).flatMap
      (·.operand.references), m.KnowsAll r.mentions := by
    rw [InstructionList.references, split, List.flatMap_append] at references
    have old := (List.forall_mem_append.1 references).1
    rw [List.flatMap_map]
    simpa only [Instruction.retarget, Operand.references_retarget] using old
  rw [KnowsAll.body, locals, and_iff_right types, and_iff_left regions', InstructionList.references, items,
    List.flatMap_append, InstructionList.references_number, List.forall_mem_append, and_iff_right front,
    references_epilogue written, List.forall_mem_singleton]

/-- A woven method mentions what its target does, and what the reference to the hook does. -/
lemma knowsAll_of_weave (h : w.weave verify = .ok target') (target : m.KnowsAll w.target.mentions) :
    m.KnowsAll target'.mentions ↔ m.KnowsAll (Reference.method w.request.hook).mentions := by
  obtain ⟨body', rfl, before, after⟩ := body_of_weave_eq_ok h
  obtain ⟨sig, attributes, _⟩ := KnowsAll.declaration.1 target
  have rest : m.KnowsAll { w.target with body := some body' }.mentions ↔ m.KnowsAll body'.mentions := by
    refine KnowsAll.declaration.trans ((and_iff_right sig).trans ((and_iff_right attributes).trans ?_))
    simp only [Option.mem_def, Option.some.injEq, forall_eq']
  rw [rest]
  cases kind : w.request.kind with
  | before => exact knowsAll_bodyBefore (before kind) target
  | after => exact knowsAll_bodyAfter (after kind) target

end Weaving
end HookWeave
