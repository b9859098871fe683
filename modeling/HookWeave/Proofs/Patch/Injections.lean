import HookWeave.Proofs.Patch.Sequences
import HookWeave.Proofs.Storage.Bystanders

/-!
# Fields added one after another

Fields are added to types of a store's modules by one call after another, each with a configuration,
files, a target, a type and a marker of its own, and some of the calls fail (`Store.injectAll`). A call
that gives a name appends one field of that name, which was free (`Injection.Appends`); any other leaves
the open modules as they are (`Injection.opens_of_reply`). Since types only grow by fields of new names
(`Store.Grows`), a call that went well finds its field again whenever it is repeated
(`Store.injectAll_appends_once`).
-/

namespace HookWeave

/-- A call that adds a field of a type to another type. -/
structure Injection where
  config : Config
  files : Files
  marker : MethodRef
  target : ResolvedType
  injected : TypeRef

namespace Injection

/-- Makes the call. -/
def run (i : Injection) : Store.Edit (Option String) :=
  i.config.injectField i.files i.marker i.target i.injected

/-- The name that the field has. -/
def fieldName (i : Injection) : String :=
  injectedFieldName i.injected.name

/-- What the call answers. -/
def reply (i : Injection) (s : Store) : Except Fault (Option String) :=
  match i.run s with
  | .ok name _ => .ok name
  | .error e _ => .error e

/-- The call appends one field of a name to the target's type, which had none of that name, and is found
there from then on. The module refers to more scopes at most, and all other modules stay as they are. -/
structure Appends (i : Injection) (s s' : Store) (name : String) : Prop where
  target : ∃ m m' t field scope, s.module i.target.path = .ok m ∧ s'.module i.target.path = .ok m'
    ∧ m.types[i.target.index]? = some t ∧ name ∉ t.fields.map (·.name) ∧ field.name = name
    ∧ m.Extends i.target.index [field] [i.marker.owner.scope, scope] m'
    ∧ m'.types[i.target.index]? = some (t.withFields [field])
    ∧ m'.findField i.target.index name = .ok t.fields.length
  others : ∀ path m, i.target.path.same path = false → s.module path = .ok m → s'.module path = .ok m

/-- The name of the field is found in the target's type, at the place of a field of that name. -/
def Found (i : Injection) (s : Store) : Prop :=
  ∃ m t k field, s.module i.target.path = .ok m ∧ m.types[i.target.index]? = some t
    ∧ m.findField i.target.index i.fieldName = .ok k ∧ t.fields[k]? = some field
    ∧ field.name = i.fieldName

end Injection

/-- The store after calls. -/
def Store.injectAll (s : Store) (calls : List Injection) : Store :=
  calls.foldl (fun s i => after (i.run s)) s

/-- A type has fields appended, each of a name of its own. -/
def TypeDeclaration.Grows (t t' : TypeDeclaration) : Prop :=
  ∃ fields, t' = t.withFields fields ∧ (fields.map (·.name)).Nodup
    ∧ ∀ f ∈ fields, f.name ∉ t.fields.map (·.name)

/-- A module has fields appended to its types, each of a name of its own, and scopes to its references. -/
structure Module.Grows (m m' : Module) : Prop where
  name : m'.name = m.name
  references : m.references <+: m'.references
  types : List.Forall₂ TypeDeclaration.Grows m.types m'.types

/-- All open modules stay open and at most have fields and references appended. -/
def Store.Grows (s s' : Store) : Prop :=
  ∀ path m, s.module path = .ok m → ∃ m', s'.module path = .ok m' ∧ m.Grows m'

variable {s s' s₁ : Store} {path q : Path} {m m' : Module} {t t' t₁ : TypeDeclaration} {e : Fault}
  {files : Files} {name : String} {k : Nat} {i : Injection}

/-! ## Types and modules -/

namespace TypeDeclaration.Grows

lemma refl (t : TypeDeclaration) : t.Grows t :=
  ⟨[], by rw [withFields, List.append_nil], List.nodup_nil, List.forall_mem_nil _⟩

lemma trans (h : t.Grows t₁) (h' : t₁.Grows t') : t.Grows t' := by
  obtain ⟨fields, rfl, distinct, free⟩ := h
  obtain ⟨fields', rfl, distinct', free'⟩ := h'
  have apart (f : FieldDeclaration) (hf : f ∈ fields') :
      f.name ∉ t.fields.map (·.name) ∧ f.name ∉ fields.map (·.name) := by
    have free := free' f hf
    rw [withFields, List.map_append, List.mem_append, not_or] at free
    exact free
  refine ⟨fields ++ fields', ?_, ?_, ?_⟩
  · rw [withFields, withFields, withFields, List.append_assoc]
  · rw [List.map_append]
    refine List.nodup_append.2 ⟨distinct, distinct', fun name named name' named' same => ?_⟩
    obtain ⟨f, hf, rfl⟩ := List.mem_map.1 named'
    exact (apart f hf).2 (same ▸ named)
  · exact List.forall_mem_append.2 ⟨free, fun f hf => (apart f hf).1⟩

/-- A name that is taken stays taken. -/
lemma taken (h : t.Grows t') (there : name ∈ t.fields.map (·.name)) : name ∈ t'.fields.map (·.name) := by
  obtain ⟨fields, rfl, _, _⟩ := h
  rw [withFields, List.map_append]
  exact List.mem_append_left _ there

end TypeDeclaration.Grows

/-- References that are added come behind those that were there. -/
lemma prefix_addReferences (name : String) (references scopes : List String) :
    references <+: addReferences name references scopes := by
  induction scopes generalizing references with
  | nil => exact List.prefix_refl _
  | cons scope scopes ih =>
    refine List.IsPrefix.trans ?_ (ih _)
    split
    · exact List.prefix_refl _
    · exact List.prefix_append _ _

namespace Module.Grows

lemma refl (m : Module) : m.Grows m :=
  ⟨rfl, List.prefix_refl _, List.forall₂_same.2 fun t _ => .refl t⟩

lemma trans {m₁ : Module} (h : m.Grows m₁) (h' : m₁.Grows m') : m.Grows m' :=
  ⟨h'.name.trans h.name, h.references.trans h'.references,
    forall₂_comp h.types h'.types fun _ _ _ grows grows' => grows.trans grows'⟩

/-- A module grows by a field of a name that was free. -/
lemma of_extends {field : FieldDeclaration} {scopes : List String} (h : m.Extends k [field] scopes m')
    (type : m.types[k]? = some t) (free : field.name ∉ t.fields.map (·.name)) : m.Grows m' := by
  refine ⟨h.name, h.references ▸ prefix_addReferences _ _ _, List.forall₂_iff_get.2 ⟨?_, ?_⟩⟩
  · rw [h.types, List.length_modify]
  · intro n bound bound'
    have there : m.types[n]? = some (m.types.get ⟨n, bound⟩) := List.getElem?_eq_getElem bound
    have now := h.getElem?_types there
    rw [List.getElem?_eq_getElem bound', Option.some_inj] at now
    rw [List.get_eq_getElem, List.get_eq_getElem, now]
    by_cases here : k = n
    · subst here
      cases type.symm.trans there
      rw [if_pos rfl]
      exact ⟨[field], rfl, List.nodup_singleton _, List.forall_mem_singleton.2 free⟩
    · rw [if_neg here]
      exact .refl _

/-- A name that is taken in a type stays taken. -/
lemma containsField (h : m.Grows m') (there : m.containsField k name = true) :
    m'.containsField k name = true := by
  cases type : m.types[k]? with
  | none =>
    unfold Module.containsField at there
    rw [type] at there
    cases there
  | some t =>
    obtain ⟨t', type', grows⟩ := forall₂_getElem? h.types type
    exact (containsField_iff type').2 (grows.taken ((containsField_iff type).1 there))

end Module.Grows

/-- A name that is taken is found at the place of a field of that name. -/
lemma Module.exists_findField (type : m.types[k]? = some t) (there : name ∈ t.fields.map (·.name)) :
    ∃ n field, m.findField k name = .ok n ∧ t.fields[n]? = some field ∧ field.name = name := by
  obtain ⟨f, hf, named⟩ := List.mem_map.1 there
  cases found : t.fields.findIdx? (·.name = name) with
  | none => exact absurd (decide_eq_true named) (Bool.eq_false_iff.1 (List.findIdx?_eq_none_iff.1 found f hf))
  | some n =>
    obtain ⟨bound, here, _⟩ := List.findIdx?_eq_some_iff_getElem.1 found
    refine ⟨n, t.fields[n], bind_eq_ok.2 ⟨t, typeAt_eq_ok.2 type, ?_⟩, List.getElem?_eq_getElem bound,
      of_decide_eq_true here⟩
    rw [found]
    rfl

/-- A field of a name that was free is found behind the others. -/
lemma Module.findField_appended {field : FieldDeclaration}
    (type : m.types[k]? = some (t.withFields [field])) (free : field.name ∉ t.fields.map (·.name)) :
    m.findField k field.name = .ok t.fields.length := by
  have before : t.fields.findIdx? (·.name = field.name) = none := by
    refine List.findIdx?_eq_none_iff.2 fun f hf => decide_eq_false fun same => free ?_
    exact List.mem_map.2 ⟨f, hf, same⟩
  have found : (t.withFields [field]).fields.findIdx? (·.name = field.name) = some t.fields.length := by
    rw [TypeDeclaration.withFields, List.findIdx?_append, before, List.findIdx?_cons,
      if_pos (decide_eq_true rfl)]
    simp
  refine bind_eq_ok.2 ⟨_, typeAt_eq_ok.2 type, ?_⟩
  rw [found]
  rfl

/-! ## Stores -/

namespace Store

/-- What is open stays open when more modules are opened. -/
lemma module_of_opens (opens : s.modules <+: s'.modules) (found : s.module path = .ok m) :
    s'.module path = .ok m := by
  obtain ⟨p, same, listed⟩ := module_eq_ok.1 found
  exact module_eq_ok.2 ⟨p, same, opens.subset listed⟩

/-- A module that was put in the place of another is open there. -/
lemma module_replace_self (found : s.module path = .ok m) : (s.replace path m').module path = .ok m' := by
  obtain ⟨p, same, listed⟩ := module_eq_ok.1 found
  refine module_eq_ok.2 ⟨p, same, List.mem_map.2 ⟨(p, m), listed, ?_⟩⟩
  exact if_pos same

/-- Modules of other paths stay. -/
lemma module_replace_of_ne (apart : path.same q = false) (found : s.module q = .ok m) :
    (s.replace path m').module q = .ok m := by
  obtain ⟨p, same, listed⟩ := module_eq_ok.1 found
  refine module_eq_ok.2 ⟨p, same, List.mem_map.2 ⟨(p, m), listed, if_neg fun same' => ?_⟩⟩
  have joined := (Path.same_iff.1 same').symm.trans (Path.same_iff.1 same)
  exact Bool.eq_false_iff.1 apart (Path.same_iff.2 joined)

/-- Paths with the same components have the same module. -/
lemma module_of_same (same : path.same q = true) (found : s.module q = .ok m) : s.module path = .ok m := by
  obtain ⟨p, same', listed⟩ := module_eq_ok.1 found
  have near := (Path.same_iff.1 same').trans (Path.same_iff.1 same).symm
  exact module_eq_ok.2 ⟨p, Path.same_iff.2 near, listed⟩

namespace Grows

lemma refl (s : Store) : s.Grows s :=
  fun _ m found => ⟨m, found, .refl m⟩

lemma trans (h : s.Grows s₁) (h' : s₁.Grows s') : s.Grows s' := by
  intro path m found
  obtain ⟨m₁, found₁, grows⟩ := h path m found
  obtain ⟨m', found', grows'⟩ := h' path m₁ found₁
  exact ⟨m', found', grows.trans grows'⟩

lemma of_opens (opens : s.modules <+: s'.modules) : s.Grows s' :=
  fun _ m found => ⟨m, module_of_opens opens found, .refl m⟩

end Grows

/-! ## Edits -/

lemma keeps_ofExcept {α : Type} {I : Store → Prop} (x : Except Fault α) : Keeps I (ofExcept x) := by
  cases x with
  | ok a => exact keeps_pure a
  | error e => exact keeps_throw e

lemma keeps_query {α : Type} {I : Store → Prop} (f : Store → Except Fault α) : Keeps I (query f) :=
  keeps_get_bind fun s => keeps_ofExcept (f s)

lemma ofExcept_eq_error {α : Type} {x : Except Fault α} :
    ofExcept x s = .error e s' ↔ x = .error e ∧ s' = s := by
  cases x with
  | ok a => exact ⟨nofun, fun h => nomatch h.1⟩
  | error e₁ =>
    constructor
    · intro h
      cases h
      exact ⟨rfl, rfl⟩
    · rintro ⟨same, rfl⟩
      cases same
      rfl

lemma query_eq_error {α : Type} {f : Store → Except Fault α} :
    query f s = .error e s' ↔ f s = .error e ∧ s' = s :=
  ofExcept_eq_error

/-- A change that fails changes nothing. -/
lemma of_change_eq_error {α : Type} {f : Module → Except Fault (α × Module)}
    (h : change path f s = .error e s') : s' = s := by
  unfold change at h
  obtain failed | ⟨_, _, _, rest⟩ := edit_bind_eq_error.1 h
  · exact (query_eq_error.1 failed).2
  · cases rest

/-- What is asked for is opened, or nothing is. -/
lemma openModule_cases (files : Files) (path : Path) (s : Store) : after (openModule files path s) = s
    ∨ ∃ m closed, Module.ofFile files path = .ok m
      ∧ after (openModule files path s) = s.insert path m closed := by
  cases ran : openModule files path s with
  | ok m s' =>
    obtain ⟨rfl, _⟩ | ⟨closed, read, rfl⟩ := of_openModule_eq_ok ran
    · exact .inl rfl
    · exact .inr ⟨m, closed, read, rfl⟩
  | error e s' =>
    refine .inl ?_
    unfold openModule at ran
    obtain failed | ⟨_, s₁, got, rest⟩ := edit_bind_eq_error.1 ran
    · cases failed
    obtain ⟨edit, chosen, rest⟩ : ∃ edit : Edit Module, _ = edit ∧ edit s₁ = .error e s' :=
      ⟨_, rfl, rest⟩
    cases got
    split at chosen
    · subst chosen
      exact (query_eq_error.1 rest).2
    · subst chosen
      obtain failed | ⟨_, _, _, set⟩ := edit_bind_eq_error.1 rest
      · exact (ofExcept_eq_error.1 failed).2
      · cases set

/-- Nothing is closed or changed when a module is asked for. -/
lemma prefix_openModule (files : Files) (path : Path) (s : Store) :
    s.modules <+: (after (openModule files path s)).modules := by
  obtain same | ⟨m, closed, _, inserted⟩ := openModule_cases files path s
  · exact same.symm.subst (motive := fun s' => s.modules <+: s'.modules) (List.prefix_refl _)
  · rw [inserted]
    exact List.prefix_append _ _

end Store

/-- What is kept when a module is asked for is kept when a type is resolved. -/
lemma Config.keeps_resolveType {c : Config} {t : TypeRef} {I : Store → Prop}
    (h : Keeps I (Store.openModule files (c.modulePath t.scope))) : Keeps I (c.resolveType files t) :=
  h.bind fun _ _ _ _ => (Store.keeps_ofExcept _).bind fun _ _ _ _ =>
    (Store.keeps_ofExcept _).bind fun _ _ _ _ => keeps_pure _

/-- Nothing is closed or changed when a type is resolved. -/
lemma Config.prefix_resolveType (c : Config) (files : Files) (t : TypeRef) (s : Store) :
    s.modules <+: (after (c.resolveType files t s)).modules := by
  have opens : Keeps (fun s' => s.modules <+: s'.modules)
      (Store.openModule files (c.modulePath t.scope)) := fun s' kept =>
    kept.trans (Store.prefix_openModule files (c.modulePath t.scope) s')
  exact keeps_resolveType opens s (List.prefix_refl _)

/-! ## Single calls -/

namespace Injection

/-- A call that fails at most opens modules. -/
lemma prefix_of_run_eq_error (h : i.run s = .error e s') : s.modules <+: s'.modules := by
  unfold run Config.injectField at h
  obtain failed | ⟨m, _, looked, rest⟩ := edit_bind_eq_error.1 h
  · exact (Store.query_eq_error.1 failed).2 ▸ List.prefix_refl s.modules
  rw [(Store.query_eq_ok.1 looked).2] at rest
  by_cases taken : m.containsField i.target.index (injectedFieldName i.injected.name) = true
  · rw [if_pos taken] at rest
    cases rest
  rw [if_neg taken] at rest
  have opens := i.config.prefix_resolveType i.files i.injected s
  obtain failed | ⟨found, s₁, resolved, rest₁⟩ := edit_bind_eq_error.1 rest
  · rw [failed] at opens
    exact opens
  rw [resolved] at opens
  obtain failed | ⟨d, _, declared, rest₂⟩ := edit_bind_eq_error.1 rest₁
  · rw [(Store.query_eq_error.1 failed).2]
    exact opens
  rw [(Store.query_eq_ok.1 declared).2] at rest₂
  obtain failed | ⟨_, _, _, rest₃⟩ := edit_bind_eq_error.1 rest₂
  · rw [Store.of_change_eq_error failed]
    exact opens
  · cases rest₃

/-- A call that goes well finds the name taken or appends a field of it. -/
lemma of_run_eq_ok {answer : Option String} (h : i.run s = .ok answer s') :
    (answer = none ∧ s' = s ∧ ∃ m, s.module i.target.path = .ok m
        ∧ m.containsField i.target.index i.fieldName = true)
      ∨ (answer = some i.fieldName ∧ i.Appends s s' i.fieldName) := by
  obtain ⟨m, opened, ⟨taken, rfl, rfl⟩ | ⟨free, rfl, found, s₁, n, d, m₁, m', resolved, _, _, opened₁,
    injected, rfl⟩⟩ := of_injectField_eq_ok h
  · exact .inl ⟨rfl, rfl, m, opened, taken⟩
  refine .inr ⟨rfl, ?_⟩
  -- The target's module is still what it was when the type of the field is resolved.
  have opens := i.config.prefix_resolveType i.files i.injected s
  rw [resolved] at opens
  cases (Store.module_of_opens opens opened).symm.trans opened₁
  have extended := Module.Extends.refl.inject injected
  obtain ⟨⟨_, added⟩, adds, _⟩ := bind_eq_ok.1 injected
  obtain ⟨t, typed, _⟩ := bind_eq_ok.1 adds
  have type := Module.typeAt_eq_ok.1 typed
  have absent : i.fieldName ∉ t.fields.map (·.name) := fun there =>
    Bool.eq_false_iff.1 free ((Module.containsField_iff type).2 there)
  have grown := extended.getElem?_types type
  rw [if_pos rfl] at grown
  refine ⟨⟨m, m', t, _, _, opened, Store.module_replace_self opened₁, type, absent, rfl, extended, grown,
    Module.findField_appended grown absent⟩, fun path n apart there => ?_⟩
  exact Store.module_replace_of_ne apart (Store.module_of_opens opens there)

/-- A call that appends a field lets the modules grow. -/
lemma Appends.grows (h : i.Appends s s' name) : s.Grows s' := by
  intro path n there
  obtain ⟨m, m', t, field, _, opened, opened', type, free, rfl, extended, _, _⟩ := h.target
  by_cases same : i.target.path.same path = true
  · cases (Store.module_of_same same there).symm.trans opened
    have same' : path.same i.target.path = true := Path.same_iff.2 (Path.same_iff.1 same).symm
    exact ⟨m', Store.module_of_same same' opened', .of_extends extended type free⟩
  · exact ⟨n, h.others path n (Bool.eq_false_iff.2 same) there, .refl n⟩

/-- Whatever comes of a call, the modules at most grow. -/
lemma grows_run (i : Injection) (s : Store) : s.Grows (after (i.run s)) := by
  cases ran : i.run s with
  | error e s' => exact .of_opens (prefix_of_run_eq_error ran)
  | ok answer s' =>
    obtain ⟨_, rfl, _⟩ | ⟨_, appends⟩ := of_run_eq_ok ran
    · exact .refl _
    · exact appends.grows

/-- A call that gives no name at most opens modules. -/
lemma opens_of_reply (h : i.reply s = .ok none ∨ ∃ e, i.reply s = .error e) :
    s.modules <+: (after (i.run s)).modules := by
  unfold reply at h
  cases ran : i.run s with
  | error e s' => exact prefix_of_run_eq_error ran
  | ok answer s' =>
    obtain ⟨_, rfl, _⟩ | ⟨rfl, _⟩ := of_run_eq_ok ran
    · exact List.prefix_refl _
    · rw [ran] at h
      obtain none | ⟨_, failed⟩ := h
      · cases none
      · cases failed

lemma run_of_reply_eq_ok {answer : Option String} (h : i.reply s = .ok answer) :
    i.run s = .ok answer (after (i.run s)) := by
  unfold reply at h
  cases ran : i.run s with
  | error e s' =>
    rw [ran] at h
    cases h
  | ok answer' s' =>
    rw [ran] at h
    cases h
    rfl

/-- After a call that went well the name is taken. -/
lemma contains_of_reply {answer : Option String} (h : i.reply s = .ok answer) :
    ∃ m, (after (i.run s)).module i.target.path = .ok m
      ∧ m.containsField i.target.index i.fieldName = true := by
  obtain ⟨_, same, m, opened, taken⟩ | ⟨_, appends⟩ := of_run_eq_ok (run_of_reply_eq_ok h)
  · rw [same]
    exact ⟨m, opened, taken⟩
  · obtain ⟨m, m', t, field, _, _, opened', _, _, named, _, grown, _⟩ := appends.target
    refine ⟨m', opened', (Module.containsField_iff grown).2 (List.mem_map.2 ⟨field, ?_, named⟩)⟩
    exact List.mem_append_right _ (List.mem_singleton_self _)

/-- A name that is taken is found. -/
lemma found_of_contains (opened : s.module i.target.path = .ok m)
    (taken : m.containsField i.target.index i.fieldName = true) : i.Found s := by
  cases type : m.types[i.target.index]? with
  | none =>
    unfold Module.containsField at taken
    rw [type] at taken
    cases taken
  | some t =>
    obtain ⟨k, field, found, there, named⟩ :=
      Module.exists_findField type ((Module.containsField_iff type).1 taken)
    exact ⟨m, t, k, field, opened, type, found, there, named⟩

/-- Where the name is taken the call answers that. -/
lemma reply_of_contains (opened : s.module i.target.path = .ok m)
    (taken : m.containsField i.target.index i.fieldName = true) : i.reply s = .ok none := by
  unfold fieldName at taken
  have ran : i.run s = .ok none s := by
    refine (bind_of_ok (Store.query_eq_ok.2 ⟨opened, rfl⟩)).trans ?_
    rw [if_pos taken]
    rfl
  unfold reply
  rw [ran]

end Injection

/-! ## Calls one after another -/

namespace Store

lemma injectAll_append (s : Store) (first others : List Injection) :
    s.injectAll (first ++ others) = (s.injectAll first).injectAll others :=
  List.foldl_append

lemma injectAll_last (s : Store) (calls : List Injection) (i : Injection) :
    s.injectAll (calls ++ [i]) = after (i.run (s.injectAll calls)) :=
  injectAll_append ..

/-- However many calls are made, the modules at most grow. -/
lemma grows_injectAll (s : Store) (calls : List Injection) : s.Grows (s.injectAll calls) := by
  induction calls generalizing s with
  | nil => exact .refl s
  | cons i calls ih => exact (i.grows_run s).trans (ih _)

/-- Fields are added once. In any sequence of calls on a store, a call that gives a name appends one field
of it to the target's type, which had none of that name; a call that gives none, or fails, leaves all open
modules as they are; and after a call that went well the name is found where a field of it is, and the
same call gives no name whenever it is made again. So modules at most grow by fields of new names. -/
theorem injectAll_appends_once (s : Store) (earlier : List Injection) (i : Injection) :
    s.Grows (s.injectAll earlier)
    ∧ (∀ name, i.reply (s.injectAll earlier) = .ok (some name) → name = i.fieldName
      ∧ i.Appends (s.injectAll earlier) (s.injectAll (earlier ++ [i])) name)
    ∧ (i.reply (s.injectAll earlier) = .ok none ∨ (∃ e, i.reply (s.injectAll earlier) = .error e) →
      (s.injectAll earlier).modules <+: (s.injectAll (earlier ++ [i])).modules)
    ∧ ∀ answer, i.reply (s.injectAll earlier) = .ok answer → i.Found (s.injectAll (earlier ++ [i]))
      ∧ ∀ between, i.reply (s.injectAll (earlier ++ i :: between)) = .ok none := by
  rw [injectAll_last]
  refine ⟨grows_injectAll s earlier, fun name gave => ?_, Injection.opens_of_reply, fun answer gave => ?_⟩
  · obtain ⟨same, _⟩ | ⟨same, appends⟩ := Injection.of_run_eq_ok (Injection.run_of_reply_eq_ok gave)
    · cases same
    · cases same
      exact ⟨rfl, appends⟩
  · obtain ⟨m, opened, taken⟩ := Injection.contains_of_reply gave
    refine ⟨Injection.found_of_contains opened taken, fun between => ?_⟩
    rw [injectAll_append]
    obtain ⟨m', opened', grows⟩ := grows_injectAll _ between _ _ opened
    exact Injection.reply_of_contains opened' (grows.containsField taken)

end Store

namespace Example

/-- The call that gives the type a field of itself. -/
def hanging : Injection :=
  ⟨muting, Disk.files towerDisk, makes "Mark", ⟨⟨"app.dll"⟩, 0, bell⟩, bell⟩

lemma run_hanging : hanging.run (towerStore tower) = .ok (some "_bell") (towerStore hungTower) :=
  inject_bell

lemma injectAll_hanging (between : List Injection) :
    (towerStore tower).injectAll ([] ++ hanging :: between) = (towerStore hungTower).injectAll between := by
  show (after (hanging.run (towerStore tower))).injectAll between = _
  rw [run_hanging]
  rfl

/-- The field is added by the first call, and by no other call of that kind whatever is called meanwhile. -/
theorem bell_hung_once : hanging.reply (towerStore tower) = .ok (some "_bell")
    ∧ hanging.Appends (towerStore tower) (towerStore hungTower) "_bell"
    ∧ hanging.Found (towerStore hungTower)
    ∧ ∀ between, hanging.reply ((towerStore hungTower).injectAll between) = .ok none := by
  have gave : hanging.reply (towerStore tower) = .ok (some "_bell") := by
    unfold Injection.reply
    rw [run_hanging]
  obtain ⟨_, appends, _, again⟩ := Store.injectAll_appends_once (towerStore tower) [] hanging
  obtain ⟨_, appends⟩ := appends "_bell" gave
  obtain ⟨found, again⟩ := again _ gave
  rw [injectAll_hanging] at appends found
  refine ⟨gave, appends, found, fun between => ?_⟩
  rw [← injectAll_hanging]
  exact again between

end Example

end HookWeave
