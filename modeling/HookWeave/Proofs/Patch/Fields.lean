import HookWeave.Patch.Inject
import HookWeave.Proofs.Patch.Stores

/-!
# The fields of a patch

The types that a patch asks for are taken one after another. Each gets a field in the target's type,
unless its name is taken by then (`Config.Adds`); with the field come the scope of the marker and that of
the type among the references (`addReferences`). While fields are added, the module is what it was but for
them (`Module.Extends`), so that types are found in it as they were before.
-/

namespace HookWeave

/-- The references of a module of a name with scopes appended one after another, each unless it is there
or is the module itself. -/
def addReferences (name : String) (references : List String) : List String → List String
  | [] => references
  | scope :: scopes =>
    addReferences name
      (if scope = name ∨ scope ∈ references then references else references ++ [scope]) scopes

lemma addReferences_append (name : String) (references first others : List String) :
    addReferences name references (first ++ others)
      = addReferences name (addReferences name references first) others := by
  induction first generalizing references with
  | nil => rfl
  | cons scope first ih => exact ih _

lemma Module.knows_iff {m : Module} {scope : String} :
    m.knows scope = true ↔ scope = m.name ∨ scope ∈ m.references := by
  unfold knows
  rw [Bool.or_eq_true, decide_eq_true_iff, List.contains_iff_mem]

/-- The import of a scope adds it to the references. -/
lemma Module.importScope_eq (m : Module) (scope : String) : m.importScope scope
    = { m with
        references := addReferences m.name m.references [scope]
        dirty := m.dirty || !m.knows scope } := by
  unfold importScope addReferences
  by_cases there : m.knows scope = true
  · rw [if_pos there, if_pos (knows_iff.1 there), there, Bool.not_true, Bool.or_false]
    rfl
  · rw [if_neg there, if_neg (mt knows_iff.2 there), Bool.eq_false_iff.2 there, Bool.not_false, Bool.or_true]
    rfl

/-- The type with fields appended to its own. -/
def TypeDeclaration.withFields (fields : List FieldDeclaration) (t : TypeDeclaration) : TypeDeclaration :=
  { t with fields := t.fields ++ fields }

namespace Config

variable (c : Config) (files : Files) (marker : MethodRef)

/-- A type by name is declared in a module that was read from the file of its scope. -/
structure Declares (t : TypeRef) (m : Module) (d : TypeDeclaration) : Prop where
  read : ∃ path, path.same (c.modulePath t.scope) = true ∧ Module.ofFile files path = .ok m
  found : ∃ index, m.findType t.fullName = .ok index ∧ m.types[index]? = some d

/-- The private field for a type, marked by an attribute. -/
def injectedField (t : TypeRef) (scope : String) (d : TypeDeclaration) : FieldDeclaration where
  name := injectedFieldName t.name
  type := d.sig scope
  flags := FieldDeclaration.privateFlags
  attributes := [⟨marker, []⟩]

/-- The fields that are added to a type in which some names are taken, each with the scope of its own
type. -/
inductive Adds : List String → List TypeRef → List (FieldDeclaration × String) → Prop
  | none {taken : List String} : Adds taken [] []
  | skip {taken : List String} {t : TypeRef} {ts : List TypeRef}
      {added : List (FieldDeclaration × String)} :
      injectedFieldName t.name ∈ taken → Adds taken ts added → Adds taken (t :: ts) added
  | add {taken : List String} {t : TypeRef} {ts : List TypeRef} {m : Module} {d : TypeDeclaration}
      {added : List (FieldDeclaration × String)} :
      injectedFieldName t.name ∉ taken → c.Declares files t m d →
      Adds (taken ++ [injectedFieldName t.name]) ts added →
      Adds taken (t :: ts) ((injectedField marker t m.name d, m.name) :: added)

end Config

/-- A module is another one with fields appended to one of its types and scopes added to its
references. -/
structure Module.Extends (before : Module) (index : Nat) (fields : List FieldDeclaration)
    (scopes : List String) (m : Module) : Prop where
  name : m.name = before.name
  references : m.references = addReferences before.name before.references scopes
  types : m.types = before.types.modify index (TypeDeclaration.withFields fields)
  methodNames : m.methodNames = before.methodNames

/-- What is looked up by something that stays the same is found where it was. -/
lemma findIdx?_modify {α : Type} {p : α → Bool} {f : α → α} (same : ∀ a, p (f a) = p a) (l : List α)
    (k : Nat) : (l.modify k f).findIdx? p = l.findIdx? p := by
  have kept : (l.modify k f).map p = l.map p := by
    refine List.ext_getElem? fun i => ?_
    rw [List.getElem?_map, List.getElem?_map, List.getElem?_modify, Option.map_eq_map, Option.map_map]
    refine congrFun (congrArg Option.map (funext fun a => ?_)) _
    show p (if k = i then f a else a) = p a
    split
    · exact same a
    · rfl
  exact (List.findIdx?_map (p := id)).symm.trans
    ((congrArg (List.findIdx? id) kept).trans (List.findIdx?_map (p := id)))

namespace Module.Extends

variable {before m m' : Module} {index k : Nat} {fields : List FieldDeclaration}
  {scopes : List String} {t : TypeDeclaration}

lemma refl : before.Extends index [] [] before where
  name := rfl
  references := rfl
  types := by
    have same : TypeDeclaration.withFields [] = id := by
      funext t
      unfold TypeDeclaration.withFields
      rw [List.append_nil]
      rfl
    rw [same, List.modify_id]
  methodNames := rfl

/-- A type is the one that was there, with fields appended if it is the one that is extended. -/
lemma getElem?_types (h : before.Extends index fields scopes m) (at' : before.types[k]? = some t) :
    m.types[k]? = some (if index = k then t.withFields fields else t) := by
  rw [h.types, List.getElem?_modify, at']
  rfl

/-- Types are found as before. -/
lemma findType_eq (h : before.Extends index fields scopes m) (name : String) :
    m.findType name = before.findType name := by
  have kept {p : TypeDeclaration → Bool} (same : ∀ t, p (t.withFields fields) = p t) :
      m.types.findIdx? p = before.types.findIdx? p := by
    rw [h.types]
    exact findIdx?_modify same _ _
  unfold findType missing
  rw [kept fun _ => rfl, kept fun _ => rfl, h.name]

lemma importScope (h : before.Extends index fields scopes m) (scope : String) :
    before.Extends index fields (scopes ++ [scope]) (m.importScope scope) := by
  rw [importScope_eq]
  refine ⟨h.name, ?_, h.types, h.methodNames⟩
  rw [addReferences_append, ← h.references, h.name]

lemma addField {field : FieldDeclaration} (h : before.Extends index fields scopes m)
    (ok : m.addField index field = .ok (k, m')) :
    before.Extends index (fields ++ [field]) scopes m' := by
  obtain ⟨_, _, ok⟩ := bind_eq_ok.1 ok
  by_cases taken : m.containsField index field.name = true
  · rw [if_pos taken] at ok
    cases ok
  · rw [if_neg taken] at ok
    cases ok
    refine ⟨h.name, h.references, ?_, h.methodNames⟩
    show m.types.modify index _ = _
    rw [h.types, List.modify_modify_eq]
    refine congrArg (before.types.modify index) (funext fun t => ?_)
    unfold TypeDeclaration.withFields
    rw [← List.append_assoc]
    rfl

/-- A field that is added extends the type by it, and the references by the scopes that it needs. -/
lemma inject {name scope : String} {type : TypeSig} {marker : MethodRef}
    (h : before.Extends index fields scopes m)
    (ok : m.inject index name type scope marker = .ok m') :
    before.Extends index
      (fields ++ [⟨name, type, FieldDeclaration.privateFlags, [⟨marker, []⟩]⟩])
      (scopes ++ [marker.owner.scope, scope]) m' := by
  obtain ⟨⟨_, added⟩, adds, same⟩ := bind_eq_ok.1 ok
  cases same
  have both := ((h.addField adds).importScope marker.owner.scope).importScope scope
  rwa [List.append_assoc] at both

end Module.Extends

/-! ## Stores on the way -/

/-- The store holds the module of a patch that has come as far as these fields and scopes. -/
def Store.Reaches (s : Store) (files : Files) (path : Path) (before : Module) (index : Nat)
    (fields : List FieldDeclaration) (scopes : List String) : Prop :=
  ∃ m, s.Holds files path m ∧ before.Extends index fields scopes m

section

variable {c : Config} {files : Files} {marker : MethodRef} {path : Path} {before n : Module}
  {index k : Nat} {fields : List FieldDeclaration} {scopes : List String} {s s' : Store}
  {t : TypeRef} {d declaring : TypeDeclaration} {target found : ResolvedType}

lemma of_resolveType_eq_ok (h : c.resolveType files t s = .ok found s') :
    ∃ m, Store.openModule files (c.modulePath t.scope) s = .ok m s'
      ∧ found.path = c.modulePath t.scope ∧ m.findType t.fullName = .ok found.index
      ∧ m.typeRef found.index = .ok found.type := by
  unfold Config.resolveType at h
  obtain ⟨m, _, opened, rest₁⟩ := edit_bind_eq_ok.1 h
  obtain ⟨index, _, searched, rest₂⟩ := edit_bind_eq_ok.1 rest₁
  obtain ⟨at', rfl⟩ := Store.ofExcept_eq_ok.1 searched
  obtain ⟨type, _, named, rest₃⟩ := edit_bind_eq_ok.1 rest₂
  obtain ⟨type', rfl⟩ := Store.ofExcept_eq_ok.1 named
  cases rest₃
  exact ⟨m, opened, rfl, at', type'⟩

/-- What is done for one type: nothing if the name is taken, and else the type is resolved and a field of
it added. -/
lemma of_injectField_eq_ok {name : Option String} (h : c.injectField files marker target t s = .ok name s') :
    ∃ m, s.module target.path = .ok m
      ∧ ((m.containsField target.index (injectedFieldName t.name) = true ∧ name = none ∧ s' = s)
        ∨ (m.containsField target.index (injectedFieldName t.name) = false
          ∧ name = some (injectedFieldName t.name)
          ∧ ∃ found s₁ n d m₁ m', c.resolveType files t s = .ok found s₁ ∧ s₁.module found.path = .ok n
            ∧ n.typeAt found.index = .ok d ∧ s₁.module target.path = .ok m₁
            ∧ m₁.inject target.index (injectedFieldName t.name) (d.sig found.type.scope)
              found.type.scope marker = .ok m'
            ∧ s' = s₁.replace target.path m')) := by
  unfold Config.injectField at h
  obtain ⟨m, _, looked, rest⟩ := edit_bind_eq_ok.1 h
  obtain ⟨opened, rfl⟩ := Store.query_eq_ok.1 looked
  refine ⟨m, opened, ?_⟩
  by_cases taken : m.containsField target.index (injectedFieldName t.name) = true
  · rw [if_pos taken] at rest
    cases rest
    exact .inl ⟨taken, rfl, rfl⟩
  · rw [if_neg taken] at rest
    obtain ⟨found, s₁, resolved, rest₁⟩ := edit_bind_eq_ok.1 rest
    obtain ⟨d, _, declared, rest₂⟩ := edit_bind_eq_ok.1 rest₁
    obtain ⟨looked', rfl⟩ := Store.query_eq_ok.1 declared
    obtain ⟨n, opened', typed⟩ := bind_eq_ok.1 looked'
    obtain ⟨_, _, changed, rest₃⟩ := edit_bind_eq_ok.1 rest₂
    cases rest₃
    obtain ⟨m₁, m', opened₁, injected, rfl⟩ := Store.change_eq_ok.1 changed
    obtain ⟨m'', injected, same⟩ := bind_eq_ok.1 injected
    cases same
    exact .inr ⟨Bool.eq_false_iff.2 taken, rfl, found, _, n, d, m₁, _, resolved, opened', typed, opened₁,
      injected, rfl⟩

/-- A type that is found on the way is declared like that in a file, for the fields that were added make
no difference to where it is found and what it is by name. -/
lemma Store.Reaches.declares (h : s.Reaches files path before index fields scopes)
    (read : Module.ofFile files path = .ok before)
    (opened : s.module (c.modulePath t.scope) = .ok n) (at' : n.findType t.fullName = .ok k)
    (there : n.types[k]? = some d) :
    ∃ m d', c.Declares files t m d' ∧ m.name = n.name ∧ d'.sig n.name = d.sig n.name := by
  obtain ⟨m, holds, extended⟩ := h
  obtain ⟨same, rfl⟩ | read' := holds.of_module_eq_ok opened
  · rw [extended.findType_eq] at at'
    rw [extended.types, List.getElem?_modify, Option.map_eq_map, Option.map_eq_some_iff] at there
    obtain ⟨d', there', rfl⟩ := there
    refine ⟨before, d', ⟨⟨path, same, read⟩, k, at', there'⟩, extended.name.symm, ?_⟩
    split
    · rfl
    · rfl
  · exact ⟨n, d, ⟨read', k, at', there⟩, rfl, rfl⟩

lemma Module.typeAt_eq_ok {m : Module} : m.typeAt k = .ok d ↔ m.types[k]? = some d := by
  unfold Module.typeAt
  cases m.types[k]? with
  | none => exact ⟨nofun, nofun⟩
  | some t =>
    constructor
    · intro h
      cases h
      rfl
    · intro h
      cases h
      rfl

/-- A reference to a type has the name of the module as its scope. -/
lemma Module.scope_of_typeRef {m : Module} {type : TypeRef} (h : m.typeRef k = .ok type) :
    type.scope = m.name := by
  obtain ⟨_, _, same⟩ := bind_eq_ok.1 h
  cases same
  rfl

lemma Module.containsField_iff {m : Module} {name : String} (h : m.types[k]? = some d) :
    m.containsField k name = true ↔ name ∈ d.fields.map (·.name) := by
  unfold Module.containsField
  rw [h, List.mem_map]
  simp only [List.any_eq_true, decide_eq_true_iff]

/-- A field is added, unless its name is taken. -/
lemma Store.Reaches.injectField {name : Option String}
    (h : s.Reaches files path before index fields scopes)
    (read : Module.ofFile files path = .ok before)
    (declares : before.types[index]? = some declaring) (targetPath : target.path = path)
    (targetIndex : target.index = index) (ok : c.injectField files marker target t s = .ok name s') :
    (injectedFieldName t.name ∈ (declaring.withFields fields).fields.map (·.name) ∧ name = none
        ∧ s'.Reaches files path before index fields scopes)
      ∨ (injectedFieldName t.name ∉ (declaring.withFields fields).fields.map (·.name)
        ∧ name = some (injectedFieldName t.name) ∧ ∃ m d, c.Declares files t m d
        ∧ s'.Reaches files path before index (fields ++ [Config.injectedField marker t m.name d])
          (scopes ++ [marker.owner.scope, m.name])) := by
  subst targetPath targetIndex
  obtain ⟨m, holds, extended⟩ := h
  obtain ⟨_, opened, outcome⟩ := of_injectField_eq_ok ok
  cases holds.module_self.symm.trans opened
  have grown := extended.getElem?_types declares
  rw [if_pos rfl] at grown
  have taken : m.containsField target.index (injectedFieldName t.name) = true ↔ _ :=
    Module.containsField_iff grown
  obtain ⟨there, rfl, rfl⟩ | ⟨free, rfl, found, s₁, n, d, m₁, m', resolved, opened', typed, opened₁,
    injected, rfl⟩ := outcome
  · exact .inl ⟨taken.1 there, rfl, m, holds, extended⟩
  · refine .inr ⟨fun there => Bool.eq_false_iff.1 free (taken.2 there), rfl, ?_⟩
    -- The type is looked up in a store in which the module is as it was.
    obtain ⟨_, openedNow, foundPath, at', named⟩ := of_resolveType_eq_ok resolved
    obtain ⟨holds₁, current⟩ := holds.openModule openedNow
    rw [foundPath] at opened'
    cases current.symm.trans opened'
    have reaches : s₁.Reaches files target.path before target.index fields scopes :=
      ⟨m, holds₁, extended⟩
    obtain ⟨module, d', declares', sameName, sameType⟩ :=
      reaches.declares read current at' (Module.typeAt_eq_ok.1 typed)
    refine ⟨module, d', declares', m', holds₁.replace, ?_⟩
    cases holds₁.module_self.symm.trans opened₁
    have added := extended.inject injected
    rw [Module.scope_of_typeRef named, ← sameType, ← sameName] at added
    exact added

/-- The fields of a patch are added one after another, and their names are given. -/
lemma Store.Reaches.mapM_injectField {ts : List TypeRef} {names : List (Option String)}
    (h : s.Reaches files path before index fields scopes)
    (read : Module.ofFile files path = .ok before)
    (declares : before.types[index]? = some declaring) (targetPath : target.path = path)
    (targetIndex : target.index = index)
    (ok : ts.mapM (c.injectField files marker target) s = .ok names s') :
    ∃ added, c.Adds files marker ((declaring.withFields fields).fields.map (·.name)) ts added
      ∧ names.filterMap id = added.map (·.1.name)
      ∧ s'.Reaches files path before index (fields ++ added.map (·.1))
        (scopes ++ added.flatMap fun a => [marker.owner.scope, a.2]) := by
  induction ts generalizing s fields scopes names with
  | nil =>
    cases ok
    refine ⟨[], .none, rfl, ?_⟩
    rw [List.map_nil, List.append_nil, List.flatMap_nil, List.append_nil]
    exact h
  | cons t ts ih =>
    rw [List.mapM_cons] at ok
    obtain ⟨name, s₁, first, rest⟩ := edit_bind_eq_ok.1 ok
    obtain ⟨names', s₂, others, same⟩ := edit_bind_eq_ok.1 rest
    cases same
    obtain ⟨taken, rfl, reaches⟩ | ⟨free, rfl, m, d, declared, reaches⟩ :=
      h.injectField read declares targetPath targetIndex first
    · obtain ⟨added, adds, named, reaches⟩ := ih reaches others
      exact ⟨added, .skip taken adds, named, reaches⟩
    · obtain ⟨added, adds, named, reaches⟩ := ih reaches others
      refine ⟨(Config.injectedField marker t m.name d, m.name) :: added, .add free declared ?_, ?_, ?_⟩
      · have names : (declaring.withFields (fields ++ [Config.injectedField marker t m.name d])).fields.map
            (·.name) = (declaring.withFields fields).fields.map (·.name) ++ [injectedFieldName t.name] := by
          show (declaring.fields ++ (fields ++ [_])).map FieldDeclaration.name = _
          rw [← List.append_assoc, List.map_append]
          rfl
        exact names ▸ adds
      · exact congrArg (injectedFieldName t.name :: ·) named
      · rw [List.append_assoc, List.append_assoc] at reaches
        exact reaches

end

end HookWeave
