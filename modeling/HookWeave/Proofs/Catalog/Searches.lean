import HookWeave.Proofs.Catalog.Tables
import HookWeave.Proofs.Image.Loaded
import HookWeave.Proofs.Patch.Fields
import Mathlib.Order.Bounds.Basic

/-!
# Catalogs and searches

A catalog finds by its tables what a search through the declarations finds, whatever was done to the module
since it was made or read (`Catalog.through_refines`): every change of the catalog comes to what the change
of the module comes to, and fails for the same reason, with nothing changed (`Catalog.Tracks`). Methods are
found by the names that they were declared with; as long as these stay, all look-ups give the first index of
a name, and fail where there is none (`Catalog.finds_of_reached`).
-/

namespace HookWeave

/-- A change of a module. A method is changed by a function, which may do anything to it. -/
inductive ModuleChange where
  | addType (t : TypeDeclaration)
  | addField (typeIndex : Nat) (field : FieldDeclaration)
  | importScope (scope : String)
  | modifyMethod (typeIndex methodIndex : Nat) (f : MethodDeclaration → MethodDeclaration)

/-- The change leaves the method that it is made on its name. -/
def ModuleChange.KeepsName (m : Module) : ModuleChange → Prop
  | modifyMethod k n f => ∀ x, m.methodAt k n = .ok x → (f x).name = x.name
  | _ => True

namespace Module

/-- What a change leaves of a module. One that fails leaves it as it is. -/
def settled {α : Type} (m : Module) : Except Fault (α × Module) → Module
  | .ok (_, m') => m'
  | .error _ => m

/-- The module after a change. -/
def changed (m : Module) : ModuleChange → Module
  | .addType t => m.addType t
  | .addField k f => m.settled (m.addField k f)
  | .importScope scope => m.importScope scope
  | .modifyMethod k n f => m.settled (((), ·) <$> m.modifyMethod k n f)

/-- The module after changes. -/
def through (m : Module) (changes : List ModuleChange) : Module :=
  changes.foldl changed m

/-- Methods are found by the names that they have. -/
def KeepsNames (m : Module) : Prop :=
  m.methodNames = m.types.map fun t => t.methods.map (·.name)

end Module

namespace Catalog

/-- The catalog after a change, which may have failed. -/
def changed (c : Catalog) : ModuleChange → Catalog
  | .addType t => after (addType t c)
  | .addField k f => after (addField k f c)
  | .importScope scope => after (importScope scope c)
  | .modifyMethod k n f => after (modifyMethod k n f c)

/-- The catalog after changes, some of which may have failed. -/
def through (c : Catalog) (changes : List ModuleChange) : Catalog :=
  changes.foldl changed c

/-- The catalog of a new module or of an image, or what changes left of one that keep the names of methods. -/
inductive Reached : Catalog → Prop
  | named {name : String} : Reached (.named name)
  | image {data : Bytes} {c : Catalog} : ofBytes data = .ok c → Reached c
  | change {c : Catalog} {change : ModuleChange} :
    Reached c → change.KeepsName c.module → Reached (c.changed change)

/-- The first position of a name. -/
def FirstAt (names : List String) (name : String) (i : Nat) : Prop :=
  IsLeast {i | names[i]? = some name} i

/-- Looking for a type gives the first index of a full name, or else the first of a simple name. That fails if
there is neither. -/
structure FindsTypes (c : Catalog) : Prop where
  found (name : String) (i : Nat) : c.findType name = .ok i ↔ FirstAt (c.types.map (·.fullName)) name i
    ∨ name ∉ c.types.map (·.fullName) ∧ FirstAt (c.types.map (·.name)) name i
  missed (name : String) (e : Fault) : c.findType name = .error e ↔ name ∉ c.types.map (·.fullName)
    ∧ name ∉ c.types.map (·.name) ∧ e = c.module.missing .type name

/-- Looking for a member of a type gives the first index of its name. That fails if there is no such type, or
no such member. -/
structure FindsMembers (c : Catalog) (kind : DeclarationKind) (names : TypeDeclaration → List String)
    (find : Nat → String → Except Fault Nat) : Prop where
  found (k : Nat) (name : String) (i : Nat) :
    find k name = .ok i ↔ ∃ t, c.types[k]? = some t ∧ FirstAt (names t) name i
  missed (k : Nat) (name : String) (e : Fault) :
    find k name = .error e ↔ c.types[k]? = none ∧ e = c.module.missing .type ("#" ++ toString k)
      ∨ ∃ t, c.types[k]? = some t ∧ name ∉ names t ∧ e = c.module.missingIn t kind name

/-- The catalog declares what the module does, and its tables lead to the first indices there. -/
structure Refines (c : Catalog) (m : Module) : Prop where
  name : c.name = m.name
  references : c.references = m.references
  types : c.types = m.types
  dirty : c.dirty = m.dirty
  index : c.index.Agrees m

variable {c c' : Catalog} {m m' : Module} {k n : Nat} {name : String}

/-! ## Looking up -/

lemma idxOf?_map {α : Type} (f : α → String) (l : List α) (name : String) :
    (l.map f).idxOf? name = l.findIdx? (fun a => f a = name) :=
  List.findIdx?_map

lemma typeAt_of_none (outside : c.types[k]? = none) :
    c.module.typeAt k = .error (c.module.missing .type ("#" ++ toString k)) := by
  rw [Module.typeAt, show c.module.types = c.types from rfl, outside]

/-- A member is looked for in its type. -/
lemma findMember_eq {kind : DeclarationKind} {table : Std.HashMap (Nat × String) Nat}
    {found : TypeDeclaration → Option Nat} (listed : ∀ t, c.types[k]? = some t → table[(k, name)]? = found t) :
    c.findMember kind table k name = c.module.typeAt k >>= fun t =>
      match found t with
      | some index => .ok index
      | none => .error (c.module.missingIn t kind name) := by
  unfold findMember
  cases there : c.types[k]? with
  | none =>
    rw [typeAt_of_none there]
    rfl
  | some t =>
    rw [Module.typeAt_eq_ok.2 there, ok_bind, ok_bind, listed t there]
    rfl

namespace Refines

variable (h : c.Refines m)
include h

/-- The catalog's module differs from the module at most in the names that methods were declared with. -/
lemma module_eq : c.module = { m with methodNames := m.types.map fun t => t.methods.map (·.name) } := by
  obtain ⟨name, references, types, dirty, _⟩ := h
  unfold module Module.ofParts
  rw [name, references, types, dirty]

lemma findType_eq (name : String) : c.findType name = m.findType name := by
  unfold findType Module.findType
  rw [h.index.types, idxOf?_map, h.types, h.module_eq]
  rfl

lemma findMethod_eq (k : Nat) (name : String) : c.findMethod k name = m.findMethod k name := by
  have listed (t : TypeDeclaration) (_ : c.types[k]? = some t) :
      c.index.methods[(k, name)]? = (m.methodNames.getD k []).idxOf? name := by
    rw [h.index.methods, List.getD_eq_getElem?_getD]
    cases m.methodNames[k]? <;> rfl
  refine (findMember_eq listed).trans ?_
  rw [h.module_eq]
  rfl

lemma fields_eq {t : TypeDeclaration} (there : m.types[k]? = some t) (name : String) :
    c.index.fields[(k, name)]? = t.fields.findIdx? (·.name = name) := by
  rw [h.index.fields, Module.fieldNames, List.getElem?_map, there, ← idxOf?_map]
  rfl

lemma findField_eq (k : Nat) (name : String) : c.findField k name = m.findField k name := by
  refine (findMember_eq fun t there => h.fields_eq (h.types ▸ there) name).trans ?_
  rw [h.module_eq]
  rfl

lemma containsField_eq (k : Nat) (name : String) : c.containsField k name = m.containsField k name := by
  unfold containsField Module.containsField
  rw [Std.HashMap.contains_eq_isSome_getElem?]
  cases there : m.types[k]? with
  | none =>
    rw [h.index.fields, Module.fieldNames, List.getElem?_map, there]
    rfl
  | some t =>
    rw [h.fields_eq there, List.findIdx?_isSome]

end Refines

/-! ## Changing -/

/-- A change of the catalog comes to what the change of the module comes to. If they fail, the catalog is what
it was. -/
inductive Tracks {α : Type} (c : Catalog) : EStateM.Result Fault Catalog α → Except Fault (α × Module) → Prop
  | ok {a : α} {c' : Catalog} {m' : Module} : c'.Refines m' → Tracks c (.ok a c') (.ok (a, m'))
  | error {e : Fault} : Tracks c (.error e c) (.error e)

/-- A failure changes nothing. -/
lemma Tracks.unchanged {α : Type} {e : Fault} {x : Except Fault (α × Module)}
    (tracks : c.Tracks (.error e c' : EStateM.Result Fault Catalog α) x) : c' = c := by
  cases tracks
  rfl

namespace Refines

variable (h : c.Refines m)
include h

lemma addType_tracks (t : TypeDeclaration) : c.Tracks (addType t c) (.ok (m.types.length, m.addType t)) := by
  have count : c.types.length = m.types.length := congrArg List.length h.types
  rw [← count]
  refine .ok ⟨h.name, h.references, congrArg (· ++ [t]) h.types, rfl, ?_⟩
  rw [count]
  exact h.index.insertType t

lemma importScope_tracks (scope : String) :
    c.Tracks (importScope scope c) (.ok (!m.knows scope, m.importScope scope)) := by
  have knows : c.module.knows scope = m.knows scope := by
    rw [h.module_eq]
    rfl
  unfold Module.importScope
  cases known : m.knows scope with
  | true =>
    have kept : importScope scope c = .ok false c := by
      show (if c.module.knows scope = true then _ else _ : Edit Bool) c = _
      rw [knows, known]
      rfl
    rw [kept]
    exact .ok h
  | false =>
    have grown : importScope scope c
        = .ok true { c with references := c.references ++ [scope], dirty := true } := by
      show (if c.module.knows scope = true then _ else _ : Edit Bool) c = _
      rw [knows, known]
      rfl
    rw [grown]
    exact .ok ⟨h.name, congrArg (· ++ [scope]) h.references, h.types, rfl,
      h.index.of_names rfl rfl rfl⟩

lemma addField_tracks (k : Nat) (f : FieldDeclaration) : c.Tracks (addField k f c) (m.addField k f) := by
  have at' : c.module.typeAt k = m.typeAt k := by
    rw [h.module_eq]
    rfl
  have has := h.containsField_eq k f.name
  unfold addField Module.addField
  show c.Tracks ((MonadExcept.ofExcept (c.module.typeAt k) >>= fun t => _ : Edit Nat) c) (m.typeAt k >>= _)
  rw [at']
  cases there : m.types[k]? with
  | none =>
    have missed : m.typeAt k = .error (m.missing .type ("#" ++ toString k)) := by rw [Module.typeAt, there]
    rw [missed]
    exact .error
  | some t =>
    rw [Module.typeAt_eq_ok.2 there]
    show c.Tracks ((if c.containsField k f.name = true then _ else _ : Edit Nat) c)
      (if m.containsField k f.name = true then _ else _)
    rw [has]
    cases listed : m.containsField k f.name with
    | true => exact .error
    | false =>
      have new : f.name ∉ t.fields.map (·.name) := fun taken =>
        Bool.eq_false_iff.1 listed ((Module.containsField_iff there).2 taken)
      refine .ok ⟨h.name, h.references, congrArg _ h.types, rfl, ?_⟩
      exact (h.index.insertField there new).of_names rfl rfl rfl

lemma modifyMethod_tracks (k n : Nat) (f : MethodDeclaration → MethodDeclaration) :
    c.Tracks (modifyMethod k n f c) (((), ·) <$> m.modifyMethod k n f) := by
  have at' : c.module.methodAt k n = m.methodAt k n := by
    rw [h.module_eq]
    rfl
  unfold modifyMethod Module.modifyMethod
  show c.Tracks ((MonadExcept.ofExcept (c.module.methodAt k n) >>= fun _ => _ : Edit Unit) c)
    (_ <$> (m.methodAt k n >>= _))
  rw [at']
  cases m.methodAt k n with
  | error e => exact .error
  | ok method =>
    refine .ok ⟨h.name, h.references, congrArg _ h.types, rfl, h.index.of_names ?_ rfl ?_⟩
    · show (m.types.modify k _).map _ = _
      refine map_modify_eq fun t _ => ?_
      rfl
    · show (m.types.modify k _).map _ = _
      refine map_modify_eq fun t _ => ?_
      rfl

end Refines

/-! ## Histories -/

lemma Tracks.settled {α : Type} {r : EStateM.Result Fault Catalog α} {x : Except Fault (α × Module)}
    (h : c.Refines m) (tracks : c.Tracks r x) : (after r).Refines (m.settled x) := by
  cases tracks with
  | ok refines => exact refines
  | error => exact h

lemma changed_refines (h : c.Refines m) (change : ModuleChange) :
    (c.changed change).Refines (m.changed change) := by
  cases change with
  | addType t => exact (h.addType_tracks t).settled h
  | addField k f => exact (h.addField_tracks k f).settled h
  | importScope scope => exact (h.importScope_tracks scope).settled h
  | modifyMethod k n f => exact (h.modifyMethod_tracks k n f).settled h

/-- Whatever is done to it, the catalog declares what the module does, and finds what a search finds there. -/
theorem through_refines (h : c.Refines m) (changes : List ModuleChange) :
    (c.through changes).Refines (m.through changes) := by
  induction changes generalizing c m with
  | nil => exact h
  | cons change changes ih => exact ih (changed_refines h change)

/-- Whatever was done to it, a catalog finds by its tables what a search through the module finds, also where
methods were given other names. -/
theorem through_finds (h : c.Refines m) (changes : List ModuleChange) (k : Nat) (name : String) :
    (c.through changes).findType name = (m.through changes).findType name
      ∧ (c.through changes).findMethod k name = (m.through changes).findMethod k name
      ∧ (c.through changes).findField k name = (m.through changes).findField k name
      ∧ (c.through changes).containsField k name = (m.through changes).containsField k name := by
  have refines := through_refines h changes
  exact ⟨refines.findType_eq name, refines.findMethod_eq k name, refines.findField_eq k name,
    refines.containsField_eq k name⟩

lemma changed_keepsNames {change : ModuleChange} (h : m.KeepsNames) (keeps : change.KeepsName m) :
    (m.changed change).KeepsNames := by
  cases change with
  | addType t =>
    show m.methodNames ++ [_] = (m.types ++ [t]).map _
    rw [List.map_append, h]
    rfl
  | addField k f =>
    show (m.settled (m.addField k f)).KeepsNames
    unfold Module.addField
    cases m.typeAt k with
    | error e => exact h
    | ok t =>
      show (m.settled (if m.containsField k f.name = true then _ else _)).KeepsNames
      split_ifs with listed
      · exact h
      · show m.methodNames = (m.types.modify k _).map _
        refine h.trans (Eq.symm (map_modify_eq fun t _ => ?_))
        rfl
  | importScope scope =>
    show (m.importScope scope).KeepsNames
    unfold Module.importScope
    split_ifs <;> exact h
  | modifyMethod k n f =>
    show (m.settled (_ <$> m.modifyMethod k n f)).KeepsNames
    unfold Module.modifyMethod
    cases m.methodAt k n with
    | error e => exact h
    | ok method =>
      show m.methodNames = (m.types.modify k _).map _
      refine h.trans (Eq.symm (map_modify_eq fun t there => map_modify_eq fun x at' => keeps x ?_))
      rw [Module.methodAt, Module.typeAt, there, ok_bind, at']
      rfl

lemma refines_named (name : String) : (named name).Refines (.named name) :=
  ⟨rfl, rfl, rfl, rfl, DeclarationIndex.agrees_build name [] []⟩

lemma refines_ofBytes {data : Bytes} (read : ofBytes data = .ok c) :
    ∃ m, Module.ofBytes data = .ok m ∧ c.Refines m ∧ m.KeepsNames := by
  obtain ⟨m, found, same⟩ := bind_eq_ok.1 read
  cases same
  have parts := (Module.loaded_of_ofBytes found).parts
  refine ⟨m, found, ⟨rfl, rfl, rfl, ?_, ?_⟩, ?_⟩
  · rw [parts]
    rfl
  · rw [parts]
    exact DeclarationIndex.agrees_build _ _ _
  · rw [parts]
    rfl

/-- The module that a catalog refines changes with it, and methods are found by their names still. -/
lemma refines_of_reached (h : c.Reached) : ∃ m, c.Refines m ∧ m.KeepsNames := by
  induction h with
  | @named name => exact ⟨.named name, refines_named name, rfl⟩
  | image read =>
    obtain ⟨m, _, both⟩ := refines_ofBytes read
    exact ⟨m, both⟩
  | @change c change _ keeps ih =>
    obtain ⟨m, refines, names⟩ := ih
    have keeps' : change.KeepsName m := by
      rw [refines.module_eq] at keeps
      cases change <;> exact keeps
    exact ⟨m.changed change, changed_refines refines change, changed_keepsNames names keeps'⟩

lemma Reached.through {changes : List ModuleChange} (h : c.Reached)
    (keeps : ∀ change ∈ changes, ∀ m, change.KeepsName m) : (c.through changes).Reached := by
  induction changes generalizing c with
  | nil => exact h
  | cons change changes ih =>
    obtain ⟨first, others⟩ := List.forall_mem_cons.1 keeps
    exact ih (.change h (first c.module)) others

/-! ## First positions -/

lemma firstAt_iff {names : List String} {i : Nat} : FirstAt names name i ↔ names.idxOf? name = some i := by
  rw [List.idxOf?_eq_some_iff]
  constructor
  · rintro ⟨here, least⟩
    obtain ⟨bound, same⟩ := List.getElem?_eq_some_iff.1 here
    refine ⟨bound, same, fun j before there => ?_⟩
    have le := least (List.getElem?_eq_some_iff.2 ⟨before.trans bound, there⟩)
    exact absurd before (Nat.not_lt.2 le)
  · rintro ⟨bound, same, others⟩
    refine ⟨List.getElem?_eq_some_iff.2 ⟨bound, same⟩, fun j there => ?_⟩
    obtain ⟨_, here⟩ := List.getElem?_eq_some_iff.1 there
    exact Nat.not_lt.1 fun before => others j before here

/-- Something is found, or a search fails for one reason. -/
lemma found_or_missed {x : Except Fault Nat} {found : Option Nat} {missing : Fault}
    (outcome : x = found.elim (.error missing) .ok) :
    (∀ i, x = .ok i ↔ found = some i) ∧ ∀ e, x = .error e ↔ found = none ∧ e = missing := by
  subst outcome
  cases found with
  | none => exact ⟨fun _ => ⟨nofun, nofun⟩, fun e => ⟨fun same => ⟨rfl, (Except.error.inj same).symm⟩,
      fun same => congrArg Except.error same.2.symm⟩⟩
  | some j => exact ⟨fun _ => ⟨fun same => congrArg some (Except.ok.inj same),
      fun same => congrArg Except.ok (Option.some.inj same)⟩, fun _ => ⟨nofun, nofun⟩⟩

lemma findsTypes (named : ∀ name, c.index.types[name]? = (c.types.map (·.fullName)).idxOf? name) :
    c.FindsTypes := by
  have outcome (name : String) : c.findType name
      = (((c.types.map (·.fullName)).idxOf? name).or ((c.types.map (·.name)).idxOf? name)).elim
        (.error (c.module.missing .type name)) .ok := by
    unfold findType
    rw [named, ← idxOf?_map]
    cases (c.types.map (·.fullName)).idxOf? name with
    | some i => rfl
    | none => cases (c.types.map (·.name)).idxOf? name <;> rfl
  constructor
  · intro name i
    rw [(found_or_missed (outcome name)).1, Option.or_eq_some_iff, List.idxOf?_eq_none_iff, firstAt_iff,
      firstAt_iff]
  · intro name e
    rw [(found_or_missed (outcome name)).2, Option.or_eq_none_iff, List.idxOf?_eq_none_iff,
      List.idxOf?_eq_none_iff, and_assoc]

section

variable {kind : DeclarationKind} {names : TypeDeclaration → List String}
  {table : Std.HashMap (Nat × String) Nat} (lists : DeclarationIndex.Lists table (c.types.map names))
include lists

lemma findMember_at {t : TypeDeclaration} (there : c.types[k]? = some t) :
    c.findMember kind table k name
      = ((names t).idxOf? name).elim (.error (c.module.missingIn t kind name)) .ok := by
  have listed (t : TypeDeclaration) (there : c.types[k]? = some t) :
      table[(k, name)]? = (names t).idxOf? name := by
    rw [lists, List.getElem?_map, there]
    rfl
  rw [findMember_eq listed, Module.typeAt_eq_ok.2 there, ok_bind]
  cases (names t).idxOf? name <;> rfl

omit lists in
lemma findMember_outside (outside : c.types[k]? = none) :
    c.findMember kind table k name = .error (c.module.missing .type ("#" ++ toString k)) := by
  rw [findMember, typeAt_of_none outside]
  rfl

lemma findsMembers : c.FindsMembers kind names (c.findMember kind table) where
  found k name i := by
    cases there : c.types[k]? with
    | none =>
      rw [findMember_outside there]
      exact ⟨nofun, fun ⟨_, other, _⟩ => nomatch other⟩
    | some t =>
      rw [(found_or_missed (findMember_at lists there)).1, ← firstAt_iff]
      exact ⟨fun first => ⟨t, rfl, first⟩, fun ⟨_, same, first⟩ => Option.some.inj same ▸ first⟩
  missed k name e := by
    cases there : c.types[k]? with
    | none =>
      rw [findMember_outside there]
      constructor
      · intro same
        exact .inl ⟨rfl, (Except.error.inj same).symm⟩
      · rintro (⟨_, rfl⟩ | ⟨_, other, _⟩)
        · rfl
        · cases other
    | some t =>
      rw [(found_or_missed (findMember_at lists there)).2, List.idxOf?_eq_none_iff]
      constructor
      · intro missed
        exact .inr ⟨t, rfl, missed⟩
      · rintro (⟨other, _⟩ | ⟨_, same, missed⟩)
        · cases other
        · cases same
          exact missed

/-- A member is listed if and only if it is found. -/
lemma contains_iff : table.contains (k, name) = true ↔ ∃ i, c.findMember kind table k name = .ok i := by
  rw [Std.HashMap.contains_eq_isSome_getElem?, Option.isSome_iff_exists]
  cases there : c.types[k]? with
  | none =>
    rw [lists, List.getElem?_map, there, findMember_outside there]
    exact ⟨fun ⟨_, other⟩ => (nomatch other), fun ⟨_, other⟩ => (nomatch other)⟩
  | some t =>
    have found (i : Nat) : c.findMember kind table k name = .ok i ↔ (names t).idxOf? name = some i :=
      (found_or_missed (findMember_at lists there)).1 i
    rw [lists, List.getElem?_map, there]
    exact exists_congr fun i => (found i).symm

end

/-- As long as methods keep their names, look-ups give the first index of a name, and fail if there is none: a
member is looked for in its type, and a type by its full name and then by its simple name. A field that cannot
be added leaves the catalog as it is. -/
theorem finds_of_reached (h : c.Reached) :
    c.FindsTypes
      ∧ c.FindsMembers .method (·.methods.map (·.name)) c.findMethod
      ∧ c.FindsMembers .field (·.fields.map (·.name)) c.findField
      ∧ (∀ k name, c.containsField k name = true ↔ ∃ i, c.findField k name = .ok i)
      ∧ ∀ k f e c', addField k f c = .error e c' → c' = c := by
  obtain ⟨m, refines, names⟩ := refines_of_reached h
  have types := refines.types
  have named (name : String) : c.index.types[name]? = (c.types.map (·.fullName)).idxOf? name := by
    rw [types]
    exact refines.index.types name
  have methods : DeclarationIndex.Lists c.index.methods (c.types.map (·.methods.map (·.name))) := by
    rw [types]
    exact names ▸ refines.index.methods
  have fields : DeclarationIndex.Lists c.index.fields (c.types.map (·.fields.map (·.name))) := by
    rw [types]
    exact refines.index.fields
  refine ⟨findsTypes named, findsMembers methods, findsMembers fields, fun k name => contains_iff fields,
    fun k f e c' failed => ?_⟩
  have tracks := refines.addField_tracks k f
  rw [failed] at tracks
  exact tracks.unchanged

namespace Example

/-- Opens a door, in one of two ways. -/
def opens (params : List Parameter) : MethodDeclaration :=
  ⟨"Open", 0x16, params, .void, [], none⟩

/-- A field of a door. -/
def part (name : String) : FieldDeclaration :=
  ⟨name, .prim .bool, FieldDeclaration.privateFlags, []⟩

/-- A door with two ways to open it. -/
def door : TypeDeclaration :=
  ⟨"Shop", "Door", 1, none, [], [], [part "lock"], [opens [], opens [⟨"wide", .prim .bool⟩]]⟩

/-- Another type with the full name of the door. -/
def sign : TypeDeclaration :=
  ⟨"", "Shop.Door", 1, none, [], [], [], []⟩

/-- The door gets a handle, but no second lock. -/
def works : List ModuleChange :=
  [.addType door, .addField 0 (part "handle"), .addField 0 (part "lock"), .addType sign, .importScope "Core",
    .addField 2 (part "lock"), .modifyMethod 0 1 fun m => { m with attributes := [] }]

/-- The door is found by both of its names, the handle behind the lock, and the first way to open the door. -/
theorem door_found : ∃ c, (Catalog.named "Shop").through works = c ∧ c.Reached ∧ c.types.length = 2
    ∧ c.findType "Shop.Door" = .ok 0 ∧ c.findType "Door" = .ok 0
    ∧ c.findField 0 "handle" = .ok 1 ∧ c.findMethod 0 "Open" = .ok 0
    ∧ c.findField 1 "lock" = .error (c.module.missingIn sign .field "lock")
    ∧ c.findField 2 "lock" = .error (c.module.missing .type "#2") := by
  have reached : ((Catalog.named "Shop").through works).Reached :=
    Reached.named.through (by simp [works, ModuleChange.KeepsName])
  have declared : ((Catalog.named "Shop").through works).types
      = [{ door with fields := [part "lock", part "handle"] }, sign] :=
    (through_refines (refines_named "Shop") works).types
  generalize (Catalog.named "Shop").through works = c at *
  obtain ⟨types, methods, fields, _, _⟩ := finds_of_reached reached
  refine ⟨c, rfl, reached, ?_, ?_, ?_, ?_, ?_, ?_, ?_⟩
  · rw [declared]
    rfl
  · rw [types.found, firstAt_iff, declared]
    exact .inl (by decide)
  · rw [types.found, firstAt_iff, firstAt_iff, declared]
    exact .inr (by decide)
  · refine (fields.found 0 "handle" 1).2 ⟨_, by rw [declared]; rfl, firstAt_iff.2 (by decide)⟩
  · refine (methods.found 0 "Open" 0).2 ⟨_, by rw [declared]; rfl, firstAt_iff.2 (by decide)⟩
  · exact (fields.missed 1 "lock" _).2 (.inr ⟨sign, by rw [declared]; rfl, by decide, rfl⟩)
  · exact (fields.missed 2 "lock" _).2 (.inl ⟨by rw [declared]; rfl, rfl⟩)

end Example

end Catalog
end HookWeave
