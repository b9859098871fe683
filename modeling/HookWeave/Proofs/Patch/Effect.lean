import HookWeave.Patch.Run
import HookWeave.Proofs.Image.Canonical
import HookWeave.Proofs.Patch.Fields
import HookWeave.Proofs.Storage.Trees
import HookWeave.Proofs.Weaving.Admitted

/-!
# The effect of a patch

A patch that is applied for good changes one file, that of the module of the target's type. Loaded again,
it gives the module that it gave before with fields appended to that type, the hook woven into the
target, and the references that these need (`Config.apply_patches`). The store of the patch ends with that
module as the only one that was changed (`of_weave_eq_ok`); its image reads back as it, for what was
loaded reads back as it is (`Module.Loaded.ofBytes_patched`).
-/

namespace HookWeave

/-! ## Patches -/

/-- What a request comes to in a module: the type and the method that it is for, the fields that are added
to the type, each with the scope of its own type, and what the hook makes of the method. -/
structure Patch where
  typeIndex : Nat
  type : TypeDeclaration
  methodIndex : Nat
  method : MethodDeclaration
  added : List (FieldDeclaration × String)
  woven : MethodDeclaration

namespace Patch

/-- The fields that are added to the type. -/
def fields (p : Patch) : List FieldDeclaration :=
  p.added.map (·.1)

/-- The scopes that are needed: those of the marker and of its type for each field, and that of the
hook. -/
def scopes (p : Patch) (marker hook : MethodRef) : List String :=
  (p.added.flatMap fun a => [marker.owner.scope, a.2]) ++ [hook.owner.scope]

end Patch

/-- A request comes to a patch of a module. -/
structure Config.Makes (c : Config) (files : Files) (marker : MethodRef) (r : PatchRequest)
    (m : Module) (p : Patch) : Prop where
  typeFound : m.findType r.targetType.fullName = .ok p.typeIndex
  type : m.types[p.typeIndex]? = some p.type
  methodFound : m.findMethod p.typeIndex r.targetMethod = .ok p.methodIndex
  method : p.type.methods[p.methodIndex]? = some p.method
  added : c.Adds files marker (p.type.fields.map (·.name)) r.injected p.added
  woven : (⟨c.conventions, p.type.reference m.name, p.method, r⟩ : Weaving).weave c.verify = .ok p.woven

/-- The module with fields appended to a type, one of the type's methods replaced, and scopes added to the
references. -/
def Module.patched (m : Module) (typeIndex : Nat) (fields : List FieldDeclaration) (methodIndex : Nat)
    (method : MethodDeclaration) (scopes : List String) : Module :=
  { m with
    references := addReferences m.name m.references scopes
    types := m.types.modify typeIndex fun t =>
      { t.withFields fields with methods := t.methods.set methodIndex method } }

variable {c : Config} {files : Files} {marker : MethodRef} {r : PatchRequest} {path : Path}
  {before m m' : Module} {s s' : Store} {t : TypeDeclaration} {method : MethodDeclaration} {k n : Nat}

lemma Module.methodAt_eq_ok (at' : m.types[k]? = some t) :
    m.methodAt k n = .ok method ↔ t.methods[n]? = some method := by
  unfold Module.methodAt
  rw [bind_eq_ok]
  constructor
  · rintro ⟨_, typed, h⟩
    cases (Module.typeAt_eq_ok.1 typed).symm.trans at'
    cases found : t.methods[n]? with
    | none =>
      rw [found] at h
      cases h
    | some method' =>
      rw [found] at h
      cases h
      rfl
  · intro found
    refine ⟨t, Module.typeAt_eq_ok.2 at', ?_⟩
    rw [found]
    rfl

/-- A type that is extended and then has a method replaced is patched. -/
lemma Module.Extends.patched {fields : List FieldDeclaration} {scopes : List String} {scope : String}
    (h : before.Extends k fields scopes m) (replaced : m.modifyMethod k n (fun _ => method) = .ok m') :
    m'.importScope scope
      = { before.patched k fields n method (scopes ++ [scope]) with dirty := true } := by
  obtain ⟨_, _, same⟩ := bind_eq_ok.1 replaced
  cases same
  have types : (m.types.modify k fun t => { t with methods := t.methods.modify n fun _ => method })
      = before.types.modify k fun t =>
        { t.withFields fields with methods := t.methods.set n method } := by
    rw [h.types, List.modify_modify_eq]
    refine congrArg (before.types.modify k) (funext fun t => ?_)
    rw [List.set_eq_modify]
    rfl
  have references : addReferences before.name m.references [scope]
      = addReferences before.name before.references (scopes ++ [scope]) := by
    rw [addReferences_append, ← h.references]
  rw [importScope_eq]
  simp only [types, h.name, h.methodNames, references, Bool.true_or]
  rfl

/-- The target of a patch is resolved in the module that is opened for it. -/
lemma of_resolveMethod_eq_ok {owner : ResolvedType} {name : String} {target : ResolvedMethod}
    (h : owner.resolveMethod s name = .ok target) :
    ∃ m method, s.module owner.path = .ok m ∧ m.findMethod owner.index name = .ok target.index
      ∧ m.methodAt owner.index target.index = .ok method := by
  obtain ⟨m, opened, h₁⟩ := bind_eq_ok.1 h
  obtain ⟨index, found, h₂⟩ := bind_eq_ok.1 h₁
  obtain ⟨method, at', same⟩ := bind_eq_ok.1 h₂
  cases same
  exact ⟨m, method, opened, found, at'⟩

/-- The module of a store after the work on a request. -/
lemma of_weave_eq_ok {patch : AppliedPatch} (h : c.weave files marker r .empty = .ok patch s) :
    ∃ before p, Module.ofFile files (c.modulePath r.targetType.scope) = .ok before
      ∧ c.Makes files marker r before p
      ∧ patch = ⟨r.hookName, r.targetName, r.kind, p.fields.map (·.name)⟩
      ∧ s.Holds files (c.modulePath r.targetType.scope)
        { before.patched p.typeIndex p.fields p.methodIndex p.woven (p.scopes marker r.hook) with
          dirty := true } := by
  unfold Config.weave at h
  obtain ⟨owner, s₁, resolved, h₁⟩ := edit_bind_eq_ok.1 h
  obtain ⟨target, _, searched, h₂⟩ := edit_bind_eq_ok.1 h₁
  obtain ⟨targeted, rfl⟩ := Store.query_eq_ok.1 searched
  obtain ⟨names, s₂, injected, h₃⟩ := edit_bind_eq_ok.1 h₂
  obtain ⟨_, s₃, changed, h₄⟩ := edit_bind_eq_ok.1 h₃
  cases h₄
  -- The module is opened first, and the type and the method are found in it.
  obtain ⟨before, opened, ownerPath, typeFound, named⟩ := of_resolveType_eq_ok resolved
  obtain ⟨read, holds⟩ := Store.of_openModule_empty opened
  obtain ⟨type, typed, sameType⟩ := bind_eq_ok.1 named
  have typeAt := Module.typeAt_eq_ok.1 typed
  obtain ⟨_, method, opened₁, methodFound, methodAt⟩ := of_resolveMethod_eq_ok targeted
  rw [ownerPath] at opened₁ changed
  cases holds.module_self.symm.trans opened₁
  have methodAt := (Module.methodAt_eq_ok typeAt).1 methodAt
  -- The fields are added.
  have starts : Store.Reaches _ files (c.modulePath r.targetType.scope) before owner.index [] [] :=
    ⟨before, holds, .refl⟩
  obtain ⟨added, adds, sameNames, m, holds₂, extended⟩ :=
    starts.mapM_injectField read typeAt ownerPath rfl injected
  -- The method is replaced in the module with the fields.
  obtain ⟨_, _, opened₂, made, rfl⟩ := Store.change_eq_ok.1 changed
  cases holds₂.module_self.symm.trans opened₂
  obtain ⟨method', at', made₁⟩ := bind_eq_ok.1 made
  obtain ⟨woven, weaves, made₂⟩ := bind_eq_ok.1 made₁
  obtain ⟨m', replaced, same⟩ := bind_eq_ok.1 made₂
  cases same
  have grown := extended.getElem?_types typeAt
  rw [if_pos rfl] at grown
  cases ((Module.methodAt_eq_ok grown).1 at').symm.trans methodAt
  have sameType : type.reference before.name = owner.type := Except.ok.inj sameType
  refine ⟨before, ⟨owner.index, type, target.index, method, added, woven⟩, read,
    ⟨typeFound, typeAt, methodFound, methodAt, ?_, ?_⟩, ?_, ?_⟩
  · rwa [TypeDeclaration.withFields, List.append_nil] at adds
  · rw [sameType]
    exact weaves
  · rw [sameNames, Patch.fields, List.map_map]
    rfl
  · rw [extended.patched replaced]
    exact holds₂.replace

/-! ## Reading back -/

lemma set_of_getElem? {α : Type} {as : List α} {a : α} (h : as[k]? = some a) : as.set k a = as := by
  obtain ⟨bound, rfl⟩ := List.getElem?_eq_some_iff.1 h
  exact List.set_getElem_self bound

/-- A type with more fields and another method is read back with what that method is read back as. -/
lemma TypeDeclaration.ReadBack.of_patched {fields : List FieldDeclaration} {b : TypeDeclaration}
    {old : MethodDeclaration} (h : ReadBack { t.withFields fields with methods := t.methods.set n method } b)
    (at' : t.methods[n]? = some old) (loaded : ∀ m ∈ t.methods, m.Writable ∧ ∀ b ∈ m.body, b.Numbered) :
    ∃ method', method.ReadBack method'
      ∧ b = { t.withFields fields with methods := t.methods.set n method' } := by
  obtain ⟨methods, same, rfl⟩ := h
  have same : List.Forall₂ MethodDeclaration.ReadBack (t.methods.set n method) methods := same
  rw [List.set_eq_modify] at same
  obtain ⟨method', replaced, rfl⟩ := eq_set_of_forall₂ same at' fun m hm _ related =>
    related.eq (loaded m hm).1 (loaded m hm).2
  exact ⟨method', replaced, rfl⟩

/-- A module that was loaded and then patched is read back with the method as it is read back, and with
all else as it was. -/
lemma Module.Loaded.ofBytes_patched {fields : List FieldDeclaration} {scopes : List String}
    {old : MethodDeclaration} {image : Bytes} {dirty : Bool} (loaded : before.Loaded)
    (type : before.types[k]? = some t) (at' : t.methods[n]? = some old) (name : method.name = old.name)
    (admitted : ∀ f ∈ fields, f.Admitted) (admitted' : method.Admitted)
    (h : Module.toBytes { before.patched k fields n method scopes with dirty } = .ok image) :
    ∃ method', method.ReadBack method'
      ∧ Module.ofBytes image = .ok (before.patched k fields n method' scopes) := by
  have mem : t ∈ before.types := List.mem_of_getElem? type
  have whole : TypeDeclaration.Admitted { t.withFields fields with methods := t.methods.set n method } := by
    obtain ⟨attributes, own, methods⟩ := loaded.admitted t mem
    refine ⟨attributes, List.forall_mem_append.2 ⟨own, admitted⟩, fun m hm => ?_⟩
    cases List.mem_or_eq_of_mem_set hm with
    | inl hm => exact methods m hm
    | inr same => exact same ▸ admitted'
  have each : ∀ t' ∈ (before.patched k fields n method scopes).types, t'.Admitted := by
    intro t' ht'
    obtain ⟨i, found⟩ := List.mem_iff_getElem?.1 ht'
    have found : (before.types.modify k _)[i]? = some t' := found
    rw [List.getElem?_modify, Option.map_eq_map, Option.map_eq_some_iff] at found
    obtain ⟨t₀, there, rfl⟩ := found
    by_cases here : k = i
    · rw [if_pos here]
      cases (here ▸ type).symm.trans there
      exact whole
    · rw [if_neg here]
      exact loaded.admitted t₀ (List.mem_of_getElem? there)
  obtain ⟨types, same, read⟩ := Module.reads_of_toBytes h fun t' ht' _ _ _ written =>
    Image.Building.yields_writeType_readBack written (each t' ht')
  obtain ⟨b, replaced, rfl⟩ := eq_set_of_forall₂ same type fun t' ht' _ related =>
    related.eq (loaded.writable.types.2 t' ht') (loaded.numbered t' ht')
  obtain ⟨method', back, rfl⟩ := replaced.of_patched at' fun m hm =>
    ⟨(loaded.writable.types.2 t mem).methods.2 m hm, loaded.numbered t mem m hm⟩
  refine ⟨method', back, read.trans (congrArg _ ?_)⟩
  -- The names of methods are those that the module had.
  have names : (t.methods.set n method').map (·.name) = t.methods.map (·.name) := by
    obtain ⟨_, _, rfl⟩ := back
    rw [List.map_set, show MethodDeclaration.name _ = old.name from name]
    exact set_of_getElem? (by rw [List.getElem?_map, at', Option.map_some])
  have methodNames : (before.types.set k { t.withFields fields with
      methods := t.methods.set n method' }).map (fun t => t.methods.map (·.name)) = before.methodNames := by
    rw [List.map_set, names, congrArg Module.methodNames loaded.parts]
    exact set_of_getElem? (by rw [List.getElem?_map, type, Option.map_some])
  have types : before.types.modify k (fun t => { t.withFields fields with
      methods := t.methods.set n method' })
        = before.types.set k { t.withFields fields with methods := t.methods.set n method' } := by
    rw [List.modify_eq_set_getElem?, type]
    rfl
  have clean : before.dirty = false := congrArg Module.dirty loaded.parts
  unfold Module.patched ofParts
  rw [types, methodNames, ← clean]

/-! ## What is taken from loaded modules -/

/-- The method is declared in a module that was loaded. -/
def MethodRef.Declared (ref : MethodRef) : Prop :=
  ∃ image m t method, Module.ofBytes image = .ok m ∧ t ∈ m.types ∧ method ∈ t.methods
    ∧ ref = method.reference (t.reference m.name)

/-- A patch attribute in a module that was loaded makes the request. -/
def Conventions.Requests (c : Conventions) (r : PatchRequest) : Prop :=
  ∃ image m hook, Module.ofBytes image = .ok m ∧ hook ∈ c.scan m ∧ hook.request = .ok r

lemma MethodRef.Declared.shallow {ref : MethodRef} (h : ref.Declared) : ref.sig.Shallow := by
  obtain ⟨image, m, t, method, read, ht, hm, rfl⟩ := h
  have admitted := ((Module.loaded_of_ofBytes read).admitted t ht).methods method hm
  exact ⟨admitted.ret, List.forall_mem_map.2 admitted.params⟩

/-- A request is made of a method that is declared where it was found, and says of the hook what the
declaration says. -/
lemma Conventions.Requests.exists_method {conventions : Conventions} (h : conventions.Requests r) :
    ∃ image m t method, Module.ofBytes image = .ok m ∧ t ∈ m.types ∧ method ∈ t.methods
      ∧ r.hook = method.reference (t.reference m.name) ∧ r.hookParams = method.params
      ∧ r.hookIsStatic = method.isStatic := by
  obtain ⟨image, m, hook, read, scanned, made⟩ := h
  obtain ⟨t, ht, inType⟩ := List.mem_flatMap.1 scanned
  obtain ⟨method, hm, inMethod⟩ := List.mem_flatMap.1 inType
  obtain ⟨a, _, rfl⟩ := List.mem_map.1 inMethod
  obtain ⟨kind, _, made₁⟩ := bind_eq_ok.1 made
  obtain ⟨directive, _, made₂⟩ := bind_eq_ok.1 made₁
  obtain ⟨more, _, same⟩ := bind_eq_ok.1 made₂
  cases same
  exact ⟨image, m, t, method, read, (List.mem_filter.1 ht).1, hm, rfl, rfl, rfl⟩

/-- A hook that a request names is declared where the request was found. -/
lemma Conventions.Requests.declared {conventions : Conventions} (h : conventions.Requests r) :
    r.hook.Declared := by
  obtain ⟨image, m, t, method, read, ht, hm, hook, _⟩ := h.exists_method
  exact ⟨image, m, t, method, read, ht, hm, hook⟩

/-- Fields that are added can be read. -/
lemma Config.Adds.admitted {taken : List String} {ts : List TypeRef}
    {added : List (FieldDeclaration × String)} (h : c.Adds files marker taken ts added)
    (shallow : marker.sig.Shallow) : ∀ f ∈ added.map (·.1), f.Admitted := by
  induction h with
  | none => exact fun f hf => nomatch hf
  | skip _ _ ih => exact ih
  | @add _ t _ m d _ _ _ _ ih =>
    refine List.forall_mem_cons.2 ⟨⟨?_, ?_⟩, ih⟩
    · show (d.sig m.name).Shallow
      unfold TypeDeclaration.sig
      split
      · exact Nat.succ_pos _
      · exact Nat.succ_pos _
    · exact List.forall_mem_singleton.2 ⟨shallow, Nat.zero_le _⟩

/-! ## Applied patches -/

lemma loaded_of_ofFile (h : Module.ofFile files path = .ok m) : m.Loaded := by
  obtain ⟨bytes, _, read⟩ := Module.ofFile_eq_ok.1 h
  exact Module.loaded_of_ofBytes read

/-- The image of the module that is patched is what the module is as bytes. -/
lemma Store.Holds.toBytes_of_image {image : Bytes} (h : s.Holds files path m)
    (encoded : s.image path = .ok image) : m.toBytes = .ok image := by
  obtain ⟨others, modules, _⟩ := h
  exact (Store.image_eq_ok (modules ▸ List.mem_cons_self ..)).1 encoded

/-- A patch that is applied for good is worked out in a store of its own, which is then committed. -/
lemma of_apply_eq_ok {σ : Type} [Disk σ] {disk disk' : σ} {patch : AppliedPatch} {written : List Path}
    (effective : c.dryRun = false) (h : c.apply marker r disk = .ok (patch, written) disk') :
    ∃ store store', c.weave (Disk.files disk) marker r .empty = .ok patch store
      ∧ store.commit disk = .ok (written, store') disk' := by
  unfold Config.apply at h
  obtain ⟨_, _, got, h₁⟩ := edit_bind_eq_ok.1 h
  cases got
  cases woven : c.weave (Disk.files disk) marker r .empty with
  | error e store =>
    rw [woven] at h₁
    cases h₁
  | ok made store =>
    rw [woven] at h₁
    simp only [effective, Bool.false_eq_true, if_false] at h₁
    obtain ⟨⟨written', store'⟩, _, committed, same⟩ := edit_bind_eq_ok.1 h₁
    cases same
    exact ⟨store, store', rfl, committed⟩

/-- What is worked out is applied for good, if it is committed. -/
lemma apply_of_weave {σ : Type} [Disk σ] {disk disk' : σ} {patch : AppliedPatch} {written : List Path}
    {store store' : Store} (effective : c.dryRun = false)
    (woven : c.weave (Disk.files disk) marker r .empty = .ok patch store)
    (committed : store.commit disk = .ok (written, store') disk') :
    c.apply marker r disk = .ok (patch, written) disk' := by
  unfold Config.apply
  rw [edit_get_bind, woven]
  dsimp only
  rw [effective]
  exact bind_of_ok committed

/-- What cannot be worked out is not applied. -/
lemma apply_of_weave_error {σ : Type} [Disk σ] {disk : σ} {e : Fault}
    (h : c.weave (Disk.files disk) marker r .empty = .error e s) : c.apply marker r disk = .error e disk := by
  unfold Config.apply
  rw [edit_get_bind, h]
  rfl

/-- What is worked out is committed, unless nothing is to be written. -/
lemma apply_of_weave_ok {σ : Type} [Disk σ] {disk : σ} {patch : AppliedPatch}
    (h : c.weave (Disk.files disk) marker r .empty = .ok patch s) :
    c.apply marker r disk = if c.dryRun then .ok (patch, []) disk
      else (s.commit >>= fun result => return (patch, result.1)) disk := by
  unfold Config.apply
  rw [edit_get_bind, h]
  dsimp only
  split
  · rfl
  · rfl

/-- A patch that is applied is worked out, and nothing is written or it is committed. -/
lemma weave_of_apply {σ : Type} [Disk σ] {disk disk' : σ} {patch : AppliedPatch} {written : List Path}
    (h : c.apply marker r disk = .ok (patch, written) disk') :
    ∃ store, c.weave (Disk.files disk) marker r .empty = .ok patch store
      ∧ (written = [] ∨ ∃ store', store.commit disk = .ok (written, store') disk') := by
  cases woven : c.weave (Disk.files disk) marker r .empty with
  | error e s =>
    rw [apply_of_weave_error woven] at h
    cases h
  | ok made s =>
    rw [apply_of_weave_ok woven] at h
    split at h
    · cases h
      exact ⟨s, rfl, .inl rfl⟩
    · obtain ⟨⟨_, store'⟩, _, committed, same⟩ := edit_bind_eq_ok.1 h
      cases same
      exact ⟨s, rfl, .inr ⟨store', committed⟩⟩

/-- A patch that is applied for good replaces the file of the target's module by an image, from which the
patched module is read. It is given that nothing is where the image is staged or the file is kept
meanwhile. -/
lemma Config.replaces_of_apply {fs fs' : FileSystem} {patch : AppliedPatch} {written : List Path}
    (effective : c.dryRun = false) (requested : c.conventions.Requests r) (declared : marker.Declared)
    (unstaged : Disk.occupied fs (Store.staging (c.modulePath r.targetType.scope)) = false)
    (unkept : Disk.occupied fs (Store.backup (c.modulePath r.targetType.scope)) = false)
    (h : c.apply marker r fs = .ok (patch, written) fs') :
    ∃ before p method image, Module.ofFile (Disk.files fs) (c.modulePath r.targetType.scope) = .ok before
      ∧ c.Makes (Disk.files fs) marker r before p
      ∧ patch = ⟨r.hookName, r.targetName, r.kind, p.fields.map (·.name)⟩
      ∧ written = [c.modulePath r.targetType.scope]
      ∧ p.woven.ReadBack method
      ∧ fs.Replaces fs' (c.modulePath r.targetType.scope) image
      ∧ Module.ofBytes image
        = .ok (before.patched p.typeIndex p.fields p.methodIndex method (p.scopes marker r.hook)) := by
  obtain ⟨store, store', woven, committed⟩ := of_apply_eq_ok effective h
  obtain ⟨before, p, read, makes, rfl, holds⟩ := of_weave_eq_ok woven
  have loaded := loaded_of_ofFile read
  -- The module is the only one that was changed, so its file is the only one that is replaced.
  obtain ⟨bytes, file, _⟩ := Module.ofFile_eq_ok.1 read
  have one := holds.dirtyPaths_eq rfl fun q n opened => congrArg Module.dirty (loaded_of_ofFile opened).parts
  obtain ⟨rfl, image, encoded, replaces⟩ := FileSystem.of_commit_eq_ok one file unstaged unkept committed
  -- What is written to it can be read.
  have mem : p.type ∈ before.types := List.mem_of_getElem? makes.type
  have target := (loaded.admitted p.type mem).methods p.method (List.mem_of_getElem? makes.method)
  have admitted := Weaving.admitted_of_weave makes.woven target requested.declared.shallow
  have name : p.woven.name = p.method.name := by
    obtain ⟨_, same, _⟩ := Weaving.body_of_weave_eq_ok makes.woven
    rw [same]
  obtain ⟨method, back, after⟩ := loaded.ofBytes_patched makes.type makes.method name
    (makes.added.admitted declared.shallow) admitted (holds.toBytes_of_image encoded)
  exact ⟨before, p, method, image, read, makes, rfl, rfl, back, replaces, after⟩

/-- A patch that is applied for good writes the file of the target's module and no other. Loaded again, it
gives the module that it gave before, but for the fields that are added to the target's type, the target
with the hook woven into it, up to the identities of its instructions, and the references that were
missing. It is given that nothing is where the image is staged or the file is kept meanwhile. -/
theorem Config.apply_patches {fs fs' : FileSystem} {patch : AppliedPatch} {written : List Path}
    (effective : c.dryRun = false) (requested : c.conventions.Requests r) (declared : marker.Declared)
    (unstaged : Disk.occupied fs (Store.staging (c.modulePath r.targetType.scope)) = false)
    (unkept : Disk.occupied fs (Store.backup (c.modulePath r.targetType.scope)) = false)
    (h : c.apply marker r fs = .ok (patch, written) fs') :
    ∃ before p method, Module.ofFile (Disk.files fs) (c.modulePath r.targetType.scope) = .ok before
      ∧ c.Makes (Disk.files fs) marker r before p
      ∧ patch = ⟨r.hookName, r.targetName, r.kind, p.fields.map (·.name)⟩
      ∧ written = [c.modulePath r.targetType.scope]
      ∧ p.woven.Same method
      ∧ Module.ofFile (Disk.files fs') (c.modulePath r.targetType.scope)
        = .ok (before.patched p.typeIndex p.fields p.methodIndex method (p.scopes marker r.hook))
      ∧ ∀ q, fs.follow q ≠ fs.follow (c.modulePath r.targetType.scope) →
        Disk.files fs' q = Disk.files fs q := by
  obtain ⟨before, p, method, image, read, makes, made, files, back, replaces, after⟩ :=
    Config.replaces_of_apply effective requested declared unstaged unkept h
  exact ⟨before, p, method, read, makes, made, files, back.same,
    Module.ofFile_eq_ok.2 ⟨image, replaces.file, after⟩, replaces.others⟩

namespace Example

/-- A type by name. -/
def bell : TypeRef := ⟨"app", "", "Bell"⟩

/-- A method that does nothing. -/
def ring : MethodDeclaration :=
  ⟨"ring", 0x16, [], .void, [], some ⟨0, false, [], .ofCode [(.ret, .none)], []⟩⟩

/-- The module of that type and method. -/
def tower : Module :=
  .ofParts "app" [] [⟨"", "Bell", 1, none, [], [], [], [ring]⟩]

/-- A disk with the image of that module. -/
def towerDisk : FileSystem :=
  ⟨[(["app.dll"], .file (Image.magic ++ [1, 0, 3, 0x61, 0x70, 0x70, 0, 0, 0, 0, 0, 1, 1, 0, 0, 0, 0, 4,
    0x42, 0x65, 0x6C, 0x6C, 0, 0, 0, 0, 1, 0x16, 0, 4, 0x72, 0x69, 0x6E, 0x67, 3, 0, 0, 1, 0, 0, 1, 0, 0,
    0, 0, 1, 0x2A, 0]))]⟩

/-- A constructor without parameters. -/
def makes (name : String) : MethodRef :=
  ⟨⟨"mod", "", name⟩, ".ctor", ⟨true, .void, []⟩⟩

/-- A module with a marker, and with a hook ahead of that method that asks for a field of that type. -/
def muteModule : Module := .ofParts "mod" [] [
  ⟨"", "Mark", 1, none, [], [], [], [.ofConstructor []]⟩,
  ⟨"", "Mute", 1, none, [⟨"mod", "", "IHooks"⟩], [], [], [⟨"mute", 0x16, [], .void,
    [⟨makes "Patch", [.type bell, .string "ring", .array [.type bell]]⟩, ⟨makes "Before", []⟩], none⟩]⟩]

/-- The image of that module. -/
def muteImage : Bytes :=
  muteModule.toBytes.toOption.getD []

/-- Modules are at the top of the disk. -/
def muting : Config where
  root := ⟨""⟩
  framework := ⟨"mod.dll"⟩
  conventions := { provider := "IHooks", patchAttribute := "Patch", beforeAttribute := "Before" }

/-- The hook by name. -/
def mute : MethodRef :=
  ⟨⟨"mod", "", "Mute"⟩, "mute", ⟨false, .void, []⟩⟩

/-- What the hook asks for. -/
def muteRequest : PatchRequest :=
  ⟨bell, "ring", mute, [], true, .before, [bell]⟩

lemma mute_requested : muting.conventions.Requests muteRequest := by
  have found : (match Module.ofBytes muteImage with
    | .ok m => (muting.conventions.scan m).any fun hook =>
      match hook.request with
      | .ok r => decide (r = muteRequest)
      | .error _ => false
    | .error _ => false) = true := by decide +kernel
  cases read : Module.ofBytes muteImage with
  | error e =>
    rw [read] at found
    cases found
  | ok m =>
    rw [read] at found
    obtain ⟨hook, scanned, made⟩ := List.any_eq_true.1 found
    refine ⟨muteImage, m, hook, read, scanned, ?_⟩
    cases asked : hook.request with
    | error e =>
      rw [asked] at made
      cases made
    | ok r =>
      rw [asked] at made
      exact congrArg _ (of_decide_eq_true made)

lemma mark_declared : (makes "Mark").Declared := by
  have found : (match Module.ofBytes muteImage with
    | .ok m => m.types.any fun t =>
      t.methods.any fun method => decide (makes "Mark" = method.reference (t.reference m.name))
    | .error _ => false) = true := by decide +kernel
  cases read : Module.ofBytes muteImage with
  | error e =>
    rw [read] at found
    cases found
  | ok m =>
    rw [read] at found
    obtain ⟨t, ht, found⟩ := List.any_eq_true.1 found
    obtain ⟨method, hm, same⟩ := List.any_eq_true.1 found
    exact ⟨muteImage, m, t, method, read, ht, hm, of_decide_eq_true same⟩

/-- The instructions of the method with the hook ahead of it. -/
def mutedCode : InstructionList where
  items := [⟨⟨1⟩, .call, .method mute⟩, ⟨⟨0⟩, .ret, .none⟩]
  nextId := 2
  nodup := by decide
  below := by decide

/-- The method with the hook ahead of it. -/
def mutedRing : MethodDeclaration :=
  { ring with body := some ⟨0, false, [], mutedCode, []⟩ }

open StackDepth in
lemma maxStack_mutedCode : mutedCode.maxStack [] false = .ok 0 := by
  refine bind_eq_ok.2 ⟨[], rfl, bind_eq_ok.2 ⟨⟨#[some 0, some 0], 0⟩, ?_, rfl⟩⟩
  show explore false mutedCode.index mutedCode.items.toArray ⟨#[none, none], 0⟩ [⟨0, 0⟩] = _
  refine (explore_unknown (by decide) (by decide) rfl rfl rfl).trans ?_
  show explore false mutedCode.index mutedCode.items.toArray ⟨#[some 0, none], 0⟩ [⟨1, 0⟩] = _
  refine (explore_unknown (by decide) (by decide) rfl rfl rfl).trans ?_
  exact explore_nil

/-- The hook and the method. -/
def ringMuting : Weaving :=
  ⟨muting.conventions, bell, ring, muteRequest⟩

lemma weave_ringMuting : ringMuting.weave muting.verify = .ok mutedRing := by
  have checked : ringMuting.check = .ok () := by decide +kernel
  have code : ringMuting.prologue none ⟨0⟩ = .ok [(.call, .method mute)] := by decide +kernel
  refine bind_eq_ok.2 ⟨(), checked, bind_eq_ok.2 ⟨⟨0, false, [], mutedCode, []⟩, ?_, rfl⟩⟩
  refine bind_eq_ok.2 ⟨⟨0, false, [], .ofCode [(.ret, .none)], []⟩, rfl, ?_⟩
  refine bind_eq_ok.2 ⟨(none, _), rfl, bind_eq_ok.2 ⟨_, code, ?_⟩⟩
  refine bind_eq_ok.2 ⟨⟨0, false, [], mutedCode, []⟩, by decide +kernel, ?_⟩
  show Except.mapError _ (mutedCode.maxStack [] false >>= _) = _
  rw [maxStack_mutedCode]
  rfl

/-- A store with one module. -/
def towerStore (m : Module) : Store :=
  ⟨[(⟨"app.dll"⟩, m)], List.nodup_singleton _⟩

/-- The type with a field of itself. -/
def bellField : FieldDeclaration :=
  ⟨"_bell", .refType bell, FieldDeclaration.privateFlags, [⟨makes "Mark", []⟩]⟩

/-- The module with the field, and then with the hook. -/
def hungTower : Module :=
  { tower with
    references := ["mod"]
    types := [⟨"", "Bell", 1, none, [], [], [bellField], [ring]⟩]
    dirty := true }

def mutedTower : Module :=
  { hungTower with types := [⟨"", "Bell", 1, none, [], [], [bellField], [mutedRing]⟩] }

set_option maxRecDepth 100000 in
lemma resolve_bell : muting.resolveType (Disk.files towerDisk) bell .empty
    = .ok ⟨⟨"app.dll"⟩, 0, bell⟩ (towerStore tower) :=
  rfl

lemma read_tower : Module.ofFile (Disk.files towerDisk) ⟨"app.dll"⟩ = .ok tower := by
  obtain ⟨m, opened, _⟩ := of_resolveType_eq_ok resolve_bell
  obtain ⟨read, holds⟩ := Store.of_openModule_empty opened
  have there : (towerStore tower).module ⟨"app.dll"⟩ = .ok tower :=
    Store.module_eq_ok.2 ⟨_, rfl, List.mem_singleton_self _⟩
  cases holds.module_self.symm.trans there
  exact read

set_option maxRecDepth 100000 in
lemma weave_tower : muting.weave (Disk.files towerDisk) (makes "Mark") muteRequest .empty
    = .ok ⟨"Mute::mute", "Bell::ring", .before, ["_bell"]⟩ (towerStore mutedTower) := by
  refine (bind_of_ok resolve_bell).trans ?_
  have found : Store.query
      (ResolvedType.resolveMethod ⟨⟨"app.dll"⟩, 0, bell⟩ · muteRequest.targetMethod) (towerStore tower)
      = .ok ⟨⟨⟨"app.dll"⟩, 0, bell⟩, 0, ⟨bell, "ring", ⟨false, .void, []⟩⟩⟩ (towerStore tower) := rfl
  refine (bind_of_ok found).trans ?_
  have added : muteRequest.injected.mapM
      (muting.injectField (Disk.files towerDisk) (makes "Mark") ⟨⟨"app.dll"⟩, 0, bell⟩) (towerStore tower)
      = .ok [some "_bell"] (towerStore hungTower) := rfl
  refine (bind_of_ok added).trans ?_
  refine (bind_of_ok (a := ()) (Store.change_eq_ok.2 ⟨hungTower, mutedTower, rfl, ?_, rfl⟩)).trans rfl
  exact bind_eq_ok.2 ⟨ring, rfl, bind_eq_ok.2 ⟨mutedRing, weave_ringMuting, rfl⟩⟩

lemma apply_muteRequest : ∃ fs written, muting.apply (makes "Mark") muteRequest towerDisk
    = .ok (⟨"Mute::mute", "Bell::ring", .before, ["_bell"]⟩, written) fs := by
  have goes : (match (towerStore mutedTower).commit towerDisk with
    | .ok _ _ => true
    | .error _ _ => false) = true := by decide +kernel
  cases committed : (towerStore mutedTower).commit towerDisk with
  | error e fs =>
    rw [committed] at goes
    cases goes
  | ok result fs => exact ⟨fs, result.1, apply_of_weave rfl weave_tower committed⟩

/-- The patch is applied: the file of the module is written, and the type in it has one more field. -/
theorem bell_muted :
    muting.dryRun = false ∧ muting.conventions.Requests muteRequest ∧ (makes "Mark").Declared
      ∧ Disk.occupied towerDisk (Store.staging (muting.modulePath "app")) = false
      ∧ Disk.occupied towerDisk (Store.backup (muting.modulePath "app")) = false
      ∧ ∃ fs before p method, muting.apply (makes "Mark") muteRequest towerDisk
          = .ok (⟨"Mute::mute", "Bell::ring", .before, ["_bell"]⟩, [muting.modulePath "app"]) fs
        ∧ Module.ofFile (Disk.files towerDisk) (muting.modulePath "app") = .ok before
        ∧ muting.Makes (Disk.files towerDisk) (makes "Mark") muteRequest before p
        ∧ p.fields.map (·.name) = ["_bell"] ∧ p.woven.Same method
        ∧ Module.ofFile (Disk.files fs) (muting.modulePath "app") = .ok (before.patched p.typeIndex p.fields
          p.methodIndex method (p.scopes (makes "Mark") mute)) := by
  have unstaged : Disk.occupied towerDisk (Store.staging (muting.modulePath "app")) = false := by
    decide +kernel
  have unkept : Disk.occupied towerDisk (Store.backup (muting.modulePath "app")) = false := by
    decide +kernel
  obtain ⟨fs, written, applied⟩ := apply_muteRequest
  obtain ⟨before, p, method, read, made, same, rfl, woven, after, _⟩ :=
    Config.apply_patches rfl mute_requested mark_declared unstaged unkept applied
  exact ⟨rfl, mute_requested, mark_declared, unstaged, unkept, fs, before, p, method, applied, read,
    made, (congrArg AppliedPatch.fields same).symm, woven, after⟩

end Example

end HookWeave
