import HookWeave.Proofs.Patch.Injections
import HookWeave.Proofs.Weaving.Mentions

/-!
# References that are complete

A checked patch that is applied leaves a closed module closed, but for what nobody looks at
(`Config.apply_keeps_closed`): the type of the result of a hook ahead of its target, and the signature of
the constructor of the marker where fields are added. All else that the patch brings with it is mentioned in
the target already, or its scope is added to the references. Where one of the two mentions a type of a module
that is not referred to, the list of references has a gap (`Example.bell_asked_open`).
-/

namespace HookWeave

open HookWeave.Module

variable {c : Config} {files : Files} {marker : MethodRef} {r : PatchRequest} {before m m' : Module}
  {t : TypeDeclaration} {k n : Nat}

/-! ## Parts of modules -/

/-- What holds of all elements but of a changed one holds of all if it holds of that one. -/
lemma forall_mem_modify {α : Type} {P : α → Prop} {f : α → α} {as : List α} {a : α} (at' : as[k]? = some a)
    (others : ∀ b ∈ as, P b) : (∀ b ∈ as.modify k f, P b) ↔ P (f a) := by
  constructor
  · intro all
    refine all _ (List.mem_of_getElem? (i := k) ?_)
    rw [List.getElem?_modify_eq, at']
    rfl
  · intro changed b hb
    obtain ⟨i, found⟩ := List.mem_iff_getElem?.1 hb
    rw [List.getElem?_modify, Option.map_eq_map, Option.map_eq_some_iff] at found
    obtain ⟨b', there, rfl⟩ := found
    split
    · next here =>
      subst here
      cases at'.symm.trans there
      exact changed
    · exact others b' (List.mem_of_getElem? there)

lemma Module.closed_iff_types : m.Closed ↔ ∀ t ∈ m.types, m.KnowsAll t.mentions :=
  KnowsAll.flatMap

lemma knowsAll_field {f : FieldDeclaration} :
    m.KnowsAll f.mentions ↔ m.KnowsAll f.type.mentions ∧ ∀ a ∈ f.attributes, m.KnowsAll a.mentions :=
  KnowsAll.append.trans (and_congr_right' KnowsAll.flatMap)

lemma knowsAll_type : m.KnowsAll t.mentions ↔ m.KnowsAll (t.base.toList.map .typeRef)
    ∧ m.KnowsAll (t.interfaces.map .typeRef) ∧ (∀ a ∈ t.attributes, m.KnowsAll a.mentions)
    ∧ (∀ f ∈ t.fields, m.KnowsAll f.mentions) ∧ ∀ method ∈ t.methods, m.KnowsAll method.mentions := by
  refine KnowsAll.append.trans (and_congr_right' (KnowsAll.append.trans (and_congr_right' ?_)))
  refine KnowsAll.append.trans (and_congr KnowsAll.flatMap ?_)
  exact KnowsAll.append.trans (and_congr KnowsAll.flatMap KnowsAll.flatMap)

/-- A type of which all is known is known with fields and a method in the place of another one, if these
are. -/
lemma knowsAll_patched {fields : List FieldDeclaration} {old method : MethodDeclaration}
    (known : m.KnowsAll t.mentions) (there : t.methods[n]? = some old) :
    m.KnowsAll { t.withFields fields with methods := t.methods.set n method }.mentions
      ↔ (∀ f ∈ fields, m.KnowsAll f.mentions) ∧ m.KnowsAll method.mentions := by
  obtain ⟨base, interfaces, attributes, own, methods⟩ := knowsAll_type.1 known
  have replaced : (∀ x ∈ t.methods.set n method, m.KnowsAll x.mentions) ↔ m.KnowsAll method.mentions := by
    rw [List.set_eq_modify]
    exact forall_mem_modify there methods
  have extended : (∀ f ∈ t.fields ++ fields, m.KnowsAll f.mentions) ↔ ∀ f ∈ fields, m.KnowsAll f.mentions :=
    List.forall_mem_append.trans (and_iff_right own)
  refine knowsAll_type.trans ((and_iff_right base).trans ((and_iff_right interfaces).trans ?_))
  exact (and_iff_right attributes).trans (and_congr extended replaced)

/-! ## References -/

lemma mem_addReferences {name scope : String} {references scopes : List String} (h : scope ∈ scopes) :
    scope = name ∨ scope ∈ addReferences name references scopes := by
  induction scopes generalizing references with
  | nil => cases h
  | cons first scopes ih =>
    obtain rfl | h := List.mem_cons.1 h
    · by_cases own : scope = name
      · exact .inl own
      · refine .inr ((prefix_addReferences _ _ scopes).subset ?_)
        split
        · next there => exact there.resolve_left own
        · exact List.mem_append_right _ (List.mem_singleton_self _)
    · exact ih h

/-- What is known stays so when no reference is taken away. -/
lemma Module.KnowsAll.mono {xs : List Mention} (name : m'.name = m.name)
    (references : m.references ⊆ m'.references) (h : m.KnowsAll xs) : m'.KnowsAll xs := by
  intro x hx
  have known := h x hx
  cases x with
  | typeRef t =>
    obtain own | listed := knows_iff.1 known
    · exact knows_iff.2 (.inl (own.trans name.symm))
    · exact knows_iff.2 (.inr (references listed))
  | reference | signature => trivial

namespace Patch

variable {p : Patch} {hook : MethodRef} {mentions : List Mention} {scope : String}

/-- The module that a patch makes of another one. -/
def result (p : Patch) (marker hook : MethodRef) (m : Module) : Module :=
  { m.patched p.typeIndex p.fields p.methodIndex p.woven (p.scopes marker hook) with dirty := true }

/-- What was known is known to the patched module. -/
lemma knowsAll_result (h : m.KnowsAll mentions) : (p.result marker hook m).KnowsAll mentions :=
  KnowsAll.mono (m := m) rfl (prefix_addReferences _ _ _).subset h

/-- The scopes that a patch needs are known to the patched module. -/
lemma knows_result (h : scope ∈ p.scopes marker hook) : (p.result marker hook m).knows scope = true :=
  knows_iff.2 (mem_addReferences h)

end Patch

/-! ## Added fields -/

/-- Each field that is added is the one for a type of its scope. -/
lemma Config.Adds.eq_injectedField {taken : List String} {ts : List TypeRef}
    {added : List (FieldDeclaration × String)} (h : c.Adds files marker taken ts added) :
    ∀ a ∈ added, ∃ t d, a.1 = Config.injectedField marker t a.2 d := by
  induction h with
  | none => exact List.forall_mem_nil _
  | skip _ _ ih => exact ih
  | add _ _ _ ih => exact List.forall_mem_cons.2 ⟨⟨_, _, rfl⟩, ih⟩

/-- The field for a type mentions that type and what the marker does. -/
lemma knowsAll_injectedField {type : TypeRef} {scope : String} {d : TypeDeclaration}
    (known : m.knows scope = true) : m.KnowsAll (Config.injectedField marker type scope d).mentions
      ↔ m.KnowsAll (Reference.method marker).mentions := by
  have own : m.KnowsAll (d.sig scope).mentions := by
    unfold TypeDeclaration.sig
    split
    · exact List.forall_mem_singleton.2 known
    · exact List.forall_mem_singleton.2 known
  refine knowsAll_field.trans ((and_iff_right own).trans (List.forall_mem_singleton.trans ?_))
  exact KnowsAll.append.trans (and_iff_left KnowsAll.nil)

/-- Added fields are known if the marker's constructor is, where there are any. -/
lemma knowsAll_added {added : List (FieldDeclaration × String)} {taken : List String} {ts : List TypeRef}
    (adds : c.Adds files marker taken ts added)
    (known : ∀ a ∈ added, m.knows marker.owner.scope = true ∧ m.knows a.2 = true) :
    (∀ f ∈ added.map (·.1), m.KnowsAll f.mentions) ↔ (added ≠ [] → m.KnowsAll marker.sig.mentions) := by
  have marked : ∀ a ∈ added, (m.KnowsAll a.1.mentions ↔ m.KnowsAll marker.sig.mentions) := by
    intro a ha
    obtain ⟨t, d, same⟩ := adds.eq_injectedField a ha
    obtain ⟨owner, scope⟩ := known a ha
    rw [same]
    exact (knowsAll_injectedField scope).trans (KnowsAll.method.trans (and_iff_right owner))
  rw [List.forall_mem_map]
  constructor
  · intro all some
    obtain ⟨a, ha⟩ := List.exists_mem_of_ne_nil _ some
    exact (marked a ha).1 (all a ha)
  · intro signature a ha
    exact (marked a ha).2 (signature (List.ne_nil_of_mem ha))

/-! ## Patched modules -/

/-- A patched module is closed if it knows what the signatures of the hook and of the marker's constructor
mention. -/
lemma Config.Makes.closed_iff {p : Patch} (makes : c.Makes files marker r before p) (closed : before.Closed) :
    (p.result marker r.hook before).Closed ↔ (p.result marker r.hook before).KnowsAll r.hook.sig.mentions
      ∧ (p.fields ≠ [] → (p.result marker r.hook before).KnowsAll marker.sig.mentions) := by
  have types : ∀ t ∈ before.types, (p.result marker r.hook before).KnowsAll t.mentions := fun t ht =>
    Patch.knowsAll_result (closed_iff_types.1 closed t ht)
  have target := types p.type (List.mem_of_getElem? makes.type)
  obtain ⟨_, _, _, _, methods⟩ := knowsAll_type.1 target
  have method := methods p.method (List.mem_of_getElem? makes.method)
  have fields := knowsAll_added makes.added fun a ha => by
    have listed : ∀ scope ∈ [marker.owner.scope, a.2], (p.result marker r.hook before).knows scope = true :=
      fun scope h => Patch.knows_result (List.mem_append_left _ (List.mem_flatMap.2 ⟨a, ha, h⟩))
    exact ⟨listed _ List.mem_cons_self, listed _ (List.mem_cons_of_mem _ List.mem_cons_self)⟩
  have owner : (p.result marker r.hook before).knows r.hook.owner.scope = true :=
    Patch.knows_result (List.mem_append_right _ List.mem_cons_self)
  have woven := (Weaving.knowsAll_of_weave makes.woven method).trans
    (KnowsAll.method.trans (and_iff_right owner))
  refine closed_iff_types.trans ((forall_mem_modify makes.type types).trans ?_)
  refine (knowsAll_patched target makes.method).trans (Iff.trans (and_congr fields woven) ?_)
  rw [and_comm, Patch.fields, Ne, Ne, List.map_eq_nil_iff]

/-- A checked patch that is applied leaves a closed module closed if the type of the result of a hook ahead
of its target is known, and what the signature of the marker's constructor mentions where fields are added.
Parameters count only if their types are not those of the hook's signature. -/
theorem Config.apply_keeps_closed {σ : Type} [Disk σ] {disk disk' : σ} {patch : AppliedPatch}
    {written : List Path} (verified : c.verify = true)
    (applied : c.apply marker r disk = .ok (patch, written) disk')
    (read : Module.ofFile (Disk.files disk) (c.modulePath r.targetType.scope) = .ok before)
    (closed : before.Closed) :
    ∃ store after, c.weave (Disk.files disk) marker r .empty = .ok patch store
      ∧ store.module (c.modulePath r.targetType.scope) = .ok after
      ∧ (after.Closed ↔ (r.kind = .before → after.KnowsAll r.hook.sig.ret.mentions)
        ∧ (r.hook.sig.params ≠ r.hookParams.map (·.type) →
          ∀ type ∈ r.hook.sig.params, after.KnowsAll type.mentions)
        ∧ (patch.fields ≠ [] → after.KnowsAll marker.sig.mentions)) := by
  obtain ⟨store, woven, _⟩ := weave_of_apply applied
  obtain ⟨before', p, read', makes, made, holds⟩ := of_weave_eq_ok woven
  cases read.symm.trans read'
  refine ⟨store, p.result marker r.hook before, woven, holds.module_self, (makes.closed_iff closed).trans ?_⟩
  -- What the target mentions is known, and so is its own type.
  have target := closed_iff_types.1 closed p.type (List.mem_of_getElem? makes.type)
  obtain ⟨_, _, _, _, methods⟩ := knowsAll_type.1 target
  have method := methods p.method (List.mem_of_getElem? makes.method)
  have sig := (KnowsAll.declaration.1 method).1
  have checked : (⟨c.conventions, p.type.reference before.name, p.method, r⟩ : Weaving).check = .ok () := by
    have weaves := makes.woven
    rw [verified] at weaves
    exact (Weaving.of_weave_eq_ok weaves).1
  have owner : (p.result marker r.hook before).knows before.name = true := knows_iff.2 (.inl rfl)
  have hook := Weaving.knowsAll_of_check checked owner (Patch.knowsAll_result sig)
  refine (and_congr_left' hook).trans (and_assoc.trans ?_)
  rw [made, Ne, Ne, Ne, List.map_eq_nil_iff]

namespace Example

lemma closed_tower : tower.Closed := by
  have mentions : tower.mentions = [.signature ring.sig] := rfl
  unfold Module.Closed
  rw [mentions]
  exact List.forall_mem_singleton.2 trivial

/-- The muted tower is closed, for neither the hook nor the marker's constructor mentions a type. -/
theorem bell_muted_closed :
    muting.verify = true
      ∧ Module.ofFile (Disk.files towerDisk) (muting.modulePath "app") = .ok tower ∧ tower.Closed
      ∧ ∃ patch written fs, muting.apply (makes "Mark") muteRequest towerDisk = .ok (patch, written) fs
        ∧ ∃ store after,
          muting.weave (Disk.files towerDisk) (makes "Mark") muteRequest .empty = .ok patch store
          ∧ store.module (muting.modulePath "app") = .ok after ∧ after.Closed := by
  obtain ⟨fs, written, applied⟩ := apply_muteRequest
  obtain ⟨store, after, woven, there, closed⟩ :=
    Config.apply_keeps_closed rfl applied read_tower closed_tower
  refine ⟨rfl, read_tower, closed_tower, _, written, fs, applied, store, after, woven, there, closed.2 ?_⟩
  have signature (name : String) : after.KnowsAll (makes name).sig.mentions :=
    List.forall_mem_singleton.2 trivial
  exact ⟨fun _ => KnowsAll.nil, fun differs => absurd rfl differs, fun _ => signature "Mark"⟩

/-- A hook with a result of a type from a third module. -/
def ask : MethodRef :=
  ⟨⟨"mod", "", "Mute"⟩, "ask", ⟨false, .refType ⟨"hall", "", "Visitor"⟩, []⟩⟩

/-- The request for that hook. -/
def askRequest : PatchRequest :=
  ⟨bell, "ring", ask, [], true, .before, []⟩

/-- The instructions of the method with the hook ahead of it, whose result is dropped. -/
def askedCode : InstructionList where
  items := [⟨⟨1⟩, .call, .method ask⟩, ⟨⟨2⟩, .pop, .none⟩, ⟨⟨0⟩, .ret, .none⟩]
  nextId := 3
  nodup := by decide
  below := by decide

/-- The method with the hook ahead of it. -/
def askedRing : MethodDeclaration :=
  { ring with body := some ⟨1, false, [], askedCode, []⟩ }

/-- The module with the hook. -/
def askedTower : Module :=
  { tower with
    references := ["mod"]
    types := [⟨"", "Bell", 1, none, [], [], [], [askedRing]⟩]
    dirty := true }

open StackDepth in
lemma maxStack_askedCode : askedCode.maxStack [] false = .ok 1 := by
  refine bind_eq_ok.2 ⟨[], rfl, bind_eq_ok.2 ⟨⟨#[some 0, some 1, some 0], 1⟩, ?_, rfl⟩⟩
  show explore false askedCode.index askedCode.items.toArray ⟨#[none, none, none], 0⟩ [⟨0, 0⟩] = _
  refine (explore_unknown (by decide) (by decide) rfl rfl rfl).trans ?_
  show explore false askedCode.index askedCode.items.toArray ⟨#[some 0, none, none], 1⟩ [⟨1, 1⟩] = _
  refine (explore_unknown (by decide) (by decide) rfl rfl rfl).trans ?_
  show explore false askedCode.index askedCode.items.toArray ⟨#[some 0, some 1, none], 1⟩ [⟨2, 0⟩] = _
  refine (explore_unknown (by decide) (by decide) rfl rfl rfl).trans ?_
  exact explore_nil

/-- The hook and the method. -/
def ringAsking : Weaving :=
  ⟨muting.conventions, bell, ring, askRequest⟩

lemma weave_ringAsking : ringAsking.weave muting.verify = .ok askedRing := by
  have checked : ringAsking.check = .ok () := by decide +kernel
  have code : ringAsking.prologue none ⟨0⟩ = .ok [(.call, .method ask), (.pop, .none)] := by decide +kernel
  refine bind_eq_ok.2 ⟨(), checked, bind_eq_ok.2 ⟨⟨1, false, [], askedCode, []⟩, ?_, rfl⟩⟩
  refine bind_eq_ok.2 ⟨⟨0, false, [], .ofCode [(.ret, .none)], []⟩, rfl, ?_⟩
  have plain : ringAsking.withResult ⟨0, false, [], .ofCode [(.ret, .none)], []⟩
      = .ok (none, ⟨0, false, [], .ofCode [(.ret, .none)], []⟩) := by decide +kernel
  refine bind_eq_ok.2 ⟨_, plain, bind_eq_ok.2 ⟨_, code, ?_⟩⟩
  refine bind_eq_ok.2 ⟨⟨0, false, [], askedCode, []⟩, by decide +kernel, ?_⟩
  show Except.mapError _ (askedCode.maxStack [] false >>= _) = _
  rw [maxStack_askedCode]
  rfl

lemma weave_askedTower : muting.weave (Disk.files towerDisk) (makes "Mark") askRequest .empty
    = .ok ⟨askRequest.hookName, askRequest.targetName, .before, []⟩ (towerStore askedTower) := by
  refine (bind_of_ok resolve_bell).trans ?_
  have found : Store.query
      (ResolvedType.resolveMethod ⟨⟨"app.dll"⟩, 0, bell⟩ · askRequest.targetMethod) (towerStore tower)
      = .ok ⟨⟨⟨"app.dll"⟩, 0, bell⟩, 0, ⟨bell, "ring", ⟨false, .void, []⟩⟩⟩ (towerStore tower) := rfl
  refine (bind_of_ok found).trans ((bind_of_ok (a := []) rfl).trans ?_)
  refine (bind_of_ok (a := ()) (Store.change_eq_ok.2 ⟨tower, askedTower, rfl, ?_, rfl⟩)).trans rfl
  exact bind_eq_ok.2 ⟨ring, rfl, bind_eq_ok.2 ⟨askedRing, weave_ringAsking, rfl⟩⟩

/-- A hook with a result of a type from a module that is not referred to leaves a gap. -/
theorem bell_asked_open :
    muting.verify = true
      ∧ Module.ofFile (Disk.files towerDisk) (muting.modulePath "app") = .ok tower ∧ tower.Closed
      ∧ ∃ patch written fs, muting.apply (makes "Mark") askRequest towerDisk = .ok (patch, written) fs
        ∧ ∃ store after,
          muting.weave (Disk.files towerDisk) (makes "Mark") askRequest .empty = .ok patch store
          ∧ store.module (muting.modulePath "app") = .ok after ∧ ¬ after.Closed := by
  obtain ⟨⟨written, _⟩, committed⟩ := exists_ok (r := (towerStore askedTower).commit towerDisk)
    (by decide +kernel)
  have applied := apply_of_weave rfl weave_askedTower committed
  refine ⟨rfl, read_tower, closed_tower, _, written, _, applied, _, askedTower, weave_askedTower, ?_, ?_⟩
  · exact Store.module_eq_ok.2 ⟨_, rfl, List.mem_singleton_self _⟩
  · intro closed
    have visitor : Mention.typeRef ⟨"hall", "", "Visitor"⟩ ∈ askedTower.mentions := by decide +kernel
    have known : askedTower.knows "hall" = true := closed _ visitor
    exact absurd known (by decide +kernel)

end Example
end HookWeave
