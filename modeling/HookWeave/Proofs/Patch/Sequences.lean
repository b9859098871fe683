import HookWeave.Proofs.Patch.Effect
import HookWeave.Proofs.Weaving.Sound
import Mathlib.Logic.Relation

/-!
# Patches one after another

Modules that were loaded stay sound however often fields are added to their types and hooks woven into
their methods (`Store.Step`, `Store.Step.sound`). So the module that comes of it is written, with all
branches in the forms that they have, and read again, unless it has become too large
(`Store.accepted_of_steps`).
-/

namespace HookWeave

/-- All modules of the store are sound but for their size. -/
def Store.Sound (s : Store) : Prop :=
  ∀ e ∈ s.modules, e.2.Sound

/-- What is done to the modules of a store: another one is opened, a field is added to a type, a hook is
woven into a method, checked or not, or a module is made to refer to the scope of a hook. Markers and hooks
are methods of modules that were loaded. -/
inductive Store.Step : Store → Store → Prop
  | opens {files : Files} {path : Path} {m : Module} {s s' : Store} :
    openModule files path s = .ok m s' → Step s s'
  | injects {c : Config} {files : Files} {marker : MethodRef} {target : ResolvedType} {t : TypeRef}
      {name : Option String} {s s' : Store} :
    marker.Declared → c.injectField files marker target t s = .ok name s' → Step s s'
  | weaves {w : Weaving} {verify : Bool} {woven : MethodDeclaration} {path : Path} {i j : Nat}
      {m m' : Module} {s : Store} :
    w.request.hook.Declared → s.module path = .ok m → m.methodAt i j = .ok w.target →
    w.weave verify = .ok woven → m.modifyMethod i j (fun _ => woven) = .ok m' →
    Step s (s.replace path m')
  | refers {hook : MethodRef} {path : Path} {m : Module} {s : Store} :
    hook.Declared → s.module path = .ok m → Step s (s.replace path (m.importScope hook.owner.scope))

variable {α : Type} {P : α → Prop} {as : List α} {f : α → α} {i j k : Nat} {m m' : Module}
  {s s' : Store} {path : Path} {files : Files} {scope : String}

/-! ## Modules -/

/-- A list in which an element is replaced can be counted as before. -/
lemma Countable.modify (h : Countable P as) (keeps : ∀ a, as[k]? = some a → P a → P (f a)) :
    Countable P (as.modify k f) := by
  refine ⟨(List.length_modify f as k).trans_le h.1, fun a' ha' => ?_⟩
  obtain ⟨n, at'⟩ := List.mem_iff_getElem?.1 ha'
  rw [List.getElem?_modify, Option.map_eq_map, Option.map_eq_some_iff] at at'
  obtain ⟨a, there, rfl⟩ := at'
  have before := h.2 a (List.mem_of_getElem? there)
  split
  · next here =>
    subst here
    exact keeps a there before
  · exact before

/-- The scope of a method that can be written is short enough. -/
lemma Reference.Loaded.short_scope {ref : MethodRef} (h : (Reference.method ref).Loaded) :
    Text.Short ref.owner.scope :=
  (List.forall_mem_cons.1 (List.forall_mem_cons.1 h.mentions).2).1.1

namespace Module.Sound

lemma importScope (h : m.Sound) (short : Text.Short scope) : (m.importScope scope).Sound := by
  unfold Module.importScope
  split
  · exact h
  · exact ⟨h.name, List.forall_mem_append.2 ⟨h.references, List.forall_mem_singleton.2 short⟩, h.types⟩

lemma addField {field : FieldDeclaration} (h : m.Sound) (sound : field.Sound)
    (ok : m.addField i field = .ok (k, m')) : m'.Sound := by
  obtain ⟨_, _, ok⟩ := bind_eq_ok.1 ok
  by_cases taken : m.containsField i field.name = true
  · rw [if_pos taken] at ok
    cases ok
  · rw [if_neg taken] at ok
    cases ok
    refine ⟨h.name, h.references, h.types.modify fun t _ typed => ?_⟩
    exact ⟨typed.space, typed.name, typed.base, typed.interfaces, typed.attributes,
      List.forall_mem_append.2 ⟨typed.fields, List.forall_mem_singleton.2 sound⟩, typed.methods⟩

/-- A module to which a marked field is added stays sound. -/
lemma inject {name : String} {type : TypeSig} {marker : MethodRef} (h : m.Sound)
    (typed : type.Loaded) (marked : (Reference.method marker).Loaded) (short : Text.Short scope)
    (ok : m.inject i name type scope marker = .ok m') : m'.Sound := by
  obtain ⟨⟨_, added⟩, adds, same⟩ := bind_eq_ok.1 ok
  cases same
  have mark : Attribute.Loaded ⟨marker, []⟩ :=
    ⟨⟨marked.shallow, Nat.zero_le _⟩, ⟨Nat.zero_le _, trivial⟩,
      List.forall_mem_append.2 ⟨marked.mentions, List.forall_mem_nil _⟩⟩
  have field : FieldDeclaration.Sound
      ⟨name, type, FieldDeclaration.privateFlags, [⟨marker, []⟩]⟩ :=
    ⟨typed, Nat.succ_le_of_lt (by decide), List.forall_mem_singleton.2 mark⟩
  exact ((h.addField field adds).importScope marked.short_scope).importScope short

lemma methodAt {method : MethodDeclaration} (h : m.Sound) (found : m.methodAt i j = .ok method) :
    method.Sound := by
  obtain ⟨t, typed, _⟩ := bind_eq_ok.1 found
  have at' := Module.typeAt_eq_ok.1 typed
  have listed := (Module.methodAt_eq_ok at').1 found
  exact (h.types.2 t (List.mem_of_getElem? at')).methods.2 method (List.mem_of_getElem? listed)

/-- A module in which a sound method takes the place of another stays sound. -/
lemma modifyMethod {method : MethodDeclaration} (h : m.Sound) (sound : method.Sound)
    (ok : m.modifyMethod i j (fun _ => method) = .ok m') : m'.Sound := by
  obtain ⟨_, _, same⟩ := bind_eq_ok.1 ok
  cases same
  refine ⟨h.name, h.references, h.types.modify fun t _ typed => ?_⟩
  exact ⟨typed.space, typed.name, typed.base, typed.interfaces, typed.attributes, typed.fields,
    typed.methods.modify fun _ _ _ => sound⟩

end Module.Sound

/-- The type of values of a sound type can be read and written. -/
lemma TypeDeclaration.Sound.sig {t : TypeDeclaration} (h : t.Sound) (short : Text.Short scope) :
    (t.sig scope).Loaded := by
  unfold TypeDeclaration.sig
  split
  · exact ⟨Nat.succ_pos _, List.forall_mem_singleton.2 ⟨short, h.space, h.name⟩⟩
  · exact ⟨Nat.succ_pos _, List.forall_mem_singleton.2 ⟨short, h.space, h.name⟩⟩

/-- A reference to a method of a module that was loaded can be read and written. -/
lemma MethodRef.Declared.loaded {ref : MethodRef} (h : ref.Declared) : (Reference.method ref).Loaded := by
  obtain ⟨image, m, t, method, read, ht, hm, rfl⟩ := h
  have sound := (Module.loaded_of_ofBytes read).sound
  have type := sound.types.2 t ht
  have method := type.methods.2 method hm
  exact ⟨method.sig.shallow, List.forall_mem_cons.2 ⟨method.name, List.forall_mem_cons.2
    ⟨⟨sound.name, type.space, type.name⟩, method.sig.mentions⟩⟩⟩

/-! ## Stores -/

namespace Store

lemma Sound.module (h : s.Sound) (found : s.module path = .ok m) : m.Sound := by
  obtain ⟨p, _, listed⟩ := module_eq_ok.1 found
  exact h _ listed

lemma Sound.replace (h : s.Sound) (sound : m.Sound) : (s.replace path m).Sound := by
  refine List.forall_mem_map.2 fun e he => ?_
  split
  · exact sound
  · exact h e he

lemma Sound.openModule (h : s.Sound) (ok : openModule files path s = .ok m s') :
    s'.Sound ∧ m.Sound := by
  obtain ⟨rfl, found⟩ | ⟨closed, read, rfl⟩ := of_openModule_eq_ok ok
  · exact ⟨h, h.module found⟩
  · have sound := (loaded_of_ofFile read).sound
    exact ⟨List.forall_mem_append.2 ⟨h, List.forall_mem_singleton.2 sound⟩, sound⟩

lemma Sound.injectField {c : Config} {marker : MethodRef} {target : ResolvedType} {t : TypeRef}
    {name : Option String} (h : s.Sound) (declared : marker.Declared)
    (ok : c.injectField files marker target t s = .ok name s') : s'.Sound := by
  obtain ⟨_, _, ⟨_, _, rfl⟩ | ⟨_, _, found, s₁, n, d, m₁, m', resolved, opened, typed, opened₁, injected,
    rfl⟩⟩ := of_injectField_eq_ok ok
  · exact h
  · obtain ⟨m, openedNow, _, _, named⟩ := of_resolveType_eq_ok resolved
    obtain ⟨sound, resolvedIn⟩ := h.openModule openedNow
    have short : Text.Short found.type.scope := by
      rw [Module.scope_of_typeRef named]
      exact resolvedIn.name
    have declaring := (sound.module opened).types.2 d (List.mem_of_getElem? (Module.typeAt_eq_ok.1 typed))
    exact sound.replace ((sound.module opened₁).inject (declaring.sig short) declared.loaded short injected)

/-- Whatever is done to sound modules leaves them sound. -/
theorem Step.sound (step : Step s s') (h : s.Sound) : s'.Sound := by
  cases step with
  | opens ok => exact (h.openModule ok).1
  | injects declared ok => exact h.injectField declared ok
  | weaves declared opened target woven replaced =>
    have sound := h.module opened
    have method := Weaving.sound_of_weave woven (sound.methodAt target) declared.loaded
    exact h.replace (sound.modifyMethod method replaced)
  | refers declared opened =>
    exact h.replace ((h.module opened).importScope declared.loaded.short_scope)

/-- Sound modules are sound after any number of steps. -/
lemma Sound.of_steps (steps : Relation.ReflTransGen Step s s') (h : s.Sound) : s'.Sound := by
  induction steps with
  | refl => exact h
  | tail _ step ih => exact step.sound ih

/-- Patching makes no module unwritable or unreadable. Whatever fields are added to the modules of a store
that were loaded, and whatever hooks are woven into their methods, in any order: a module that comes of it
and is not too large is written, no branch of it takes its long form for that, and the image is accepted. -/
theorem accepted_of_steps (loaded : ∀ e ∈ s.modules, ∃ image, Module.ofBytes image = .ok e.2)
    (steps : Relation.ReflTransGen Step s s') (opened : s'.module path = .ok m) (sized : m.Sized) :
    ∃ image, m.toBytes = .ok image
      ∧ (∀ t ∈ m.types, ∀ method ∈ t.methods, ∀ b ∈ method.body, b.instructions.KeepsForms)
      ∧ ∃ m', Module.ofBytes image = .ok m' := by
  have start : s.Sound := fun e he => by
    obtain ⟨image, read⟩ := loaded e he
    exact (Module.loaded_of_ofBytes read).sound
  exact ((Sound.of_steps steps start).module opened).accepted sized

end Store

namespace Example

set_option maxRecDepth 100000 in
lemma inject_bell : muting.injectField (Disk.files towerDisk) (makes "Mark") ⟨⟨"app.dll"⟩, 0, bell⟩ bell
    (towerStore tower) = .ok (some "_bell") (towerStore hungTower) :=
  rfl

/-- A field is added to the tower, and then a hook is woven into its method. -/
lemma tower_steps : Relation.ReflTransGen Store.Step (towerStore tower) (towerStore mutedTower) := by
  have injects : Store.Step (towerStore tower) (towerStore hungTower) :=
    .injects mark_declared inject_bell
  have weaves : Store.Step (towerStore hungTower) ((towerStore hungTower).replace ⟨"app.dll"⟩ mutedTower) :=
    .weaves (w := ringMuting) (i := 0) (j := 0) mute_requested.declared rfl rfl weave_ringMuting rfl
  exact .tail (.single injects) weaves

lemma sized_mutedTower : mutedTower.Sized := by
  refine ⟨fun table => ?_, fun s e mentioned _ refused => ?_, Nat.succ_le_of_lt (by decide), fun t ht => ?_⟩
  · have few : mutedTower.mentions.length ≤ Token.maxRow := by decide
    exact ((List.dedup_sublist _).length_le.trans (List.length_filter_le _ _)).trans few
  · have plain : ∀ e ∈ mutedTower.mentions, (match e with
        | .signature s => decide (s.params = [] ∧ s.ret = .void)
        | _ => true) = true := by decide
    obtain ⟨params, ret⟩ := of_decide_eq_true (plain _ mentioned)
    have shallow : s.Shallow := by
      refine ⟨?_, params ▸ List.forall_mem_nil _⟩
      rw [ret]
      decide
    obtain ⟨rows, unfit⟩ := refused.unfit
    exact unfit (MethodSig.fits_of_params shallow (params ▸ Nat.zero_le _))
  · cases List.mem_singleton.1 ht
    refine ⟨⟨Nat.succ_le_of_lt (by decide), List.forall_mem_singleton.2 ?_⟩, fun m hm b hb => ?_⟩
    · show (Text.utf8 "_bell").length < UInt32.size
      decide
    · cases List.mem_singleton.1 hm
      cases hb
      decide

lemma loaded_towerStore :
    ∀ e ∈ (towerStore tower).modules, ∃ image, Module.ofBytes image = .ok e.2 := by
  obtain ⟨m, opened, _, _, _⟩ := of_resolveType_eq_ok resolve_bell
  obtain ⟨read, others, modules, _⟩ := Store.of_openModule_empty opened
  obtain ⟨image, _, read⟩ := Module.ofFile_eq_ok.1 read
  cases modules
  exact List.forall_mem_singleton.2 ⟨image, read⟩

/-- The tower is written with the field and the hook, and read again. -/
theorem mutedTower_accepted :
    (∀ e ∈ (towerStore tower).modules, ∃ image, Module.ofBytes image = .ok e.2)
      ∧ Relation.ReflTransGen Store.Step (towerStore tower) (towerStore mutedTower)
      ∧ (towerStore mutedTower).module ⟨"app.dll"⟩ = .ok mutedTower ∧ mutedTower.Sized
      ∧ ∃ image, mutedTower.toBytes = .ok image
        ∧ (∀ t ∈ mutedTower.types, ∀ method ∈ t.methods, ∀ b ∈ method.body, b.instructions.KeepsForms)
        ∧ ∃ m', Module.ofBytes image = .ok m' := by
  have opened : (towerStore mutedTower).module ⟨"app.dll"⟩ = .ok mutedTower := rfl
  exact ⟨loaded_towerStore, tower_steps, opened, sized_mutedTower,
    Store.accepted_of_steps loaded_towerStore tower_steps opened sized_mutedTower⟩

end Example

end HookWeave
