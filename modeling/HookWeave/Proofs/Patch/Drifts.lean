import HookWeave.Proofs.Patch.Effect

/-!
# Patches worked out on modules that were patched

A module drifts as patches are applied to it: types get fields, and methods get other bodies
(`Module.Drifts`). What a patch is worked out to be on modules as they were foretells what it is worked out
to be on the drifted ones (`Config.weave_foretells`), if it asks for no field whose name was added
meanwhile, and if so much holds of the hook and its target.
-/

namespace HookWeave

/-! ## Modules -/

/-- A type drifts: it gets other fields, though none but such whose names may have been added, and methods
with other bodies. -/
structure TypeDeclaration.Drifts (added : String → Prop)
    (becomes : Nat → MethodDeclaration → MethodDeclaration → Prop) (t t' : TypeDeclaration) : Prop where
  head : t' = { t with fields := t'.fields, methods := t'.methods }
  fields : ∀ name, ¬ added name → (name ∈ t'.fields.map (·.name) ↔ name ∈ t.fields.map (·.name))
  methods : ∀ n, Option.Rel (fun old new => new = { old with body := new.body } ∧ becomes n old new)
    t.methods[n]? t'.methods[n]?

/-- A module drifts: each of its types does, by the names that may have been added to it and by what its
methods become. -/
structure Module.Drifts (added : Nat → String → Prop)
    (becomes : Nat → Nat → MethodDeclaration → MethodDeclaration → Prop) (m m' : Module) : Prop where
  name : m'.name = m.name
  methodNames : m'.methodNames = m.methodNames
  types : ∀ k, Option.Rel (TypeDeclaration.Drifts (added k) (becomes k)) m.types[k]? m'.types[k]?

/-- A module drifts somehow. -/
abbrev Module.Strays : Module → Module → Prop :=
  Module.Drifts (fun _ _ => True) fun _ _ _ _ => True

lemma TypeDeclaration.Drifts.imp {added added' : String → Prop}
    {becomes becomes' : Nat → MethodDeclaration → MethodDeclaration → Prop} {t t' : TypeDeclaration}
    (h : t.Drifts added becomes t') (more : ∀ name, added name → added' name)
    (weaker : ∀ n old new, becomes n old new → becomes' n old new) : t.Drifts added' becomes' t' where
  head := h.head
  fields name free := h.fields name (mt (more name) free)
  methods n := rel_imp (h.methods n) fun old new both => ⟨both.1, weaker n old new both.2⟩

namespace Module.Drifts

variable {added added' : Nat → String → Prop}
  {becomes becomes' : Nat → Nat → MethodDeclaration → MethodDeclaration → Prop} {m m' : Module}
  {k n : Nat} {excused : Fault → Prop}

lemma imp (h : m.Drifts added becomes m') (more : ∀ k name, added k name → added' k name)
    (weaker : ∀ k n old new, becomes k n old new → becomes' k n old new) :
    m.Drifts added' becomes' m' where
  name := h.name
  methodNames := h.methodNames
  types k := rel_imp (h.types k) fun _ _ drifts => drifts.imp (more k) (weaker k)

lemma strays (h : m.Drifts added becomes m') : m.Strays m' :=
  h.imp (fun _ _ _ => trivial) fun _ _ _ _ _ => trivial

/-! ### Looking up -/

/-- Types have what drifts leave as it is. -/
lemma map_types {α : Type} {f : TypeDeclaration → α} (h : m.Drifts added becomes m')
    (kept : ∀ t fields methods, f { t with fields, methods } = f t) : m'.types.map f = m.types.map f := by
  refine List.ext_getElem? fun k => ?_
  rw [List.getElem?_map, List.getElem?_map]
  obtain ⟨none, none'⟩ | ⟨t, t', there, there', drifts⟩ := rel_cases (h.types k)
  · rw [none, none']
  · rw [there, there', drifts.head]
    exact congrArg some (kept ..)

lemma findIdx?_types {p : TypeDeclaration → Bool} (h : m.Drifts added becomes m')
    (kept : ∀ t fields methods, p { t with fields, methods } = p t) :
    m'.types.findIdx? p = m.types.findIdx? p :=
  (List.findIdx?_map (p := id)).symm.trans
    ((congrArg (List.findIdx? id) (h.map_types kept)).trans (List.findIdx?_map (p := id)))

lemma findType_eq (h : m.Drifts added becomes m') (name : String) : m'.findType name = m.findType name := by
  unfold Module.findType Module.missing
  rw [h.findIdx?_types fun _ _ _ => rfl, h.findIdx?_types fun _ _ _ => rfl, h.name]

lemma typeAt (h : m.Drifts added becomes m') (k : Nat) :
    Foretells excused (TypeDeclaration.Drifts (added k) (becomes k)) (m.typeAt k) (m'.typeAt k) := by
  unfold Module.typeAt Module.missing
  rw [h.name]
  obtain ⟨none, none'⟩ | ⟨t, t', there, there', drifts⟩ := rel_cases (h.types k)
  · rw [none, none']
    exact .error
  · rw [there, there']
    exact .ok drifts

lemma typeRef_eq (h : m.Drifts added becomes m') (k : Nat) : m'.typeRef k = m.typeRef k := by
  unfold Module.typeRef Module.typeAt Module.missing
  rw [h.name]
  obtain ⟨none, none'⟩ | ⟨t, t', there, there', drifts⟩ := rel_cases (h.types k)
  · rw [none, none']
  · rw [there, there', drifts.head]
    rfl

lemma findMethod_eq (h : m.Drifts added becomes m') (k : Nat) (name : String) :
    m'.findMethod k name = m.findMethod k name := by
  unfold Module.findMethod Module.typeAt Module.missing Module.missingIn
  rw [h.name, h.methodNames]
  obtain ⟨none, none'⟩ | ⟨t, t', there, there', drifts⟩ := rel_cases (h.types k)
  · rw [none, none']
  · rw [there, there', drifts.head]
    rfl

lemma methodAt (h : m.Drifts added becomes m') (k n : Nat) :
    Foretells excused (fun old new => new = { old with body := new.body } ∧ becomes k n old new)
      (m.methodAt k n) (m'.methodAt k n) := by
  refine (h.typeAt k).bind fun t t' drifts => ?_
  have missing (kind : DeclarationKind) (name : String) :
      m'.missingIn t' kind name = m.missingIn t kind name := by
    unfold Module.missingIn
    rw [h.name, drifts.head]
    rfl
  rw [missing]
  obtain ⟨none, none'⟩ | ⟨old, new, there, there', related⟩ := rel_cases (drifts.methods n)
  · rw [none, none']
    exact .error
  · rw [there, there']
    exact .ok related

/-- A type has a field of a name as it had, if none of that name may have been added. -/
lemma containsField_eq {name : String} (h : m.Drifts added becomes m') (free : ¬ added k name) :
    m'.containsField k name = m.containsField k name := by
  have taken (t : TypeDeclaration) :
      t.fields.any (fun f => f.name = name) = true ↔ name ∈ t.fields.map (·.name) := by
    simp only [List.any_eq_true, decide_eq_true_iff, List.mem_map]
  unfold Module.containsField
  obtain ⟨none, none'⟩ | ⟨t, t', there, there', drifts⟩ := rel_cases (h.types k)
  · rw [none, none']
  · rw [there, there']
    exact Bool.eq_iff_iff.2 (((taken t').trans (drifts.fields name free)).trans (taken t).symm)

/-! ### Changing -/

lemma importScope (h : m.Drifts added becomes m') (scope : String) :
    (m.importScope scope).Drifts added becomes (m'.importScope scope) := by
  rw [Module.importScope_eq, Module.importScope_eq]
  exact ⟨h.name, h.methodNames, h.types⟩

/-- A field that is added on both sides leaves a drift. -/
lemma addField {field : FieldDeclaration} (h : m.Drifts added becomes m') (free : ¬ added k field.name) :
    Foretells excused (fun a b => a.2.Drifts added becomes b.2) (m.addField k field)
      (m'.addField k field) := by
  refine (h.typeAt k).bind fun t t' drifts => ?_
  rw [h.containsField_eq free]
  dsimp only
  split
  · rw [drifts.head]
    exact .error
  · refine .ok ⟨h.name, h.methodNames, fun i => ?_⟩
    show Option.Rel _ (m.types.modify k _)[i]? (m'.types.modify k _)[i]?
    rw [List.getElem?_modify, List.getElem?_modify]
    refine rel_map (h.types i) fun t t' drifts => ?_
    split
    · refine ⟨?_, fun name free => ?_, drifts.methods⟩
      · rw [drifts.head]
      · simp only [List.map_append, List.mem_append, drifts.fields name free]
    · exact drifts

lemma inject {name scope : String} {type : TypeSig} {marker : MethodRef} (h : m.Drifts added becomes m')
    (free : ¬ added k name) : Foretells excused (Module.Drifts added becomes)
      (m.inject k name type scope marker) (m'.inject k name type scope marker) :=
  (h.addField free).bind fun _ _ drifts => .ok ((drifts.importScope _).importScope _)

/-- A module drifts from itself. -/
lemma self (unchanged : ∀ k n method, becomes k n method method) (m : Module) :
    m.Drifts added becomes m where
  name := rfl
  methodNames := rfl
  types k := by
    cases m.types[k]? with
    | none => exact .none
    | some t =>
      refine .some ⟨rfl, fun _ _ => Iff.rfl, fun n => ?_⟩
      cases t.methods[n]? with
      | none => exact .none
      | some method => exact .some ⟨rfl, unchanged k n method⟩

/-- A module that drifted drifts on when it is patched. -/
lemma patched {t : TypeDeclaration} {now method : MethodDeclaration} {fields : List FieldDeclaration}
    {scopes : List String} (h : m.Drifts added becomes m') (type : m'.types[k]? = some t)
    (at' : t.methods[n]? = some now) (body : method = { now with body := method.body })
    (more : ∀ i name, added i name → added' i name) (fresh : ∀ f ∈ fields, added' k f.name)
    (kept : ∀ i j old new, ¬ (i = k ∧ j = n) → becomes i j old new → becomes' i j old new)
    (woven : ∀ old, now = { old with body := now.body } → becomes k n old now → becomes' k n old method) :
    m.Drifts added' becomes' (m'.patched k fields n method scopes) where
  name := h.name
  methodNames := h.methodNames
  types i := by
    show Option.Rel _ m.types[i]? (m'.types.modify k _)[i]?
    rw [List.getElem?_modify]
    by_cases here : k = i
    · subst here
      obtain ⟨_, none⟩ | ⟨t₀, _, there, there', drifts⟩ := rel_cases (h.types k)
      · cases none.symm.trans type
      cases there'.symm.trans type
      rw [there, type, Option.map_eq_map, Option.map_some, if_pos rfl]
      refine .some ⟨?_, fun name free => ?_, fun j => ?_⟩
      · rw [drifts.head]
        rfl
      · show name ∈ (t.fields ++ fields).map (·.name) ↔ _
        rw [List.map_append, List.mem_append, drifts.fields name (mt (more k name) free)]
        refine or_iff_left fun mem => free ?_
        obtain ⟨f, hf, rfl⟩ := List.mem_map.1 mem
        exact fresh f hf
      · show Option.Rel _ t₀.methods[j]? (t.methods.set n method)[j]?
        rw [List.getElem?_set]
        by_cases this : n = j
        · subst this
          rw [if_pos rfl, if_pos (List.getElem?_eq_some_iff.1 at').1]
          obtain ⟨_, none⟩ | ⟨old, _, was, is, same, related⟩ := rel_cases (drifts.methods n)
          · cases none.symm.trans at'
          cases is.symm.trans at'
          rw [was]
          refine .some ⟨?_, woven old same related⟩
          rw [body, same]
        · rw [if_neg this]
          exact rel_imp (drifts.methods j) fun old new both =>
            ⟨both.1, kept k j old new (fun both => this both.2.symm) both.2⟩
    · simp only [if_neg here, id_map']
      exact rel_imp (h.types i) fun t t' drifts =>
        drifts.imp (more i) fun j old new => kept i j old new fun both => here both.1.symm

end Module.Drifts

/-! ## Stores -/

namespace Store

/-- An outcome of an edit foretells that of another: both go well, with related results and related stores,
or fail with one fault, unless the second fails with a fault that is excused. -/
inductive Foretells {α β : Type} (excused : Fault → Prop) (Q : α → β → Prop) (P : Store → Store → Prop) :
    EStateM.Result Fault Store α → EStateM.Result Fault Store β → Prop
  | ok {a : α} {b : β} {s s' : Store} : Q a b → P s s' → Foretells excused Q P (.ok a s) (.ok b s')
  | error {e : Fault} {s s' : Store} : Foretells excused Q P (.error e s) (.error e s')
  | excused {x : EStateM.Result Fault Store α} {e : Fault} {s' : Store} :
    excused e → Foretells excused Q P x (.error e s')

namespace Foretells

variable {α β γ δ : Type} {excused : Fault → Prop} {Q : α → β → Prop} {S : γ → δ → Prop}
  {P P' : Store → Store → Prop} {x : Edit α} {y : Edit β} {f : α → Edit γ} {g : β → Edit δ} {s s' : Store}

lemma bind (h : Foretells excused Q P (x s) (y s'))
    (next : ∀ a b t t', Q a b → P t t' → Foretells excused S P' (f a t) (g b t')) :
    Foretells excused S P' ((x >>= f) s) ((y >>= g) s') := by
  cases first : x s with
  | ok a t =>
    cases first' : y s' with
    | ok b t' =>
      rw [first, first'] at h
      rw [bind_of_ok first, bind_of_ok first']
      cases h with
      | ok related both => exact next _ _ _ _ related both
    | error e t' =>
      rw [first, first'] at h
      rw [bind_of_error first']
      cases h with
      | excused known => exact .excused known
  | error e t =>
    cases first' : y s' with
    | ok b t' =>
      rw [first, first'] at h
      cases h
    | error e' t' =>
      rw [first, first'] at h
      rw [bind_of_error first, bind_of_error first']
      cases h with
      | error => exact .error
      | excused known => exact .excused known

lemma ofExcept {v : Except Fault α} {w : Except Fault β} (h : HookWeave.Foretells excused Q v w)
    (related : P s s') : Foretells excused Q P (Store.ofExcept v s) (Store.ofExcept w s') := by
  cases h with
  | ok same => exact .ok same related
  | error => exact .error
  | excused known => exact .excused known

/-- What is done for each element of a list foretells what is done for each, if it does so for one. -/
lemma mapM {xs : List α} {a b : α → Edit β}
    (each : ∀ x ∈ xs, ∀ t t', P t t' → Foretells excused Eq P (a x t) (b x t')) (related : P s s') :
    Foretells excused Eq P (xs.mapM a s) (xs.mapM b s') := by
  induction xs generalizing s s' with
  | nil => exact .ok rfl related
  | cons x xs ih =>
    obtain ⟨here, others⟩ := List.forall_mem_cons.1 each
    rw [List.mapM_cons, List.mapM_cons]
    refine (here s s' related).bind fun y _ t t' same related => ?_
    subst same
    refine (ih others related).bind fun ys _ t t' same related => ?_
    subst same
    exact .ok rfl related

end Foretells

/-- Two stores hold modules under the same paths. In the first place is one that drifts, and the others
stray. -/
def Drifts (path : Path) (added : Nat → String → Prop)
    (becomes : Nat → Nat → MethodDeclaration → MethodDeclaration → Prop) (s s' : Store) : Prop :=
  ∃ m m' others others', s.modules = (path, m) :: others ∧ s'.modules = (path, m') :: others'
    ∧ m.Drifts added becomes m'
    ∧ List.Forall₂ (fun e e' => e'.1 = e.1 ∧ e.2.Strays e'.2) others others'

namespace Drifts

variable {path q : Path} {added : Nat → String → Prop}
  {becomes : Nat → Nat → MethodDeclaration → MethodDeclaration → Prop} {s s' : Store} {m m' : Module}
  {excused : Fault → Prop} {files files' : Files}

lemma all (h : s.Drifts path added becomes s') :
    List.Forall₂ (fun e e' => e'.1 = e.1 ∧ e.2.Strays e'.2) s.modules s'.modules := by
  obtain ⟨m, m', others, others', modules, modules', drifts, stray⟩ := h
  rw [modules, modules']
  exact .cons ⟨rfl, drifts.strays⟩ stray

lemma isOpen_eq (h : s.Drifts path added becomes s') (q : Path) : s'.isOpen q = s.isOpen q := by
  have all := h.all
  unfold isOpen
  generalize s.modules = l, s'.modules = l' at all ⊢
  induction all with
  | nil => rfl
  | cons here _ ih => rw [List.any_cons, List.any_cons, here.1, ih]

/-- What is open under a path strays. -/
lemma module (h : s.Drifts path added becomes s') (q : Path) :
    HookWeave.Foretells excused Module.Strays (s.module q) (s'.module q) := by
  have found : Option.Rel Module.Strays (s.get? q) (s'.get? q) := by
    have all := h.all
    unfold get?
    generalize s.modules = l, s'.modules = l' at all ⊢
    induction all with
    | nil => exact .none
    | @cons e e' _ _ here _ ih =>
      rw [List.find?_cons, List.find?_cons, here.1]
      split
      · exact .some here.2
      · exact ih
  unfold Store.module
  obtain ⟨none, none'⟩ | ⟨m, m', there, there', strays⟩ := rel_cases found
  · rw [none, none']
    exact .error
  · rw [there, there']
    exact .ok strays

/-- What is open in the first place drifts. -/
lemma module_self (h : s.Drifts path added becomes s') :
    ∃ m m', s.module path = .ok m ∧ s'.module path = .ok m' ∧ m.Drifts added becomes m' := by
  obtain ⟨m, m', others, others', modules, modules', drifts, _⟩ := h
  have self {t : Store} {n : Module} {rest : List (Path × Module)} (opened : t.modules = (path, n) :: rest) :
      t.module path = .ok n :=
    module_eq_ok.2 ⟨path, Path.same_iff.2 rfl, opened ▸ List.mem_cons_self ..⟩
  exact ⟨m, m', self modules, self modules', drifts⟩

lemma insert {closed : s.isOpen q = false} {closed' : s'.isOpen q = false}
    (h : s.Drifts path added becomes s') (strays : m.Strays m') :
    (s.insert q m closed).Drifts path added becomes (s'.insert q m' closed') := by
  obtain ⟨n, n', others, others', modules, modules', drifts, stray⟩ := h
  refine ⟨n, n', others ++ [(q, m)], others' ++ [(q, m')], congrArg (· ++ _) modules,
    congrArg (· ++ _) modules', drifts, ?_⟩
  exact List.rel_append stray (.cons ⟨rfl, strays⟩ .nil)

lemma replace (h : s.Drifts path added becomes s') (drifts : m.Drifts added becomes m') :
    (s.replace path m).Drifts path added becomes (s'.replace path m') := by
  obtain ⟨_, _, others, others', modules, modules', _, stray⟩ := h
  exact ⟨m, m', others, others', modules_replace modules, modules_replace modules', drifts, stray⟩

end Drifts

lemma module_insert {q : Path} {m : Module} : (empty.insert q m rfl).module q = .ok m :=
  module_eq_ok.2 ⟨q, Path.same_iff.2 rfl, List.mem_singleton_self _⟩

/-! ### Opening -/

variable {path q : Path} {added : Nat → String → Prop}
  {becomes : Nat → Nat → MethodDeclaration → MethodDeclaration → Prop} {s s' : Store} {m m' : Module}
  {excused : Fault → Prop} {files files' : Files}

lemma openModule_of_open (there : s.isOpen q = true) : openModule files q s = query (·.module q) s := by
  obtain ⟨edit, chosen, ran⟩ : ∃ edit : Edit Module, _ = edit ∧ openModule files q s = edit s :=
    ⟨_, rfl, edit_get_bind ..⟩
  rw [ran]
  split at chosen
  · rw [← chosen]
  · next closed =>
    cases there.symm.trans closed

lemma openModule_of_closed (closed : s.isOpen q = false) : openModule files q s
    = (ofExcept ((Module.ofFile files q).mapError (.moduleUnreadable q.text)) >>= fun m => do
        set (s.insert q m closed)
        return m) s := by
  obtain ⟨edit, chosen, ran⟩ : ∃ edit : Edit Module, _ = edit ∧ openModule files q s = edit s :=
    ⟨_, rfl, edit_get_bind ..⟩
  rw [ran]
  split at chosen
  · next there =>
    cases there.symm.trans closed
  · rw [← chosen]

/-- A module that is asked for strays, if files are read like that. -/
lemma Drifts.openModule (h : s.Drifts path added becomes s')
    (reads : HookWeave.Foretells (fun _ => False) Module.Strays (Module.ofFile files q)
      (Module.ofFile files' q)) :
    Foretells excused Module.Strays (Drifts path added becomes) (openModule files q s)
      (openModule files' q s') := by
  have same := h.isOpen_eq q
  cases there : s.isOpen q with
  | true =>
    rw [openModule_of_open there, openModule_of_open (same.trans there)]
    exact .ofExcept (h.module q) h
  | false =>
    rw [openModule_of_closed there, openModule_of_closed (same.trans there)]
    have both : s = s ∧ s' = s' := ⟨rfl, rfl⟩
    refine Foretells.bind (P := fun t t' => t = s ∧ t' = s') (.ofExcept reads.mapError both)
      fun m m' t t' strays same => ?_
    obtain ⟨rfl, rfl⟩ := same
    exact .ok strays (h.insert strays)

/-- What becomes of the module in the first place is foretold by what it becomes where it drifted from. -/
lemma Drifts.change {α : Type} {P : Store → Store → Prop} {f g : Module → Except Fault (α × Module)}
    (h : s.Drifts path added becomes s')
    (each : ∀ m m', m.Drifts added becomes m' → HookWeave.Foretells excused
      (fun a b => a.1 = b.1 ∧ P (s.replace path a.2) (s'.replace path b.2)) (f m) (g m')) :
    Foretells excused Eq P (change path f s) (change path g s') := by
  obtain ⟨m, m', opened, opened', drifts⟩ := h.module_self
  have made : HookWeave.Foretells excused
      (fun a b => a.1 = b.1 ∧ P (s.replace path a.2) (s'.replace path b.2)) (s.module path >>= f)
      (s'.module path >>= g) := by
    rw [opened, opened']
    exact each m m' drifts
  have both : s = s ∧ s' = s' := ⟨rfl, rfl⟩
  refine Foretells.bind (P := fun t t' => t = s ∧ t' = s') (.ofExcept made both)
    fun a b t t' related same => ?_
  obtain ⟨rfl, rfl⟩ := same
  obtain ⟨_, _⟩ := a
  obtain ⟨_, _⟩ := b
  obtain ⟨rfl, replaced⟩ := related
  exact .ok rfl replaced

end Store

/-! ## Requests -/

namespace Config

variable {c : Config} {files files' : Files} {marker : MethodRef} {r : PatchRequest} {path : Path}
  {added : Nat → String → Prop} {becomes : Nat → Nat → MethodDeclaration → MethodDeclaration → Prop}
  {excused : Fault → Prop} {s s' : Store}

/-- The request is for a method of a type, each given by its index. -/
def Aims (c : Config) (files : Files) (r : PatchRequest) (k n : Nat) : Prop :=
  ∃ m, Module.ofFile files (c.modulePath r.targetType.scope) = .ok m
    ∧ m.findType r.targetType.fullName = .ok k ∧ m.findMethod k r.targetMethod = .ok n

/-- The first type to be resolved is looked up in the module of its file. -/
lemma resolveType_of_read {t : TypeRef} {m : Module} (h : Module.ofFile files (c.modulePath t.scope) = .ok m) :
    c.resolveType files t .empty = Store.ofExcept (m.findType t.fullName >>= fun k =>
        m.typeRef k >>= fun type => .ok ⟨c.modulePath t.scope, k, type⟩)
      (Store.empty.insert (c.modulePath t.scope) m rfl) := by
  have opened : Store.openModule files (c.modulePath t.scope) .empty
      = .ok m (Store.empty.insert (c.modulePath t.scope) m rfl) := by
    rw [Store.openModule_of_closed rfl, h]
    rfl
  refine (bind_of_ok opened).trans ?_
  cases m.findType t.fullName with
  | error e => rfl
  | ok k =>
    show (Store.ofExcept (m.typeRef k) >>= _) _ = Store.ofExcept (m.typeRef k >>= _) _
    cases m.typeRef k with
    | error e => rfl
    | ok type => rfl

/-- Nothing is resolved where the file of the module cannot be read. -/
lemma resolveType_of_error {t : TypeRef} {e : Fault}
    (h : Module.ofFile files (c.modulePath t.scope) = .error e) : c.resolveType files t .empty
      = .error (.moduleUnreadable (c.modulePath t.scope).text e) .empty := by
  refine bind_of_error ?_
  rw [Store.openModule_of_closed rfl, h]
  rfl

/-- The module of the target's type is the first to be opened, and the type is found in it where it was. -/
lemma resolveType_empty_foretells {t : TypeRef}
    (opened : Foretells (fun _ => False) (Module.Drifts added becomes)
      (Module.ofFile files (c.modulePath t.scope)) (Module.ofFile files' (c.modulePath t.scope))) :
    Store.Foretells excused
      (fun owner owner' => owner = owner' ∧ owner.path = c.modulePath t.scope
        ∧ ∃ m, Module.ofFile files (c.modulePath t.scope) = .ok m ∧ m.findType t.fullName = .ok owner.index)
      (fun s s' => s.Drifts (c.modulePath t.scope) added becomes s'
        ∧ ∀ m, Module.ofFile files (c.modulePath t.scope) = .ok m → s.module (c.modulePath t.scope) = .ok m)
      (c.resolveType files t .empty) (c.resolveType files' t .empty) := by
  obtain ⟨m, m', read, read', drifts⟩ | ⟨e, failed, failed'⟩ := opened.strict
  · rw [resolveType_of_read read, resolveType_of_read read']
    refine .ofExcept ?_ ⟨⟨m, m', [], [], rfl, rfl, drifts, .nil⟩, fun n read₁ => ?_⟩
    · rw [drifts.findType_eq]
      refine (Foretells.self _).bind fun k _ found => ?_
      obtain ⟨rfl, found⟩ := found
      rw [drifts.typeRef_eq]
      refine (Foretells.self _).bind fun type _ same => ?_
      obtain ⟨rfl, _⟩ := same
      exact .ok ⟨rfl, rfl, m, read, found⟩
    · cases read.symm.trans read₁
      exact Store.module_insert
  · rw [resolveType_of_error failed, resolveType_of_error failed']
    exact .error

/-- Methods are resolved as before, for they differ in their bodies only. -/
lemma methodAt_eq {owner : ResolvedType} {m m' : Module} (h : m.Drifts added becomes m') (n : Nat) :
    owner.methodAt m' n = owner.methodAt m n := by
  unfold ResolvedType.methodAt
  obtain ⟨old, new, there, there', same, _⟩ | ⟨e, failed, failed'⟩ := (h.methodAt owner.index n).strict
  · rw [there, there', same]
    rfl
  · rw [failed, failed']

/-- A method is resolved as before. -/
lemma resolveMethod_foretells {owner : ResolvedType} {name : String}
    (h : s.Drifts path added becomes s') (here : owner.path = path) :
    Store.Foretells excused (fun a b => a = b ∧ owner.resolveMethod s name = .ok a)
      (Store.Drifts path added becomes) (Store.query (owner.resolveMethod · name) s)
      (Store.query (owner.resolveMethod · name) s') := by
  obtain ⟨m, m', opened, opened', drifts⟩ := h.module_self
  have same : owner.resolveMethod s' name = owner.resolveMethod s name := by
    unfold ResolvedType.resolveMethod
    rw [here, opened, opened']
    show (m'.findMethod _ _ >>= fun n => owner.methodAt m' n)
      = (m.findMethod _ _ >>= fun n => owner.methodAt m n)
    simp only [drifts.findMethod_eq, methodAt_eq drifts]
  refine .ofExcept ?_ h
  show Foretells _ _ (owner.resolveMethod s name) (owner.resolveMethod s' name)
  rw [same]
  exact .self _

section

variable (reads : ∀ q, Foretells (fun _ => False) Module.Strays (Module.ofFile files q)
  (Module.ofFile files' q))
include reads

/-- A type is resolved as before. -/
lemma resolveType_foretells (h : s.Drifts path added becomes s') (t : TypeRef) :
    Store.Foretells excused Eq (Store.Drifts path added becomes) (c.resolveType files t s)
      (c.resolveType files' t s') := by
  refine (h.openModule (reads _)).bind fun m m' s₁ s₁' strays drifts => ?_
  refine Store.Foretells.bind (.ofExcept (.of_eq (strays.findType_eq _).symm) drifts)
    fun index _ s₂ s₂' same drifts => ?_
  subst same
  refine Store.Foretells.bind (.ofExcept (.of_eq (strays.typeRef_eq _).symm) drifts)
    fun type _ s₃ s₃' same drifts => ?_
  subst same
  exact .ok rfl drifts

/-- A field is added as before, if no field of its name was added meanwhile. -/
lemma injectField_foretells {target : ResolvedType} {t : TypeRef} (h : s.Drifts path added becomes s')
    (here : target.path = path) (free : ¬ added target.index (injectedFieldName t.name)) :
    Store.Foretells excused Eq (Store.Drifts path added becomes) (c.injectField files marker target t s)
      (c.injectField files' marker target t s') := by
  subst here
  obtain ⟨m, m', opened, opened', drifts⟩ := h.module_self
  have asked : HookWeave.Foretells excused (Module.Drifts added becomes) (s.module target.path)
      (s'.module target.path) := by
    rw [opened, opened']
    exact .ok drifts
  refine Store.Foretells.bind (.ofExcept asked h) fun m m' s₁ s₁' drifts h => ?_
  rw [drifts.containsField_eq free]
  split
  · exact .ok rfl h
  · refine (resolveType_foretells reads h t).bind fun resolved _ s₂ s₂' same h => ?_
    subst same
    refine Store.Foretells.bind (.ofExcept ((h.module resolved.path).bind fun m m' strays =>
      strays.typeAt resolved.index) h) fun d d' s₃ s₃' drifts h => ?_
    have sig : d'.sig resolved.type.scope = d.sig resolved.type.scope := by
      rw [drifts.head]
      rfl
    rw [sig]
    refine (h.change fun m m' drifts => ?_).bind fun _ _ s₄ s₄' _ h => .ok rfl h
    exact (drifts.inject free).bind fun n n' drifts => .ok ⟨rfl, h.replace drifts⟩

end

/-- What a request comes to is foretold by what it comes to where modules drifted from. This takes that
no field of a name that it asks for was added meanwhile, and that what the weave makes of the target is
foretold by what it makes of the target as it was. -/
theorem weave_foretells
    (reads : ∀ q, Foretells (fun _ => False) Module.Strays (Module.ofFile files q)
      (Module.ofFile files' q))
    (opened : Foretells (fun _ => False) (Module.Drifts added becomes)
      (Module.ofFile files (c.modulePath r.targetType.scope))
      (Module.ofFile files' (c.modulePath r.targetType.scope)))
    (free : ∀ k n, c.Aims files r k n → ∀ t ∈ r.injected, ¬ added k (injectedFieldName t.name))
    (again : ∀ k n, c.Aims files r k n → ∀ owner old new, new = { old with body := new.body } →
      becomes k n old new → Foretells excused (fun _ _ => True)
        ((⟨c.conventions, owner, old, r⟩ : Weaving).weave c.verify)
        ((⟨c.conventions, owner, new, r⟩ : Weaving).weave c.verify)) :
    Store.Foretells excused Eq (fun _ _ => True) (c.weave files marker r .empty)
      (c.weave files' marker r .empty) := by
  unfold weave
  refine (resolveType_empty_foretells opened).bind fun owner _ s s' same both => ?_
  obtain ⟨rfl, here, m, read, typeFound⟩ := same
  obtain ⟨drifted, self⟩ := both
  refine (resolveMethod_foretells drifted here).bind fun target _ s₁ s₁' same drifted => ?_
  obtain ⟨rfl, targeted⟩ := same
  obtain ⟨_, _, asked, methodFound, _⟩ := of_resolveMethod_eq_ok targeted
  rw [here, self m read] at asked
  cases asked
  have aims : c.Aims files r owner.index target.index := ⟨m, read, typeFound, methodFound⟩
  have fields : Store.Foretells excused Eq _ (r.injected.mapM (c.injectField files marker owner) s₁)
      (r.injected.mapM (c.injectField files' marker owner) s₁') :=
    .mapM (fun t mem _ _ drifted =>
      injectField_foretells reads drifted here (free owner.index target.index aims t mem)) drifted
  refine fields.bind fun names _ s₂ s₂' same drifted => ?_
  subst same
  rw [here]
  refine (drifted.change (P := fun _ _ => True) fun m m' drifts => ?_).bind fun _ _ _ _ _ _ =>
    .ok rfl trivial
  refine (drifts.methodAt owner.index target.index).bind fun old new related => ?_
  refine (again owner.index target.index aims owner.type old new related.1 related.2).bind fun _ _ _ => ?_
  have replaced {n n' : MethodDeclaration} : Foretells excused (fun _ _ => True)
      (m.modifyMethod owner.index target.index fun _ => n)
      (m'.modifyMethod owner.index target.index fun _ => n') :=
    (drifts.methodAt owner.index target.index).bind fun _ _ _ => .ok trivial
  exact replaced.bind fun _ _ _ => .ok ⟨rfl, trivial⟩

end Config
end HookWeave
