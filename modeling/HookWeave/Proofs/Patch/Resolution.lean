import HookWeave.Proofs.Patch.Drifts

/-!
# Types found by name

A type is looked up by its full name, and under a full name that no type has by its simple name
(`Module.Finds`). Simple names without dots are what is behind the last dot of a full name, so that full
names tell types apart (`TypeRef.eq_of_fullName`). A reference to a module of such types is resolved to the
type that it names, or fails if there is none (`Config.resolveType_names`). The one exception are references
without a namespace, which are full names and simple names at once: where only types in namespaces have the
name, such a reference is resolved to one of these.
-/

namespace HookWeave

variable {m : Module} {name : String} {d : TypeDeclaration} {r a b : TypeRef} {k : Nat}

/-! ## Full names -/

/-- Text behind the last dot of another is determined by it, and so is the text in front. -/
lemma eq_of_append_dot {xs xs' ys ys' : List Char} (hys : '.' ∉ ys) (hys' : '.' ∉ ys')
    (h : xs ++ '.' :: ys = xs' ++ '.' :: ys') : xs = xs' ∧ ys = ys' := by
  -- If one front were longer than the other, its dot would be behind the dot of the other.
  obtain ⟨as, rfl, back⟩ | ⟨as, rfl, back⟩ := List.append_eq_append_iff.1 h
  · cases as with
    | nil =>
      cases back
      exact ⟨(List.append_nil xs).symm, rfl⟩
    | cons c as =>
      cases back
      exact absurd (List.mem_append_right as (List.mem_cons_self ..)) hys
  · cases as with
    | nil =>
      cases back
      exact ⟨List.append_nil xs', rfl⟩
    | cons c as =>
      cases back
      exact absurd (List.mem_append_right as (List.mem_cons_self ..)) hys'

namespace TypeRef

lemma fullName_of_global (h : r.space = "") : r.fullName = r.name := by
  rw [fullName, h]
  rfl

lemma toList_fullName (h : r.space ≠ "") :
    r.fullName.toList = r.space.toList ++ '.' :: r.name.toList := by
  have some : ¬ r.space.isEmpty = true := fun empty => h (String.isEmpty_iff.1 empty)
  rw [fullName, if_neg some, String.toList_append, String.toList_append, List.append_assoc]
  rfl

/-- The full name of a type in a namespace holds a dot. -/
lemma dot_mem_fullName (h : r.space ≠ "") : '.' ∈ r.fullName.toList := by
  rw [toList_fullName h]
  exact List.mem_append_right _ (List.mem_cons_self ..)

/-- Types without a dot in their simple names are told apart by their full names. -/
lemma eq_of_fullName (ha : '.' ∉ a.name.toList) (hb : '.' ∉ b.name.toList)
    (h : a.fullName = b.fullName) : a.space = b.space ∧ a.name = b.name := by
  by_cases globalA : a.space = ""
  · by_cases globalB : b.space = ""
    · rw [fullName_of_global globalA, fullName_of_global globalB] at h
      exact ⟨globalA.trans globalB.symm, h⟩
    · rw [fullName_of_global globalA] at h
      exact absurd (h ▸ dot_mem_fullName globalB) ha
  · by_cases globalB : b.space = ""
    · rw [fullName_of_global globalB] at h
      exact absurd (h ▸ dot_mem_fullName globalA) hb
    · have text := congrArg String.toList h
      rw [toList_fullName globalA, toList_fullName globalB] at text
      obtain ⟨space, name⟩ := eq_of_append_dot ha hb text
      exact ⟨String.toList_injective space, String.toList_injective name⟩

end TypeRef

/-! ## Types of a module -/

namespace Module

/-- What is found under a name has it as its full name, or as its simple name if it is the full name of no
type. -/
inductive Finds (m : Module) (name : String) (d : TypeDeclaration) : Prop
  | full : d.fullName = name → Finds m name d
  | simple : (∀ other ∈ m.types, other.fullName ≠ name) → d.name = name → Finds m name d

/-- The module declares the type that a reference names. -/
def Names (m : Module) (r : TypeRef) : Prop :=
  ∃ d ∈ m.types, d.space = r.space ∧ d.name = r.name

/-- No simple name holds a dot, and the name of a reference without a namespace is declared like that if it
is declared at all. -/
structure TellsApart (m : Module) (r : TypeRef) : Prop where
  name : '.' ∉ r.name.toList
  names : ∀ d ∈ m.types, '.' ∉ d.name.toList
  global : r.space = "" → (∃ d ∈ m.types, d.name = r.name) → m.Names r

lemma finds_of_findType (h : m.findType name = .ok k) : ∃ d, m.types[k]? = some d ∧ m.Finds name d := by
  unfold findType at h
  split at h
  · next found =>
    cases h
    obtain ⟨bound, same, _⟩ := List.findIdx?_eq_some_iff_getElem.1 found
    exact ⟨_, List.getElem?_eq_getElem bound, .full (of_decide_eq_true same)⟩
  · next none =>
    split at h
    · next found =>
      cases h
      obtain ⟨bound, same, _⟩ := List.findIdx?_eq_some_iff_getElem.1 found
      refine ⟨_, List.getElem?_eq_getElem bound, .simple (fun other ho => ?_) (of_decide_eq_true same)⟩
      exact of_decide_eq_false (List.findIdx?_eq_none_iff.1 none other ho)
    · cases h

/-- If a type has the name, one is found. -/
lemma exists_findType (hd : d ∈ m.types) (h : m.Finds name d) : ∃ k, m.findType name = .ok k := by
  unfold findType
  split
  · exact ⟨_, rfl⟩
  · next full =>
    split
    · exact ⟨_, rfl⟩
    · next simple =>
      cases h with
      | full same => exact absurd same (of_decide_eq_false (List.findIdx?_eq_none_iff.1 full d hd))
      | simple _ same => exact absurd same (of_decide_eq_false (List.findIdx?_eq_none_iff.1 simple d hd))

/-- The search fails if no type has the name, full or simple. -/
lemma findType_of_none (h : ∀ d ∈ m.types, ¬ m.Finds name d) :
    m.findType name = .error (m.missing .type name) := by
  cases found : m.findType name with
  | ok k =>
    obtain ⟨d, hd, finds⟩ := finds_of_findType found
    exact absurd finds (h d (List.mem_of_getElem? hd))
  | error e =>
    unfold findType at found
    split at found
    · cases found
    · split at found
      · cases found
      · exact found.symm

/-- Where names tell types apart, what is found is what was named. -/
lemma TellsApart.of_finds (h : m.TellsApart r) (hd : d ∈ m.types) (finds : m.Finds r.fullName d) :
    d.space = r.space ∧ d.name = r.name := by
  cases finds with
  | full same => exact TypeRef.eq_of_fullName (a := d.reference "") (h.names d hd) h.name same
  | simple others same =>
    by_cases global : r.space = ""
    · -- The name is declared without a namespace, so it is the full name of a type.
      rw [TypeRef.fullName_of_global global] at same others
      obtain ⟨other, ho, space, name⟩ := h.global global ⟨d, hd, same⟩
      refine absurd ?_ (others other ho)
      exact (TypeRef.fullName_of_global (r := other.reference "") (space.trans global)).trans name
    · exact absurd (same ▸ TypeRef.dot_mem_fullName global) (h.names d hd)

lemma finds_of_names (h : m.Names r) : ∃ d ∈ m.types, m.Finds r.fullName d := by
  obtain ⟨d, hd, space, name⟩ := h
  refine ⟨d, hd, .full ?_⟩
  rw [TypeDeclaration.fullName, TypeRef.fullName, TypeRef.fullName, TypeDeclaration.reference, space, name]

end Module

/-! ## References resolved -/

variable {c : Config} {files : Files} {s s' : Store} {path : Path} {found : ResolvedType}

/-- A module that was opened is open. -/
lemma Store.module_of_openModule (h : openModule files path s = .ok m s') : s'.module path = .ok m := by
  obtain ⟨rfl, opened⟩ | ⟨closed, _, rfl⟩ := of_openModule_eq_ok h
  · exact opened
  · refine module_eq_ok.2 ⟨path, Path.same_iff.2 rfl, ?_⟩
    exact List.mem_append_right _ (List.mem_singleton.2 rfl)

/-- A reference is resolved if its type is found. -/
lemma Config.resolveType_of_opened (opened : Store.openModule files (c.modulePath r.scope) s = .ok m s')
    (h : m.findType r.fullName = .ok k) : ∃ found, c.resolveType files r s = .ok found s' := by
  obtain ⟨d, hd, _⟩ := Module.finds_of_findType h
  have typed : m.typeRef k = .ok (d.reference m.name) :=
    bind_eq_ok.2 ⟨d, Module.typeAt_eq_ok.2 hd, rfl⟩
  refine ⟨⟨c.modulePath r.scope, k, d.reference m.name⟩, (bind_of_ok opened).trans ?_⟩
  refine (bind_of_ok (Store.ofExcept_eq_ok.2 ⟨h, rfl⟩)).trans ?_
  exact bind_of_ok (Store.ofExcept_eq_ok.2 ⟨typed, rfl⟩)

/-- What a reference is resolved to is found in its module under the full name. Where names tell the types
of the module apart it is the type that is named, and without one the reference is not resolved. -/
theorem Config.resolveType_names (c : Config) (files : Files) (s : Store) (r : TypeRef) :
    (∀ found s', c.resolveType files r s = .ok found s' →
      ∃ m d, found.path = c.modulePath r.scope ∧ s'.module found.path = .ok m
        ∧ m.types[found.index]? = some d ∧ m.Finds r.fullName d
        ∧ (m.TellsApart r → d.space = r.space ∧ d.name = r.name))
      ∧ ∀ m s', Store.openModule files (c.modulePath r.scope) s = .ok m s' → m.TellsApart r →
        (m.Names r → ∃ found, c.resolveType files r s = .ok found s')
          ∧ (¬ m.Names r → c.resolveType files r s = .error (.notDeclared .type r.fullName m.name) s') := by
  refine ⟨fun found s' resolved => ?_, fun m s' opened apart => ⟨fun names => ?_, fun missing => ?_⟩⟩
  · obtain ⟨m, opened, path, searched, _⟩ := of_resolveType_eq_ok resolved
    obtain ⟨d, hd, finds⟩ := Module.finds_of_findType searched
    refine ⟨m, d, path, ?_, hd, finds, fun apart => apart.of_finds (List.mem_of_getElem? hd) finds⟩
    rw [path]
    exact Store.module_of_openModule opened
  · obtain ⟨d, hd, finds⟩ := Module.finds_of_names names
    obtain ⟨k, searched⟩ := Module.exists_findType hd finds
    exact resolveType_of_opened opened searched
  · have none : ∀ d ∈ m.types, ¬ m.Finds r.fullName d :=
      fun d hd finds => missing ⟨d, hd, apart.of_finds hd finds⟩
    refine (bind_of_ok opened).trans (bind_of_error ?_)
    rw [Module.findType_of_none none]
    rfl

namespace Example

/-- A type without members. -/
def bare (space name : String) : TypeDeclaration :=
  ⟨space, name, 1, none, [], [], [], []⟩

/-- A module of such types. -/
def app (types : List TypeDeclaration) : Module :=
  .ofParts "app" [] types

/-- A store in which the module is open, and nothing else. -/
def playing (types : List TypeDeclaration) : Store :=
  Store.empty.insert (muting.modulePath "app") (app types) rfl

lemma playing_opened (types : List TypeDeclaration) (files : Files) :
    Store.openModule files (muting.modulePath "app") (playing types) = .ok (app types) (playing types) := by
  have listed : (muting.modulePath "app", app types) ∈ (playing types).modules := List.mem_singleton.2 rfl
  have opened : (playing types).module (muting.modulePath "app") = .ok (app types) :=
    Store.module_eq_ok.2 ⟨_, Path.same_iff.2 rfl, listed⟩
  rw [Store.openModule_of_open (List.any_eq_true.2 ⟨_, listed, Path.same_iff.2 rfl⟩)]
  exact Store.query_eq_ok.2 ⟨opened, rfl⟩

/-- One player, in a namespace. -/
def stranger : List TypeDeclaration :=
  [bare "Game" "Player"]

/-- A player without a namespace is resolved to the one in a namespace, though the module declares no type
that the reference names. -/
theorem stranger_found :
    Store.openModule (Disk.files towerDisk) (muting.modulePath "app") (playing stranger)
        = .ok (app stranger) (playing stranger)
      ∧ ¬ (app stranger).Names ⟨"app", "", "Player"⟩
      ∧ muting.resolveType (Disk.files towerDisk) ⟨"app", "", "Player"⟩ (playing stranger)
        = .ok ⟨muting.modulePath "app", 0, ⟨"app", "Game", "Player"⟩⟩ (playing stranger) := by
  have opened := playing_opened stranger (Disk.files towerDisk)
  refine ⟨opened, ?_, bind_of_ok opened⟩
  rintro ⟨d, hd, space, _⟩
  rw [List.mem_singleton.1 hd] at space
  exact absurd space (by decide)

/-- Two players, of which one is in a namespace. -/
def players : List TypeDeclaration :=
  [bare "Game" "Player", bare "" "Player"]

/-- Where there is another player without a namespace it is found. A ghost is not. -/
theorem player_found :
    (∃ found m d,
      muting.resolveType (Disk.files towerDisk) ⟨"app", "", "Player"⟩ (playing players)
          = .ok found (playing players)
        ∧ (playing players).module found.path = .ok m ∧ m.types[found.index]? = some d
        ∧ d.space = "" ∧ d.name = "Player")
      ∧ muting.resolveType (Disk.files towerDisk) ⟨"app", "Game", "Ghost"⟩ (playing players)
        = .error (.notDeclared .type "Game.Ghost" "app") (playing players) := by
  have opened := playing_opened players (Disk.files towerDisk)
  have plain : ∀ d ∈ players, '.' ∉ d.name.toList := by decide
  constructor
  · obtain ⟨finds, resolves⟩ := Config.resolveType_names muting (Disk.files towerDisk) (playing players)
      ⟨"app", "", "Player"⟩
    have named : (app players).Names ⟨"app", "", "Player"⟩ :=
      ⟨bare "" "Player", List.mem_cons_of_mem _ (List.mem_cons_self ..), rfl, rfl⟩
    have apart : (app players).TellsApart ⟨"app", "", "Player"⟩ := ⟨by decide, plain, fun _ _ => named⟩
    obtain ⟨found, resolved⟩ := (resolves _ _ opened apart).1 named
    obtain ⟨m, d, path, there, hd, _, tells⟩ := finds found _ resolved
    have same : m = app players := by
      rw [path] at there
      exact Except.ok.inj (there.symm.trans (Store.module_of_openModule opened))
    subst same
    obtain ⟨space, name⟩ := tells apart
    exact ⟨found, _, d, resolved, there, hd, space, name⟩
  · obtain ⟨_, resolves⟩ := Config.resolveType_names muting (Disk.files towerDisk) (playing players)
      ⟨"app", "Game", "Ghost"⟩
    refine (resolves _ _ opened ⟨by decide, plain, fun global => absurd global (by decide)⟩).2 ?_
    have none : ∀ d ∈ players, d.name ≠ "Ghost" := by decide
    exact fun ⟨d, hd, _, name⟩ => none d hd name

end Example

end HookWeave
