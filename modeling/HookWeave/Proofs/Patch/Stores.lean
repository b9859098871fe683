import HookWeave.Patch.Resolve
import HookWeave.Proofs.Storage.Commit

/-!
# The store of a patch

While a patch is worked out its store holds the module that is patched, opened first, and modules that
are only looked into, as their files have them (`Store.Holds`). Whatever is opened, resolved or changed
in the first module keeps it so, and so it is the only one to be written (`Store.Holds.dirtyPaths_eq`).
-/

namespace HookWeave

variable {α : Type} {files : Files} {path q : Path} {m m' n : Module} {s s' : Store}

/-- The data of a file are all of its bytes. -/
lemma FileData.bytes_of_ofBytes {bytes : Bytes} {data : FileData} (h : ofBytes bytes = .ok data) :
    data.bytes = bytes := by
  cases bytes with
  | nil => cases h
  | cons b bytes =>
    cases h
    rfl

lemma Module.ofFile_eq_ok :
    Module.ofFile files path = .ok m ↔ ∃ bytes, files path = .ok bytes ∧ Module.ofBytes bytes = .ok m := by
  constructor
  · intro h
    obtain ⟨data, loaded, read⟩ := bind_eq_ok.1 h
    obtain ⟨bytes, found, checked⟩ := bind_eq_ok.1 loaded
    refine ⟨bytes, mapError_eq_ok.1 found, ?_⟩
    rwa [FileData.bytes_of_ofBytes checked] at read
  · rintro ⟨bytes, found, h⟩
    obtain ⟨data, checked, read⟩ := bind_eq_ok.1 h
    have read : Module.ofBytes data.bytes = .ok m := by
      rwa [FileData.bytes_of_ofBytes checked]
    exact bind_eq_ok.2 ⟨data, bind_eq_ok.2 ⟨bytes, mapError_eq_ok.2 found, checked⟩, read⟩

namespace Store

/-! ## Edits that go well -/

lemma ofExcept_eq_ok {x : Except Fault α} {a : α} :
    ofExcept x s = .ok a s' ↔ x = .ok a ∧ s' = s := by
  cases x with
  | error e => exact ⟨nofun, fun h => nomatch h.1⟩
  | ok b =>
    constructor
    · intro h
      cases h
      exact ⟨rfl, rfl⟩
    · rintro ⟨same, rfl⟩
      cases same
      rfl

lemma query_eq_ok {f : Store → Except Fault α} {a : α} :
    query f s = .ok a s' ↔ f s = .ok a ∧ s' = s :=
  ofExcept_eq_ok

/-- A change that goes well puts another module in the place of the open one. -/
lemma change_eq_ok {f : Module → Except Fault (α × Module)} {a : α} :
    change path f s = .ok a s'
      ↔ ∃ m m', s.module path = .ok m ∧ f m = .ok (a, m') ∧ s' = s.replace path m' := by
  unfold change
  rw [edit_bind_eq_ok]
  constructor
  · rintro ⟨_, _, queried, rest⟩
    obtain ⟨made, rfl⟩ := query_eq_ok.1 queried
    obtain ⟨m, found, changed⟩ := bind_eq_ok.1 made
    cases rest
    exact ⟨m, _, found, changed, rfl⟩
  · rintro ⟨m, m', found, changed, rfl⟩
    exact ⟨(a, m'), s, query_eq_ok.2 ⟨bind_eq_ok.2 ⟨m, found, changed⟩, rfl⟩, rfl⟩

/-- A module that is asked for is the open one, or is read and open then. -/
lemma of_openModule_eq_ok (h : openModule files path s = .ok m s') :
    (s' = s ∧ s.module path = .ok m)
      ∨ ∃ closed, Module.ofFile files path = .ok m ∧ s' = s.insert path m closed := by
  unfold openModule at h
  obtain ⟨_, s₁, got, ran⟩ := edit_bind_eq_ok.1 h
  obtain ⟨edit, chosen, rest⟩ : ∃ edit : Edit Module, _ = edit ∧ edit s₁ = .ok m s' := ⟨_, rfl, ran⟩
  cases got
  split at chosen
  · subst chosen
    obtain ⟨found, rfl⟩ := query_eq_ok.1 rest
    exact .inl ⟨rfl, found⟩
  · next closed =>
    subst chosen
    obtain ⟨_, _, read, set⟩ := edit_bind_eq_ok.1 rest
    obtain ⟨loaded, rfl⟩ := ofExcept_eq_ok.1 read
    cases set
    exact .inr ⟨closed, mapError_eq_ok.1 loaded, rfl⟩

/-- The module in the first place is replaced there. -/
lemma modules_replace {others : List (Path × Module)} (modules : s.modules = (path, m) :: others) :
    (s.replace path m').modules = (path, m') :: others := by
  have distinct := s.distinct
  rw [modules, List.map_cons, List.nodup_cons] at distinct
  show s.modules.map (fun e => if e.1.same path then (e.1, m') else e) = _
  have apart : ∀ e ∈ others, (if e.1.same path then (e.1, m') else e) = e := fun e he =>
    if_neg fun same => distinct.1 (Path.same_iff.1 same ▸ List.mem_map_of_mem he)
  rw [modules, List.map_cons, if_pos (Path.same_iff.2 rfl), List.map_congr_left apart, List.map_id']

/-! ## The module that is patched -/

/-- The store holds a module in the first place, and others as their files have them. -/
def Holds (files : Files) (path : Path) (m : Module) (s : Store) : Prop :=
  ∃ others, s.modules = (path, m) :: others ∧ ∀ e ∈ others, Module.ofFile files e.1 = .ok e.2

namespace Holds

lemma module_self (h : s.Holds files path m) : s.module path = .ok m := by
  obtain ⟨others, modules, _⟩ := h
  exact module_eq_ok.2 ⟨path, Path.same_iff.2 rfl, modules ▸ List.mem_cons_self ..⟩

/-- What is open is the module in the first place, or was read from a file of that path. -/
lemma of_module_eq_ok (h : s.Holds files path m) (found : s.module q = .ok n) :
    (path.same q = true ∧ n = m) ∨ ∃ p, p.same q = true ∧ Module.ofFile files p = .ok n := by
  obtain ⟨others, modules, read⟩ := h
  obtain ⟨p, same, listed⟩ := module_eq_ok.1 found
  rw [modules] at listed
  cases listed with
  | head => exact .inl ⟨same, rfl⟩
  | tail _ listed => exact .inr ⟨p, same, read _ listed⟩

/-- The modules that are opened on the way are left as their files have them. -/
lemma openModule (h : s.Holds files path m) (ok : Store.openModule files q s = .ok n s') :
    s'.Holds files path m ∧ s'.module q = .ok n := by
  obtain ⟨rfl, found⟩ | ⟨closed, read, rfl⟩ := of_openModule_eq_ok ok
  · exact ⟨h, found⟩
  · obtain ⟨others, modules, files⟩ := h
    have listed : (q, n) ∈ (s.insert q n closed).modules :=
      List.mem_append_right _ (List.mem_singleton.2 rfl)
    refine ⟨⟨others ++ [(q, n)], congrArg (· ++ [(q, n)]) modules, ?_⟩, ?_⟩
    · exact List.forall_mem_append.2 ⟨files, List.forall_mem_singleton.2 read⟩
    · exact module_eq_ok.2 ⟨q, Path.same_iff.2 rfl, listed⟩

/-- Another module may be put in the first place. -/
lemma replace (h : s.Holds files path m) : (s.replace path m').Holds files path m' := by
  obtain ⟨others, modules, files⟩ := h
  exact ⟨others, modules_replace modules, files⟩

/-- Only the module that is patched may be written. -/
lemma dirtyPaths_eq (h : s.Holds files path m) (dirty : m.dirty = true)
    (clean : ∀ q n, Module.ofFile files q = .ok n → n.dirty = false) : s.dirtyPaths = [path] := by
  obtain ⟨others, modules, files⟩ := h
  have unchanged : others.filter (·.2.dirty) = [] :=
    List.filter_eq_nil_iff.2 fun e he => Bool.eq_false_iff.1 (clean _ _ (files e he))
  unfold dirtyPaths
  rw [modules, List.filter_cons_of_pos (by exact dirty), unchanged]
  exact List.mergeSort_singleton _

end Holds

/-- The first module to be opened. -/
lemma of_openModule_empty (h : openModule files path empty = .ok m s) :
    Module.ofFile files path = .ok m ∧ s.Holds files path m := by
  obtain ⟨rfl, found⟩ | ⟨closed, read, rfl⟩ := of_openModule_eq_ok h
  · cases found
  · exact ⟨read, [], rfl, List.forall_mem_nil _⟩

end Store
end HookWeave
