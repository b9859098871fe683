import HookWeave.Proofs.Patch.Drifts
import HookWeave.Proofs.Patch.Injections
import HookWeave.Proofs.Storage.Entries

/-!
# Staying inside the root

A request names modules by scopes, which are texts that anybody may have chosen. As long as there are no
slashes in the names of their files, the work on a request stays in the directory of the modules
(`Config.apply_stays_inside`): what it reads, opens and writes are entries of that directory, named after
the scopes. With slashes it gets anywhere (`Example.bell_muted_elsewhere`).
-/

namespace HookWeave

/-- The name of the file of a module. -/
def Config.fileName (c : Config) (scope : String) : String :=
  scope ++ "." ++ c.extension

/-- The scopes of the modules that a request is about. -/
def PatchRequest.scopes (r : PatchRequest) : List String :=
  r.targetType.scope :: r.injected.map (·.scope)

/-- The path of a module is the entry of its name in the directory of the modules. -/
def Config.Within (c : Config) (scope : String) : Prop :=
  (c.modulePath scope).IsEntry c.root (c.fileName scope)

/-- The work on a request stays in the directory of the modules. -/
structure Config.StaysInside (c : Config) (marker : MethodRef) (r : PatchRequest) (fs : FileSystem) :
    Prop where
  /-- Nothing but the files of the scopes has a part in it. -/
  reads : ∀ files, (∀ scope ∈ r.scopes, files (c.modulePath scope) = Disk.files fs (c.modulePath scope)) →
    c.weave files marker r .empty = c.weave (Disk.files fs) marker r .empty
  /-- What it opens, also when it fails, are entries that are named after scopes. -/
  opens : ∀ e ∈ (after (c.weave (Disk.files fs) marker r .empty)).modules,
    ∃ scope ∈ r.scopes, e.1 = c.modulePath scope ∧ c.Within scope
  /-- A module that would be elsewhere cannot be opened. -/
  refuses : ∀ scope ∈ r.scopes, ¬ c.Within scope → ∀ s : Store, s.isOpen (c.modulePath scope) = false →
    ∃ e, Store.openModule (Disk.files fs) (c.modulePath scope) s
      = .error (.moduleUnreadable (c.modulePath scope).text e) s
  /-- A target that would be elsewhere is refused. -/
  aims : ¬ c.Within r.targetType.scope → ∃ e, c.apply marker r fs
    = .error (.moduleUnreadable (c.modulePath r.targetType.scope).text e) fs
  /-- What it says that it has written is the entry that is named after the target's scope. -/
  writes : ∀ patch written fs', c.apply marker r fs = .ok (patch, written) fs' →
    ∀ p ∈ written, p = c.modulePath r.targetType.scope ∧ c.Within r.targetType.scope
  /-- However it ends, it leaves everything else as it was, but for what is next to that entry under the
  names for a staged image and for a file that is kept. -/
  spares : ∀ l : Location, (∀ suffix ∈ ["", ".tmp", ".bak"],
      ¬ c.root.location ++ [c.fileName r.targetType.scope ++ suffix] <+: l) →
    (after (c.apply marker r fs)).get? l = fs.get? l

variable {c : Config} {marker : MethodRef} {r : PatchRequest} {files files' : Files} {fs : FileSystem}
  {scope : String} {path : Path} {s : Store} {near : Path → Prop}

/-! ## What is read -/

lemma Module.ofFile_congr (same : files path = files' path) :
    Module.ofFile files path = Module.ofFile files' path := by
  unfold Module.ofFile FileData.ofFile
  rw [same]

lemma Store.openModule_congr (same : files path = files' path) :
    Store.openModule files path = Store.openModule files' path := by
  unfold Store.openModule
  rw [Module.ofFile_congr same]

lemma mapM_congr_of_mem {α β : Type} {f g : α → Store.Edit β} {as : List α} (h : ∀ a ∈ as, f a = g a) :
    as.mapM f = as.mapM g := by
  induction as with
  | nil => rfl
  | cons a as ih =>
    obtain ⟨first, others⟩ := List.forall_mem_cons.1 h
    rw [List.mapM_cons, List.mapM_cons, first, ih others]

namespace Config

lemma resolveType_congr {t : TypeRef} (same : files (c.modulePath t.scope) = files' (c.modulePath t.scope)) :
    c.resolveType files t = c.resolveType files' t := by
  show (Store.openModule files (c.modulePath t.scope) >>= _) = Store.openModule files' _ >>= _
  rw [Store.openModule_congr same]

lemma injectField_congr {target : ResolvedType} {t : TypeRef}
    (same : files (c.modulePath t.scope) = files' (c.modulePath t.scope)) :
    c.injectField files marker target t = c.injectField files' marker target t := by
  unfold injectField
  rw [resolveType_congr same]

lemma weave_congr (same : ∀ scope ∈ r.scopes, files (c.modulePath scope) = files' (c.modulePath scope)) :
    c.weave files marker r = c.weave files' marker r := by
  obtain ⟨target, injected⟩ := List.forall_mem_cons.1 same
  have fields : ∀ owner, r.injected.mapM (c.injectField files marker owner)
      = r.injected.mapM (c.injectField files' marker owner) := fun owner =>
    mapM_congr_of_mem fun t ht => injectField_congr (injected _ (List.mem_map_of_mem ht))
  unfold weave
  simp only [resolveType_congr target, fields]

end Config

/-! ## What is opened -/

/-- The open modules were read from files at certain paths. -/
def Store.ReadFrom (files : Files) (near : Path → Prop) (s : Store) : Prop :=
  ∀ e ∈ s.modules, near e.1 ∧ ∃ m, Module.ofFile files e.1 = .ok m

namespace Store

variable {α : Type}

lemma readFrom_empty : ReadFrom files near empty :=
  nofun

lemma ReadFrom.replace (h : s.ReadFrom files near) (m : Module) : (s.replace path m).ReadFrom files near := by
  intro e he
  obtain ⟨e', he', rfl⟩ := List.mem_map.1 he
  split
  · exact h e' he'
  · exact h e' he'

lemma keeps_change (f : Module → Except Fault (α × Module)) :
    Keeps (ReadFrom files near) (change path f) :=
  (keeps_query _).bind fun _ _ _ _ => Keeps.bind (fun _ holds => holds.replace _) fun _ _ _ _ =>
    keeps_pure _

lemma keeps_openModule (here : near path) : Keeps (ReadFrom files near) (openModule files path) := by
  intro s holds
  obtain same | ⟨m, closed, read, inserted⟩ := openModule_cases files path s
  · rw [same]
    exact holds
  · rw [inserted]
    exact List.forall_mem_append.2 ⟨holds, List.forall_mem_singleton.2 ⟨here, m, read⟩⟩

end Store

namespace Config

lemma keeps_injectField {target : ResolvedType} {t : TypeRef} (here : near (c.modulePath t.scope)) :
    Keeps (Store.ReadFrom files near) (c.injectField files marker target t) := by
  refine (Store.keeps_query _).bind fun _ _ _ _ => .ite (keeps_pure _) ?_
  refine (keeps_resolveType (Store.keeps_openModule here)).bind fun _ _ _ _ => ?_
  refine (Store.keeps_query _).bind fun _ _ _ _ => ?_
  exact (Store.keeps_change _).bind fun _ _ _ _ => keeps_pure _

/-- What is opened for a request was read from the files of its scopes. -/
lemma keeps_weave (here : ∀ scope ∈ r.scopes, near (c.modulePath scope)) :
    Keeps (Store.ReadFrom files near) (c.weave files marker r) := by
  obtain ⟨target, injected⟩ := List.forall_mem_cons.1 here
  refine (keeps_resolveType (Store.keeps_openModule target)).bind fun _ _ _ _ => ?_
  refine (Store.keeps_query _).bind fun _ _ _ _ => ?_
  refine (keeps_mapM fun t ht => ?_).bind fun _ _ _ _ => ?_
  · exact keeps_injectField (injected _ (List.mem_map_of_mem ht))
  · exact (Store.keeps_change _).bind fun _ _ _ _ => keeps_pure _

/-! ## What is written -/

lemma isPiece_fileName (plain : '/' ∉ (c.fileName scope).toList) : Path.IsPiece (c.fileName scope) where
  plain := plain
  filled := by
    intro none
    have dotted := (String.append_eq_empty_iff.1 (String.append_eq_empty_iff.1 none).1).2
    exact absurd dotted (by decide)

/-- A module that can be read is at an entry. -/
lemma within_of_ofFile {m : Module} (plain : '/' ∉ (c.fileName scope).toList)
    (read : Module.ofFile (Disk.files fs) (c.modulePath scope) = .ok m) : c.Within scope := by
  obtain ⟨bytes, reads, _⟩ := Module.ofFile_eq_ok.1 read
  exact FileSystem.isEntry_of_read (isPiece_fileName plain) reads

/-- A module that would be elsewhere cannot be read. -/
lemma exists_error_of_not_within (plain : '/' ∉ (c.fileName scope).toList) (elsewhere : ¬ c.Within scope) :
    ∃ e, Module.ofFile (Disk.files fs) (c.modulePath scope) = .error e := by
  cases read : Module.ofFile (Disk.files fs) (c.modulePath scope) with
  | error e => exact ⟨e, rfl⟩
  | ok m => exact absurd (within_of_ofFile plain read) elsewhere

section

variable {σ : Type} [Disk σ] {disk disk' : σ} {patch : AppliedPatch} {written : List Path}

/-- The disk is left as it is, or as the commit of the work leaves it. -/
lemma after_apply (c : Config) (marker : MethodRef) (r : PatchRequest) (disk : σ) :
    after (c.apply marker r disk) = disk
      ∨ ∃ patch s, c.weave (Disk.files disk) marker r .empty = .ok patch s
        ∧ after (c.apply marker r disk) = after (s.commit disk) := by
  cases woven : c.weave (Disk.files disk) marker r .empty with
  | error e s =>
    rw [apply_of_weave_error woven]
    exact .inl rfl
  | ok patch s =>
    rw [apply_of_weave_ok woven]
    split
    · exact .inl rfl
    · refine .inr ⟨patch, s, rfl, ?_⟩
      cases committed : s.commit disk with
      | ok result disk' =>
        rw [bind_of_ok committed]
        rfl
      | error e disk' =>
        rw [bind_of_error committed]
        rfl

lemma written_of_commit {s' : Store} (h : s.commit disk = .ok (written, s') disk') :
    written = s.dirtyPaths := by
  unfold Store.commit at h
  obtain ⟨_, _, _, h⟩ := edit_bind_eq_ok.1 h
  obtain ⟨_, _, _, h⟩ := edit_bind_eq_ok.1 h
  obtain ⟨_, _, _, h⟩ := edit_bind_eq_ok.1 h
  cases h
  rfl

/-- What is said to be written are modules that were changed in the work on the request. -/
lemma written_of_apply (h : c.apply marker r disk = .ok (patch, written) disk') (listed : path ∈ written) :
    ∃ s, c.weave (Disk.files disk) marker r .empty = .ok patch s ∧ path ∈ s.dirtyPaths := by
  obtain ⟨s, woven, rfl | ⟨_, committed⟩⟩ := weave_of_apply h
  · cases listed
  · exact ⟨s, woven, written_of_commit committed ▸ listed⟩

end

/-- The module of the target's type is all that a commit has to write. -/
lemma dirtyPaths_of_weave {patch : AppliedPatch} (h : c.weave files marker r .empty = .ok patch s) :
    s.dirtyPaths = [c.modulePath r.targetType.scope] := by
  obtain ⟨before, p, _, _, _, holds⟩ := of_weave_eq_ok h
  exact holds.dirtyPaths_eq rfl fun q n opened => congrArg Module.dirty (loaded_of_ofFile opened).parts

/-- A module that is patched is at an entry. -/
lemma within_of_weave {patch : AppliedPatch} (plain : '/' ∉ (c.fileName r.targetType.scope).toList)
    (h : c.weave (Disk.files fs) marker r .empty = .ok patch s) : c.Within r.targetType.scope := by
  obtain ⟨before, _, read, _⟩ := of_weave_eq_ok h
  exact within_of_ofFile plain read

/-- What a commit may touch for the sake of a module at an entry are entries next to it. -/
lemma location_of_touched (plain : '/' ∉ (c.fileName scope).toList) (within : c.Within scope)
    (touched : path ∈ Store.touched (c.modulePath scope)) :
    ∃ suffix ∈ ["", ".tmp", ".bak"], path.location = c.root.location ++ [c.fileName scope ++ suffix] := by
  have next {suffix : String} (h : Path.IsSuffix suffix) : ((c.modulePath scope).withSuffix suffix).location
      = c.root.location ++ [c.fileName scope ++ suffix] := by
    have piece := isPiece_fileName plain
    have long {text : String} (short : text.toList.length ≤ 2) : c.fileName scope ++ suffix ≠ text := by
      rintro rfl
      have size : 2 < suffix.toList.length := h.long
      rw [String.toList_append, List.length_append] at short
      omega
    have joined := Path.withSuffix_join c.root piece h.plain
    exact (congrArg Path.location joined).trans
      (Path.isEntry_join c.root (piece.append h.plain) (long (by decide)) (long (by decide))).location_eq
  obtain rfl | touched := List.mem_cons.1 touched
  · exact ⟨"", by decide, by rw [within.location_eq, String.append_empty]⟩
  obtain rfl | touched := List.mem_cons.1 touched
  · exact ⟨".tmp", by decide, next isSuffix_tmp⟩
  · cases List.mem_singleton.1 touched
    exact ⟨".bak", by decide, next isSuffix_bak⟩

/-- The work on a request whose scopes make names without slashes stays in the directory of the
modules. -/
theorem apply_stays_inside (c : Config) (marker : MethodRef) (r : PatchRequest) (fs : FileSystem)
    (plain : ∀ scope ∈ r.scopes, '/' ∉ (c.fileName scope).toList) : c.StaysInside marker r fs := by
  have target := plain r.targetType.scope List.mem_cons_self
  exact
    { reads := fun files same => congrFun (weave_congr same) .empty
      opens := by
        intro e he
        have kept : Keeps (Store.ReadFrom (Disk.files fs) fun p => ∃ scope ∈ r.scopes, p = c.modulePath scope)
            (c.weave (Disk.files fs) marker r) := keeps_weave fun scope mem => ⟨scope, mem, rfl⟩
        obtain ⟨⟨scope, mem, here⟩, m, read⟩ := kept .empty Store.readFrom_empty e he
        rw [here] at read
        exact ⟨scope, mem, here, within_of_ofFile (plain scope mem) read⟩
      refuses := by
        intro scope mem elsewhere s closed
        obtain ⟨e, fails⟩ := exists_error_of_not_within (plain scope mem) elsewhere
        refine ⟨e, ?_⟩
        rw [Store.openModule_of_closed closed, fails]
        rfl
      aims := by
        intro elsewhere
        obtain ⟨e, fails⟩ := exists_error_of_not_within target elsewhere
        exact ⟨e, apply_of_weave_error (bind_of_error (resolveType_of_error fails))⟩
      writes := by
        intro patch written fs' applied p hp
        obtain ⟨s, woven, dirty⟩ := written_of_apply applied hp
        rw [dirtyPaths_of_weave woven] at dirty
        exact ⟨List.mem_singleton.1 dirty, within_of_weave target woven⟩
      spares := by
        intro l apart
        obtain same | ⟨patch, s, woven, same⟩ := after_apply c marker r fs
        · rw [same]
        · rw [same]
          refine Store.content_after_commit FileSystem.isLocal (fun p hp q hq => ?_) fs
          rw [dirtyPaths_of_weave woven] at hp
          cases List.mem_singleton.1 hp
          obtain ⟨suffix, mem, location⟩ := location_of_touched target (within_of_weave target woven) hq
          rw [location]
          exact apart suffix mem }

end Config

namespace Example

/-- Modules are in a directory of their own. -/
def gaming : Config :=
  { muting with root := ⟨"game"⟩ }

/-- A disk with the tower in that directory, in a directory in it, and outside. -/
def campus : FileSystem :=
  ⟨[(["game"], .directory), (["game", "mods"], .directory)] ++ towerDisk.entries.flatMap fun e =>
    [e, ("game" :: e.1, e.2), ("game" :: "mods" :: e.1, e.2)]⟩

/-- The hook is asked for in a module of some scope. -/
def muteAt (scope : String) : PatchRequest :=
  ⟨⟨scope, "", "Bell"⟩, "ring", mute, [], true, .before, []⟩

/-- The module with the hook. -/
def quietTower : Module :=
  { tower with
    references := ["mod"]
    types := [⟨"", "Bell", 1, none, [], [], [], [mutedRing]⟩]
    dirty := true }

/-- A store with one module. -/
def towerAt (path : Path) (m : Module) : Store :=
  ⟨[(path, m)], List.nodup_singleton _⟩

lemma replace_towerAt {path : Path} {m m' : Module} : (towerAt path m).replace path m' = towerAt path m' := by
  have modules : ((towerAt path m).replace path m').modules = (towerAt path m').modules :=
    Store.modules_replace rfl
  generalize (towerAt path m).replace path m' = s at modules ⊢
  obtain ⟨_, _⟩ := s
  cases modules
  rfl

/-- The scope of the target has no part in how the hook is woven in. -/
lemma weave_muteAt (scope : String) :
    (⟨gaming.conventions, bell, ring, muteAt scope⟩ : Weaving).weave gaming.verify = .ok mutedRing :=
  weave_ringMuting

lemma apply_muteAt {scope : String} {fs : FileSystem} {written : List Path} {store : Store}
    (read : Module.ofFile (Disk.files campus) (gaming.modulePath scope) = .ok tower)
    (committed : (towerAt (gaming.modulePath scope) quietTower).commit campus = .ok (written, store) fs) :
    gaming.apply (makes "Mark") (muteAt scope) campus
      = .ok (⟨(muteAt scope).hookName, (muteAt scope).targetName, .before, []⟩, written) fs := by
  have resolved : gaming.resolveType (Disk.files campus) (muteAt scope).targetType .empty
      = .ok ⟨gaming.modulePath scope, 0, bell⟩ (towerAt (gaming.modulePath scope) tower) := by
    refine (Config.resolveType_of_read (t := (muteAt scope).targetType) read).trans ?_
    have found : tower.findType (muteAt scope).targetType.fullName = .ok 0 := rfl
    rw [found]
    rfl
  have opened : (towerAt (gaming.modulePath scope) tower).module (gaming.modulePath scope) = .ok tower :=
    Store.module_eq_ok.2 ⟨_, Path.same_iff.2 rfl, List.mem_singleton_self _⟩
  have found : Store.query (ResolvedType.resolveMethod ⟨gaming.modulePath scope, 0, bell⟩ · "ring")
        (towerAt (gaming.modulePath scope) tower)
      = .ok ⟨⟨gaming.modulePath scope, 0, bell⟩, 0, ⟨bell, "ring", ⟨false, .void, []⟩⟩⟩
        (towerAt (gaming.modulePath scope) tower) :=
    Store.query_eq_ok.2 ⟨bind_eq_ok.2 ⟨tower, opened, rfl⟩, rfl⟩
  have replaced : (towerAt (gaming.modulePath scope) tower).replace (gaming.modulePath scope) quietTower
      = towerAt (gaming.modulePath scope) quietTower := replace_towerAt
  refine apply_of_weave rfl ((bind_of_ok resolved).trans ?_) committed
  refine (bind_of_ok found).trans ((bind_of_ok (a := []) rfl).trans ?_)
  refine (bind_of_ok (a := ()) (Store.change_eq_ok.2 ⟨tower, quietTower, opened, ?_, replaced.symm⟩)).trans ?_
  · exact bind_eq_ok.2 ⟨ring, rfl, bind_eq_ok.2 ⟨mutedRing, weave_muteAt scope, rfl⟩⟩
  · rfl

/-- Where the tower is found and can be written, the hook is woven into it. -/
lemma muted_at (scope : String)
    (found : Disk.files campus (gaming.modulePath scope) = Disk.files towerDisk ⟨"app.dll"⟩)
    (goes : wentWell ((towerAt (gaming.modulePath scope) quietTower).commit campus) = true) :
    ∃ patch, gaming.apply (makes "Mark") (muteAt scope) campus = .ok (patch, [gaming.modulePath scope])
      (after ((towerAt (gaming.modulePath scope) quietTower).commit campus)) := by
  have read : Module.ofFile (Disk.files campus) (gaming.modulePath scope) = .ok tower := by
    obtain ⟨image, file, read⟩ := Module.ofFile_eq_ok.1 read_tower
    exact Module.ofFile_eq_ok.2 ⟨image, found.trans file, read⟩
  obtain ⟨⟨written, store⟩, committed⟩ := exists_ok goes
  have applied := apply_muteAt read committed
  have dirty : written = [gaming.modulePath scope] :=
    (Config.written_of_commit committed).trans (List.mergeSort_singleton _)
  rw [dirty] at applied
  exact ⟨_, applied⟩

/-- A request for a module at an entry is applied there, and leaves what is outside as it was. -/
theorem bell_muted_inside :
    (∀ scope ∈ (muteAt "app").scopes, '/' ∉ (gaming.fileName scope).toList)
      ∧ ∃ patch fs, gaming.apply (makes "Mark") (muteAt "app") campus = .ok (patch, [⟨"game/app.dll"⟩]) fs
        ∧ (⟨"game/app.dll"⟩ : Path).IsEntry gaming.root "app.dll"
        ∧ fs.get? ["game", "app.dll"] ≠ campus.get? ["game", "app.dll"]
        ∧ fs.get? ["app.dll"] = campus.get? ["app.dll"] := by
  have plain : ∀ scope ∈ (muteAt "app").scopes, '/' ∉ (gaming.fileName scope).toList := by decide +kernel
  obtain ⟨patch, applied⟩ := muted_at "app" rfl (by decide +kernel)
  have inside := Config.apply_stays_inside gaming (makes "Mark") (muteAt "app") campus plain
  obtain ⟨_, within⟩ := inside.writes _ _ _ applied _ List.mem_cons_self
  refine ⟨plain, patch, _, applied, within, by decide +kernel, ?_⟩
  have spared := inside.spares ["app.dll"] (by decide +kernel)
  rwa [applied] at spared

/-- With slashes in scopes other files are written: one in a directory of the root, and one outside. -/
theorem bell_muted_elsewhere :
    (∃ patch fs, gaming.apply (makes "Mark") (muteAt "mods/app") campus
        = .ok (patch, [⟨"game/mods/app.dll"⟩]) fs
      ∧ (∀ name, ¬ (⟨"game/mods/app.dll"⟩ : Path).IsEntry gaming.root name)
      ∧ fs.get? ["game", "mods", "app.dll"] ≠ campus.get? ["game", "mods", "app.dll"])
    ∧ ∃ patch fs, gaming.apply (makes "Mark") (muteAt "../app") campus
        = .ok (patch, [⟨"game/../app.dll"⟩]) fs
      ∧ (∀ name, ¬ (⟨"game/../app.dll"⟩ : Path).IsEntry gaming.root name)
      ∧ fs.get? ["app.dll"] ≠ campus.get? ["app.dll"] := by
  have elsewhere {p : Path} (steps : List Path.Step) (longer : steps.length = 2)
      (components : p.components = .name "game" :: steps) (name : String) : ¬ p.IsEntry gaming.root name := by
    intro entry
    have root : gaming.root.components = [.name "game"] := by decide +kernel
    have size := congrArg List.length (components.symm.trans (entry.trans (congrArg (· ++ [_]) root)))
    rw [List.length_cons, longer] at size
    cases size
  obtain ⟨patch, applied⟩ := muted_at "mods/app" rfl (by decide +kernel)
  obtain ⟨patch', applied'⟩ := muted_at "../app" rfl (by decide +kernel)
  refine ⟨⟨patch, _, applied, elsewhere [.name "mods", .name "app.dll"] rfl ?_, ?_⟩,
    patch', _, applied', elsewhere [.up, .name "app.dll"] rfl ?_, ?_⟩
  all_goals decide +kernel

end Example
end HookWeave
