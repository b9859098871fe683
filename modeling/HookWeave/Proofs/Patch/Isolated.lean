import HookWeave.Proofs.Hook.Scans
import HookWeave.Proofs.Patch.Effect
import HookWeave.Proofs.Storage.Failures

/-!
# Hooks on their own

A run for good processes the hooks that are found in the hook modules one after another, each with an
ending of its own (`Config.Processes`), and what is found in a module does not depend on the patches that
were applied before (`Config.entries_of_apply`). A hook that fails leaves the tree as it is, so that without
it the others end as they did (`Config.run_isolates`).
-/

namespace HookWeave

/-! ## Endings -/

/-- How the processing of a hook ends. -/
inductive Ending where
  | applied (patch : AppliedPatch) (written : List Path)
  | failed (diagnostic : Diagnostic)

namespace Ending

/-- The patch, if one was applied. -/
def patch? : Ending → Option AppliedPatch
  | applied patch _ => some patch
  | failed _ => none

/-- What could not be done, if the hook failed. -/
def diagnostic? : Ending → Option Diagnostic
  | applied _ _ => none
  | failed diagnostic => some diagnostic

/-- The files that were written. -/
def written : Ending → List Path
  | applied _ written => written
  | failed _ => []

end Ending

namespace Report

/-- The report with one more ending. -/
def note (r : Report) : Ending → Report
  | .applied patch written => r.record patch written
  | .failed diagnostic => r.diagnose diagnostic.subject diagnostic.fault

/-- The report on hooks that ended like that, in their order. -/
def ofEndings (endings : List Ending) : Report :=
  endings.foldl note {}

variable {r : Report} {path q : Path} {paths : List Path} {endings : List Ending}

lemma applied_foldl_addWritten : (paths.foldl addWritten r).applied = r.applied := by
  induction paths generalizing r with
  | nil => rfl
  | cons path paths ih =>
    rw [List.foldl_cons, ih]
    unfold addWritten
    split <;> rfl

lemma diagnostics_foldl_addWritten : (paths.foldl addWritten r).diagnostics = r.diagnostics := by
  induction paths generalizing r with
  | nil => rfl
  | cons path paths ih =>
    rw [List.foldl_cons, ih]
    unfold addWritten
    split <;> rfl

lemma foldl_note : (endings.foldl note r).applied = r.applied ++ endings.filterMap Ending.patch?
    ∧ (endings.foldl note r).diagnostics = r.diagnostics ++ endings.filterMap Ending.diagnostic? := by
  induction endings generalizing r with
  | nil => exact ⟨(List.append_nil _).symm, (List.append_nil _).symm⟩
  | cons ending endings ih =>
    rw [List.foldl_cons]
    refine ⟨ih.1.trans ?_, ih.2.trans ?_⟩
    · cases ending with
      | applied patch written =>
        show ((written.foldl addWritten _).applied ++ _) = _
        rw [applied_foldl_addWritten]
        exact List.append_assoc ..
      | failed => rfl
    · cases ending with
      | applied patch written =>
        show ((written.foldl addWritten _).diagnostics ++ _) = _
        rw [diagnostics_foldl_addWritten]
        rfl
      | failed diagnostic => exact List.append_assoc ..

lemma applied_ofEndings : (ofEndings endings).applied = endings.filterMap Ending.patch? :=
  foldl_note.1

lemma diagnostics_ofEndings : (ofEndings endings).diagnostics = endings.filterMap Ending.diagnostic? :=
  foldl_note.2

/-- Which files are added depends on those that are listed only. -/
lemma written_foldl_addWritten {r' : Report} (same : r'.written = r.written) :
    (paths.foldl addWritten r').written = (paths.foldl addWritten r).written := by
  induction paths generalizing r r' with
  | nil => exact same
  | cons path paths ih =>
    refine ih ?_
    unfold addWritten
    rw [same]
    split
    · exact same
    · rfl

/-- Files that are written are listed once each, whatever they are called. -/
structure Lists (r : Report) (paths : List Path) : Prop where
  distinct : (r.written.map Path.components).Nodup
  sound : ∀ q ∈ r.written, q ∈ paths
  complete : ∀ p ∈ paths, ∃ q ∈ r.written, q.same p = true

lemma Lists.addWritten (h : r.Lists paths) : (r.addWritten path).Lists (paths ++ [path]) := by
  unfold Report.addWritten
  split
  · next known =>
    obtain ⟨q, hq, same⟩ := List.any_eq_true.1 known
    refine ⟨h.distinct, fun q hq => List.mem_append_left _ (h.sound q hq), ?_⟩
    exact List.forall_mem_append.2 ⟨h.complete, List.forall_mem_singleton.2 ⟨q, hq, same⟩⟩
  · next fresh =>
    refine ⟨?_, List.forall_mem_append.2 ⟨fun q hq => List.mem_append_left _ (h.sound q hq),
      List.forall_mem_singleton.2 (List.mem_append_right _ (List.mem_singleton_self _))⟩, ?_⟩
    · show ((r.written ++ [path]).map Path.components).Nodup
      rw [List.map_append, List.nodup_append]
      refine ⟨h.distinct, List.nodup_singleton _, fun a ha b hb same => ?_⟩
      obtain ⟨q, hq, rfl⟩ := List.mem_map.1 ha
      cases List.mem_singleton.1 hb
      exact fresh (List.any_eq_true.2 ⟨q, hq, Path.same_iff.2 same⟩)
    · refine List.forall_mem_append.2 ⟨fun p hp => ?_, List.forall_mem_singleton.2
        ⟨path, List.mem_append_right _ (List.mem_singleton_self _), Path.same_iff.2 rfl⟩⟩
      obtain ⟨q, hq, same⟩ := h.complete p hp
      exact ⟨q, List.mem_append_left _ hq, same⟩

lemma Lists.foldl_addWritten {more : List Path} (h : r.Lists paths) :
    (more.foldl Report.addWritten r).Lists (paths ++ more) := by
  induction more generalizing r paths with
  | nil => rwa [List.append_nil]
  | cons path more ih =>
    rw [List.foldl_cons, List.append_cons]
    exact ih h.addWritten

lemma Lists.foldl_note (h : r.Lists paths) :
    (endings.foldl note r).Lists (paths ++ endings.flatMap Ending.written) := by
  induction endings generalizing r paths with
  | nil =>
    rw [List.flatMap_nil, List.append_nil]
    exact h
  | cons ending endings ih =>
    rw [List.foldl_cons, List.flatMap_cons, ← List.append_assoc]
    refine ih ?_
    cases ending with
    | applied patch written =>
      refine Lists.foldl_addWritten (r := { r with applied := r.applied ++ [patch] }) ?_
      exact ⟨h.distinct, h.sound, h.complete⟩
    | failed =>
      show Lists _ (paths ++ [])
      rw [List.append_nil]
      exact ⟨h.distinct, h.sound, h.complete⟩

lemma lists_ofEndings : (ofEndings endings).Lists (endings.flatMap Ending.written) := by
  have none : Lists {} [] := ⟨List.nodup_nil, nofun, nofun⟩
  exact none.foldl_note

end Report

/-! ## Hooks that are found -/

namespace Config

variable {c : Config} {marker : MethodRef} {r : PatchRequest} {path : Path} {hook : ScannedHook}
  {hooks : List ScannedHook} {fs fs' : FileSystem} {report : Report}

/-- What is processed for a hook module: what its patch attributes gave, or the reason why it cannot be
read, under the path of its file. -/
def entries (c : Config) (files : Files) (path : Path) : List ScannedHook :=
  let path := c.resolvePath path
  match Module.ofFile files path with
  | .error e => [⟨path.text, .error (.moduleUnreadable path.text e)⟩]
  | .ok m => c.conventions.scan m

/-- A hook module is processed entry by entry. -/
lemma processModule_eq {σ : Type} [Disk σ] {disk : σ} :
    c.processModule marker (report, disk) path
      = (c.entries (Disk.files disk) path).foldl (c.process marker) (report, disk) := by
  unfold processModule entries
  dsimp only
  cases Module.ofFile (Disk.files disk) (c.resolvePath path) with
  | ok m => rfl
  | error e => rfl

/-- What is found in hook modules is requested by them. -/
lemma requests_of_mem_entries {files : Files} (h : hook ∈ c.entries files path)
    (made : hook.request = .ok r) : c.conventions.Requests r := by
  unfold entries at h
  dsimp only at h
  cases read : Module.ofFile files (c.resolvePath path) with
  | error e =>
    rw [read] at h
    cases List.mem_singleton.1 h
    cases made
  | ok m =>
    rw [read] at h
    obtain ⟨image, _, read⟩ := Module.ofFile_eq_ok.1 read
    exact ⟨image, m, hook, read, h, made⟩

/-- The marker is declared in the module that it is looked for in. -/
lemma declared_of_markerConstructor {files : Files} (h : c.markerConstructor files = .ok marker) :
    marker.Declared := by
  obtain ⟨m, read, h⟩ := bind_eq_ok.1 h
  obtain ⟨index, _, h⟩ := bind_eq_ok.1 h
  obtain ⟨n, _, h⟩ := bind_eq_ok.1 h
  obtain ⟨method, at', h⟩ := bind_eq_ok.1 h
  obtain ⟨type, named, same⟩ := bind_eq_ok.1 h
  cases same
  obtain ⟨image, _, read⟩ := Module.ofFile_eq_ok.1 (mapError_eq_ok.1 read)
  obtain ⟨t, typed, same⟩ := bind_eq_ok.1 named
  cases same
  have typed := Module.typeAt_eq_ok.1 typed
  exact ⟨image, m, t, method, read, List.mem_of_getElem? typed,
    List.mem_of_getElem? ((Module.methodAt_eq_ok typed).1 at'), rfl⟩

end Config

/-! ## Patched modules -/

lemma flatMap_modify {α β : Type} {f : α → α} {g : α → List β} {as : List α} {k : Nat}
    (same : ∀ a, as[k]? = some a → g (f a) = g a) : (as.modify k f).flatMap g = as.flatMap g := by
  have kept : (as.modify k f).map g = as.map g := by
    refine List.ext_getElem? fun i => ?_
    rw [List.getElem?_map, List.getElem?_map, List.getElem?_modify, Option.map_eq_map, Option.map_map]
    cases at' : as[i]? with
    | none => rfl
    | some a =>
      show some (g (if k = i then f a else a)) = some (g a)
      split
      · next here => rw [same a (here ▸ at')]
      · rfl
  rw [List.flatMap_def, kept, List.flatMap_def]

namespace Conventions

variable {c : Conventions} {m : Module} {t : TypeDeclaration} {old : MethodDeclaration} {k n : Nat}

/-- In a patched module the same hooks are found, for the method differs in its body only. -/
lemma scan_patched {fields : List FieldDeclaration} {scopes : List String} {body : Option MethodBody}
    (type : m.types[k]? = some t) (at' : t.methods[n]? = some old) :
    c.scan (m.patched k fields n { old with body } scopes) = c.scan m := by
  rw [scan_eq, scan_eq]
  refine flatMap_modify fun t' there => ?_
  cases type.symm.trans there
  show (if c.isProvider t then (t.methods.set n { old with body }).flatMap (c.scanMethod m.name t) else [])
    = _
  have methods : (t.methods.set n { old with body }).flatMap (c.scanMethod m.name t)
      = t.methods.flatMap (c.scanMethod m.name t) := by
    rw [List.set_eq_modify]
    refine flatMap_modify fun old' there' => ?_
    cases at'.symm.trans there'
    rfl
  rw [methods]
  rfl

end Conventions

/-! ## Modules in trees -/

section

variable {fs fs' : FileSystem} {path q : Path} {image : Bytes} {m : Module}

/-- Paths that lead to one file give one module. -/
lemma Module.ofFile_of_follow (leads : fs.follow q = fs.follow path) :
    Module.ofFile (Disk.files fs) q = Module.ofFile (Disk.files fs) path := by
  have same : fs.read q = fs.read path := by
    unfold FileSystem.read
    rw [leads]
  unfold Module.ofFile FileData.ofFile
  rw [show Disk.files fs q = Disk.files fs path from same]

/-- From a file that was replaced the module of the image is read, whatever path leads to it. -/
lemma FileSystem.Replaces.ofFile_self (h : fs.Replaces fs' path image) (leads : fs.follow q = fs.follow path)
    (read : Module.ofBytes image = .ok m) : Module.ofFile (Disk.files fs') q = .ok m := by
  rw [Module.ofFile_of_follow ((h.follow q).trans (leads.trans (h.follow path).symm))]
  exact Module.ofFile_eq_ok.2 ⟨image, h.file, read⟩

lemma FileSystem.Replaces.ofFile_others (h : fs.Replaces fs' path image)
    (differs : fs.follow q ≠ fs.follow path) :
    Module.ofFile (Disk.files fs') q = Module.ofFile (Disk.files fs) q := by
  unfold Module.ofFile FileData.ofFile
  rw [show Disk.files fs' q = _ from h.others q differs]
  rfl

end

/-! ## Processing -/

/-- Next to no file of a module is there anything where its image would be staged or the file be kept. -/
def Config.Uncluttered (c : Config) (fs : FileSystem) : Prop :=
  ∀ scope, Disk.occupied fs (c.modulePath scope) = true →
    Disk.occupied fs (Store.staging (c.modulePath scope)) = false
      ∧ Disk.occupied fs (Store.backup (c.modulePath scope)) = false

/-- The hooks are processed one after another, and end as listed. A hook that fails, without a request or
with one that cannot be applied, leaves the tree as it is. -/
inductive Config.Processes (c : Config) (marker : MethodRef) :
    FileSystem → List (ScannedHook × Ending) → FileSystem → Prop
  | done {fs : FileSystem} : Processes c marker fs [] fs
  | applies {fs fs₁ fs' : FileSystem} {hook : ScannedHook} {r : PatchRequest} {patch : AppliedPatch}
      {written : List Path} {rest : List (ScannedHook × Ending)} :
    hook.request = .ok r → c.apply marker r fs = .ok (patch, written) fs₁ →
    Processes c marker fs₁ rest fs' →
    Processes c marker fs ((hook, .applied patch written) :: rest) fs'
  | fails {fs fs' : FileSystem} {hook : ScannedHook} {d : Diagnostic}
      {rest : List (ScannedHook × Ending)} :
    (∀ report, c.process marker (report, fs) hook = (report.diagnose d.subject d.fault, fs)) →
    Processes c marker fs rest fs' →
    Processes c marker fs ((hook, .failed d) :: rest) fs'

/-- The second list is the first one without some of the hooks that failed. -/
inductive LeavesOut : List (ScannedHook × Ending) → List (ScannedHook × Ending) → Prop
  | done : LeavesOut [] []
  | keeps {e : ScannedHook × Ending} {l l' : List (ScannedHook × Ending)} :
    LeavesOut l l' → LeavesOut (e :: l) (e :: l')
  | drops {hook : ScannedHook} {d : Diagnostic} {l l' : List (ScannedHook × Ending)} :
    LeavesOut l l' → LeavesOut ((hook, .failed d) :: l) l'

namespace LeavesOut

variable {l l' : List (ScannedHook × Ending)}

/-- The patches that were applied stay. -/
lemma filterMap_patch? (h : LeavesOut l l') :
    l'.filterMap (·.2.patch?) = l.filterMap (·.2.patch?) := by
  induction h with
  | done => rfl
  | keeps _ ih => rw [List.filterMap_cons, List.filterMap_cons, ih]
  | drops _ ih => exact ih

/-- The files that were written stay. -/
lemma written_foldl_note (h : LeavesOut l l') {r r' : Report} (same : r'.written = r.written) :
    ((l'.map (·.2)).foldl Report.note r').written = ((l.map (·.2)).foldl Report.note r).written := by
  induction h generalizing r r' with
  | done => exact same
  | @keeps e _ _ _ ih =>
    refine ih ?_
    obtain ⟨_, ending⟩ := e
    cases ending with
    | applied patch written => exact Report.written_foldl_addWritten same
    | failed => exact same
  | drops _ ih => exact ih same

end LeavesOut

namespace Config

variable {c : Config} {marker : MethodRef} {r : PatchRequest} {path : Path} {hook : ScannedHook}
  {hooks : List ScannedHook} {fs fs₁ fs' : FileSystem} {report : Report} {patch : AppliedPatch}
  {written : List Path} {trace trace' : List (ScannedHook × Ending)} {e : Fault}

namespace Processes

/-- Hooks that are processed give a report of their endings. -/
lemma foldl (h : c.Processes marker fs trace fs') (report : Report) :
    (trace.map (·.1)).foldl (c.process marker) (report, fs)
      = ((trace.map (·.2)).foldl Report.note report, fs') := by
  induction h generalizing report with
  | done => rfl
  | @applies fs fs₁ fs' hook r patch written rest made ran _ ih =>
    have processed : c.process marker (report, fs) hook = (report.record patch written, fs₁) := by
      simp only [process, made, ran]
    rw [List.map_cons, List.foldl_cons, processed, ih]
    rfl
  | @fails fs fs' hook d rest ran _ ih =>
    rw [List.map_cons, List.foldl_cons, ran, ih]
    rfl

/-- Without some of the hooks that failed the others end as they did, and the tree is the same after
them. -/
lemma leavesOut (h : c.Processes marker fs trace fs') (without : LeavesOut trace trace') :
    c.Processes marker fs trace' fs' := by
  induction h generalizing trace' with
  | done =>
    cases without
    exact .done
  | applies made ran _ ih =>
    cases without with
    | keeps without => exact .applies made ran (ih without)
  | fails ran _ ih =>
    cases without with
    | keeps without => exact .fails ran (ih without)
    | drops without => exact ih without

lemma append {more : List (ScannedHook × Ending)} (h : c.Processes marker fs trace fs₁)
    (others : c.Processes marker fs₁ more fs') : c.Processes marker fs (trace ++ more) fs' := by
  induction h with
  | done => exact others
  | applies made ran _ ih => exact .applies made ran (ih others)
  | fails ran _ ih => exact .fails ran (ih others)

end Processes

/-! ## One request -/

/-- A request that is not applied for good changes nothing: it cannot be worked out, or the module cannot
be written. -/
lemma of_apply_eq_error (effective : c.dryRun = false) (clear : c.Uncluttered fs)
    (h : c.apply marker r fs = .error e fs') :
    fs' = fs ∧ ((∃ store, c.weave (Disk.files fs) marker r .empty = .error e store)
      ∨ e.Unwritten (c.modulePath r.targetType.scope)) := by
  unfold Config.apply at h
  rw [edit_get_bind] at h
  cases woven : c.weave (Disk.files fs) marker r .empty with
  | error e' store =>
    rw [woven] at h
    cases h
    exact ⟨rfl, .inl ⟨store, rfl⟩⟩
  | ok patch store =>
    rw [woven] at h
    simp only [effective, Bool.false_eq_true, if_false] at h
    obtain ⟨before, p, read, makes, rfl, holds⟩ := of_weave_eq_ok woven
    obtain ⟨bytes, file, _⟩ := Module.ofFile_eq_ok.1 read
    have one := holds.dirtyPaths_eq rfl fun q n opened =>
      congrArg Module.dirty (loaded_of_ofFile opened).parts
    obtain ⟨unstaged, unkept⟩ := clear _ (FileSystem.occupied_of_read file)
    have unwritten (e : Fault) (refused : store.image (c.modulePath r.targetType.scope) = .error e) :
        e.Unwritten (c.modulePath r.targetType.scope) := by
      obtain ⟨others, modules, _⟩ := holds
      exact Store.unwritten_of_image (modules ▸ List.mem_cons_self ..) refused
    cases committed : store.commit fs with
    | ok result fs₁ =>
      rw [bind_of_ok committed] at h
      cases h
    | error e' fs₁ =>
      rw [bind_of_error committed] at h
      cases h
      obtain ⟨same, blamed⟩ :=
        FileSystem.of_commit_eq_error one file unstaged unkept unwritten committed
      exact ⟨same, .inr blamed⟩

section

variable (effective : c.dryRun = false) (declared : marker.Declared) (clear : c.Uncluttered fs)
include effective declared clear

/-- What an applied request replaces. -/
lemma replaces_of_clear (requested : c.conventions.Requests r)
    (h : c.apply marker r fs = .ok (patch, written) fs') :
    ∃ before p method image, Module.ofFile (Disk.files fs) (c.modulePath r.targetType.scope) = .ok before
      ∧ c.Makes (Disk.files fs) marker r before p
      ∧ patch = ⟨r.hookName, r.targetName, r.kind, p.fields.map (·.name)⟩
      ∧ written = [c.modulePath r.targetType.scope]
      ∧ p.woven.ReadBack method
      ∧ fs.Replaces fs' (c.modulePath r.targetType.scope) image
      ∧ Module.ofBytes image
        = .ok (before.patched p.typeIndex p.fields p.methodIndex method (p.scopes marker r.hook)) := by
  obtain ⟨store, _, woven, _⟩ := HookWeave.of_apply_eq_ok effective h
  obtain ⟨before, p, read, _⟩ := of_weave_eq_ok woven
  obtain ⟨bytes, file, _⟩ := Module.ofFile_eq_ok.1 read
  obtain ⟨unstaged, unkept⟩ := clear _ (FileSystem.occupied_of_read file)
  exact replaces_of_apply effective requested declared unstaged unkept h

/-- An applied request leaves nothing next to the files of modules. -/
lemma uncluttered_of_apply (requested : c.conventions.Requests r)
    (h : c.apply marker r fs = .ok (patch, written) fs') : c.Uncluttered fs' := by
  obtain ⟨_, _, _, _, _, _, _, _, _, replaces, _⟩ := replaces_of_clear effective declared clear requested h
  have same (q : Path) : Disk.occupied fs' q = Disk.occupied fs q := replaces.occupied q
  intro scope there
  rw [same] at there ⊢
  rw [same]
  exact clear scope there

/-- In hook modules the same is found after a request was applied, also where it changed them. -/
lemma entries_of_apply (requested : c.conventions.Requests r)
    (h : c.apply marker r fs = .ok (patch, written) fs') :
    c.entries (Disk.files fs') path = c.entries (Disk.files fs) path := by
  obtain ⟨before, p, method, image, read, makes, _, _, back, replaces, after⟩ :=
    replaces_of_clear effective declared clear requested h
  unfold entries
  dsimp only
  by_cases here : fs.follow (c.resolvePath path) = fs.follow (c.modulePath r.targetType.scope)
  · -- The hook module is the one that was patched.
    rw [Module.ofFile_of_follow here, read, replaces.ofFile_self here after]
    obtain ⟨body, _, rfl⟩ := back
    obtain ⟨body', same, _⟩ := Weaving.body_of_weave_eq_ok makes.woven
    have found : c.conventions.scan (before.patched p.typeIndex p.fields p.methodIndex
        { p.method with body } (p.scopes marker r.hook)) = c.conventions.scan before :=
      Conventions.scan_patched makes.type makes.method
    rw [same]
    exact found
  · rw [replaces.ofFile_others here]

/-- A hook is applied or fails and leaves the tree as it is. -/
lemma exists_ending (requested : ∀ r, hook.request = .ok r → c.conventions.Requests r) :
    ∃ ending fs', c.Processes marker fs [(hook, ending)] fs' ∧ c.Uncluttered fs'
      ∧ ∀ path, c.entries (Disk.files fs') path = c.entries (Disk.files fs) path := by
  cases made : hook.request with
  | error e =>
    refine ⟨.failed ⟨hook.hook, e⟩, fs, .fails (fun report => ?_) .done, clear, fun _ => rfl⟩
    simp only [process, made]
  | ok r =>
    cases ran : c.apply marker r fs with
    | ok result fs₁ =>
      obtain ⟨patch, written⟩ := result
      exact ⟨_, fs₁, .applies made ran .done,
        uncluttered_of_apply effective declared clear (requested r made) ran,
        fun path => entries_of_apply effective declared clear (requested r made) ran⟩
    | error e fs₁ =>
      obtain ⟨rfl, _⟩ := of_apply_eq_error effective clear ran
      refine ⟨.failed ⟨r.arrow, e⟩, fs₁, .fails (fun report => ?_) .done, clear, fun _ => rfl⟩
      simp only [process, made, ran]

/-! ## Runs -/

lemma exists_processes (requested : ∀ hook ∈ hooks, ∀ r, hook.request = .ok r → c.conventions.Requests r) :
    ∃ trace fs', trace.map (·.1) = hooks ∧ c.Processes marker fs trace fs' ∧ c.Uncluttered fs'
      ∧ ∀ path, c.entries (Disk.files fs') path = c.entries (Disk.files fs) path := by
  induction hooks generalizing fs with
  | nil => exact ⟨[], fs, rfl, .done, clear, fun _ => rfl⟩
  | cons hook hooks ih =>
    obtain ⟨here, others⟩ := List.forall_mem_cons.1 requested
    obtain ⟨ending, fs₁, processes, clear₁, found⟩ := exists_ending effective declared clear here
    obtain ⟨trace, fs', rfl, processes', clear', found'⟩ := ih clear₁ others
    exact ⟨(hook, ending) :: trace, fs', rfl, processes.append processes', clear',
      fun path => (found' path).trans (found path)⟩

/-- Hook modules are processed like what is found in them in the first place. -/
lemma exists_processes_modules (hookModules : List Path) (report : Report) :
    ∃ trace fs', trace.map (·.1) = hookModules.flatMap (c.entries (Disk.files fs))
      ∧ c.Processes marker fs trace fs'
      ∧ hookModules.foldl (c.processModule marker) (report, fs)
        = ((trace.map (·.2)).foldl Report.note report, fs') := by
  induction hookModules generalizing fs report with
  | nil => exact ⟨[], fs, rfl, .done, rfl⟩
  | cons path hookModules ih =>
    obtain ⟨trace, fs₁, hooks, processes, clear₁, found⟩ :=
      exists_processes effective declared clear fun hook (mem : hook ∈ c.entries (Disk.files fs) path) r =>
        requests_of_mem_entries mem
    obtain ⟨trace', fs', hooks', processes', ran⟩ :=
      ih clear₁ ((trace.map (·.2)).foldl Report.note report)
    refine ⟨trace ++ trace', fs', ?_, processes.append processes', ?_⟩
    · rw [List.map_append, hooks, hooks', List.flatMap_cons]
      exact congrArg _ (congrArg (List.flatMap · hookModules) (funext found))
    · rw [List.foldl_cons, processModule_eq, ← hooks, processes.foldl, ran, List.map_append,
        List.foldl_append]

omit effective declared clear in
/-- Of an applied request the file of the target's module is written. -/
lemma Processes.applied (h : c.Processes marker fs trace fs') (effective : c.dryRun = false)
    (declared : marker.Declared) (clear : c.Uncluttered fs)
    (requested : ∀ e ∈ trace, ∀ r, e.1.request = .ok r → c.conventions.Requests r) :
    ∀ e ∈ trace, ∀ patch written, e.2 = .applied patch written → ∃ r, e.1.request = .ok r
      ∧ patch.hook = r.hookName ∧ patch.target = r.targetName ∧ patch.kind = r.kind
      ∧ written = [c.modulePath r.targetType.scope] := by
  induction h with
  | done => exact nofun
  | @applies fs fs₁ fs' hook r patch written rest made ran _ ih =>
    obtain ⟨here, others⟩ := List.forall_mem_cons.1 requested
    refine List.forall_mem_cons.2 ⟨fun patch' written' same => ?_, ih ?_ others⟩
    · cases same
      obtain ⟨_, p, _, _, _, _, rfl, rfl, _⟩ :=
        replaces_of_clear effective declared clear (here r made) ran
      exact ⟨r, made, rfl, rfl, rfl, rfl⟩
    · exact uncluttered_of_apply effective declared clear (here r made) ran
  | fails ran _ ih =>
    obtain ⟨_, others⟩ := List.forall_mem_cons.1 requested
    exact List.forall_mem_cons.2 ⟨nofun, ih clear others⟩

end

/-- A run for good processes what the hook modules hold, and reports how it ends. -/
lemma exists_trace (hookModules : List Path) (effective : c.dryRun = false)
    (marked : c.markerConstructor (Disk.files fs) = .ok marker) (clear : c.Uncluttered fs) :
    ∃ trace fs', c.run hookModules fs = .ok (.ofEndings (trace.map (·.2))) fs'
      ∧ trace.map (·.1) = hookModules.flatMap (c.entries (Disk.files fs))
      ∧ c.Processes marker fs trace fs'
      ∧ ∀ e ∈ trace, ∀ r, e.1.request = .ok r → c.conventions.Requests r := by
  obtain ⟨trace, fs', hooks, processes, ran⟩ :=
    exists_processes_modules effective (declared_of_markerConstructor marked) clear hookModules {}
  refine ⟨trace, fs', ?_, hooks, processes, fun e he r => ?_⟩
  · unfold run
    simp only [marked, ran]
    rfl
  · have found : e.1 ∈ trace.map (·.1) := List.mem_map_of_mem he
    rw [hooks] at found
    obtain ⟨path, _, found⟩ := List.mem_flatMap.1 found
    exact requests_of_mem_entries found

/-- Failing requests are isolated, and nothing is lost. A run for good processes what the hook modules hold,
all found as if nothing had been patched, each with one ending: a patch that was applied or a diagnostic,
which are reported in this order. What ends in a diagnostic leaves the tree as it is. With any of these
left out the others end as they did, with the same tree after them. Each file is listed once as written,
and listed are the files of the modules of applied patches. -/
theorem run_isolates (hookModules : List Path) (effective : c.dryRun = false)
    (marked : c.markerConstructor (Disk.files fs) = .ok marker) (clear : c.Uncluttered fs) :
    ∃ trace report fs', c.run hookModules fs = .ok report fs'
      ∧ trace.map (·.1) = hookModules.flatMap (c.entries (Disk.files fs))
      ∧ c.Processes marker fs trace fs'
      ∧ report.applied = trace.filterMap (·.2.patch?)
      ∧ report.diagnostics = trace.filterMap (·.2.diagnostic?)
      ∧ (∀ trace', LeavesOut trace trace' → c.Processes marker fs trace' fs'
        ∧ ∃ report', (trace'.map (·.1)).foldl (c.process marker) ({}, fs) = (report', fs')
          ∧ report'.applied = report.applied ∧ report'.written = report.written
          ∧ report'.diagnostics = trace'.filterMap (·.2.diagnostic?))
      ∧ (report.written.map Path.components).Nodup
      ∧ (∀ q ∈ report.written, ∃ e ∈ trace, ∃ patch written r, e.2 = .applied patch written
        ∧ e.1.request = .ok r ∧ q = c.modulePath r.targetType.scope)
      ∧ ∀ e ∈ trace, ∀ patch written r, e.2 = .applied patch written → e.1.request = .ok r →
        ∃ q ∈ report.written, q.same (c.modulePath r.targetType.scope) = true := by
  obtain ⟨trace, fs', ran, hooks, processes, requested⟩ := exists_trace hookModules effective marked clear
  have applied := processes.applied effective (declared_of_markerConstructor marked) clear requested
  have lists : (Report.ofEndings (trace.map (·.2))).Lists _ := Report.lists_ofEndings
  refine ⟨trace, .ofEndings (trace.map (·.2)), fs', ran, hooks, processes, ?_, ?_, fun trace' without => ?_,
    lists.distinct, fun q hq => ?_, fun e he patch written r ended made => ?_⟩
  · rw [Report.applied_ofEndings, List.filterMap_map]
    rfl
  · rw [Report.diagnostics_ofEndings, List.filterMap_map]
    rfl
  · have processes' := processes.leavesOut without
    have ran' : _ = (Report.ofEndings (trace'.map (·.2)), fs') := processes'.foldl {}
    refine ⟨processes', _, ran', ?_, ?_, ?_⟩
    · rw [Report.applied_ofEndings, Report.applied_ofEndings, List.filterMap_map, List.filterMap_map]
      exact without.filterMap_patch?
    · exact without.written_foldl_note rfl
    · rw [Report.diagnostics_ofEndings, List.filterMap_map]
      rfl
  · obtain ⟨ending, listed, mem⟩ := List.mem_flatMap.1 (lists.sound q hq)
    obtain ⟨e, he, rfl⟩ := List.mem_map.1 listed
    cases ended : e.2 with
    | failed =>
      rw [ended] at mem
      cases mem
    | applied patch written =>
      obtain ⟨r, made, _, _, _, rfl⟩ := applied e he patch written ended
      rw [ended] at mem
      exact ⟨e, he, patch, _, r, ended, made, List.mem_singleton.1 mem⟩
  · obtain ⟨r', made', _, _, _, rfl⟩ := applied e he patch written ended
    cases made.symm.trans made'
    refine lists.complete _ (List.mem_flatMap.2 ⟨e.2, List.mem_map_of_mem he, ?_⟩)
    rw [ended]
    exact List.mem_singleton_self _

end Config

/-! ## An example -/

namespace Example

/-- A disk with the module of the bell and that of the hook. -/
def belfry : FileSystem :=
  ⟨towerDisk.entries ++ [(["mod.dll"], .file muteImage)]⟩

/-- Fields are marked as of the hook's module. -/
def marking : Config :=
  { muting with marker := "Mark" }

/-- The names of the files in the belfry do not end otherwise. -/
lemma belfry_free {p : Path} {suffix : String} (isSuffix : Path.IsSuffix suffix)
    (apart : suffix.toList.getLast? ≠ some 'l') : Disk.occupied belfry (p.withSuffix suffix) = false := by
  refine Bool.eq_false_iff.2 fun (there : belfry.occupied (p.withSuffix suffix) = true) => ?_
  obtain ⟨init, last, split⟩ := Path.exists_pieces_eq p.text.toList
  unfold FileSystem.occupied at there
  cases leads : belfry.follow (p.withSuffix suffix) with
  | error e =>
    rw [leads] at there
    cases there
  | ok l =>
    rw [leads] at there
    obtain ⟨_, d, _, _, _, rfl⟩ := (FileSystem.follow_withSuffix_eq_ok isSuffix split).1 leads
    have ends : (last ++ suffix.toList).getLast? ≠ some 'l' := by
      have : suffix.toList ≠ [] := List.ne_nil_of_length_pos (Nat.zero_lt_of_lt isSuffix.long)
      rwa [List.getLast?_append_of_ne_nil _ this]
    have absent : belfry.entries.lookup (d ++ [String.ofList (last ++ suffix.toList)]) = none := by
      refine List.lookup_eq_none_iff.2 fun entry hentry => bne_iff_ne.2 fun same => ends ?_
      have named : ∀ e ∈ belfry.entries, e.1.getLast?.bind (·.toList.getLast?) = some 'l' := by decide
      have := named entry hentry
      rwa [← same, List.getLast?_concat, Option.bind_some, String.toList_ofList] at this
    dsimp only at there
    rw [FileSystem.get?_of_ne_nil (List.concat_ne_nil _ _), absent] at there
    cases there

lemma marker_belfry : marking.markerConstructor (Disk.files belfry) = .ok (makes "Mark") := by
  decide +kernel

lemma uncluttered_belfry : marking.Uncluttered belfry := fun _ _ =>
  ⟨belfry_free isSuffix_tmp (by decide), belfry_free isSuffix_bak (by decide)⟩

/-- The bell is muted or not, whatever becomes of the module that is not there. -/
theorem belfry_muted :
    marking.dryRun = false ∧ marking.markerConstructor (Disk.files belfry) = .ok (makes "Mark")
      ∧ marking.Uncluttered belfry
      ∧ ∃ (trace : List (ScannedHook × Ending)) (report : Report) (fs' : FileSystem),
          marking.run [⟨"mod.dll"⟩, ⟨"gone.dll"⟩] belfry = .ok report fs'
        ∧ trace.map (·.1.hook) = ["Mute::mute", "gone.dll"]
        ∧ marking.Processes (makes "Mark") belfry trace fs'
        ∧ report.applied = trace.filterMap (·.2.patch?)
        ∧ report.diagnostics = trace.filterMap (·.2.diagnostic?)
        ∧ (report.written.map Path.components).Nodup := by
  obtain ⟨trace, report, fs', ran, hooks, processes, applied, diagnostics, _, distinct, _⟩ :=
    Config.run_isolates [⟨"mod.dll"⟩, ⟨"gone.dll"⟩] rfl marker_belfry uncluttered_belfry
  have named : (trace.map (·.1)).map (·.hook) = ["Mute::mute", "gone.dll"] := by
    rw [hooks]
    decide +kernel
  rw [List.map_map] at named
  exact ⟨rfl, marker_belfry, uncluttered_belfry, trace, report, fs', ran, named, processes, applied,
    diagnostics, distinct⟩

end Example
end HookWeave
