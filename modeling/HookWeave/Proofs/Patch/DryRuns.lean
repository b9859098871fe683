import HookWeave.Proofs.Patch.Drifts
import HookWeave.Proofs.Patch.Isolated
import HookWeave.Proofs.Weaving.Again

/-!
# Dry runs

A dry run works every hook out on the tree as it is (`Config.run_dry`). A run for good works it out on the
tree that the patches before it have left. That tree has drifted (`Config.Drifts`): a patch that is applied
adds fields and weaves into a method, and leaves the rest (`Config.Drifts.of_apply`). So a hook ends as it
does in the dry run (`Config.dry_run_foretells`), unless a patch before it has added a field that it asks
for, or, where hooks are not checked, was woven into its target; or unless its module cannot be written, or
its target has no room for one more local.
-/

namespace HookWeave

/-! ## Endings -/

/-- The fault may come in a run for good where a dry run goes well: the module is not written, or the target
has got too many locals. -/
def Fault.Unforeseen (e : Fault) : Prop :=
  e = .malformed .tooManyLocals ∨ ∃ path, e.Unwritten path

/-- The first ending foretells the second: the same patch or the same diagnostic, unless the second is one
that may not be foreseen. -/
inductive Ending.Foretells : Ending → Ending → Prop
  | applied {patch : AppliedPatch} {written written' : List Path} :
    Foretells (.applied patch written) (.applied patch written')
  | failed {d : Diagnostic} : Foretells (.failed d) (.failed d)
  | unforeseen {ending : Ending} {d : Diagnostic} : d.fault.Unforeseen → Foretells ending (.failed d)

/-- If it is foreseen how a hook ends, it is reported alike. -/
lemma Ending.Foretells.reported {ending ending' : Ending} (h : ending.Foretells ending')
    (foreseen : ∀ d, ending'.diagnostic? = some d → ¬ d.fault.Unforeseen) :
    ending.patch? = ending'.patch? ∧ ending.diagnostic? = ending'.diagnostic? := by
  cases h with
  | applied => exact ⟨rfl, rfl⟩
  | failed => exact ⟨rfl, rfl⟩
  | unforeseen unforeseen => exact absurd unforeseen (foreseen _ rfl)

/-- The patches of a trace, each with its request. -/
def patchesOf (trace : List (ScannedHook × Ending)) : List (PatchRequest × AppliedPatch) :=
  trace.filterMap fun e =>
    match e.1.request, e.2 with
    | .ok r, .applied patch _ => some (r, patch)
    | _, _ => none

section

variable {hook : ScannedHook} {r : PatchRequest} {trace : List (ScannedHook × Ending)}

lemma patchesOf_applied {patch : AppliedPatch} {written : List Path} (made : hook.request = .ok r) :
    patchesOf ((hook, .applied patch written) :: trace) = (r, patch) :: patchesOf trace := by
  unfold patchesOf
  rw [List.filterMap_cons]
  simp only [made]

lemma patchesOf_failed {d : Diagnostic} : patchesOf ((hook, .failed d) :: trace) = patchesOf trace := by
  unfold patchesOf
  rw [List.filterMap_cons]
  cases hook.request <;> rfl

end

namespace Config

variable {c : Config} {marker : MethodRef} {r : PatchRequest} {path q : Path} {hook : ScannedHook}
  {fs fs₀ fs' : FileSystem} {patch : AppliedPatch} {written : List Path} {e : Fault}
  {past : List (PatchRequest × AppliedPatch)} {k n : Nat}

/-- How a hook ends that is worked out on files as they are, with nothing written. -/
def foretold (c : Config) (files : Files) (marker : MethodRef) (hook : ScannedHook) : Ending :=
  match hook.request with
  | .error e => .failed ⟨hook.hook, e⟩
  | .ok r =>
    match c.weave files marker r .empty with
    | .ok patch _ => .applied patch []
    | .error e _ => .failed ⟨r.arrow, e⟩

lemma foretold_of_weave {files : Files} {store : Store} (made : hook.request = .ok r)
    (woven : c.weave files marker r .empty = .ok patch store) :
    c.foretold files marker hook = .applied patch [] := by
  unfold foretold
  rw [made]
  dsimp only
  rw [woven]

lemma written_foretold {files : Files} : (c.foretold files marker hook).written = [] := by
  unfold foretold
  cases hook.request with
  | error e => rfl
  | ok r =>
    dsimp only
    cases c.weave files marker r .empty <;> rfl

/-! ## Dry runs -/

/-- The configuration with which nothing is written. -/
def dry (c : Config) : Config :=
  { c with dryRun := true }

section

variable {σ : Type} [Disk σ] {disk : σ} {report : Report}

lemma process_dry : c.dry.process marker (report, disk) hook
    = (report.note (c.foretold (Disk.files disk) marker hook), disk) := by
  unfold process foretold
  cases hook.request with
  | error e => rfl
  | ok r =>
    have ran : c.dry.apply marker r disk = match c.weave (Disk.files disk) marker r .empty with
        | .ok patch _ => .ok (patch, []) disk
        | .error e _ => .error e disk := by
      unfold apply
      rw [edit_get_bind, show c.dry.weave (Disk.files disk) marker r .empty
        = c.weave (Disk.files disk) marker r .empty from rfl]
      cases c.weave (Disk.files disk) marker r .empty with
      | ok patch store => rfl
      | error e store => rfl
    dsimp only
    rw [ran]
    cases c.weave (Disk.files disk) marker r .empty with
    | ok patch store => rfl
    | error e store => rfl

lemma foldl_process_dry {hooks : List ScannedHook} :
    hooks.foldl (c.dry.process marker) (report, disk)
      = ((hooks.map (c.foretold (Disk.files disk) marker)).foldl Report.note report, disk) := by
  induction hooks generalizing report with
  | nil => rfl
  | cons hook hooks ih =>
    rw [List.foldl_cons, process_dry, ih]
    rfl

/-- A dry run changes nothing, and reports what each hook comes to on the files as they are. -/
lemma run_dry (hookModules : List Path) (marked : c.markerConstructor (Disk.files disk) = .ok marker) :
    c.dry.run hookModules disk = .ok (.ofEndings ((hookModules.flatMap (c.entries (Disk.files disk))).map
      (c.foretold (Disk.files disk) marker))) disk := by
  have modules (report : Report) : hookModules.foldl (c.dry.processModule marker) (report, disk)
      = (((hookModules.flatMap (c.entries (Disk.files disk))).map
        (c.foretold (Disk.files disk) marker)).foldl Report.note report, disk) := by
    induction hookModules generalizing report with
    | nil => rfl
    | cons path hookModules ih =>
      rw [List.foldl_cons, processModule_eq, foldl_process_dry, ih, List.flatMap_cons, List.map_append,
        List.foldl_append]
      rfl
  unfold run
  rw [show c.dry.markerConstructor (Disk.files disk) = .ok marker from marked]
  dsimp only
  rw [modules]
  rfl

end

/-! ## Trees that drift -/

/-- A patch is for a method of the module that a path leads to, which is given by its index and that of its
type. -/
structure Touches (c : Config) (fs : FileSystem) (path : Path) (e : PatchRequest × AppliedPatch)
    (k n : Nat) : Prop where
  file : fs.follow (c.modulePath e.1.targetType.scope) = fs.follow path
  aims : c.Aims (Disk.files fs) e.1 k n

/-- Some patch has added a field of the name to the type. -/
def Added (c : Config) (fs : FileSystem) (past : List (PatchRequest × AppliedPatch)) (path : Path) (k : Nat)
    (name : String) : Prop :=
  ∃ e ∈ past, ∃ n, c.Touches fs path e k n ∧ name ∈ e.2.fields

/-- A method is as it was, if no patch was woven into it. If hooks are checked, it looks to them as it did. -/
structure Becomes (c : Config) (fs : FileSystem) (past : List (PatchRequest × AppliedPatch)) (path : Path)
    (k n : Nat) (old new : MethodDeclaration) : Prop where
  untouched : (∀ e ∈ past, ¬ c.Touches fs path e k n) → new = old
  touched : c.verify = true → ∀ e ∈ past, c.Touches fs path e k n → ∃ b b', old.body = some b
    ∧ new.body = some b' ∧ b.Resembles old.returnsValue b'

/-- The tree differs from an earlier one by patches that were applied since. -/
structure Drifts (c : Config) (fs₀ : FileSystem) (past : List (PatchRequest × AppliedPatch))
    (fs : FileSystem) : Prop where
  follow : ∀ q, fs.follow q = fs₀.follow q
  reads : ∀ q, HookWeave.Foretells (fun _ => False) (Module.Drifts (c.Added fs₀ past q) (c.Becomes fs₀ past q))
    (Module.ofFile (Disk.files fs₀) q) (Module.ofFile (Disk.files fs) q)

/-- A patch stands in the way of a request: it has added a field that the request asks for to the type that
the request is for, or, where hooks are not checked, it was woven into the request's method. -/
inductive Hinders (c : Config) (fs : FileSystem) (e : PatchRequest × AppliedPatch) (r : PatchRequest) : Prop
  | field {k n n' : Nat} {t : TypeRef} :
    c.Aims (Disk.files fs) r k n → c.Touches fs (c.modulePath r.targetType.scope) e k n' →
    t ∈ r.injected → injectedFieldName t.name ∈ e.2.fields → Hinders c fs e r
  | method {k n : Nat} :
    c.verify = false → c.Aims (Disk.files fs) r k n →
    c.Touches fs (c.modulePath r.targetType.scope) e k n → Hinders c fs e r

/-- None of the patches stands in the way of what the hook requests. -/
def Unhindered (c : Config) (fs : FileSystem) (past : List (PatchRequest × AppliedPatch)) (hook : ScannedHook) :
    Prop :=
  ∀ r, hook.request = .ok r → ∀ e ∈ past, ¬ c.Hinders fs e r

/-- There is one method that a request is for. -/
lemma Aims.unique {files : Files} {k' n' : Nat} (h : c.Aims files r k n) (h' : c.Aims files r k' n') :
    k = k' ∧ n = n' := by
  obtain ⟨m, read, type, method⟩ := h
  obtain ⟨m', read', type', method'⟩ := h'
  cases read.symm.trans read'
  cases type.symm.trans type'
  cases method.symm.trans method'
  exact ⟨rfl, rfl⟩

/-- A tree in which nothing was patched. -/
lemma Drifts.refl : c.Drifts fs [] fs where
  follow q := rfl
  reads q := by
    refine (HookWeave.Foretells.self _).imp fun m m' _ _ both => ?_
    obtain ⟨rfl, _⟩ := both
    exact .self (fun k n method => ⟨fun _ => rfl, fun _ => nofun⟩) m

/-- The request that a patch attribute makes describes the hook that carries it. -/
lemma describes_of_requests {conventions : Conventions} (h : conventions.Requests r) : r.Describes := by
  obtain ⟨_, _, _, method, _, _, _, hook, params, isStatic⟩ := h.exists_method
  constructor
  · rw [hook, params]
    rfl
  · rw [hook, isStatic]
    rfl

/-- What a hook makes of a method looks to other hooks as the method did. -/
lemma resembles_of_makes {before : Module} {p : Patch} {method old : MethodDeclaration} (loaded : before.Loaded)
    (makes : c.Makes (Disk.files fs) marker r before p) (back : p.woven.ReadBack method)
    (describes : r.Describes) (verified : c.verify = true)
    (same : p.method = { old with body := p.method.body })
    (was : p.method = old ∨ ∃ b b', old.body = some b ∧ p.method.body = some b'
      ∧ b.Resembles old.returnsValue b') :
    ∃ b b', old.body = some b ∧ method.body = some b' ∧ b.Resembles old.returnsValue b' := by
  have woven := makes.woven
  rw [verified] at woven
  obtain ⟨b₁, there⟩ := Weaving.exists_body_of_weave woven
  have writable := (loaded.writable.types.2 p.type (List.mem_of_getElem? makes.type)).methods.2 p.method
    (List.mem_of_getElem? makes.method)
  obtain ⟨b₂, made, resembles⟩ :=
    Weaving.resembles_of_weave woven describes there (writable.body b₁ there).closed
  obtain ⟨body, related, rfl⟩ := back
  rw [made] at related
  obtain ⟨none, _⟩ | ⟨_, b₃, is, rfl, readBack⟩ := rel_cases related
  · cases none
  cases is
  have returns : p.method.returnsValue = old.returnsValue := by
    rw [same]
    rfl
  have resembles := (returns ▸ resembles).same readBack.same
  obtain unchanged | ⟨b, _, was, there', resembles'⟩ := was
  · exact ⟨b₁, b₃, unchanged ▸ there, rfl, resembles⟩
  · cases there.symm.trans there'
    exact ⟨b, b₃, was, rfl, resembles'.trans resembles⟩

/-- A method that a patch is not for becomes what it did before. -/
lemma Becomes.cons {old new : MethodDeclaration} {i j : Nat} (h : c.Becomes fs past q i j old new)
    (apart : ¬ c.Touches fs q (r, patch) i j) : c.Becomes fs ((r, patch) :: past) q i j old new where
  untouched none := h.untouched fun e he => none e (List.mem_cons_of_mem _ he)
  touched verified e he touches := by
    cases List.mem_cons.1 he with
    | inl same => exact absurd (same ▸ touches) apart
    | inr he => exact h.touched verified e he touches

/-- A patch that is applied lets the tree drift on. -/
lemma Drifts.of_apply (drifts : c.Drifts fs₀ past fs) (effective : c.dryRun = false)
    (declared : marker.Declared) (clear : c.Uncluttered fs) (requested : c.conventions.Requests r)
    (h : c.apply marker r fs = .ok (patch, written) fs') : c.Drifts fs₀ ((r, patch) :: past) fs' := by
  obtain ⟨before, p, method, image, read, makes, rfl, _, back, replaces, after⟩ :=
    replaces_of_clear effective declared clear requested h
  -- The patch is for the same method as in the earlier tree.
  have aims : c.Aims (Disk.files fs₀) r p.typeIndex p.methodIndex := by
    obtain ⟨m, m', was, is, drifted⟩ | ⟨e, _, failed⟩ := (drifts.reads (c.modulePath r.targetType.scope)).strict
    · cases is.symm.trans read
      exact ⟨m, was, (drifted.findType_eq _).symm.trans makes.typeFound,
        (drifted.findMethod_eq _ _).symm.trans makes.methodFound⟩
    · cases failed.symm.trans read
  have more {q : Path} (k : Nat) (name : String) (added : c.Added fs₀ past q k name) :
      c.Added fs₀ ((r, ⟨r.hookName, r.targetName, r.kind, p.fields.map (·.name)⟩) :: past) q k name := by
    obtain ⟨e, he, touches⟩ := added
    exact ⟨e, List.mem_cons_of_mem _ he, touches⟩
  refine ⟨fun q => (replaces.follow q).trans (drifts.follow q), fun q => ?_⟩
  by_cases here : fs.follow q = fs.follow (c.modulePath r.targetType.scope)
  · have leads : fs₀.follow (c.modulePath r.targetType.scope) = fs₀.follow q := by
      rw [← drifts.follow, ← drifts.follow, here]
    have touches : c.Touches fs₀ q (r, ⟨r.hookName, r.targetName, r.kind, p.fields.map (·.name)⟩)
        p.typeIndex p.methodIndex := ⟨leads, aims⟩
    rw [replaces.ofFile_self here after]
    obtain ⟨m, m', was, is, drifted⟩ | ⟨e, _, failed⟩ := (drifts.reads q).strict
    · cases is.symm.trans ((Module.ofFile_of_follow here).trans read)
      rw [was]
      refine .ok (drifted.patched makes.type makes.method ?_ more (fun f hf => ?_)
        (fun i j old new apart becomes => becomes.cons fun other => apart (other.aims.unique aims))
        fun old same becomes =>
          ⟨fun none => absurd touches (none _ List.mem_cons_self), fun verified _ _ _ => ?_⟩)
      · obtain ⟨body, _, rfl⟩ := back
        obtain ⟨body', same, _⟩ := Weaving.body_of_weave_eq_ok makes.woven
        rw [same]
      · exact ⟨_, List.mem_cons_self, p.methodIndex, touches, List.mem_map_of_mem hf⟩
      · refine resembles_of_makes (loaded_of_ofFile read) makes back (describes_of_requests requested) verified
          same ?_
        by_cases woven : ∃ e ∈ past, c.Touches fs₀ q e p.typeIndex p.methodIndex
        · obtain ⟨e, he, touched⟩ := woven
          exact .inr (becomes.touched verified e he touched)
        · exact .inl (becomes.untouched fun e he touched => woven ⟨e, he, touched⟩)
    · cases failed.symm.trans ((Module.ofFile_of_follow here).trans read)
  · rw [replaces.ofFile_others here]
    refine (drifts.reads q).imp fun m m' _ _ drifted => drifted.imp more fun k n old new becomes =>
      becomes.cons fun touches => here ?_
    rw [drifts.follow, drifts.follow]
    exact touches.file.symm

/-- What a request comes to in the earlier tree foretells what it comes to, if no patch since then stands in
its way. -/
lemma Drifts.weave (drifts : c.Drifts fs₀ past fs) (marker : MethodRef) (describes : r.Describes)
    (free : ∀ e ∈ past, ¬ c.Hinders fs₀ e r) :
    Store.Foretells (· = .malformed .tooManyLocals) Eq (fun _ _ => True)
      (c.weave (Disk.files fs₀) marker r .empty) (c.weave (Disk.files fs) marker r .empty) := by
  refine weave_foretells (fun q => (drifts.reads q).imp fun _ _ _ _ => Module.Drifts.strays) (drifts.reads _)
    (fun k n aims t mem added => ?_) fun k n aims owner old new same becomes => ?_
  · obtain ⟨e, he, n', touches, named⟩ := added
    exact free e he (.field aims touches mem named)
  · by_cases woven : ∃ e ∈ past, c.Touches fs₀ (c.modulePath r.targetType.scope) e k n
    · obtain ⟨e, he, touches⟩ := woven
      cases verified : c.verify with
      | false => exact absurd (.method verified aims touches) (free e he)
      | true =>
        obtain ⟨b, b', was, is, resembles⟩ := becomes.touched verified e he touches
        rw [is] at same
        rw [same]
        exact Weaving.weave_again (w := ⟨c.conventions, owner, old, r⟩) describes was resembles
    · rw [becomes.untouched fun e he touches => woven ⟨e, he, touches⟩]
      exact (HookWeave.Foretells.self _).imp fun _ _ _ _ _ => trivial

/-! ## Runs -/

/-- A hook whose processing failed has no request, or one that fails in this tree. -/
lemma of_process_failed {d : Diagnostic} (effective : c.dryRun = false) (clear : c.Uncluttered fs)
    (h : ∀ report, c.process marker (report, fs) hook = (report.diagnose d.subject d.fault, fs)) :
    (∃ e, hook.request = .error e ∧ d = ⟨hook.hook, e⟩)
      ∨ ∃ r e, hook.request = .ok r ∧ d = ⟨r.arrow, e⟩
        ∧ ((∃ store, c.weave (Disk.files fs) marker r .empty = .error e store) ∨ e.Unforeseen) := by
  have first := congrArg (fun progress => progress.1.diagnostics) (h {})
  unfold process at first
  cases made : hook.request with
  | error e =>
    rw [made] at first
    exact .inl ⟨e, rfl, (List.cons.inj first).1.symm⟩
  | ok r =>
    rw [made] at first
    dsimp only at first
    cases ran : c.apply marker r fs with
    | ok result fs₁ =>
      rw [ran] at first
      have none : (Report.record {} result.1 result.2).diagnostics = [] :=
        Report.diagnostics_foldl_addWritten
      exact absurd (first.symm.trans none) (List.cons_ne_nil _ _)
    | error e fs₁ =>
      rw [ran] at first
      refine .inr ⟨r, e, rfl, (List.cons.inj first).1.symm, ?_⟩
      obtain ⟨_, failed | unwritten⟩ := of_apply_eq_error effective clear ran
      · exact .inl failed
      · exact .inr (.inr ⟨_, unwritten⟩)

/-- What a hook comes to in the earlier tree foretells that it is applied. -/
lemma Drifts.foretold_of_applies (drifts : c.Drifts fs₀ past fs) (effective : c.dryRun = false)
    (requested : c.conventions.Requests r) (made : hook.request = .ok r)
    (free : ∀ e ∈ past, ¬ c.Hinders fs₀ e r)
    (ran : c.apply marker r fs = .ok (patch, written) fs') :
    (c.foretold (Disk.files fs₀) marker hook).Foretells (.applied patch written) := by
  obtain ⟨store, _, woven, _⟩ := of_apply_eq_ok effective ran
  have foretells := drifts.weave marker (describes_of_requests requested) free
  rw [woven] at foretells
  unfold foretold
  rw [made]
  dsimp only
  cases first : c.weave (Disk.files fs₀) marker r .empty with
  | ok patch' store' =>
    rw [first] at foretells
    cases foretells with
    | ok same =>
      cases same
      exact .applied
  | error e store' =>
    rw [first] at foretells
    cases foretells

/-- What a hook comes to in the earlier tree foretells that it fails, if that can be foreseen. -/
lemma Drifts.foretold_of_fails {d : Diagnostic} (drifts : c.Drifts fs₀ past fs) (effective : c.dryRun = false)
    (clear : c.Uncluttered fs) (requested : ∀ r, hook.request = .ok r → c.conventions.Requests r)
    (free : c.Unhindered fs₀ past hook)
    (ran : ∀ report, c.process marker (report, fs) hook = (report.diagnose d.subject d.fault, fs)) :
    (c.foretold (Disk.files fs₀) marker hook).Foretells (.failed d) := by
  unfold foretold
  obtain ⟨e, made, rfl⟩ | ⟨r, e, made, rfl, ⟨store, failed⟩ | unforeseen⟩ :=
    of_process_failed effective clear ran
  · rw [made]
    exact .failed
  · have foretells := drifts.weave marker (describes_of_requests (requested r made)) (free r made)
    rw [failed] at foretells
    rw [made]
    dsimp only
    cases first : c.weave (Disk.files fs₀) marker r .empty with
    | ok patch store' =>
      rw [first] at foretells
      cases foretells with
      | excused full => exact .unforeseen (.inl full)
    | error e' store' =>
      rw [first] at foretells
      cases foretells with
      | error => exact .failed
      | excused full => exact .unforeseen (.inl full)
  · exact .unforeseen unforeseen

/-- What a hook comes to in the earlier tree foretells how it ends, if no patch since then stands in its
way. -/
lemma Processes.foretold {trace before rest : List (ScannedHook × Ending)} {ending : Ending}
    (h : c.Processes marker fs trace fs') (effective : c.dryRun = false) (declared : marker.Declared)
    (clear : c.Uncluttered fs)
    (requested : ∀ e ∈ trace, ∀ r, e.1.request = .ok r → c.conventions.Requests r)
    (drifts : c.Drifts fs₀ past fs) (split : trace = before ++ (hook, ending) :: rest)
    (free : c.Unhindered fs₀ (past ++ patchesOf before) hook) :
    (c.foretold (Disk.files fs₀) marker hook).Foretells ending := by
  induction h generalizing past before with
  | done => cases before <;> cases split
  | @applies fs fs₁ fs' hook' r patch written others made ran _ ih =>
    obtain ⟨here, requested⟩ := List.forall_mem_cons.1 requested
    cases before with
    | nil =>
      cases split
      exact drifts.foretold_of_applies effective (here r made) made
        (fun e he => free r made e (List.mem_append_left _ he)) ran
    | cons e before =>
      obtain ⟨rfl, tail⟩ := List.cons.inj split
      refine ih (uncluttered_of_apply effective declared clear (here r made) ran) requested
        (drifts.of_apply effective declared clear (here r made) ran) tail fun r' made' e he => ?_
      rw [patchesOf_applied made] at free
      exact free r' made' e (List.perm_middle.mem_iff.2 he)
  | @fails fs fs' hook' d others ran _ ih =>
    obtain ⟨here, requested⟩ := List.forall_mem_cons.1 requested
    cases before with
    | nil =>
      cases split
      exact drifts.foretold_of_fails effective clear here
        (fun r made e he => free r made e (List.mem_append_left _ he)) ran
    | cons e before =>
      obtain ⟨rfl, tail⟩ := List.cons.inj split
      rw [patchesOf_failed] at free
      exact ih clear requested drifts tail free

/-- A run for good comes to what the processing of the hooks comes to that are found. -/
lemma Processes.run_eq {trace : List (ScannedHook × Ending)} {hookModules : List Path}
    (h : c.Processes marker fs trace fs') (effective : c.dryRun = false)
    (marked : c.markerConstructor (Disk.files fs) = .ok marker) (clear : c.Uncluttered fs)
    (hooks : hookModules.flatMap (c.entries (Disk.files fs)) = trace.map (·.1)) :
    c.run hookModules fs = .ok (.ofEndings (trace.map (·.2))) fs' := by
  obtain ⟨trace', fs₁, ran, hooks', h', _⟩ := exists_trace hookModules effective marked clear
  have same : (Report.ofEndings (trace'.map (·.2)), fs₁) = (.ofEndings (trace.map (·.2)), fs') := by
    refine (h'.foldl {}).symm.trans (Eq.trans ?_ (h.foldl {}))
    rw [hooks', hooks]
  obtain ⟨same, rfl⟩ := Prod.ext_iff.1 same
  exact ran.trans (congrArg (EStateM.Result.ok · _) same)

/-- A dry run foretells the run for good. Both fail alike if the marker is not found. Otherwise a dry run
changes nothing, and if nothing is next to the files of modules, both runs process the same hooks. A hook
ends as it does in the dry run, with the same patch or the same diagnostic, if no patch that was applied
before stands in its way, and if what it ends in can be foreseen. If that is so for all hooks, the same is
reported. -/
theorem dry_run_foretells (hookModules : List Path) (effective : c.dryRun = false) :
    (∃ e, c.dry.run hookModules fs = .error e fs ∧ c.run hookModules fs = .error e fs)
    ∨ ∃ marker dry, c.markerConstructor (Disk.files fs) = .ok marker
      ∧ c.dry.run hookModules fs = .ok dry fs ∧ dry.written = []
      ∧ (c.Uncluttered fs → ∃ trace report fs', c.run hookModules fs = .ok report fs'
        ∧ trace.map (·.1) = hookModules.flatMap (c.entries (Disk.files fs))
        ∧ c.Processes marker fs trace fs'
        ∧ report.applied = trace.filterMap (·.2.patch?)
        ∧ report.diagnostics = trace.filterMap (·.2.diagnostic?)
        ∧ dry.applied = trace.filterMap (fun e => (c.foretold (Disk.files fs) marker e.1).patch?)
        ∧ dry.diagnostics = trace.filterMap (fun e => (c.foretold (Disk.files fs) marker e.1).diagnostic?)
        ∧ (∀ before hook ending rest, trace = before ++ (hook, ending) :: rest →
          c.Unhindered fs (patchesOf before) hook →
          (c.foretold (Disk.files fs) marker hook).Foretells ending)
        ∧ ((∀ before hook ending rest, trace = before ++ (hook, ending) :: rest →
            c.Unhindered fs (patchesOf before) hook) →
          (∀ d ∈ report.diagnostics, ¬ d.fault.Unforeseen) →
          dry.applied = report.applied ∧ dry.diagnostics = report.diagnostics)) := by
  cases marked : c.markerConstructor (Disk.files fs) with
  | error e =>
    refine .inl ⟨e, ?_, ?_⟩
    · unfold run
      rw [show c.dry.markerConstructor (Disk.files fs) = .error e from marked]
    · unfold run
      rw [marked]
  | ok marker =>
    refine .inr ⟨marker, _, rfl, run_dry _ marked, ?_, fun clear => ?_⟩
    · refine List.eq_nil_iff_forall_not_mem.2 fun q hq => ?_
      obtain ⟨ending, listed, mem⟩ := List.mem_flatMap.1 (Report.lists_ofEndings.sound q hq)
      obtain ⟨hook, _, rfl⟩ := List.mem_map.1 listed
      rw [written_foretold] at mem
      cases mem
    · have declared := declared_of_markerConstructor marked
      obtain ⟨trace, fs', ran, hooks, processes, requested⟩ := exists_trace hookModules effective marked clear
      have each (before : List (ScannedHook × Ending)) (hook : ScannedHook) (ending : Ending)
          (rest : List (ScannedHook × Ending)) (split : trace = before ++ (hook, ending) :: rest) :=
        processes.foretold effective declared clear requested .refl split
      rw [← hooks]
      refine ⟨trace, .ofEndings (trace.map (·.2)), fs', ran, rfl, processes, ?_, ?_, ?_, ?_, each,
        fun free foreseen => ?_⟩
      · rw [Report.applied_ofEndings, List.filterMap_map]
        rfl
      · rw [Report.diagnostics_ofEndings, List.filterMap_map]
        rfl
      · rw [Report.applied_ofEndings, List.map_map, List.filterMap_map]
        rfl
      · rw [Report.diagnostics_ofEndings, List.map_map, List.filterMap_map]
        rfl
      · rw [Report.diagnostics_ofEndings] at foreseen
        have same (e : ScannedHook × Ending) (he : e ∈ trace) :
            (c.foretold (Disk.files fs) marker e.1).patch? = e.2.patch?
              ∧ (c.foretold (Disk.files fs) marker e.1).diagnostic? = e.2.diagnostic? := by
          obtain ⟨before, rest, split⟩ := List.append_of_mem he
          refine (each before e.1 e.2 rest split (free before e.1 e.2 rest split)).reported fun d is => ?_
          exact foreseen d (List.mem_filterMap.2 ⟨e.2, List.mem_map_of_mem he, is⟩)
        rw [Report.applied_ofEndings, Report.applied_ofEndings, Report.diagnostics_ofEndings,
          Report.diagnostics_ofEndings, List.map_map, List.filterMap_map, List.filterMap_map,
          List.filterMap_map, List.filterMap_map]
        exact ⟨List.filterMap_congr fun e he => (same e he).1, List.filterMap_congr fun e he => (same e he).2⟩

end Config

/-! ## An example -/

namespace Example

/-- What is found in the module of the hook. -/
def muteHook : ScannedHook :=
  ⟨"Mute::mute", .ok muteRequest⟩

/-- What comes of a module that is not there. -/
def goneHook : ScannedHook :=
  ⟨"gone.dll", .error (.moduleUnreadable "gone.dll" (.file .notFound))⟩

lemma entries_mod : marking.entries (Disk.files belfry) ⟨"mod.dll"⟩ = [muteHook] := by
  have hooks : (marking.entries (Disk.files belfry) ⟨"mod.dll"⟩).map (·.hook) = ["Mute::mute"] := by
    decide +kernel
  have requests : (marking.entries (Disk.files belfry) ⟨"mod.dll"⟩).map (·.request.toOption)
      = [some muteRequest] := by decide +kernel
  obtain ⟨hook, same, named⟩ := List.map_eq_singleton_iff.1 hooks
  rw [same] at requests ⊢
  obtain ⟨name, request⟩ := hook
  cases named
  cases request with
  | error e => cases requests
  | ok r =>
    cases requests
    rfl

lemma entries_gone : marking.entries (Disk.files belfry) ⟨"gone.dll"⟩ = [goneHook] :=
  rfl

/-- The patch that adds fields of those names. -/
def mutes (fields : List String) : AppliedPatch :=
  ⟨"Mute::mute", "Bell::ring", .before, fields⟩

lemma replace_towerStore {m m' : Module} : (towerStore m).replace ⟨"app.dll"⟩ m' = towerStore m' := by
  have modules : ((towerStore m).replace ⟨"app.dll"⟩ m').modules = (towerStore m').modules :=
    Store.modules_replace rfl
  generalize (towerStore m).replace ⟨"app.dll"⟩ m' = s at modules ⊢
  obtain ⟨_, _⟩ := s
  cases modules
  rfl

lemma named_muteRequest : muteRequest.hookName = "Mute::mute" ∧ muteRequest.targetName = "Bell::ring" := by
  decide +kernel

/-- What the request comes to, step by step. -/
lemma weave_bell {files : Files} (before hung : Module) {after : Module} {name : Option String}
    {method woven : MethodDeclaration}
    (read : marking.resolveType files bell .empty = .ok ⟨⟨"app.dll"⟩, 0, bell⟩ (towerStore before))
    (found : Store.query (ResolvedType.resolveMethod ⟨⟨"app.dll"⟩, 0, bell⟩ · "ring") (towerStore before)
      = .ok ⟨⟨⟨"app.dll"⟩, 0, bell⟩, 0, ⟨bell, "ring", ⟨false, .void, []⟩⟩⟩ (towerStore before))
    (added : muteRequest.injected.mapM (marking.injectField files (makes "Mark") ⟨⟨"app.dll"⟩, 0, bell⟩)
      (towerStore before) = .ok [name] (towerStore hung))
    (there : hung.methodAt 0 0 = .ok method)
    (weaves : (⟨muting.conventions, bell, method, muteRequest⟩ : Weaving).weave muting.verify = .ok woven)
    (changed : (hung.modifyMethod 0 0 fun _ => woven).map (·.importScope "mod") = .ok after) :
    marking.weave files (makes "Mark") muteRequest .empty
      = .ok (mutes ([name].filterMap id)) (towerStore after) := by
  refine (bind_of_ok read).trans ((bind_of_ok found).trans ((bind_of_ok added).trans ?_))
  obtain ⟨m, replaced, rfl⟩ := map_eq_ok.1 changed
  refine (bind_of_ok (a := ()) (Store.change_eq_ok.2
    ⟨hung, m.importScope "mod", Store.module_eq_ok.2 ⟨_, rfl, List.mem_singleton_self _⟩, ?_,
      replace_towerStore.symm⟩)).trans ?_
  · exact bind_eq_ok.2 ⟨method, there, bind_eq_ok.2 ⟨woven, weaves, bind_eq_ok.2 ⟨m, replaced, rfl⟩⟩⟩
  · show EStateM.Result.ok (⟨muteRequest.hookName, muteRequest.targetName, .before, _⟩ : AppliedPatch) _ = _
    rw [named_muteRequest.1, named_muteRequest.2]
    rfl

set_option maxRecDepth 100000 in
lemma weave_belfry : marking.weave (Disk.files belfry) (makes "Mark") muteRequest .empty
    = .ok (mutes ["_bell"]) (towerStore mutedTower) :=
  weave_bell tower hungTower rfl rfl rfl rfl weave_ringMuting rfl

/-- The belfry with the bell muted. -/
def mutedBelfry : FileSystem :=
  ⟨[(["app.dll"], .file (Image.magic ++ [1, 0, 3, 0x61, 0x70, 0x70, 0, 3, 3, 0x61, 0x70, 0x70, 0, 4, 0x42, 0x65,
    0x6C, 0x6C, 3, 0x6D, 0x6F, 0x64, 0, 4, 0x4D, 0x61, 0x72, 0x6B, 3, 0x6D, 0x6F, 0x64, 0, 4, 0x4D, 0x75, 0x74,
    0x65, 0, 2, 0, 2, 5, 0x2E, 0x63, 0x74, 0x6F, 0x72, 3, 0x20, 0, 1, 0, 3, 4, 0x6D, 0x75, 0x74, 0x65, 3, 0, 0,
    1, 1, 3, 0x6D, 0x6F, 0x64, 1, 1, 0, 0, 0, 0, 4, 0x42, 0x65, 0x6C, 0x6C, 0, 0, 0, 1, 1, 0, 5, 0x5F, 0x62,
    0x65, 0x6C, 0x6C, 3, 6, 0x12, 1, 1, 1, 0, 1, 0x16, 0, 4, 0x72, 0x69, 0x6E, 0x67, 3, 0, 0, 1, 0, 0, 1, 0, 0,
    0, 0, 6, 0x28, 2, 0, 0, 0xA, 0x2A, 0])), (["mod.dll"], .file muteImage)]⟩

lemma apply_belfry : marking.apply (makes "Mark") muteRequest belfry
    = .ok (mutes ["_bell"], [⟨"app.dll"⟩]) mutedBelfry := by
  have goes : (match (towerStore mutedTower).commit belfry with
    | .ok (written, _) fs => decide (written = [⟨"app.dll"⟩] ∧ fs.entries = mutedBelfry.entries)
    | .error _ _ => false) = true := by decide +kernel
  cases committed : (towerStore mutedTower).commit belfry with
  | error e fs =>
    rw [committed] at goes
    cases goes
  | ok result fs =>
    rw [committed] at goes
    obtain ⟨written, store⟩ := result
    obtain ⟨entries⟩ := fs
    obtain ⟨rfl, rfl⟩ := of_decide_eq_true goes
    exact apply_of_weave rfl weave_belfry committed

lemma foretold_muteHook : marking.foretold (Disk.files belfry) (makes "Mark") muteHook
    = .applied (mutes ["_bell"]) [] :=
  Config.foretold_of_weave rfl weave_belfry

/-- The dry run foretells that the bell is muted, and that the other module is not there. -/
theorem belfry_foretold :
    marking.dryRun = false ∧ marking.Uncluttered belfry
      ∧ ∃ dry report fs', marking.dry.run [⟨"mod.dll"⟩, ⟨"gone.dll"⟩] belfry = .ok dry belfry
        ∧ marking.run [⟨"mod.dll"⟩, ⟨"gone.dll"⟩] belfry = .ok report fs'
        ∧ report.applied = [mutes ["_bell"]]
        ∧ report.diagnostics = [⟨"gone.dll", .moduleUnreadable "gone.dll" (.file .notFound)⟩]
        ∧ dry.applied = report.applied ∧ dry.diagnostics = report.diagnostics := by
  have hooks : [⟨"mod.dll"⟩, ⟨"gone.dll"⟩].flatMap (marking.entries (Disk.files belfry))
      = [muteHook, goneHook] := by
    rw [List.flatMap_cons, List.flatMap_cons, entries_mod, entries_gone]
    rfl
  have processes : marking.Processes (makes "Mark") belfry
      [(muteHook, .applied (mutes ["_bell"]) [⟨"app.dll"⟩]),
        (goneHook, .failed ⟨"gone.dll", .moduleUnreadable "gone.dll" (.file .notFound)⟩)] mutedBelfry :=
    .applies rfl apply_belfry (.fails (fun _ => rfl) .done)
  have good := processes.run_eq rfl marker_belfry uncluttered_belfry hooks
  obtain ⟨e, failed, _⟩ | ⟨marker, dry, _, tried, _, rest⟩ :=
    @Config.dry_run_foretells marking belfry [⟨"mod.dll"⟩, ⟨"gone.dll"⟩] rfl
  · cases failed.symm.trans (Config.run_dry _ marker_belfry)
  obtain ⟨trace, report, fs', ran, found, _, _, _, _, _, _, same⟩ := rest uncluttered_belfry
  cases good.symm.trans ran
  refine ⟨rfl, uncluttered_belfry, dry, _, _, tried, ran, rfl, rfl, same ?_ ?_⟩
  · intro before hook ending rest split
    rw [hooks, split, List.map_append] at found
    cases before with
    | nil => exact fun _ _ => nofun
    | cons e before =>
      obtain ⟨_, others⟩ := List.cons.inj found
      cases before with
      | nil =>
        obtain ⟨rfl, _⟩ := List.cons.inj others
        exact nofun
      | cons e' before =>
        obtain ⟨_, none⟩ := List.cons.inj others
        exact absurd none (List.append_ne_nil_of_right_ne_nil _ (List.cons_ne_nil _ _))
  · refine List.forall_mem_singleton.2 ?_
    rintro (full | ⟨path, ⟨cause, encoded⟩ | ⟨cause, written⟩⟩)
    · cases full
    · cases encoded
    · cases written

/-- The method as it is read after that, and the module. -/
def readRing : MethodDeclaration :=
  { ring with body := some ⟨0, false, [], .ofCode [(.call, .method mute), (.ret, .none)], []⟩ }

def readTower : Module :=
  .ofParts "app" ["mod"] [⟨"", "Bell", 1, none, [], [], [bellField], [readRing]⟩]

/-- The instructions with the hook ahead of them once more. -/
def mutedTwice : InstructionList where
  items := [⟨⟨2⟩, .call, .method mute⟩, ⟨⟨0⟩, .call, .method mute⟩, ⟨⟨1⟩, .ret, .none⟩]
  nextId := 3
  nodup := by decide
  below := by decide

open StackDepth in
lemma maxStack_mutedTwice : mutedTwice.maxStack [] false = .ok 0 := by
  refine bind_eq_ok.2 ⟨[], rfl, bind_eq_ok.2 ⟨⟨#[some 0, some 0, some 0], 0⟩, ?_, rfl⟩⟩
  show explore false mutedTwice.index mutedTwice.items.toArray ⟨#[none, none, none], 0⟩ [⟨0, 0⟩] = _
  refine (explore_unknown (by decide) (by decide) rfl rfl rfl).trans ?_
  show explore false mutedTwice.index mutedTwice.items.toArray ⟨#[some 0, none, none], 0⟩ [⟨1, 0⟩] = _
  refine (explore_unknown (by decide) (by decide) rfl rfl rfl).trans ?_
  show explore false mutedTwice.index mutedTwice.items.toArray ⟨#[some 0, some 0, none], 0⟩ [⟨2, 0⟩] = _
  refine (explore_unknown (by decide) (by decide) rfl rfl rfl).trans ?_
  exact explore_nil

def ringMutedTwice : MethodDeclaration :=
  { ring with body := some ⟨0, false, [], mutedTwice, []⟩ }

/-- The hook and the method that it was woven into. -/
def ringMutingAgain : Weaving :=
  ⟨muting.conventions, bell, readRing, muteRequest⟩

lemma weave_ringMutingAgain : ringMutingAgain.weave muting.verify = .ok ringMutedTwice := by
  have checked : ringMutingAgain.check = .ok () := by decide +kernel
  have code : ringMutingAgain.prologue none ⟨0⟩ = .ok [(.call, .method mute)] := by decide +kernel
  refine bind_eq_ok.2 ⟨(), checked, bind_eq_ok.2 ⟨⟨0, false, [], mutedTwice, []⟩, ?_, rfl⟩⟩
  refine bind_eq_ok.2 ⟨_, rfl, ?_⟩
  refine bind_eq_ok.2 ⟨(none, _), rfl, bind_eq_ok.2 ⟨_, code, ?_⟩⟩
  refine bind_eq_ok.2 ⟨⟨0, false, [], mutedTwice, []⟩, by decide +kernel, ?_⟩
  show Except.mapError _ (mutedTwice.maxStack [] false >>= _) = _
  rw [maxStack_mutedTwice]
  rfl

def towerMutedTwice : Module :=
  { readTower with
    types := [⟨"", "Bell", 1, none, [], [], [bellField], [ringMutedTwice]⟩]
    dirty := true }

set_option maxRecDepth 100000 in
lemma weave_mutedBelfry : marking.weave (Disk.files mutedBelfry) (makes "Mark") muteRequest .empty
    = .ok (mutes []) (towerStore towerMutedTwice) :=
  weave_bell readTower readTower rfl rfl rfl rfl weave_ringMutingAgain rfl

lemma apply_mutedBelfry : ∃ written fs', marking.apply (makes "Mark") muteRequest mutedBelfry
    = .ok (mutes [], written) fs' := by
  have goes : (match (towerStore towerMutedTwice).commit mutedBelfry with
    | .ok _ _ => true
    | .error _ _ => false) = true := by decide +kernel
  cases committed : (towerStore towerMutedTwice).commit mutedBelfry with
  | error e fs =>
    rw [committed] at goes
    cases goes
  | ok result fs => exact ⟨_, fs, apply_of_weave rfl weave_mutedBelfry committed⟩

/-- A field that two hooks ask for is added for both of them in a dry run, and only once for good. -/
theorem belfry_muted_twice :
    ∃ dry report fs', marking.dry.run [⟨"mod.dll"⟩, ⟨"mod.dll"⟩] belfry = .ok dry belfry
      ∧ marking.run [⟨"mod.dll"⟩, ⟨"mod.dll"⟩] belfry = .ok report fs'
      ∧ dry.diagnostics = [] ∧ report.diagnostics = []
      ∧ dry.applied = [mutes ["_bell"], mutes ["_bell"]] ∧ report.applied = [mutes ["_bell"], mutes []]
      ∧ dry.applied ≠ report.applied := by
  have hooks : [⟨"mod.dll"⟩, ⟨"mod.dll"⟩].flatMap (marking.entries (Disk.files belfry))
      = [muteHook, muteHook] := by
    rw [List.flatMap_cons, List.flatMap_cons, entries_mod]
    rfl
  obtain ⟨written, fs', again⟩ := apply_mutedBelfry
  have processes : marking.Processes (makes "Mark") belfry
      [(muteHook, .applied (mutes ["_bell"]) [⟨"app.dll"⟩]), (muteHook, .applied (mutes []) written)] fs' :=
    .applies rfl apply_belfry (.applies rfl again .done)
  have tried := Config.run_dry [⟨"mod.dll"⟩, ⟨"mod.dll"⟩] marker_belfry
  rw [hooks, List.map_cons, List.map_cons, List.map_nil, foretold_muteHook] at tried
  have ran := processes.run_eq rfl marker_belfry uncluttered_belfry hooks
  refine ⟨_, _, fs', tried, ran, ?_⟩
  simp only [Report.applied_ofEndings, Report.diagnostics_ofEndings]
  exact ⟨rfl, rfl, rfl, rfl, show [mutes ["_bell"], mutes ["_bell"]] ≠ [mutes ["_bell"], mutes []] by decide⟩

end Example
end HookWeave
