import HookWeave.Proofs.Storage.Trees

/-!
# Files that a commit leaves alone

A commit stages and keeps files next to those of the modules, under names of its own, and does not ask
whether something is there. Other files are left alone, whichever of the steps fail and whether or not the
commit goes well (`Store.commit_spares_others`): a disk on which steps affect nothing but the paths that
they name (`Disk.Local`) holds what it held wherever none of these paths leads.
-/

namespace HookWeave

variable {α β ε ε' σ γ : Type}

/-! ## What computations keep -/

/-- The computation keeps an invariant, whether or not it goes well. -/
def Keeps (I : σ → Prop) (op : EStateM ε σ α) : Prop :=
  ∀ s, I s → I (after (op s))

section

variable {I : σ → Prop} {op : EStateM ε σ α} {f : α → EStateM ε σ β}

lemma keeps_pure (a : α) : Keeps I (pure a : EStateM ε σ α) :=
  fun _ holds => holds

lemma keeps_throw (e : ε) : Keeps I (throw e : EStateM ε σ α) :=
  fun _ holds => holds

/-- What comes next need keep the invariant only with what the first part can give. -/
lemma Keeps.bind (first : Keeps I op) (second : ∀ s a s', op s = .ok a s' → Keeps I (f a)) :
    Keeps I (op >>= f) := by
  intro s holds
  have kept := first s holds
  cases ran : op s with
  | ok a s' =>
    rw [ran] at kept
    rw [bind_of_ok ran]
    exact second s a s' ran s' kept
  | error e s' =>
    rw [ran] at kept
    rw [bind_of_error ran]
    exact kept

lemma keeps_get_bind {f : σ → EStateM ε σ β} (h : ∀ s, Keeps I (f s)) : Keeps I (get >>= f) :=
  fun s holds => h s s holds

lemma Keeps.tryCatch {handle : ε → EStateM ε σ α} (first : Keeps I op)
    (handled : ∀ e, Keeps I (handle e)) : Keeps I (tryCatch op handle) := by
  intro s holds
  have kept := first s holds
  cases ran : op s with
  | ok a s' =>
    rw [ran] at kept
    rw [tryCatch_of_ok ran]
    exact kept
  | error e s' =>
    rw [ran] at kept
    rw [tryCatch_of_error ran]
    exact handled e s' kept

lemma Keeps.ite {c : Prop} [Decidable c] {op' : EStateM ε σ α} (h : Keeps I op) (h' : Keeps I op') :
    Keeps I (if c then op else op') := by
  split
  · exact h
  · exact h'

lemma keeps_forM {step : γ → EStateM ε σ PUnit} {xs : List γ} (h : ∀ x ∈ xs, Keeps I (step x)) :
    Keeps I (xs.forM step) := by
  induction xs with
  | nil => exact keeps_pure _
  | cons x xs ih =>
    obtain ⟨first, others⟩ := List.forall_mem_cons.1 h
    exact first.bind fun _ _ _ _ => ih others

lemma keeps_mapM {step : γ → EStateM ε σ β} {xs : List γ} (h : ∀ x ∈ xs, Keeps I (step x)) :
    Keeps I (xs.mapM step) := by
  induction xs with
  | nil =>
    rw [List.mapM_nil]
    exact keeps_pure _
  | cons x xs ih =>
    obtain ⟨first, others⟩ := List.forall_mem_cons.1 h
    rw [List.mapM_cons]
    exact first.bind fun _ _ _ _ => (ih others).bind fun _ _ _ _ => keeps_pure _

lemma Keeps.attempt {op : DiskOp σ Unit} (h : Keeps I op) :
    Keeps I (Disk.attempt op : EStateM ε σ Unit) := by
  intro s holds
  have kept := h s holds
  unfold Disk.attempt
  cases ran : op s with
  | ok a s' | error e s' =>
    rw [ran] at kept
    exact kept

lemma Keeps.writing {op : DiskOp σ α} (p : Path) (h : Keeps I op) : Keeps I (Disk.writing p op) := by
  intro s holds
  have kept := h s holds
  show I (after (EStateM.adaptExcept _ _ s))
  rw [EStateM.adaptExcept]
  cases ran : op s with
  | ok a s' | error e s' =>
    rw [ran] at kept
    exact kept

end

/-! ## Commits -/

/-- Steps affect nothing but what belongs to the paths that they name, whether or not they go well. -/
structure Disk.Local (σ : Type) [Disk σ] {κ τ : Type} (content : σ → κ → τ) (owns : Path → κ → Prop) :
    Prop where
  write : ∀ q data (s : σ) k, ¬ owns q k → content (after (Disk.write q data s)) k = content s k
  rename : ∀ q r (s : σ) k, ¬ owns q k → ¬ owns r k →
    content (after (Disk.rename q r s)) k = content s k
  remove : ∀ q (s : σ) k, ¬ owns q k → content (after (Disk.remove q s)) k = content s k

namespace Store

/-- The paths that a commit may touch for the sake of a module: its own, that of the staged image and
that of the file that is kept. -/
def touched (p : Path) : List Path :=
  [p, staging p, backup p]

/-- Steps on the paths of a module keep the invariant. -/
structure Spares (I : σ → Prop) [Disk σ] (p : Path) : Prop where
  write : ∀ q ∈ touched p, ∀ data, Keeps I (Disk.write (σ := σ) q data)
  rename : ∀ q ∈ touched p, ∀ r ∈ touched p, Keeps I (Disk.rename (σ := σ) q r)
  remove : ∀ q ∈ touched p, Keeps I (Disk.remove (σ := σ) q)

variable [Disk σ] {I : σ → Prop} {s : Store} {p : Path} {ps rest : List Path}

lemma self_touched : p ∈ touched p :=
  List.mem_cons_self

lemma staging_touched : staging p ∈ touched p :=
  List.mem_cons_of_mem _ List.mem_cons_self

lemma backup_touched : backup p ∈ touched p :=
  List.mem_cons_of_mem _ (List.mem_cons_of_mem _ List.mem_cons_self)

lemma keeps_discardStaged (spares : ∀ p ∈ ps, Spares I p) : Keeps I (discardStaged (σ := σ) ps) :=
  keeps_forM fun p hp => ((spares p hp).remove _ staging_touched).attempt

lemma keeps_writeImage (spares : Spares I p) : Keeps I (s.writeImage (σ := σ) p (staging p)) := by
  unfold writeImage
  split
  · exact (spares.write _ staging_touched _).writing p
  · exact keeps_throw _

lemma keeps_stage (done : List Path) (spares : ∀ p ∈ done ++ rest, Spares I p) :
    Keeps I (s.stage (σ := σ) done rest) := by
  induction rest generalizing done with
  | nil => exact keeps_pure _
  | cons p rest ih =>
    have append : done ++ p :: rest = (done ++ [p]) ++ rest := by
      rw [List.append_assoc, List.singleton_append]
    rw [append] at spares
    have staged : ∀ q ∈ done ++ [p], Spares I q := fun q hq => spares q (List.mem_append_left _ hq)
    refine Keeps.bind (.tryCatch ?_ fun e => ?_) fun _ _ _ _ => ih (done ++ [p]) spares
    · exact keeps_writeImage (staged p (List.mem_append_right _ List.mem_cons_self))
    · exact (keeps_discardStaged staged).bind fun _ _ _ _ => keeps_throw e

lemma keeps_swap (spares : Spares I p) : Keeps I (swap (σ := σ) p) := by
  have aside := spares.rename _ self_touched _ backup_touched
  have place := spares.rename _ staging_touched _ self_touched
  have back := spares.rename _ backup_touched _ self_touched
  refine keeps_get_bind fun s => ?_
  have rest : Keeps I (do
      try
        Disk.rename (staging p) p
      catch e =>
        if Disk.occupied s p = true then
          Disk.attempt (Disk.rename (backup p) p)
        throw e
      return Disk.occupied s p : DiskOp σ Bool) := by
    refine (place.tryCatch fun e => ?_).bind fun _ _ _ _ => keeps_pure _
    exact .ite (back.attempt.bind fun _ _ _ _ => keeps_throw e) (keeps_throw e)
  exact .ite (aside.bind fun _ _ _ _ => rest) rest

lemma keeps_undo {r : Swapped} (spares : Spares I r.path) : Keeps I (r.undo (σ := σ)) :=
  .attempt (.ite (spares.rename _ backup_touched _ self_touched) (spares.remove _ self_touched))

lemma keeps_swapAll (done : List Swapped) (undone : ∀ r ∈ done, Spares I r.path)
    (spares : ∀ p ∈ rest, Spares I p) : Keeps I (swapAll (σ := σ) done rest) := by
  induction rest generalizing done with
  | nil => exact keeps_pure _
  | cons p rest ih =>
    obtain ⟨here, others⟩ := List.forall_mem_cons.1 spares
    refine Keeps.bind (.tryCatch ((keeps_swap here).writing p) fun e => ?_) fun _ existed _ _ => ?_
    · refine (keeps_forM fun r hr => keeps_undo (undone r hr)).bind fun _ _ _ _ => ?_
      exact (keeps_discardStaged spares).bind fun _ _ _ _ => keeps_throw e
    · exact ih (⟨p, existed⟩ :: done) (List.forall_mem_cons.2 ⟨here, undone⟩) others

/-- What was replaced is among what was to be replaced. -/
lemma path_of_swapAll {done rs : List Swapped} {v v' : σ} (h : swapAll done rest v = .ok rs v')
    {P : Path → Prop} (first : ∀ r ∈ done, P r.path) (others : ∀ p ∈ rest, P p) :
    ∀ r ∈ rs, P r.path := by
  induction rest generalizing done v with
  | nil =>
    cases h
    exact first
  | cons p rest ih =>
    obtain ⟨here, others⟩ := List.forall_mem_cons.1 others
    obtain ⟨existed, v₁, _, h⟩ := edit_bind_eq_ok.1 h
    exact ih h (List.forall_mem_cons.2 ⟨here, first⟩) others

lemma keeps_commit (spares : ∀ p ∈ s.dirtyPaths, Spares I p) : Keeps I (s.commit (σ := σ)) := by
  refine (keeps_stage [] spares).bind fun _ _ _ _ => ?_
  refine (keeps_swapAll [] nofun spares).bind fun _ rs _ swapped => ?_
  refine (keeps_forM fun r hr => ?_).bind fun _ _ _ _ => keeps_pure _
  have spares := path_of_swapAll swapped nofun spares r (List.mem_reverse.1 hr)
  exact .ite (spares.remove _ backup_touched).attempt (keeps_pure _)

/-- On a disk where steps affect nothing but the paths that they name, a commit changes nothing but what
belongs to the paths of the modules that were changed, and to those next to them. -/
lemma content_after_commit {κ τ : Type} {content : σ → κ → τ} {owns : Path → κ → Prop}
    (h : Disk.Local σ content owns) {k : κ} (apart : ∀ p ∈ s.dirtyPaths, ∀ q ∈ touched p, ¬ owns q k)
    (v : σ) : content (after (s.commit v)) k = content v k := by
  refine keeps_commit (I := fun v' => content v' k = content v k) (fun p hp => ?_) v rfl
  exact
    { write := fun q hq data s holds => (h.write q data s k (apart p hp q hq)).trans holds
      rename := fun q hq r hr s holds =>
        (h.rename q r s k (apart p hp q hq) (apart p hp r hr)).trans holds
      remove := fun q hq s holds => (h.remove q s k (apart p hp q hq)).trans holds }

end Store

/-! ## Volumes -/

namespace Volume

variable {v : Volume} {p : Path} {key : List Path.Step}

lemma contents_put_of_ne {x : Option Bytes} (h : key ≠ p.components) :
    (v.put p x).contents key = v.contents key :=
  Function.update_of_ne h ..

/-- A step changes what its effect changes, or what its failure changes. -/
lemma contents_act {effect : Volume → Except IoFault Volume} {failing : Mishap → Volume → Volume}
    (affects : ∀ v v', effect v = .ok v' → v'.contents key = v.contents key)
    (fails : ∀ mishap v, (failing mishap v).contents key = v.contents key) :
    (after (act effect failing v)).contents key = v.contents key := by
  unfold act
  cases v.plan 0 with
  | some mishap => exact fails mishap _
  | none =>
    dsimp only
    cases ran : effect (v.later 1) with
    | ok v' => exact affects (v.later 1) v' ran
    | error e => rfl

lemma isLocal : Disk.Local Volume contents fun q key => key = q.components where
  write q data v key apart := by
    refine contents_act (fun v v' ran => ?_) fun mishap v => ?_
    · cases ran
      exact contents_put_of_ne apart
    · cases mishap.torn with
      | some torn => exact contents_put_of_ne apart
      | none => rfl
  rename q r v key apart apart' := by
    refine contents_act (fun v v' ran => ?_) fun _ _ => rfl
    split at ran
    · cases ran
      exact (contents_put_of_ne apart').trans (contents_put_of_ne apart)
    · cases ran
  remove q v key apart := by
    refine contents_act (fun v v' ran => ?_) fun _ _ => rfl
    split at ran
    · cases ran
      exact contents_put_of_ne apart
    · cases ran

end Volume

/-! ## Trees -/

/-- Where a step leads if it leads anywhere. -/
def Location.move (l : Location) : Path.Step → Location
  | .top => []
  | .stay => l
  | .up => l.dropLast
  | .name name => l ++ [name]

/-- Where a path leads if it leads anywhere. -/
def Path.location (p : Path) : Location :=
  p.steps.foldl Location.move []

namespace FileSystem

variable {fs fs' : FileSystem} {l m s t : Location} {p q : Path} {data : Bytes}

lemma move_of_step {step : Path.Step} (h : fs.step l step = .ok m) : m = l.move step := by
  have directory := of_step_eq_ok h
  unfold FileSystem.step at h
  rw [directory] at h
  cases step with
  | top | stay | up =>
    cases h
    rfl
  | name name =>
    dsimp only at h
    split at h
    · cases h
      rfl
    · cases h

lemma move_of_steps {steps : List Path.Step} (h : steps.foldlM fs.step l = .ok m) :
    m = steps.foldl Location.move l := by
  induction steps generalizing l with
  | nil =>
    cases h
    rfl
  | cons step steps ih =>
    rw [List.foldlM_cons] at h
    obtain ⟨l', first, others⟩ := bind_eq_ok.1 h
    rw [List.foldl_cons, ← move_of_step first]
    exact ih others

/-- Whatever there is, a path leads to one location at most. -/
lemma location_of_follow (h : fs.follow p = .ok l) : l = p.location := by
  obtain ⟨_, _, h⟩ := bind_eq_ok.1 h
  exact move_of_steps h

/-- What is moved leaves everything as it is that is neither below its old place nor below its new
one. -/
lemma get?_relocated_of_apart (source : ¬ s <+: m) (target : ¬ t <+: m) :
    (fs.relocated s t).get? m = fs.get? m :=
  (get?_relocated_of_not_below target).trans (get?_prune_of_not_below source)

lemma renamed_cases (h : fs.renamed p q = .ok fs') :
    fs' = fs ∨ fs' = fs.relocated p.location q.location := by
  unfold FileSystem.renamed at h
  obtain ⟨_, _, h⟩ := bind_eq_ok.1 h
  obtain ⟨_, _, h⟩ := bind_eq_ok.1 h
  obtain ⟨s, source, h⟩ := bind_eq_ok.1 h
  obtain ⟨t, target, h⟩ := bind_eq_ok.1 h
  cases location_of_follow source
  cases location_of_follow target
  cases found : fs.get? p.location with
  | none =>
    rw [found] at h
    cases h
  | some e =>
    rw [found] at h
    cases e with
    | directory =>
      dsimp only at h
      split at h
      · cases h
        exact .inl rfl
      split at h
      · cases h
      split at h
      · cases h
      · split at h
        · cases h
        · cases h
          exact .inr rfl
      · cases h
        exact .inr rfl
    | file data =>
      have same_or_moved (h : (if p.location = q.location then pure fs
          else pure (fs.relocated p.location q.location) : Except IoFault FileSystem) = .ok fs') :
          fs' = fs ∨ fs' = fs.relocated p.location q.location := by
        rw [of_moved_eq_ok h]
        exact ite_eq_or_eq ..
      cases there : fs.get? q.location with
      | none =>
        rw [there] at h
        exact same_or_moved h
      | some e =>
        rw [there] at h
        cases e with
        | file => exact same_or_moved h
        | directory =>
          dsimp only at h
          split at h
          · cases h
          · cases h

lemma removed_cases (h : fs.removed p = .ok fs') : fs' = fs.prune p.location := by
  unfold FileSystem.removed at h
  obtain ⟨l, leads, h⟩ := bind_eq_ok.1 h
  cases location_of_follow leads
  split at h
  · cases h
    rfl
  · cases h
  · cases h

lemma get?_change {f : FileSystem → Except IoFault FileSystem}
    (h : ∀ fs', f fs = .ok fs' → fs'.get? m = fs.get? m) :
    (after (change f fs)).get? m = fs.get? m := by
  unfold change
  cases ran : f fs with
  | ok fs' => exact h fs' ran
  | error e => rfl

lemma isLocal : Disk.Local FileSystem get? fun q l => q.location <+: l where
  write q data fs m apart := by
    refine get?_change fun fs' ran => ?_
    obtain ⟨l, leads, _, rfl⟩ := of_written_eq_ok ran
    cases location_of_follow leads
    refine get?_put_of_ne ?_
    rintro rfl
    exact apart (List.prefix_refl _)
  rename q r fs m apart apart' := by
    refine get?_change fun fs' ran => ?_
    obtain rfl | rfl := renamed_cases ran
    · rfl
    · exact get?_relocated_of_apart apart apart'
  remove q fs m apart := by
    refine get?_change fun fs' ran => ?_
    cases removed_cases ran
    exact get?_prune_of_not_below apart

end FileSystem

/-- A commit changes nothing but the files of the modules that were changed and those next to them that
it stages images as and keeps files as, whether or not it goes well: on volumes whichever steps fail,
and in trees except for what is below such a path that leads to a directory. -/
theorem Store.commit_spares_others (s : Store) :
    (∀ (v : Volume) (q : Path), (∀ p ∈ s.dirtyPaths, ∀ r ∈ touched p, q.components ≠ r.components) →
      (after (s.commit v)).file? q = v.file? q)
    ∧ ∀ (fs : FileSystem) (l : Location), (∀ p ∈ s.dirtyPaths, ∀ r ∈ touched p, ¬ r.location <+: l) →
      (after (s.commit fs)).get? l = fs.get? l :=
  ⟨fun v _ apart => content_after_commit Volume.isLocal apart v,
    fun fs _ apart => content_after_commit FileSystem.isLocal apart fs⟩

namespace Example

/-- A module that was changed. -/
def stall : Store where
  modules := [(⟨"app.dll"⟩, { Module.named "app" with dirty := true })]
  distinct := by decide

/-- Its file among others. -/
def yard (plan : Nat → Option Mishap) : Volume where
  contents key :=
    if key = [.name "app.dll"] then some [1]
    else if key = [.name "app.dll.tmp"] then some [2]
    else if key = [.name "app.dll.bak"] then some [3]
    else if key = [.name "notes.txt"] then some [4]
    else none
  plan := plan

/-- A directory where the file of the module was. -/
def camp : FileSystem :=
  ⟨[(["app.dll"], .directory), (["app.dll", "list.txt"], .file [5]), (["notes.txt"], .file [4])]⟩

/-- The step in which the staged image is moved fails. -/
def jam (k : Nat) : Option Mishap :=
  if k = 2 then some ⟨.notFound, none⟩ else none

lemma dirtyPaths_stall : stall.dirtyPaths = [⟨"app.dll"⟩] :=
  List.mergeSort_singleton _

/-- A commit takes away the files that are where it stages an image and keeps a file, when it goes well and
when it fails, and what is in a directory that is where a file was. -/
theorem stall_pushes_others_out :
    stall.dirtyPaths = [⟨"app.dll"⟩]
      ∧ (∀ plan, (yard plan).file? ⟨"app.dll.tmp"⟩ = some [2]
        ∧ (yard plan).file? ⟨"app.dll.bak"⟩ = some [3])
      ∧ (∃ r v, stall.commit (yard fun _ => none) = .ok r v
        ∧ v.file? ⟨"app.dll.tmp"⟩ = none ∧ v.file? ⟨"app.dll.bak"⟩ = none)
      ∧ (∃ e v, stall.commit (yard jam) = .error e v
        ∧ v.file? ⟨"app.dll.tmp"⟩ = none ∧ v.file? ⟨"app.dll.bak"⟩ = none)
      ∧ camp.get? ["app.dll", "list.txt"] = some (.file [5])
      ∧ ∃ r fs, stall.commit camp = .ok r fs ∧ fs.get? ["app.dll", "list.txt"] = none := by
  obtain ⟨r, well⟩ := exists_ok (r := stall.commit (yard fun _ => none)) (by decide +kernel)
  obtain ⟨e, fails⟩ := exists_error (r := stall.commit (yard jam)) (by decide +kernel)
  obtain ⟨r', inside⟩ := exists_ok (r := stall.commit camp) (by decide +kernel)
  refine ⟨dirtyPaths_stall, fun _ => ⟨rfl, rfl⟩, ⟨r, _, well, ?_⟩, ⟨e, _, fails, ?_⟩, rfl, r', _, inside, ?_⟩
  all_goals decide +kernel

/-- Other files stay when the commit goes well and when it fails. -/
theorem stall_spares_notes :
    (after (stall.commit (yard fun _ => none))).file? ⟨"notes.txt"⟩ = some [4]
      ∧ (after (stall.commit (yard jam))).file? ⟨"notes.txt"⟩ = some [4]
      ∧ (after (stall.commit camp)).get? ["notes.txt"] = some (.file [4]) := by
  obtain ⟨volumes, trees⟩ := Store.commit_spares_others stall
  rw [dirtyPaths_stall] at volumes trees
  refine ⟨(volumes _ _ ?_).trans rfl, (volumes _ _ ?_).trans rfl, (trees _ _ ?_).trans rfl⟩
  all_goals decide +kernel

end Example
end HookWeave
