import HookWeave.Proofs.Outcomes
import HookWeave.Proofs.Storage.Volume
import Mathlib.Data.List.Nodup

/-!
# All or nothing

A commit writes the files of all modules that were changed, or leaves all files as they were,
whichever of its steps fails (`Store.commit_all_or_nothing`). Each phase of it is a loop over cells,
with a lemma for the loop that goes well (`Store.stage_ok`, `Store.swapAll_ok`) and one for the loop
in which a step fails (`Store.stage_error`, `Store.swapAll_error`). The latter ends with loops that
undo what was done, in which no step fails (`Volume.forM_ok`).
-/

namespace HookWeave
open Volume

variable {v v' : Volume} {s : Store} {p : Path} {ps rest : List Path} {e : Fault}
  {k : Nat} {mishap : Mishap}

/-- The module of a path could not be written. -/
def Fault.Unwritten (e : Fault) (p : Path) : Prop :=
  (∃ cause, e = .moduleNotEncoded p.text cause) ∨ ∃ cause, e = .moduleNotWritten p.text cause

/-! ## Steps that cannot be kept from taking effect -/

/-- The files that are left when all is undone: where a staged image was not moved yet, the file is
as it was, and elsewhere it was kept. -/
def Volume.Cell.restored (c : Cell) : Cell :=
  ⟨if c.staged.isSome then c.file else c.kept, none, none⟩

lemma Volume.Cell.restored_of_staged {c : Cell} (staged : c.staged.isSome) (unkept : c.kept = none) :
    c.restored = { c with staged := none } := by
  unfold restored
  rw [if_pos staged, unkept]

/-- Steps for one cell after another. What is required of a cell must hold at first. -/
lemma Volume.forM_ok {ε γ : Type} {op : γ → EStateM ε Volume Unit} {xs : List γ}
    (path : γ → Path) (required : γ → Cell → Prop) (change : Path → Cell → Cell)
    (each : ∀ x ∈ xs, ∀ v : Volume, v.Reliable → required x (v.cell (path x)) →
      ∃ v', op x v = .ok () v' ∧ v'.Reliable ∧ v.Moves v' [path x] change)
    (separate : Separate (xs.map path)) (reliable : v.Reliable)
    (meets : ∀ x ∈ xs, required x (v.cell (path x))) :
    ∃ v', xs.forM op v = .ok () v' ∧ v'.Reliable ∧ v.Moves v' (xs.map path) change := by
  induction xs generalizing v with
  | nil => exact ⟨v, rfl, reliable, .nil⟩
  | cons x xs ih =>
    obtain ⟨first, others⟩ := List.forall_mem_cons.1 meets
    obtain ⟨v₁, ran, reliable₁, moves⟩ := each x (List.mem_cons_self ..) v reliable first
    have meets₁ : ∀ y ∈ xs, required y (v₁.cell (path y)) := by
      intro y hy
      rw [moves.frame_of_separate separate (List.mem_map_of_mem hy)]
      exact others y hy
    obtain ⟨v₂, ran', reliable₂, moves'⟩ := ih
      (fun y hy => each y (List.mem_cons_of_mem _ hy)) separate.tail reliable₁ meets₁
    refine ⟨v₂, ?_, reliable₂, moves.cons separate moves'⟩
    show (op x >>= fun _ => xs.forM op) v = _
    exact (bind_of_ok ran).trans ran'

/-- Staged images are removed. -/
lemma Store.discardStaged_ok (separate : Separate ps) (reliable : v.Reliable) :
    ∃ v', discardStaged ps v = (.ok () v' : EStateM.Result Fault Volume Unit) ∧ v'.Reliable
      ∧ v.Moves v' ps fun _ c => { c with staged := none } := by
  have each : ∀ p ∈ ps, ∀ v : Volume, v.Reliable → True →
      ∃ v', (Disk.attempt (Disk.remove (staging p)) : EStateM Fault Volume Unit) v = .ok () v'
        ∧ v'.Reliable ∧ v.Moves v' [p] fun _ c => { c with staged := none } := by
    intro p hp v reliable _
    refine ⟨_, attempt_remove (reliable 0), reliable.later, ?_⟩
    exact Moves.later.comp (moves_put_staging (separate.single p hp))
  have same : ps.map id = ps := List.map_id ps
  obtain ⟨v', ran, reliable', moves⟩ := Volume.forM_ok id (fun _ _ => True)
    (fun _ c => { c with staged := none }) each (same.symm ▸ separate) reliable fun _ _ => trivial
  exact ⟨v', ran, reliable', same ▸ moves⟩

/-- A replacement is undone if the file that was there is kept. -/
lemma Store.Swapped.undo_ok {r : Swapped} (single : Single r.path) (reliable : v.Reliable)
    (replaced : (v.cell r.path).staged = none)
    (kept : r.existed = (v.cell r.path).kept.isSome) :
    ∃ v', r.undo v = .ok () v' ∧ v'.Reliable ∧ v.Moves v' [r.path] fun _ c => c.restored := by
  unfold undo
  cases found : (v.cell r.path).kept with
  | some data =>
    rw [kept, found, Option.isSome_some, if_pos rfl]
    refine ⟨_, attempt_rename (reliable 0) found, reliable.later, ?_⟩
    refine (Moves.later.comp ((moves_put_backup single).comp (moves_put_file single))).congr ?_
    intro p hp
    cases List.mem_singleton.1 hp
    simp only [Cell.restored, replaced, found, Option.isSome_none, Bool.false_eq_true, if_false]
  | none =>
    rw [kept, found, Option.isSome_none, if_neg Bool.false_ne_true]
    refine ⟨_, attempt_remove (reliable 0), reliable.later, ?_⟩
    refine (Moves.later.comp (moves_put_file single)).congr ?_
    intro p hp
    cases List.mem_singleton.1 hp
    simp only [Cell.restored, replaced, found, Option.isSome_none, Bool.false_eq_true, if_false]

/-- All replacements are undone. -/
lemma Store.undoAll_ok {rs : List Swapped} (separate : Separate (rs.map Swapped.path))
    (reliable : v.Reliable) (replaced : ∀ r ∈ rs, (v.cell r.path).staged = none
      ∧ r.existed = (v.cell r.path).kept.isSome) :
    ∃ v', rs.forM Swapped.undo v = .ok () v' ∧ v'.Reliable
      ∧ v.Moves v' (rs.map Swapped.path) fun _ c => c.restored := by
  refine Volume.forM_ok Swapped.path (fun r c => c.staged = none ∧ r.existed = c.kept.isSome)
    (fun _ c => c.restored) ?_ separate reliable replaced
  rintro r hr v reliable ⟨staged, kept⟩
  exact Swapped.undo_ok (separate.single _ (List.mem_map_of_mem hr)) reliable staged kept

/-- What files were kept as is removed. -/
lemma Store.discardKept_ok {rs : List Swapped} (separate : Separate (rs.map Swapped.path))
    (reliable : v.Reliable) (kept : ∀ r ∈ rs, r.existed = (v.cell r.path).kept.isSome) :
    ∃ v', (rs.forM fun r => do
        if r.existed then Disk.attempt (Disk.remove (backup r.path))) v
      = (.ok () v' : EStateM.Result Fault Volume Unit) ∧ v'.Reliable
      ∧ v.Moves v' (rs.map Swapped.path) fun _ c => { c with kept := none } := by
  refine Volume.forM_ok Swapped.path (fun r c => r.existed = c.kept.isSome)
    (fun _ c => { c with kept := none }) ?_ separate reliable kept
  intro r hr v reliable kept
  have single := separate.single _ (List.mem_map_of_mem hr)
  cases found : (v.cell r.path).kept with
  | some data =>
    rw [kept, found, Option.isSome_some, if_pos rfl]
    exact ⟨_, attempt_remove (reliable 0), reliable.later, Moves.later.comp (moves_put_backup single)⟩
  | none =>
    rw [kept, found, Option.isSome_none, if_neg Bool.false_ne_true]
    refine ⟨v, rfl, reliable, Moves.refl.congr ?_⟩
    intro p hp
    cases List.mem_singleton.1 hp
    exact Cell.ext rfl rfl found

lemma Disk.writing_ok {α : Type} {op : DiskOp Volume α} {a : α} (h : op v = .ok a v') :
    Disk.writing p op v = .ok a v' := by
  show EStateM.adaptExcept _ _ v = _
  rw [EStateM.adaptExcept, h]

lemma Disk.writing_error {α : Type} {op : DiskOp Volume α} {cause : IoFault}
    (h : op v = .error cause v') :
    Disk.writing p op v = .error (.moduleNotWritten p.text cause) v' := by
  show EStateM.adaptExcept _ _ v = _
  rw [EStateM.adaptExcept, h]

/-! ## Staging -/

lemma Store.writeImage_ok {image : Bytes} (encoded : s.image p = .ok image)
    (quiet : v.plan 0 = none) :
    s.writeImage p (staging p) v = .ok () ((v.later 1).put (staging p) (some image)) := by
  unfold writeImage
  rw [encoded]
  exact Disk.writing_ok (write_ok quiet)

lemma Store.writeImage_refused (refused : s.image p = .error e) :
    s.writeImage p (staging p) v = .error e v := by
  unfold writeImage
  rw [refused]
  rfl

lemma Store.writeImage_error {image : Bytes} (encoded : s.image p = .ok image)
    (fails : v.plan 0 = some mishap) : ∃ x, s.writeImage p (staging p) v
      = .error (.moduleNotWritten p.text mishap.cause) ((v.later 1).put (staging p) x) := by
  obtain ⟨x, written⟩ : ∃ x, Disk.write (staging p) image v
      = .error mishap.cause ((v.later 1).put (staging p) x) := write_error fails
  refine ⟨x, ?_⟩
  unfold writeImage
  rw [encoded]
  exact Disk.writing_error written

/-- All images are staged if they can be made and written. -/
lemma Store.stage_ok {image : Path → Bytes} (done : List Path)
    (encoded : ∀ p ∈ rest, s.image p = .ok (image p))
    (separate : Separate rest) (quiet : ∀ k < rest.length, v.plan k = none) :
    ∃ v', s.stage done rest v = .ok () v' ∧ (∀ k, v'.plan k = v.plan (k + rest.length))
      ∧ v.Moves v' rest fun p c => { c with staged := some (image p) } := by
  induction rest generalizing done v with
  | nil => exact ⟨v, rfl, fun _ => rfl, .nil⟩
  | cons p rest ih =>
    obtain ⟨here, others⟩ := List.forall_mem_cons.1 encoded
    have wrote := writeImage_ok here (quiet 0 (Nat.succ_pos _))
    have moves : v.Moves ((v.later 1).put (staging p) (some (image p))) [p]
        fun p c => { c with staged := some (image p) } := by
      refine (Moves.later.comp (moves_put_staging (separate.single p (List.mem_cons_self ..)))).congr ?_
      intro q hq
      cases List.mem_singleton.1 hq
      rfl
    obtain ⟨v', staged, plan, moves'⟩ := ih (done ++ [p])
      (v := (v.later 1).put (staging p) (some (image p))) others separate.tail
      fun k hk => quiet (k + 1) (Nat.succ_lt_succ hk)
    refine ⟨v', ?_, fun k => ?_, moves.cons separate moves'⟩
    · rw [stage]
      exact (bind_of_ok (tryCatch_of_ok wrote)).trans staged
    · rw [plan k, List.length_cons, ← Nat.add_assoc]
      rfl

/-- If the next image is not written, all that was staged is discarded. -/
lemma Store.stage_discards {done : List Path} {x : Option Bytes}
    (separate : Separate (done ++ p :: rest))
    (unstaged : ∀ q ∈ rest, (v.cell q).staged = none)
    (failed : s.writeImage p (staging p) v = .error e v') (reliable : v'.Reliable)
    (moves : v.Moves v' [p] fun _ c => { c with staged := x }) :
    ∃ v'', s.stage done (p :: rest) v = .error e v''
      ∧ v.Moves v'' (done ++ p :: rest) fun _ c => { c with staged := none } := by
  have sub : (done ++ [p]).Sublist (done ++ p :: rest) :=
    (List.Sublist.refl done).append (List.singleton_sublist.2 (List.mem_cons_self ..))
  obtain ⟨v'', ran, _, moves'⟩ := discardStaged_ok (separate.sublist sub) reliable
  refine ⟨v'', ?_, ?_⟩
  · rw [stage]
    exact bind_of_error ((tryCatch_of_error failed).trans (bind_of_ok ran))
  · have restores := moves.absorb (separate.sublist sub) (List.subset_append_right _ _) moves'
      fun _ _ => rfl
    refine restores.extend separate sub.subset fun q hq apart => ?_
    have later : q ∈ rest := by
      simp only [List.mem_append, List.mem_cons, List.not_mem_nil, or_false, not_or] at hq apart
      exact (hq.resolve_left apart.1).resolve_left apart.2
    exact Cell.ext rfl (unstaged q later).symm rfl

/-- One of the images cannot be made, or one of them cannot be written before that. -/
def Store.StagingFails (s : Store) (v : Volume) (ps : List Path) : Prop :=
  (v.Reliable ∧ ∃ p ∈ ps, ∃ e, s.image p = .error e)
    ∨ ∃ k mishap, k < ps.length ∧ v.FailsAt k mishap
      ∧ ∀ p ∈ ps.take (k + 1), ∃ image, s.image p = .ok image

namespace Store.StagingFails

lemma not_nil (h : s.StagingFails v []) : False := by
  rcases h with ⟨_, p, hp, _⟩ | ⟨k, _, hk, _⟩
  · cases hp
  · cases hk

lemma reliable_of_refused (h : s.StagingFails v (p :: rest)) (refused : s.image p = .error e) :
    v.Reliable := by
  rcases h with ⟨reliable, _⟩ | ⟨_, _, _, _, all⟩
  · exact reliable
  · obtain ⟨image, encoded⟩ := all p (List.mem_cons_self ..)
    cases refused.symm.trans encoded

lemma reliable_of_planned (h : s.StagingFails v ps) (planned : v.plan 0 = some mishap) :
    (v.later 1).Reliable := by
  rcases h with ⟨reliable, _⟩ | ⟨k, _, _, fails, _⟩
  · exact reliable.later
  · cases k with
    | zero => exact fails.reliable
    | succ k => cases planned.symm.trans (fails.others 0 (Nat.succ_ne_zero k).symm)

lemma tail {q : Path} {x : Option Bytes} {image : Bytes} (h : s.StagingFails v (p :: rest))
    (encoded : s.image p = .ok image) (quiet : v.plan 0 = none) :
    s.StagingFails ((v.later 1).put q x) rest := by
  rcases h with ⟨reliable, r, hr, e, refused⟩ | ⟨k, mishap, hk, fails, all⟩
  · refine .inl ⟨reliable.later.put, r, ?_, e, refused⟩
    cases hr with
    | head => cases encoded.symm.trans refused
    | tail _ hr => exact hr
  · cases k with
    | zero => cases quiet.symm.trans fails.fails
    | succ k => exact .inr ⟨k, mishap, Nat.lt_of_succ_lt_succ hk, fails.later.put,
        (List.forall_mem_cons.1 all).2⟩

end Store.StagingFails

/-- If an image cannot be made or written, no image stays staged. -/
lemma Store.stage_error (done : List Path) (separate : Separate (done ++ rest))
    (unstaged : ∀ p ∈ rest, (v.cell p).staged = none)
    (unwritten : ∀ p ∈ rest, ∀ e, s.image p = .error e → e.Unwritten p)
    (fails : s.StagingFails v rest) :
    ∃ e v', s.stage done rest v = .error e v' ∧ (∃ p ∈ rest, e.Unwritten p)
      ∧ v.Moves v' (done ++ rest) fun _ c => { c with staged := none } := by
  induction rest generalizing done v with
  | nil => exact fails.not_nil.elim
  | cons p rest ih =>
    have single := separate.single p (List.mem_append_right _ (List.mem_cons_self ..))
    obtain ⟨_, unstaged'⟩ := List.forall_mem_cons.1 unstaged
    obtain ⟨unwritten, unwritten'⟩ := List.forall_mem_cons.1 unwritten
    cases encoded : s.image p with
    | error e =>
      have same : v.Moves v [p] fun _ c => { c with staged := (v.cell p).staged } := by
        refine Moves.refl.congr fun q hq => ?_
        cases List.mem_singleton.1 hq
        rfl
      obtain ⟨v', ran, moves⟩ := stage_discards separate unstaged' (writeImage_refused encoded)
        (fails.reliable_of_refused encoded) same
      exact ⟨e, v', ran, ⟨p, List.mem_cons_self .., unwritten e encoded⟩, moves⟩
    | ok image =>
      cases planned : v.plan 0 with
      | some mishap =>
        obtain ⟨x, failed⟩ := writeImage_error encoded planned
        obtain ⟨v', ran, moves⟩ := stage_discards separate unstaged' failed
          (fails.reliable_of_planned planned).put (Moves.later.comp (moves_put_staging single))
        exact ⟨_, v', ran, ⟨p, List.mem_cons_self .., .inr ⟨mishap.cause, rfl⟩⟩, moves⟩
      | none =>
        have wrote := writeImage_ok encoded planned
        have moves : v.Moves ((v.later 1).put (staging p) (some image)) [p] fun _ c =>
          { c with staged := some image } := Moves.later.comp (moves_put_staging single)
        have append : done ++ p :: rest = (done ++ [p]) ++ rest := by
          rw [List.append_assoc, List.singleton_append]
        have unstaged₁ : ∀ q ∈ rest,
            (((v.later 1).put (staging p) (some image)).cell q).staged = none := by
          intro q hq
          rw [moves.frame_of_separate (separate.sublist (List.sublist_append_right _ _)) hq]
          exact unstaged' q hq
        obtain ⟨e, v', ran, ⟨q, hq, blamed⟩, moves'⟩ :=
          ih (done ++ [p]) (append ▸ separate) unstaged₁ unwritten' (fails.tail encoded planned)
        refine ⟨e, v', ?_, ⟨q, List.mem_cons_of_mem _ hq, blamed⟩, ?_⟩
        · rw [stage]
          exact (bind_of_ok (tryCatch_of_ok wrote)).trans ran
        · refine moves.absorb separate (fun q hq => ?_) (append ▸ moves') fun _ _ => rfl
          cases List.mem_singleton.1 hq
          exact List.mem_append_right _ (List.mem_cons_self ..)

/-! ## Replacing -/

lemma Store.swap_eq_of_none (missing : v.file? p = none) : swap p v =
    (tryCatch (Disk.rename (staging p) p) (fun e => throw e) >>= fun _ => pure false) v := by
  have free : Disk.occupied v p = false := congrArg Option.isSome missing
  have here : (get : DiskOp Volume Volume) v = .ok v v := rfl
  refine (bind_of_ok here).trans ?_
  simp only [free, Bool.false_eq_true, if_false]

lemma Store.swap_eq_of_some {data : Bytes} (found : v.file? p = some data) : swap p v =
    (Disk.rename p (backup p) >>= fun _ =>
      tryCatch (Disk.rename (staging p) p)
        (fun e => Disk.attempt (Disk.rename (backup p) p) >>= fun _ => throw e) >>= fun _ =>
      pure true) v := by
  have taken : Disk.occupied v p = true := congrArg Option.isSome found
  have here : (get : DiskOp Volume Volume) v = .ok v v := rfl
  refine (bind_of_ok here).trans ?_
  simp only [taken, if_true]

/-- How many renames it takes to replace a file. -/
def Volume.renames (v : Volume) (p : Path) : Nat :=
  if (v.file? p).isSome then 2 else 1

/-- The image of a module is staged, and nothing is in the way of keeping its file. -/
structure Volume.Staged (v : Volume) (p : Path) : Prop where
  staged : (v.cell p).staged.isSome
  unkept : (v.cell p).kept = none

lemma Volume.Staged.of_cell (h : v.Staged p) (same : v'.cell p = v.cell p) : v'.Staged p where
  staged := same ▸ h.staged
  unkept := same ▸ h.unkept

/-- How many renames it takes to replace files. -/
def Volume.renamesAll (v : Volume) : List Path → Nat
  | [] => 0
  | p :: ps => v.renames p + v.renamesAll ps

lemma Volume.renamesAll_congr (same : ∀ p ∈ ps, v'.file? p = v.file? p) :
    v'.renamesAll ps = v.renamesAll ps := by
  induction ps with
  | nil => rfl
  | cons p ps ih =>
    obtain ⟨here, others⟩ := List.forall_mem_cons.1 same
    rw [renamesAll, renamesAll, renames, renames, here, ih others]

/-- The replacements of files, each with whether there is a file before. -/
def Volume.replacements (v : Volume) (ps : List Path) : List Store.Swapped :=
  ps.map fun p => ⟨p, (v.file? p).isSome⟩

lemma Volume.replacements_cons :
    v.replacements (p :: ps) = ⟨p, (v.file? p).isSome⟩ :: v.replacements ps :=
  List.map_cons ..

lemma Volume.replacements_congr (same : ∀ p ∈ ps, v'.file? p = v.file? p) :
    v'.replacements ps = v.replacements ps :=
  List.map_congr_left fun p hp => by rw [same p hp]

lemma Volume.map_path_replacements : (v.replacements ps).map Store.Swapped.path = ps := by
  unfold replacements
  rw [List.map_map]
  exact List.map_id ps

/-- A file whose image is staged is replaced by it, and kept. -/
lemma Store.swap_ok (single : Single p) (ready : v.Staged p)
    (quiet : ∀ k < v.renames p, v.plan k = none) :
    ∃ v', swap p v = .ok (v.file? p).isSome v' ∧ (∀ k, v'.plan k = v.plan (k + v.renames p))
      ∧ v.Moves v' [p] fun _ c => ⟨c.staged, none, c.file⟩ := by
  obtain ⟨image, staged⟩ := Option.isSome_iff_exists.1 ready.staged
  have unkept := ready.unkept
  unfold renames at quiet ⊢
  cases found : v.file? p with
  | none =>
    rw [found] at quiet
    have renamed := rename_ok (q := p) (quiet 0 Nat.one_pos) staged
    refine ⟨v.renamed (staging p) p image, ?_, fun k => rfl, ?_⟩
    · rw [swap_eq_of_none found]
      exact bind_of_ok (tryCatch_of_ok renamed)
    · refine (Moves.later.comp ((moves_put_staging single).comp (moves_put_file single))).congr ?_
      intro q hq
      cases List.mem_singleton.1 hq
      exact Cell.ext staged.symm rfl (unkept.trans found.symm)
  | some data =>
    rw [found] at quiet
    have aside := rename_ok (q := backup p) (quiet 0 Nat.two_pos) found
    have moves : v.Moves (v.renamed p (backup p) data) [p] fun _ c => ⟨none, c.staged, some data⟩ :=
      Moves.later.comp ((moves_put_file single).comp (moves_put_backup single))
    have staged' : (v.renamed p (backup p) data).file? (staging p) = some image :=
      (congrArg Cell.staged (moves.cells p (List.mem_singleton_self p))).trans staged
    have renamed := rename_ok (q := p) (quiet 1 Nat.one_lt_two) staged'
    refine ⟨(v.renamed p (backup p) data).renamed (staging p) p image, ?_, fun k => rfl, ?_⟩
    · rw [swap_eq_of_some found]
      exact (bind_of_ok aside).trans (bind_of_ok (tryCatch_of_ok renamed))
    · refine (moves.comp (Moves.later.comp
        ((moves_put_staging single).comp (moves_put_file single)))).congr ?_
      intro q hq
      cases List.mem_singleton.1 hq
      exact Cell.ext staged.symm rfl found.symm

/-- If a file cannot be replaced, it is moved back. -/
lemma Store.swap_error (single : Single p) (ready : v.Staged p)
    (few : k < v.renames p) (fails : v.FailsAt k mishap) :
    ∃ v', swap p v = .error mishap.cause v' ∧ v'.Reliable ∧ v.Moves v' [p] fun _ c => c := by
  unfold renames at few
  cases found : v.file? p with
  | none =>
    rw [found] at few
    obtain rfl : k = 0 := Nat.lt_one_iff.1 few
    have failed := rename_error (p := staging p) (q := p) fails.fails
    refine ⟨v.later 1, ?_, fails.reliable, Moves.later⟩
    rw [swap_eq_of_none found]
    exact bind_of_error (tryCatch_of_error failed)
  | some data =>
    rw [found] at few
    cases k with
    | zero =>
      have failed := rename_error (p := p) (q := backup p) fails.fails
      refine ⟨v.later 1, ?_, fails.reliable, Moves.later⟩
      rw [swap_eq_of_some found]
      exact bind_of_error failed
    | succ k =>
      obtain rfl : k = 0 := Nat.lt_one_iff.1 (Nat.lt_of_succ_lt_succ few)
      have aside := rename_ok (q := backup p) (fails.others 0 (by decide)) found
      have moves : v.Moves (v.renamed p (backup p) data) [p] fun _ c => ⟨none, c.staged, some data⟩ :=
        Moves.later.comp ((moves_put_file single).comp (moves_put_backup single))
      have failed : Disk.rename (staging p) p (v.renamed p (backup p) data)
          = .error mishap.cause ((v.renamed p (backup p) data).later 1) :=
        rename_error fails.fails
      have kept : ((v.renamed p (backup p) data).later 1).file? (backup p) = some data :=
        congrArg Cell.kept (moves.cells p (List.mem_singleton_self p))
      have quiet : ((v.renamed p (backup p) data).later 1).plan 0 = none :=
        fails.others 2 (by decide)
      refine ⟨((v.renamed p (backup p) data).later 1).renamed (backup p) p data, ?_,
        fun k => fails.others (k + 3) (by omega), ?_⟩
      · rw [swap_eq_of_some found]
        refine (bind_of_ok aside).trans (bind_of_error ?_)
        exact (tryCatch_of_error failed).trans (bind_of_ok (attempt_rename quiet kept))
      · refine (moves.comp (Moves.later.comp (Moves.later.comp
          ((moves_put_backup single).comp (moves_put_file single))))).congr ?_
        intro q hq
        cases List.mem_singleton.1 hq
        exact Cell.ext found.symm rfl ready.unkept.symm

/-- All files are replaced if all renames take effect. -/
lemma Store.swapAll_ok (done : List Swapped) (separate : Separate rest)
    (ready : ∀ p ∈ rest, v.Staged p) (quiet : ∀ k < v.renamesAll rest, v.plan k = none) :
    ∃ v', swapAll done rest v = .ok ((v.replacements rest).reverse ++ done) v'
      ∧ (∀ k, v'.plan k = v.plan (k + v.renamesAll rest))
      ∧ v.Moves v' rest fun _ c => ⟨c.staged, none, c.file⟩ := by
  induction rest generalizing done v with
  | nil => exact ⟨v, rfl, fun _ => rfl, .nil⟩
  | cons p rest ih =>
    obtain ⟨here, others⟩ := List.forall_mem_cons.1 ready
    rw [renamesAll] at quiet
    obtain ⟨v₁, swapped, plan, moves⟩ := swap_ok (separate.single p (List.mem_cons_self ..)) here
      fun k hk => quiet k (Nat.lt_add_right _ hk)
    have same : ∀ q ∈ rest, v₁.cell q = v.cell q := fun q hq => moves.frame_of_separate separate hq
    have files : ∀ q ∈ rest, v₁.file? q = v.file? q := fun q hq => congrArg Cell.file (same q hq)
    have renames := renamesAll_congr files
    have quiet₁ : ∀ k < v₁.renamesAll rest, v₁.plan k = none := by
      intro k hk
      rw [renames] at hk
      rw [plan k]
      exact quiet _ (by omega)
    obtain ⟨v₂, ran, plan', moves'⟩ := ih (⟨p, (v.file? p).isSome⟩ :: done) separate.tail
      (fun q hq => (others q hq).of_cell (same q hq)) quiet₁
    refine ⟨v₂, ?_, fun k => ?_, moves.cons separate moves'⟩
    · rw [swapAll, bind_of_ok (tryCatch_of_ok (Disk.writing_ok swapped)), ran,
        replacements_congr files, replacements_cons, List.reverse_cons, List.append_assoc,
        List.singleton_append]
    · rw [plan', plan, renames, renamesAll, Nat.add_assoc, Nat.add_comm (v.renamesAll rest)]

/-- If the next file cannot be replaced, those that are replaced already come back, and nothing stays
staged. -/
lemma Store.swapAll_restores {done : List Swapped} {cause : IoFault} {v₁ : Volume}
    (separate : Separate (done.map Swapped.path ++ p :: rest))
    (replaced : ∀ r ∈ done, (v.cell r.path).staged = none
      ∧ r.existed = (v.cell r.path).kept.isSome)
    (ready : ∀ q ∈ p :: rest, v.Staged q) (failed : swap p v = .error cause v₁)
    (reliable : v₁.Reliable) (moves : v.Moves v₁ [p] fun _ c => c) :
    ∃ v', swapAll done (p :: rest) v = .error (.moduleNotWritten p.text cause) v'
      ∧ v.Moves v' (done.map Swapped.path ++ p :: rest) fun _ c => c.restored := by
  have same (q : Path) : v₁.cell q = v.cell q := cell_congr (moves.contents_eq fun _ _ => rfl)
  obtain ⟨v₂, undone, reliable₂, moves₂⟩ := undoAll_ok
    (separate.sublist (List.sublist_append_left _ _)) reliable
    fun r hr => same r.path ▸ replaced r hr
  obtain ⟨v₃, discarded, _, moves₃⟩ := discardStaged_ok
    (separate.sublist (List.sublist_append_right _ _)) reliable₂
  refine ⟨v₃, ?_, ?_⟩
  · rw [swapAll]
    refine bind_of_error ((tryCatch_of_error (Disk.writing_error failed)).trans ?_)
    exact (bind_of_ok undone).trans (bind_of_ok discarded)
  · have moves₃' : v₂.Moves v₃ (p :: rest) fun _ c => c.restored := by
      refine moves₃.congr fun q hq => ?_
      have apart := (List.pairwise_append.1 separate.pairs).2.2
      rw [moves₂.frame fun r hr => apart r hr q hq, same q]
      exact (Cell.restored_of_staged (ready q hq).staged (ready q hq).unkept).symm
    refine moves.absorb separate (fun q hq => ?_) (moves₂.append separate moves₃') fun _ _ => rfl
    cases List.mem_singleton.1 hq
    exact List.mem_append_right _ (List.mem_cons_self ..)

/-- If a file cannot be replaced, those that are replaced already come back, and nothing stays
staged. -/
lemma Store.swapAll_error (done : List Swapped)
    (separate : Separate (done.map Swapped.path ++ rest))
    (replaced : ∀ r ∈ done, (v.cell r.path).staged = none
      ∧ r.existed = (v.cell r.path).kept.isSome)
    (ready : ∀ p ∈ rest, v.Staged p) (few : k < v.renamesAll rest)
    (fails : v.FailsAt k mishap) :
    ∃ e v', swapAll done rest v = .error e v' ∧ (∃ p ∈ rest, e.Unwritten p)
      ∧ v.Moves v' (done.map Swapped.path ++ rest) fun _ c => c.restored := by
  induction rest generalizing done v k with
  | nil => cases few
  | cons p rest ih =>
    obtain ⟨here, others⟩ := List.forall_mem_cons.1 ready
    have single := separate.single p (List.mem_append_right _ (List.mem_cons_self ..))
    rw [renamesAll] at few
    by_cases now : k < v.renames p
    · obtain ⟨v₁, failed, reliable, moves⟩ := swap_error single here now fails
      obtain ⟨v', ran, restored⟩ := swapAll_restores separate replaced ready failed reliable moves
      exact ⟨_, v', ran, ⟨p, List.mem_cons_self .., .inr ⟨mishap.cause, rfl⟩⟩, restored⟩
    · have quiet : ∀ j < v.renames p, v.plan j = none := fun j hj => fails.others j (by omega)
      obtain ⟨v₁, swapped, plan, moves⟩ := swap_ok single here quiet
      have perm : (p :: (done.map Swapped.path ++ rest)).Perm (done.map Swapped.path ++ p :: rest) :=
        List.perm_middle.symm
      have separate' : Separate (p :: (done.map Swapped.path ++ rest)) := separate.perm perm
      have same : ∀ q ∈ done.map Swapped.path ++ rest, v₁.cell q = v.cell q :=
        fun q hq => moves.frame_of_separate separate' hq
      have same' : ∀ q ∈ rest, v₁.cell q = v.cell q :=
        fun q hq => same q (List.mem_append_right _ hq)
      have few₁ : k - v.renames p < v₁.renamesAll rest := by
        rw [renamesAll_congr fun q hq => congrArg Cell.file (same' q hq)]
        omega
      have replaced₁ : ∀ r ∈ (⟨p, (v.file? p).isSome⟩ : Swapped) :: done,
          (v₁.cell r.path).staged = none ∧ r.existed = (v₁.cell r.path).kept.isSome := by
        intro r hr
        cases hr with
        | head =>
          rw [moves.cells p (List.mem_singleton_self p)]
          exact ⟨rfl, rfl⟩
        | tail _ hr =>
          rw [same _ (List.mem_append_left _ (List.mem_map_of_mem hr))]
          exact replaced r hr
      obtain ⟨e, v', ran, ⟨q, hq, blamed⟩, moves'⟩ := ih
        (⟨p, (v.file? p).isSome⟩ :: done) separate' replaced₁
        (fun q hq => (others q hq).of_cell (same' q hq)) few₁
        (fails.of_plan plan (Nat.le_of_not_lt now))
      refine ⟨e, v', ?_, ⟨q, List.mem_cons_of_mem _ hq, blamed⟩, ?_⟩
      · rw [swapAll, bind_of_ok (tryCatch_of_ok (Disk.writing_ok swapped)), ran]
      · refine Moves.of_mem_iff ?_ fun q => perm.mem_iff.symm
        refine moves.absorb separate' (fun q hq => ?_) moves' fun q hq => ?_
        · cases List.mem_singleton.1 hq
          exact List.mem_cons_self ..
        cases List.mem_singleton.1 hq
        unfold Cell.restored
        rw [if_pos here.staged]
        rfl

/-! ## Modules that were changed -/

section

variable {m : Module}

lemma Store.mem_dirtyPaths : p ∈ s.dirtyPaths ↔ ∃ m, (p, m) ∈ s.modules ∧ m.dirty = true := by
  unfold dirtyPaths
  rw [List.mem_mergeSort, List.mem_map]
  constructor
  · rintro ⟨e, he, rfl⟩
    obtain ⟨mem, dirty⟩ := List.mem_filter.1 he
    exact ⟨e.2, mem, dirty⟩
  · rintro ⟨m, mem, dirty⟩
    exact ⟨(p, m), List.mem_filter.2 ⟨mem, dirty⟩, rfl⟩

lemma Store.sorted_dirtyPaths (s : Store) : s.dirtyPaths.Pairwise fun p q => p.le q = true := by
  have trans (p q r : Path) (first : p.le q = true) (second : q.le r = true) : p.le r = true :=
    Path.le_trans first second
  exact List.pairwise_mergeSort trans Path.le_total _

lemma Store.distinct_dirtyPaths (s : Store) : (s.dirtyPaths.map Path.components).Nodup := by
  unfold dirtyPaths
  rw [((List.mergeSort_perm _ _).map _).nodup_iff, List.map_map]
  exact s.distinct.sublist (List.filter_sublist.map _)

lemma Path.same_iff {p q : Path} : p.same q = true ↔ p.components = q.components :=
  decide_eq_true_iff

/-- What is open under a path is among the modules, under a path with the same components. -/
lemma Store.module_eq_ok {q : Path} :
    s.module q = .ok m ↔ ∃ p, p.same q = true ∧ (p, m) ∈ s.modules := by
  unfold module get?
  cases look : s.modules.find? (·.1.same q) with
  | none =>
    have none := List.find?_eq_none.1 look
    exact ⟨nofun, fun ⟨p, same, listed⟩ => absurd same (none (p, m) listed)⟩
  | some e =>
    obtain ⟨p, n⟩ := e
    have same : p.same q = true :=
      List.find?_some (a := (p, n)) (p := fun e : Path × Module => e.1.same q) look
    have listed : (p, n) ∈ s.modules := List.mem_of_find?_eq_some look
    constructor
    · intro h
      cases h
      exact ⟨p, same, listed⟩
    · rintro ⟨p', same', listed'⟩
      have components := (Path.same_iff.1 same).trans (Path.same_iff.1 same').symm
      cases List.inj_on_of_nodup_map s.distinct listed listed' components
      rfl

/-- The image of an open module is what the module is as bytes. -/
lemma Store.image_of_mem (h : (p, m) ∈ s.modules) :
    s.image p = m.toBytes.mapError (.moduleNotEncoded p.text) := by
  unfold image
  rw [module_eq_ok.2 ⟨p, Path.same_iff.2 rfl, h⟩]
  rfl

lemma Store.image_eq_ok {image : Bytes} (h : (p, m) ∈ s.modules) :
    s.image p = .ok image ↔ m.toBytes = .ok image := by
  rw [image_of_mem h, mapError_eq_ok]

lemma Store.image_eq_error (h : (p, m) ∈ s.modules) : s.image p = .error e
    ↔ ∃ cause, m.toBytes = .error cause ∧ .moduleNotEncoded p.text cause = e := by
  rw [image_of_mem h, mapError_eq_error]

/-- An image that cannot be made is reported as that of its module. -/
lemma Store.unwritten_of_image (h : (p, m) ∈ s.modules) (refused : s.image p = .error e) :
    e.Unwritten p := by
  obtain ⟨cause, _, rfl⟩ := (image_eq_error h).1 refused
  exact .inl ⟨cause, rfl⟩

lemma Store.all_encoded
    (encodes : ∀ p m, (p, m) ∈ s.modules → m.dirty = true → ∃ image, m.toBytes = .ok image) :
    ∀ p ∈ s.dirtyPaths, ∃ image, s.image p = .ok image := by
  intro p hp
  obtain ⟨m, mem, dirty⟩ := mem_dirtyPaths.1 hp
  obtain ⟨image, encoded⟩ := encodes p m mem dirty
  exact ⟨image, (image_eq_ok mem).2 encoded⟩

end

/-! ## The commit -/

/-- Nothing is where images are staged and files are kept, and nothing is to be written there. -/
structure Volume.Clear (v : Volume) (ps : List Path) : Prop where
  free : ∀ p ∈ ps, ∀ r ∈ [Store.staging p, Store.backup p], v.file? r = none
  apart : ∀ p ∈ ps, ∀ r ∈ [Store.staging p, Store.backup p], ∀ q ∈ ps, r.components ≠ q.components

lemma isSuffix_tmp : Path.IsSuffix ".tmp" :=
  ⟨by decide, by decide⟩

lemma isSuffix_bak : Path.IsSuffix ".bak" :=
  ⟨by decide, by decide⟩

lemma staging_ne_backup (p q : Path) :
    (Store.staging p).components ≠ (Store.backup q).components :=
  Path.withSuffix_ne isSuffix_tmp isSuffix_bak (by decide) (by decide)

/-- The files of different modules are different if none is where another one is staged or kept. -/
lemma Volume.Clear.separate (h : v.Clear ps) (distinct : (ps.map Path.components).Nodup) :
    Separate ps where
  single p hp :=
    { file_staged := (h.apart p hp _ (List.mem_cons_self ..) p hp).symm
      file_kept := (h.apart p hp _ (List.mem_cons_of_mem _ (List.mem_cons_self ..)) p hp).symm
      staged_kept := staging_ne_backup p p }
  pairs := by
    refine (List.pairwise_map.1 distinct).imp_of_mem fun {p q} hp hq ne key inp inq => ?_
    have apart {p q : Path} (hp : p ∈ ps) (hq : q ∈ ps) :
        (Store.staging p).components ≠ q.components ∧ (Store.backup p).components ≠ q.components :=
      ⟨h.apart p hp _ (List.mem_cons_self ..) q hq,
        h.apart p hp _ (List.mem_cons_of_mem _ (List.mem_cons_self ..)) q hq⟩
    simp only [keys, List.mem_cons, List.not_mem_nil, or_false] at inp inq
    rcases inp with rfl | rfl | rfl
    · rcases inq with same | same | same
      · exact ne same
      · exact (apart hq hp).1 same.symm
      · exact (apart hq hp).2 same.symm
    · rcases inq with same | same | same
      · exact (apart hp hq).1 same
      · exact ne (Path.components_of_withSuffix isSuffix_tmp same)
      · exact staging_ne_backup p q same
    · rcases inq with same | same | same
      · exact (apart hp hq).2 same
      · exact staging_ne_backup q p same.symm
      · exact ne (Path.components_of_withSuffix isSuffix_bak same)

lemma Volume.Clear.staged_eq_none (h : v.Clear ps) (hp : p ∈ ps) : (v.cell p).staged = none :=
  h.free p hp _ (List.mem_cons_self ..)

lemma Volume.Clear.kept_eq_none (h : v.Clear ps) (hp : p ∈ ps) : (v.cell p).kept = none :=
  h.free p hp _ (List.mem_cons_of_mem _ (List.mem_cons_self ..))

/-- Where images were staged, all files are ready to be replaced. -/
lemma Volume.Clear.staged {image : Path → Bytes} (h : v.Clear ps)
    (moves : v.Moves v' ps fun p c => { c with staged := some (image p) }) (hp : p ∈ ps) :
    v'.Staged p where
  staged := by
    rw [moves.cells p hp]
    rfl
  unkept := by
    rw [moves.cells p hp]
    exact h.kept_eq_none hp

/-- The store that is left by an attempt to commit it. -/
def Store.left {σ : Type} (s : Store) : EStateM.Result Fault σ (List Path × Store) → Store
  | .ok (_, s) _ => s
  | .error _ _ => s

/-- A commit takes this many steps until all files are replaced: every image is written, and every
file is renamed. -/
def Store.steps (s : Store) (v : Volume) : Nat :=
  s.dirtyPaths.length + v.renamesAll s.dirtyPaths

namespace Store

variable {v' : Volume}

lemma exists_image (all : ∀ p ∈ ps, ∃ image, s.image p = .ok image) :
    ∃ image : Path → Bytes, ∀ p ∈ ps, s.image p = .ok (image p) := by
  refine ⟨fun p => (s.image p).toOption.getD [], fun p hp => ?_⟩
  obtain ⟨image, encoded⟩ := all p hp
  show s.image p = .ok ((s.image p).toOption.getD [])
  rw [encoded]
  rfl

/-- If nothing fails, the cells of all modules that were changed end up with the new image. -/
lemma commit_ok {image : Path → Bytes} (separate : Separate s.dirtyPaths)
    (clear : v.Clear s.dirtyPaths) (encoded : ∀ p ∈ s.dirtyPaths, s.image p = .ok (image p))
    (reliable : v.Reliable) :
    ∃ v', s.commit v = .ok (s.dirtyPaths, s.modifyWhere (fun _ => true) Module.clean) v'
      ∧ v.Moves v' s.dirtyPaths fun p _ => ⟨some (image p), none, none⟩ := by
  obtain ⟨v₁, staged, plan₁, moves₁⟩ := stage_ok [] encoded separate
    fun k _ => reliable k
  have reliable₁ : v₁.Reliable := fun k => (plan₁ k).trans (reliable _)
  obtain ⟨v₂, swapped, plan₂, moves₂⟩ := swapAll_ok [] separate (fun p hp => clear.staged moves₁ hp)
    fun k _ => reliable₁ k
  have reliable₂ : v₂.Reliable := fun k => (plan₂ k).trans (reliable₁ _)
  have kept : ∀ r ∈ v₁.replacements s.dirtyPaths, r.existed = (v₂.cell r.path).kept.isSome := by
    intro r hr
    obtain ⟨p, hp, rfl⟩ := List.mem_map.1 hr
    rw [moves₂.cells p hp]
    rfl
  have separate' : Separate ((v₁.replacements s.dirtyPaths).map Swapped.path) := by
    rwa [map_path_replacements]
  obtain ⟨v₃, discarded, _, moves₃⟩ := discardKept_ok separate' reliable₂ kept
  rw [map_path_replacements] at moves₃
  rw [List.append_nil] at swapped
  rw [← List.reverse_reverse (v₁.replacements _)] at discarded
  refine ⟨v₃, ?_, ((moves₁.comp moves₂).comp moves₃).congr fun p hp => ?_⟩
  · exact (bind_of_ok staged).trans ((bind_of_ok swapped).trans (bind_of_ok discarded))
  · rfl

/-- A commit that goes well leaves all other files as they were. -/
lemma file?_of_apart {q : Path} {image : Path → Bytes} (clear : v.Clear ps)
    (moves : v.Moves v' ps fun p _ => ⟨some (image p), none, none⟩)
    (apart : ∀ p ∈ ps, q.components ≠ p.components) : v'.file? q = v.file? q := by
  by_cases outside : ∀ p ∈ ps, q.components ∉ keys p
  · exact moves.outside _ outside
  · obtain ⟨p, hp, mem⟩ : ∃ p ∈ ps, q.components ∈ keys p := by
      simpa only [not_forall, not_not, exists_prop] using outside
    have free := clear.free p hp
    have cell := moves.cells p hp
    simp only [keys, List.mem_cons, List.not_mem_nil, or_false] at mem
    rcases mem with same | same | same
    · exact absurd same (apart p hp)
    · have staged : v'.file? (staging p) = none := congrArg Cell.staged cell
      have unstaged : v.file? (staging p) = none := free _ (List.mem_cons_self ..)
      unfold file? at staged unstaged ⊢
      rw [same, staged, unstaged]
    · have kept : v'.file? (backup p) = none := congrArg Cell.kept cell
      have unkept : v.file? (backup p) = none :=
        free _ (List.mem_cons_of_mem _ (List.mem_cons_self ..))
      unfold file? at kept unkept ⊢
      rw [same, kept, unkept]

/-- What keeps a commit from replacing all files: an image cannot be made, or one of the steps until
all files are replaced fails before that. All other steps take effect. -/
def CommitFails (s : Store) (v : Volume) : Prop :=
  (v.Reliable ∧ ∃ p ∈ s.dirtyPaths, ∃ e, s.image p = .error e)
    ∨ ∃ k mishap, k < s.steps v ∧ v.FailsAt k mishap
      ∧ ∀ p ∈ s.dirtyPaths.take (k + 1), ∃ image, s.image p = .ok image

/-- If a commit fails, all files are as they were. -/
lemma commit_error (separate : Separate s.dirtyPaths) (clear : v.Clear s.dirtyPaths)
    (unwritten : ∀ p ∈ s.dirtyPaths, ∀ e, s.image p = .error e → e.Unwritten p)
    (fails : s.CommitFails v) :
    ∃ e v', s.commit v = .error e v' ∧ (∃ p ∈ s.dirtyPaths, e.Unwritten p)
      ∧ v'.contents = v.contents := by
  have unstaged : ∀ p ∈ s.dirtyPaths, (v.cell p).staged = none := fun p hp =>
    clear.staged_eq_none hp
  by_cases staging : s.StagingFails v s.dirtyPaths
  · obtain ⟨e, v', ran, blamed, moves⟩ :=
      stage_error [] separate unstaged unwritten staging
    refine ⟨e, v', bind_of_error ran, blamed, moves.contents_eq fun p hp => ?_⟩
    exact Cell.ext rfl (unstaged p hp).symm rfl
  · -- All images are staged, so that it is a rename that fails.
    obtain ⟨k, mishap, few, fails, all⟩ := fails.resolve_left fun h => staging (.inl h)
    have many : s.dirtyPaths.length ≤ k := Nat.le_of_not_lt fun few =>
      staging (.inr ⟨k, mishap, few, fails, all⟩)
    rw [List.take_of_length_le (Nat.le_succ_of_le many)] at all
    obtain ⟨image, encoded⟩ := exists_image all
    obtain ⟨v₁, staged, plan₁, moves₁⟩ := stage_ok [] encoded separate
      fun j hj => fails.others j (by omega)
    have renames : v₁.renamesAll s.dirtyPaths = v.renamesAll s.dirtyPaths :=
      renamesAll_congr fun p hp => congrArg Cell.file (moves₁.cells p hp)
    have few₁ : k - s.dirtyPaths.length < v₁.renamesAll s.dirtyPaths := by
      unfold steps at few
      rw [renames]
      omega
    obtain ⟨e, v', ran, blamed, moves⟩ := swapAll_error [] separate (fun _ hr => nomatch hr)
      (fun p hp => clear.staged moves₁ hp) few₁ (fails.of_plan plan₁ many)
    refine ⟨e, v', ?_, blamed, (moves₁.comp moves).contents_eq fun p hp => ?_⟩
    · exact (bind_of_ok staged).trans (bind_of_error ran)
    · exact Cell.ext rfl (unstaged p hp).symm (clear.kept_eq_none hp).symm

/-- A commit writes all modules that were changed, or changes nothing. It is given that no file is
where an image is staged or a file is kept, and that no module is to be written there. -/
theorem commit_all_or_nothing (clear : v.Clear s.dirtyPaths) :
    (v.Reliable → (∀ p m, (p, m) ∈ s.modules → m.dirty = true → ∃ image, m.toBytes = .ok image) →
      ∃ s' v', s.commit v = .ok (s.dirtyPaths, s') v'
        ∧ s.dirtyPaths.Pairwise (fun p q => p.le q = true)
        ∧ (∀ p, p ∈ s.dirtyPaths ↔ ∃ m, (p, m) ∈ s.modules ∧ m.dirty = true)
        ∧ (∀ p m, (p, m) ∈ s.modules → m.dirty = true →
          ∃ image, m.toBytes = .ok image ∧ v'.file? p = some image)
        ∧ (∀ q, (∀ p ∈ s.dirtyPaths, q.components ≠ p.components) → v'.file? q = v.file? q)
        ∧ s'.modules = s.modules.map (fun e => (e.1, e.2.clean))
        ∧ ∀ e ∈ s'.modules, e.2.dirty = false)
    ∧ ((v.Reliable ∧ ∃ p m cause, (p, m) ∈ s.modules ∧ m.dirty = true ∧ m.toBytes = .error cause)
        ∨ (∃ k mishap, k < s.steps v ∧ v.FailsAt k mishap
          ∧ ∀ p ∈ s.dirtyPaths.take (k + 1), ∃ image, s.image p = .ok image) →
      ∃ e v', s.commit v = .error e v' ∧ (∃ p ∈ s.dirtyPaths, e.Unwritten p)
        ∧ (∀ q, v'.file? q = v.file? q) ∧ s.left (s.commit v) = s) := by
  have separate := clear.separate s.distinct_dirtyPaths
  refine ⟨fun reliable encodes => ?_, fun fails => ?_⟩
  · obtain ⟨image, encoded⟩ := exists_image (all_encoded encodes)
    obtain ⟨v', ran, moves⟩ := commit_ok separate clear encoded reliable
    refine ⟨_, v', ran, s.sorted_dirtyPaths, fun p => mem_dirtyPaths, fun p m mem dirty => ?_,
      fun q apart => file?_of_apart clear moves apart, rfl, fun e he => ?_⟩
    · have hp := mem_dirtyPaths.2 ⟨m, mem, dirty⟩
      obtain ⟨data, made⟩ := encodes p m mem dirty
      cases ((image_eq_ok mem).2 made).symm.trans (encoded p hp)
      exact ⟨_, made, congrArg Cell.file (moves.cells p hp)⟩
    · obtain ⟨e', _, rfl⟩ := List.mem_map.1 he
      rfl
  · have fails : s.CommitFails v := by
      rcases fails with ⟨reliable, p, m, cause, mem, dirty, refused⟩ | ⟨k, mishap, few, fails, all⟩
      · exact .inl ⟨reliable, p, mem_dirtyPaths.2 ⟨m, mem, dirty⟩, _,
          (image_eq_error mem).2 ⟨cause, refused, rfl⟩⟩
      · exact .inr ⟨k, mishap, few, fails, all⟩
    have unwritten : ∀ p ∈ s.dirtyPaths, ∀ e, s.image p = .error e → e.Unwritten p := by
      intro p hp e refused
      obtain ⟨m, mem, _⟩ := mem_dirtyPaths.1 hp
      exact unwritten_of_image mem refused
    obtain ⟨e, v', ran, blamed, same⟩ := commit_error separate clear unwritten fails
    refine ⟨e, v', ran, blamed, fun q => ?_, ?_⟩
    · unfold file?
      rw [same]
    · rw [ran]
      rfl

end Store

namespace Example

/-- Two modules that were changed. -/
def shop : Store where
  modules := [(⟨"app.dll"⟩, { Module.named "app" with dirty := true }),
    (⟨"lib.dll"⟩, { Module.named "lib" with dirty := true })]
  distinct := by decide

/-- Files of which one is to be replaced. -/
def shelf (plan : Nat → Option Mishap) : Volume where
  contents key := if key = [.name "app.dll"] then some [1, 2, 3] else none
  plan := plan

lemma dirtyPaths_shop : shop.dirtyPaths = [⟨"app.dll"⟩, ⟨"lib.dll"⟩] := by
  have sorted : [(⟨"app.dll"⟩ : Path), ⟨"lib.dll"⟩].Pairwise fun p q => p.le q = true := by
    decide +kernel
  exact List.mergeSort_of_pairwise sorted

lemma clear_shop (plan : Nat → Option Mishap) : (shelf plan).Clear shop.dirtyPaths := by
  rw [dirtyPaths_shop]
  refine ⟨fun p hp r hr => ?_, by decide +kernel⟩
  have other : ∀ p ∈ [(⟨"app.dll"⟩ : Path), ⟨"lib.dll"⟩], ∀ r ∈ [Store.staging p, Store.backup p],
      r.components ≠ [.name "app.dll"] := by decide +kernel
  exact if_neg (other p hp r hr)

lemma encodes_shop : ∀ p m, (p, m) ∈ shop.modules → m.dirty = true →
    ∃ image, m.toBytes = .ok image := by
  have written : ∀ e ∈ shop.modules, e.2.toBytes.isOk = true := by decide +kernel
  intro p m mem _
  have written := written _ mem
  cases made : m.toBytes with
  | ok image => exact ⟨image, rfl⟩
  | error e =>
    simp only [made] at written
    cases written

/-- Both modules are written if nothing fails. Neither is if the last rename fails. -/
theorem shop_committed :
    (∃ s' v', shop.commit (shelf fun _ => none) = .ok ([⟨"app.dll"⟩, ⟨"lib.dll"⟩], s') v')
    ∧ ∃ e v', shop.commit (shelf fun k => if k = 4 then some ⟨.notFound, none⟩ else none)
        = .error e v' ∧ v'.file? ⟨"app.dll"⟩ = some [1, 2, 3] ∧ v'.file? ⟨"lib.dll"⟩ = none := by
  constructor
  · obtain ⟨s', v', ran, _⟩ := (Store.commit_all_or_nothing (clear_shop _)).1 (fun _ => rfl)
      encodes_shop
    exact ⟨s', v', dirtyPaths_shop ▸ ran⟩
  · have fails : (shelf fun k => if k = 4 then some ⟨.notFound, none⟩ else none).FailsAt 4
        ⟨.notFound, none⟩ := ⟨rfl, fun k hk => if_neg hk⟩
    have few : 4 < shop.steps (shelf fun k => if k = 4 then some ⟨.notFound, none⟩ else none) := by
      unfold Store.steps
      rw [dirtyPaths_shop]
      decide +kernel
    obtain ⟨e, v', ran, _, same, _⟩ := (Store.commit_all_or_nothing (clear_shop _)).2
      (.inr ⟨4, _, few, fails, fun p hp =>
        Store.all_encoded encodes_shop p (List.mem_of_mem_take hp)⟩)
    exact ⟨e, v', ran, (same _).trans (by decide +kernel), (same _).trans (by decide +kernel)⟩

end Example
end HookWeave
