import HookWeave.Proofs.Storage.Trees

/-!
# Commits that fail

A commit of one module in a tree fails if its image cannot be made or cannot be staged. Once it is staged
nothing is in the way any more: the names of what is moved are as long as that of the staged image
(`FileSystem.follow_withSuffix`). So a commit that fails leaves the tree as it was
(`FileSystem.of_commit_eq_error`).
-/

namespace HookWeave
namespace FileSystem

variable {fs fs' : FileSystem} {l m s k t : Location} {p q : Path} {data image old : Bytes}
  {suffix suffix' : String}

/-! ## Siblings -/

lemma checkText_eq_ok : checkText p = .ok () ↔ '\x00' ∉ p.text.toList ∧ p.text.isEmpty = false
    ∧ p.text.utf8ByteSize ≤ maxPathSize := by
  unfold checkText
  split
  · next nul => exact ⟨nofun, fun h => absurd (List.contains_iff_mem.1 nul) h.1⟩
  · next nul =>
    split
    · next empty => exact ⟨nofun, fun h => absurd empty (Bool.eq_false_iff.1 h.2.1)⟩
    · next text =>
      split
      · next long => exact ⟨nofun, fun h => absurd long (Nat.not_lt.2 h.2.2)⟩
      · next short =>
        refine ⟨fun _ => ⟨mt List.contains_iff_mem.2 nul, ?_, Nat.not_lt.1 short⟩, fun _ => rfl⟩
        exact Bool.eq_false_iff.2 text

/-- A path with a suffix leads to an entry of the directory that the path without its last name leads to,
and the name of the entry ends with the suffix. -/
lemma follow_withSuffix_eq_ok (isSuffix : Path.IsSuffix suffix) {init : List (List Char)}
    {last : List Char} (split : Path.pieces p.text.toList = init ++ [last]) :
    fs.follow (p.withSuffix suffix) = .ok m ↔ checkText (p.withSuffix suffix) = .ok () ∧ ∃ d,
      (if p.isAbsolute then .top :: init.map Path.Step.ofPiece else init.map Path.Step.ofPiece).foldlM
        fs.step [] = .ok d ∧ fs.get? d = some .directory
      ∧ (String.ofList (last ++ suffix.toList)).utf8ByteSize ≤ maxNameSize
      ∧ m = d ++ [String.ofList (last ++ suffix.toList)] := by
  unfold FileSystem.follow
  rw [bind_eq_ok, Path.steps_eq (Path.pieces_withSuffix isSuffix split),
    Path.isAbsolute_withSuffix isSuffix, List.foldlM_append]
  constructor
  · rintro ⟨_, checked, steps⟩
    obtain ⟨d, front, stepped⟩ := bind_eq_ok.1 steps
    obtain ⟨_, stepped, same⟩ := bind_eq_ok.1 (show (fs.step d _ >>= pure) = _ from stepped)
    cases same
    have directory := of_step_eq_ok stepped
    unfold FileSystem.step at stepped
    rw [directory, (Path.ofPiece_append isSuffix last).2] at stepped
    dsimp only at stepped
    split at stepped
    · next fits =>
      cases stepped
      exact ⟨checked, d, front, directory, fits, rfl⟩
    · cases stepped
  · rintro ⟨checked, d, front, directory, fits, rfl⟩
    refine ⟨(), checked, bind_eq_ok.2 ⟨d, front, bind_eq_ok.2 ⟨_, ?_, rfl⟩⟩⟩
    unfold FileSystem.step
    rw [directory, (Path.ofPiece_append isSuffix last).2]
    exact if_pos fits

/-- The path of another sibling of a file leads somewhere if its suffix is of the same size. -/
lemma follow_withSuffix (isSuffix : Path.IsSuffix suffix) (isSuffix' : Path.IsSuffix suffix')
    (size : suffix'.utf8ByteSize = suffix.utf8ByteSize) (plain : '\x00' ∉ suffix'.toList)
    (h : fs.follow (p.withSuffix suffix) = .ok m) : ∃ m', fs.follow (p.withSuffix suffix') = .ok m' := by
  have text (added : String) : (p.withSuffix added).text = p.text ++ added := rfl
  obtain ⟨init, last, split⟩ := Path.exists_pieces_eq p.text.toList
  obtain ⟨checked, d, front, directory, fits, _⟩ := (follow_withSuffix_eq_ok isSuffix split).1 h
  obtain ⟨nul, _, short⟩ := checkText_eq_ok.1 checked
  rw [text, String.toList_append, List.mem_append, not_or] at nul
  rw [text, String.utf8ByteSize_append] at short
  have checked' : checkText (p.withSuffix suffix') = .ok () := by
    refine checkText_eq_ok.2 ⟨?_, ?_, ?_⟩
    · rw [text, String.toList_append, List.mem_append, not_or]
      exact ⟨nul.1, plain⟩
    · rw [text, Bool.eq_false_iff, ne_eq, String.isEmpty_iff]
      intro empty
      have none := congrArg (List.length ∘ String.toList) empty
      have long := isSuffix'.long
      simp only [Function.comp_apply, String.toList_append, List.length_append] at none
      have : ("" : String).toList.length = 0 := rfl
      omega
    · rwa [text, String.utf8ByteSize_append, size]
  refine ⟨_, (follow_withSuffix_eq_ok isSuffix' split).2 ⟨checked', d, front, directory, ?_, rfl⟩⟩
  rw [String.ofList_append, String.ofList_toList, String.utf8ByteSize_append] at fits ⊢
  rwa [size]

/-- A file can be moved to where nothing is. -/
lemma renamed_eq_ok (source : fs.follow p = .ok s) (target : fs.follow q = .ok t)
    (file : fs.get? s = some (.file data)) (free : fs.get? t = none) :
    fs.renamed p q = .ok (fs.relocated s t) := by
  have differs : s ≠ t := by
    rintro rfl
    cases file.symm.trans free
  obtain ⟨_, checked, _⟩ := bind_eq_ok.1 source
  obtain ⟨_, checked', _⟩ := bind_eq_ok.1 target
  refine bind_eq_ok.2 ⟨(), checked, bind_eq_ok.2 ⟨(), checked', bind_eq_ok.2 ⟨s, source,
    bind_eq_ok.2 ⟨t, target, ?_⟩⟩⟩⟩
  rw [file, free]
  exact if_neg differs

/-- Once the image is staged, the file can be moved aside and the image into its place. -/
lemma renames_eq_ok {fs₁ : FileSystem} (reads : fs.read p = .ok old)
    (unstaged : fs.occupied (Store.staging p) = false) (unkept : fs.occupied (Store.backup p) = false)
    (stage : fs.written (Store.staging p) image = .ok fs₁) :
    ∃ fs₂ fs₃, fs₁.renamed p (Store.backup p) = .ok fs₂ ∧ fs₂.renamed (Store.staging p) p = .ok fs₃ := by
  obtain ⟨l, leads, file⟩ := read_eq_ok.1 reads
  obtain ⟨s, staged, _, rfl⟩ := of_written_eq_ok stage
  obtain ⟨k, kept⟩ := follow_withSuffix isSuffix_tmp isSuffix_bak (by decide) (by decide) staged
  have places := places_of_follow leads file staged kept unstaged unkept
  have directories : fs.SameDirectories (fs.put s (.file image)) := sameDirectories_put places.unstaged
  have there : (fs.put s (.file image)).get? l = some (.file old) := by
    rw [get?_put places.unstaged, if_neg places.file_ne_staged, file]
  have free : (fs.put s (.file image)).get? k = none := by
    rw [get?_put places.unstaged, if_neg places.staged_ne_kept.symm, places.unkept]
  have keep := renamed_eq_ok (directories.follow.2 leads) (directories.follow.2 kept) there free
  have staged' : ((fs.put s (.file image)).relocated l k).get? s = some (.file image) := by
    rw [places.get?_kept (stands_of_follow staged), if_neg places.staged_ne_kept,
      if_neg places.file_ne_staged.symm, if_pos rfl]
  have free' : ((fs.put s (.file image)).relocated l k).get? l = none := by
    rw [places.get?_kept (stands_of_follow leads), if_neg places.file_ne_kept, if_pos rfl]
  exact ⟨_, _, keep, renamed_eq_ok (places.sameDirectories_kept.follow.2 staged)
    (places.sameDirectories_kept.follow.2 leads) staged' free'⟩

/-! ## Commits -/

variable {store : Store} {e : Fault}

lemma change_of_error {f : FileSystem → Except IoFault FileSystem} {cause : IoFault}
    (h : f fs = .error cause) : change f fs = .error cause fs := by
  unfold change
  rw [h]

lemma writing_of_ok {α : Type} {op : DiskOp FileSystem α} {a : α} (h : op fs = .ok a fs') :
    Disk.writing p op fs = .ok a fs' := by
  show EStateM.adaptExcept _ _ fs = _
  rw [EStateM.adaptExcept, h]

/-- Nothing is removed where nothing is. -/
lemma discardStaged_of_free (free : fs.occupied (Store.staging p) = false) :
    Store.discardStaged [p] fs = .ok () fs := by
  have stays : ∃ cause, fs.removed (Store.staging p) = .error cause := by
    unfold FileSystem.removed
    cases leads : fs.follow (Store.staging p) with
    | error cause => exact ⟨cause, rfl⟩
    | ok l => exact ⟨.notFound, by simp only [bind, Except.bind, get?_of_not_occupied free leads]; rfl⟩
  obtain ⟨cause, fails⟩ := stays
  have attempted : Disk.attempt (ε := Fault) (Disk.remove (Store.staging p)) fs = .ok () fs := by
    have ran : Disk.remove (Store.staging p) fs = .error cause fs := change_of_error fails
    unfold Disk.attempt
    rw [ran]
  exact bind_of_ok attempted

/-- An image that cannot be staged leaves the tree as it was. -/
lemma of_stage_eq_error (free : fs.occupied (Store.staging p) = false)
    (unwritten : ∀ e, store.image p = .error e → e.Unwritten p)
    (h : store.stage [] [p] fs = .error e fs') : fs' = fs ∧ e.Unwritten p := by
  have staying : ∃ r, store.writeImage p (Store.staging p) fs = r
      ∧ ((∃ fs₁, r = .ok () fs₁) ∨ ∃ e, r = .error e fs ∧ e.Unwritten p) := by
    refine ⟨_, rfl, ?_⟩
    unfold Store.writeImage
    cases encoded : store.image p with
    | error e => exact .inr ⟨e, rfl, unwritten e encoded⟩
    | ok image =>
      cases ran : fs.written (Store.staging p) image with
      | ok fs₁ =>
        exact .inl ⟨fs₁, writing_of_ok (change_eq_ok.2 ran)⟩
      | error cause =>
        refine .inr ⟨.moduleNotWritten p.text cause, ?_, .inr ⟨cause, rfl⟩⟩
        have ran : Disk.write (Store.staging p) image fs = .error cause fs := change_of_error ran
        show EStateM.adaptExcept _ _ fs = _
        rw [EStateM.adaptExcept, ran]
  obtain ⟨r, ran, ⟨fs₁, rfl⟩ | ⟨e', rfl, blamed⟩⟩ := staying
  · have staged : store.stage [] [p] fs = .ok () fs₁ :=
      (bind_of_ok (tryCatch_of_ok ran)).trans rfl
    cases staged.symm.trans h
  · have staged : store.stage [] [p] fs = .error e' fs :=
      bind_of_error ((tryCatch_of_error ran).trans ((bind_of_ok (discardStaged_of_free free)).trans rfl))
    cases staged.symm.trans h
    exact ⟨rfl, blamed⟩

/-- A file whose image is staged is replaced by it. -/
lemma swap_of_staged {fs₁ : FileSystem} (reads : fs.read p = .ok old)
    (unstaged : fs.occupied (Store.staging p) = false) (unkept : fs.occupied (Store.backup p) = false)
    (stage : fs.written (Store.staging p) image = .ok fs₁) :
    ∃ fs₃, Store.swap p fs₁ = .ok true fs₃ := by
  obtain ⟨fs₂, fs₃, keep, place⟩ := renames_eq_ok reads unstaged unkept stage
  have occupied : Disk.occupied fs₁ p = true := occupied_of_read (read_written reads unstaged stage)
  have here : (get : DiskOp FileSystem FileSystem) fs₁ = .ok fs₁ fs₁ := rfl
  refine ⟨fs₃, (bind_of_ok here).trans ?_⟩
  simp only [occupied, if_true]
  have kept : Disk.rename p (Store.backup p) fs₁ = .ok () fs₂ := change_eq_ok.2 keep
  have placed : Disk.rename (Store.staging p) p fs₂ = .ok () fs₃ := change_eq_ok.2 place
  exact (bind_of_ok kept).trans ((bind_of_ok (tryCatch_of_ok placed)).trans rfl)

/-- A commit that fails, of a store with one module that was changed, leaves the tree as it was. -/
theorem of_commit_eq_error (one : store.dirtyPaths = [p]) (reads : fs.read p = .ok old)
    (unstaged : fs.occupied (Store.staging p) = false) (unkept : fs.occupied (Store.backup p) = false)
    (unwritten : ∀ e, store.image p = .error e → e.Unwritten p)
    (h : store.commit fs = .error e fs') : fs' = fs ∧ e.Unwritten p := by
  unfold Store.commit at h
  rw [one] at h
  cases staged : store.stage [] [p] fs with
  | error e' fs₁ =>
    rw [bind_of_error staged] at h
    cases h
    exact of_stage_eq_error unstaged unwritten staged
  | ok u fs₁ =>
    -- Nothing else fails then.
    rw [bind_of_ok staged] at h
    obtain ⟨_, _, written, same⟩ := edit_bind_eq_ok.1 staged
    cases same
    obtain ⟨image, _, stage⟩ := writeImage_eq_ok (of_tryCatch_eq_ok written fun _ _ => bind_throw_ne_ok)
    obtain ⟨fs₃, swap⟩ := swap_of_staged reads unstaged unkept stage
    have swapped : Store.swapAll [] [p] fs₁ = .ok [⟨p, true⟩] fs₃ :=
      (bind_of_ok (tryCatch_of_ok (writing_of_ok swap))).trans rfl
    rw [bind_of_ok swapped] at h
    obtain ⟨fs₄, removed⟩ : ∃ fs₄, Disk.attempt (ε := Fault) (Disk.remove (Store.backup p)) fs₃
        = .ok () fs₄ := by
      unfold Disk.attempt
      cases Disk.remove (Store.backup p) fs₃ with
      | ok u fs₄ | error e fs₄ => exact ⟨fs₄, rfl⟩
    have cleared : (([⟨p, true⟩] : List Store.Swapped).reverse.forM fun r => do
        if r.existed then
          Disk.attempt (ε := Fault) (Disk.remove (Store.backup r.path))) fs₃ = .ok () fs₄ :=
      bind_of_ok removed
    rw [bind_of_ok cleared] at h
    cases h

end FileSystem
end HookWeave
