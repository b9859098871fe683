import HookWeave.Proofs.Storage.Commit
import HookWeave.Storage.FileSystem

/-!
# Trees of files

Paths lead to locations that stand in directories (`FileSystem.Stands`), so that nothing below a file is
ever reached. In trees with the same directories they lead to the same locations
(`FileSystem.SameDirectories.follow`), so that the steps of a commit can be looked at one by one
(`FileSystem.Places`). A commit that goes well, of a single module, replaces its file and leaves every
other as it was (`FileSystem.of_commit_eq_ok`).
-/

namespace HookWeave
namespace FileSystem

variable {fs fs' : FileSystem} {l m s t : Location} {p : Path} {e : Entry} {data : Bytes}

/-! ## Entries -/

/-- What is looked up among entries that are kept by their locations is there if it is kept. -/
lemma lookup_filter (entries : List (Location × Entry)) (keep : Location → Bool) :
    (entries.filter fun e => keep e.1).lookup l = if keep l then entries.lookup l else none := by
  induction entries with
  | nil => exact (ite_self none).symm
  | cons first entries ih =>
    obtain ⟨m, e⟩ := first
    rw [List.filter_cons, List.lookup_cons]
    cases same : l == m with
    | true =>
      cases eq_of_beq same
      cases kept : keep l with
      | true => rw [if_pos rfl, if_pos rfl, List.lookup_cons_self]
      | false =>
        rw [if_neg Bool.false_ne_true, if_neg Bool.false_ne_true, ih, kept]
        rfl
    | false =>
      cases kept : keep m with
      | true => rw [if_pos rfl, List.lookup_cons, same, ih]
      | false => rw [if_neg Bool.false_ne_true, ih]

lemma get?_top : fs.get? [] = some .directory :=
  rfl

lemma get?_of_ne_nil (h : l ≠ []) : fs.get? l = fs.entries.lookup l := by
  cases l with
  | nil => exact absurd rfl h
  | cons => rfl

lemma get?_put_self (h : l ≠ []) : (fs.put l e).get? l = some e := by
  rw [get?_of_ne_nil h]
  exact List.lookup_cons_self

lemma get?_put_of_ne (h : m ≠ l) : (fs.put l e).get? m = fs.get? m := by
  by_cases top : m = []
  · rw [top, get?_top, get?_top]
  · rw [get?_of_ne_nil top, get?_of_ne_nil top]
    show List.lookup m ((l, e) :: fs.entries.filter fun e => decide (e.1 ≠ l)) = _
    rw [List.lookup_cons, beq_false_of_ne h, lookup_filter fs.entries fun m => decide (m ≠ l)]
    exact if_pos (decide_eq_true h)

lemma get?_prune_of_not_below (h : ¬ l <+: m) : (fs.prune l).get? m = fs.get? m := by
  by_cases top : m = []
  · rw [top, get?_top, get?_top]
  · rw [get?_of_ne_nil top, get?_of_ne_nil top]
    show (fs.entries.filter fun e => !l.isPrefixOf e.1).lookup m = _
    rw [lookup_filter fs.entries fun m => !l.isPrefixOf m, if_pos]
    rwa [Bool.not_eq_true', ← Bool.not_eq_true, List.isPrefixOf_iff_prefix]

lemma get?_prune_self (h : l ≠ []) : (fs.prune l).get? l = none := by
  rw [get?_of_ne_nil h]
  show (fs.entries.filter fun e => !l.isPrefixOf e.1).lookup l = none
  rw [lookup_filter fs.entries fun m => !l.isPrefixOf m, if_neg]
  rw [List.isPrefixOf_iff_prefix.2 (List.prefix_refl l)]
  exact Bool.false_ne_true

/-- What is moved lies below the location that it is moved to. -/
lemma lookup_moved_of_not_below (h : ¬ t <+: l) : (fs.moved s t).lookup l = none := by
  refine List.lookup_eq_none_iff.2 fun entry hentry => bne_iff_ne.2 ?_
  obtain ⟨e, _, rfl⟩ := List.mem_map.1 hentry
  rintro rfl
  exact h (List.prefix_append _ _)

/-- What is moved itself is found where it is moved to. -/
lemma lookup_moved_self : (fs.moved s t).lookup t = fs.entries.lookup s := by
  unfold moved
  induction fs.entries with
  | nil => rfl
  | cons first entries ih =>
    obtain ⟨m, e⟩ := first
    rw [List.filter_cons, List.lookup_cons]
    by_cases pre : s <+: m
    · rw [if_pos (List.isPrefixOf_iff_prefix.2 pre), List.map_cons, List.lookup_cons, ih]
      obtain ⟨rest, rfl⟩ := pre
      rw [List.drop_left]
      cases rest with
      | nil => rw [List.append_nil, List.append_nil, beq_self_eq_true, beq_self_eq_true]
      | cons name rest =>
        have longer : ∀ l : Location, (l == l ++ name :: rest) = false := fun l =>
          beq_false_of_ne fun same => List.cons_ne_nil name rest (List.append_right_eq_self.1 same.symm)
        rw [longer, longer]
    · rw [if_neg (mt List.isPrefixOf_iff_prefix.1 pre), ih]
      have other : (s == m) = false := beq_false_of_ne fun same => pre (same ▸ List.prefix_refl s)
      rw [other]

/-- The tree with what is at one location and below it moved to another. -/
def relocated (fs : FileSystem) (s t : Location) : FileSystem :=
  ⟨fs.moved s t ++ ((fs.prune s).prune t).entries⟩

lemma get?_relocated_target (h : t ≠ []) (found : fs.get? s = some (.file data)) :
    (fs.relocated s t).get? t = some (.file data) := by
  have below : s ≠ [] := by
    rintro rfl
    cases found
  rw [get?_of_ne_nil below] at found
  rw [get?_of_ne_nil h]
  show (fs.moved s t ++ ((fs.prune s).prune t).entries).lookup t = _
  rw [List.lookup_append, lookup_moved_self, found]
  rfl

lemma get?_relocated_of_not_below (h : ¬ t <+: m) :
    (fs.relocated s t).get? m = (fs.prune s).get? m := by
  by_cases top : m = []
  · rw [top, get?_top, get?_top]
  · have pruned : ((fs.prune s).prune t).get? m = (fs.prune s).get? m := get?_prune_of_not_below h
    rw [← pruned, get?_of_ne_nil top, get?_of_ne_nil top]
    show (fs.moved s t ++ ((fs.prune s).prune t).entries).lookup m = _
    rw [List.lookup_append, lookup_moved_of_not_below h]
    rfl

/-! ## Where paths lead -/

/-- The location is the top, or there is a directory for an entry of its name. -/
inductive Stands (fs : FileSystem) : Location → Prop
  | top : Stands fs []
  | entry {l : Location} {name : String} :
    Stands fs l → fs.get? l = some .directory → Stands fs (l ++ [name])

/-- Above what stands is a directory. -/
lemma Stands.directory_dropLast (h : fs.Stands l) : fs.get? l.dropLast = some .directory := by
  cases h with
  | top => rfl
  | entry _ directory =>
    rw [List.dropLast_concat]
    exact directory

/-- Nothing stands below what is no directory. -/
lemma Stands.eq_of_below (h : fs.Stands m) (below : l <+: m)
    (leaf : fs.get? l ≠ some .directory) : m = l := by
  induction h with
  | top => exact (List.prefix_nil.1 below).symm
  | entry _ directory ih =>
    cases List.prefix_concat_iff.1 below with
    | inl same => exact same.symm
    | inr inside => exact absurd (ih inside ▸ directory) leaf

/-- A step goes well in a directory only. -/
lemma of_step_eq_ok {step : Path.Step} (h : fs.step l step = .ok m) :
    fs.get? l = some .directory := by
  unfold FileSystem.step at h
  split at h
  · cases h
  · cases h
  · assumption

lemma Stands.step {step : Path.Step} (h : fs.Stands l) (ok : fs.step l step = .ok m) :
    fs.Stands m := by
  have directory := of_step_eq_ok ok
  unfold FileSystem.step at ok
  rw [directory] at ok
  cases step with
  | top =>
    cases ok
    exact .top
  | stay =>
    cases ok
    exact h
  | up =>
    cases ok
    cases h with
    | top => exact .top
    | entry inside _ =>
      rw [List.dropLast_concat]
      exact inside
  | name name =>
    dsimp only at ok
    split at ok
    · cases ok
      exact .entry h directory
    · cases ok

lemma Stands.steps {steps : List Path.Step} (h : fs.Stands l)
    (ok : steps.foldlM fs.step l = .ok m) : fs.Stands m := by
  induction steps generalizing l with
  | nil =>
    cases ok
    exact h
  | cons step steps ih =>
    rw [List.foldlM_cons] at ok
    obtain ⟨l', first, others⟩ := bind_eq_ok.1 ok
    exact ih (h.step first) others

lemma stands_of_follow (h : fs.follow p = .ok l) : fs.Stands l := by
  obtain ⟨_, _, h⟩ := bind_eq_ok.1 h
  exact Stands.top.steps h

/-! ## Trees with the same directories -/

/-- The same locations hold directories, as far as they stand. -/
def SameDirectories (fs fs' : FileSystem) : Prop :=
  ∀ l, fs.Stands l → (fs'.get? l = some .directory ↔ fs.get? l = some .directory)

lemma step_congr {step : Path.Step} (h : fs.get? l = some .directory)
    (h' : fs'.get? l = some .directory) : fs'.step l step = fs.step l step := by
  unfold FileSystem.step
  rw [h, h']

lemma SameDirectories.steps {steps : List Path.Step} (h : fs.SameDirectories fs')
    (stands : fs.Stands l) :
    steps.foldlM fs'.step l = .ok m ↔ steps.foldlM fs.step l = .ok m := by
  induction steps generalizing l with
  | nil => rfl
  | cons step steps ih =>
    rw [List.foldlM_cons, List.foldlM_cons, bind_eq_ok, bind_eq_ok]
    constructor
    · rintro ⟨l', first, others⟩
      have directory := (h l stands).1 (of_step_eq_ok first)
      rw [step_congr directory (of_step_eq_ok first)] at first
      exact ⟨l', first, (ih (stands.step first)).1 others⟩
    · rintro ⟨l', first, others⟩
      have directory := (h l stands).2 (of_step_eq_ok first)
      refine ⟨l', ?_, (ih (stands.step first)).2 others⟩
      rw [step_congr (of_step_eq_ok first) directory]
      exact first

/-- In trees with the same directories paths lead to the same locations. -/
lemma SameDirectories.follow (h : fs.SameDirectories fs') :
    fs'.follow p = .ok l ↔ fs.follow p = .ok l := by
  unfold FileSystem.follow
  rw [bind_eq_ok, bind_eq_ok]
  simp only [h.steps .top]

/-- Trees that differ in nothing but the content of one file are followed alike. -/
lemma follow_eq_of_file {a b : Bytes} (file : fs.get? l = some (.file a))
    (file' : fs'.get? l = some (.file b)) (others : ∀ m, fs.Stands m → m ≠ l → fs'.get? m = fs.get? m) :
    fs'.follow p = fs.follow p := by
  have steps : ∀ (steps : List Path.Step) (m : Location), fs.Stands m →
      steps.foldlM fs'.step m = steps.foldlM fs.step m := by
    intro steps
    induction steps with
    | nil => exact fun _ _ => rfl
    | cons step steps ih =>
      intro m stands
      have same : fs'.step m step = fs.step m step := by
        unfold FileSystem.step
        by_cases here : m = l
        · rw [here, file, file']
        · rw [others m stands here]
      rw [List.foldlM_cons, List.foldlM_cons, same]
      cases ok : fs.step m step with
      | error e => rfl
      | ok m' => exact ih m' (stands.step ok)
  unfold FileSystem.follow
  rw [steps p.steps [] .top]

/-! ## The file next to others -/

/-- A path that leads to no directory leads to an entry of one, and the path with a suffix to the entry
next to it whose name has the suffix. -/
lemma exists_directory (h : fs.follow p = .ok l) (leaf : fs.get? l ≠ some .directory) :
    ∃ d n, fs.get? d = some .directory ∧ l = d ++ [n] ∧ ∀ suffix, Path.IsSuffix suffix → ∀ m,
      fs.follow (p.withSuffix suffix) = .ok m → m = d ++ [n ++ suffix] := by
  obtain ⟨init, last, split⟩ := Path.exists_pieces_eq p.text.toList
  obtain ⟨_, _, h⟩ := bind_eq_ok.1 h
  rw [Path.steps_eq split, List.foldlM_append] at h
  obtain ⟨d, front, h⟩ := bind_eq_ok.1 h
  obtain ⟨m, stepped, same⟩ := bind_eq_ok.1 h
  cases same
  have directory := of_step_eq_ok stepped
  have stands := Stands.top.steps front
  have parent := stands.directory_dropLast
  unfold FileSystem.step at stepped
  rw [directory] at stepped
  -- Only a step to an entry leads to anything but a directory.
  cases named : Path.Step.ofPiece last with
  | top | stay | up =>
    rw [named] at stepped
    cases stepped
    first | exact absurd rfl leaf | exact absurd directory leaf | exact absurd parent leaf
  | name n =>
    have name : n = String.ofList last := by
      unfold Path.Step.ofPiece at named
      split at named
      · cases named
      · split at named
        · cases named
        · cases named
          rfl
    rw [named] at stepped
    dsimp only at stepped
    split at stepped
    · cases stepped
      refine ⟨d, n, directory, rfl, fun suffix isSuffix m h => ?_⟩
      obtain ⟨_, _, h⟩ := bind_eq_ok.1 h
      rw [Path.steps_eq (Path.pieces_withSuffix isSuffix split), Path.isAbsolute_withSuffix isSuffix,
        List.foldlM_append, front] at h
      obtain ⟨m', stepped, same⟩ := bind_eq_ok.1 (show (fs.step d _ >>= pure) = _ from h)
      cases same
      unfold FileSystem.step at stepped
      rw [directory, (Path.ofPiece_append isSuffix last).2] at stepped
      dsimp only at stepped
      split at stepped
      · cases stepped
        rw [name, String.ofList_append, String.ofList_toList]
      · cases stepped
    · cases stepped

/-! ## Operations -/

variable {q : Path} {image : Bytes}

lemma read_eq_ok : fs.read p = .ok data ↔ ∃ l, fs.follow p = .ok l ∧ fs.get? l = some (.file data) := by
  unfold FileSystem.read
  rw [bind_eq_ok]
  refine exists_congr fun l => and_congr_right fun _ => ?_
  cases fs.get? l with
  | none => exact ⟨nofun, nofun⟩
  | some e =>
    cases e with
    | directory => exact ⟨nofun, nofun⟩
    | file found =>
      constructor
      · intro h
        cases h
        rfl
      · intro h
        cases h
        rfl

lemma get?_of_not_occupied (free : fs.occupied p = false) (h : fs.follow p = .ok l) :
    fs.get? l = none := by
  unfold FileSystem.occupied at free
  rw [h] at free
  exact Option.not_isSome_iff_eq_none.1 (Bool.eq_false_iff.1 free)

lemma of_written_eq_ok (h : fs.written p data = .ok fs') :
    ∃ l, fs.follow p = .ok l ∧ fs.get? l ≠ some .directory ∧ fs' = fs.put l (.file data) := by
  unfold FileSystem.written at h
  obtain ⟨_, _, h⟩ := bind_eq_ok.1 h
  by_cases slash : p.endsWithSlash = true
  · rw [if_pos slash] at h
    obtain ⟨_, _, h⟩ := bind_eq_ok.1 h
    obtain ⟨_, h, _⟩ := bind_eq_ok.1 h
    cases h
  · rw [if_neg slash] at h
    obtain ⟨l, followed, h⟩ := bind_eq_ok.1 h
    refine ⟨l, followed, ?_⟩
    split at h
    · cases h
    · next other =>
      cases h
      exact ⟨other, rfl⟩

lemma of_moved_eq_ok
    (h : (if s = t then pure fs else pure (fs.relocated s t) : Except IoFault FileSystem) = .ok fs') :
    fs' = if s = t then fs else fs.relocated s t := by
  rw [← apply_ite pure] at h
  exact (Except.ok.inj h).symm

/-- A file is moved only to where there is no directory. -/
lemma of_renamed_eq_ok (h : fs.renamed p q = .ok fs') (hp : fs.follow p = .ok s)
    (file : fs.get? s = some (.file data)) :
    ∃ t, fs.follow q = .ok t ∧ fs.get? t ≠ some .directory
      ∧ fs' = if s = t then fs else fs.relocated s t := by
  unfold FileSystem.renamed at h
  obtain ⟨_, _, h⟩ := bind_eq_ok.1 h
  obtain ⟨_, _, h⟩ := bind_eq_ok.1 h
  obtain ⟨s', followed, h⟩ := bind_eq_ok.1 h
  cases hp.symm.trans followed
  obtain ⟨t, followed', h⟩ := bind_eq_ok.1 h
  refine ⟨t, followed', ?_⟩
  rw [file] at h
  cases there : fs.get? t with
  | none =>
    rw [there] at h
    exact ⟨nofun, of_moved_eq_ok h⟩
  | some e =>
    rw [there] at h
    cases e with
    | directory =>
      dsimp only at h
      split at h
      · cases h
      · cases h
    | file => exact ⟨nofun, of_moved_eq_ok h⟩

lemma removed_eq_ok (hp : fs.follow p = .ok l) (file : fs.get? l = some (.file data)) :
    fs.removed p = .ok (fs.prune l) := by
  refine bind_eq_ok.2 ⟨l, hp, ?_⟩
  rw [file]
  rfl

/-! ## One file replaced -/

/-- One file holds another content, and all other paths lead to what they led to. -/
structure Replaces (fs fs' : FileSystem) (p : Path) (image : Bytes) : Prop where
  file : fs'.read p = .ok image
  others : ∀ q, fs.follow q ≠ fs.follow p → fs'.read q = fs.read q
  follow : ∀ q, fs'.follow q = fs.follow q
  occupied : ∀ q, fs'.occupied q = fs.occupied q

/-- A tree that differs in nothing but the content of one file has that file replaced. -/
lemma replaces_of_file {old : Bytes} (leads : fs.follow p = .ok l) (file : fs.get? l = some (.file old))
    (file' : fs'.get? l = some (.file image))
    (others : ∀ m, fs.Stands m → m ≠ l → fs'.get? m = fs.get? m) : fs.Replaces fs' p image where
  file := read_eq_ok.2 ⟨l, (follow_eq_of_file file file' others).trans leads, file'⟩
  others q differs := by
    unfold FileSystem.read
    rw [follow_eq_of_file file file' others]
    cases followed : fs.follow q with
    | error e => rfl
    | ok m =>
      rw [followed, leads] at differs
      have same := others m (stands_of_follow followed) fun here => differs (congrArg _ here)
      simp only [bind, Except.bind, same]
  follow q := follow_eq_of_file file file' others
  occupied q := by
    unfold FileSystem.occupied
    rw [follow_eq_of_file file file' others]
    cases followed : fs.follow q with
    | error e => rfl
    | ok m =>
      by_cases here : m = l
      · simp only [here, file, file', Option.isSome_some]
      · simp only [others m (stands_of_follow followed) here]

/-- What stands next to a file is another entry. -/
lemma sibling_ne {d : Location} {n suffix : String} (h : Path.IsSuffix suffix) :
    d ++ [n] ≠ d ++ [n ++ suffix] := by
  intro same
  have text := congrArg String.toList (List.singleton_inj.1 (List.append_cancel_left same))
  rw [String.toList_append] at text
  have long := h.long
  rw [List.append_right_eq_self.1 text.symm] at long
  cases long

lemma siblings_eq {d : Location} {n suffix suffix' : String}
    (same : d ++ [n ++ suffix] = d ++ [n ++ suffix']) : suffix = suffix' := by
  have text := congrArg String.toList (List.singleton_inj.1 (List.append_cancel_left same))
  rw [String.toList_append, String.toList_append] at text
  exact String.toList_inj.1 (List.append_cancel_left text)

/-- What there is after a move, at a location that is not below the two that change. -/
lemma get?_relocated (below : t ≠ []) (found : fs.get? s = some (.file data))
    (source : s <+: m → m = s) (target : t <+: m → m = t) : (fs.relocated s t).get? m
      = if m = t then some (.file data) else if m = s then none else fs.get? m := by
  have above : s ≠ [] := by
    rintro rfl
    cases found
  by_cases there : m = t
  · rw [if_pos there, there, get?_relocated_target below found]
  · rw [if_neg there, get?_relocated_of_not_below fun pre => there (target pre)]
    by_cases here : m = s
    · rw [if_pos here, here, get?_prune_self above]
    · rw [if_neg here, get?_prune_of_not_below fun pre => here (source pre)]

/-- What there is after a file is written where nothing was. -/
lemma get?_put (free : fs.get? s = none) : (fs.put s (.file data)).get? m
    = if m = s then some (.file data) else fs.get? m := by
  have below : s ≠ [] := by
    rintro rfl
    cases free
  by_cases here : m = s
  · rw [if_pos here, here, get?_put_self below]
  · rw [if_neg here, get?_put_of_ne here]

/-- A file that is written is no directory. -/
lemma sameDirectories_put (free : fs.get? s = none) : fs.SameDirectories (fs.put s (.file data)) := by
  intro m _
  rw [get?_put free]
  by_cases here : m = s
  · rw [if_pos here, here, free]
    exact ⟨nofun, nofun⟩
  · rw [if_neg here]

/-- What is written where nothing was leaves the files that there are. -/
lemma read_written {t : Path} {old : Bytes} (reads : fs.read p = .ok old)
    (free : fs.occupied t = false) (h : fs.written t image = .ok fs') : fs'.read p = .ok old := by
  obtain ⟨l, leads, file⟩ := read_eq_ok.1 reads
  obtain ⟨s, staged, _, rfl⟩ := of_written_eq_ok h
  have free := get?_of_not_occupied free staged
  refine read_eq_ok.2 ⟨l, (sameDirectories_put free).follow.2 leads, ?_⟩
  rw [get?_put free, if_neg, file]
  rintro rfl
  cases free.symm.trans file

lemma occupied_of_read (h : fs.read p = .ok data) : fs.occupied p = true := by
  obtain ⟨l, leads, file⟩ := read_eq_ok.1 h
  unfold FileSystem.occupied
  rw [leads]
  exact Option.isSome_of_mem file

/-- Three entries of one directory: a file, and two places where nothing is. -/
structure Places (fs : FileSystem) (l s k : Location) (old : Bytes) : Prop where
  file : fs.get? l = some (.file old)
  unstaged : fs.get? s = none
  unkept : fs.get? k = none
  file_ne_staged : l ≠ s
  file_ne_kept : l ≠ k
  staged_ne_kept : s ≠ k

namespace Places

variable {k : Location} {old : Bytes}

lemma file_ne_nil (h : fs.Places l s k old) : l ≠ [] := by
  rintro rfl
  cases h.file

lemma kept_ne_nil (h : fs.Places l s k old) : k ≠ [] := by
  rintro rfl
  cases h.unkept

/-- The file is kept in another place. -/
lemma get?_kept (h : fs.Places l s k old) (stands : fs.Stands m) :
    ((fs.put s (.file image)).relocated l k).get? m
      = if m = k then some (.file old) else if m = l then none
        else if m = s then some (.file image) else fs.get? m := by
  have found : (fs.put s (.file image)).get? l = some (.file old) := by
    rw [get?_put h.unstaged, if_neg h.file_ne_staged, h.file]
  rw [get?_relocated h.kept_ne_nil found
    (fun pre => stands.eq_of_below pre (by rw [h.file]; nofun))
    (fun pre => stands.eq_of_below pre (by rw [h.unkept]; nofun)), get?_put h.unstaged]

/-- The image takes the place of the file. -/
lemma get?_swapped (h : fs.Places l s k old) (staged : fs.Stands s) (stands : fs.Stands m) :
    (((fs.put s (.file image)).relocated l k).relocated s l).get? m
      = if m = l then some (.file image) else if m = k then some (.file old) else fs.get? m := by
  have found : ((fs.put s (.file image)).relocated l k).get? s = some (.file image) := by
    rw [h.get?_kept staged, if_neg h.staged_ne_kept, if_neg h.file_ne_staged.symm, if_pos rfl]
  rw [get?_relocated h.file_ne_nil found
    (fun pre => stands.eq_of_below pre (by rw [h.unstaged]; nofun))
    (fun pre => stands.eq_of_below pre (by rw [h.file]; nofun)), h.get?_kept stands]
  by_cases here : m = l
  · rw [if_pos here, if_pos here]
  rw [if_neg here, if_neg here]
  by_cases there : m = s
  · rw [if_pos there, there, if_neg h.staged_ne_kept, h.unstaged,
      if_neg h.file_ne_staged.symm]
  · rw [if_neg there, if_neg here, if_neg there]

/-- What was kept is removed. -/
lemma get?_replaced (h : fs.Places l s k old) (staged : fs.Stands s) (stands : fs.Stands m) :
    ((((fs.put s (.file image)).relocated l k).relocated s l).prune k).get? m
      = if m = l then some (.file image) else fs.get? m := by
  by_cases kept : m = k
  · rw [kept, get?_prune_self h.kept_ne_nil, if_neg h.file_ne_kept.symm, h.unkept]
  · rw [get?_prune_of_not_below fun pre =>
      kept (stands.eq_of_below pre (by rw [h.unkept]; nofun)), h.get?_swapped staged stands]
    rw [if_neg kept]

/-! None of this adds a directory or takes one away. -/

lemma sameDirectories_kept (h : fs.Places l s k old) :
    fs.SameDirectories ((fs.put s (.file image)).relocated l k) := by
  intro m stands
  rw [h.get?_kept stands]
  by_cases kept : m = k
  · rw [if_pos kept, kept, h.unkept]
    exact ⟨nofun, nofun⟩
  by_cases file : m = l
  · rw [if_neg kept, if_pos file, file, h.file]
    exact ⟨nofun, nofun⟩
  by_cases staged : m = s
  · rw [if_neg kept, if_neg file, if_pos staged, staged, h.unstaged]
    exact ⟨nofun, nofun⟩
  · rw [if_neg kept, if_neg file, if_neg staged]

lemma sameDirectories_swapped (h : fs.Places l s k old) (staged : fs.Stands s) :
    fs.SameDirectories (((fs.put s (.file image)).relocated l k).relocated s l) := by
  intro m stands
  rw [h.get?_swapped staged stands]
  by_cases file : m = l
  · rw [if_pos file, file, h.file]
    exact ⟨nofun, nofun⟩
  by_cases kept : m = k
  · rw [if_neg file, if_pos kept, kept, h.unkept]
    exact ⟨nofun, nofun⟩
  · rw [if_neg file, if_neg kept]

end Places

/-- The places of a file, its staged image and what is kept of it, next to each other. -/
lemma places_of_follow {k : Location} {old : Bytes} (leads : fs.follow p = .ok l)
    (file : fs.get? l = some (.file old)) (staged : fs.follow (Store.staging p) = .ok s)
    (kept : fs.follow (Store.backup p) = .ok k) (unstaged : fs.occupied (Store.staging p) = false)
    (unkept : fs.occupied (Store.backup p) = false) : fs.Places l s k old := by
  obtain ⟨d, n, _, rfl, siblings⟩ := exists_directory leads (by rw [file]; nofun)
  have place := siblings ".tmp" isSuffix_tmp s staged
  have aside := siblings ".bak" isSuffix_bak k kept
  exact
    { file
      unstaged := get?_of_not_occupied unstaged staged
      unkept := get?_of_not_occupied unkept kept
      file_ne_staged := place ▸ sibling_ne isSuffix_tmp
      file_ne_kept := aside ▸ sibling_ne isSuffix_bak
      staged_ne_kept := by
        rintro rfl
        exact absurd (siblings_eq (place.symm.trans aside)) (by decide) }

/-- A file whose new content is staged next to it is replaced by it: the file is moved aside, the staged
one takes its place, and then what was moved aside can be removed. -/
lemma replaces_of_steps {old : Bytes} {fs₁ fs₂ fs₃ : FileSystem} (reads : fs.read p = .ok old)
    (unstaged : fs.occupied (Store.staging p) = false) (unkept : fs.occupied (Store.backup p) = false)
    (stage : fs.written (Store.staging p) image = .ok fs₁)
    (keep : fs₁.renamed p (Store.backup p) = .ok fs₂)
    (swap : fs₂.renamed (Store.staging p) p = .ok fs₃) :
    ∃ fs₄, fs₃.removed (Store.backup p) = .ok fs₄ ∧ fs.Replaces fs₄ p image := by
  obtain ⟨l, leads, file⟩ := read_eq_ok.1 reads
  obtain ⟨d, n, _, rfl, siblings⟩ := exists_directory leads (by rw [file]; nofun)
  obtain ⟨s, staged, _, rfl⟩ := of_written_eq_ok stage
  have free := get?_of_not_occupied unstaged staged
  -- The image is staged next to the file.
  have apart : d ++ [n] ≠ s := siblings ".tmp" isSuffix_tmp s staged ▸ sibling_ne isSuffix_tmp
  have directories : fs.SameDirectories (fs.put s (.file image)) := sameDirectories_put free
  obtain ⟨k, kept, _, rfl⟩ := of_renamed_eq_ok keep (directories.follow.2 leads)
    (by rw [get?_put free, if_neg apart, file])
  have places := places_of_follow leads file staged (directories.follow.1 kept) unstaged unkept
  replace kept := directories.follow.1 kept
  rw [if_neg places.file_ne_kept] at swap
  have stands := stands_of_follow staged
  have stands' := stands_of_follow leads
  -- What is staged takes the place of the file.
  obtain ⟨t, target, _, rfl⟩ := of_renamed_eq_ok swap (places.sameDirectories_kept.follow.2 staged)
    (by rw [places.get?_kept stands, if_neg places.staged_ne_kept, if_neg places.file_ne_staged.symm,
          if_pos rfl])
  cases leads.symm.trans (places.sameDirectories_kept.follow.1 target)
  rw [if_neg places.file_ne_staged.symm]
  -- What was kept aside can be removed.
  have swapped : fs.SameDirectories
      (((fs.put s (.file image)).relocated (d ++ [n]) k).relocated s (d ++ [n])) :=
    places.sameDirectories_swapped stands
  have aside' : (((fs.put s (.file image)).relocated (d ++ [n]) k).relocated s (d ++ [n])).get? k
      = some (.file old) := by
    rw [places.get?_swapped stands (stands_of_follow kept), if_neg places.file_ne_kept.symm, if_pos rfl]
  refine ⟨_, removed_eq_ok (swapped.follow.2 kept) aside', ?_⟩
  have after : ∀ m, fs.Stands m →
      ((((fs.put s (.file image)).relocated (d ++ [n]) k).relocated s (d ++ [n])).prune k).get? m
        = if m = d ++ [n] then some (.file image) else fs.get? m :=
    fun m here => places.get?_replaced stands here
  have found := (after _ stands').trans (if_pos rfl)
  have others := fun m here differs => (after m here).trans (if_neg differs)
  exact replaces_of_file leads file found others

/-! ## The commit of one module -/

lemma change_eq_ok {f : FileSystem → Except IoFault FileSystem} :
    change f fs = .ok () fs' ↔ f fs = .ok fs' := by
  unfold change
  cases f fs with
  | error e => exact ⟨nofun, nofun⟩
  | ok fs'' =>
    constructor
    · intro h
      cases h
      rfl
    · intro h
      cases h
      rfl

lemma writing_eq_ok {α : Type} {op : DiskOp FileSystem α} {a : α}
    (h : Disk.writing p op fs = .ok a fs') : op fs = .ok a fs' := by
  unfold Disk.writing at h
  change EStateM.adaptExcept _ _ fs = _ at h
  rw [EStateM.adaptExcept] at h
  cases ran : op fs with
  | ok b fs'' =>
    rw [ran] at h
    cases h
    rfl
  | error e fs'' =>
    rw [ran] at h
    cases h

variable {s : Store}

lemma writeImage_eq_ok {t : Path} (h : s.writeImage p t fs = .ok () fs') :
    ∃ image, s.image p = .ok image ∧ fs.written t image = .ok fs' := by
  unfold Store.writeImage at h
  cases encoded : s.image p with
  | error e =>
    rw [encoded] at h
    cases h
  | ok image =>
    rw [encoded] at h
    exact ⟨image, rfl, change_eq_ok.1 (writing_eq_ok h)⟩

/-- A failure that is handled by another failure never goes well. -/
lemma of_tryCatch_eq_ok {α ε σ : Type} {x : EStateM ε σ α} {handle : ε → EStateM ε σ α} {v v' : σ} {a : α}
    (h : tryCatch x handle v = .ok a v') (fails : ∀ e w, handle e w ≠ .ok a v') : x v = .ok a v' := by
  cases ran : x v with
  | ok b w =>
    rw [← h, tryCatch_of_ok ran]
  | error e w =>
    rw [tryCatch_of_error ran] at h
    exact absurd h (fails e w)

lemma bind_throw_ne_ok {α β ε σ : Type} {x : EStateM ε σ α} {e : ε} {v v' : σ} {b : β} :
    (x >>= fun _ => throw e) v ≠ .ok b v' := by
  intro h
  obtain ⟨_, _, _, h⟩ := edit_bind_eq_ok.1 h
  cases h

lemma swap_eq_ok {existed : Bool} (taken : fs.occupied p = true)
    (h : Store.swap p fs = .ok existed fs') :
    existed = true ∧ ∃ fs₁, fs.renamed p (Store.backup p) = .ok fs₁
      ∧ fs₁.renamed (Store.staging p) p = .ok fs' := by
  unfold Store.swap at h
  obtain ⟨_, _, got, h⟩ := edit_bind_eq_ok.1 h
  cases got
  have occupied : Disk.occupied fs p = true := taken
  simp only [occupied, if_true] at h
  obtain ⟨_, fs₁, kept, h⟩ := edit_bind_eq_ok.1 h
  obtain ⟨_, fs₂, placed, h⟩ := edit_bind_eq_ok.1 h
  cases h
  exact ⟨rfl, fs₁, change_eq_ok.1 kept,
    change_eq_ok.1 (of_tryCatch_eq_ok placed fun _ _ => bind_throw_ne_ok)⟩

/-- A commit that goes well, of a store with one module that was changed, replaces the file of that module
by its image. -/
theorem of_commit_eq_ok {old : Bytes} {written : List Path} {s' : Store} (one : s.dirtyPaths = [p])
    (reads : fs.read p = .ok old) (unstaged : fs.occupied (Store.staging p) = false)
    (unkept : fs.occupied (Store.backup p) = false) (h : s.commit fs = .ok (written, s') fs') :
    written = [p] ∧ ∃ image, s.image p = .ok image ∧ fs.Replaces fs' p image := by
  unfold Store.commit at h
  rw [one] at h
  obtain ⟨_, fs₁, staged, h⟩ := edit_bind_eq_ok.1 h
  obtain ⟨swapped, fs₃, swaps, h⟩ := edit_bind_eq_ok.1 h
  obtain ⟨_, fs₄, removed, h⟩ := edit_bind_eq_ok.1 h
  cases h
  refine ⟨rfl, ?_⟩
  -- The image was made and staged.
  obtain ⟨_, _, staged, same⟩ := edit_bind_eq_ok.1 staged
  cases same
  obtain ⟨image, encoded, stage⟩ := writeImage_eq_ok
    (of_tryCatch_eq_ok staged fun _ _ => bind_throw_ne_ok)
  refine ⟨image, encoded, ?_⟩
  -- It took the place of the file.
  obtain ⟨existed, _, swap, same⟩ := edit_bind_eq_ok.1 swaps
  cases same
  have stays := read_written reads unstaged stage
  obtain ⟨rfl, fs₂, keep, place⟩ := swap_eq_ok (occupied_of_read stays)
    (writing_eq_ok (of_tryCatch_eq_ok swap fun _ _ => bind_throw_ne_ok))
  -- What was kept aside was removed.
  obtain ⟨fs₅, gone, replaces⟩ := replaces_of_steps reads unstaged unkept stage keep place
  obtain ⟨_, _, removed, same⟩ := edit_bind_eq_ok.1 removed
  cases same
  have ran : Disk.remove (Store.backup p) fs₃ = .ok () fs₅ := change_eq_ok.2 gone
  simp only [if_true] at removed
  unfold Disk.attempt at removed
  rw [ran] at removed
  cases removed
  exact replaces

end FileSystem
end HookWeave
