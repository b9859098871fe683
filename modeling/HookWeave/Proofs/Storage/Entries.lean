import HookWeave.Proofs.Storage.Bystanders

/-!
# Entries of directories

A name without slashes that is joined to a directory leads to the directory's entry of that name
(`Path.isEntry_join`). The two names that stand for directories themselves are no exception that matters:
no file is found by them (`FileSystem.isEntry_of_read`).
-/

namespace HookWeave
namespace Path

/-- The path leads to the entry of a name in a directory. -/
def IsEntry (p directory : Path) (name : String) : Prop :=
  p.components = directory.components ++ [.name name]

/-- A text that is one piece of a path. -/
structure IsPiece (name : String) : Prop where
  plain : '/' ∉ name.toList
  filled : name ≠ ""

variable {p directory : Path} {cs : List Char} {name suffix : String}

/-! ## Joined names -/

lemma pieces_concat_slash (cs : List Char) : pieces (cs ++ ['/']) = pieces cs ++ [[]] := by
  induction cs with
  | nil => rfl
  | cons c cs ih =>
    by_cases slash : c = '/'
    · subst slash
      rw [List.cons_append, pieces_slash, pieces_slash, ih]
      rfl
    · cases split : pieces cs with
      | nil => exact absurd split (pieces_ne_nil cs)
      | cons piece rest =>
        rw [split] at ih
        rw [List.cons_append, pieces_cons slash ih, pieces_cons slash split]
        rfl

lemma IsPiece.not_isAbsolute (h : IsPiece name) : ¬ (⟨name⟩ : Path).isAbsolute = true := by
  intro absolute
  obtain ⟨rest, text⟩ := isAbsolute_iff.1 absolute
  apply h.plain
  rw [show name.toList = '/' :: rest from text]
  exact List.mem_cons_self

lemma IsPiece.append (h : IsPiece name) (plain : '/' ∉ suffix.toList) : IsPiece (name ++ suffix) where
  plain := by
    rw [String.toList_append]
    exact fun slash => (List.mem_append.1 slash).elim h.plain plain
  filled := fun none => h.filled (String.append_eq_empty_iff.1 none).1

/-- A suffix of a joined name is a suffix of the name. -/
lemma withSuffix_join (directory : Path) (h : IsPiece name) (plain : '/' ∉ suffix.toList) :
    (directory.join ⟨name⟩).withSuffix suffix = directory.join ⟨name ++ suffix⟩ := by
  unfold join
  rw [if_neg h.not_isAbsolute, if_neg (h.append plain).not_isAbsolute]
  split
  · exact congrArg Path.mk String.append_assoc
  · exact congrArg Path.mk String.append_assoc

lemma isAbsolute_of_append {rest : List Char} (filled : directory.text ≠ "")
    (text : p.text.toList = directory.text.toList ++ rest) : p.isAbsolute = directory.isAbsolute := by
  unfold isAbsolute
  rw [text, List.head?_append_of_ne_nil _ (mt String.toList_eq_nil_iff.1 filled)]

/-- The last piece of a joined name is the name, and what stands in front of it is the directory. -/
lemma exists_pieces_join (directory : Path) (h : IsPiece name) :
    ∃ init, pieces (directory.join ⟨name⟩).text.toList = init ++ [name.toList]
      ∧ (directory.join ⟨name⟩).front init = directory.components := by
  unfold join
  rw [if_neg h.not_isAbsolute]
  by_cases empty : directory.text = ""
  · -- The path is the name.
    rw [if_pos (by rw [empty]; rfl)]
    refine ⟨[], ?_, ?_⟩
    · rw [empty, String.empty_append]
      exact pieces_of_not_mem h.plain
    · have here : directory.components = [] := by
        obtain ⟨text⟩ := directory
        cases empty
        rfl
      have relative : ¬ (⟨directory.text ++ name⟩ : Path).isAbsolute = true := by
        rw [empty, String.empty_append]
        exact h.not_isAbsolute
      unfold front
      rw [here, if_neg relative]
      rfl
  by_cases slash : directory.endsWithSlash
  · rw [if_pos (by rw [slash, Bool.or_true])]
    obtain ⟨cs, text⟩ := List.getLast?_eq_some_iff.1 (of_decide_eq_true slash)
    have split : pieces directory.text.toList = pieces cs ++ [[]] := by
      rw [text, pieces_concat_slash]
    refine ⟨pieces cs, ?_, ?_⟩
    · rw [String.toList_append]
      exact pieces_append h.plain split
    · -- The empty piece at the end of the directory leads nowhere.
      rw [components_eq split]
      unfold front
      rw [isAbsolute_of_append (p := ⟨directory.text ++ name⟩) empty String.toList_append]
      simp [ending, Step.ofPiece]
  · have text : (directory.text ++ "/" ++ name).toList = directory.text.toList ++ ['/'] ++ name.toList := by
      rw [String.toList_append, String.toList_append]
      rfl
    have joined : ¬ (directory.text.isEmpty || directory.endsWithSlash) = true := by
      rw [Bool.or_eq_true, String.isEmpty_iff]
      exact not_or.2 ⟨empty, slash⟩
    rw [if_neg joined]
    refine ⟨pieces directory.text.toList, ?_, ?_⟩
    · rw [text]
      exact pieces_append h.plain (pieces_concat_slash _)
    · rw [List.append_assoc] at text
      unfold front components startsHere steps
      rw [isAbsolute_of_append (p := ⟨directory.text ++ "/" ++ name⟩) empty text]
      simp only [decide_eq_true_eq]

/-- A name that stands for no directory leads to the entry of that name. -/
lemma isEntry_join (directory : Path) (h : IsPiece name) (here : name ≠ ".") (above : name ≠ "..") :
    (directory.join ⟨name⟩).IsEntry directory name := by
  obtain ⟨init, split, front⟩ := exists_pieces_join directory h
  have filled : name.toList ≠ [] := mt String.toList_eq_nil_iff.1 h.filled
  have stays : name.toList ≠ ['.'] := fun same => here (String.toList_inj.1 same)
  have rises : name.toList ≠ ['.', '.'] := fun same => above (String.toList_inj.1 same)
  have piece : Step.ofPiece name.toList = .name name := by
    unfold Step.ofPiece
    rw [if_neg (not_or.2 ⟨filled, stays⟩), if_neg rises, String.ofList_toList]
  unfold IsEntry
  rw [components_eq split, front, ending, if_neg (not_and_of_not_right _ stays), piece]
  rfl

/-! ## Locations of entries -/

lemma foldl_move_moves (steps : List Step) (l : Location) :
    (steps.filter (· ≠ .stay)).foldl Location.move l = steps.foldl Location.move l := by
  induction steps generalizing l with
  | nil => rfl
  | cons step steps ih =>
    cases step with
    | stay => exact ih l
    | top => exact ih _
    | up => exact ih _
    | name name => exact ih _

/-- Where a path leads is a matter of its components. -/
lemma location_eq (p : Path) : p.location = p.components.foldl Location.move [] := by
  unfold components location
  rw [← foldl_move_moves]
  split
  · rfl
  · rfl

lemma IsEntry.location_eq (h : p.IsEntry directory name) : p.location = directory.location ++ [name] := by
  rw [Path.location_eq, h, List.foldl_append, ← Path.location_eq]
  rfl

end Path

/-! ## Files -/

namespace FileSystem

variable {fs : FileSystem} {l m : Location} {p directory : Path} {name : String} {data : Bytes}

/-- A step that is not to an entry leads to a directory. -/
lemma Stands.directory_of_step {step : Path.Step} (h : fs.Stands l) (ok : fs.step l step = .ok m)
    (still : ∀ name, step ≠ .name name) : fs.get? m = some .directory := by
  have directory := of_step_eq_ok ok
  cases move_of_step ok
  cases step with
  | top => rfl
  | stay => exact directory
  | up => exact h.directory_dropLast
  | name name => exact absurd rfl (still name)

/-- A file that is found by a name in a directory is the entry of that name. -/
lemma isEntry_of_read (h : Path.IsPiece name) (reads : fs.read (directory.join ⟨name⟩) = .ok data) :
    (directory.join ⟨name⟩).IsEntry directory name := by
  obtain ⟨l, leads, file⟩ := read_eq_ok.1 reads
  obtain ⟨init, split, _⟩ := Path.exists_pieces_join directory h
  obtain ⟨_, _, leads⟩ := bind_eq_ok.1 leads
  rw [Path.steps_eq split, List.foldlM_append] at leads
  obtain ⟨d, front, last⟩ := bind_eq_ok.1 leads
  obtain ⟨m, stepped, same⟩ := bind_eq_ok.1 last
  cases same
  have found : ∀ step, Path.Step.ofPiece name.toList = step → (∀ name, step ≠ .name name) → False := by
    rintro _ rfl still
    have directory := (Stands.top.steps front).directory_of_step stepped still
    cases file.symm.trans directory
  apply Path.isEntry_join directory h
  · rintro rfl
    exact found .stay rfl nofun
  · rintro rfl
    exact found .up rfl nofun

end FileSystem
end HookWeave
