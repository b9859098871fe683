import HookWeave.Storage.Path
import Mathlib.Data.List.Basic
import Mathlib.Tactic.Lemma

/-!
# Files next to others

The name of a file that stands next to another says which other file that is: what a path is by its
components can be told from the path with a suffix (`Path.components_of_withSuffix`), and two
suffixes of one length never lead to one file (`Path.withSuffix_ne`).
-/

namespace HookWeave
namespace Path

variable {p q : Path} {cs added : List Char} {c : Char} {piece last : List Char}
  {rest init : List (List Char)} {suffix suffix' : String}

/-! ## Pieces -/

lemma pieces_slash : pieces ('/' :: cs) = [] :: pieces cs := by
  rw [pieces, if_pos rfl]

lemma pieces_cons (h : c ≠ '/') (split : pieces cs = piece :: rest) :
    pieces (c :: cs) = (c :: piece) :: rest := by
  rw [pieces, if_neg h, split]

lemma pieces_ne_nil (cs : List Char) : pieces cs ≠ [] := by
  cases cs with
  | nil => exact List.cons_ne_nil _ _
  | cons c cs =>
    rw [pieces]
    split
    · exact List.cons_ne_nil _ _
    · split <;> exact List.cons_ne_nil _ _

/-- There is a last piece. -/
lemma exists_pieces_eq (cs : List Char) : ∃ init last, pieces cs = init ++ [last] :=
  ⟨_, _, (List.dropLast_append_getLast (pieces_ne_nil cs)).symm⟩

lemma pieces_of_not_mem (h : '/' ∉ added) : pieces added = [added] := by
  induction added with
  | nil => rfl
  | cons c added ih =>
    obtain ⟨here, rest⟩ := not_or.1 (mt List.mem_cons.2 h)
    exact pieces_cons (Ne.symm here) (ih rest)

/-- What is added at the end without a slash belongs to the last piece. -/
lemma pieces_append (h : '/' ∉ added) (split : pieces cs = init ++ [last]) :
    pieces (cs ++ added) = init ++ [last ++ added] := by
  induction cs generalizing init last with
  | nil =>
    obtain ⟨rfl, rfl⟩ : init = [] ∧ last = [] := by
      cases init with
      | nil => exact ⟨rfl, (List.singleton_inj.1 split).symm⟩
      | cons x init => simp [pieces] at split
    exact pieces_of_not_mem h
  | cons c cs ih =>
    obtain ⟨init', last', split'⟩ := exists_pieces_eq cs
    have appended := ih split'
    by_cases slash : c = '/'
    · subst slash
      rw [pieces_slash, split', ← List.cons_append] at split
      obtain ⟨rfl, same⟩ := List.append_inj' split rfl
      cases same
      rw [List.cons_append, pieces_slash, appended]
      rfl
    · cases init' with
      | nil =>
        rw [pieces_cons slash split', ← List.nil_append [c :: last']] at split
        obtain ⟨rfl, same⟩ := List.append_inj' split rfl
        cases same
        exact pieces_cons slash appended
      | cons piece init' =>
        have split : ((c :: piece) :: init') ++ [last'] = init ++ [last] :=
          (pieces_cons slash split').symm.trans split
        obtain ⟨rfl, same⟩ := List.append_inj' split rfl
        cases same
        exact pieces_cons slash appended

/-! ## Components -/

/-- The components of a path but for its last piece. -/
def front (p : Path) (init : List (List Char)) : List Step :=
  let moves := if p.isAbsolute then .top :: init.map Step.ofPiece else init.map Step.ofPiece
  let moves := moves.filter (· ≠ .stay)
  if init.head? = some ['.'] then .stay :: moves else moves

/-- The component of the last piece. A single piece may name the directory that a path is relative
to. -/
def ending (front : List Step) (last : List Char) : List Step :=
  if front = [] ∧ last = ['.'] then [.stay] else [Step.ofPiece last].filter (· ≠ .stay)

lemma isAbsolute_iff : p.isAbsolute = true ↔ ∃ rest, p.text.toList = '/' :: rest := by
  unfold isAbsolute
  cases p.text.toList with
  | nil => simp
  | cons c cs => simp

/-- A path that starts with a slash has an empty piece first, and others after it. -/
lemma isAbsolute_iff_pieces (split : pieces p.text.toList = init ++ [last]) :
    p.isAbsolute = true ↔ init.head? = some [] := by
  rw [isAbsolute_iff]
  constructor
  · rintro ⟨rest, text⟩
    obtain ⟨init', last', split'⟩ := exists_pieces_eq rest
    rw [text, pieces_slash, split', ← List.cons_append] at split
    obtain ⟨rfl, _⟩ := List.append_inj' split rfl
    rfl
  · intro first
    cases text : p.text.toList with
    | nil =>
      rw [text] at split
      cases init with
      | nil => cases first
      | cons x init => simp [pieces] at split
    | cons c rest =>
      obtain ⟨init', last', split'⟩ := exists_pieces_eq rest
      by_cases slash : c = '/'
      · exact ⟨rest, by rw [slash]⟩
      · -- The first piece would start with the character that is no slash.
        cases init with
        | nil => cases first
        | cons x init =>
          cases first
          rw [text] at split
          cases found : pieces rest with
          | nil => exact absurd found (pieces_ne_nil rest)
          | cons piece others =>
            rw [pieces_cons slash found] at split
            cases split

lemma ofPiece_ne_stay (empty : piece ≠ []) (dot : piece ≠ ['.']) : Step.ofPiece piece ≠ .stay := by
  unfold Step.ofPiece
  rw [if_neg (not_or.2 ⟨empty, dot⟩)]
  split <;> exact Step.noConfusion

/-- Only a single piece has nothing in front of it. -/
lemma front_eq_nil (split : pieces p.text.toList = init ++ [last]) :
    p.front init = [] ↔ init = [] := by
  have absolute := isAbsolute_iff_pieces split
  constructor
  · intro none
    cases init with
    | nil => rfl
    | cons piece init =>
      unfold front at none
      by_cases dot : piece = ['.']
      · rw [if_pos (by rw [dot]; rfl)] at none
        cases none
      · have relative : ¬ (piece :: init).head? = some ['.'] :=
          fun same => dot (Option.some.inj same)
        rw [if_neg relative, List.filter_eq_nil_iff] at none
        by_cases empty : piece = []
        · rw [if_pos (absolute.2 (congrArg some empty))] at none
          exact absurd rfl (none .top (List.mem_cons_self ..))
        · have first : Step.ofPiece piece ∈ (piece :: init).map Step.ofPiece :=
            List.mem_cons_self ..
          have moves := ofPiece_ne_stay empty dot
          split at none
          · exact absurd (decide_eq_true moves) (none _ (List.mem_cons_of_mem _ first))
          · exact absurd (decide_eq_true moves) (none _ first)
  · rintro rfl
    have relative : ¬ p.isAbsolute = true := fun starts => nomatch absolute.1 starts
    unfold front
    rw [if_neg relative]
    rfl

/-- A path is what stands in front of its last piece, and then that piece. -/
lemma components_eq (split : pieces p.text.toList = init ++ [last]) :
    p.components = p.front init ++ ending (p.front init) last := by
  have single := front_eq_nil split
  unfold components startsHere steps ending
  rw [split]
  simp only [single]
  cases init with
  | nil =>
    have relative : ¬ p.isAbsolute = true :=
      fun starts => nomatch (isAbsolute_iff_pieces split).1 starts
    by_cases dot : last = ['.']
    · subst dot
      simp [front, relative, Step.ofPiece]
    · simp [front, relative, dot]
  | cons piece init =>
    unfold front
    by_cases absolute : p.isAbsolute
    · by_cases dot : piece = ['.'] <;> simp [absolute, dot] <;>
        exact List.filter_append (_ :: _) _
    · by_cases dot : piece = ['.'] <;> simp [absolute, dot] <;>
        exact List.filter_append (_ :: _) _

/-! ## Suffixes -/

/-- A suffix that may be added to names, long enough that no step to another directory becomes of
it. -/
structure IsSuffix (suffix : String) : Prop where
  plain : '/' ∉ suffix.toList
  long : 2 < suffix.toList.length

lemma pieces_withSuffix (h : IsSuffix suffix) (split : pieces p.text.toList = init ++ [last]) :
    pieces (p.withSuffix suffix).text.toList = init ++ [last ++ suffix.toList] := by
  rw [show (p.withSuffix suffix).text.toList = p.text.toList ++ suffix.toList from String.toList_append]
  exact pieces_append h.plain split

lemma isAbsolute_withSuffix (h : IsSuffix suffix) : (p.withSuffix suffix).isAbsolute = p.isAbsolute := by
  obtain ⟨init, last, split⟩ := exists_pieces_eq p.text.toList
  rw [Bool.eq_iff_iff, isAbsolute_iff_pieces (pieces_withSuffix h split), isAbsolute_iff_pieces split]

/-- A suffix makes a name of the last piece, whatever it was. -/
lemma ofPiece_append (h : IsSuffix suffix) (last : List Char) :
    last ++ suffix.toList ≠ ['.']
      ∧ Step.ofPiece (last ++ suffix.toList) = .name (String.ofList (last ++ suffix.toList)) := by
  have size : (last ++ suffix.toList).length = last.length + suffix.toList.length :=
    List.length_append
  have long := h.long
  have differs {cs : List Char} (short : cs.length ≤ 2) : last ++ suffix.toList ≠ cs := by
    rintro rfl
    omega
  refine ⟨differs (by decide), ?_⟩
  unfold Step.ofPiece
  rw [if_neg (not_or.2 ⟨differs (by decide), differs (by decide)⟩), if_neg (differs (by decide))]

/-- A path with a suffix leads to an entry whose name ends with the suffix. -/
lemma components_withSuffix (h : IsSuffix suffix) (split : pieces p.text.toList = init ++ [last]) :
    (p.withSuffix suffix).components
      = p.front init ++ [.name (String.ofList (last ++ suffix.toList))] := by
  have front' : (p.withSuffix suffix).front init = p.front init := by
    unfold front
    rw [isAbsolute_withSuffix h]
  obtain ⟨differs, named⟩ := ofPiece_append h last
  rw [components_eq (pieces_withSuffix h split), front']
  unfold ending
  rw [if_neg (not_and_of_not_right _ differs), named]
  rfl

/-- The steps of a path are those to its last piece, and the one that this piece stands for. -/
lemma steps_eq (split : pieces p.text.toList = init ++ [last]) :
    p.steps = (if p.isAbsolute then .top :: init.map Step.ofPiece else init.map Step.ofPiece)
      ++ [Step.ofPiece last] := by
  unfold steps
  rw [split, List.map_append]
  split
  · rfl
  · rfl

/-- Paths that lead to one file with a suffix have the same components without it. -/
theorem components_of_withSuffix (h : IsSuffix suffix)
    (same : (p.withSuffix suffix).components = (q.withSuffix suffix).components) :
    p.components = q.components := by
  obtain ⟨init, last, split⟩ := exists_pieces_eq p.text.toList
  obtain ⟨init', last', split'⟩ := exists_pieces_eq q.text.toList
  rw [components_withSuffix h split, components_withSuffix h split'] at same
  obtain ⟨fronts, names⟩ := List.append_inj' same rfl
  have texts : last ++ suffix.toList = last' ++ suffix.toList :=
    String.ofList_injective (Step.name.inj (List.singleton_inj.1 names))
  rw [components_eq split, components_eq split', fronts, List.append_cancel_right texts]

/-- Different suffixes of one length lead to different files. -/
theorem withSuffix_ne (h : IsSuffix suffix) (h' : IsSuffix suffix')
    (length : suffix.toList.length = suffix'.toList.length) (differs : suffix ≠ suffix') :
    (p.withSuffix suffix).components ≠ (q.withSuffix suffix').components := by
  intro same
  obtain ⟨init, last, split⟩ := exists_pieces_eq p.text.toList
  obtain ⟨init', last', split'⟩ := exists_pieces_eq q.text.toList
  rw [components_withSuffix h split, components_withSuffix h' split'] at same
  obtain ⟨_, names⟩ := List.append_inj' same rfl
  have texts : last ++ suffix.toList = last' ++ suffix'.toList :=
    String.ofList_injective (Step.name.inj (List.singleton_inj.1 names))
  exact differs (String.toList_inj.1 (List.append_inj_right' texts length))

/-! ## The order of paths -/

open Std

/-- The place of a step among the kinds of steps. -/
def Step.rank : Step → Nat
  | .top => 0
  | .stay => 1
  | .up => 2
  | .name _ => 3

/-- The name of the entry that a step leads to. -/
def Step.label : Step → String
  | .name n => n
  | _ => ""

lemma compare_step : (compare : Step → Step → Ordering)
    = compareLex (compareOn Step.rank) (compareOn Step.label) := by
  funext a b
  cases a with
  | name n =>
    cases b with
    | name n' => exact Ordering.then_eq ..
    | top | stay | up => rfl
  | top | stay | up => cases b <;> rfl

instance : TransOrd Step := by
  unfold TransOrd
  rw [compare_step]
  infer_instance

lemma le_trans {r : Path} (first : p.le q = true) (second : q.le r = true) : p.le r = true :=
  TransCmp.isLE_trans first second

lemma le_total (p q : Path) : (p.le q || q.le p) = true := by
  have swap : List.compareLex compare q.components p.components
      = (List.compareLex compare p.components q.components).swap := OrientedCmp.eq_swap
  unfold le
  rw [swap]
  cases List.compareLex compare p.components q.components <;> rfl

end Path
end HookWeave
