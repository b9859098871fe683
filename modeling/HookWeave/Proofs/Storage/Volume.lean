import HookWeave.Store
import HookWeave.Proofs.Storage.Siblings
import Mathlib.Data.List.Pairwise
import Mathlib.Logic.Function.Basic

/-!
# Volumes

A volume is a disk without directories: it holds files by the components of their paths. A plan says
which of the coming steps fail, for whatever reason. All other steps take effect, except that what is
not there can neither be moved nor removed.

Replacing the file of a module touches three files, which make up a cell: the file itself, its staged
image and what it is kept as. Steps on one cell leave all others as they are (`Volume.Moves`).
-/

namespace HookWeave

/-- What befalls a step that fails. -/
structure Mishap where
  /-- The reason. -/
  cause : IoFault
  /-- What a file that was to be written holds afterwards, if anything was written. -/
  torn : Option Bytes

/-- Files by the components of their paths. -/
structure Volume where
  contents : List Path.Step → Option Bytes
  /-- What befalls the coming steps. -/
  plan : Nat → Option Mishap

namespace Volume

/-- What the file of a path holds, if there is one. -/
def file? (v : Volume) (p : Path) : Option Bytes :=
  v.contents p.components

/-- The volume with another content of a file, or without the file. -/
def put (v : Volume) (p : Path) (data : Option Bytes) : Volume :=
  { v with contents := Function.update v.contents p.components data }

/-- The volume when that many steps are over that changed nothing. -/
def later (v : Volume) (steps : Nat) : Volume :=
  { v with plan := fun k => v.plan (k + steps) }

/-- A step that has an effect unless it is planned to fail. -/
def act (effect : Volume → Except IoFault Volume) (failing : Mishap → Volume → Volume) :
    DiskOp Volume Unit := fun v =>
  match v.plan 0 with
  | some mishap => .error mishap.cause (failing mishap (v.later 1))
  | none =>
    match effect (v.later 1) with
    | .ok v => .ok () v
    | .error e => .error e (v.later 1)

instance : Disk Volume where
  files v p :=
    match v.file? p with
    | some data => .ok data
    | none => .error .notFound
  occupied v p := (v.file? p).isSome
  write p data := act (fun v => .ok (v.put p (some data))) fun mishap v =>
    match mishap.torn with
    | some torn => v.put p (some torn)
    | none => v
  rename p q := act (fun v =>
    match v.file? p with
    | some data => .ok ((v.put p none).put q (some data))
    | none => .error .notFound) fun _ v => v
  remove p := act (fun v =>
    match v.file? p with
    | some _ => .ok (v.put p none)
    | none => .error .notFound) fun _ v => v

/-- All steps take effect. -/
def Reliable (v : Volume) : Prop :=
  ∀ k, v.plan k = none

/-- All steps take effect but for one, which comes after that many others. -/
structure FailsAt (v : Volume) (steps : Nat) (mishap : Mishap) : Prop where
  fails : v.plan steps = some mishap
  others : ∀ k, k ≠ steps → v.plan k = none

variable {v v' v'' : Volume} {p q : Path} {data : Bytes} {x : Option Bytes} {mishap : Mishap}
  {k n : Nat}

@[simp]
lemma file?_later : (v.later n).file? p = v.file? p :=
  rfl

lemma file?_put_self : (v.put p x).file? p = x :=
  Function.update_self ..

lemma file?_put_of_ne (h : q.components ≠ p.components) : (v.put p x).file? q = v.file? q :=
  Function.update_of_ne h ..

lemma put_self : v.put p (v.file? p) = v := by
  unfold put file?
  rw [Function.update_eq_self]

lemma Reliable.later (h : v.Reliable) : (v.later n).Reliable :=
  fun k => h (k + n)

lemma Reliable.put (h : v.Reliable) : (v.put p x).Reliable :=
  h

lemma FailsAt.later (h : v.FailsAt (k + n) mishap) : (v.later n).FailsAt k mishap where
  fails := h.fails
  others j hj := h.others (j + n) (by omega)

lemma FailsAt.put (h : v.FailsAt k mishap) : (v.put p x).FailsAt k mishap where
  fails := h.fails
  others := h.others

/-- A step that fails is as much nearer as there were steps. -/
lemma FailsAt.of_plan (h : v.FailsAt k mishap) (plan : ∀ k, v'.plan k = v.plan (k + n))
    (many : n ≤ k) : v'.FailsAt (k - n) mishap where
  fails := by
    rw [plan, Nat.sub_add_cancel many]
    exact h.fails
  others j hj := by
    rw [plan]
    exact h.others _ (by omega)

/-- When the step that fails is over, all others take effect. -/
lemma FailsAt.reliable (h : v.FailsAt k mishap) : (v.later (k + 1)).Reliable :=
  fun j => h.others (j + (k + 1)) (by omega)

/-! ## Single steps -/

lemma write_ok (quiet : v.plan 0 = none) :
    Disk.write p data v = .ok () ((v.later 1).put p (some data)) := by
  show act _ _ v = _
  rw [act, quiet]

/-- A write that fails leaves the file as it was, or torn. -/
lemma write_error (fails : v.plan 0 = some mishap) : ∃ x,
    Disk.write p data v = .error mishap.cause ((v.later 1).put p x) := by
  show ∃ x, act _ _ v = _
  rw [act, fails]
  cases torn : mishap.torn with
  | some data => exact ⟨some data, by simp only [torn]⟩
  | none =>
    refine ⟨(v.later 1).file? p, ?_⟩
    simp only [torn, put_self]

/-- The volume when a file with that content was moved in one step. -/
def renamed (v : Volume) (p q : Path) (data : Bytes) : Volume :=
  ((v.later 1).put p none).put q (some data)

lemma rename_ok (quiet : v.plan 0 = none) (found : v.file? p = some data) :
    Disk.rename p q v = .ok () (v.renamed p q data) := by
  show act _ _ v = _
  rw [act, quiet, file?_later, found]
  rfl

lemma rename_error (fails : v.plan 0 = some mishap) :
    Disk.rename p q v = .error mishap.cause (v.later 1) := by
  show act _ _ v = _
  rw [act, fails]

lemma remove_ok (quiet : v.plan 0 = none) (found : v.file? p = some data) :
    Disk.remove p v = .ok () ((v.later 1).put p none) := by
  show act _ _ v = _
  rw [act, quiet, file?_later, found]

/-- A file that is not there is not there after an attempt to remove it. -/
lemma attempt_remove {ε : Type} (quiet : v.plan 0 = none) :
    Disk.attempt (Disk.remove p) v = (.ok () ((v.later 1).put p none) : EStateM.Result ε Volume Unit) := by
  unfold Disk.attempt
  cases found : v.file? p with
  | some data => rw [remove_ok quiet found]
  | none =>
    have missing : Disk.remove p v = .error .notFound (v.later 1) := by
      show act _ _ v = _
      rw [act, quiet, file?_later, found]
    have same : (v.later 1).put p none = v.later 1 :=
      Eq.trans (congrArg _ found.symm) put_self
    rw [missing, same]

lemma attempt_rename {ε : Type} (quiet : v.plan 0 = none) (found : v.file? p = some data) :
    Disk.attempt (Disk.rename p q) v
      = (.ok () (v.renamed p q data) : EStateM.Result ε Volume Unit) := by
  unfold Disk.attempt
  rw [rename_ok quiet found]

/-! ## Cells -/

/-- What the files hold that belong to one module. -/
@[ext]
structure Cell where
  file : Option Bytes
  staged : Option Bytes
  kept : Option Bytes

/-- The cell of a module's path. -/
def cell (v : Volume) (p : Path) : Cell :=
  ⟨v.file? p, v.file? (Store.staging p), v.file? (Store.backup p)⟩

lemma cell_congr (h : v'.contents = v.contents) : v'.cell p = v.cell p := by
  unfold cell file?
  rw [h]

/-- The files of a cell. -/
def keys (p : Path) : List (List Path.Step) :=
  [p.components, (Store.staging p).components, (Store.backup p).components]

/-- The files of a cell are three. -/
structure Single (p : Path) : Prop where
  file_staged : p.components ≠ (Store.staging p).components
  file_kept : p.components ≠ (Store.backup p).components
  staged_kept : (Store.staging p).components ≠ (Store.backup p).components

/-- The cells of paths consist of files of their own. -/
structure Separate (ps : List Path) : Prop where
  single : ∀ p ∈ ps, Single p
  pairs : ps.Pairwise fun p q => (keys p).Disjoint (keys q)

/-- The cells of some paths change in a given way, and nothing else does. -/
structure Moves (v v' : Volume) (ps : List Path) (change : Path → Cell → Cell) : Prop where
  cells : ∀ p ∈ ps, v'.cell p = change p (v.cell p)
  outside : ∀ key, (∀ p ∈ ps, key ∉ keys p) → v'.contents key = v.contents key

variable {ps qs : List Path} {f g : Path → Cell → Cell}

lemma Separate.sublist (h : Separate qs) (sub : ps.Sublist qs) : Separate ps where
  single q hq := h.single q (sub.subset hq)
  pairs := h.pairs.sublist sub

lemma Separate.perm (h : Separate qs) (perm : ps.Perm qs) : Separate ps where
  single q hq := h.single q (perm.subset hq)
  pairs := (perm.pairwise_iff fun {_ _} => List.disjoint_symm).2 h.pairs

lemma Separate.tail (h : Separate (p :: ps)) : Separate ps :=
  h.sublist (List.sublist_cons_self p ps)

lemma Separate.head (h : Separate (p :: ps)) (hq : q ∈ ps) : (keys p).Disjoint (keys q) :=
  (List.pairwise_cons.1 h.pairs).1 q hq

lemma Separate.disjoint (h : Separate ps) (hp : p ∈ ps) (hq : q ∈ ps) (ne : p ≠ q) :
    (keys p).Disjoint (keys q) := by
  have symm : Std.Symm fun p q : Path => (keys p).Disjoint (keys q) :=
    ⟨fun _ _ => List.disjoint_symm⟩
  exact h.pairs.forall hp hq ne

namespace Moves

lemma nil : v.Moves v [] f where
  cells _ hp := nomatch hp
  outside _ _ := rfl

/-- A cell is left as it is if it is apart from those that change. -/
lemma frame (h : v.Moves v' ps f) (apart : ∀ p ∈ ps, (keys p).Disjoint (keys q)) :
    v'.cell q = v.cell q := by
  have same : ∀ key ∈ keys q, v'.contents key = v.contents key :=
    fun key hk => h.outside key fun p hp hk' => apart p hp hk' hk
  ext1
  · exact same _ (List.mem_cons_self ..)
  · exact same _ (List.mem_cons_of_mem _ (List.mem_cons_self ..))
  · exact same _ (List.mem_cons_of_mem _ (List.mem_cons_of_mem _ (List.mem_cons_self ..)))

lemma frame_of_separate (h : v.Moves v' [p] f) (separate : Separate (p :: ps)) (hq : q ∈ ps) :
    v'.cell q = v.cell q := by
  refine h.frame fun r hr => ?_
  cases List.mem_singleton.1 hr
  exact separate.head hq

/-- Some cells after others. -/
lemma append (first : v.Moves v' ps f) (separate : Separate (ps ++ qs))
    (second : v'.Moves v'' qs f) : v.Moves v'' (ps ++ qs) f where
  cells q hq := by
    have apart := (List.pairwise_append.1 separate.pairs).2.2
    cases List.mem_append.1 hq with
    | inl mem =>
      rw [second.frame fun p hp => List.disjoint_symm (apart q mem p hp)]
      exact first.cells q mem
    | inr mem =>
      rw [second.cells q mem, first.frame fun p hp => apart p hp q mem]
  outside key apart := by
    obtain ⟨here, others⟩ := List.forall_mem_append.1 apart
    rw [second.outside key others, first.outside key here]

lemma cons (first : v.Moves v' [p] f) (separate : Separate (p :: ps)) (rest : v'.Moves v'' ps f) :
    v.Moves v'' (p :: ps) f := by
  rw [← List.singleton_append] at separate ⊢
  exact first.append separate rest

lemma of_mem_iff (h : v.Moves v' ps f) (same : ∀ p, p ∈ qs ↔ p ∈ ps) : v.Moves v' qs f where
  cells p hp := h.cells p ((same p).1 hp)
  outside key apart := h.outside key fun p hp => apart p ((same p).2 hp)

/-- One change after another. -/
lemma comp (first : v.Moves v' ps f) (second : v'.Moves v'' ps g) :
    v.Moves v'' ps fun p c => g p (f p c) where
  cells p hp := by rw [second.cells p hp, first.cells p hp]
  outside key apart := by rw [second.outside key apart, first.outside key apart]

lemma refl : v.Moves v ps fun _ c => c where
  cells _ _ := rfl
  outside _ _ := rfl

lemma later : v.Moves (v.later n) ps fun _ c => c where
  cells _ _ := rfl
  outside _ _ := rfl

lemma congr (h : v.Moves v' ps f) (same : ∀ p ∈ ps, f p (v.cell p) = g p (v.cell p)) :
    v.Moves v' ps g where
  cells p hp := (h.cells p hp).trans (same p hp)
  outside := h.outside

/-- What is done to some cells does not count if what comes next undoes it. -/
lemma absorb (separate : Separate qs) (sub : ps ⊆ qs) (first : v.Moves v' ps f)
    (second : v'.Moves v'' qs g) (absorbs : ∀ p ∈ ps, g p (f p (v.cell p)) = g p (v.cell p)) :
    v.Moves v'' qs g where
  cells q hq := by
    rw [second.cells q hq]
    by_cases mem : q ∈ ps
    · rw [first.cells q mem, absorbs q mem]
    · rw [first.frame fun p hp => separate.disjoint (sub hp) hq ?_]
      rintro rfl
      exact mem hp
  outside key apart := by
    rw [second.outside key apart, first.outside key fun p hp => apart p (sub hp)]

/-- The cells that are changed may stand among others. -/
lemma extend (h : v.Moves v' ps f) (separate : Separate qs) (sub : ps ⊆ qs)
    (same : ∀ q ∈ qs, q ∉ ps → f q (v.cell q) = v.cell q) : v.Moves v' qs f where
  cells q hq := by
    by_cases mem : q ∈ ps
    · exact h.cells q mem
    · rw [same q hq mem]
      refine h.frame fun p hp => separate.disjoint (sub hp) hq ?_
      rintro rfl
      exact mem hp
  outside key apart := h.outside key fun p hp => apart p (sub hp)

/-- Nothing changes if no cell does. -/
lemma contents_eq (h : v.Moves v' ps f) (same : ∀ p ∈ ps, f p (v.cell p) = v.cell p) :
    v'.contents = v.contents := by
  funext key
  by_cases apart : ∀ p ∈ ps, key ∉ keys p
  · exact h.outside key apart
  · obtain ⟨p, hp, hk⟩ : ∃ p ∈ ps, key ∈ keys p := by
      simpa only [not_forall, not_not, exists_prop] using apart
    have cell := (h.cells p hp).trans (same p hp)
    simp only [keys, List.mem_cons, List.not_mem_nil, or_false] at hk
    obtain rfl | rfl | rfl := hk
    · exact congrArg Cell.file cell
    · exact congrArg Cell.staged cell
    · exact congrArg Cell.kept cell

end Moves

/-! ## Single files of a cell -/

lemma contents_put {key : List Path.Step} (apart : ∀ q ∈ [p], key ∉ keys q)
    (own : q.components ∈ keys p) : (v.put q x).contents key = v.contents key := by
  refine Function.update_of_ne ?_ ..
  rintro rfl
  exact apart p (List.mem_singleton_self p) own

lemma moves_put_file (h : Single p) :
    v.Moves (v.put p x) [p] fun _ c => { c with file := x } where
  cells q hq := by
    cases List.mem_singleton.1 hq
    ext1
    · exact file?_put_self
    · exact file?_put_of_ne h.file_staged.symm
    · exact file?_put_of_ne h.file_kept.symm
  outside key apart := contents_put apart (by simp [keys])

lemma moves_put_staging (h : Single p) :
    v.Moves (v.put (Store.staging p) x) [p] fun _ c => { c with staged := x } where
  cells q hq := by
    cases List.mem_singleton.1 hq
    ext1
    · exact file?_put_of_ne h.file_staged
    · exact file?_put_self
    · exact file?_put_of_ne h.staged_kept.symm
  outside key apart := contents_put apart (by simp [keys])

lemma moves_put_backup (h : Single p) :
    v.Moves (v.put (Store.backup p) x) [p] fun _ c => { c with kept := x } where
  cells q hq := by
    cases List.mem_singleton.1 hq
    ext1
    · exact file?_put_of_ne h.file_kept
    · exact file?_put_of_ne h.staged_kept
    · exact file?_put_self
  outside key apart := contents_put apart (by simp [keys])

end Volume
end HookWeave
