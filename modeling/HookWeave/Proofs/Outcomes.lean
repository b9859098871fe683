import HookWeave.Fault
import Mathlib.Data.List.Forall2

/-!
# Computations that go well

A computation that may fail goes well only if each of its parts does. The lemmas here take such a
computation apart, once for plain outcomes (`bind_eq_ok`, `mapM_eq_ok`) and once for computations
with a state (`run_bind_eq_ok`). Where the state of a failure counts, a computation is run part by
part instead (`bind_of_ok`, `tryCatch_of_error`). Computations for each element of a list give lists that
correspond element by element, which is carried on to a third list (`forall₂_comp`) and looked up at a
position (`forall₂_getElem?`); where elements correspond only to themselves the lists are equal
(`eq_of_forall₂`). Two computations that are alike part by part come to the same, or fail alike
(`Foretells.bind`).
-/

namespace HookWeave

variable {α β σ : Type}

/-! ## Outcomes -/

/-- A sequence goes well if both parts do. -/
lemma bind_eq_ok {ε : Type} {x : Except ε α} {f : α → Except ε β} {b : β} :
    (x >>= f) = .ok b ↔ ∃ a, x = .ok a ∧ f a = .ok b := by
  cases x with
  | ok a =>
    constructor
    · intro h
      exact ⟨a, rfl, h⟩
    · rintro ⟨_, e, h⟩
      cases e
      exact h
  | error e =>
    constructor
    · intro h
      cases h
    · rintro ⟨_, e, _⟩
      cases e

lemma ok_bind {ε : Type} (a : α) (f : α → Except ε β) : (Except.ok a >>= f) = f a :=
  rfl

lemma map_eq_ok {x : Except Fault α} {f : α → β} {b : β} :
    (f <$> x) = .ok b ↔ ∃ a, x = .ok a ∧ f a = b := by
  cases x with
  | ok a =>
    constructor
    · intro h
      cases h
      exact ⟨a, rfl, rfl⟩
    · rintro ⟨_, e, h⟩
      cases e
      exact congrArg Except.ok h
  | error e =>
    constructor
    · intro h
      cases h
    · rintro ⟨_, e, _⟩
      cases e

/-- What is done to a fault leaves alone what goes well. -/
lemma mapError_eq_ok {ε ε' : Type} {x : Except ε α} {f : ε → ε'} {a : α} :
    x.mapError f = .ok a ↔ x = .ok a := by
  cases x with
  | ok a' =>
    show Except.ok a' = _ ↔ _
    rw [Except.ok.injEq, Except.ok.injEq]
  | error e => exact ⟨nofun, nofun⟩

lemma mapError_eq_error {ε ε' : Type} {x : Except ε α} {f : ε → ε'} {e : ε'} :
    x.mapError f = .error e ↔ ∃ cause, x = .error cause ∧ f cause = e := by
  cases x with
  | ok a => exact ⟨nofun, fun ⟨_, same, _⟩ => nomatch same⟩
  | error cause =>
    show Except.error (f cause) = _ ↔ _
    simp only [Except.error.injEq, exists_eq_left']

lemma mapM_eq_ok {f : α → Except Fault β} {as : List α} {bs : List β} :
    as.mapM f = .ok bs ↔ List.Forall₂ (fun a b => f a = .ok b) as bs := by
  induction as generalizing bs with
  | nil =>
    rw [List.mapM_nil, List.forall₂_nil_left_iff]
    constructor
    · intro h
      cases h
      rfl
    · rintro rfl
      rfl
  | cons a as ih =>
    rw [List.mapM_cons, bind_eq_ok]
    constructor
    · rintro ⟨b, hb, h⟩
      obtain ⟨bs', hbs, h⟩ := bind_eq_ok.1 h
      cases h
      exact .cons hb (ih.1 hbs)
    · intro h
      cases h with
      | cons hb hbs => exact ⟨_, hb, bind_eq_ok.2 ⟨_, ih.2 hbs, rfl⟩⟩

/-- Elements that each correspond to something are a list that corresponds to one. -/
lemma exists_forall₂ {R : α → β → Prop} {as : List α} (h : ∀ a ∈ as, ∃ b, R a b) :
    ∃ bs, List.Forall₂ R as bs := by
  induction as with
  | nil => exact ⟨[], .nil⟩
  | cons a as ih =>
    obtain ⟨⟨b, first⟩, others⟩ := List.forall_mem_cons.1 h
    obtain ⟨bs, rest⟩ := ih others
    exact ⟨b :: bs, .cons first rest⟩

/-- A computation for each element goes well if it does for every one. -/
lemma exists_mapM {f : α → Except Fault β} {as : List α} (h : ∀ a ∈ as, ∃ b, f a = .ok b) :
    ∃ bs, as.mapM f = .ok bs := by
  obtain ⟨bs, each⟩ := exists_forall₂ h
  exact ⟨bs, mapM_eq_ok.2 each⟩

lemma mapM_eq_some {f : α → Option β} {as : List α} {bs : List β} :
    as.mapM f = some bs ↔ List.Forall₂ (fun a b => f a = some b) as bs := by
  induction as generalizing bs with
  | nil =>
    rw [List.mapM_nil, List.forall₂_nil_left_iff]
    constructor
    · intro h
      cases h
      rfl
    · rintro rfl
      rfl
  | cons a as ih =>
    rw [List.mapM_cons, Option.bind_eq_bind, Option.bind_eq_some_iff]
    constructor
    · rintro ⟨b, hb, h⟩
      obtain ⟨bs', hbs, h⟩ := Option.bind_eq_some_iff.1 h
      cases h
      exact .cons hb (ih.1 hbs)
    · intro h
      cases h with
      | cons hb hbs => exact ⟨_, hb, Option.bind_eq_some_iff.2 ⟨_, ih.2 hbs, rfl⟩⟩

/-! ## Lists that correspond -/

lemma forall₂_comp {γ : Type} {R : α → β → Prop} {S : β → γ → Prop} {T : α → γ → Prop}
    {as : List α} {bs : List β} {cs : List γ} (h : List.Forall₂ R as bs) (h' : List.Forall₂ S bs cs)
    (both : ∀ a b c, R a b → S b c → T a c) : List.Forall₂ T as cs := by
  induction h generalizing cs with
  | nil =>
    cases h'
    exact .nil
  | cons first _ ih =>
    cases h' with
    | cons first' others => exact .cons (both _ _ _ first first') (ih others)

lemma forall₂_getElem? {R : α → β → Prop} {as : List α} {bs : List β} {a : α} {k : Nat}
    (h : List.Forall₂ R as bs) (hk : as[k]? = some a) : ∃ b, bs[k]? = some b ∧ R a b := by
  induction h generalizing k with
  | nil => cases hk
  | @cons _ b _ bs first _ ih =>
    cases k with
    | zero =>
      cases hk
      exact ⟨b, rfl, first⟩
    | succ k => exact ih hk

/-- What corresponds to two lists one after the other is two such lists. -/
lemma of_forall₂_append {R : α → β → Prop} {as as' : List α} {bs : List β}
    (h : List.Forall₂ R (as ++ as') bs) :
    ∃ first others, bs = first ++ others ∧ List.Forall₂ R as first ∧ List.Forall₂ R as' others := by
  induction as generalizing bs with
  | nil => exact ⟨[], bs, rfl, .nil, h⟩
  | cons a as ih =>
    cases h with
    | cons here rest =>
      obtain ⟨first, others, rfl, before, behind⟩ := ih rest
      exact ⟨_ :: first, others, rfl, .cons here before, behind⟩

/-- Lists correspond only if they are equal, if elements correspond only to themselves. -/
lemma eq_of_forall₂ {R : α → α → Prop} {as bs : List α} (h : List.Forall₂ R as bs)
    (same : ∀ a ∈ as, ∀ b, R a b → b = a) : bs = as := by
  induction h with
  | nil => rfl
  | cons first _ ih =>
    obtain ⟨here, others⟩ := List.forall_mem_cons.1 same
    rw [here _ first, ih others]

/-- If all elements but one correspond only to themselves, just that one is replaced. -/
lemma eq_set_of_forall₂ {R : α → α → Prop} {f : α → α} {as bs : List α} {a : α} {k : Nat}
    (h : List.Forall₂ R (as.modify k f) bs) (hk : as[k]? = some a)
    (same : ∀ a ∈ as, ∀ b, R a b → b = a) : ∃ b, R (f a) b ∧ bs = as.set k b := by
  induction as generalizing k bs with
  | nil => cases hk
  | cons first as ih =>
    obtain ⟨here, others⟩ := List.forall_mem_cons.1 same
    cases k with
    | zero =>
      cases hk
      cases h with
      | cons replaced rest => exact ⟨_, replaced, congrArg _ (eq_of_forall₂ rest others)⟩
    | succ k =>
      cases h with
      | cons kept rest =>
        obtain ⟨b, replaced, rfl⟩ := ih rest hk others
        exact ⟨b, replaced, congrArg (· :: _) (here _ kept)⟩

/-! ## Options that correspond -/

lemma rel_imp {R S : α → β → Prop} {x : Option α} {y : Option β} (h : Option.Rel R x y)
    (weaker : ∀ a b, R a b → S a b) : Option.Rel S x y := by
  cases h with
  | some related => exact .some (weaker _ _ related)
  | none => exact .none

lemma rel_map {γ δ : Type} {R : α → β → Prop} {S : γ → δ → Prop} {f : α → γ} {g : β → δ} {x : Option α}
    {y : Option β} (h : Option.Rel R x y) (both : ∀ a b, R a b → S (f a) (g b)) :
    Option.Rel S (f <$> x) (g <$> y) := by
  cases h with
  | some related => exact .some (both _ _ related)
  | none => exact .none

lemma rel_cases {R : α → β → Prop} {x : Option α} {y : Option β} (h : Option.Rel R x y) :
    (x = none ∧ y = none) ∨ ∃ a b, x = some a ∧ y = some b ∧ R a b := by
  cases h with
  | none => exact .inl ⟨rfl, rfl⟩
  | some related => exact .inr ⟨_, _, rfl, rfl, related⟩

/-! ## Outcomes that foretell others -/

/-- An outcome foretells another: both computations go well, with related results, or fail with one fault,
unless the second fails with a fault that is excused. -/
inductive Foretells (excused : Fault → Prop) (Q : α → β → Prop) : Except Fault α → Except Fault β → Prop
  | ok {a : α} {b : β} : Q a b → Foretells excused Q (.ok a) (.ok b)
  | error {e : Fault} : Foretells excused Q (.error e) (.error e)
  | excused {x : Except Fault α} {e : Fault} : excused e → Foretells excused Q x (.error e)

namespace Foretells

variable {γ δ : Type} {excused : Fault → Prop} {Q Q' : α → β → Prop} {S : γ → δ → Prop}
  {x : Except Fault α} {y : Except Fault β} {f : α → Except Fault γ} {g : β → Except Fault δ}

lemma imp (h : Foretells excused Q x y) (weaker : ∀ a b, x = .ok a → y = .ok b → Q a b → Q' a b) :
    Foretells excused Q' x y := by
  cases h with
  | ok related => exact .ok (weaker _ _ rfl rfl related)
  | error => exact .error
  | excused known => exact .excused known

lemma bind (h : Foretells excused Q x y) (next : ∀ a b, Q a b → Foretells excused S (f a) (g b)) :
    Foretells excused S (x >>= f) (y >>= g) := by
  cases h with
  | ok related => exact next _ _ related
  | error => exact .error
  | excused known => exact .excused known

lemma mapError {h : Fault → Fault} (strict : Foretells (fun _ => False) Q x y) :
    Foretells excused Q (x.mapError h) (y.mapError h) := by
  cases strict with
  | ok related => exact .ok related
  | error => exact .error
  | excused never => exact never.elim

/-- Where nothing is excused, both computations go well, or both fail. -/
lemma strict (h : Foretells (fun _ => False) Q x y) : (∃ a b, x = .ok a ∧ y = .ok b ∧ Q a b)
    ∨ ∃ e, x = .error e ∧ y = .error e := by
  cases h with
  | ok related => exact .inl ⟨_, _, rfl, rfl, related⟩
  | error => exact .inr ⟨_, rfl, rfl⟩
  | excused never => exact never.elim

/-- A computation foretells itself, and what it gives. -/
lemma self (x : Except Fault α) : Foretells excused (fun a b => a = b ∧ x = .ok a) x x := by
  cases x with
  | ok a => exact .ok ⟨rfl, rfl⟩
  | error e => exact .error

lemma of_eq {x y : Except Fault α} (same : x = y) : Foretells excused Eq x y :=
  same ▸ (self x).imp fun _ _ _ _ both => both.1

end Foretells

/-! ## Outcomes with a state -/

variable {s s' : σ}

lemma run_bind_eq_ok {x : StateT σ (Except Fault) α} {f : α → StateT σ (Except Fault) β} {b : β} :
    (x >>= f) s = .ok (b, s') ↔ ∃ a s₁, x s = .ok (a, s₁) ∧ f a s₁ = .ok (b, s') := by
  show (x s >>= fun p => f p.1 p.2) = _ ↔ _
  rw [bind_eq_ok]
  constructor
  · rintro ⟨⟨a, s₁⟩, h⟩
    exact ⟨a, s₁, h⟩
  · rintro ⟨a, s₁, h⟩
    exact ⟨(a, s₁), h⟩

lemma run_pure_eq_ok {a b : α} :
    (pure a : StateT σ (Except Fault) α) s = .ok (b, s') ↔ b = a ∧ s' = s := by
  constructor
  · intro h
    cases h
    exact ⟨rfl, rfl⟩
  · rintro ⟨rfl, rfl⟩
    rfl

/-- A computation without state, run among those with a state, leaves the state. -/
lemma run_lift_eq_ok {x : Except Fault α} {a : α} :
    (liftM x : StateT σ (Except Fault) α) s = .ok (a, s') ↔ x = .ok a ∧ s' = s := by
  show (x >>= fun a => .ok (a, s)) = _ ↔ _
  rw [bind_eq_ok]
  constructor
  · rintro ⟨_, h, e⟩
    cases e
    exact ⟨h, rfl⟩
  · rintro ⟨h, rfl⟩
    exact ⟨a, h, rfl⟩

lemma run_lift_bind_eq_ok {x : Except Fault α} {f : α → StateT σ (Except Fault) β} {b : β} :
    ((liftM x : StateT σ (Except Fault) α) >>= f) s = .ok (b, s')
      ↔ ∃ a, x = .ok a ∧ f a s = .ok (b, s') := by
  rw [run_bind_eq_ok]
  constructor
  · rintro ⟨a, s₁, lifted, h⟩
    obtain ⟨outcome, rfl⟩ := run_lift_eq_ok.1 lifted
    exact ⟨a, outcome, h⟩
  · rintro ⟨a, h, h'⟩
    exact ⟨a, s, run_lift_eq_ok.2 ⟨h, rfl⟩, h'⟩

lemma run_bind_of_ok {x : StateT σ (Except Fault) α} {f : α → StateT σ (Except Fault) β} {a : α}
    (h : x s = .ok (a, s')) : (x >>= f) s = f a s' := by
  show (x s >>= fun p => f p.1 p.2) = _
  rw [h]
  rfl

lemma run_bind_of_error {x : StateT σ (Except Fault) α} {f : α → StateT σ (Except Fault) β}
    {e : Fault} (h : x s = .error e) : (x >>= f) s = .error e := by
  show (x s >>= fun p => f p.1 p.2) = _
  rw [h]
  rfl

/-! ## Outcomes that keep the state of a failure -/

section

variable {ε : Type} {x : EStateM ε σ α} {a : α} {e : ε}

/-- The state that is left, also by a failure. -/
def after : EStateM.Result ε σ α → σ
  | .ok _ s | .error _ s => s

/-- The computation went well. -/
def wentWell : EStateM.Result ε σ α → Bool
  | .ok _ _ => true
  | .error _ _ => false

lemma exists_ok {r : EStateM.Result ε σ α} (h : wentWell r = true) : ∃ a, r = .ok a (after r) := by
  cases r with
  | ok a s => exact ⟨a, rfl⟩
  | error e s => cases h

lemma exists_error {r : EStateM.Result ε σ α} (h : wentWell r = false) :
    ∃ e, r = .error e (after r) := by
  cases r with
  | ok a s => cases h
  | error e s => exact ⟨e, rfl⟩

lemma edit_bind_eq_ok {g : α → EStateM ε σ β} {b : β} :
    (x >>= g) s = .ok b s' ↔ ∃ a s₁, x s = .ok a s₁ ∧ g a s₁ = .ok b s' := by
  show EStateM.bind x g s = _ ↔ _
  rw [EStateM.bind]
  cases x s with
  | ok a s₁ =>
    constructor
    · intro h
      exact ⟨a, s₁, rfl, h⟩
    · rintro ⟨a', s₁', same, h⟩
      cases same
      exact h
  | error e s₁ =>
    constructor
    · intro h
      cases h
    · rintro ⟨a', s₁', same, h⟩
      cases same

/-- A sequence fails if its first part does, or what comes after it. -/
lemma edit_bind_eq_error {g : α → EStateM ε σ β} :
    (x >>= g) s = .error e s' ↔ x s = .error e s' ∨ ∃ a s₁, x s = .ok a s₁ ∧ g a s₁ = .error e s' := by
  show EStateM.bind x g s = _ ↔ _
  rw [EStateM.bind]
  cases x s with
  | ok a s₁ =>
    constructor
    · intro h
      exact .inr ⟨a, s₁, rfl, h⟩
    · rintro (same | ⟨a', s₁', same, h⟩)
      · cases same
      · cases same
        exact h
  | error e₁ s₁ =>
    constructor
    · intro h
      cases h
      exact .inl rfl
    · rintro (same | ⟨a', s₁', same, h⟩)
      · cases same
        rfl
      · cases same

/-- A sequence whose second part only gives a result fails just where its first part does. -/
lemma edit_bind_pure_eq_error {g : α → β} :
    (x >>= fun a => pure (g a)) s = .error e s' ↔ x s = .error e s' := by
  rw [edit_bind_eq_error]
  refine or_iff_left ?_
  rintro ⟨a, s₁, _, h⟩
  cases h

lemma bind_of_ok {f : α → EStateM ε σ β} (h : x s = .ok a s') : (x >>= f) s = f a s' := by
  show EStateM.bind x f s = _
  rw [EStateM.bind, h]

lemma bind_of_error {f : α → EStateM ε σ β} (h : x s = .error e s') :
    (x >>= f) s = .error e s' := by
  show EStateM.bind x f s = _
  rw [EStateM.bind, h]

lemma edit_get_bind (f : σ → EStateM ε σ β) (s : σ) :
    (get >>= f : EStateM ε σ β) s = f s s :=
  rfl

lemma tryCatch_of_ok {handle : ε → EStateM ε σ α} (h : x s = .ok a s') :
    tryCatch x handle s = .ok a s' := by
  show EStateM.tryCatch x handle s = _
  unfold EStateM.tryCatch
  simp only [h]

/-- What handles a failure goes on with the state that the failure left. -/
lemma tryCatch_of_error {handle : ε → EStateM ε σ α} (h : x s = .error e s') :
    tryCatch x handle s = handle e s' := by
  show EStateM.tryCatch x handle s = _
  unfold EStateM.tryCatch
  simp only [h]
  rfl

end

end HookWeave
