import HookWeave.Code.InstructionList
import HookWeave.Code.Tokens
import HookWeave.Proofs.Outcomes

/-!
# Requests for tokens and what they stand for

While code is written, an allocator answers one request for every reference in it, in the order of
the instructions (`TokenAllocator.answers`). If it never gives one token to two references
(`TokenAllocator.Distinct`), its answers can be turned around into a resolver
(`TokenAllocator.Distinct.inverts`). An allocator that takes a new row for every request is one of
these (`TokenAllocator.sequential_distinct`).
-/

namespace HookWeave

/-- What a token may be asked for. -/
inductive Reference where
  | method (method : MethodRef)
  | field (field : FieldRef)
  | type (sig : TypeSig)
  | string (value : String)
  deriving DecidableEq

/-- The references that an operand holds. -/
def Operand.references : Operand → List Reference
  | .method m => [.method m]
  | .field f => [.field f]
  | .type t => [.type t]
  | .string s => [.string s]
  | _ => []

/-- The references of a list, in the order of its instructions. -/
def InstructionList.references (l : InstructionList) : List Reference :=
  l.items.flatMap (·.operand.references)

/-! ## Requests -/

/-- References and the tokens that they got. -/
abbrev Answers := List (Reference × Token)

namespace TokenAllocator

variable {σ : Type} {tokens : TokenAllocator σ} {s s' s₁ : σ}

/-- Asks for the token of a reference. -/
def request (tokens : TokenAllocator σ) : Reference → StateT σ (Except Fault) Token
  | .method m => tokens.method m
  | .field f => tokens.field f
  | .type t => tokens.type t
  | .string s => tokens.string s

/-- Asks for the tokens of references, one after another. -/
def answers (tokens : TokenAllocator σ) : List Reference → StateT σ (Except Fault) Answers
  | [] => return []
  | r :: rs => do
    let token ← tokens.request r
    let answered ← answers tokens rs
    return (r, token) :: answered

/-- However many requests are made from this state on, no token is given to two references. -/
def Distinct (tokens : TokenAllocator σ) (s : σ) : Prop :=
  ∀ rs answered s', tokens.answers rs s = .ok (answered, s') →
    ∀ a ∈ answered, ∀ b ∈ answered, a.2 = b.2 → a.1 = b.1

/-- No request leaves the state as it is. -/
lemma answers_nil : tokens.answers [] s = .ok ([], s) :=
  rfl

/-- A single request. -/
lemma answers_singleton {r : Reference} {token : Token} (h : tokens.request r s = .ok (token, s')) :
    tokens.answers [r] s = .ok ([(r, token)], s') :=
  run_bind_eq_ok.2 ⟨token, s', h, rfl⟩

/-- A token is given for every reference. -/
lemma length_answers {rs : List Reference} {answered : Answers}
    (h : tokens.answers rs s = .ok (answered, s')) :
    (answered.map Prod.snd).length = rs.length := by
  induction rs generalizing s answered with
  | nil =>
    cases h
    rfl
  | cons r rs ih =>
    obtain ⟨token, s₁, asked, h⟩ := run_bind_eq_ok.1 h
    obtain ⟨rest, s₂, others, h⟩ := run_bind_eq_ok.1 h
    obtain ⟨rfl, rfl⟩ := run_pure_eq_ok.1 h
    exact congrArg (· + 1) (ih others)

/-- Requests for more references are requests for the first of them and then for the others. -/
lemma answers_append_eq (rs rs' : List Reference) : tokens.answers (rs ++ rs') = do
    let first ← tokens.answers rs
    let others ← tokens.answers rs'
    return first ++ others := by
  induction rs with
  | nil => simp only [List.nil_append, answers, pure_bind, bind_pure]
  | cons r rs ih => simp only [List.cons_append, answers, ih, bind_assoc, pure_bind]

/-- Requests are answered in turn. -/
lemma answers_append {rs rs' : List Reference} {first others : Answers}
    (h : tokens.answers rs s = .ok (first, s₁)) (h' : tokens.answers rs' s₁ = .ok (others, s')) :
    tokens.answers (rs ++ rs') s = .ok (first ++ others, s') := by
  rw [answers_append_eq]
  exact run_bind_eq_ok.2 ⟨first, s₁, h, run_bind_eq_ok.2 ⟨others, s', h', rfl⟩⟩

/-! ## A row for every request -/

/-- The row that a token was made of is the row that it names. -/
lemma row_ofParts {table : UInt8} {row : Nat} {token : Token}
    (h : Token.ofParts table row = .ok token) : token.row = row := by
  unfold Token.ofParts at h
  split at h
  · next fits =>
    cases h
    have table_lt := table.toNat_lt
    have fits : row ≤ 0xFFFFFF := fits
    show (UInt32.ofNat (table.toNat * 0x1000000 + row)).toNat % 0x1000000 = row
    have word : table.toNat * 0x1000000 + row < 2 ^ 32 := by omega
    rw [UInt32.toNat_ofNat_of_lt' word]
    omega
  · cases h

/-- A request takes the next row. -/
lemma sequential_request {log log' : RequestLog} {r : Reference} {token : Token}
    (h : sequential.request r log = .ok (token, log')) :
    token.row = log.next ∧ log'.next = log.next + 1 := by
  cases r
  all_goals
    obtain ⟨given, made, h⟩ := bind_eq_ok.1 h
    cases h
    exact ⟨row_ofParts made, rfl⟩

/-- The rows of answers are as new as the state that they were made from. -/
lemma le_row_of_sequential {log log' : RequestLog} {rs : List Reference} {answered : Answers}
    (h : sequential.answers rs log = .ok (answered, log')) :
    ∀ a ∈ answered, log.next ≤ a.2.row := by
  induction rs generalizing log answered with
  | nil =>
    cases h
    intro a ha
    cases ha
  | cons r rs ih =>
    obtain ⟨token, log₁, asked, h⟩ := run_bind_eq_ok.1 h
    obtain ⟨rest, log₂, others, h⟩ := run_bind_eq_ok.1 h
    obtain ⟨rfl, rfl⟩ := run_pure_eq_ok.1 h
    obtain ⟨row, next⟩ := sequential_request asked
    intro a ha
    cases ha with
    | head => exact Nat.le_of_eq row.symm
    | tail _ ha =>
      have later := ih others a ha
      omega

/-- An allocator that takes a new row for every request keeps references apart. -/
lemma sequential_distinct (log : RequestLog) : sequential.Distinct log := by
  intro rs
  induction rs generalizing log with
  | nil =>
    intro answered log' h a ha
    cases h
    cases ha
  | cons r rs ih =>
    intro answered log' h a ha b hb same
    obtain ⟨token, log₁, asked, h⟩ := run_bind_eq_ok.1 h
    obtain ⟨rest, log₂, others, h⟩ := run_bind_eq_ok.1 h
    obtain ⟨rfl, rfl⟩ := run_pure_eq_ok.1 h
    obtain ⟨row, next⟩ := sequential_request asked
    have later := le_row_of_sequential others
    cases ha with
    | head =>
      cases hb with
      | head => rfl
      | tail _ hb =>
        have le : log₁.next ≤ token.row := by
          rw [show token = b.2 from same]
          exact later b hb
        omega
    | tail _ ha =>
      cases hb with
      | head =>
        have le : log₁.next ≤ token.row := by
          rw [← show a.2 = token from same]
          exact later a ha
        omega
      | tail _ hb => exact ih log₁ rest log' others a ha b hb same

end TokenAllocator

/-! ## Tokens turned back -/

/-- What a token is resolved to, as a reference of the same sort as a given one. -/
def TokenResolver.Resolves (resolver : TokenResolver) (token : Token) : Reference → Prop
  | .method m => resolver.method token = .ok m
  | .field f => resolver.field token = .ok f
  | .type t => resolver.type token = .ok t
  | .string s => resolver.string token = .ok s

/-- Every token is resolved to the reference that it was given to. -/
def TokenResolver.Inverts (resolver : TokenResolver) (answered : Answers) : Prop :=
  ∀ a ∈ answered, resolver.Resolves a.2 a.1

/-- Tokens of more answers are resolved only if those of fewer are. -/
lemma TokenResolver.Inverts.of_append {resolver : TokenResolver} {first others : Answers}
    (h : resolver.Inverts (first ++ others)) : resolver.Inverts first ∧ resolver.Inverts others :=
  ⟨fun a ha => h a (List.mem_append_left others ha),
    fun a ha => h a (List.mem_append_right first ha)⟩

/-- A dictionary entry for a token that was given to a reference. -/
def Reference.entry (token : Token) : Reference → TokenEntry
  | .method m => { token, method? := some m, field? := none, type? := none, string? := none }
  | .field f => { token, method? := none, field? := some f, type? := none, string? := none }
  | .type t => { token, method? := none, field? := none, type? := some t, string? := none }
  | .string s => { token, method? := none, field? := none, type? := none, string? := some s }

/-- The resolver that maps every token back to the reference that it was given to. -/
def TokenResolver.ofAnswers (answered : Answers) : TokenResolver :=
  .ofEntries (answered.map fun a => a.1.entry a.2)

/-- An entry is for its token. -/
lemma Reference.token_entry (token : Token) (r : Reference) : (r.entry token).token = token := by
  cases r <;> rfl

/-- A resolver made of an entry for the token resolves the token to the reference of the entry. -/
lemma TokenResolver.resolves_ofEntries {entries : List TokenEntry} {token : Token} {r : Reference}
    (h : entries.find? (·.token = token) = some (r.entry token)) :
    (TokenResolver.ofEntries entries).Resolves token r := by
  cases r <;> simp only [Resolves, ofEntries, h] <;> rfl

/-- The answers of an allocator that keeps references apart can be turned around. -/
lemma TokenAllocator.Distinct.inverts {σ : Type} {tokens : TokenAllocator σ} {s s' : σ}
    {rs : List Reference} {answered : Answers} (distinct : tokens.Distinct s)
    (h : tokens.answers rs s = .ok (answered, s')) :
    (TokenResolver.ofAnswers answered).Inverts answered := by
  rintro ⟨r, token⟩ ha
  refine TokenResolver.resolves_ofEntries ?_
  have found : ∃ b, answered.find? (fun b => b.2 = token) = some b := by
    refine Option.isSome_iff_exists.1 (List.find?_isSome.2 ⟨(r, token), ha, ?_⟩)
    exact decide_eq_true rfl
  obtain ⟨b, found⟩ := found
  have given := List.find?_some found
  have given : b.2 = token := of_decide_eq_true given
  -- The first answer with the token may be another than this one, but not for another reference.
  have same : b.1 = r := distinct rs answered s' h b (List.mem_of_find?_eq_some found) _ ha given
  rw [List.find?_map]
  simp only [Function.comp_def, Reference.token_entry, found, Option.map_some, same, given]

end HookWeave
