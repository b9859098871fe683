import HookWeave.Proofs.Image.Denotations
import HookWeave.Proofs.Image.Indexed
import HookWeave.Proofs.Image.Records
import Mathlib.Logic.Relation

/-!
# Rows and tokens name references

All that is written changes the tables of a builder only by interning values (`Building.adds_run`), so no table ever
has two equal rows (`Builder.Distinct`). A history of a builder are the requests for rows and tokens that were
answered while it was filled, whatever else was written in between (`Builder.Reached`). The answers stay true: each
row and each token denotes what was asked for and nothing else, is given again for it, and is read as it
(`Builder.Names`).
-/

namespace HookWeave

/-- Interning never makes two equal rows. -/
lemma Table.nodup_intern {α : Type} [DecidableEq α] {t : Table α} (h : t.rows.Nodup) (a : α) :
    (t.intern a).2.rows.Nodup := by
  unfold intern
  cases found : t.rows.idxOf? a with
  | some k => exact h
  | none =>
    have new : a ∉ t.rows := List.idxOf?_eq_none_iff.1 found
    exact h.append (List.nodup_singleton a) (List.disjoint_singleton.2 new)

namespace Image

open Relation (ReflTransGen)

/-! ## Tables without equal rows -/

namespace Builder

variable {b b' : Builder}

/-- A value was interned in one of the tables. -/
inductive Adds (b : Builder) : Builder → Prop
  | string (s : String) : b.Adds { b with strings := (b.strings.intern s).2 }
  | typeRef (t : TypeRef) : b.Adds { b with typeRefs := (b.typeRefs.intern t).2 }
  | typeSpec (bytes : Bytes) : b.Adds { b with typeSpecs := (b.typeSpecs.intern bytes).2 }
  | member (bytes : Bytes) : b.Adds { b with members := (b.members.intern bytes).2 }

/-- No table has two equal rows. -/
structure Distinct (b : Builder) : Prop where
  strings : b.strings.rows.Nodup
  typeRefs : b.typeRefs.rows.Nodup
  typeSpecs : b.typeSpecs.rows.Nodup
  members : b.members.rows.Nodup

lemma Adds.grows (h : b.Adds b') : b.Grows b' := by
  cases h with
  | string s => exact (Building.settles_stringRow s b _ _ (Building.stringRow_eq s b)).1
  | typeRef t => exact (Building.settles_typeRefRow t b _ _ (Building.typeRefRow_eq t b)).1
  | typeSpec bytes => exact (Building.settles_typeSpecRow bytes b _ _ (Building.typeSpecRow_eq bytes b)).1
  | member bytes => exact (Building.settles_memberRow bytes b _ _ (Building.memberRow_eq bytes b)).1

lemma distinct_empty : Builder.empty.Distinct :=
  ⟨.nil, .nil, .nil, .nil⟩

lemma Distinct.of_adds (h : b.Distinct) (adds : b.Adds b') : b'.Distinct := by
  cases adds with
  | string s => exact { h with strings := Table.nodup_intern h.strings s }
  | typeRef t => exact { h with typeRefs := Table.nodup_intern h.typeRefs t }
  | typeSpec bytes => exact { h with typeSpecs := Table.nodup_intern h.typeSpecs bytes }
  | member bytes => exact { h with members := Table.nodup_intern h.members bytes }

lemma Distinct.of_steps (h : b.Distinct) (steps : ReflTransGen Adds b b') : b'.Distinct := by
  induction steps with
  | refl => exact h
  | tail _ adds ih => exact ih.of_adds adds

end Builder

namespace Building

/-- Interned values are all that ever changes. -/
lemma adds : Composes fun α x => ∀ b (a : α) b', x b = .ok (a, b') → ReflTransGen Builder.Adds b b' where
  lift x b a b' h := by
    obtain ⟨_, rfl⟩ := run_lift_eq_ok.1 h
    exact .refl
  bind hx hf b c b' h := by
    obtain ⟨a, b₁, first, second⟩ := run_bind_eq_ok.1 h
    exact (hx b a b₁ first).trans (hf a b₁ c b' second)
  stringRow s b row b' h := by
    rw [stringRow_eq] at h
    cases h
    exact .single (.string s)
  typeRefRow t b row b' h := by
    rw [typeRefRow_eq] at h
    cases h
    exact .single (.typeRef t)
  typeSpecRow bytes b row b' h := by
    rw [typeSpecRow_eq] at h
    cases h
    exact .single (.typeSpec bytes)
  memberRow bytes b row b' h := by
    rw [memberRow_eq] at h
    cases h
    exact .single (.member bytes)

/-- Tokens of one table are those of rows of one table. -/
lemma table?_of_tokenTable {r r' : Reference} (same : tokenTable r = tokenTable r') :
    (Mention.reference r).table? = (Mention.reference r').table? := by
  cases r <;> cases r' <;> first | rfl | cases same

end Building

/-! ## Requests -/

/-- What a builder is asked for: the token or the row of a reference, or the row of a type reference. -/
inductive Request where
  | token (r : Reference)
  | row (r : Reference)
  | typeRow (t : TypeRef)

/-- The row that was given, and the token if it was asked for. -/
structure Reply where
  row : Nat
  token? : Option Token

namespace Request

/-- Answers the request. -/
def run : Request → Building Reply
  | token r => do
    let token ← Building.allocator.request r
    return ⟨token.row, some token⟩
  | row r => do
    return ⟨← Building.rowOf r, none⟩
  | typeRow t => do
    return ⟨← Building.typeRefRow t, none⟩

/-- What the request is about. -/
def mention : Request → Mention
  | token r | row r => .reference r
  | typeRow t => .typeRef t

/-- The row of what the request is about. -/
def rowOf : Request → Building Nat
  | token r | row r => Building.rowOf r
  | typeRow t => Building.typeRefRow t

/-- The reply that gives the row. -/
def reply : Request → Nat → Except Fault Reply
  | token r, n => do
    let token ← Token.ofParts (Building.tokenTable r) n
    return ⟨n, some token⟩
  | row _, n | typeRow _, n => return ⟨n, none⟩

variable {q q' : Request} {b b' : Builder} {row : Nat} {reply : Reply} {token : Token}

/-- A row is taken for what the request is about, and the reply gives it. -/
lemma run_eq (q : Request) : q.run = q.rowOf >>= fun row => liftM (q.reply row) := by
  cases q with
  | token r =>
    rw [run, Building.request_eq, bind_assoc]
    refine congrArg (Building.rowOf r >>= ·) (funext fun row => ?_)
    rw [Request.reply]
    cases made : Token.ofParts (Building.tokenTable r) row with
    | ok token =>
      cases TokenAllocator.row_ofParts made
      rfl
    | error e => rfl
  | row r => rfl
  | typeRow t => rfl

lemma run_eq_ok : q.run b = .ok (reply, b') ↔ q.rowOf b = .ok (reply.row, b') ∧ q.reply reply.row = .ok reply := by
  have same {row : Nat} (replied : q.reply row = .ok reply) : reply.row = row := by
    cases q with
    | token r =>
      obtain ⟨token, _, replied⟩ := bind_eq_ok.1 replied
      cases replied
      rfl
    | row r | typeRow t =>
      cases replied
      rfl
  rw [run_eq, run_bind_eq_ok]
  constructor
  · rintro ⟨row, b₁, found, rest⟩
    obtain ⟨replied, rfl⟩ := run_lift_eq_ok.1 rest
    cases same replied
    exact ⟨found, replied⟩
  · rintro ⟨found, replied⟩
    exact ⟨reply.row, b', found, run_lift_eq_ok.2 ⟨replied, rfl⟩⟩

/-- A token in a reply is that of the row of a reference. -/
lemma token_of_reply (replied : q.reply row = .ok reply) (listed : token ∈ reply.token?) :
    ∃ r, q = .token r ∧ Token.ofParts (Building.tokenTable r) row = .ok token := by
  cases q with
  | token r =>
    obtain ⟨token, made, replied⟩ := bind_eq_ok.1 replied
    cases replied
    cases listed
    exact ⟨r, rfl, made⟩
  | row r | typeRow t =>
    cases replied
    cases listed

/-- What is asked for makes no difference to the row. -/
lemma rowOf_eq (same : q.mention = q'.mention) : q.rowOf = q'.rowOf := by
  cases q <;> cases q' <;> cases same <;> rfl

/-- What holds of every row that is taken holds of the row of a request. -/
lemma composes {C : (α : Type) → Building α → Prop} (holds : Building.Composes C) (q : Request) :
    C Nat q.rowOf := by
  cases q with
  | token r | row r => exact holds.rowOf r
  | typeRow t => exact holds.typeRefRow t

lemma denotes (h : q.rowOf b = .ok (row, b')) : b'.Denotes row q.mention := by
  cases q with
  | token r | row r => exact Building.denotes_rowOf h
  | typeRow t => exact Building.denotes_typeRefRow h

end Request

/-! ## Histories -/

namespace Builder

/-- Builders that come of the empty one, with the requests that were answered meanwhile, the latest first. What
else is written in between interns values too, and so does what fails before it does. -/
inductive Reached : List (Request × Reply) → Builder → Prop
  | start : Reached [] .empty
  | request {history : List (Request × Reply)} {b b' : Builder} {reply : Reply} (q : Request) :
    Reached history b →
    q.run b = .ok (reply, b') →
    Reached ((q, reply) :: history) b'
  | add {history : List (Request × Reply)} {b b' : Builder} :
    Reached history b →
    b.Adds b' →
    Reached history b'

/-- What the rows and the tokens that were given out name. -/
structure Names (b : Builder) (history : List (Request × Reply)) : Prop where
  /-- No table has two equal rows. -/
  distinct : b.Distinct
  /-- A row denotes what was asked for, and nothing else of its table. -/
  denotes : ∀ e ∈ history, ∀ m, m.table? = e.1.mention.table? → (b.Denotes e.2.row m ↔ m = e.1.mention)
  /-- Asked again, the builder gives the same answer, and stays the same. -/
  again : ∀ e ∈ history, e.1.run b = .ok (e.2, b)
  /-- What is equal has the same row, and nothing else of its table has. -/
  rows : ∀ e ∈ history, ∀ e' ∈ history, e.1.mention.table? = e'.1.mention.table? →
    (e.2.row = e'.2.row ↔ e.1.mention = e'.1.mention)
  /-- Equal references have the same token, and others do not. -/
  tokens : ∀ e ∈ history, ∀ e' ∈ history, ∀ token ∈ e.2.token?, ∀ token' ∈ e'.2.token?,
    (token = token' ↔ e.1.mention = e'.1.mention)
  /-- A token is read as the reference. -/
  resolves : ∀ tables : Tables, tables.Records b → ∀ e ∈ history, ∀ token ∈ e.2.token?,
    ∀ r, e.1.mention = .reference r → tables.resolver.Resolves token r

variable {history : List (Request × Reply)} {b b' : Builder} {q q' : Request} {reply reply' : Reply}
  {token token' : Token}

lemma Reached.distinct (h : Reached history b) : b.Distinct := by
  induction h with
  | start => exact distinct_empty
  | request q _ answered ih => exact ih.of_steps (q.composes Building.adds _ _ _ (Request.run_eq_ok.1 answered).1)
  | add _ adds ih => exact ih.of_adds adds

/-- The builder answers the request for good, with a row for what it is about. -/
structure Grants (b : Builder) (q : Request) (reply : Reply) : Prop where
  denotes : b.Denotes reply.row q.mention
  found : ∀ b', b.Grows b' → q.rowOf b' = .ok (reply.row, b')
  replied : q.reply reply.row = .ok reply

namespace Grants

lemma of_grows (h : b.Grants q reply) (grows : b.Grows b') : b'.Grants q reply :=
  ⟨h.denotes.of_grows grows, fun b'' later => h.found b'' (grows.trans later), h.replied⟩

lemma run_eq (h : b.Grants q reply) : q.run b = .ok (reply, b) :=
  Request.run_eq_ok.2 ⟨h.found b (.refl b), h.replied⟩

lemma row_eq_iff (h : b.Grants q reply) (h' : b.Grants q' reply')
    (table : q.mention.table? = q'.mention.table?) : reply.row = reply'.row ↔ q.mention = q'.mention := by
  constructor
  · intro same
    have denotes := h.denotes
    rw [same] at denotes
    exact denotes.unique h'.denotes table
  · intro same
    have found := h.found b (.refl b)
    rw [Request.rowOf_eq same, h'.found b (.refl b)] at found
    exact (congrArg Prod.fst (Except.ok.inj found)).symm

lemma token_eq_iff (h : b.Grants q reply) (h' : b.Grants q' reply') (listed : token ∈ reply.token?)
    (listed' : token' ∈ reply'.token?) : token = token' ↔ q.mention = q'.mention := by
  obtain ⟨r, rfl, made⟩ := Request.token_of_reply h.replied listed
  obtain ⟨r', rfl, made'⟩ := Request.token_of_reply h'.replied listed'
  constructor
  · rintro rfl
    have table := Building.table?_of_tokenTable
      ((Building.table_ofParts made).symm.trans (Building.table_ofParts made'))
    refine (h.row_eq_iff h' table).1 ?_
    exact (TokenAllocator.row_ofParts made).symm.trans (TokenAllocator.row_ofParts made')
  · intro same
    have row := (h.row_eq_iff h' (congrArg Mention.table? same)).2 same
    cases same
    rw [row, made'] at made
    exact (Except.ok.inj made).symm

lemma resolves {tables : Tables} (h : b.Grants q reply) (records : tables.Records b)
    (listed : token ∈ reply.token?) {r : Reference} (about : q.mention = .reference r) :
    tables.resolver.Resolves token r := by
  obtain ⟨r', rfl, made⟩ := Request.token_of_reply h.replied listed
  cases about
  obtain ⟨k, same, found⟩ := (Building.entails_rowOf (h.found b (.refl b))).holds tables records
  rw [same] at made
  exact Building.resolves_of_hasAt made found

end Grants

lemma Reached.grants (h : Reached history b) : ∀ e ∈ history, b.Grants e.1 e.2 := by
  induction h with
  | start => exact List.forall_mem_nil _
  | request q _ answered ih =>
    -- The new answer holds from here on, and the old ones still do, since the tables only grow.
    obtain ⟨found, replied⟩ := Request.run_eq_ok.1 answered
    obtain ⟨grows, later⟩ := q.composes Building.settles _ _ _ found
    exact List.forall_mem_cons.2 ⟨⟨q.denotes found, later, replied⟩,
      fun e listed => (ih e listed).of_grows grows⟩
  | add _ adds ih => exact fun e listed => (ih e listed).of_grows adds.grows

lemma Reached.names (h : Reached history b) : b.Names history where
  distinct := h.distinct
  denotes e listed m table := by
    have denotes := (h.grants e listed).denotes
    exact ⟨fun other => other.unique denotes table, fun same => same ▸ denotes⟩
  again e listed := (h.grants e listed).run_eq
  rows e listed e' listed' := (h.grants e listed).row_eq_iff (h.grants e' listed')
  tokens e listed e' listed' _ given _ given' :=
    (h.grants e listed).token_eq_iff (h.grants e' listed') given given'
  resolves _ records e listed _ given _ about := (h.grants e listed).resolves records given about

end Builder

/-- Rows that are given out name what they were given for, in every table with an index and in every builder, however
it goes on. They are rows of images as long as there are fewer than 2^32 of them in a table. -/
theorem rows_name_references {rows : List TypeRef} {interned : List (TypeRef × Nat)} {t : IndexedTable TypeRef}
    {history : List (Request × Reply)} {b : Builder} (table : IndexedTable.Reached rows interned t)
    (writer : Builder.Reached history b) : t.Names rows interned ∧ b.Names history :=
  ⟨table.names, writer.names⟩

namespace Example

/-- A type. -/
def bell : TypeRef := ⟨"app", "", "Bell"⟩

/-- A field of the type. -/
def clapper : FieldRef := ⟨bell, "clapper", .refType bell⟩

/-- A method of the type that has the name of the field. -/
def clap : MethodRef := ⟨bell, "clapper", ⟨true, .void, [.refType bell]⟩⟩

/-- What was asked for while a builder was filled, and what the answers were, the latest first. -/
def asked : List (Request × Reply) :=
  [(.token (.method clap), ⟨2, some ⟨0x0A000002⟩⟩),
    (.typeRow bell, ⟨1, none⟩),
    (.token (.string "clapper"), ⟨1, some ⟨0x70000001⟩⟩),
    (.row (.field clapper), ⟨1, none⟩)]

/-- A type has the first of two equal rows. A method has a row of its own next to a field of its name. -/
theorem clap_named : ∃ t b, IndexedTable.Reached [bell, bell] [(bell, 1)] t ∧ Builder.Reached asked b
    ∧ t.rows[0]? = some bell ∧ ¬ b.Denotes 2 (.reference (.field clapper)) := by
  have table : IndexedTable.Reached [bell, bell] [(bell, 1)] (.ofRows [bell, bell]) := by
    have found : (IndexedTable.ofRows [bell, bell]).intern bell = (0 + 1, .ofRows [bell, bell]) :=
      (IndexedTable.indexed_ofRows [bell, bell]).1.intern_of_found rfl
    have reached : IndexedTable.Reached [bell, bell] _ _ := .intern bell .start
    rw [found] at reached
    exact reached
  obtain ⟨b, writer⟩ : ∃ b, Builder.Reached asked b :=
    ⟨_, .request _ (.request _ (.request _ (.request _ .start rfl) rfl) rfl) rfl⟩
  obtain ⟨types, references⟩ := rows_name_references table writer
  have only := references.denotes _ List.mem_cons_self (.reference (.field clapper)) rfl
  exact ⟨_, b, table, writer, (types.names _ List.mem_cons_self).2, fun denotes => nomatch only.1 denotes⟩

end Example

end Image
end HookWeave
