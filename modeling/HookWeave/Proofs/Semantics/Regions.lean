import HookWeave.Proofs.Outcomes
import HookWeave.Proofs.Semantics.Embedding

/-!
# Regions in edited bodies

How an instruction lies with respect to a clause is a matter of positions, which are known if the
boundaries of the clause are listed (`ExceptionClause.listed_iff`). It stays the same in another body in
which the boundaries of the clause have moved, but lie on the same sides of the instruction
(`coverage?_moved`), and stays unknown if what the clauses name was handed out
(`MethodBody.coverage?_eq`).
-/

namespace HookWeave

variable {l l' : InstructionList} {c : ExceptionClause} {coverage : Coverage} {position : Nat}

/-- The clause with every identity replaced. -/
def ExceptionClause.relabel (f : InstrId → InstrId) (c : ExceptionClause) : ExceptionClause :=
  { c with
    tryStart := f c.tryStart
    tryEnd := c.tryEnd.map f
    handlerStart := f c.handlerStart
    handlerEnd := c.handlerEnd.map f }

lemma ExceptionClause.coverage?_eq_some :
    c.coverage? l position = some coverage ↔ ∃ tryStart tryEnd handlerStart handlerEnd,
      l.position? c.tryStart = some tryStart ∧ l.boundary? c.tryEnd = some tryEnd
        ∧ l.position? c.handlerStart = some handlerStart
        ∧ l.boundary? c.handlerEnd = some handlerEnd
        ∧ (⟨c.flags, c.catchType, tryStart ≤ position ∧ position < tryEnd,
          handlerStart ≤ position ∧ position < handlerEnd⟩ : Coverage) = coverage := by
  simp only [coverage?, Option.bind_eq_bind, Option.bind_eq_some_iff, Option.pure_def,
    Option.some.injEq]
  constructor
  · rintro ⟨ts, h₁, te, h₂, hs, h₃, he, h₄, h₅⟩
    exact ⟨ts, te, hs, he, h₁, h₂, h₃, h₄, h₅⟩
  · rintro ⟨ts, te, hs, he, h₁, h₂, h₃, h₄, h₅⟩
    exact ⟨ts, h₁, te, h₂, hs, h₃, he, h₄, h₅⟩

lemma MethodBody.coverage?_eq_some {b : MethodBody} {id : InstrId} {all : List Coverage} :
    b.coverage? id = some all ↔ ∃ k, b.instructions.position? id = some k
      ∧ List.Forall₂ (fun c coverage => c.coverage? b.instructions k = some coverage)
        b.clauses all := by
  rw [coverage?, Option.bind_eq_bind, Option.bind_eq_some_iff]
  simp only [mapM_eq_some]

/-! ## Boundaries that are listed -/

open InstructionList

/-- The boundaries of the clause are instructions of the list. A region may also run to its end. -/
structure ExceptionClause.Listed (l : InstructionList) (c : ExceptionClause) : Prop where
  tryStart : l.contains c.tryStart = true
  tryEnd : ∀ id, c.tryEnd = some id → l.contains id = true
  handlerStart : l.contains c.handlerStart = true
  handlerEnd : ∀ id, c.handlerEnd = some id → l.contains id = true

lemma InstructionList.contains_iff_boundary? {stop : Option InstrId} :
    (∀ id, stop = some id → l.contains id = true) ↔ ∃ k, l.boundary? stop = some k := by
  cases stop with
  | none => exact ⟨fun _ => ⟨_, rfl⟩, fun _ id same => by cases same⟩
  | some id =>
    refine Iff.trans ⟨fun listed => listed id rfl, ?_⟩ contains_iff_position?
    rintro listed _ ⟨rfl⟩
    exact listed

/-- It is known of a clause how every position lies with respect to it if its boundaries are listed. -/
lemma ExceptionClause.listed_iff {k : Nat} :
    c.Listed l ↔ ∃ coverage, c.coverage? l k = some coverage := by
  simp only [coverage?_eq_some]
  constructor
  · intro listed
    obtain ⟨ts, tryStart⟩ := contains_iff_position?.1 listed.tryStart
    obtain ⟨te, tryEnd⟩ := contains_iff_boundary?.1 listed.tryEnd
    obtain ⟨hs, handlerStart⟩ := contains_iff_position?.1 listed.handlerStart
    obtain ⟨he, handlerEnd⟩ := contains_iff_boundary?.1 listed.handlerEnd
    exact ⟨_, ts, te, hs, he, tryStart, tryEnd, handlerStart, handlerEnd, rfl⟩
  · rintro ⟨_, ts, te, hs, he, tryStart, tryEnd, handlerStart, handlerEnd, _⟩
    exact ⟨contains_iff_position?.2 ⟨ts, tryStart⟩, contains_iff_boundary?.2 ⟨te, tryEnd⟩,
      contains_iff_position?.2 ⟨hs, handlerStart⟩, contains_iff_boundary?.2 ⟨he, handlerEnd⟩⟩

lemma MethodBody.exists_coverage? {b : MethodBody} {id : InstrId}
    (clauses : ∀ c ∈ b.clauses, c.Listed b.instructions)
    (listed : b.instructions.contains id = true) : ∃ all, b.coverage? id = some all := by
  obtain ⟨k, position⟩ := contains_iff_position?.1 listed
  have each : ∀ c ∈ b.clauses, ∃ coverage, c.coverage? b.instructions k = some coverage :=
    fun c hc => ExceptionClause.listed_iff.1 (clauses c hc)
  obtain ⟨all, covered⟩ := exists_forall₂ each
  exact ⟨all, coverage?_eq_some.2 ⟨k, position, covered⟩⟩

lemma MethodBody.of_coverage? {b : MethodBody} {id : InstrId} {all : List Coverage}
    (h : b.coverage? id = some all) :
    b.instructions.contains id = true ∧ ∀ c ∈ b.clauses, c.Listed b.instructions := by
  obtain ⟨k, position, covered⟩ := coverage?_eq_some.1 h
  refine ⟨contains_iff_position?.2 ⟨k, position⟩, fun c hc => ?_⟩
  obtain ⟨n, hn⟩ := List.mem_iff_getElem?.1 hc
  obtain ⟨coverage, _, lies⟩ := forall₂_getElem? covered hn
  exact ExceptionClause.listed_iff.2 ⟨coverage, lies⟩

/-! ## Boundaries that move -/

/-- The one start is at or before a position in its list if the other is at or before one in its own. -/
def InstructionList.StartsAlike (l l' : InstructionList) (here there : Nat) (id id' : InstrId) : Prop :=
  ∀ k, l.position? id = some k → ∃ k', l'.position? id' = some k' ∧ (k ≤ here ↔ k' ≤ there)

/-- The one end is behind a position in its list if the other is behind one in its own. -/
def InstructionList.StopsAlike (l l' : InstructionList) (here there : Nat) (id id' : Option InstrId) :
    Prop :=
  ∀ k, l.boundary? id = some k → ∃ k', l'.boundary? id' = some k' ∧ (here < k ↔ there < k')

/-- An instruction lies with respect to a clause as another does with respect to one of its kind whose
boundaries lie alike. -/
lemma ExceptionClause.coverage?_alike {c' : ExceptionClause} {here there : Nat}
    (flags : c'.flags = c.flags) (catchType : c'.catchType = c.catchType)
    (tryStart : l.StartsAlike l' here there c.tryStart c'.tryStart)
    (tryEnd : l.StopsAlike l' here there c.tryEnd c'.tryEnd)
    (handlerStart : l.StartsAlike l' here there c.handlerStart c'.handlerStart)
    (handlerEnd : l.StopsAlike l' here there c.handlerEnd c'.handlerEnd)
    (h : c.coverage? l here = some coverage) : c'.coverage? l' there = some coverage := by
  obtain ⟨ts, te, hs, he, h₁, h₂, h₃, h₄, rfl⟩ := coverage?_eq_some.1 h
  obtain ⟨ts', h₁', same₁⟩ := tryStart ts h₁
  obtain ⟨te', h₂', same₂⟩ := tryEnd te h₂
  obtain ⟨hs', h₃', same₃⟩ := handlerStart hs h₃
  obtain ⟨he', h₄', same₄⟩ := handlerEnd he h₄
  refine coverage?_eq_some.2 ⟨ts', te', hs', he', h₁', h₂', h₃', h₄', ?_⟩
  rw [flags, catchType]
  simp only [same₁, same₂, same₃, same₄]

/-- An instruction of a body lies as another does in a body with as many clauses, if it does with respect
to each of them. -/
lemma MethodBody.coverage?_mapped {b b' : MethodBody} {f : ExceptionClause → ExceptionClause}
    {id id' : InstrId} {here there : Nat} {all : List Coverage} (h : b.coverage? id = some all)
    (was : b.instructions.position? id = some here)
    (is' : b'.instructions.position? id' = some there)
    (clauses : b'.clauses = b.clauses.map f)
    (each : ∀ c ∈ b.clauses, ∀ coverage, c.coverage? b.instructions here = some coverage →
      (f c).coverage? b'.instructions there = some coverage) : b'.coverage? id' = some all := by
  obtain ⟨k, position, covered⟩ := coverage?_eq_some.1 h
  cases was.symm.trans position
  refine coverage?_eq_some.2 ⟨there, is', ?_⟩
  rw [clauses, List.forall₂_map_left_iff]
  exact ((List.forall₂_and_left b.clauses all).2 ⟨each, covered⟩).imp fun _ _ h => h.1 _ h.2

/-- Positions and boundaries of a list move to another, and stay on the same sides of an instruction
that moves from `from'` to `to`. -/
structure InstructionList.Moves (l l' : InstructionList) (f : InstrId → InstrId) (here there : Nat) :
    Prop where
  start : ∀ {id k}, l.position? id = some k →
    ∃ k', l'.position? (f id) = some k' ∧ (k ≤ here ↔ k' ≤ there)
  stop : ∀ {id k}, l.boundary? id = some k →
    ∃ k', l'.boundary? (id.map f) = some k' ∧ (here < k ↔ there < k')

/-- An instruction lies with respect to a clause as it did before the boundaries moved. -/
lemma ExceptionClause.coverage?_moved {f : InstrId → InstrId} {here there : Nat}
    (moves : l.Moves l' f here there) (h : c.coverage? l here = some coverage) :
    (c.relabel f).coverage? l' there = some coverage :=
  coverage?_alike (c := c) rfl rfl (fun _ => moves.start) (fun _ => moves.stop) (fun _ => moves.start)
    (fun _ => moves.stop) h

/-- An instruction of a body lies as it did before the boundaries moved. -/
lemma MethodBody.coverage?_moved {b b' : MethodBody} {f : InstrId → InstrId} {id id' : InstrId}
    {here there : Nat} {all : List Coverage} (h : b.coverage? id = some all)
    (was : b.instructions.position? id = some here)
    (is' : b'.instructions.position? id' = some there)
    (moves : b.instructions.Moves b'.instructions f here there)
    (clauses : b'.clauses = b.clauses.map (·.relabel f)) : b'.coverage? id' = some all :=
  coverage?_mapped h was is' clauses fun _ _ _ => ExceptionClause.coverage?_moved moves

/-! ## Boundaries that were handed out -/

/-- Clauses whose boundaries are listed under new identities have them listed under the old ones, if these
were handed out and are listed alike. -/
lemma MethodBody.listed_of_relabel {b b' : MethodBody} {f : InstrId → InstrId}
    (clauses : b'.clauses = b.clauses.map (·.relabel f)) (named : b.HandedOut)
    (alike : ∀ {id : InstrId}, id.val < b.instructions.nextId →
      b'.instructions.contains (f id) = b.instructions.contains id)
    (listed : ∀ c ∈ b'.clauses, c.Listed b'.instructions) :
    ∀ c ∈ b.clauses, c.Listed b.instructions := by
  intro c hc
  obtain ⟨tryStart, tryEnd, handlerStart, handlerEnd⟩ := named.clauses c hc
  have moved : (c.relabel f).Listed b'.instructions := by
    refine listed _ ?_
    rw [clauses]
    exact List.mem_map_of_mem hc
  have stop {end? : Option InstrId} (old : ∀ id ∈ end?, id.val < b.instructions.nextId)
      (found : ∀ id, end?.map f = some id → b'.instructions.contains id = true) (id : InstrId)
      (is : end? = some id) : b.instructions.contains id = true := by
    rw [← alike (old id is)]
    exact found (f id) (congrArg (Option.map f) is)
  exact ⟨(alike tryStart).symm.trans moved.tryStart, stop tryEnd moved.tryEnd,
    (alike handlerStart).symm.trans moved.handlerStart, stop handlerEnd moved.handlerEnd⟩

/-- An instruction lies in a body as another does in one with the same clauses under new identities, if it
does whenever it is known how it lies, and what was handed out is listed alike. -/
lemma MethodBody.coverage?_eq {b b' : MethodBody} {f : InstrId → InstrId} {id id' : InstrId}
    (clauses : b'.clauses = b.clauses.map (·.relabel f)) (named : b.HandedOut)
    (alike : ∀ {id : InstrId}, id.val < b.instructions.nextId →
      b'.instructions.contains (f id) = b.instructions.contains id)
    (here : b'.instructions.contains id' = b.instructions.contains id)
    (moved : ∀ all, b.coverage? id = some all → b'.coverage? id' = some all) :
    b'.coverage? id' = b.coverage? id := by
  cases covered : b.coverage? id with
  | some all => exact moved all covered
  | none =>
    refine Option.eq_none_iff_forall_ne_some.2 fun all covered' => ?_
    obtain ⟨contained, listed⟩ := of_coverage? covered'
    obtain ⟨_, known⟩ :=
      exists_coverage? (listed_of_relabel clauses named alike listed) (here.symm.trans contained)
    cases covered.symm.trans known

end HookWeave
