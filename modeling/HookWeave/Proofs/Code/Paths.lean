import HookWeave.Proofs.Code.StackDepth
import Mathlib.Order.Bounds.Basic
import Mathlib.Order.MinMax

/-!
# Paths of control

A path of control starts at the first instruction with an empty stack, or at a handler with the
depth that is given for it, and goes on from instruction to instruction. `InstructionList.Arrives`
says at which positions paths arrive, and with which depths. The greatest depth of a list is computed
if and only if the stack balances along all paths, of which there may be infinitely many
(`InstructionList.maxStack_eq_ok_iff`). A search that goes well has been wherever a path arrives
(`StackDepth.Known.holds_of_arrives`). The other way round, the search only ever follows arrivals of
paths (`StackDepth.Known.OnPaths`), and so never comes to a fault if the stack balances along them.
-/

namespace HookWeave
open StackDepth

/-- Control may go from the instruction to those that it names. -/
def Instruction.IsBranch (i : Instruction) : Prop :=
  i.flow ∈ [.conditional, .switch, .jump, .leave]

/-- The depth with which control arrives elsewhere: what the instruction leaves, or nothing if it
leaves a region. -/
def Instruction.carried (i : Instruction) (after : Nat) : Nat :=
  if i.flow = .leave then 0 else after

namespace InstructionList

/-- Control may go from an instruction at a position to another position. -/
inductive Continues (l : InstructionList) (i : Instruction) (p : Nat) : Nat → Prop
  | next : i.isTerminal = false → Continues l i p (p + 1)
  | target {id : InstrId} {q : Nat} :
    i.IsBranch →
    id ∈ i.targets →
    l.position? id = some q →
    Continues l i p q

variable (l : InstructionList) (entries : Set (InstrId × Nat)) (returnsValue : Bool)

/-- A path of control arrives at a position with a depth. -/
inductive Arrives : Nat → Nat → Prop
  | first : Arrives 0 0
  | entry {e : InstrId × Nat} {p : Nat} :
    e ∈ entries →
    l.position? e.1 = some p →
    Arrives p e.2
  | follow {p q d : Nat} {i : Instruction} {effect : StackEffect} :
    Arrives p d →
    l.items[p]? = some i →
    i.stackEffect returnsValue = .ok effect →
    effect.pops ≤ d →
    l.Continues i p q →
    Arrives q (i.carried (effect.after d))

/-- The stack has a depth before or behind an instruction that a path arrives at. -/
inductive Occurs : Nat → Prop
  | before {p d : Nat} {i : Instruction} :
    Arrives l entries returnsValue p d →
    l.items[p]? = some i →
    Occurs d
  | behind {p d : Nat} {i : Instruction} {effect : StackEffect} :
    Arrives l entries returnsValue p d →
    l.items[p]? = some i →
    i.stackEffect returnsValue = .ok effect →
    Occurs (effect.after d)

/-- The stack balances along all paths of control. -/
structure PathsBalance : Prop where
  /-- All handlers are listed. -/
  handlers : ∀ e ∈ entries, l.contains e.1 = true
  /-- No path runs past the last instruction. -/
  inside {p d : Nat} : Arrives l entries returnsValue p d → p < l.size
  /-- All targets of branches that are reached are listed. -/
  targets {p d : Nat} {i : Instruction} : Arrives l entries returnsValue p d →
    l.items[p]? = some i → i.IsBranch → ∀ id ∈ i.targets, l.contains id = true
  /-- All calls that are reached name a method. -/
  methods {p d : Nat} {i : Instruction} : Arrives l entries returnsValue p d →
    l.items[p]? = some i → i.op ∈ [.call, .callvirt, .newobj] → i.method?.isSome = true
  /-- No instruction takes more than there is. -/
  enough {p d : Nat} {i : Instruction} {effect : StackEffect} :
    Arrives l entries returnsValue p d → l.items[p]? = some i →
    i.stackEffect returnsValue = .ok effect → effect.pops ≤ d
  /-- All paths to an instruction arrive with one depth. -/
  agree {p d d' : Nat} : Arrives l entries returnsValue p d → Arrives l entries returnsValue p d' →
    d = d'

end InstructionList

variable {l : InstructionList} {entries : Set (InstrId × Nat)} {returnsValue : Bool}
  {i : Instruction} {p d m after : Nat} {ids : List InstrId}
  {handlers : List (InstrId × Nat)} {next : List Arrival} {b : Arrival}

/-- An instruction has a stack effect unless it is a call that names no method. -/
lemma Instruction.stackEffect_eq_ok
    (h : i.op ∈ [.call, .callvirt, .newobj] → i.method?.isSome = true) :
    ∃ effect, i.stackEffect returnsValue = .ok effect := by
  unfold stackEffect
  split
  case h_1 | h_2 | h_3 =>
    next op =>
    obtain ⟨method, named⟩ := Option.isSome_iff_exists.1 (h (by rw [op]; decide))
    rw [named]
    exact ⟨_, rfl⟩
  · exact ⟨_, rfl⟩
  · exact ⟨_, rfl⟩

/-- A call has a stack effect only if it names a method. -/
lemma Instruction.isSome_method? {effect : StackEffect}
    (h : i.stackEffect returnsValue = .ok effect) (call : i.op ∈ [.call, .callvirt, .newobj]) :
    i.method?.isSome = true := by
  unfold stackEffect at h
  cases named : i.method? with
  | some method => rfl
  | none =>
    rw [named] at h
    simp only [List.mem_cons, List.not_mem_nil, or_false] at call
    obtain op | op | op := call
    all_goals
      rw [op] at h
      cases h

namespace StackDepth

/-! ## Where control goes -/

/-- The search goes on to where control goes. -/
lemma mem_successors_iff (h : successors l.index i p after = .ok next) :
    b ∈ next ↔ l.Continues i p b.position ∧ b.depth = i.carried after := by
  have continues : l.Continues i p b.position ↔ (i.isTerminal = false ∧ b.position = p + 1)
      ∨ (i.IsBranch ∧ ∃ id ∈ i.targets, l.position? id = some b.position) := by
    constructor
    · generalize b.position = q
      intro h
      cases h with
      | next goes => exact .inl ⟨goes, rfl⟩
      | target branch mem position => exact .inr ⟨branch, _, mem, position⟩
    · rintro (⟨goes, at'⟩ | ⟨branch, id, mem, position⟩)
      · rw [at']
        exact .next goes
      · exact .target branch mem position
  have behind : b = ⟨p + 1, after⟩ ↔ b.position = p + 1 ∧ b.depth = after := by
    cases b
    rw [Arrival.mk.injEq]
  rw [continues]
  unfold Instruction.isTerminal Instruction.IsBranch Instruction.carried
  unfold successors at h
  cases flow : i.flow with
  | next | call =>
    rw [flow] at h
    cases h
    simp [behind, Flow.isTerminal]
  | conditional | switch =>
    rw [flow] at h
    obtain ⟨targets, found, same⟩ := bind_eq_ok.1 h
    cases same
    rw [List.mem_append, mem_atTargets_iff found, List.mem_singleton, behind, or_comm,
      and_comm (a := b.depth = _), ← or_and_right]
    simp [Flow.isTerminal]
  | jump | leave =>
    rw [flow] at h
    rw [mem_atTargets_iff h]
    simp [Flow.isTerminal, and_comm]
  | ret | throw | endFinally =>
    rw [flow] at h
    cases h
    simp [Flow.isTerminal]

/-- Control goes on if and only if all targets of a branch are listed. -/
lemma successors_eq_ok : (∃ next, successors l.index i p after = .ok next)
    ↔ (i.IsBranch → ∀ id ∈ i.targets, l.contains id = true) := by
  unfold Instruction.IsBranch successors
  cases flow : i.flow with
  | next | call | ret | throw | endFinally => simp
  | conditional | switch =>
    rw [← atTargets_eq_ok (d := after)]
    simp [map_eq_ok]
  | jump =>
    rw [← atTargets_eq_ok (d := after)]
    simp
  | leave =>
    rw [← atTargets_eq_ok (d := 0)]
    simp

/-! ## The search follows paths -/

/-- What the search knows, and what it has yet to follow, are arrivals of paths, and the greatest
depth that it has seen occurs on them. -/
structure Known.OnPaths (l : InstructionList) (entries : Set (InstrId × Nat)) (returnsValue : Bool)
    (known : Known) (worklist : List Arrival) : Prop where
  sized : known.depths.size = l.size
  holds : ∀ a, known.Holds a → l.Arrives entries returnsValue a.position a.depth
  waits : ∀ a ∈ worklist, l.Arrives entries returnsValue a.position a.depth
  greatest : l.Occurs entries returnsValue known.greatest

namespace Known.OnPaths

variable {known known' : Known} {worklist : List Arrival} {a : Arrival}

/-- An arrival whose depth is known need not be followed. -/
lemma skip (paths : known.OnPaths l entries returnsValue (a :: worklist)) :
    known.OnPaths l entries returnsValue worklist where
  sized := paths.sized
  holds := paths.holds
  waits b hb := paths.waits b (List.mem_cons_of_mem _ hb)
  greatest := paths.greatest

/-- An arrival at a position without a depth is followed to where paths go. -/
lemma learn (paths : known.OnPaths l entries returnsValue (a :: worklist))
    (here : l.items[a.position]? = some i) (bound : a.position < known.depths.size)
    (unknown : known.depths[a.position] = none) (stepped : step returnsValue i a.depth = .ok after)
    (listed : successors l.index i a.position after = .ok next) :
    Known.OnPaths l entries returnsValue
      ⟨known.depths.set a.position (some a.depth), max (max known.greatest a.depth) after⟩
      (next.reverse ++ worklist) := by
  have arrived := paths.waits a (List.mem_cons_self ..)
  obtain ⟨effect, takes, enough, rfl⟩ := step_eq_ok.1 stepped
  refine ⟨(Array.size_set bound).trans paths.sized, fun b hb => ?_, fun b hb => ?_, ?_⟩
  · cases (holds_set bound unknown).1 hb with
    | inl same => exact same ▸ arrived
    | inr holds => exact paths.holds b holds
  · cases List.mem_append.1 hb with
    | inl found =>
      obtain ⟨goes, depth⟩ := (mem_successors_iff listed).1 (List.mem_reverse.1 found)
      rw [depth]
      exact .follow arrived here takes enough goes
    | inr waits => exact paths.waits b (List.mem_cons_of_mem _ waits)
  · show l.Occurs entries returnsValue (max (max _ _) _)
    rcases max_choice (max known.greatest a.depth) (effect.after a.depth) with eq | eq
    · rw [eq]
      rcases max_choice known.greatest a.depth with eq | eq
      · rw [eq]
        exact paths.greatest
      · rw [eq]
        exact .before arrived here
    · rw [eq]
      exact .behind arrived here takes

/-- A search knows arrivals of paths only. -/
lemma explored (paths : known.OnPaths l entries returnsValue worklist)
    (h : explore returnsValue l.index l.items.toArray known worklist = .ok known') :
    known'.OnPaths l entries returnsValue [] := by
  fun_induction explore with
  | case1 known =>
    cases h
    exact paths
  | case2 known a worklist _ _ _ ih => exact ih paths.skip h
  | case6 known a worklist inside i bound unknown after stepped next listed ih =>
    exact ih (paths.learn (List.getElem?_eq_getElem inside) bound unknown stepped listed) h
  | case3 | case4 | case5 | case7 | case8 => cases h

/-- A search goes well if the stack balances along all paths. -/
lemma explore_eq_ok (paths : known.OnPaths l entries returnsValue worklist)
    (balance : l.PathsBalance entries returnsValue) :
    ∃ known', explore returnsValue l.index l.items.toArray known worklist = .ok known' := by
  fun_induction explore with
  | case1 known => exact ⟨known, rfl⟩
  | case2 known a worklist _ _ _ ih => exact ih paths.skip
  | case3 known a worklist inside i bound depth recorded differs =>
    have arrived := paths.waits a (List.mem_cons_self ..)
    have holds := paths.holds ⟨a.position, depth⟩ (Array.getElem?_eq_some_iff.2 ⟨bound, recorded⟩)
    exact absurd (balance.agree holds arrived) differs
  | case4 known a worklist inside i bound unknown fault failed =>
    have arrived := paths.waits a (List.mem_cons_self ..)
    have here : l.items[a.position]? = some i := List.getElem?_eq_getElem inside
    obtain ⟨effect, takes⟩ := Instruction.stackEffect_eq_ok (balance.methods arrived here)
    have stepped := step_eq_ok.2 ⟨effect, takes, balance.enough arrived here takes, rfl⟩
    cases stepped.symm.trans failed
  | case5 known a worklist inside i bound unknown after stepped fault failed =>
    have arrived := paths.waits a (List.mem_cons_self ..)
    have here : l.items[a.position]? = some i := List.getElem?_eq_getElem inside
    obtain ⟨next, listed⟩ := successors_eq_ok.2 (balance.targets arrived here)
    cases listed.symm.trans failed
  | case6 known a worklist inside i bound unknown after stepped next listed ih =>
    exact ih (paths.learn (List.getElem?_eq_getElem inside) bound unknown stepped listed)
  | case7 known a worklist inside outside =>
    exact absurd (paths.sized.symm ▸ inside) outside
  | case8 known a worklist outside =>
    exact absurd (balance.inside (paths.waits a (List.mem_cons_self ..))) outside

end Known.OnPaths

/-! ## The greatest depth -/

section

variable {known known' : Known} {worklist : List Arrival} {a : Arrival}

/-- A search that starts with all arrivals from outside knows all arrivals of paths. -/
lemma Known.holds_of_arrives (followed : known.Followed returnsValue l.index l.items.toArray [])
    (first : known.Holds ⟨0, 0⟩)
    (entered : ∀ e ∈ entries, ∀ p, l.position? e.1 = some p → known.Holds ⟨p, e.2⟩)
    (h : l.Arrives entries returnsValue p d) : known.Holds ⟨p, d⟩ := by
  induction h with
  | first => exact first
  | entry mem position => exact entered _ mem _ position
  | @follow p q d i effect arrived here takes enough goes ih =>
    obtain ⟨j, after, next, found, stepped, listed, _, _, arrivals⟩ := followed _ ih
    cases here.symm.trans (List.getElem?_toArray ▸ found)
    cases stepped.symm.trans (step_eq_ok.2 ⟨effect, takes, enough, rfl⟩)
    have mem : ⟨q, i.carried (effect.after d)⟩ ∈ next :=
      (mem_successors_iff listed).2 ⟨goes, rfl⟩
    cases arrivals _ mem with
    | inl holds => exact holds
    | inr waits => cases waits

/-- The stack balances along all paths if the search knows all of their arrivals. -/
lemma Known.pathsBalance (followed : known.Followed returnsValue l.index l.items.toArray [])
    (all : ∀ {p d}, l.Arrives entries returnsValue p d → known.Holds ⟨p, d⟩)
    (listed : ∀ e ∈ entries, l.contains e.1 = true) : l.PathsBalance entries returnsValue where
  handlers := listed
  inside arrived := by
    obtain ⟨_, _, _, found, _⟩ := followed _ (all arrived)
    exact (List.getElem?_eq_some_iff.1 (List.getElem?_toArray ▸ found)).1
  targets arrived here branch := by
    obtain ⟨_, _, next, found, _, listed, _⟩ := followed _ (all arrived)
    cases here.symm.trans (List.getElem?_toArray ▸ found)
    exact successors_eq_ok.1 ⟨next, listed⟩ branch
  methods arrived here call := by
    obtain ⟨_, _, _, found, stepped, _⟩ := followed _ (all arrived)
    cases here.symm.trans (List.getElem?_toArray ▸ found)
    obtain ⟨_, takes, _⟩ := step_eq_ok.1 stepped
    exact Instruction.isSome_method? takes call
  enough arrived here takes := by
    obtain ⟨_, _, _, found, stepped, _⟩ := followed _ (all arrived)
    cases here.symm.trans (List.getElem?_toArray ▸ found)
    obtain ⟨_, takes', enough, _⟩ := step_eq_ok.1 stepped
    cases takes.symm.trans takes'
    exact enough
  agree arrived arrived' := by
    have known := all arrived
    have known' := all arrived'
    cases known.symm.trans known'
    rfl

/-- No depth on a path exceeds the greatest that the search has seen. -/
lemma Known.le_greatest (followed : known.Followed returnsValue l.index l.items.toArray [])
    (all : ∀ {p d}, l.Arrives entries returnsValue p d → known.Holds ⟨p, d⟩)
    (h : l.Occurs entries returnsValue d) : d ≤ known.greatest := by
  cases h with
  | before arrived here =>
    obtain ⟨_, _, _, _, _, _, low, _⟩ := followed _ (all arrived)
    exact low
  | behind arrived here takes =>
    obtain ⟨_, _, _, found, stepped, _, _, high, _⟩ := followed _ (all arrived)
    cases here.symm.trans (List.getElem?_toArray ▸ found)
    obtain ⟨_, takes', _, rfl⟩ := step_eq_ok.1 stepped
    cases takes.symm.trans takes'
    exact high

end
end StackDepth

namespace InstructionList

variable {handlers handlers' : List (InstrId × Nat)}

/-- Nothing is known at first but that paths start at the first instruction and at handlers. -/
lemma onPaths_first {arrivals : List Arrival} (inhabited : l.isEmpty = false)
    (found : atHandlers l.index handlers = .ok arrivals) :
    Known.OnPaths l {e | e ∈ handlers} returnsValue ⟨Array.replicate l.size none, 0⟩
      (arrivals.reverse ++ [⟨0, 0⟩]) where
  sized := Array.size_replicate
  holds a holds := by
    unfold Known.Holds at holds
    rw [Array.getElem?_replicate] at holds
    split at holds <;> cases holds
  waits a ha := by
    cases List.mem_append.1 ha with
    | inl mem =>
      obtain ⟨e, he, position, depth⟩ := (mem_atHandlers_iff found).1 (List.mem_reverse.1 mem)
      rw [← depth]
      exact .entry he position
    | inr mem =>
      cases List.mem_singleton.1 mem
      exact .first
  greatest := by
    cases items : l.items with
    | nil =>
      rw [isEmpty, items] at inhabited
      cases inhabited
    | cons i is =>
      have here : l.items[0]? = some i := by
        rw [items]
        rfl
      exact .before .first here

/-- A search finds that the stack balances along all paths, and the greatest depth on them. -/
lemma pathsBalance_of_search {known : Known} (inhabited : l.isEmpty = false)
    (h : l.search handlers returnsValue = .ok known) :
    l.PathsBalance {e | e ∈ handlers} returnsValue
      ∧ IsGreatest {d | l.Occurs {e | e ∈ handlers} returnsValue d} known.greatest := by
  obtain ⟨arrivals, found, explored⟩ := bind_eq_ok.1 h
  obtain ⟨followed, _, reached⟩ := followed_explore explored followed_first
  have all {p d : Nat} (h : l.Arrives {e | e ∈ handlers} returnsValue p d) : known.Holds ⟨p, d⟩ := by
    refine Known.holds_of_arrives followed ?_ (fun e he p position => ?_) h
    · exact reached _ (List.mem_append_right _ (List.mem_singleton_self _))
    · have mem := (mem_atHandlers_iff (b := ⟨p, e.2⟩) found).2 ⟨e, he, position, rfl⟩
      exact reached _ (List.mem_append_left _ (List.mem_reverse.2 mem))
  refine ⟨Known.pathsBalance followed all (atHandlers_eq_ok.1 ⟨arrivals, found⟩), ?_, fun d hd => ?_⟩
  · exact ((onPaths_first inhabited found).explored explored).greatest
  · exact Known.le_greatest followed all hd

/-- A search goes well if the stack balances along all paths. -/
lemma search_eq_ok (inhabited : l.isEmpty = false)
    (balance : l.PathsBalance {e | e ∈ handlers} returnsValue) :
    ∃ known, l.search handlers returnsValue = .ok known := by
  obtain ⟨arrivals, found⟩ := atHandlers_eq_ok.2 balance.handlers
  obtain ⟨known, explored⟩ := (onPaths_first inhabited found).explore_eq_ok balance
  exact ⟨known, bind_eq_ok.2 ⟨arrivals, found, explored⟩⟩

lemma maxStack_eq_ok_balance (inhabited : l.isEmpty = false) :
    l.maxStack handlers returnsValue = .ok m ↔ l.PathsBalance {e | e ∈ handlers} returnsValue
      ∧ IsGreatest {d | l.Occurs {e | e ∈ handlers} returnsValue d} m ∧ m ≤ 65535 := by
  rw [maxStack_eq_ok inhabited]
  constructor
  · rintro ⟨known, searched, rfl, fits⟩
    obtain ⟨balance, greatest⟩ := pathsBalance_of_search inhabited searched
    exact ⟨balance, greatest, fits⟩
  · rintro ⟨balance, greatest, fits⟩
    obtain ⟨known, searched⟩ := search_eq_ok inhabited balance
    obtain ⟨_, greatest'⟩ := pathsBalance_of_search inhabited searched
    exact ⟨known, searched, greatest'.unique greatest, fits⟩

/-- The greatest depth is computed if and only if the stack balances along all paths of control and
never grows beyond what fits. It is the greatest depth before or behind an instruction that is
reached. The order in which the handlers are listed, or how often, does not matter. -/
theorem maxStack_eq_ok_iff (inhabited : l.isEmpty = false) :
    (l.maxStack handlers returnsValue = .ok m ↔ l.PathsBalance {e | e ∈ handlers} returnsValue
      ∧ IsGreatest {d | l.Occurs {e | e ∈ handlers} returnsValue d} m ∧ m ≤ 65535)
    ∧ ∀ handlers', (∀ e, e ∈ handlers' ↔ e ∈ handlers) →
      (l.maxStack handlers' returnsValue = .ok m ↔ l.maxStack handlers returnsValue = .ok m) := by
  refine ⟨maxStack_eq_ok_balance inhabited, fun handlers' same => ?_⟩
  have same : {e | e ∈ handlers'} = {e | e ∈ handlers} := Set.ext same
  rw [maxStack_eq_ok_balance inhabited, maxStack_eq_ok_balance inhabited, same]

end InstructionList

namespace Example

/-- A loop that goes on as long as a text is not null. -/
def waiting : InstructionList :=
  .ofCode [(.ldstr, .string "ready"), (.brtrueShort, .target ⟨0⟩), (.ret, .none)]

lemma waiting_search : waiting.search [] false = .ok ⟨#[some 0, some 1, some 0], 1⟩ := by
  have back : waiting.position? ⟨0⟩ = some 0 := by decide
  have targets : atTargets waiting.index 0 [⟨0⟩] = .ok [⟨0, 0⟩] :=
    mapM_eq_ok.2 (.cons (bind_eq_ok.2 ⟨0, InstructionList.index_position.2 back, rfl⟩) .nil)
  have branches : successors waiting.index (.ofCode ⟨1⟩ (.brtrueShort, .target ⟨0⟩)) 1 0
      = .ok [⟨0, 0⟩, ⟨2, 0⟩] := bind_eq_ok.2 ⟨_, targets, rfl⟩
  refine bind_eq_ok.2 ⟨[], rfl, ?_⟩
  refine (explore_unknown (by decide) (by decide) rfl rfl rfl).trans ?_
  refine Eq.trans (explore_unknown (by decide) (by decide) rfl rfl branches) ?_
  refine (explore_unknown (by decide) (by decide) rfl rfl rfl).trans ?_
  have holds : Known.Holds ⟨#[some 0, some 1, some 0], 1⟩ ⟨0, 0⟩ := rfl
  exact Eq.trans (explore_known (by decide) holds) explore_nil

/-- The stack of the loop balances, however often control goes round, and holds one text at most. -/
theorem waiting_balances : waiting.isEmpty = false ∧ waiting.maxStack [] false = .ok 1
    ∧ waiting.PathsBalance {e | e ∈ []} false
    ∧ IsGreatest {d | waiting.Occurs {e | e ∈ []} false d} 1 := by
  have inhabited : waiting.isEmpty = false := by decide
  have computed : waiting.maxStack [] false = .ok 1 :=
    (InstructionList.maxStack_eq_ok inhabited).2 ⟨_, waiting_search, rfl, by decide⟩
  obtain ⟨balance, greatest, _⟩ := (InstructionList.maxStack_eq_ok_iff inhabited).1.1 computed
  exact ⟨inhabited, computed, balance, greatest⟩

end Example
end HookWeave
