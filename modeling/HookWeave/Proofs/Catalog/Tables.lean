import HookWeave.Catalog
import Mathlib.Data.List.Induction
import Mathlib.Tactic.Lemma
import Mathlib.Tactic.SplitIfs

/-!
# Tables of declarations

Keys that are listed in a table lead to the first of their positions (`DeclarationIndex.getElem?_insertAll`).
The tables of a module lead from the names of its declarations to their first indices, as a search does
(`DeclarationIndex.Agrees`). That is so for the tables that are built of types at once, and it stays so when
a type or a field of a new name is added.
-/

namespace HookWeave
namespace DeclarationIndex

/-! ## Keys and positions -/

section

variable {κ : Type} [BEq κ] [LawfulBEq κ] [Hashable κ]

/-- A key that is listed if it is new leads where it led before, if it led anywhere. -/
lemma getElem?_insertIfNew (table : Std.HashMap κ Nat) (new key : κ) (position : Nat) :
    (table.insertIfNew new position)[key]? = table[key]?.or (if new == key then some position else none) := by
  rw [Std.HashMap.getElem?_insertIfNew]
  cases same : new == key with
  | false =>
    rw [if_neg fun both => Bool.false_ne_true both.1]
    exact Option.or_none.symm
  | true =>
    cases eq_of_beq same
    by_cases listed : new ∈ table
    · rw [if_neg fun both => both.2 listed, Std.HashMap.getElem?_eq_some_getElem listed]
      rfl
    · rw [if_pos ⟨rfl, listed⟩, Std.HashMap.getElem?_eq_none listed]
      rfl

omit [LawfulBEq κ] in
lemma insertAll_concat (table : Std.HashMap κ Nat) (keys : List κ) (last : κ) :
    insertAll table (keys ++ [last]) = (insertAll table keys).insertIfNew last keys.length := by
  unfold insertAll
  rw [List.zipIdx_append, List.foldl_append, Nat.zero_add]
  rfl

omit [LawfulBEq κ] [Hashable κ] in
lemma idxOf?_concat (keys : List κ) (last key : κ) :
    (keys ++ [last]).idxOf? key
      = (keys.idxOf? key).or (if last == key then some keys.length else none) := by
  unfold List.idxOf?
  rw [List.findIdx?_append, List.findIdx?_singleton]
  cases last == key with
  | false => rfl
  | true =>
    show Option.or _ (some (0 + keys.length)) = _
    rw [Nat.zero_add]
    rfl

/-- What was listed stays, and new keys lead to their first positions. -/
lemma getElem?_insertAll (table : Std.HashMap κ Nat) (keys : List κ) (key : κ) :
    (insertAll table keys)[key]? = table[key]?.or (keys.idxOf? key) := by
  induction keys using List.reverseRecOn with
  | nil => exact Option.or_none.symm
  | append_singleton keys last ih =>
    rw [insertAll_concat, getElem?_insertIfNew, idxOf?_concat, ih, Option.or_assoc]

end

/-! ## Rows of names -/

/-- The table leads from the number of a row and a name to the first position of the name in that row. -/
def Lists (table : Std.HashMap (Nat × String) Nat) (rows : List (List String)) : Prop :=
  ∀ (row : Nat) (name : String), table[(row, name)]? = rows[row]?.bind (·.idxOf? name)

variable {table : Std.HashMap (Nat × String) Nat} {rows : List (List String)}

lemma idxOf?_row (row row' : Nat) (names : List String) (name : String) :
    (names.map fun n => (row, n)).idxOf? (row', name) = if row = row' then names.idxOf? name else none := by
  unfold List.idxOf?
  rw [List.findIdx?_map]
  by_cases same : row = row'
  · rw [if_pos same, same]
    refine congrArg (names.findIdx? ·) (funext fun n => ?_)
    show (row' == row' && n == name) = _
    rw [beq_self_eq_true, Bool.true_and]
  · rw [if_neg same, List.findIdx?_eq_none_iff]
    intro n _
    show (row == row' && n == name) = false
    rw [beq_eq_false_iff_ne.2 same, Bool.false_and]

/-- A row is listed behind the others. -/
lemma Lists.concat (h : Lists table rows) (names : List String) :
    Lists (insertAll table (names.map fun n => (rows.length, n))) (rows ++ [names]) := by
  intro row name
  rw [getElem?_insertAll, idxOf?_row, h]
  obtain before | rfl | behind := Nat.lt_trichotomy row rows.length
  · rw [if_neg (Nat.ne_of_gt before), Option.or_none, List.getElem?_append_left before]
  · rw [if_pos rfl, List.getElem?_eq_none (Nat.le_refl _), List.getElem?_concat_length]
    rfl
  · rw [if_neg (Nat.ne_of_lt behind), List.getElem?_eq_none (Nat.le_of_lt behind),
      List.getElem?_eq_none (by rw [List.length_append]; exact behind)]
    rfl

/-- A name that a row does not hold is listed behind the others of that row. -/
lemma Lists.insert (h : Lists table rows) {row : Nat} {names : List String} {name : String}
    (there : rows[row]? = some names) (new : name ∉ names) :
    Lists (table.insert (row, name) names.length) (rows.modify row (· ++ [name])) := by
  intro row' name'
  rw [Std.HashMap.getElem?_insert, h, List.getElem?_modify]
  by_cases same : row = row'
  · cases same
    rw [there]
    show _ = Option.bind (some (if row = row then names ++ [name] else names)) _
    rw [if_pos rfl, Option.bind_some, Option.bind_some, idxOf?_concat]
    by_cases named : name = name'
    · cases named
      rw [if_pos (beq_self_eq_true _), if_pos (beq_self_eq_true _), List.idxOf?_eq_none_iff.2 new]
      rfl
    · rw [if_neg fun both => named (congrArg Prod.snd (eq_of_beq both)),
        if_neg fun both => named (eq_of_beq both), Option.or_none]
  · rw [if_neg fun both => same (congrArg Prod.fst (eq_of_beq both))]
    cases rows[row']? with
    | none => rfl
    | some others =>
      show _ = Option.bind (some (if row = row' then others ++ [name] else others)) _
      rw [if_neg same]

end DeclarationIndex

/-! ## Modules -/

/-- What is worked out from an element that is replaced is replaced with it. -/
lemma map_modify {α β : Type} {f : α → α} {f' : β → β} {g : α → β} {l : List α} {k : Nat}
    (replaces : ∀ a, l[k]? = some a → g (f a) = f' (g a)) : (l.modify k f).map g = (l.map g).modify k f' := by
  refine List.ext_getElem? fun i => ?_
  rw [List.getElem?_map, List.getElem?_modify, List.getElem?_modify, List.getElem?_map]
  cases here : l[i]? with
  | none => rfl
  | some a =>
    show some (g (if k = i then f a else a)) = some (if k = i then f' (g a) else g a)
    split_ifs with same
    · rw [replaces a (same ▸ here)]
    · rfl

lemma map_modify_eq {α β : Type} {f : α → α} {g : α → β} {l : List α} {k : Nat}
    (keeps : ∀ a, l[k]? = some a → g (f a) = g a) : (l.modify k f).map g = l.map g := by
  rw [map_modify (show ∀ a, l[k]? = some a → g (f a) = id (g a) from keeps), List.modify_id]

/-- For every type the names of its fields. -/
def Module.fieldNames (m : Module) : List (List String) :=
  m.types.map fun t => t.fields.map (·.name)

namespace DeclarationIndex

/-- The tables lead from names to first indices in a module. -/
structure Agrees (index : DeclarationIndex) (m : Module) : Prop where
  types (name : String) : index.types[name]? = (m.types.map (·.fullName)).idxOf? name
  methods : Lists index.methods m.methodNames
  fields : Lists index.fields m.fieldNames
  rows : m.methodNames.length = m.types.length

variable {index : DeclarationIndex} {m m' : Module}

/-- The tables lead to the first indices in every module that has the same names. -/
lemma Agrees.of_names (h : index.Agrees m) (types : m'.types.map (·.fullName) = m.types.map (·.fullName))
    (methods : m'.methodNames = m.methodNames) (fields : m'.fieldNames = m.fieldNames) : index.Agrees m' where
  types name := by rw [h.types, types]
  methods := methods ▸ h.methods
  fields := fields ▸ h.fields
  rows := by
    have same := congrArg List.length types
    rw [List.length_map, List.length_map] at same
    rw [methods, h.rows, same]

/-- The tables lead to the first indices still when a type is added. -/
lemma Agrees.insertType (h : index.Agrees m) (t : TypeDeclaration) :
    (index.insertType m.types.length t).Agrees (m.addType t) where
  types name := by
    show (index.types.insertIfNew t.fullName m.types.length)[name]? = ((m.types ++ [t]).map _).idxOf? name
    rw [getElem?_insertIfNew, h.types, List.map_append, List.map_singleton, idxOf?_concat, List.length_map]
  methods := by
    have listed := h.methods.concat (t.methods.map (·.name))
    rw [h.rows, List.map_map] at listed
    exact listed
  fields := by
    have listed := h.fields.concat (t.fields.map (·.name))
    rw [Module.fieldNames, List.length_map, List.map_map] at listed
    show Lists _ ((m.types ++ [t]).map _)
    rw [List.map_append]
    exact listed
  rows := by
    show (m.methodNames ++ [_]).length = (m.types ++ [t]).length
    rw [List.length_append, List.length_append, h.rows]
    rfl

/-- The tables lead to the first indices still when a field of a new name is added. -/
lemma Agrees.insertField (h : index.Agrees m) {k : Nat} {t : TypeDeclaration} {f : FieldDeclaration}
    (there : m.types[k]? = some t) (new : f.name ∉ t.fields.map (·.name)) :
    ({ index with fields := index.fields.insert (k, f.name) t.fields.length } : DeclarationIndex).Agrees
      { m with types := m.types.modify k fun t => { t with fields := t.fields ++ [f] } } where
  types name := by
    have kept : (m.types.modify k fun t => { t with fields := t.fields ++ [f] }).map (·.fullName)
        = m.types.map (·.fullName) := by
      refine map_modify_eq fun t _ => ?_
      rfl
    rw [h.types, kept]
  methods := h.methods
  fields := by
    have row : m.fieldNames[k]? = some (t.fields.map (·.name)) := by
      rw [Module.fieldNames, List.getElem?_map, there]
      rfl
    have listed := h.fields.insert row new
    rw [List.length_map] at listed
    have longer : (m.types.modify k fun t => { t with fields := t.fields ++ [f] }).map
        (fun t => t.fields.map (·.name)) = m.fieldNames.modify k (· ++ [f.name]) :=
      map_modify fun t _ => List.map_append
    show Lists _ (List.map _ _)
    rw [longer]
    exact listed
  rows := h.rows.trans (List.length_modify ..).symm

/-- The tables that are built of types lead to the first indices. -/
lemma agrees_build (name : String) (references : List String) (types : List TypeDeclaration) :
    (build types).Agrees (.ofParts name references types) := by
  induction types using List.reverseRecOn with
  | nil =>
    exact {
      types _ := Std.HashMap.getElem?_empty
      methods _ _ := Std.HashMap.getElem?_empty
      fields _ _ := Std.HashMap.getElem?_empty
      rows := rfl }
  | append_singleton types t ih =>
    have built : build (types ++ [t]) = (build types).insertType types.length t := by
      unfold build
      rw [List.zipIdx_append, List.foldl_append, Nat.zero_add]
      rfl
    rw [built]
    exact (ih.insertType t).of_names rfl List.map_append rfl

end DeclarationIndex
end HookWeave
