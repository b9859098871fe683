import HookWeave.Table
import Std.Data.HashMap

/-!
# Tables with an index

The rows of a table together with an index that finds the row of a value. A table that is built of
given rows keeps all of them, equal ones too; the index then knows the first of these. As in `Table`,
rows are counted without bound; they are the 32-bit rows of an image as long as the table has fewer than
2^32 of them.
-/

namespace HookWeave

/-- The values in the order of their rows, and the row of each value, counted from 1. -/
structure IndexedTable (α : Type) [BEq α] [Hashable α] where
  rows : List α
  index : Std.HashMap α Nat

namespace IndexedTable

variable {α : Type} [BEq α] [Hashable α]

/-- The table without rows. -/
def empty : IndexedTable α := ⟨[], ∅⟩

/-- The number of rows. -/
def size (t : IndexedTable α) : Nat :=
  t.rows.length

/-- The value at an index, counted from 0. -/
def get? (t : IndexedTable α) (index : Nat) : Option α :=
  t.rows[index]?

/-- Adds a row; the index keeps the row that it knows of an equal value. -/
def append (t : IndexedTable α) (a : α) : IndexedTable α :=
  ⟨t.rows ++ [a], t.index.insertIfNew a (t.size + 1)⟩

/-- The table of the given rows, of which there are fewer than 2^32: the row of one beyond would not be
a 32-bit integer. -/
def ofRows (rows : List α) : IndexedTable α :=
  rows.foldl append empty

/-- The row of a value, and the table that has it. A new row is a 32-bit integer unless the table has
2^32 - 1 rows already, and is to be refused then. -/
def intern (t : IndexedTable α) (a : α) : Nat × IndexedTable α :=
  match t.index[a]? with
  | some row => (row, t)
  | none => (t.size + 1, ⟨t.rows ++ [a], t.index.insert a (t.size + 1)⟩)

/-- The rows alone. -/
def table (t : IndexedTable α) : Table α := ⟨t.rows⟩

end IndexedTable

end HookWeave
