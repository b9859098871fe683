/-!
# Tables

A table collects values and names each by its row, counted from 1. A value that is already there
keeps the row it has, so a table only ever grows at its end and a row means the same for good. Rows are
counted without bound; they are the 32-bit rows of an image as long as a table has fewer than 2^32 of
them.
-/

namespace HookWeave

/-- The values of a table, in the order of their rows. -/
structure Table (α : Type) where
  rows : List α
  deriving DecidableEq, Repr

namespace Table

variable {α : Type}

/-- The table without rows. -/
def empty : Table α := ⟨[]⟩

/-- The number of rows. -/
def size (t : Table α) : Nat :=
  t.rows.length

/-- The value at an index, counted from 0. -/
def get? (t : Table α) (index : Nat) : Option α :=
  t.rows[index]?

/-- The row of a value, the first if there are several, and the table that has it. A new row is a 32-bit
integer unless the table has 2^32 - 1 rows already, and is to be refused then. -/
def intern [DecidableEq α] (t : Table α) (a : α) : Nat × Table α :=
  match t.rows.idxOf? a with
  | some index => (index + 1, t)
  | none => (t.size + 1, ⟨t.rows ++ [a]⟩)

end Table

end HookWeave
