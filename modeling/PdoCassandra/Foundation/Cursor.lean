import Mathlib.Logic.Function.Basic

/-!
# A cursor over a sequence

The cursor only moves forward, one row at a time, and goes on counting behind the
last row.
-/

namespace PdoCassandra.Foundation

structure Cursor (Row : Type) where
  rows : List Row
  /-- How often a row has been asked for. -/
  fetched : Nat

namespace Cursor

variable {Row : Type}

/-- A cursor in front of the first row. -/
def start (rows : List Row) : Cursor Row := ⟨rows, 0⟩

def advance (cursor : Cursor Row) : Cursor Row :=
  ⟨cursor.rows, cursor.fetched + 1⟩

/-- The row that the last fetch delivered. -/
def current (cursor : Cursor Row) : Option Row :=
  match cursor.fetched with
  | 0 => none
  | before + 1 => cursor.rows[before]?

@[simp]
theorem current_advance (cursor : Cursor Row) :
    cursor.advance.current = cursor.rows[cursor.fetched]? := rfl

/-- A fetch finds a row exactly when there is one left. -/
theorem advance_isSome_iff (cursor : Cursor Row) :
    cursor.advance.current.isSome = true ↔ cursor.fetched + 1 ≤ cursor.rows.length := by
  rw [current_advance, isSome_getElem?]
  exact Nat.lt_iff_add_one_le

/-- A current row is one of the sequence. -/
theorem mem_of_current {cursor : Cursor Row} {row : Row}
    (hcurrent : cursor.current = some row) : row ∈ cursor.rows := by
  obtain ⟨rows, fetched⟩ := cursor
  cases fetched with
  | zero => cases hcurrent
  | succ before => exact List.mem_of_getElem? hcurrent

end Cursor

end PdoCassandra.Foundation
