import OpenAddressing.Cursor
import OpenAddressing.Snapshot
import OpenAddressing.Text.Shown

/-!
# Showing maps, snapshots and cursors

A map is shown as the bindings that a walk over it visits, a snapshot as the list of
its items, a cursor by its index.
-/

namespace OpenAddressing

open Text

variable {K V : Type} [Shown K] [Shown V]

/-- The text of an entry as far as it is shown. -/
def View.text (style : Style) : View K V → String
  | .pair k v => shown style (k, v)
  | .key k => shown style k
  | .value v => shown style v

instance : Shown (View K V) := ⟨View.text⟩

/-- The text of the bindings of a table. -/
def Table.text (style : Style) (t : Table K V) : Except Fault String :=
  return shownBindings style (← t.collect)

/-- The text of a cursor. -/
def Cursor.text (c : Cursor) : String :=
  "Cursor \x7b index: " ++ toString c.index ++ " \x7d"

end OpenAddressing
