import OpenAddressing.Update

/-!
# Cursors

A cursor is the index of a bucket and nothing more. It is resolved against the
table each time it is used, so the table may change between two uses: an entry
may go from under the cursor, and the cursor still moves on to the next one.
-/

namespace OpenAddressing

/-- A position in a bucket array. -/
structure Cursor where
  index : Nat
deriving DecidableEq, Repr, Inhabited

namespace Cursor

variable {K V τ : Type}

/-- At the first live entry at or after an index, or past the end. -/
def seat (t : Table K V) (i : Nat) : Cursor :=
  match t.nextEntry? i with
  | some (j, _) => ⟨j⟩
  | none => ⟨t.capacity⟩

/-- At the first live entry. -/
def first (t : Table K V) : Cursor := seat t 0

/-- The cursor lies in the table. -/
def isValid (t : Table K V) (c : Cursor) : Bool := c.index < t.capacity

/-- On to the next live entry; a cursor past the end stays there. -/
def advance (t : Table K V) (c : Cursor) : Except Fault Cursor :=
  if c.index < t.capacity then return seat t (← Word.add c.index 1) else return c

/-- The key under the cursor. -/
def key? (t : Table K V) (c : Cursor) : Option K := (t.entryAt? c.index).map Entry.key

/-- The value under the cursor. -/
def value? (t : Table K V) (c : Cursor) : Option V := (t.entryAt? c.index).map Entry.value

/-- Changes the value under the cursor, and answers with the new value. -/
def update (c : Cursor) (f : V → V) : Act (World K V τ) (Option V) :=
  World.onTable (Table.updateAt c.index f)

/-- Removes the entry under the cursor, and says whether there was one. -/
def erase (c : Cursor) : Act (World K V τ) Bool := do
  World.releaseRemoved (← World.removeAt c.index)

/-- Removes the entry under the cursor and answers with it; no hook sees it. -/
def take (c : Cursor) : Act (World K V τ) (Option (K × V)) :=
  return (← World.removeAt c.index).map Entry.pair

/-- Visits the live entries from the cursor on and erases every `stride`-th of them,
counted from the first; a stride of zero erases none. Answers with the keys
visited. `n` bounds the number of visits. -/
def sweep (stride : Nat) : (n visited : Nat) → Cursor → Act (World K V τ) (List K)
  | 0, _, _ => return []
  | n + 1, visited, c => do
      let t := (← get).table
      match c.key? t with
      | none => return []
      | some k =>
          Act.onlyIf (stride ≠ 0 ∧ visited % stride = 0) (discard c.erase)
          let c' ← Act.lift (c.advance (← get).table)
          return k :: (← sweep stride n (visited + 1) c')

end Cursor

/-- Walks a cursor over the whole table and erases every `stride`-th entry. -/
def World.sweep {K V τ : Type} (stride : Nat) : Act (World K V τ) (List K) := do
  let t := (← get).table
  Cursor.sweep stride t.capacity 0 (Cursor.first t)

end OpenAddressing
