import OpenAddressing.Walk

/-!
# Snapshots

A snapshot is an array of the keys or of the values of a map in bucket order,
ended by one empty slot. It lies in a heap block of its own, which goes back when
the snapshot is released. A map without buckets has no snapshot.
-/

namespace OpenAddressing

/-- The items of a map at one moment, and the empty slot that ends them. -/
structure Snapshot (α : Type) where
  slots : Array (Option α)
  ended : slots.back? = some none

namespace Snapshot

variable {α : Type}

/-- The items, and the slot that ends them. -/
def ofItems (items : List α) : Snapshot α where
  slots := (items.map some ++ [none]).toArray
  ended := by simp

/-- The number of items. -/
def size (s : Snapshot α) : Except Fault Nat := Word.sub s.slots.size 1

/-- The item at a position; none at the end and past it. -/
def get? (s : Snapshot α) (i : Nat) : Except Fault (Option α) := do
  if i < (← s.size) then
    match s.slots[i]? with
    | some item? => return item?
    | none => throw (.indexOutOfBounds i s.slots.size)
  else return none

/-- The items before the first empty slot. -/
def toList (s : Snapshot α) : List α :=
  (s.slots.toList.takeWhile Option.isSome).filterMap id

/-- A part of every entry of a table, if there are as many as the table counts. -/
def collect {K V : Type} (part : Part) (t : Table K V) : Except Fault (Snapshot (View K V)) := do
  let items := (← t.collect).map part.view
  if items.length = t.live then return .ofItems items
  else throw (.snapshotMiscount items.length t.live)

end Snapshot

namespace World

variable {K V τ : Type}

/-- Takes a snapshot of a part of every entry, in a block with one slot more than the map
counts entries. -/
def snapshot (part : Part) : Act (World K V τ) (Option (Snapshot (View K V))) := do
  let t := (← get).table
  if t.capacity = 0 then return none
  discard (Act.lift (Word.add t.live 1))
  modify fun w => { w with heap := w.heap.allocate }
  match Snapshot.collect part t with
  | .ok shot => return some shot
  | .error fault => do
      modify fun w => { w with heap := w.heap.free }
      throw fault

/-- Gives the block of a snapshot back. -/
def releaseSnapshot : Act (World K V τ) Unit :=
  modify fun w => { w with heap := w.heap.free }

end World

end OpenAddressing
