import OpenAddressing.Lookup
import OpenAddressing.Rebuild

/-!
# Putting entries in and taking them out

An insertion first makes room, then hashes the key and searches for its slot; an
equal key is replaced together with its value. A removal leaves a tombstone and
never rebuilds.

What leaves the map by being replaced, erased or cleared goes to the release
hooks, and only after the table has settled: a hook that gives up finds the call
done. `clear` is the exception, because it hands the entries over one by one: if
a hook stops it, the entries behind are still in their buckets and the counters
still count all that was there before.
-/

namespace OpenAddressing.World

variable {K V τ : Type}

/-- Stores a pair in its slot and answers with the entry it replaced. -/
def insertSlot (cb : Callbacks K V τ) (k : K) (v : V) :
    Act (World K V τ) (Option (Entry K V)) := do
  makeRoom cb
  let hash ← cb.hash k
  let buckets := (← get).table.buckets
  match ← Seek.acquire cb.probe (cb.equals k) hash buckets with
  | .occupied i => return some (← onTable (Table.replace i ⟨hash, k, v⟩))
  | .vacant i reused => do
      onTable (Table.fill i reused ⟨hash, k, v⟩)
      return none

/-- Binds a key to a value. An entry with an equal key gives up both its key and its
value to the hooks. -/
def insert (cb : Callbacks K V τ) (k : K) (v : V) : Act (World K V τ) Unit := do
  let replaced ← guarded (insertSlot cb k v)
  let settled ← Act.lift ((← get).table.hasRoomFor 0)
  Act.require (settled = true) .overloaded
  match replaced with
  | none => return
  | some old => release old

/-- Binds key after key, up to the first fault. -/
def insertAll (cb : Callbacks K V τ) (items : List (K × V)) : Act (World K V τ) Unit :=
  items.forM fun (k, v) => insert cb k v

/-- Takes the entry at an index out of the table. -/
def removeAt (i : Nat) : Act (World K V τ) (Option (Entry K V)) :=
  onTable (Table.bury i)

/-- Takes the entry of a key out of the table. -/
def remove (cb : Callbacks K V τ) (k : K) : Act (World K V τ) (Option (Entry K V)) := do
  match ← locate cb k with
  | none => return none
  | some i => removeAt i

/-- Hands a removed entry to the hooks, and says whether there was one. -/
def releaseRemoved (removed : Option (Entry K V)) : Act (World K V τ) Bool := do
  match removed with
  | none => return false
  | some e => release e; return true

/-- Removes a key, and says whether it was there. -/
def erase (cb : Callbacks K V τ) (k : K) : Act (World K V τ) Bool := do
  releaseRemoved (← remove cb k)

/-- Removes a key and answers with the stored pair, which no hook sees. -/
def take (cb : Callbacks K V τ) (k : K) : Act (World K V τ) (Option (K × V)) :=
  return (← remove cb k).map Entry.pair

/-- Empties the `n` buckets from `i` on, releasing their entries in bucket order, and
adds their number to `released`. -/
def vacate : (n i released : Nat) → Act (World K V τ) Nat
  | 0, _, released => return released
  | n + 1, i, released => do
      match ← onTable (Table.vacate i) with
      | none => vacate n (i + 1) released
      | some e => do
          release e
          vacate n (i + 1) (← Act.lift (Word.add released 1))

/-- Releases every entry and keeps the buckets. -/
def clear : Act (World K V τ) Unit := do
  let released ← vacate (← get).table.capacity 0 0
  let counted := (← get).table.live
  Act.require (released = counted) (.clearMiscount released counted)
  onTable (modify fun t => { t with live := 0, tombs := 0 })

/-- Ends the life of the map: it is cleared, and its buckets go back to the heap
whether or not a hook gave up. Entries that are still there go unreleased. -/
def dispose : Act (World K V τ) Unit :=
  clear.andFinally fun w => { w with
    table := {}, heap := w.heap.freeBuckets w.table.capacity }

end OpenAddressing.World
