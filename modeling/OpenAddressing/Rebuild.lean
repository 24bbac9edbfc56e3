import OpenAddressing.Seek

/-!
# Rebuilding the bucket array

A rebuild takes a new array, moves the live entries into it in bucket order by
the hashes they carry, and gives the old array back. It drops the tombstones and
calls neither the hash nor the equality of the client, nor a release hook.

The new array is in place before the first entry moves. A probe function that
keeps an entry from finding a bucket stops the rebuild there: the entries moved
so far are what the map has left.

Capacities never shrink. `rehash` with a request of zero rebuilds at the current
capacity; `reserve` and an insertion choose the request from the load.
-/

namespace OpenAddressing.World

variable {K V τ : Type}

/-- Puts an entry of the old array into the first free bucket on its path. -/
def place (cb : Callbacks K V τ) (e : Entry K V) : Act (World K V τ) Unit := do
  let w ← get
  match ← Seek.acquire cb.probe (fun _ => pure false) e.hash w.table.buckets with
  | .occupied _ => throw .duplicateEntry
  | .vacant i _ =>
      discard (Act.lift (w.table.bucketAt i))
      let live ← Act.lift (Word.add w.table.live 1)
      onTable (modify fun t => { t.setBucket i (.full e) with live })

/-- Moves everything into a new array of `capacity` buckets. -/
def rebuild (cb : Callbacks K V τ) (capacity : Nat) : Act (World K V τ) Unit := do
  Act.require (capacity < cb.limit.capacity) .capacityOverflow
  let old := (← get).table
  modify fun w => { w with table := .blank capacity, heap := w.heap.allocate }
  (old.entries.forM (place cb)).andFinally
    fun w => { w with heap := w.heap.freeBuckets old.capacity }
  let moved := (← get).table.live
  Act.require (moved = old.live) (.rebuildMiscount moved old.live)

/-- The capacity that a request leads to, if it leads to a rebuild at all. -/
def rehashTarget (current request : Nat) : Option Nat :=
  if request = 0 then
    if current = 0 then none else some current
  else if request ≤ current then none
  else some request

/-- Rebuilds with `request` buckets, or with as many as there are if it is zero. A
request that is not above the current capacity is ignored. -/
def rehash (cb : Callbacks K V τ) (request : Nat) : Act (World K V τ) Unit := do
  match rehashTarget (← get).table.capacity request with
  | none => return
  | some capacity => rebuild cb capacity

/-- The capacity that holds `wanted` entries below the maximum load, rounded up to
a power of two. -/
def reservedCapacity (wanted : Nat) : Except Fault Nat := do
  if 4 * wanted < Word.limit then
    let least ← Word.add (4 * wanted / 3) 1
    let capacity := Word.ceilPow2 least
    if capacity < Word.limit then return capacity else throw .capacityOverflow
  else throw .capacityOverflow

/-- Makes sure that `extra` more entries can go in without a rebuild: by growing if
the table is too small for the entries alone, else by dropping the tombstones if
it is too small for entries and tombstones. -/
def reserve (cb : Callbacks K V τ) (extra : Nat) : Act (World K V τ) Unit := do
  if extra = 0 then return
  let t := (← get).table
  let wanted ← Act.lift (reservedCapacity (t.live + extra))
  if t.capacity < wanted then
    rehash cb wanted
  else if !(← Act.lift (t.hasRoomFor extra)) then
    rehash cb 0

/-- Makes room for one more entry: the first buckets of all, or twice as many. -/
def makeRoom (cb : Callbacks K V τ) : Act (World K V τ) Unit := do
  let t := (← get).table
  if t.capacity = 0 then
    rehash cb Table.defaultCapacity
  else if !(← Act.lift (t.hasRoomFor 1)) then
    if 2 * t.capacity < Word.limit then rehash cb (2 * t.capacity)
    else throw .capacityOverflow

/-- A new map with `capacity` buckets; none are allocated for zero. -/
def create (cb : Callbacks K V τ) (capacity : Nat) (keyHook : Option (Hook τ K))
    (valueHook : Option (Hook τ V)) (client : τ) : Except Fault (World K V τ) :=
  match rehash cb capacity { keyHook, valueHook, client } with
  | .ok _ w => .ok w
  | .error fault _ => .error fault

end OpenAddressing.World
