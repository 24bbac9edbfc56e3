import OpenAddressing.Bucket
import OpenAddressing.Word

/-!
# Tables

A table is the bucket array with two counters: how many entries are live and how
many buckets are tombstones. The counters are kept up to date by each operation
and never recomputed, so that after a `clear` that was interrupted they still
say what was there before; every operation has to cope with that.

Here are the changes to single buckets and the scan in bucket order. They know
nothing of keys, hashes or searches.
-/

namespace OpenAddressing

/-- The bucket array and its counters. -/
structure Table (K V : Type) where
  buckets : Array (Bucket K V) := #[]
  /-- How many entries the table counts. -/
  live : Nat := 0
  /-- How many tombstones the table counts. -/
  tombs : Nat := 0

namespace Table

variable {K V : Type}

/-- No allocation holds as many buckets as this, however small they are. -/
def capacityLimit : Nat := 1 <<< 61

/-- The number of buckets of a table that grows for the first time. -/
def defaultCapacity : Nat := 256

/-- The number of buckets; none at all in a table that was never filled. -/
def capacity (t : Table K V) : Nat := t.buckets.size

/-- A table of empty buckets. -/
def blank (capacity : Nat) : Table K V where
  buckets := Array.replicate capacity .empty

/-- The live entries in bucket order. -/
def entries (t : Table K V) : List (Entry K V) := t.buckets.toList.filterMap Bucket.entry?

/-- The live entries in bucket order, with their indexes. -/
def indexedEntries (t : Table K V) : List (Nat × Entry K V) :=
  t.buckets.toList.zipIdx.filterMap fun (b, i) => b.entry?.map (i, ·)

/-- The bucket at an index. -/
def bucketAt (t : Table K V) (i : Nat) : Except Fault (Bucket K V) :=
  match t.buckets[i]? with
  | some b => .ok b
  | none => .error (.indexOutOfBounds i t.capacity)

/-- The entry at an index, if the index is in the table and its bucket is full. -/
def entryAt? (t : Table K V) (i : Nat) : Option (Entry K V) :=
  t.buckets[i]?.bind Bucket.entry?

/-- The table with another bucket at an index in range. -/
def setBucket (t : Table K V) (i : Nat) (b : Bucket K V) : Table K V :=
  { t with buckets := t.buckets.setIfInBounds i b }

/-! ## Load -/

/-- Whether `extra` more entries, beside all that is counted, keep the load below
three quarters. -/
def hasRoomFor (t : Table K V) (extra : Nat) : Except Fault Bool := do
  let occupied ← Word.add (← Word.add t.live t.tombs) extra
  let used ← Word.mul occupied 4
  let bound ← Word.mul t.capacity 3
  return decide (used < bound)

/-- The highest load that a table may come close to. -/
def maxLoadFactor : Float32 := 0.75

/-- The share of buckets that are counted as taken, rounded to single precision. -/
def loadFactor (t : Table K V) : Except Fault Float32 := do
  if t.capacity = 0 then return 0.0
  let occupied ← Word.add t.live t.tombs
  return (UInt64.ofNat occupied).toFloat32 / (UInt64.ofNat t.capacity).toFloat32

/-! ## Changes to one bucket -/

/-- Puts an entry into a free bucket and counts it; `reused` says that the bucket
is a tombstone and not empty. -/
def fill (i : Nat) (reused : Bool) (e : Entry K V) : Act (Table K V) Unit := do
  let t ← get
  match reused, ← Act.lift (t.bucketAt i) with
  | true, .tombstone => do
      let tombs ← Act.lift (Word.sub t.tombs 1)
      let live ← Act.lift (Word.add t.live 1)
      modify fun t => { t.setBucket i (.full e) with live, tombs }
  | false, .empty => do
      let live ← Act.lift (Word.add t.live 1)
      modify fun t => { t.setBucket i (.full e) with live }
  | _, _ => throw (.wrongBucket i)

/-- Puts an entry in the place of another one, which it hands out. -/
def replace (i : Nat) (e : Entry K V) : Act (Table K V) (Entry K V) := do
  match ← Act.lift ((← get).bucketAt i) with
  | .full old => do
      modify (·.setBucket i (.full e))
      return old
  | _ => throw (.wrongBucket i)

/-- Turns a full bucket into a tombstone and hands out the entry it held. Any
other index, in the table or not, is left alone. -/
def bury (i : Nat) : Act (Table K V) (Option (Entry K V)) := do
  let t ← get
  match t.entryAt? i with
  | none => return none
  | some e => do
      let live ← Act.lift (Word.sub t.live 1)
      let tombs ← Act.lift (Word.add t.tombs 1)
      modify fun t => { t.setBucket i .tombstone with live, tombs }
      return some e

/-- Empties a bucket without counting, and hands out the entry it held. -/
def vacate (i : Nat) : Act (Table K V) (Option (Entry K V)) := do
  let e? := (← get).entryAt? i
  modify (·.setBucket i .empty)
  return e?

/-- Changes the value of the entry at an index, if there is one, and hands out the
new value. -/
def updateAt (i : Nat) (f : V → V) : Act (Table K V) (Option V) := do
  match (← get).entryAt? i with
  | none => return none
  | some e => do
      modify (·.setBucket i (.full (e.mapValue f)))
      return some (f e.value)

/-! ## Scanning -/

/-- The first entry among the `n` buckets from `i` on, with its index. -/
def scan (buckets : Array (Bucket K V)) : (n i : Nat) → Option (Nat × Entry K V)
  | 0, _ => none
  | n + 1, i =>
      match buckets[i]?.bind Bucket.entry? with
      | some e => some (i, e)
      | none => scan buckets n (i + 1)

/-- The first entry at or after an index, with its index. -/
def nextEntry? (t : Table K V) (i : Nat) : Option (Nat × Entry K V) :=
  scan t.buckets (t.capacity - i) i

end Table

end OpenAddressing
