import OpenAddressing.Table

/-!
# The world of a map

A map calls code that it was handed: to hash a key, to compare two keys, to move
on to the next bucket, and to take over what leaves the table. That code has a
memory of its own, the *client*, and while a lookup is running it may even call
the map again.

So the state that a call works on is a `World`: the map, the account of the
blocks it has taken from the heap, and the client. A callback acts on the whole
world; a release hook, which runs when the map is at rest, acts on the client
alone.
-/

namespace OpenAddressing

/-- What becomes of a key or a value that leaves the map. -/
abbrev Hook (τ α : Type) := α → Act τ Unit

/-- The map at rest between two calls, or in the middle of one. -/
structure Map (K V τ : Type) where
  table : Table K V := {}
  /-- Takes over the keys that leave the map. -/
  keyHook : Option (Hook τ K) := none
  /-- Takes over the values that leave the map. -/
  valueHook : Option (Hook τ V) := none
  /-- A search is running, so that no other search may begin. -/
  probing : Bool := false

/-- The blocks that have been taken from the heap and given back. -/
structure Heap where
  allocated : Nat := 0
  freed : Nat := 0
deriving DecidableEq, Repr

namespace Heap

/-- One more block is taken. -/
def allocate (h : Heap) : Heap := { h with allocated := h.allocated + 1 }

/-- One more block is given back. -/
def free (h : Heap) : Heap := { h with freed := h.freed + 1 }

/-- The bucket array of a table is given back; a table without buckets has none. -/
def freeBuckets (h : Heap) (capacity : Nat) : Heap := if capacity = 0 then h else h.free

/-- The blocks that are in use. -/
def held (h : Heap) : Nat := h.allocated - h.freed

end Heap

/-- A map, the heap it lives on and the client it calls. -/
structure World (K V τ : Type) extends Map K V τ where
  heap : Heap := {}
  client : τ

/-- The number of buckets from which on an allocation is refused; the larger the buckets
are, the lower it is. -/
structure BucketLimit where
  capacity : Nat := Table.capacityLimit
  capacity_pos : 0 < capacity := by decide
  capacity_le : capacity ≤ Table.capacityLimit := by decide

theorem BucketLimit.lt_capacityLimit (limit : BucketLimit) {c : Nat} (h : c < limit.capacity) :
    c < Table.capacityLimit :=
  Nat.lt_of_lt_of_le h limit.capacity_le

/-- The code that a map calls to find its way through the table, and what it may ask of its
allocator. -/
structure Callbacks (K V τ : Type) where
  hash : K → Act (World K V τ) UInt64
  /-- Compares the key that is looked up with a stored one, in this order. -/
  equals : K → K → Act (World K V τ) Bool
  /-- From the bucket just visited and the capacity to the bucket to visit next. -/
  probe : Nat → Nat → Act (World K V τ) Nat
  limit : BucketLimit

namespace World

variable {K V τ α : Type}

/-- An act on the table. -/
def onTable (act : Act (Table K V) α) : Act (World K V τ) α :=
  fun ⟨⟨table, keyHook, valueHook, probing⟩, heap, client⟩ =>
    match act table with
    | .ok a table => .ok a ⟨⟨table, keyHook, valueHook, probing⟩, heap, client⟩
    | .error e table => .error e ⟨⟨table, keyHook, valueHook, probing⟩, heap, client⟩

/-- An act of the client, which cannot touch the map. -/
def onClient (act : Act τ α) : Act (World K V τ) α := fun ⟨map, heap, client⟩ =>
  match act client with
  | .ok a client => .ok a ⟨map, heap, client⟩
  | .error e client => .error e ⟨map, heap, client⟩

/-- Runs a search with the map marked as searching. A search that finds the mark
already there stops at once; the mark goes when the search that set it ends,
however it ends. -/
def guarded (act : Act (World K V τ) α) : Act (World K V τ) α := fun w =>
  if w.probing then .error .reentrant w
  else act.andFinally (fun w' => { w' with probing := false }) { w with probing := true }

/-- Hands over to a hook, if there is one. -/
def handOver (hook? : Option (Hook τ α)) (a : α) : Act (World K V τ) Unit :=
  match hook? with
  | none => pure ()
  | some hook => onClient (hook a).asClient

/-- Hands the key, then the value, of an entry that has left the table to the
hooks. A hook that gives up keeps the next one from being called. -/
def release (e : Entry K V) : Act (World K V τ) Unit := do
  let w ← get
  handOver w.keyHook e.key
  handOver w.valueHook e.value

end World

end OpenAddressing
