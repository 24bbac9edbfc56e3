import OpenAddressing.Seek

/-!
# Looking keys up

A lookup hashes the key once and searches for it; a map without buckets is not
searched and hashes nothing. The search alone is guarded: a callback that looks
anything up in the same map meanwhile is stopped.
-/

namespace OpenAddressing.World

variable {K V τ : Type}

/-- Searches for the bucket of a key. -/
def findKey (cb : Callbacks K V τ) (k : K) : Act (World K V τ) (Option Nat) := do
  let w ← get
  if w.table.capacity = 0 then return none
  let hash ← cb.hash k
  Seek.find cb.probe (cb.equals k) hash w.table.buckets

/-- The bucket of a key. -/
def locate (cb : Callbacks K V τ) (k : K) : Act (World K V τ) (Option Nat) :=
  guarded (findKey cb k)

/-- The entry of a key, with the key as it is stored. -/
def getEntry? (cb : Callbacks K V τ) (k : K) : Act (World K V τ) (Option (K × V)) := do
  match ← locate cb k with
  | none => return none
  | some i =>
      let b ← Act.lift ((← get).table.bucketAt i)
      return b.entry?.map Entry.pair

/-- The value of a key. -/
def get? (cb : Callbacks K V τ) (k : K) : Act (World K V τ) (Option V) :=
  return (← getEntry? cb k).map Prod.snd

/-- Whether the map has the key. -/
def contains (cb : Callbacks K V τ) (k : K) : Act (World K V τ) Bool :=
  return (← locate cb k).isSome

/-- Changes the value of a key in place, and answers with the new value. -/
def update (cb : Callbacks K V τ) (k : K) (f : V → V) : Act (World K V τ) (Option V) := do
  match ← locate cb k with
  | none => return none
  | some i => do
      -- the search answered with an index of the array, and this insists on it
      discard (Act.lift ((← get).table.bucketAt i))
      onTable (Table.updateAt i f)

end OpenAddressing.World
