import OpenAddressing.Probe
import OpenAddressing.World

/-!
# Searching the bucket array

A search starts at the home bucket of a hash and follows the probe function for
at most one lap of `capacity` buckets. It ends at a full bucket with the same
hash whose key is accepted, at the first empty bucket, or with the lap.

There are two searches, each with a loop of its own. `find` is for a lookup and
wants the accepted entry (`look`). `acquire` is for an insertion and also
remembers the first tombstone on the way (`walk`); its slot is the accepted entry
if there is one, else that tombstone, else the empty bucket (`Landing.slot`).

The key of a full bucket is shown to the client only when the hash agrees. The
probe function is asked for a next bucket after every bucket that does not end
the search, the last one of the lap included.
-/

namespace OpenAddressing

/-- How the search for a slot ended. -/
inductive Landing where
  /-- At an entry with an accepted key. -/
  | hit (index : Nat)
  /-- At an empty bucket, past a first tombstone if there was one. -/
  | gap (index : Nat) (tomb : Option Nat)
  /-- With the lap, past a first tombstone if there was one. -/
  | lap (tomb : Option Nat)
deriving DecidableEq, Repr

/-- Where an entry is to be put. -/
inductive Slot where
  /-- In the place of an entry with an equal key. -/
  | occupied (index : Nat)
  /-- In a free bucket; `reused` says that it is a tombstone. -/
  | vacant (index : Nat) (reused : Bool)
deriving DecidableEq, Repr

namespace Landing

/-- The slot for an insertion, if there is a bucket that can take an entry. -/
def slot (capacity : Nat) : Landing → Except Fault Slot
  | .hit i => .ok (.occupied i)
  | .gap _ (some t) => .ok (.vacant t true)
  | .gap i none => .ok (.vacant i false)
  | .lap (some t) => .ok (.vacant t true)
  | .lap none => .error (.probeExhausted capacity)

end Landing

namespace Seek

variable {K V σ : Type}

/-- The bucket after `i`, which has to lie in the table. -/
def step (probe : Nat → Nat → Act σ Nat) (i capacity : Nat) : Act σ Nat := do
  let next ← probe i capacity
  if next < capacity then return next else throw (.probeOutOfRange next capacity)

/-- The entry has the hash that is searched for, and its key is accepted. The client
sees the key only if the hash is right. -/
def fits (accepts : K → Act σ Bool) (hash : UInt64) (e : Entry K V) : Act σ Bool :=
  if e.hash = hash then accepts e.key else pure false

/-- The lookup in `n` more buckets from bucket `i` on. -/
def look (probe : Nat → Nat → Act σ Nat) (accepts : K → Act σ Bool) (hash : UInt64)
    (buckets : Array (Bucket K V)) : (n i : Nat) → Act σ (Option Nat)
  | 0, _ => return none
  | n + 1, i =>
      match buckets[i]? with
      | none => throw (.indexOutOfBounds i buckets.size)
      | some .empty => return none
      | some .tombstone => do
          let next ← step probe i buckets.size
          look probe accepts hash buckets n next
      | some (.full e) => do
          if ← fits accepts hash e then return some i
          else
            let next ← step probe i buckets.size
            look probe accepts hash buckets n next

/-- The index of the accepted entry; none in an array without buckets. -/
def find (probe : Nat → Nat → Act σ Nat) (accepts : K → Act σ Bool) (hash : UInt64)
    (buckets : Array (Bucket K V)) : Act σ (Option Nat) :=
  look probe accepts hash buckets buckets.size (Probe.home hash buckets.size)

/-- The walk over `n` more buckets from bucket `i` on, with the first tombstone met
so far. -/
def walk (probe : Nat → Nat → Act σ Nat) (accepts : K → Act σ Bool) (hash : UInt64)
    (buckets : Array (Bucket K V)) : (n i : Nat) → (tomb : Option Nat) → Act σ Landing
  | 0, _, tomb => return .lap tomb
  | n + 1, i, tomb =>
      match buckets[i]? with
      | none => throw (.indexOutOfBounds i buckets.size)
      | some .empty => return .gap i tomb
      | some .tombstone => do
          let next ← step probe i buckets.size
          walk probe accepts hash buckets n next (tomb.or (some i))
      | some (.full e) => do
          if ← fits accepts hash e then return .hit i
          else
            let next ← step probe i buckets.size
            walk probe accepts hash buckets n next tomb

/-- The search for a slot through the whole array. -/
def seek (probe : Nat → Nat → Act σ Nat) (accepts : K → Act σ Bool) (hash : UInt64)
    (buckets : Array (Bucket K V)) : Act σ Landing :=
  walk probe accepts hash buckets buckets.size (Probe.home hash buckets.size) none

/-- The slot for an entry; a fault if no bucket can take it. -/
def acquire (probe : Nat → Nat → Act σ Nat) (accepts : K → Act σ Bool) (hash : UInt64)
    (buckets : Array (Bucket K V)) : Act σ Slot := do
  Act.require (buckets.size ≠ 0) .unallocated
  let landing ← seek probe accepts hash buckets
  Act.lift (landing.slot buckets.size)

end Seek

end OpenAddressing
