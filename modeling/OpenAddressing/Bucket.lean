/-!
# Buckets

A bucket is empty, holds an entry, or is a *tombstone*: it held an entry that
has been removed. A search passes over tombstones and stops at an empty bucket,
so removing an entry never hides another one.
-/

namespace OpenAddressing

/-- A pair in the table, with the hash its key had when it was put there. -/
structure Entry (K V : Type) where
  hash : UInt64
  key : K
  value : V
deriving DecidableEq, Repr

/-- The pair that an entry holds. -/
def Entry.pair {K V : Type} (e : Entry K V) : K × V := (e.key, e.value)

/-- The entry with another value. -/
def Entry.mapValue {K V : Type} (e : Entry K V) (f : V → V) : Entry K V :=
  { e with value := f e.value }

/-- One cell of the bucket array. -/
inductive Bucket (K V : Type) where
  | empty
  | tombstone
  | full (e : Entry K V)
deriving DecidableEq, Repr

namespace Bucket

variable {K V : Type}

instance : Inhabited (Bucket K V) := ⟨.empty⟩

/-- The entry in the bucket, if there is one. -/
def entry? : Bucket K V → Option (Entry K V)
  | .full e => some e
  | _ => none

/-- Nothing has been in the bucket since the array was made or cleared. -/
def isEmpty : Bucket K V → Bool
  | .empty => true
  | _ => false

/-- An entry has been removed from the bucket. -/
def isTombstone : Bucket K V → Bool
  | .tombstone => true
  | _ => false

/-- The bucket holds an entry. -/
def isFull : Bucket K V → Bool
  | .full _ => true
  | _ => false

end Bucket

end OpenAddressing
