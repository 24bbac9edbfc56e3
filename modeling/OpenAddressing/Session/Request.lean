import OpenAddressing.Cursor
import OpenAddressing.Snapshot
import OpenAddressing.Journal

/-!
# Requests and replies

Everything that can be asked of a map, as data: one `Request` for each public
operation, and the `Reply` that it is answered with when no fault stops it. A
statement about every use of a map is a statement about lists of requests.

Cursors live outside the map, in numbered registers of the session.
-/

namespace OpenAddressing

/-- The lookups that leave the map as it is. -/
inductive Lookup (K : Type) where
  | get (k : K)
  | getEntry (k : K)
  | contains (k : K)

/-- What a lookup answers. -/
inductive Answer (K V : Type) where
  | value (v : Option V)
  | entry (e : Option (K × V))
  | flag (b : Bool)
deriving DecidableEq, Repr

/-- What a callback can ask of the map that is calling it. -/
inductive Inquiry (K : Type) where
  | lookup (l : Lookup K)
  /-- The number of entries that the map counts. -/
  | size
  /-- The number of entries that a walk visits. -/
  | walked

/-- One call of a public operation. -/
inductive Request (K V : Type) where
  | lookup (l : Lookup K)
  /-- A lookup during which the callback `via` makes an inquiry of its own. -/
  | nested (l : Lookup K) (via : Callback) (inquiry : Inquiry K)
  | getEach (ks : List K)
  | containsEach (ks : List K)
  | update (k : K) (f : V → V)
  | insert (k : K) (v : V)
  | insertAll (items : List (K × V))
  | erase (k : K)
  | eraseEach (ks : List K)
  | take (k : K)
  | rehash (capacity : Nat)
  | reserve (extra : Nat)
  | clear
  | setKeyHook (hook : Option (Hook (Journal K V) K))
  | setValueHook (hook : Option (Hook (Journal K V) V))
  | summary
  | hash (k : K)
  | equal (a b : K)
  | probe (i capacity : Nat)
  /-- The live entries with their bucket indexes. -/
  | entries
  /-- The pairs that a walk over the whole map visits. -/
  | items
  /-- A walk over at most `limit` entries. -/
  | walk (part : Part) (limit : Option Nat)
  /-- A walk over at most `limit` entries that changes each value. -/
  | updateWalk (part : Part) (limit : Option Nat) (f : V → V)
  /-- A snapshot, looked at in some positions and released. -/
  | snapshot (part : Part) (positions : List Nat)
  | cursor (r : Nat)
  | advance (r : Nat)
  | copyCursor (r source : Nat)
  | sameCursor (r₁ r₂ : Nat)
  | look (r : Nat)
  | updateAt (r : Nat) (f : V → V)
  | eraseAt (r : Nat)
  | takeAt (r : Nat)
  /-- A cursor walk over the whole map that erases every `stride`-th entry. -/
  | sweep (stride : Nat)

/-- What a map says of itself. -/
structure Summary where
  size : Nat
  capacity : Nat
  tombs : Nat
  loadFactor : Float32
  keyHook : Bool
  valueHook : Bool

/-- What a walk reports when it stops. -/
structure WalkReport (K V : Type) where
  items : List (View K V)
  /-- The length before the first item and after each item. -/
  lengths : List Nat
  /-- The length at the end. -/
  remaining : Nat
  /-- The walk found nothing more to visit. -/
  ended : Bool
  /-- What a copy of the walk visits from there on. -/
  rest : List (View K V)

/-- What a snapshot shows while it is held. -/
structure SnapshotReport (K V : Type) where
  size : Nat
  items : List (View K V)
  /-- The length of the array, its last slot included. -/
  slots : Nat
  /-- The last slot is empty. -/
  terminated : Bool
  /-- The items at the positions asked for. -/
  picked : List (Option (View K V))
  heap : Heap

/-- What a snapshot shows on a heap, looked at in some positions. -/
def Snapshot.report {K V : Type} (positions : List Nat) (heap : Heap)
    (s : Snapshot (View K V)) : Except Fault (SnapshotReport K V) := do
  let size ← s.size
  let picked ← positions.mapM s.get?
  return {
    size
    items := s.toList
    slots := s.slots.size
    terminated := s.slots.back?.join.isNone
    picked
    heap }

/-- What became of an inquiry from inside a callback. -/
inductive InquiryResult where
  /-- The callback was never called. -/
  | notCalled
  /-- The inquiry did not come back. -/
  | stopped
  | returned (answer : Nat)
deriving DecidableEq, Repr

/-- The answer to a request. -/
inductive Reply (K V : Type) where
  | done
  | answer (a : Answer K V)
  | nested (outer : Except Fault (Answer K V)) (inner : InquiryResult)
  | value (v : Option V)
  | values (vs : List (Option V))
  | pair (e : Option (K × V))
  | flag (b : Bool)
  | flags (bs : List Bool)
  | index (i : Nat)
  | hash (h : UInt64)
  | summary (s : Summary)
  | entries (es : List (Nat × K × V))
  | items (es : List (K × V))
  | walked (r : WalkReport K V)
  | snapshot (r : Option (SnapshotReport K V))
  | seen (c : Cursor) (valid : Bool) (k : Option K) (v : Option V)
  | keys (ks : List K)

end OpenAddressing
