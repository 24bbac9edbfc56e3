import OpenAddressing.Hashing.Write

/-!
# Hashers

A hasher starts in a state, takes in one part of a value after the other and ends
with a hash of 64 bits. None of them is keyed: a hash depends on the parts alone.

* `Hasher.identity` keeps an integer as it is, so that small keys lie in the table
  in their own order.
* `Hasher.djb2` reads the bytes as the digits of a number to base 33.
* `Hasher.fourfold` has four hashes only and makes collisions frequent.
-/

namespace OpenAddressing.Hashing

/-- A way to reduce the parts of a value to 64 bits. -/
structure Hasher where
  /-- The state before anything is written. -/
  initial : UInt64
  /-- The state after one more part. -/
  absorb : UInt64 → Write → UInt64
  /-- The hash in a state. -/
  finish : UInt64 → UInt64 := id

namespace Hasher

/-- A hasher that takes in bytes one by one and does not see where a part ends. -/
def bytewise (initial : UInt64) (mix : UInt64 → UInt8 → UInt64) : Hasher where
  initial
  absorb s w := w.bytes.foldl mix s

/-- A word turned left by `n` bits. -/
def rotl (x : UInt64) (n : Nat) : UInt64 := .ofBitVec (x.toBitVec.rotateLeft n)

/-- One more item: the state moves up by a byte, around the end, and meets the item. -/
def identityMix (s n : UInt64) : UInt64 := rotl s 8 ^^^ n

/-- Takes in an integer as one item, unless it is wider than the state; that one,
and a run, goes in byte by byte. -/
def identity : Hasher where
  initial := 0
  absorb s w :=
    match w with
    | .word .w128 _ | .run _ => (w.bytes.map UInt8.toUInt64).foldl identityMix s
    | .word _ v => identityMix s (UInt64.ofNat v.toNat)

/-- One more byte: the state, once moved up by five bits and once as it is, and the byte. -/
def djb2Mix (s : UInt64) (b : UInt8) : UInt64 := (s <<< 5) + s + b.toUInt64

/-- The number to base 33 whose digits are the bytes, after a leading 5381. -/
def djb2 : Hasher := bytewise 5381 djb2Mix

/-- The sum of the bytes, modulo four. -/
def fourfold : Hasher :=
  { bytewise 0 fun s b => s + b.toUInt64 with finish := (· % 4) }

/-- The state after some parts. -/
def absorbAll (h : Hasher) (ws : List Write) : UInt64 := ws.foldl h.absorb h.initial

/-- The hash of a sequence of parts. -/
def hashWrites (h : Hasher) (ws : List Write) : UInt64 := h.finish (h.absorbAll ws)

/-- The hash of a value. -/
def hashOne (h : Hasher) (d : Datum) : UInt64 := h.hashWrites d.writes

/-- The hashes after none, one, two, … of some groups of parts. -/
def trace (h : Hasher) (groups : List (List Write)) : List UInt64 :=
  go h.initial groups
where
  /-- The hashes from a state on. -/
  go (s : UInt64) : List (List Write) → List UInt64
    | [] => [h.finish s]
    | ws :: groups => h.finish s :: go (ws.foldl h.absorb s) groups

end Hasher

/-- The djb2 hash of the bytes of a text, without the byte that ends a text. -/
def djb2Text (s : String) : UInt64 := Hasher.djb2.hashWrites [.run (utf8 s)]

end OpenAddressing.Hashing
