import OpenAddressing.Hashing.Hasher
import OpenAddressing.Text.Shown

/-!
# Keys and values

The kinds of keys and values that a session can work on, with what each of them
offers beside being stored: what it writes to a hasher, how it is shown, a sample
for every number, and the equalities that make sense for it.

Two kinds are made to collide. A `Sized` text is hashed by its length alone, and a
`Tagged` name by a number that it carries along.
-/

namespace OpenAddressing

open Hashing Text

/-- A text of which a hasher sees the length only. -/
structure Sized where
  text : String
deriving DecidableEq, Repr

/-- A name with the number that it is hashed by. -/
structure Tagged where
  name : String
  tag : UInt64
deriving DecidableEq, Repr

/-- A floating-point number, taken as its bits. -/
structure Bits where
  bits : UInt64
deriving DecidableEq, Repr

/-- Ways to compare the key that is looked up with a stored one. -/
inductive Equality where
  /-- They are the same. -/
  | same
  /-- Nothing equals anything. -/
  | never
  /-- Everything equals everything. -/
  | always
  /-- The key that is looked up is not above the stored one. -/
  | atMost
  /-- They differ at most in the case of the letters from a to z. -/
  | caseless
deriving DecidableEq, Repr

/-- The text with its letters from a to z in lower case. -/
def lowered (s : String) : String := s.map Char.toLower

/-- Kinds of keys. -/
class Key (K : Type) where
  /-- What a hasher gets to see. -/
  datum : K → Datum
  /-- The sample key of a number. -/
  sample : UInt64 → K
  /-- The order by which `Equality.atMost` compares, where there is one. -/
  atMost? : Option (K → K → Bool) := none
  /-- The text that `Equality.caseless` compares, where there is one. -/
  caselessText? : Option (K → String) := none

/-- The comparison of a kind of keys, if it has the one that is asked for. -/
def Equality.compare? (K : Type) [DecidableEq K] [Key K] : Equality → Option (K → K → Bool)
  | .same => some fun a b => decide (a = b)
  | .never => some fun _ _ => false
  | .always => some fun _ _ => true
  | .atMost => Key.atMost?
  | .caseless => Key.caselessText?.map fun text a b => lowered (text a) == lowered (text b)

/-- Kinds of values. -/
class Value (V : Type) where
  /-- A value with another one added to it. -/
  add : V → V → V
  /-- The sample value of a number. -/
  sample : Nat → V

instance : Key UInt64 where
  datum n := .word .w64 n.toBitVec
  sample n := n
  atMost? := some fun a b => decide (a ≤ b)

instance : Key Int64 where
  datum n := .word .w64 n.toBitVec
  sample n := n.toInt64
  atMost? := some fun a b => decide (a ≤ b)

instance : Key UInt16 where
  datum n := .word .w16 n.toBitVec
  sample n := n.toUInt16
  atMost? := some fun a b => decide (a ≤ b)

instance : Key String where
  datum s := .text s
  sample n := s!"key-{n}"
  atMost? := some fun a b => decide (a ≤ b)
  caselessText? := some id

instance : Shown Sized := ⟨fun style s => shown style s.text⟩

instance : Key Sized where
  datum s := Datum.word .w64 (BitVec.ofNat _ s.text.utf8ByteSize)
  sample n := ⟨s!"key-{n}"⟩
  atMost? := some fun a b => decide (a.text ≤ b.text)
  caselessText? := some Sized.text

instance : Key (UInt32 × String) where
  datum k := .pair (.word .w32 k.1.toBitVec) (.text k.2)
  sample n := (n.toUInt32, toString n)

instance : Key (List UInt8) where
  datum bs := .blob bs
  sample n := littleEndian 8 n.toNat

instance : Shown Tagged := ⟨fun _ k => k.name ++ "@" ++ toString k.tag⟩

instance : Key Tagged where
  datum k := .word .w64 k.tag.toBitVec
  sample n := ⟨toString n, n / 4⟩
  atMost? := some fun a b => decide (a.name ≤ b.name)

instance : Shown Bits := ⟨fun _ x => String.ofList (hex 16 x.bits.toNat)⟩

instance : Key Bits where
  datum x := .word .w64 x.bits.toBitVec
  sample n := ⟨n⟩

instance : Value Int64 where
  add a b := a + b
  sample n := Int64.ofNat n

instance : Value String where
  add a b := a ++ b
  sample n := toString n

end OpenAddressing
