/-!
# What a value tells a hasher

A value is hashed by writing its parts to a hasher, one after the other. A part
is either an integer of a fixed width or a run of bytes. Most hashers look only at
the bytes (`Write.bytes`); some treat an integer as a whole.

`Datum` lists the shapes of values and says what each of them writes. The length
of a list is written before its items, and a text ends with a byte that occurs in
no text, so that two lists that are hashed one after the other cannot be confused
with two others.
-/

namespace OpenAddressing.Hashing

/-- The widths of integers. A machine word has 64 bits. -/
inductive Width where
  | w8
  | w16
  | w32
  | w64
  | w128
deriving DecidableEq, Repr

namespace Width

/-- The number of bytes of an integer. -/
def bytes : Width → Nat
  | .w8 => 1
  | .w16 => 2
  | .w32 => 4
  | .w64 => 8
  | .w128 => 16

/-- The number of bits of an integer. -/
def bits (w : Width) : Nat := 8 * w.bytes

end Width

/-- The `n` lowest bytes of a number, lowest first. -/
def littleEndian : (n v : Nat) → List UInt8
  | 0, _ => []
  | n + 1, v => UInt8.ofNat v :: littleEndian n (v / 256)

/-- One part of a value, as a hasher receives it. -/
inductive Write where
  /-- An integer. A negative one is written as the bits that stand for it. -/
  | word (w : Width) (v : BitVec w.bits)
  /-- A run of bytes. -/
  | run (bs : List UInt8)
deriving DecidableEq, Repr

/-- The bytes of a part, an integer lowest byte first. -/
def Write.bytes : Write → List UInt8
  | .word w v => littleEndian w.bytes v.toNat
  | .run bs => bs

/-- The bytes of a text. -/
def utf8 (s : String) : List UInt8 := s.toUTF8.data.toList

/-- The shapes of values that can be hashed. -/
inductive Datum where
  | word (w : Width) (v : BitVec w.bits)
  | flag (b : Bool)
  | character (c : Char)
  | text (s : String)
  | nothing
  | blob (bs : List UInt8)
  | words (w : Width) (vs : List (BitVec w.bits))
  | texts (ss : List String)
  | pair (a b : Datum)
  | absent
  | present (a : Datum)

namespace Datum

/-- A text and the byte that ends it. -/
def textWrites (s : String) : List Write := [.run (utf8 s), .word .w8 0xff]

/-- The number of items of a list. -/
def lengthWrite (n : Nat) : Write := .word .w64 (BitVec.ofNat _ n)

/-- The parts of a value in the order in which they are written. -/
def writes : Datum → List Write
  | .word w v => [.word w v]
  | .flag b => [.word .w8 (if b then 1 else 0)]
  | .character c => [.word .w32 (BitVec.ofNat _ c.toNat)]
  | .text s => textWrites s
  | .nothing => []
  | .blob bs => [lengthWrite bs.length, .run bs]
  | .words w vs =>
      [lengthWrite vs.length, .run (vs.flatMap fun v => littleEndian w.bytes v.toNat)]
  | .texts ss => lengthWrite ss.length :: ss.flatMap textWrites
  | .pair a b => a.writes ++ b.writes
  | .absent => [.word .w64 0]
  | .present a => .word .w64 1 :: a.writes

end Datum

end OpenAddressing.Hashing
