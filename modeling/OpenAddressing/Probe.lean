import OpenAddressing.Word

/-!
# Probe functions

A probe function says which bucket to visit after bucket `i` in a table of
`capacity` buckets. The map promises nothing about it: it may skip buckets, stay
where it is, leave the table or give up. What a map does with each of these is
the subject of `OpenAddressing.Seek`.

`linear` is the one a map uses by default; the others are the strategies that a
caller can choose by name.
-/

namespace OpenAddressing

/-- From the bucket just visited and the capacity to the bucket to visit next. -/
abbrev Probe := Nat → Nat → Except Fault Nat

namespace Probe

/-- The bucket at which the search for a hash begins. -/
def home (hash : UInt64) (capacity : Nat) : Nat := hash.toNat % capacity

/-- The next bucket `stride` further on, around the end of the table. -/
def strided (stride : Nat) : Probe := fun i capacity => do
  Word.rem (← Word.add i stride) capacity

/-- The next bucket, around the end of the table. -/
def linear : Probe := strided 1

/-- The same bucket again. -/
def stuck : Probe := fun i _ => .ok i

/-- The bucket before, around the start of the table. -/
def backward : Probe := fun i capacity => do
  Word.rem (← Word.sub (← Word.add i capacity) 1) capacity

/-- Twice the index and one more, around the end of the table. -/
def doubling : Probe := fun i capacity => do
  Word.rem (← Word.add (← Word.mul 2 i) 1) capacity

/-- The first index outside the table. -/
def outside : Probe := fun _ capacity => .ok capacity

/-- The next bucket, past the end of the table. -/
def unwrapped : Probe := fun i _ => Word.add i 1

/-- The first bucket, always. -/
def toZero : Probe := fun _ _ => .ok 0

end Probe

end OpenAddressing
