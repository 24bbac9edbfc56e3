import OpenAddressing.Hashing.Hasher
import OpenAddressing.Proofs.Digits
import Mathlib.Data.Nat.ModEq

/-!
# Djb2 as a polynomial

A byte takes the state of djb2 to 33 times the state and the byte, modulo `2 ^ 64`: a shift
by five bits and two sums, none of which stops at an overflow. So a run of bytes moves the
state by a power of 33 and adds the number that the run is to base 33
(`toNat_foldl_djb2Mix`), and how the bytes are split into parts does not matter.

33 has an inverse modulo `2 ^ 64`. Hence no byte makes two states one, and two texts have
the same hash as keys, where a last byte follows, exactly if they have it without that byte.
-/

namespace OpenAddressing.Hashing

open Hasher

namespace Hasher

variable {s s' : UInt64} {b : UInt8}

theorem djb2Mix_eq (s : UInt64) (b : UInt8) : djb2Mix s b = s * 33 + b.toUInt64 := by
  have hshift : s <<< 5 + s = s * 33 := by
    rw [← UInt64.toNat_inj, UInt64.toNat_add, UInt64.toNat_shiftLeft, UInt64.toNat_mul,
      Nat.shiftLeft_eq]
    show (s.toNat * 2 ^ 5 % 2 ^ 64 + s.toNat) % 2 ^ 64 = s.toNat * 33 % 2 ^ 64
    omega
  unfold djb2Mix
  rw [hshift]

theorem toNat_djb2Mix (s : UInt64) (b : UInt8) :
    (djb2Mix s b).toNat = (33 * s.toNat + b.toNat) % 2 ^ 64 := by
  rw [djb2Mix_eq, UInt64.toNat_add, UInt64.toNat_mul]
  show (s.toNat * 33 % 2 ^ 64 + b.toNat) % 2 ^ 64 = _
  omega

/-- What one more byte has done can be undone. -/
theorem djb2Mix_bijective (b : UInt8) : Function.Bijective fun s => djb2Mix s b := by
  -- the inverse of 33
  have hinv : (33 : UInt64) * 1117984489315730401 = 1 := by decide
  rw [Function.bijective_iff_has_inverse]
  refine ⟨fun s => (s - b.toUInt64) * 1117984489315730401, fun s => ?_, fun s => ?_⟩
  · show (djb2Mix s b - b.toUInt64) * 1117984489315730401 = s
    rw [djb2Mix_eq, UInt64.add_sub_cancel, UInt64.mul_assoc, hinv, UInt64.mul_one]
  · show djb2Mix ((s - b.toUInt64) * 1117984489315730401) b = s
    rw [djb2Mix_eq, UInt64.mul_assoc, UInt64.mul_comm 1117984489315730401, hinv,
      UInt64.mul_one, UInt64.sub_add_cancel]

theorem djb2Mix_inj : djb2Mix s b = djb2Mix s' b ↔ s = s' := (djb2Mix_bijective b).injective.eq_iff

/-! ## Runs of bytes -/

/-- A run of bytes is a number to base 33, behind the state it finds. -/
theorem toNat_foldl_djb2Mix (bs : List UInt8) (s : UInt64) :
    (bs.foldl djb2Mix s).toNat = (s.toNat * 33 ^ bs.length + number 33 bs) % 2 ^ 64 := by
  induction bs generalizing s with
  | nil =>
    rw [List.foldl_nil, List.length_nil, number_nil, Nat.pow_zero, Nat.mul_one, Nat.add_zero,
      Nat.mod_eq_of_lt s.toNat_lt]
  | cons b bs ih =>
    have hstep : (djb2Mix s b).toNat ≡ 33 * s.toNat + b.toNat [MOD 2 ^ 64] := by
      rw [toNat_djb2Mix]
      exact Nat.mod_modEq _ _
    rw [List.foldl_cons, ih, number_cons, List.length_cons]
    calc ((djb2Mix s b).toNat * 33 ^ bs.length + number 33 bs) % 2 ^ 64
        = ((33 * s.toNat + b.toNat) * 33 ^ bs.length + number 33 bs) % 2 ^ 64 :=
          (hstep.mul_right _).add_right _
      _ = (s.toNat * 33 ^ (bs.length + 1) + (b.toNat * 33 ^ bs.length + number 33 bs)) %
            2 ^ 64 := by
          congr 1
          ring

theorem foldl_djb2Mix_bijective (bs : List UInt8) :
    Function.Bijective fun s => bs.foldl djb2Mix s := by
  induction bs with
  | nil => exact Function.bijective_id
  | cons b bs ih => exact ih.comp (djb2Mix_bijective b)

/-- Djb2 does not see where a part ends. -/
theorem foldl_djb2_absorb (ws : List Write) (s : UInt64) :
    ws.foldl djb2.absorb s = (ws.flatMap Write.bytes).foldl djb2Mix s :=
  List.foldl_flatMap.symm

end Hasher

/-! ## Texts -/

/-- As a key, a text is followed by one more byte. -/
theorem djb2_hashOne_text (a : String) : djb2.hashOne (.text a) = djb2Mix (djb2Text a) 255 := by
  show djb2.absorb (djb2.absorb 5381 (.run (utf8 a))) (.word .w8 0xff) = _
  rfl

/-- Djb2 reads the bytes of all that is written as the digits of a number to base 33, behind
a leading 5381, and keeps its lowest 64 bits; it does not stop on the way, and how the bytes
are split into integers and runs does not matter. For given parts, no two states become one
and none is missed. So for texts the hash as a key is 33 times the hash of the text and 255,
and two of them are equal exactly if the others are. -/
theorem djb2_polynomial :
    (∀ ws : List Write, let bs := ws.flatMap Write.bytes
      (djb2.hashWrites ws).toNat = (5381 * 33 ^ bs.length +
        ∑ i : Fin bs.length, bs[i].toNat * 33 ^ (bs.length - 1 - i)) % 2 ^ 64) ∧
    (∀ ws : List Write, Function.Bijective fun s => ws.foldl djb2.absorb s) ∧
    ∀ a b : String,
      (djb2.hashOne (.text a)).toNat = (33 * (djb2Text a).toNat + 255) % 2 ^ 64 ∧
      (djb2.hashOne (.text a) = djb2.hashOne (.text b) ↔ djb2Text a = djb2Text b) := by
  refine ⟨fun ws => ?_, fun ws => ?_, fun a b => ⟨?_, ?_⟩⟩
  · intro bs
    have hfold : djb2.hashWrites ws = bs.foldl djb2Mix 5381 := foldl_djb2_absorb ws 5381
    rw [hfold, toNat_foldl_djb2Mix, number_eq_sum]
    rfl
  · simp only [foldl_djb2_absorb]
    exact foldl_djb2Mix_bijective _
  · rw [djb2_hashOne_text, toNat_djb2Mix]
    rfl
  · rw [djb2_hashOne_text, djb2_hashOne_text]
    exact djb2Mix_inj

end OpenAddressing.Hashing
