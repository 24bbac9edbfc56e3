import OpenAddressing.Proofs.Polynomials
import Mathlib.NumberTheory.Multiplicity
import Mathlib.RingTheory.Coprime.Lemmas

/-!
# Djb2 and exchanged bytes

Two bytes that change places change the number to base 33 by a product: their difference,
times a power of 33, times one less than the power of 33 for the distance between the two
places (`number_exchange`). The state keeps this number modulo `2 ^ 64`, so what counts is how
often the product can be halved. The first power is odd; the other factor can be halved five
times more often than the distance. So the exchange is not seen exactly if difference times
distance is a multiple of `2 ^ 59` (`foldl_exchange_eq_iff`).

A difference of bytes can be halved seven times at most. So all exchanges are seen up to a
distance of `2 ^ 52`, where two bytes that differ by 128 can be exchanged without notice.
-/

namespace OpenAddressing.Hashing

open Hasher

/-- The run with the bytes at two places exchanged. -/
def exchange (bs : List UInt8) (i j : Fin bs.length) : List UInt8 :=
  (bs.set i (bs.get j)).set j (bs.get i)

/-- Two runs that are one exchange apart, of two bytes that are different and less than
`2 ^ 52` places from each other. -/
def Transposed (bs cs : List UInt8) : Prop :=
  ∃ i j : Fin bs.length,
    i < j ∧ (j : Nat) - i < 2 ^ 52 ∧ bs.get i ≠ bs.get j ∧ cs = exchange bs i j

variable {bs cs : List UInt8} {i j : Fin bs.length}

@[simp] theorem length_exchange : (exchange bs i j).length = bs.length := by
  unfold exchange
  rw [List.length_set, List.length_set]

theorem number_exchange (base : Nat) (hij : i < j) :
    (number base (exchange bs i j) : Int) - number base bs =
      (((bs.get j).toNat : Int) - (bs.get i).toNat) * ((base : Int) ^ ((j : Nat) - i) - 1) *
        (base : Int) ^ (bs.length - 1 - j) := by
  have hle : (i : Nat) < j := hij
  have hj : (j : Nat) < (bs.set i (bs.get j)).length := by
    rw [List.length_set]
    exact j.isLt
  have hsame : (bs.set i (bs.get j))[(j : Nat)] = bs.get j := List.getElem_set_ne (by omega) hj
  have hpow : (base : Int) ^ (bs.length - 1 - i) =
      (base : Int) ^ ((j : Nat) - i) * (base : Int) ^ (bs.length - 1 - j) := by
    rw [← pow_add]
    congr 1
    omega
  unfold exchange
  rw [number_set base _ j hj, hsame, number_set base bs i i.isLt, List.length_set, hpow]
  show (number base bs + (((bs.get j).toNat : Int) - (bs.get i).toNat) * _ + _ : Int) - _ = _
  ring

/-! ## How often the number can be halved -/

theorem emultiplicity_pow_sub_one (m : Nat) :
    emultiplicity 2 ((33 : Int) ^ m - 1) = emultiplicity 2 (m : Int) + 5 := by
  have hlift : emultiplicity 2 ((33 : Int) ^ m - 1 ^ m) =
      emultiplicity 2 ((33 : Int) - 1) + emultiplicity 2 (m : Int) :=
    Int.two_pow_sub_pow' m (by decide) (by decide)
  have hfive : emultiplicity (2 : Int) (33 - 1) = 5 := by
    rw [show (33 - 1 : Int) = 2 ^ 5 by decide]
    exact emultiplicity_pow_self_of_prime Int.prime_two 5
  rw [one_pow, hfive, add_comm] at hlift
  exact hlift

/-- Powers of 33 do not matter, and 33 itself is one more than the fifth power of two. -/
theorem two_pow_dvd_iff (d : Int) (m k : Nat) :
    (2 : Int) ^ 64 ∣ d * (33 ^ m - 1) * 33 ^ k ↔ (2 : Int) ^ 59 ∣ d * m := by
  have hodd : IsCoprime ((2 : Int) ^ 64) (33 ^ k) := IsCoprime.pow ⟨-16, 1, by decide⟩
  have hdrop : (2 : Int) ^ 64 ∣ d * (33 ^ m - 1) * 33 ^ k ↔ (2 : Int) ^ 64 ∣ d * (33 ^ m - 1) :=
    ⟨hodd.dvd_of_dvd_mul_right, fun h => h.mul_right _⟩
  rw [hdrop, pow_dvd_iff_le_emultiplicity, pow_dvd_iff_le_emultiplicity,
    emultiplicity_mul Int.prime_two, emultiplicity_mul Int.prime_two, emultiplicity_pow_sub_one,
    ← add_assoc]
  show ((59 : ENat) + 5 ≤ _ + 5) ↔ _
  exact ENat.add_le_add_iff_right (by decide)

/-- A difference of bytes has seven halves at most, and a short distance 51. -/
theorem not_two_pow_dvd {d : Int} {m : Nat} (hd : d ≠ 0) (hd8 : |d| < 2 ^ 8) (hm : 0 < m)
    (hm52 : m < 2 ^ 52) : ¬ (2 : Int) ^ 59 ∣ d * m := by
  have hdiff : emultiplicity 2 d < (7 : Nat) + 1 := by
    refine emultiplicity_lt_iff_not_dvd.mpr fun h => hd ?_
    exact Int.eq_zero_of_abs_lt_dvd h hd8
  have hdist : emultiplicity 2 (m : Int) < (51 : Nat) + 1 := by
    refine emultiplicity_lt_iff_not_dvd.mpr fun h => ?_
    have hle : (2 : Int) ^ 52 ≤ m := Int.le_of_dvd (by omega) h
    omega
  rw [pow_dvd_iff_le_emultiplicity, emultiplicity_mul Int.prime_two]
  intro h59
  have hsum : emultiplicity 2 d + emultiplicity 2 (m : Int) ≤ (7 : Nat) + (51 : Nat) :=
    add_le_add (Order.le_of_lt_add_one hdiff) (Order.le_of_lt_add_one hdist)
  exact absurd (h59.trans hsum) (by decide)

/-! ## States -/

/-- Runs of one length have the same effect exactly if their numbers to base 33 have the same
64 lowest bits. -/
theorem foldl_djb2Mix_eq_iff (hlength : cs.length = bs.length) (s : UInt64) :
    cs.foldl djb2Mix s = bs.foldl djb2Mix s ↔
      (2 : Int) ^ 64 ∣ (number 33 cs : Int) - number 33 bs := by
  rw [← UInt64.toNat_inj, toNat_foldl_djb2Mix, toNat_foldl_djb2Mix, hlength]
  refine Iff.trans ⟨Eq.symm, Eq.symm⟩ (Nat.modEq_iff_dvd.trans ?_)
  push_cast
  rw [add_sub_add_left_eq_sub]

/-- An exchange of two bytes is not seen exactly if `2 ^ 59` divides the product of their
difference and their distance. -/
theorem foldl_exchange_eq_iff (hij : i < j) (s : UInt64) :
    (exchange bs i j).foldl djb2Mix s = bs.foldl djb2Mix s ↔
      (2 : Int) ^ 59 ∣ (((bs.get j).toNat : Int) - (bs.get i).toNat) * ((j : Nat) - i : Nat) := by
  rw [foldl_djb2Mix_eq_iff length_exchange, number_exchange 33 hij]
  exact two_pow_dvd_iff _ _ _

/-- Over a distance of `2 ^ 52` bytes that differ by 128 are exchanged without notice. -/
theorem foldl_exchange_of_far (hij : (j : Nat) = i + 2 ^ 52)
    (hdiff : (bs.get j).toNat = (bs.get i).toNat + 128) (s : UInt64) :
    (exchange bs i j).foldl djb2Mix s = bs.foldl djb2Mix s := by
  have hlt : i < j := by
    show (i : Nat) < j
    omega
  rw [foldl_exchange_eq_iff hlt, hdiff, hij, Nat.add_sub_cancel_left]
  push_cast
  rw [add_sub_cancel_left]
  exact ⟨1, by decide⟩

theorem Transposed.foldl_ne (h : Transposed bs cs) (s : UInt64) :
    cs.foldl djb2Mix s ≠ bs.foldl djb2Mix s := by
  obtain ⟨i, j, hij, hshort, hne, rfl⟩ := h
  rw [Ne, foldl_exchange_eq_iff hij]
  have hi := (bs.get i).toNat_lt
  have hj := (bs.get j).toNat_lt
  refine not_two_pow_dvd ?_ (abs_lt.mpr (by omega)) (Nat.sub_pos_of_lt hij) hshort
  intro h0
  exact hne (UInt8.toNat_inj.mp (by omega))

/-- Whatever the state before, djb2 sees the exchange of two different bytes that are less
than `2 ^ 52` places apart, however the bytes are split into parts. So two texts that are
such an exchange apart have different hashes, with the byte that ends a text and without. -/
theorem djb2_transposition :
    (∀ (s : UInt64) (ws ws' : List Write),
      Transposed (ws.flatMap Write.bytes) (ws'.flatMap Write.bytes) →
      ws'.foldl djb2.absorb s ≠ ws.foldl djb2.absorb s) ∧
    ∀ a b : String, Transposed (utf8 a) (utf8 b) →
      djb2Text b ≠ djb2Text a ∧ djb2.hashOne (.text b) ≠ djb2.hashOne (.text a) := by
  refine ⟨fun s ws ws' h => ?_, fun a b h => ?_⟩
  · rw [foldl_djb2_absorb, foldl_djb2_absorb]
    exact h.foldl_ne s
  · have htext : djb2Text b ≠ djb2Text a := h.foldl_ne 5381
    refine ⟨htext, ?_⟩
    rw [djb2_hashOne_text, djb2_hashOne_text]
    exact fun heq => htext (djb2Mix_inj.mp heq)

theorem djb2_transposition_neighbours :
    let ws : List Write := [.run [97], .word .w16 25442]
    Transposed (ws.flatMap Write.bytes) [97, 99, 98] ∧
      (∀ s, djb2.absorb s (.run [97, 99, 98]) ≠ ws.foldl djb2.absorb s) ∧
      Transposed (utf8 "abc") (utf8 "acb") ∧ djb2Text "acb" ≠ djb2Text "abc" := by
  intro ws
  have hbytes : Transposed (ws.flatMap Write.bytes) [97, 99, 98] :=
    ⟨⟨1, by decide⟩, ⟨2, by decide⟩, by decide, by decide, by decide, by decide⟩
  have htext : Transposed (utf8 "abc") (utf8 "acb") :=
    ⟨⟨1, by decide⟩, ⟨2, by decide⟩, by decide, by decide, by decide, by decide⟩
  obtain ⟨hparts, htexts⟩ := djb2_transposition
  exact ⟨hbytes, fun s => hparts s ws [.run [97, 99, 98]] hbytes, htext, (htexts _ _ htext).1⟩

end OpenAddressing.Hashing
