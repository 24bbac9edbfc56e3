import OpenAddressing.Hashing.Write
import Mathlib.Algebra.BigOperators.Fin
import Mathlib.Data.Nat.Digits.Defs
import Mathlib.Tactic.Ring

/-!
# Bytes as digits

A run of bytes is read as a number with the highest digit first, to whatever base a hasher
has (`number`). The base need not be as large as a byte: to base 33 many runs have the same
number. To base 256 a number has one run of each length (`number_inj`), and the bytes of an
integer, which are written lowest first, are the integer again when they are turned around
(`number_reverse_littleEndian`).
-/

namespace OpenAddressing.Hashing

/-- The number whose digits are the bytes, highest first. -/
def number (base : Nat) (bs : List UInt8) : Nat :=
  Nat.ofDigits base (bs.reverse.map UInt8.toNat)

variable {base : Nat} {bs cs : List UInt8} {b : UInt8}

@[simp] theorem number_nil : number base [] = 0 := rfl

theorem number_append :
    number base (bs ++ cs) = number base bs * base ^ cs.length + number base cs := by
  unfold number
  rw [List.reverse_append, List.map_append, Nat.ofDigits_append, List.length_map,
    List.length_reverse, Nat.mul_comm, Nat.add_comm]

@[simp] theorem number_singleton : number base [b] = b.toNat := Nat.ofDigits_singleton

theorem number_cons :
    number base (b :: bs) = b.toNat * base ^ bs.length + number base bs := by
  rw [← List.singleton_append, number_append, number_singleton]

/-- Each byte is worth its place. -/
theorem number_eq_sum (base : Nat) (bs : List UInt8) :
    number base bs = ∑ i : Fin bs.length, bs[i].toNat * base ^ (bs.length - 1 - i) := by
  induction bs with
  | nil => rfl
  | cons b bs ih =>
    rw [number_cons, ih]
    show _ = ∑ i : Fin (bs.length + 1), _
    rw [Fin.sum_univ_succ]
    refine congrArg₂ (· + ·) rfl (Finset.sum_congr rfl fun i _ => ?_)
    show _ = bs[i].toNat * base ^ (bs.length + 1 - 1 - (i + 1))
    rw [Nat.add_sub_cancel, Nat.add_comm i.val, Nat.sub_add_eq]

/-- A byte in the place of another is worth their difference. -/
theorem number_set (base : Nat) (bs : List UInt8) (i : Nat) (hi : i < bs.length) (b : UInt8) :
    (number base (bs.set i b) : Int) =
      number base bs + ((b.toNat : Int) - bs[i].toNat) * (base : Int) ^ (bs.length - 1 - i) := by
  induction bs generalizing i with
  | nil => exact absurd hi (Nat.not_lt_zero i)
  | cons c bs ih =>
    cases i with
    | zero =>
      rw [List.set_cons_zero, number_cons, number_cons]
      simp only [List.getElem_cons_zero, List.length_cons, Nat.add_sub_cancel, Nat.sub_zero]
      push_cast
      ring
    | succ i =>
      have hi' : i < bs.length := Nat.lt_of_succ_lt_succ hi
      rw [List.set_cons_succ, number_cons, number_cons, List.length_set]
      push_cast
      rw [ih i hi']
      simp only [List.getElem_cons_succ, List.length_cons]
      rw [Nat.add_sub_cancel, show bs.length - (i + 1) = bs.length - 1 - i by omega]
      ring

/-! ## Base 256 -/

theorem digits_lt (bs : List UInt8) : ∀ d ∈ bs.reverse.map UInt8.toNat, d < 256 := by
  intro d hd
  obtain ⟨b, _, rfl⟩ := List.mem_map.mp hd
  exact b.toNat_lt

theorem number_lt (bs : List UInt8) : number 256 bs < 256 ^ bs.length := by
  have hlt := Nat.ofDigits_lt_base_pow_length (by decide) (digits_lt bs)
  rwa [List.length_map, List.length_reverse] at hlt

/-- Of one length, only one run has a number. -/
theorem number_inj (hlength : bs.length = cs.length) (h : number 256 bs = number 256 cs) :
    bs = cs := by
  have hdigits : bs.reverse.map UInt8.toNat = cs.reverse.map UInt8.toNat := by
    refine Nat.ofDigits_inj_of_len_eq (b := 256) (by decide) ?_ (digits_lt bs) (digits_lt cs) h
    rw [List.length_map, List.length_map, List.length_reverse, List.length_reverse, hlength]
  have hreverse : bs.reverse = cs.reverse :=
    List.map_injective_iff.mpr (fun _ _ => UInt8.toNat_inj.mp) hdigits
  exact List.reverse_inj.mp hreverse

@[simp] theorem length_littleEndian (n v : Nat) : (littleEndian n v).length = n := by
  induction n generalizing v with
  | zero => rfl
  | succ n ih => exact congrArg (· + 1) (ih (v / 256))

theorem littleEndian_add (m n v : Nat) :
    littleEndian (m + n) v = littleEndian m v ++ littleEndian n (v / 256 ^ m) := by
  induction m generalizing v with
  | zero => rw [Nat.zero_add, Nat.pow_zero, Nat.div_one]; rfl
  | succ m ih =>
    rw [Nat.add_right_comm, littleEndian, littleEndian, ih, Nat.div_div_eq_div_mul, Nat.pow_succ']
    rfl

/-- Higher bytes do not matter. -/
theorem littleEndian_mod (n v : Nat) : littleEndian n (v % 256 ^ n) = littleEndian n v := by
  induction n generalizing v with
  | zero => rfl
  | succ n ih =>
    have hlow : UInt8.ofNat (v % 256 ^ (n + 1)) = UInt8.ofNat v := by
      rw [← UInt8.toNat_inj, UInt8.toNat_ofNat', UInt8.toNat_ofNat']
      exact Nat.mod_mod_of_dvd v (Dvd.intro_left (256 ^ n) rfl)
    rw [littleEndian, littleEndian, hlow, Nat.pow_succ', Nat.mod_mul_right_div_self, ih]

/-- The bytes of an integer, turned around, are its lowest bytes. -/
theorem number_reverse_littleEndian (n v : Nat) :
    number 256 (littleEndian n v).reverse = v % 256 ^ n := by
  induction n generalizing v with
  | zero => exact (Nat.mod_one v).symm
  | succ n ih =>
    rw [littleEndian, List.reverse_cons, number_append, ih, number_singleton,
      List.length_singleton, Nat.pow_one, Nat.pow_succ', Nat.mod_mul, Nat.add_comm,
      Nat.mul_comm (v / 256 % 256 ^ n)]
    rfl

/-- The bytes of the number that a run is are the run, turned around. -/
theorem littleEndian_number (bs : List UInt8) :
    littleEndian bs.length (number 256 bs) = bs.reverse := by
  have hback : (littleEndian bs.length (number 256 bs)).reverse = bs := by
    refine number_inj (by rw [List.length_reverse, length_littleEndian]) ?_
    rw [number_reverse_littleEndian, Nat.mod_eq_of_lt (number_lt bs)]
  exact List.reverse_eq_iff.mp hback

/-! ## Texts -/

theorem utf8_inj {a b : String} (h : utf8 a = utf8 b) : a = b :=
  String.toByteArray_inj.mp (ByteArray.ext (Array.toList_inj.mp h))

end OpenAddressing.Hashing
