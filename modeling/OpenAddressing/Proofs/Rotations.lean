import OpenAddressing.Hashing.Hasher
import OpenAddressing.Proofs.Digits

/-!
# The identity hasher as one exclusive or

Every item that the identity hasher takes in turns its state by a byte and is laid over it.
A turn goes through an exclusive or (`rotl_xor`), so in the end each item has been turned by
a byte for every item behind it, and the hash is the exclusive or of all of them
(`foldl_identityMix`).

Eight bytes fill the state before any of them comes around to where another one is, and so
they are their number to base 256 (`toNat_mixed_bytes`); seven bytes of a text and the byte
that ends it are such eight. The sixteen bytes of the widest integers lie in two layers.
-/

namespace OpenAddressing.Hashing

open Hasher

/-! ## Turns -/

section

variable {x y : UInt64} {m n i : Nat}

theorem eq_of_bits (h : ∀ i < 64, x.toBitVec.getLsbD i = y.toBitVec.getLsbD i) : x = y :=
  UInt64.eq_of_toBitVec_eq (BitVec.eq_of_getLsbD_eq h)

/-- Where a bit has been before the turn. -/
theorem getLsbD_rotl (hi : i < 64) :
    (rotl x n).toBitVec.getLsbD i = x.toBitVec.getLsbD ((i + (64 - n % 64)) % 64) := by
  show (x.toBitVec.rotateLeft n).getLsbD i = _
  rw [BitVec.getLsbD_rotateLeft]
  by_cases hlow : i < n % 64
  · rw [decide_eq_true hlow, cond_true]
    congr 1
    omega
  · rw [decide_eq_false hlow, cond_false, decide_eq_true hi, Bool.true_and]
    congr 1
    omega

theorem rotl_xor : rotl (x ^^^ y) n = rotl x n ^^^ rotl y n := by
  refine eq_of_bits fun i hi => ?_
  rw [UInt64.toBitVec_xor, BitVec.getLsbD_xor, getLsbD_rotl hi, getLsbD_rotl hi, getLsbD_rotl hi,
    UInt64.toBitVec_xor, BitVec.getLsbD_xor]

theorem rotl_rotl : rotl (rotl x m) n = rotl x (m + n) := by
  refine eq_of_bits fun i hi => ?_
  rw [getLsbD_rotl hi, getLsbD_rotl (Nat.mod_lt _ (by decide)), getLsbD_rotl hi]
  congr 1
  omega

theorem rotl_mod : rotl x (n % 64) = rotl x n :=
  congrArg UInt64.ofBitVec BitVec.rotateLeft_mod_eq_rotateLeft

/-- A turn all around. -/
theorem rotl_of_mod_eq_zero (h : n % 64 = 0) : rotl x n = x := by
  refine eq_of_bits fun i hi => ?_
  rw [getLsbD_rotl hi, h]
  congr 1
  omega

theorem rotl_zero : rotl 0 n = 0 := by
  refine eq_of_bits fun i hi => ?_
  rw [getLsbD_rotl hi]
  exact BitVec.getLsbD_zero.trans BitVec.getLsbD_zero.symm

end

/-! ## Items -/

/-- The items that a part is for the identity hasher. -/
def Write.items : Write → List UInt64
  | .word .w128 v => (littleEndian 16 v.toNat).map UInt8.toUInt64
  | .word _ v => [UInt64.ofNat v.toNat]
  | .run bs => bs.map UInt8.toUInt64

/-- The items laid over each other, each turned by a byte for every item behind it. -/
def mixed (ns : List UInt64) : UInt64 :=
  (ns.mapIdx fun i n => rotl n (8 * (ns.length - 1 - i) % 64)).foldr (· ^^^ ·) 0

variable {ns ns' : List UInt64} {n s : UInt64} {bs : List UInt8}

theorem mixed_cons : mixed (n :: ns) = rotl n (8 * ns.length) ^^^ mixed ns := by
  have hrest : (ns.mapIdx fun i n => rotl n (8 * ((n :: ns).length - 1 - (i + 1)) % 64)) =
      ns.mapIdx fun i n => rotl n (8 * (ns.length - 1 - i) % 64) := by
    congr 1
    funext i n
    rw [List.length_cons, Nat.add_sub_cancel, Nat.add_comm i 1, Nat.sub_add_eq]
  unfold mixed
  rw [List.mapIdx_cons, List.foldr_cons]
  exact congrArg₂ (· ^^^ ·) rotl_mod (congrArg (List.foldr (· ^^^ ·) 0) hrest)

/-- The state after some items, whatever it was before. -/
theorem foldl_identityMix (ns : List UInt64) (s : UInt64) :
    ns.foldl identityMix s = rotl s (8 * ns.length) ^^^ mixed ns := by
  induction ns generalizing s with
  | nil =>
    rw [rotl_of_mod_eq_zero (by decide)]
    exact (UInt64.xor_zero).symm
  | cons n ns ih =>
    have hstep : identityMix s n = rotl s 8 ^^^ n := rfl
    rw [List.foldl_cons, ih, hstep, rotl_xor, rotl_rotl, mixed_cons, UInt64.xor_assoc,
      List.length_cons, Nat.mul_add, Nat.add_comm 8]

theorem mixed_eq_foldl : mixed ns = ns.foldl identityMix 0 := by
  rw [foldl_identityMix, rotl_zero, UInt64.zero_xor]

theorem mixed_append : mixed (ns ++ ns') = rotl (mixed ns) (8 * ns'.length) ^^^ mixed ns' := by
  rw [mixed_eq_foldl, List.foldl_append, foldl_identityMix, ← mixed_eq_foldl]

theorem mixed_singleton : mixed [n] = n := by
  rw [mixed_eq_foldl]
  show rotl 0 8 ^^^ n = n
  rw [rotl_zero, UInt64.zero_xor]

theorem identity_absorb (s : UInt64) (w : Write) :
    identity.absorb s w = w.items.foldl identityMix s := by
  cases w with
  | run bs => rfl
  | word width v => cases width <;> rfl

theorem identity_hashWrites (ws : List Write) :
    identity.hashWrites ws = mixed (ws.flatMap Write.items) := by
  have habsorb : identity.absorb = fun s w => w.items.foldl identityMix s := by
    funext s w
    exact identity_absorb s w
  rw [mixed_eq_foldl, List.foldl_flatMap, ← habsorb]
  rfl

/-! ## Bytes -/

/-- As long as the highest byte of the state is free, the next byte is one more digit. -/
theorem toNat_identityMix (h : s.toNat < 2 ^ 56) (b : UInt8) :
    (identityMix s b.toUInt64).toNat = s.toNat * 256 + b.toNat := by
  have hturned : (s.toBitVec.rotateLeft 8).toNat = 2 ^ 8 * s.toNat := by
    rw [BitVec.toNat_rotateLeft]
    show (s.toNat <<< 8 % 2 ^ 64) ||| s.toNat >>> 56 = 2 ^ 8 * s.toNat
    rw [Nat.shiftRight_eq_div_pow, Nat.div_eq_of_lt h, Nat.or_zero, Nat.shiftLeft_eq,
      Nat.mod_eq_of_lt (by omega), Nat.mul_comm]
  show (s.toBitVec.rotateLeft 8).toNat ^^^ b.toNat = _
  rw [hturned, Nat.mul_comm s.toNat]
  -- the digit and the others have no bit in common
  refine Nat.eq_of_testBit_eq fun i => ?_
  rw [Nat.testBit_xor, Nat.testBit_two_pow_mul]
  refine Eq.trans ?_ (Nat.testBit_two_pow_mul_add s.toNat b.toNat_lt i).symm
  by_cases hi : i < 8
  · rw [if_pos hi, decide_eq_false (by omega), Bool.false_and, Bool.false_xor]
  · have hhigh : b.toNat.testBit i = false :=
      Nat.testBit_lt_two_pow (Nat.lt_of_lt_of_le b.toNat_lt
        (Nat.pow_le_pow_right (by decide) (Nat.le_of_not_lt hi)))
    rw [if_neg hi, decide_eq_true (Nat.le_of_not_lt hi), Bool.true_and, hhigh, Bool.xor_false]

/-- Eight bytes at most do not come around. -/
theorem toNat_mixed_bytes (h : bs.length ≤ 8) :
    (mixed (bs.map UInt8.toUInt64)).toNat = number 256 bs := by
  induction bs using List.reverseRecOn with
  | nil => rfl
  | append_singleton bs b ih =>
    rw [List.length_append, List.length_singleton] at h
    have hsmall : number 256 bs < 256 ^ 7 :=
      Nat.lt_of_lt_of_le (number_lt bs) (Nat.pow_le_pow_right (by decide) (by omega))
    have hstep : mixed ((bs ++ [b]).map UInt8.toUInt64) =
        identityMix (mixed (bs.map UInt8.toUInt64)) b.toUInt64 := by
      rw [mixed_eq_foldl, List.map_append, List.foldl_append, ← mixed_eq_foldl]
      rfl
    rw [hstep, toNat_identityMix (by rw [ih (by omega)]; exact hsmall), ih (by omega),
      number_append, number_singleton]
    rfl

/-- The word with its bytes turned around. -/
def byteSwap (x : UInt64) : UInt64 := UInt64.ofNat (number 256 (littleEndian 8 x.toNat))

theorem ofBitVec_extract (v : BitVec 128) (k : Nat) :
    UInt64.ofBitVec (v.extractLsb' k 64) = UInt64.ofNat (v.toNat / 2 ^ k) := by
  rw [← UInt64.toNat_inj, UInt64.toNat_ofNat']
  show (v.extractLsb' k 64).toNat = _
  rw [BitVec.extractLsb'_toNat, Nat.shiftRight_eq_div_pow]

theorem toNat_byteSwap (x : UInt64) :
    (byteSwap x).toNat = number 256 (littleEndian 8 x.toNat) := by
  have hlt := number_lt (littleEndian 8 x.toNat)
  rw [length_littleEndian] at hlt
  exact UInt64.toNat_ofNat'.trans (Nat.mod_eq_of_lt hlt)

theorem littleEndian_byteSwap (x : UInt64) :
    littleEndian 8 (byteSwap x).toNat = (littleEndian 8 x.toNat).reverse := by
  have hbytes := littleEndian_number (littleEndian 8 x.toNat)
  rw [length_littleEndian] at hbytes
  rw [toNat_byteSwap, hbytes]

theorem mixed_littleEndian (v : Nat) :
    mixed ((littleEndian 8 v).map UInt8.toUInt64) = byteSwap (UInt64.ofNat v) := by
  have hlow : littleEndian 8 (UInt64.ofNat v).toNat = littleEndian 8 v := littleEndian_mod 8 v
  have hlength : (littleEndian 8 v).length ≤ 8 := Nat.le_of_eq (length_littleEndian 8 v)
  rw [← UInt64.toNat_inj, toNat_byteSwap, hlow, toNat_mixed_bytes hlength]

/-! ## Values -/

theorem toNat_identity_word {w : Width} (hw : w ≠ .w128) (v : BitVec w.bits) :
    (identity.hashOne (.word w v)).toNat = v.toNat := by
  have hitems : (Write.word w v).items = [UInt64.ofNat v.toNat] := by
    cases w with
    | w128 => exact absurd rfl hw
    | _ => rfl
  have hlt : v.toNat < 2 ^ 64 := by
    refine Nat.lt_of_lt_of_le v.isLt (Nat.pow_le_pow_right (by decide) ?_)
    cases w with
    | w128 => exact absurd rfl hw
    | _ => decide
  show (identity.hashWrites [.word w v]).toNat = _
  rw [identity_hashWrites, List.flatMap_singleton, hitems, mixed_singleton, UInt64.toNat_ofNat',
    Nat.mod_eq_of_lt hlt]

theorem toNat_identity_runs {bss : List (List UInt8)} (h : bss.flatten.length ≤ 8) :
    (identity.hashWrites (bss.map .run)).toNat = number 256 bss.flatten := by
  have hitems : (bss.map Write.run).flatMap Write.items = bss.flatten.map UInt8.toUInt64 := by
    rw [List.flatMap_map, List.map_flatten]
    rfl
  rw [identity_hashWrites, hitems, toNat_mixed_bytes h]

/-- Eight more bytes turn the first eight once around. -/
theorem identity_wide (v : BitVec 128) :
    identity.hashOne (.word .w128 v) =
      byteSwap (.ofBitVec (v.extractLsb' 0 64)) ^^^ byteSwap (.ofBitVec (v.extractLsb' 64 64)) := by
  have hitems : (Datum.word .w128 v).writes.flatMap Write.items =
      (littleEndian 8 v.toNat).map UInt8.toUInt64 ++
        (littleEndian 8 (v.toNat / 2 ^ 64)).map UInt8.toUInt64 := by
    rw [← List.map_append, show 2 ^ 64 = 256 ^ 8 by decide, ← littleEndian_add]
    exact List.append_nil _
  show identity.hashWrites (Datum.word .w128 v).writes = _
  rw [identity_hashWrites, hitems, mixed_append, mixed_littleEndian, mixed_littleEndian,
    List.length_map, length_littleEndian, rotl_of_mod_eq_zero (by decide), ofBitVec_extract,
    ofBitVec_extract, Nat.pow_zero, Nat.div_one]

/-- A text that leaves room for the byte that ends it. -/
theorem toNat_identity_text {a : String} (h : (utf8 a).length ≤ 7) :
    (identity.hashOne (.text a)).toNat = number 256 (utf8 a ++ [0xff]) := by
  have hitems : (Datum.text a).writes.flatMap Write.items =
      (utf8 a ++ [0xff]).map UInt8.toUInt64 := by
    rw [List.map_append]
    rfl
  show (identity.hashWrites (Datum.text a).writes).toNat = _
  rw [identity_hashWrites, hitems]
  refine toNat_mixed_bytes ?_
  rw [List.length_append, List.length_singleton]
  omega

theorem identity_text_inj {a b : String} (hlength : (utf8 a).length = (utf8 b).length)
    (h : (utf8 a).length ≤ 7) (heq : identity.hashOne (.text a) = identity.hashOne (.text b)) :
    a = b := by
  have hnumber : number 256 (utf8 a ++ [0xff]) = number 256 (utf8 b ++ [0xff]) := by
    rw [← toNat_identity_text h, ← toNat_identity_text (by omega), heq]
  have hended : (utf8 a ++ [0xff]).length = (utf8 b ++ [0xff]).length := by
    rw [List.length_append, List.length_append, hlength]
  exact utf8_inj (List.append_cancel_right (number_inj hended hnumber))

/-- The hash of a sequence of parts is the exclusive or of its items, each turned left by
eight bits for every item behind it, modulo 64. Bytes of runs are items one by one, and
integers as a whole, except for the widest ones, which are sixteen bytes, lowest first.

So an integer of at most 64 bits is its own hash, and runs of eight bytes at most together
have the number as their hash that they are with the highest byte first. The hash of one of
the widest integers is the exclusive or of its halves, with the bytes of both turned around.
A text of seven bytes at most is still there with the byte that ends it, so that those of
one length have different hashes. -/
theorem identity_closed_form :
    (∀ ws : List Write, let ns := ws.flatMap Write.items
      identity.hashWrites ws =
        (ns.mapIdx fun i n => rotl n (8 * (ns.length - 1 - i) % 64)).foldr (· ^^^ ·) 0) ∧
    (∀ (w : Width) (v : BitVec w.bits), w ≠ .w128 →
      (identity.hashOne (.word w v)).toNat = v.toNat) ∧
    (∀ bss : List (List UInt8), bss.flatten.length ≤ 8 →
      (identity.hashWrites (bss.map .run)).toNat = number 256 bss.flatten) ∧
    (∀ v : BitVec 128, identity.hashOne (.word .w128 v) =
      byteSwap (.ofBitVec (v.extractLsb' 0 64)) ^^^ byteSwap (.ofBitVec (v.extractLsb' 64 64))) ∧
    ∀ a : String, (utf8 a).length ≤ 7 →
      (identity.hashOne (.text a)).toNat = 256 * number 256 (utf8 a) + 255 ∧
      ∀ b : String, (utf8 a).length = (utf8 b).length →
        identity.hashOne (.text a) = identity.hashOne (.text b) → a = b := by
  refine ⟨identity_hashWrites, fun w v hw => toNat_identity_word hw v,
    fun bss h => toNat_identity_runs h, identity_wide, fun a h => ⟨?_, fun b hlength heq => ?_⟩⟩
  · rw [toNat_identity_text h, number_append, number_singleton, Nat.mul_comm]
    rfl
  · exact identity_text_inj hlength h heq

/-- Integers, runs and texts at once. -/
theorem identity_closed_form_texts :
    (identity.hashOne (.word .w32 7)).toNat = 7 ∧
      (identity.hashWrites [.run [1], .run [2]]).toNat = 0x0102 ∧
      (identity.hashOne (.text "ab")).toNat = 0x6162ff ∧
      identity.hashOne (.text "ab") ≠ identity.hashOne (.text "ba") := by
  obtain ⟨_, hwords, hruns, _, htexts⟩ := identity_closed_form
  obtain ⟨hvalue, hinj⟩ := htexts "ab" (by decide)
  refine ⟨hwords .w32 7 (by decide), hruns [[1], [2]] (by decide), hvalue, fun heq => ?_⟩
  exact absurd (hinj "ba" (by decide) heq) (by decide)

end OpenAddressing.Hashing
