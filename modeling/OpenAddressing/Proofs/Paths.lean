import OpenAddressing.Table
import OpenAddressing.Probe
import Mathlib.Data.Finset.Card

/-!
# The path of a probe function

`nth? p c i j` is the bucket that `j` steps of the probe function lead to from bucket
`i`, in a table of `c` buckets. It is there as long as every step so far has answered
with a bucket of the table; a probe function that leaves the table or gives up ends
its path.

Two classes of probe functions matter. `InRange` ones never leave the table, so their
paths go on for ever, and since there are only `c` buckets a lap of `c` steps has seen
all that a path will ever see (`InRange.exists_lt_of_nth?`). `Covers` asks that a lap
sees every bucket, from every start; probing linearly does (`linear_covers`).
-/

namespace OpenAddressing.Probe

variable {p : Probe} {c i j x : Nat}

/-- The bucket after `i`, if the probe function answers with a bucket of the table. -/
def next? (p : Probe) (c i : Nat) : Option Nat :=
  match p i c with
  | .ok next => if next < c then some next else none
  | .error _ => none

/-- The bucket that `j` steps lead to from bucket `i`. -/
def nth? (p : Probe) (c i : Nat) : (j : Nat) → Option Nat
  | 0 => some i
  | j + 1 => (p.nth? c i j).bind (p.next? c)

/-- No step from a bucket of the table leaves the table. -/
def InRange (p : Probe) (c : Nat) : Prop := ∀ i < c, ∃ next, p i c = .ok next ∧ next < c

/-- No step leaves the table, and a lap from any bucket visits every bucket. -/
structure Covers (p : Probe) (c : Nat) : Prop where
  inRange : p.InRange c
  visits : ∀ start < c, ∀ i < c, ∃ j < c, p.nth? c start j = some i

theorem home_lt {hash : UInt64} (hc : 0 < c) : home hash c < c := Nat.mod_lt _ hc

theorem next?_eq_some_iff : p.next? c i = some x ↔ p i c = .ok x ∧ x < c := by
  unfold next?
  split
  · rename_i next hnext
    rw [hnext]
    split <;> simp <;> omega
  · rename_i f hf
    simp [hf]

theorem nth?_succ : p.nth? c i (j + 1) = (p.next? c i).bind fun i' => p.nth? c i' j := by
  induction j with
  | zero =>
    show p.next? c i = (p.next? c i).bind some
    exact (Option.bind_fun_some _).symm
  | succ j ih =>
    show (p.nth? c i (j + 1)).bind (p.next? c) = _
    rw [ih]
    cases p.next? c i <;> rfl

theorem nth?_add {k : Nat} : p.nth? c i (j + k) = (p.nth? c i j).bind fun x => p.nth? c x k := by
  induction k with
  | zero =>
    show p.nth? c i j = (p.nth? c i j).bind some
    exact (Option.bind_fun_some _).symm
  | succ k ih =>
    show (p.nth? c i (j + k)).bind (p.next? c) = _
    rw [ih]
    cases p.nth? c i j <;> rfl

/-- A path goes on as the path of a bucket that it has come to. -/
theorem nth?_add_of {k : Nat} (hx : p.nth? c i j = some x) :
    p.nth? c i (j + k) = p.nth? c x k := by
  rw [nth?_add, hx]
  rfl

theorem nth?_lt (hi : i < c) (h : p.nth? c i j = some x) : x < c := by
  cases j with
  | zero => exact Option.some.inj h ▸ hi
  | succ j =>
    obtain ⟨y, _, hy⟩ := Option.bind_eq_some_iff.mp h
    exact (next?_eq_some_iff.mp hy).2

/-- A path that is there after `j` steps has been there all along. -/
theorem exists_nth?_of_le {k : Nat} (h : p.nth? c i j = some x) (hk : k ≤ j) :
    ∃ y, p.nth? c i k = some y := by
  obtain ⟨m, rfl⟩ := Nat.exists_eq_add_of_le hk
  rw [nth?_add] at h
  obtain ⟨y, hy, _⟩ := Option.bind_eq_some_iff.mp h
  exact ⟨y, hy⟩

/-! ## Paths that never end -/

theorem InRange.exists_next? (h : p.InRange c) (hi : i < c) : ∃ x, p.next? c i = some x := by
  obtain ⟨next, hp, hlt⟩ := h i hi
  exact ⟨next, next?_eq_some_iff.mpr ⟨hp, hlt⟩⟩

theorem InRange.exists_nth? (h : p.InRange c) (hi : i < c) (j : Nat) :
    ∃ x, p.nth? c i j = some x := by
  induction j with
  | zero => exact ⟨i, rfl⟩
  | succ j ih =>
    obtain ⟨x, hx⟩ := ih
    obtain ⟨y, hy⟩ := h.exists_next? (nth?_lt hi hx)
    exact ⟨y, by show (p.nth? c i j).bind (p.next? c) = _; rw [hx]; exact hy⟩

/-- Within a lap a path comes back to a bucket that it has seen. -/
theorem InRange.exists_repeat (h : p.InRange c) (hi : i < c) :
    ∃ a b, a < b ∧ b ≤ c ∧ p.nth? c i a = p.nth? c i b := by
  -- a lap is one visit more than there are buckets
  have hcard : (Finset.range c).card < (Finset.range (c + 1)).card := by
    rw [Finset.card_range, Finset.card_range]; omega
  obtain ⟨a, ha, b, hb, hne, heq⟩ := Finset.exists_ne_map_eq_of_card_lt_of_maps_to hcard
    (f := fun j => (p.nth? c i j).getD 0) (by
      intro j _
      obtain ⟨x, hx⟩ := h.exists_nth? hi j
      simp only [hx, Option.getD_some]
      exact Finset.mem_coe.mpr (Finset.mem_range.mpr (nth?_lt hi hx)))
  obtain ⟨x, hx⟩ := h.exists_nth? hi a
  obtain ⟨y, hy⟩ := h.exists_nth? hi b
  have hxy : x = y := by simpa [hx, hy] using heq
  have hab : p.nth? c i a = p.nth? c i b := by rw [hx, hy, hxy]
  have ha' : a < c + 1 := Finset.mem_range.mp ha
  have hb' : b < c + 1 := Finset.mem_range.mp hb
  rcases Nat.lt_or_gt_of_ne hne with hlt | hgt
  · exact ⟨a, b, hlt, by omega, hab⟩
  · exact ⟨b, a, hgt, by omega, hab.symm⟩

/-- What a path ever visits, it visits within a lap. -/
theorem InRange.exists_lt_of_nth? (h : p.InRange c) (hi : i < c) (hx : p.nth? c i j = some x) :
    ∃ k < c, p.nth? c i k = some x := by
  induction j using Nat.strongRecOn with
  | ind j ih =>
    rcases Nat.lt_or_ge j c with hlt | hge
    · exact ⟨j, hlt, hx⟩
    · -- past the lap, the stretch between the two visits of one bucket can be cut out
      obtain ⟨a, b, hab, hbc, heq⟩ := h.exists_repeat hi
      refine ih (j - (b - a)) (by omega) ?_
      have hcut : p.nth? c i (a + (j - b)) = p.nth? c i (b + (j - b)) := by
        rw [nth?_add, nth?_add, heq]
      rw [show b + (j - b) = j by omega, hx] at hcut
      rw [show j - (b - a) = a + (j - b) by omega]
      exact hcut

/-! ## Probing linearly -/

theorem linear_eq (hi : i < c) (hc : c < Word.limit) : linear i c = .ok ((i + 1) % c) := by
  show (Word.add i 1 >>= fun n => Word.rem n c) = _
  rw [Word.add_of_lt (by omega)]
  exact Word.rem_of_pos (by omega)

theorem nth?_linear (hi : i < c) (hc : c < Word.limit) :
    linear.nth? c i j = some ((i + j) % c) := by
  induction j with
  | zero => rw [Nat.add_zero, Nat.mod_eq_of_lt hi]; rfl
  | succ j ih =>
    have hlt : (i + j) % c < c := Nat.mod_lt _ (by omega)
    show (linear.nth? c i j).bind (linear.next? c) = _
    rw [ih]
    refine next?_eq_some_iff.mpr ⟨?_, Nat.mod_lt _ (by omega)⟩
    rw [linear_eq hlt hc, Nat.mod_add_mod, Nat.add_assoc]

/-- Probing linearly visits every bucket of every table that fits a machine word. -/
theorem linear_covers (hc : c < Word.limit) : linear.Covers c where
  inRange := fun i hi => ⟨_, linear_eq hi hc, Nat.mod_lt _ (by omega)⟩
  visits := by
    intro start hstart i hi
    -- a bucket before the start is reached around the end of the table
    rcases Nat.lt_or_ge i start with hlt | hge
    · refine ⟨i + c - start, by omega, ?_⟩
      rw [nth?_linear hstart hc, show start + (i + c - start) = i + c by omega,
        Nat.add_mod_right, Nat.mod_eq_of_lt hi]
    · refine ⟨i - start, by omega, ?_⟩
      rw [nth?_linear hstart hc, show start + (i - start) = i by omega, Nat.mod_eq_of_lt hi]

end OpenAddressing.Probe
