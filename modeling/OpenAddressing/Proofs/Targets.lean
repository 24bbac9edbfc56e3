import OpenAddressing.Proofs.Frames
import OpenAddressing.Proofs.Rebuilds
import Mathlib.Algebra.Ring.Nat
import Mathlib.Order.Bounds.Defs

/-!
# What is asked for and what is built

Three calls may rebuild the array: a rehash, a reservation and an insertion that makes
room. A `Demand` is one of them, and `Table.target` is the capacity that it leads to, a
plain function of the counters and the capacity. With bounded counters none of the sums
and products behind that decision overflows, so that each of the three calls is nothing
but a rebuild at its target, or no call at all (`World.meet_eq`).

The capacity that a reservation asks for is the least power of two that is large enough
(`Word.isLeast_ceilPow2`).
-/

namespace OpenAddressing

open Act

namespace Word

theorem ceilPow2_le {n k : Nat} (h : n ≤ 2 ^ k) : ceilPow2 n ≤ 2 ^ k := by
  unfold ceilPow2
  split
  · exact Nat.one_le_two_pow
  · rename_i hn
    have hlog : Nat.log2 (n - 1) < k := (Nat.log2_lt (by omega)).mpr (by omega)
    rw [Nat.one_shiftLeft]
    exact Nat.pow_le_pow_right (by omega) hlog

theorem isLeast_ceilPow2 (n : Nat) : IsLeast {c | (∃ k, c = 2 ^ k) ∧ n ≤ c} (ceilPow2 n) := by
  refine ⟨⟨?_, le_ceilPow2 n⟩, ?_⟩
  · unfold ceilPow2
    split
    · exact ⟨0, rfl⟩
    · exact ⟨_, Nat.one_shiftLeft _⟩
  · rintro c ⟨⟨k, rfl⟩, hle⟩
    exact ceilPow2_le hle

end Word

/-- The calls that may rebuild the array. -/
inductive Demand where
  | rehash (request : Nat)
  | reserve (extra : Nat)
  /-- Room for one more entry. -/
  | insertion

namespace Table

variable {K V : Type} {t : Table K V} {extra : Nat}

/-- The least power of two that takes `extra` entries beside the live ones. -/
def reserved (t : Table K V) (extra : Nat) : Nat := Word.ceilPow2 (4 * (t.live + extra) / 3 + 1)

/-- The capacity at which the array is rebuilt, if it is. -/
def target (t : Table K V) : Demand → Option Nat
  | .rehash request => World.rehashTarget t.capacity request
  | .reserve extra =>
      if extra = 0 then none
      else if t.capacity < t.reserved extra then some (t.reserved extra)
      else if 4 * (t.live + t.tombs + extra) < 3 * t.capacity then none
      else some t.capacity
  | .insertion =>
      if t.capacity = 0 then some defaultCapacity
      else if 4 * (t.live + t.tombs + 1) < 3 * t.capacity then none
      else some (2 * t.capacity)

theorem target_reserve : t.target (.reserve extra) =
    if extra = 0 then none
    else if t.capacity < t.reserved extra then some (t.reserved extra)
    else if 4 * (t.live + t.tombs + extra) < 3 * t.capacity then none
    else some t.capacity := rfl

theorem target_insertion : t.target .insertion =
    if t.capacity = 0 then some defaultCapacity
    else if 4 * (t.live + t.tombs + 1) < 3 * t.capacity then none
    else some (2 * t.capacity) := rfl

theorem isLeast_reserved (t : Table K V) (extra : Nat) :
    IsLeast {c | (∃ k, c = 2 ^ k) ∧ 4 * (t.live + extra) < 3 * c} (t.reserved extra) := by
  have hload : ∀ c, 4 * (t.live + extra) < 3 * c ↔ 4 * (t.live + extra) / 3 + 1 ≤ c := by
    intro c; omega
  simp only [hload]
  exact Word.isLeast_ceilPow2 _

theorem lt_reserved (t : Table K V) (extra : Nat) : 4 * (t.live + extra) < 3 * t.reserved extra :=
  (t.isLeast_reserved extra).1.2

/-- A request that does not fit a word is one for too many buckets. -/
theorem limit_le_reserved (h : Word.limit ≤ 4 * (t.live + extra)) :
    capacityLimit ≤ t.reserved extra := by
  have hload := t.lt_reserved extra
  have hlimit := limit_eq
  omega

theorem reservedCapacity_of_lt (h : 4 * (t.live + extra) < Word.limit) :
    World.reservedCapacity (t.live + extra) = .ok (t.reserved extra) := by
  have hle : t.reserved extra ≤ 2 ^ 63 := Word.ceilPow2_le (by
    have hlimit : Word.limit = 2 ^ 64 := by decide
    omega)
  have hlt : t.reserved extra < Word.limit := Nat.lt_of_le_of_lt hle (by decide)
  rw [World.reservedCapacity_eq]
  exact if_pos ⟨h, hlt⟩

/-- Only a table that has no room for one more entry is rebuilt for it. -/
theorem target_of_roomy (h : t.Roomy) : t.target .insertion = none := by
  unfold Roomy at h
  rw [target_insertion, if_neg (by omega), if_pos h]

theorem roomy_of_target (h : t.target .insertion = none) : t.Roomy := by
  rw [target_insertion] at h
  split at h
  · exact absurd h (by simp)
  · split at h
    · rename_i hroom; exact hroom
    · exact absurd h (by simp)

/-- What is demanded is never less than what there is, and never nothing. -/
theorem le_target {d : Demand} {c : Nat} (h : t.target d = some c) : t.capacity ≤ c ∧ 0 < c := by
  cases d with
  | rehash request => exact World.rehashTarget_eq_some h
  | reserve extra =>
    have hload := t.lt_reserved extra
    rw [target_reserve] at h
    split at h
    · exact absurd h (by simp)
    · split at h
      · have := Option.some.inj h; omega
      · split at h
        · exact absurd h (by simp)
        · have := Option.some.inj h; omega
  | insertion =>
    rw [target_insertion] at h
    split at h
    · have hc : defaultCapacity = c := Option.some.inj h
      have hpos : 0 < defaultCapacity := by decide
      omega
    · split at h
      · exact absurd h (by simp)
      · have := Option.some.inj h; omega

end Table

namespace World

variable {K V τ : Type} {cb : Callbacks K V τ} {s : Strategy K} {w : World K V τ} {c : Nat}

/-- The call that makes the demand. -/
def meet (cb : Callbacks K V τ) : Demand → Act (World K V τ) Unit
  | .rehash request => rehash cb request
  | .reserve extra => reserve cb extra
  | .insertion => makeRoom cb

/-- A rebuild at its target, if there is one. -/
def rebuildAt (cb : Callbacks K V τ) : Option Nat → Act (World K V τ) Unit
  | none => pure ()
  | some c => rebuild cb c

theorem rehash_eq {request : Nat} :
    rehash cb request w = rebuildAt cb (rehashTarget w.table.capacity request) w := by
  cases htarget : rehashTarget w.table.capacity request with
  | none => exact rehash_of_none htarget
  | some c => exact rehash_of_some htarget

/-- Too many buckets are refused before anything has happened. -/
theorem rebuild_of_limit_le (h : cb.limit.capacity ≤ c) :
    rebuild cb c w = .error .capacityOverflow w := by
  unfold rebuild require
  rw [if_neg (by omega)]
  rfl

theorem reserve_eq (hw : w.table.Bounded) {extra : Nat} :
    reserve cb extra w = rebuildAt cb (w.table.target (.reserve extra)) w := by
  have hcap := hw.capacity_lt
  have hload := w.table.lt_reserved extra
  unfold reserve
  rw [Table.target_reserve]
  by_cases h0 : extra = 0
  · rw [if_pos h0, if_pos h0]; rfl
  · rw [if_neg h0, if_neg h0, get_bind]
    rcases Nat.lt_or_ge (4 * (w.table.live + extra)) Word.limit with hfits | hover
    · rw [Table.reservedCapacity_of_lt hfits]
      show (if w.table.capacity < w.table.reserved extra then rehash cb (w.table.reserved extra)
        else lift (w.table.hasRoomFor extra) >>= fun roomy =>
          if !roomy then rehash cb 0 else pure ()) w = _
      split
      · rename_i hlt
        rw [rehash_eq]
        unfold rehashTarget
        rw [if_neg (by omega), if_neg (by omega)]
      · rename_i hge
        rw [Table.hasRoomFor_eq hw (by have := hw.load; omega)]
        show (if !decide _ then rehash cb 0 else pure ()) w = _
        split
        · rename_i hfull
          rw [if_neg (by simpa using hfull), rehash_eq]
          unfold rehashTarget
          rw [if_pos rfl, if_neg (by omega)]
        · rename_i hroom
          rw [if_pos (by simpa using hroom)]
          rfl
    · -- the sum that the request comes to does not fit a word, and nor does the capacity
      have hlarge := Table.limit_le_reserved hover
      have hlimit := cb.limit.capacity_le
      rw [if_pos (by omega)]
      show _ = rebuild cb (w.table.reserved extra) w
      rw [rebuild_of_limit_le (by omega)]
      rw [reservedCapacity_eq, if_neg (by omega)]
      rfl

theorem makeRoom_eq (hw : w.table.Bounded) :
    makeRoom cb w = rebuildAt cb (w.table.target .insertion) w := by
  have hcap := hw.capacity_lt
  have hlimit := Table.limit_eq
  unfold makeRoom
  rw [Table.target_insertion, get_bind]
  split
  · rename_i h0
    rw [rehash_eq, h0]
    rfl
  · rename_i hpos
    rw [Table.hasRoomFor_eq hw hw.counters_lt]
    show (if !decide _ then (if 2 * w.table.capacity < Word.limit then rehash cb
      (2 * w.table.capacity) else throw .capacityOverflow) else pure ()) w = _
    split
    · rename_i hfull
      have hfits : 2 * w.table.capacity < Word.limit := by omega
      rw [if_pos hfits, rehash_eq, if_neg (by simpa using hfull)]
      unfold rehashTarget
      rw [if_neg (by omega), if_neg (by omega)]
    · rename_i hroom
      rw [if_pos (by simpa using hroom)]
      rfl

/-- With bounded counters each demand is met by a rebuild at its target. -/
theorem meet_eq (hw : w.table.Bounded) (d : Demand) :
    meet cb d w = rebuildAt cb (w.table.target d) w := by
  cases d with
  | rehash request => exact rehash_eq
  | reserve extra => exact reserve_eq hw
  | insertion => exact makeRoom_eq hw

/-! ## What a rebuild does to the heap -/

/-- A rebuild takes one block and gives the old one back, whether it returns or stops. -/
theorem rebuild_heap (hkeeps : cb.Keeps fun w => w.heap) (hc : c < cb.limit.capacity) :
    (rebuild cb c).Ends w
      (fun _ w' => w'.heap = w.heap.allocate.freeBuckets w.table.capacity)
      fun _ w' => w'.heap = w.heap.allocate.freeBuckets w.table.capacity := by
  unfold rebuild
  rw [ends_bind, ends_require]
  refine ⟨fun _ => ?_, fun hge => absurd hc hge⟩
  simp only [ends_bind, ends_get, ends_modify, ends_andFinally, ends_require]
  have hplace : Keeps (fun w => w.heap) (w.table.entries.forM (place cb)) :=
    Keeps.forM fun _ => place_keeps (fun _ _ => rfl) hkeeps
  have hfreed : ∀ w' : World K V τ, w'.heap = w.heap.allocate →
      w'.heap.freeBuckets w.table.capacity = w.heap.allocate.freeBuckets w.table.capacity :=
    fun w' h => by rw [h]
  refine (hplace _).imp (fun _ w' h => ?_) (fun _ w' h => hfreed w' h)
  exact ⟨fun _ => hfreed w' h, fun _ => hfreed w' h⟩

/-! ## What becomes of a demand -/

/-- A demand has been met: nothing was to be done, or all entries have been moved to a new
array. -/
inductive Met (s : Strategy K) (d : Demand) (w w' : World K V τ) : Prop where
  | asIs : w.table.target d = none → w' = w → Met s d w w'
  | rebuilt {c : Nat} : w.table.target d = some c → c < s.limit.capacity → w.SameRest w' →
      Table.Packed s.probe c w.table.entries w'.table →
      w.table.entries.length = w.table.live →
      w'.heap = w.heap.allocate.freeBuckets w.table.capacity → Met s d w w'

/-- A demand has not been met: it was for too many buckets and nothing has happened, or the
array has been taken and the move into it has stopped. -/
inductive Unmet (s : Strategy K) (d : Demand) (w w' : World K V τ) : Fault → Prop where
  | refused {c : Nat} : w.table.target d = some c → s.limit.capacity ≤ c → w' = w →
      Unmet s d w w' .capacityOverflow
  | stopped {f : Fault} {c : Nat} : w.table.target d = some c → c < s.limit.capacity →
      w.SameRest w' → Table.RebuildStop s c w.table w'.table f →
      w'.heap = w.heap.allocate.freeBuckets w.table.capacity → Unmet s d w w' f

theorem meet_ends (hcb : cb.Plain s) (hkeeps : cb.Keeps fun w => w.heap) (hw : w.table.Bounded)
    (d : Demand) :
    (meet cb d).Ends w (fun _ w' => Met s d w w') fun f w' => Unmet s d w w' f := by
  unfold Ends
  rw [meet_eq hw]
  cases htarget : w.table.target d with
  | none => exact .asIs htarget rfl
  | some c =>
    obtain ⟨_, hpos⟩ := Table.le_target htarget
    rcases Nat.lt_or_ge c s.limit.capacity with hlim | hge
    · refine ((rebuild_ends hcb hpos).and (rebuild_heap hkeeps (hcb.limit ▸ hlim))).imp
        (fun _ w' h => ?_) (fun f w' h => ?_)
      · obtain ⟨⟨hrest, _, hpacked, hcount⟩, hheap⟩ := h
        exact .rebuilt htarget hlim hrest hpacked hcount hheap
      · obtain ⟨⟨hrest, hstop⟩, hheap⟩ := h
        exact .stopped htarget hlim hrest hstop hheap
    · have hrun : rebuildAt cb (some c) w = .error .capacityOverflow w :=
        rebuild_of_limit_le (hcb.limit ▸ hge)
      rw [hrun]
      exact .refused htarget hge rfl

end World

/-- Blocks that are given back have been taken before. -/
@[simp] theorem Heap.allocated_freeBuckets {h : Heap} {capacity : Nat} :
    (h.freeBuckets capacity).allocated = h.allocated := by
  unfold Heap.freeBuckets
  split <;> rfl

end OpenAddressing
