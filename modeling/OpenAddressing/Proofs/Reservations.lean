import OpenAddressing.Proofs.Limits
import OpenAddressing.Proofs.Loads

/-!
# What a reservation promises

A reservation for `n` entries is made good in one of three ways. The table has the quota
for them, and nothing happens. Or it would have it without its tombstones, and is rebuilt
at the capacity it has. Or it is too small, and is rebuilt at the least power of two that
takes the live entries and the `n` others.

Either way, the table that a reservation leaves behind when it returns has the quota for
`n` insertions (`Met.quota`), and what the next requests may do to it is known from
`OpenAddressing.Proofs.Loads`.
-/

namespace OpenAddressing

open Act World

namespace Table

variable {K V : Type} {t : Table K V} {extra : Nat}

/-- A reservation finds the quota, or leads to the larger one of two capacities. -/
theorem target_reserve_cases (hextra : extra ≠ 0) :
    (t.target (.reserve extra) = none ∧ t.reserved extra ≤ t.capacity ∧
      4 * (t.live + t.tombs + extra) < 3 * t.capacity) ∨
    (t.target (.reserve extra) = some (max (t.reserved extra) t.capacity) ∧
      (t.capacity < t.reserved extra ∨
        3 * t.capacity ≤ 4 * (t.live + t.tombs + extra))) := by
  rw [target_reserve, if_neg hextra]
  by_cases hsmall : t.capacity < t.reserved extra
  · rw [if_pos hsmall, Nat.max_eq_left (by omega)]
    exact Or.inr ⟨rfl, Or.inl hsmall⟩
  · rw [if_neg hsmall, Nat.max_eq_right (by omega)]
    by_cases hroom : 4 * (t.live + t.tombs + extra) < 3 * t.capacity
    · rw [if_pos hroom]
      exact Or.inl ⟨rfl, by omega, hroom⟩
    · rw [if_neg hroom]
      exact Or.inr ⟨rfl, Or.inr (by omega)⟩

theorem target_reserve_eq_some {c : Nat} (hextra : extra ≠ 0)
    (h : t.target (.reserve extra) = some c) :
    c = max (t.reserved extra) t.capacity ∧
      (t.capacity < t.reserved extra ∨ 3 * t.capacity ≤ 4 * (t.live + t.tombs + extra)) := by
  rcases target_reserve_cases (t := t) hextra with ⟨hnone, _⟩ | ⟨hsome, hwhy⟩
  · rw [hnone] at h; exact absurd h (by simp)
  · rw [hsome] at h
    exact ⟨(Option.some.inj h).symm, hwhy⟩

theorem target_reserve_eq_none (hextra : extra ≠ 0) (h : t.target (.reserve extra) = none) :
    t.reserved extra ≤ t.capacity ∧ 4 * (t.live + t.tombs + extra) < 3 * t.capacity := by
  rcases target_reserve_cases (t := t) hextra with ⟨_, hroom⟩ | ⟨hsome, _⟩
  · exact hroom
  · rw [hsome] at h; exact absurd h (by simp)

end Table

namespace World

variable {K V τ : Type} {s : Strategy K} {w w' : World K V τ} {extra : Nat} {f : Fault}

/-- A reservation that returns has kept its promise. -/
theorem Met.quota (h : Met s (.reserve extra) w w') : w'.table.Quota extra := by
  rcases Nat.eq_zero_or_pos extra with h0 | hpos
  · exact Or.inl h0
  · have hextra : extra ≠ 0 := by omega
    refine Or.inr ?_
    unfold Table.load
    cases h with
    | asIs htarget hw =>
      rw [hw]
      exact (Table.target_reserve_eq_none hextra htarget).2
    | rebuilt htarget _ _ hpacked hcount _ =>
      have hc := (Table.target_reserve_eq_some hextra htarget).1
      have hload := w.table.lt_reserved extra
      have hle : w.table.reserved extra ≤ max (w.table.reserved extra) w.table.capacity :=
        Nat.le_max_left _ _
      rw [hpacked.capacity_eq, hpacked.live_eq, hpacked.tombs_eq]
      omega

/-- Whether an array was taken is decided by the counters alone. -/
theorem Met.allocated_ne_iff (h : Met s (.reserve extra) w w') (hextra : extra ≠ 0) :
    w'.heap.allocated ≠ w.heap.allocated ↔
      w.table.capacity < w.table.reserved extra ∨
        3 * w.table.capacity ≤ 4 * (w.table.live + w.table.tombs + extra) := by
  cases h with
  | asIs htarget hw =>
    obtain ⟨hle, hroom⟩ := Table.target_reserve_eq_none hextra htarget
    rw [hw]
    omega
  | rebuilt htarget _ _ _ _ hheap =>
    have hwhy := (Table.target_reserve_eq_some hextra htarget).2
    rw [hheap, Heap.allocated_freeBuckets]
    exact ⟨fun _ => hwhy, fun _ => Nat.succ_ne_self _⟩

theorem Met.entries_perm {d : Demand} (h : Met s d w w') :
    w'.table.entries.Perm w.table.entries := by
  cases h with
  | asIs _ hw => rw [hw]
  | rebuilt _ _ _ hpacked _ _ => exact hpacked.entries_perm

theorem Met.capacity_eq (h : Met s (.reserve extra) w w') (hextra : extra ≠ 0) :
    w'.table.capacity = max (w.table.reserved extra) w.table.capacity := by
  cases h with
  | asIs htarget hw =>
    rw [hw, Nat.max_eq_right (Table.target_reserve_eq_none hextra htarget).1]
  | rebuilt htarget _ _ hpacked _ _ =>
    rw [hpacked.capacity_eq]
    exact (Table.target_reserve_eq_some hextra htarget).1

/-- The array is another one and without tombstones, or nothing has happened. -/
theorem Met.table {d : Demand} (h : Met s d w w') :
    (w'.heap.allocated ≠ w.heap.allocated → w'.table.tombs = 0 ∧ w'.table.tombCount = 0) ∧
      (w'.heap.allocated = w.heap.allocated → w' = w) := by
  cases h with
  | asIs _ hw => exact ⟨fun hne => absurd (by rw [hw]) hne, fun _ => hw⟩
  | rebuilt _ _ _ hpacked _ hheap =>
    rw [hheap, Heap.allocated_freeBuckets]
    exact ⟨fun _ => ⟨hpacked.tombs_eq, hpacked.tombCount_eq⟩,
      fun h => absurd h (Nat.succ_ne_self _)⟩

theorem Met.reserved_lt (h : Met s (.reserve extra) w w') (hextra : extra ≠ 0)
    (hlim : w.table.capacity < s.limit.capacity) :
    w.table.reserved extra < s.limit.capacity := by
  cases h with
  | asIs htarget _ =>
    exact Nat.lt_of_le_of_lt (Table.target_reserve_eq_none hextra htarget).1 hlim
  | rebuilt htarget hc _ _ _ _ =>
    rw [(Table.target_reserve_eq_some hextra htarget).1] at hc
    exact Nat.lt_of_le_of_lt (Nat.le_max_left _ _) hc

/-- A reservation that stops was for too many buckets, and nothing has happened; or it has
taken a new array, and was stopped for another reason. -/
theorem Unmet.reserve_cases (h : Unmet s (.reserve extra) w w' f) (hextra : extra ≠ 0)
    (hlim : w.table.capacity < s.limit.capacity) :
    (s.limit.capacity ≤ w.table.reserved extra ∧ f = .capacityOverflow ∧ w' = w) ∨
    (w.table.reserved extra < s.limit.capacity ∧ w'.heap.allocated ≠ w.heap.allocated ∧
      f ≠ .capacityOverflow) := by
  cases h with
  | refused htarget hge hw =>
    rw [(Table.target_reserve_eq_some hextra htarget).1] at hge
    exact Or.inl ⟨by omega, rfl, hw⟩
  | @stopped _ c htarget hc hrest hstop hheap =>
    have hpos := (Table.le_target htarget).2
    refine Or.inr ⟨?_, ?_, ?_⟩
    · rw [(Table.target_reserve_eq_some hextra htarget).1] at hc
      exact Nat.lt_of_le_of_lt (Nat.le_max_left _ _) hc
    · rw [hheap, Heap.allocated_freeBuckets]
      exact Nat.succ_ne_self _
    · rintro rfl
      exact absurd (hstop.isClient hpos hc) (by decide)

end World

namespace Session

variable {K V : Type} {s : Strategy K} {session session' : Session K V}

/-- A reservation that is answered has met its demand, one that is stopped has not. -/
theorem step_reserve (h : Reachable s session) (extra : Nat) :
    (∃ w', step s (.reserve extra) session = (.ok .done, ⟨w', session.cursors⟩) ∧
      Met s (.reserve extra) session.world w') ∨
    ∃ f w', step s (.reserve extra) session = (.error f, ⟨w', session.cursors⟩) ∧
      Unmet s (.reserve extra) session.world w' f := by
  have hmeet := meet_ends s.callbacks_plain (Strategy.callbacks_keeps fun _ _ _ => rfl)
    h.atRest.bounded (.reserve extra)
  cases hrun : meet s.callbacks (.reserve extra) session.world with
  | ok _ w' =>
    exact Or.inl ⟨w', step_of_ok (g := fun _ => .done) rfl hrun, hmeet.of_ok hrun⟩
  | error f w' =>
    exact Or.inr ⟨f, w', step_of_error (g := fun _ => .done) rfl hrun, hmeet.of_error hrun⟩

/-- A reservation for `extra` entries is refused, with nothing changed, exactly if the
least power of two that takes them is too large: `2 ^ 61` or more, where the allocator has
no lower limit. If it is answered, then the entries are the same, the capacity is this power
of two unless it was larger, and the array is another one exactly if it was too small for
the entries alone or, with its tombstones, too full.

Whatever has been asked of the session before, and whatever is asked of it next: up to
`extra` insertions find room in the array that the reservation leaves, as long as no other
array is asked for. -/
theorem reserve_delivers (h : Reachable s session) :
    let t := session.world.table
    (∀ extra, 1 ≤ extra → ∃ c, IsLeast {c | (∃ k, c = 2 ^ k) ∧ 4 * (t.live + extra) < 3 * c} c ∧
      (step s (.reserve extra) session = (.error .capacityOverflow, session) ↔
        s.limit.capacity ≤ c) ∧
      (∀ session', step s (.reserve extra) session = (.error .capacityOverflow, session') →
        s.limit.capacity ≤ c) ∧
      ∀ reply session', step s (.reserve extra) session = (.ok reply, session') →
        session'.world.table.entries.Perm t.entries ∧
        session'.world.table.capacity = (if t.capacity < c then c else t.capacity) ∧
        (Rebuilds s (.reserve extra) session ↔
          t.capacity < c ∨ 3 * t.capacity ≤ 4 * (t.live + t.tombs + extra)) ∧
        (Rebuilds s (.reserve extra) session →
          session'.world.table.tombs = 0 ∧ session'.world.table.tombCount = 0) ∧
        (¬ Rebuilds s (.reserve extra) session → session' = session)) ∧
    ∀ extra reply session', step s (.reserve extra) session = (.ok reply, session') →
      ∀ rs, (∀ r ∈ rs, r.resizes = false) → (rs.map Request.insertions).sum ≤ extra →
        ∀ m ∈ trace s rs session', ¬ Rebuilds s m.2 m.1 ∧
          (step s m.2 m.1).2.world.table.capacity = session'.world.table.capacity := by
  intro t
  have hlim : t.capacity < s.limit.capacity := h.served.capacity_lt
  refine ⟨fun extra hextra => ⟨t.reserved extra, t.isLeast_reserved extra, ?_⟩,
    fun extra reply session' hstep rs hrs hsum => ?_⟩
  · have hextra' : extra ≠ 0 := by omega
    rcases step_reserve h extra with ⟨w', hstep, hmet⟩ | ⟨f, w', hstep, hunmet⟩
    · -- the reservation is answered, so it was not for too many buckets
      have hlt : t.reserved extra < s.limit.capacity := hmet.reserved_lt hextra' hlim
      have hrebuilds : Rebuilds s (.reserve extra) session ↔
          w'.heap.allocated ≠ session.world.heap.allocated := by
        unfold Rebuilds
        rw [hstep]
        exact ⟨fun h => h.2, fun h => ⟨rfl, h⟩⟩
      rw [hstep, hrebuilds]
      refine ⟨⟨fun h => absurd h (by simp), fun hge => absurd hge (by omega)⟩,
        fun _ h => absurd h (by simp), fun reply session' h => ?_⟩
      obtain ⟨_, rfl⟩ := Prod.mk.inj h
      refine ⟨hmet.entries_perm, ?_, hmet.allocated_ne_iff hextra', hmet.table.1, fun hsame => ?_⟩
      · refine (hmet.capacity_eq hextra').trans ?_
        show max (t.reserved extra) t.capacity = _
        split
        · exact Nat.max_eq_left (by omega)
        · exact Nat.max_eq_right (by omega)
      · have hw := hmet.table.2 (Classical.not_not.mp hsame)
        rw [hw]
    · rw [hstep]
      rcases hunmet.reserve_cases hextra' hlim with ⟨hge, rfl, rfl⟩ | ⟨hlt, hheap, hne⟩
      · exact ⟨⟨fun _ => hge, fun _ => rfl⟩, fun _ _ => hge, fun _ _ h => absurd h (by simp)⟩
      · refine ⟨⟨fun h => ?_, fun hge => absurd hlt (Nat.not_lt.mpr hge)⟩, fun _ h => ?_,
          fun _ _ h => absurd h (by simp)⟩
        · -- a new array has been taken, so something has changed
          obtain ⟨_, hsame⟩ := Prod.mk.inj h
          exact absurd (by rw [← hsame]) hheap
        · exact absurd (Except.error.inj (Prod.mk.inj h).1) hne
  · rcases step_reserve h extra with ⟨w', hstep', hmet⟩ | ⟨f, w', hstep', _⟩
    · have hnext : Reachable s session' := by
        have := h.step (.reserve extra)
        rw [hstep] at this
        exact this
      rw [hstep'] at hstep
      obtain ⟨_, rfl⟩ := Prod.mk.inj hstep
      exact run_spends hnext hrs (hmet.quota.mono rfl (Nat.add_le_add_left hsum _) hsum)
    · rw [hstep'] at hstep
      exact absurd hstep (by simp)

/-- Two live entries and two tombstones in eight buckets: room for two more entries is made
by dropping the tombstones. The two insertions then stay below the load, although an entry
is erased between them and leaves a tombstone again. -/
theorem reserve_delivers_purged :
    let s : Strategy Nat := { hash := fun k => k.toUInt64, equals := fun a b => a == b }
    let session₀ : Session Nat Nat :=
      { world := { table := .blank 8, heap := ⟨1, 0⟩, client := [] } }
    let session := (run s [.insert 1 10, .insert 2 20, .insert 3 30, .insert 4 40, .erase 1,
      .erase 2] session₀).2
    let session' := (step s (.reserve 2) session).2
    let rs : List (Request Nat Nat) := [.insert 5 50, .erase 3, .lookup (.get 4), .insert 6 60]
    Session.start s 8 none none = .ok session₀ ∧ Reachable s session ∧
      (session.world.table.capacity, session.world.table.tombs) = (8, 2) ∧
      (session'.world.table.capacity, session'.world.table.tombs) = (8, 0) ∧
      session'.world.table.entries.Perm session.world.table.entries ∧
      Rebuilds s (.reserve 2) session ∧ ∀ m ∈ trace s rs session', ¬ Rebuilds s m.2 m.1 := by
  intro s session₀ session session' rs
  have hstart : Session.start s 8 none none = .ok session₀ := rfl
  have hreach : Reachable s session := (Reachable.start hstart).run _
  have hrebuilds : Rebuilds s (.reserve 2) session := by decide +kernel
  have hok : (step s (.reserve 2) session).1.isOk = true := by decide +kernel
  obtain ⟨reply, hstep⟩ : ∃ reply, step s (.reserve 2) session = (.ok reply, session') :=
    exists_reply hok
  obtain ⟨hcounts, hrun⟩ := reserve_delivers hreach
  obtain ⟨c, _, _, _, hdone⟩ := hcounts 2 (by decide)
  refine ⟨hstart, hreach, by decide +kernel, by decide +kernel,
    (hdone reply session' hstep).1, hrebuilds, fun m hm => ?_⟩
  refine (hrun 2 reply session' hstep rs ?_ (by decide) m hm).1
  simp [rs, Request.resizes]

end Session

end OpenAddressing
