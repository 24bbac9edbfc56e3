import OpenAddressing.Rebuild
import OpenAddressing.Proofs.Evolution

/-!
# What a rebuild comes to

A rebuild either moves every entry, or it stops: before it has touched anything, at an
entry for which a search finds no bucket, or at the end because the table had counted
wrongly (`RebuildStop`). In all cases but the first the new array is in place, and it is
packed with a first part of the old entries in their old order. A probe function that gives
up can stop it at any entry, and again a first part has been moved (`Cut`).

The calls that decide on a rebuild (`rehash`, `reserve`, `makeRoom`) are followed only
as far as the capacity that they ask for. Each is gone through once, with callbacks that may
give up (`rehash_follows` and its like); with plain callbacks that case falls away.
-/

namespace OpenAddressing

namespace Table

variable {K V : Type} {t : Table K V}

/-- A word is eight times the largest capacity. -/
theorem limit_eq : Word.limit = 4 * (2 * capacityLimit) := by decide

/-- An array holds no more entries than it has buckets, so counting them does not overflow. -/
theorem Packed.live_lt {p : Probe} {c : Nat} {es : List (Entry K V)} (h : Packed p c es t)
    (hc : c < capacityLimit) : t.live + 1 < Word.limit := by
  have hcount := t.fullCount_le_capacity
  have hlimit := limit_eq
  have hcap := h.capacity_eq
  have hlive := h.live_eq
  have hfull := h.fullCount_eq
  omega

/-- The load is computed without overflow. -/
theorem hasRoomFor_eq {extra : Nat} (h : t.Bounded)
    (hextra : t.live + t.tombs + extra < 2 * capacityLimit) :
    t.hasRoomFor extra = .ok (decide (4 * (t.live + t.tombs + extra) < 3 * t.capacity)) := by
  have hcap := h.capacity_lt
  have hlimit := limit_eq
  unfold hasRoomFor
  rw [Word.add_of_lt (by omega)]
  show (Word.add (t.live + t.tombs) extra >>= fun _ => _) = _
  rw [Word.add_of_lt (by omega)]
  show (Word.mul _ 4 >>= fun _ => _) = _
  rw [Word.mul_of_lt (by omega)]
  show (Word.mul _ 3 >>= fun _ => _) = _
  rw [Word.mul_of_lt (by omega)]
  show Except.ok _ = _
  rw [Nat.mul_comm _ 4, Nat.mul_comm _ 3]

/-- The counters of a table fit a machine word with room to spare. -/
theorem Bounded.counters_lt (h : t.Bounded) : t.live + t.tombs + 1 < 2 * capacityLimit := by
  have hload := h.load
  have hcap := h.capacity_lt
  omega

/-- One more entry keeps the load below its maximum. -/
def Roomy (t : Table K V) : Prop := 4 * (t.live + t.tombs + 1) < 3 * t.capacity

/-- The table is the same, or all of its entries have been moved to `c` buckets. -/
def Grown (s : Strategy K) (t t' : Table K V) : Prop :=
  t' = t ∨ ∃ c, t.capacity ≤ c ∧ 0 < c ∧ c < s.limit.capacity ∧ Packed s.probe c t.entries t'

theorem Grown.steps {s : Strategy K} {t' : Table K V} (h : Grown s t t') : Steps s t t' := by
  rcases h with rfl | ⟨c, hcap, hpos, hlim, hp⟩
  · exact .refl
  · exact .single (.rebuild (List.prefix_refl _) hcap hpos hlim hp)

theorem Grown.entries_perm {s : Strategy K} {t' : Table K V} (h : Grown s t t') :
    t'.entries.Perm t.entries := by
  rcases h with rfl | ⟨c, _, _, _, hp⟩
  · exact .refl _
  · exact hp.entries_perm

/-- The ways in which moving the entries of `t` to `c` buckets stops, with `t'` in place. -/
inductive RebuildStop (s : Strategy K) (c : Nat) (t t' : Table K V) : Fault → Prop where
  | overflow : s.limit.capacity ≤ c → t' = t → RebuildStop s c t t' .capacityOverflow
  /-- No bucket was found for the entry `e`. -/
  | stuck {f : Fault} {pre post : List (Entry K V)} {e : Entry K V} : c < s.limit.capacity →
      t.entries = pre ++ e :: post → Packed s.probe c pre t' →
      Seek.plainAcquire s.probe (fun _ => false) e.hash t'.buckets = .error f →
      RebuildStop s c t t' f
  | miscount : c < s.limit.capacity → Packed s.probe c t.entries t' → t.entries.length ≠ t.live →
      RebuildStop s c t t' (.rebuildMiscount t.entries.length t.live)

/-- The ways in which a call that decides on a rebuild stops: it would need more buckets
than there can be, or moving the entries stops. -/
inductive Halted (s : Strategy K) (t t' : Table K V) : Fault → Prop where
  | capacity : t' = t → Halted s t t' .capacityOverflow
  | rebuild {f : Fault} {c : Nat} : t.capacity ≤ c → 0 < c → RebuildStop s c t t' f →
      Halted s t t' f

/-- A first part of the entries has been moved to `c` buckets. -/
def Cut (s : Strategy K) (c : Nat) (t t' : Table K V) : Prop :=
  c < s.limit.capacity ∧ ∃ pre, pre <+: t.entries ∧ Packed s.probe c pre t'

end Table

namespace World

open Act

variable {K V τ : Type} {E : Fault → Prop} {cb : Callbacks K V τ} {s : Strategy K}
  {w : World K V τ}

theorem place_ends (hcb : cb.Follows E s) {e : Entry K V} (hpos : w.table.capacity ≠ 0)
    (hlive : w.table.live + 1 < Word.limit) :
    (place cb e).Ends w
      (fun _ w' => w.SameRest w' ∧ ∃ i reused,
        Seek.plainAcquire s.probe (fun _ => false) e.hash w.table.buckets =
          .ok (.vacant i reused) ∧
        w'.table = { w.table.setBucket i (.full e) with live := w.table.live + 1 })
      fun f w' => w.SameRest w' ∧ w'.table = w.table ∧
        (Seek.plainAcquire s.probe (fun _ => false) e.hash w.table.buckets = .error f ∨ E f) := by
  unfold place
  rw [ends_bind, ends_get, ends_bind]
  have hacquire : Follows E (Seek.acquire cb.probe (fun _ => pure false) e.hash w.table.buckets)
      w (Seek.plainAcquire s.probe (fun _ => false) e.hash w.table.buckets) :=
    Seek.acquire_follows hcb (fun _ _ => answers_pure.follows) hpos
  refine hacquire.imp (fun slot w' h => ?_) (fun f w' h => ?_)
  · obtain ⟨hslot, hw⟩ := h
    cases slot with
    | occupied i => exact (Table.plainAcquire_ne_occupied hslot).elim
    | vacant i reused =>
      have hbucket := Table.bucketAt_of_getElem? (Table.plainAcquire_vacant hslot).1
      dsimp only
      rw [ends_bind, ends_discard, hbucket, ends_lift_ok, ends_bind, Word.add_of_lt hlive,
        ends_lift_ok, ends_onTable, ends_modify, hw.table_eq]
      exact ⟨⟨hw.sameRest.keyHook, hw.sameRest.valueHook, hw.sameRest.probing⟩,
        i, reused, hslot, rfl⟩
  · exact ⟨h.2.sameRest, h.2.table_eq, h.1⟩

/-- A rebuild that is given up on the way leaves in the new array what has been moved. -/
theorem rebuild_follows (hcb : cb.Follows E s) {c : Nat} (hpos : 0 < c) :
    (rebuild cb c).Ends w
      (fun _ w' => w.SameRest w' ∧ c < s.limit.capacity ∧
        Table.Packed s.probe c w.table.entries w'.table ∧
        w.table.entries.length = w.table.live)
      fun f w' => w.SameRest w' ∧
        (Table.RebuildStop s c w.table w'.table f ∨ E f ∧ Table.Cut s c w.table w'.table) := by
  unfold rebuild
  rw [ends_bind, ends_require, hcb.limit]
  -- too large a request is refused before the old array is let go
  refine ⟨fun hlim => ?_, fun hge => ⟨.refl w, Or.inl (.overflow (by omega) rfl)⟩⟩
  simp only [ends_bind, ends_get, ends_modify, ends_andFinally, ends_require]
  -- as many entries as have been moved are packed in the new array
  have hloop : (w.table.entries.forM (place cb)).Ends
      { w with table := .blank c, heap := w.heap.allocate }
      (fun _ w' => w.SameRest w' ∧ Table.Packed s.probe c w.table.entries w'.table)
      fun f w' => w.SameRest w' ∧
        (Table.RebuildStop s c w.table w'.table f ∨ E f ∧ Table.Cut s c w.table w'.table) := by
    refine ends_forM (I := fun pre w' => w.SameRest w' ∧ Table.Packed s.probe c pre w'.table)
      ⟨⟨rfl, rfl, rfl⟩, Table.Packed.blank⟩ ?_
    intro pre e post w' hxs hI
    obtain ⟨hrest, hpacked⟩ := hI
    have hcap : w'.table.capacity ≠ 0 := by rw [hpacked.capacity_eq]; omega
    have hlive : w'.table.live + 1 < Word.limit :=
      hpacked.live_lt (s.limit.lt_capacityLimit hlim)
    refine (place_ends hcb hcap hlive).imp (fun _ w'' h => ?_) (fun f w'' h => ?_)
    · obtain ⟨hrest', i, reused, hslot, ht⟩ := h
      refine ⟨hrest.trans hrest', ?_⟩
      rw [ht]
      exact hpacked.snoc hslot
    · obtain ⟨hrest', ht, hslot | hE⟩ := h
      · refine ⟨hrest.trans hrest', Or.inl (.stuck hlim hxs (ht ▸ hpacked) ?_)⟩
        rw [ht]
        exact hslot
      · exact ⟨hrest.trans hrest', Or.inr ⟨hE, hlim, pre, ⟨_, hxs.symm⟩, ht ▸ hpacked⟩⟩
  refine hloop.imp (fun _ w' h => ?_) (fun f w' h => ?_)
  · obtain ⟨hrest, hpacked⟩ := h
    have hrest' : w.SameRest { w' with heap := w'.heap.freeBuckets w.table.capacity } :=
      ⟨hrest.keyHook, hrest.valueHook, hrest.probing⟩
    -- the loop has counted what it moved, so the last check is one on the old counter
    rw [show w'.table.live = w.table.entries.length from hpacked.live_eq]
    exact ⟨fun heq => ⟨hrest', hlim, hpacked, heq⟩,
      fun hne => ⟨hrest', Or.inl (.miscount hlim hpacked hne)⟩⟩
  · exact ⟨⟨h.1.keyHook, h.1.valueHook, h.1.probing⟩, h.2⟩

theorem rebuild_ends (hcb : cb.Plain s) {c : Nat} (hpos : 0 < c) :
    (rebuild cb c).Ends w
      (fun _ w' => w.SameRest w' ∧ c < s.limit.capacity ∧
        Table.Packed s.probe c w.table.entries w'.table ∧
        w.table.entries.length = w.table.live)
      fun f w' => w.SameRest w' ∧ Table.RebuildStop s c w.table w'.table f :=
  (rebuild_follows hcb.follows hpos).imp (fun _ _ h => h)
    (fun _ _ h => ⟨h.1, h.2.resolve_right And.left⟩)

/-- However a rebuild stops, it has made a change to the table or none. -/
theorem evolves_of_rebuildStop {c : Nat} {w' : World K V τ} {f : Fault}
    (h : Table.RebuildStop s c w.table w'.table f) (hrest : w.SameRest w')
    (hcap : w.table.capacity ≤ c)
    (hpos : 0 < c) : Evolves s w w' ∧ Cause s w w' f := by
  cases h with
  | overflow _ ht => exact ⟨.of_table_eq hrest ht, .capacity⟩
  | @stuck _ pre post e hlim hxs hp hrun =>
    -- the entries that were not moved are lost, and the others are packed
    refine ⟨.of_change hrest (.rebuild ⟨_, hxs.symm⟩ hcap hpos hlim hp), ?_⟩
    exact .search _ _ (by rw [hp.capacity_eq]; omega) hrun
  | miscount hlim hp hne =>
    refine ⟨.of_change hrest (.rebuild (List.prefix_refl _) hcap hpos hlim hp), ?_⟩
    refine .rebuildMiscount fun hexact => hne ?_
    rw [Table.length_entries]
    exact hexact.live_eq.symm

theorem evolves_of_halted {w' : World K V τ} {f : Fault} (h : Table.Halted s w.table w'.table f)
    (hrest : w.SameRest w') : Evolves s w w' ∧ Cause s w w' f := by
  cases h with
  | capacity ht => exact ⟨.of_table_eq hrest ht, .capacity⟩
  | rebuild hcap hpos hstop => exact evolves_of_rebuildStop hstop hrest hcap hpos

/-! ## The calls that rebuild -/

theorem rehashTarget_eq_some {current request c : Nat} (h : rehashTarget current request = some c) :
    current ≤ c ∧ 0 < c := by
  unfold rehashTarget at h
  split at h
  · split at h
    · exact absurd h (by simp)
    · have := Option.some.inj h; omega
  · split at h
    · exact absurd h (by simp)
    · have := Option.some.inj h; omega

theorem rehash_of_some {request c : Nat} (h : rehashTarget w.table.capacity request = some c) :
    rehash cb request w = rebuild cb c w := by
  unfold rehash
  rw [get_bind, h]

theorem rehash_of_none {request : Nat} (h : rehashTarget w.table.capacity request = none) :
    rehash cb request w = .ok () w := by
  unfold rehash
  rw [get_bind, h]
  rfl

/-- A rehash that has anything to do moves all entries, unless it stops. -/
theorem rehash_packed (hcb : cb.Follows E s) {request c : Nat}
    (htarget : rehashTarget w.table.capacity request = some c) :
    (rehash cb request).Ends w
      (fun _ w' => w.SameRest w' ∧ c < s.limit.capacity ∧
        Table.Packed s.probe c w.table.entries w'.table)
      fun f w' => w.SameRest w' ∧
        (Table.Halted s w.table w'.table f ∨ E f ∧ Table.Steps s w.table w'.table) := by
  obtain ⟨hcap, hpos⟩ := rehashTarget_eq_some htarget
  unfold Ends
  rw [rehash_of_some htarget]
  refine (rebuild_follows hcb hpos).imp (fun _ w' h => ?_) (fun f w' h => ?_)
  · exact ⟨h.1, h.2.1, h.2.2.1⟩
  · obtain ⟨hrest, hstop | ⟨hE, hlim, pre, hpre, hp⟩⟩ := h
    · exact ⟨hrest, Or.inl (.rebuild hcap hpos hstop)⟩
    · exact ⟨hrest, Or.inr ⟨hE, .single (.rebuild hpre hcap hpos hlim hp)⟩⟩

theorem rehash_follows (hcb : cb.Follows E s) (request : Nat) :
    (rehash cb request).Ends w
      (fun _ w' => w.SameRest w' ∧ Table.Grown s w.table w'.table)
      fun f w' => w.SameRest w' ∧
        (Table.Halted s w.table w'.table f ∨ E f ∧ Table.Steps s w.table w'.table) := by
  cases htarget : rehashTarget w.table.capacity request with
  | none =>
    unfold Ends
    rw [rehash_of_none htarget]
    exact ⟨.refl w, Or.inl rfl⟩
  | some c =>
    obtain ⟨hcap, hpos⟩ := rehashTarget_eq_some htarget
    refine (rehash_packed hcb htarget).imp (fun _ w' h => ?_) (fun _ _ h => h)
    obtain ⟨hrest, hlim, hp⟩ := h
    exact ⟨hrest, Or.inr ⟨c, hcap, hpos, hlim, hp⟩⟩

theorem rehash_grown (hcb : cb.Plain s) (request : Nat) :
    (rehash cb request).Ends w
      (fun _ w' => w.SameRest w' ∧ Table.Grown s w.table w'.table)
      fun f w' => w.SameRest w' ∧ Table.Halted s w.table w'.table f :=
  (rehash_follows hcb.follows request).imp (fun _ _ h => h)
    (fun _ _ h => ⟨h.1, h.2.resolve_right And.left⟩)

/-- A rehash to enough buckets makes room. -/
theorem rehash_roomy (hcb : cb.Follows E s) {request c : Nat}
    (htarget : rehashTarget w.table.capacity request = some c)
    (hc : 4 * (w.table.entries.length + 1) < 3 * c) :
    (rehash cb request).Ends w
      (fun _ w' => w.SameRest w' ∧ Table.Grown s w.table w'.table ∧ w'.table.Roomy)
      fun f w' => w.SameRest w' ∧
        (Table.Halted s w.table w'.table f ∨ E f ∧ Table.Steps s w.table w'.table) := by
  obtain ⟨hcap, hpos⟩ := rehashTarget_eq_some htarget
  refine (rehash_packed hcb htarget).imp (fun _ w' h => ?_) (fun _ _ h => h)
  obtain ⟨hrest, hlim, hp⟩ := h
  refine ⟨hrest, Or.inr ⟨c, hcap, hpos, hlim, hp⟩, ?_⟩
  unfold Table.Roomy
  rw [hp.capacity_eq, hp.live_eq, hp.tombs_eq]
  exact hc

/-- The capacity that is reserved is computed without overflow, or refused. -/
theorem reservedCapacity_eq {wanted : Nat} :
    reservedCapacity wanted =
      if 4 * wanted < Word.limit ∧ Word.ceilPow2 (4 * wanted / 3 + 1) < Word.limit then
        .ok (Word.ceilPow2 (4 * wanted / 3 + 1))
      else .error .capacityOverflow := by
  have hlimit : Word.limit = 2 ^ 64 := by decide
  unfold reservedCapacity
  by_cases hfits : 4 * wanted < Word.limit
  · rw [if_pos hfits, Word.add_of_lt (by omega)]
    by_cases hc : Word.ceilPow2 (4 * wanted / 3 + 1) < Word.limit
    · rw [if_pos ⟨hfits, hc⟩]
      exact if_pos hc
    · rw [if_neg fun h => hc h.2]
      exact if_neg hc
  · rw [if_neg hfits, if_neg fun h => hfits h.1]
    rfl

/-- What is reserved is large enough for the entries alone. -/
theorem lt_of_reservedCapacity {wanted c : Nat} (h : reservedCapacity wanted = .ok c) :
    4 * wanted < 3 * c := by
  rw [reservedCapacity_eq] at h
  split at h
  · have hc : Word.ceilPow2 (4 * wanted / 3 + 1) = c := Except.ok.inj h
    have := Word.le_ceilPow2 (4 * wanted / 3 + 1)
    omega
  · exact absurd h (by simp)

theorem reservedCapacity_error {wanted : Nat} {f : Fault}
    (h : reservedCapacity wanted = .error f) : f = .capacityOverflow := by
  rw [reservedCapacity_eq] at h
  split at h
  · exact absurd h (by simp)
  · exact (Except.error.inj h).symm

theorem reserve_follows (hcb : cb.Follows E s) (hw : w.table.Bounded) {extra : Nat} :
    (reserve cb extra).Ends w
      (fun _ w' => w.SameRest w' ∧ Table.Grown s w.table w'.table)
      fun f w' => w.SameRest w' ∧
        (Table.Halted s w.table w'.table f ∨ E f ∧ Table.Steps s w.table w'.table) := by
  unfold reserve
  by_cases h0 : extra = 0
  · rw [if_pos h0]
    exact ⟨.refl w, Or.inl rfl⟩
  · rw [if_neg h0]
    simp only [ends_bind, ends_get]
    rw [ends_lift]
    refine ⟨fun c hc => ?_, fun f hf => ?_⟩
    · split
      · exact rehash_follows hcb _
      · rename_i hle
        -- what is reserved for is bounded by a capacity, and so it can be added up
        have hcap := hw.capacity_lt
        have hload := hw.load
        have hlt := lt_of_reservedCapacity hc
        rw [ends_bind, Table.hasRoomFor_eq hw (by omega), ends_lift_ok]
        split
        · exact rehash_follows hcb _
        · exact ⟨.refl w, Or.inl rfl⟩
    · rw [reservedCapacity_error hf]
      exact ⟨.refl w, Or.inl (.capacity rfl)⟩

theorem reserve_grown (hcb : cb.Plain s) (hw : w.table.Bounded) {extra : Nat} :
    (reserve cb extra).Ends w
      (fun _ w' => w.SameRest w' ∧ Table.Grown s w.table w'.table)
      fun f w' => w.SameRest w' ∧ Table.Halted s w.table w'.table f :=
  (reserve_follows hcb.follows hw).imp (fun _ _ h => h)
    (fun _ _ h => ⟨h.1, h.2.resolve_right And.left⟩)

/-- If it returns, there is room for one more entry. -/
theorem makeRoom_follows (hcb : cb.Follows E s) (hw : w.table.Bounded) :
    (makeRoom cb).Ends w
      (fun _ w' => w.SameRest w' ∧ Table.Grown s w.table w'.table ∧ w'.table.Roomy)
      fun f w' => w.SameRest w' ∧
        (Table.Halted s w.table w'.table f ∨ E f ∧ Table.Steps s w.table w'.table) := by
  have hload := hw.load
  have hlive : w.table.entries.length ≤ w.table.live := by
    rw [Table.length_entries]; exact hw.full_le
  unfold makeRoom
  rw [ends_bind, ends_get]
  dsimp only
  split
  · rename_i h0
    have htarget : rehashTarget w.table.capacity Table.defaultCapacity =
        some Table.defaultCapacity := by
      rw [h0]; rfl
    refine rehash_roomy hcb htarget ?_
    -- the table has no buckets yet, so it has no entries either
    unfold Table.defaultCapacity
    omega
  · rename_i hpos
    rw [ends_bind, Table.hasRoomFor_eq hw hw.counters_lt, ends_lift_ok]
    split
    · rename_i hfull
      have hfull' : ¬ 4 * (w.table.live + w.table.tombs + 1) < 3 * w.table.capacity := by
        simpa using hfull
      split
      · -- three quarters of twice the buckets hold all that overfilled three quarters
        have htarget : rehashTarget w.table.capacity (2 * w.table.capacity) =
            some (2 * w.table.capacity) := by
          unfold rehashTarget
          rw [if_neg (by omega), if_neg (by omega)]
        exact rehash_roomy hcb htarget (by omega)
      · exact ⟨.refl w, Or.inl (.capacity rfl)⟩
    · rename_i hroom
      refine ⟨.refl w, Or.inl rfl, ?_⟩
      unfold Table.Roomy
      simpa using hroom

theorem makeRoom_ends (hcb : cb.Plain s) (hw : w.table.Bounded) :
    (makeRoom cb).Ends w
      (fun _ w' => w.SameRest w' ∧ Table.Grown s w.table w'.table ∧ w'.table.Roomy)
      fun f w' => w.SameRest w' ∧ Table.Halted s w.table w'.table f :=
  (makeRoom_follows hcb.follows hw).imp (fun _ _ h => h)
    (fun _ _ h => ⟨h.1, h.2.resolve_right And.left⟩)

theorem evolves_of_grown {w' : World K V τ} (h : w.SameRest w')
    (ht : Table.Grown s w.table w'.table) : Evolves s w w' :=
  ⟨h, ht.steps⟩

theorem rehash_regular (hcb : cb.Plain s) {request : Nat} : Regular s (rehash cb request) := by
  intro w _
  exact (rehash_grown hcb _).imp (fun _ _ h => evolves_of_grown h.1 h.2)
    (fun _ _ h => evolves_of_halted h.2 h.1)

theorem reserve_regular (hcb : cb.Plain s) {extra : Nat} : Regular s (reserve cb extra) := by
  intro w hw
  exact (reserve_grown hcb hw.bounded).imp (fun _ _ h => evolves_of_grown h.1 h.2)
    (fun _ _ h => evolves_of_halted h.2 h.1)

end World

end OpenAddressing
