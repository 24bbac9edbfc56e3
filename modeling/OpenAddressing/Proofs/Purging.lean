import OpenAddressing.Proofs.Covering

/-!
# Purging in place

A rebuild at the current capacity puts the entries back one by one, each into the first
free bucket on its path, and in general not where it was. The probe function may skip
buckets or fall into a short cycle, so a path may fill up. That it never fills up before
the last entry is placed follows from the old array alone, in which all entries had a
place.

Suppose that a path has filled up, and look at the buckets from which every path runs
through full buckets only (`saturated`). Their number is counted in two ways.

* In the new array each of them holds an entry, and that entry has its home among them,
  because up to its bucket it has passed only full buckets (`card_le_countP_home`).
* In the old array each entry with its home among them lies among them, because no path
  leaves them (`countP_home_le`).

So there are at least as many entries with such a home in the new array as in the old
one. But one is missing, the entry that cannot be placed.
-/

namespace OpenAddressing

open Act World

namespace Table

/-- As many positions of a list satisfy a test as items do. -/
theorem countP_eq_card {α : Type} (q : α → Bool) (l : List α) :
    l.countP q = ((Finset.range l.length).filter fun i => (l[i]?).any q = true).card := by
  induction l using List.reverseRecOn with
  | nil => rfl
  | append_singleton l a ih =>
    have hlast : (l ++ [a])[l.length]? = some a := by simp
    have hold : ((Finset.range l.length).filter fun i => ((l ++ [a])[i]?).any q = true) =
        (Finset.range l.length).filter fun i => (l[i]?).any q = true := by
      refine Finset.filter_congr fun i hi => ?_
      rw [List.getElem?_append_left (Finset.mem_range.mp hi)]
    rw [List.countP_append, List.length_append, List.length_singleton, Finset.range_add_one,
      Finset.filter_insert, hlast, Option.any_some, hold, ih]
    -- the last position counts if the last item passes
    cases hq : q a with
    | true =>
      rw [if_pos rfl, Finset.card_insert_of_notMem (by simp), List.countP_singleton, if_pos hq]
    | false =>
      rw [if_neg (by simp), List.countP_singleton, if_neg (by simp [hq])]
      rfl

variable {K V : Type} {t t' : Table K V} {p : Probe} {q : Entry K V → Bool}

/-- The buckets whose entry passes a test. -/
def holding (t : Table K V) (q : Entry K V → Bool) : Finset Nat :=
  (Finset.range t.capacity).filter fun i => (t.entryAt? i).any q = true

theorem mem_holding {i : Nat} : i ∈ t.holding q ↔ ∃ e, t.entryAt? i = some e ∧ q e = true := by
  unfold holding
  rw [Finset.mem_filter, Finset.mem_range, Option.any_eq_true]
  constructor
  · rintro ⟨_, e, he, hq⟩; exact ⟨e, he, hq⟩
  · rintro ⟨e, he, hq⟩; exact ⟨lt_capacity_of_entryAt? he, e, he, hq⟩

/-- Each bucket holds at most one entry. -/
theorem card_holding : (t.holding q).card = t.entries.countP q := by
  unfold holding entries
  rw [List.countP_filterMap, countP_eq_card, Array.length_toList]
  refine congrArg Finset.card (Finset.filter_congr fun i _ => ?_)
  rw [Array.getElem?_toList]
  unfold entryAt?
  cases t.buckets[i]? with
  | none => simp
  | some b => cases b <;> simp

/-- From here every path runs through full buckets only. -/
def Saturated (p : Probe) (t : Table K V) (i : Nat) : Prop :=
  ∀ j x, p.nth? t.capacity i j = some x → (t.entryAt? x).isSome = true

open Classical in
/-- The buckets from which every path runs through full buckets only. -/
noncomputable def saturated (p : Probe) (t : Table K V) : Finset Nat :=
  (Finset.range t.capacity).filter fun i => t.Saturated p i

theorem mem_saturated {i : Nat} : i ∈ t.saturated p ↔ i < t.capacity ∧ t.Saturated p i := by
  classical
  unfold saturated
  rw [Finset.mem_filter, Finset.mem_range]

/-- No path leaves the saturated buckets. -/
theorem Saturated.nth? {i j x : Nat} (h : t.Saturated p i) (hx : p.nth? t.capacity i j = some x) :
    t.Saturated p x := by
  intro k y hy
  rw [← Probe.nth?_add_of hx] at hy
  exact h (j + k) y hy

/-- The entry has its home in the set. -/
def homeIn (c : Nat) (S : Finset Nat) (e : Entry K V) : Bool := decide (Probe.home e.hash c ∈ S)

/-- How many entries have their home in a set is a matter of their hashes. -/
theorem countP_homeIn {c : Nat} {S : Finset Nat} {es : List (Entry K V)} :
    es.countP (homeIn c S) =
      (es.map Entry.hash).countP fun hash => decide (Probe.home hash c ∈ S) := by
  rw [List.countP_map]
  rfl

/-- Without tombstones, a bucket that is not empty is full. -/
theorem isSome_entryAt? (htombs : t.tombCount = 0) {i : Nat} (hi : i < t.capacity)
    (hne : t.buckets[i]? ≠ some .empty) : (t.entryAt? i).isSome = true := by
  obtain ⟨b, hb⟩ := exists_bucket hi
  rw [entryAt?_of_getElem? hb]
  cases b with
  | empty => exact absurd hb hne
  | tombstone =>
    have hpos := tombCount_pos hb
    omega
  | full e => rfl

/-- Without tombstones, the buckets on the path up to what is reached are full. -/
theorem Reaches.full_before (htombs : t.tombCount = 0) {hash : UInt64} {i : Nat}
    (h : t.Reaches p hash i) :
    ∃ j, p.nth? t.capacity (Probe.home hash t.capacity) j = some i ∧
      ∀ m < j, ∀ x, p.nth? t.capacity (Probe.home hash t.capacity) m = some x →
        (t.entryAt? x).isSome = true := by
  obtain ⟨j, hj, hi, hpath⟩ := h
  refine ⟨j, hi, fun m hm x hx => ?_⟩
  exact isSome_entryAt? htombs (Probe.nth?_lt (Probe.home_lt (by omega)) hx) (hpath m hm x hx)

/-- Without tombstones, a path to a saturated bucket is full from its home on. -/
theorem saturated_of_reaches (htombs : t.tombCount = 0) {hash : UInt64} {i : Nat}
    (hreach : t.Reaches p hash i) (hi : t.Saturated p i) :
    t.Saturated p (Probe.home hash t.capacity) := by
  obtain ⟨j, hx, hbefore⟩ := hreach.full_before htombs
  intro m y hy
  -- up to the bucket the path is full, and from there on it is saturated
  rcases Nat.lt_or_ge m j with hlt | hge
  · exact hbefore m hlt y hy
  · obtain ⟨k, rfl⟩ := Nat.exists_eq_add_of_le hge
    rw [Probe.nth?_add_of hx] at hy
    exact hi k y hy

/-- If a set has full buckets only, and has the home of whatever is reached in it, then as
many entries have their home in it as there are buckets, or more. -/
theorem card_le_countP_home {S : Finset Nat} (hreach : t.AllReached p)
    (hfull : ∀ i ∈ S, (t.entryAt? i).isSome = true)
    (hhome : ∀ i ∈ S, ∀ hash, t.Reaches p hash i → Probe.home hash t.capacity ∈ S) :
    S.card ≤ t.entries.countP (homeIn t.capacity S) := by
  rw [← card_holding]
  refine Finset.card_le_card fun i hi => ?_
  obtain ⟨e, he⟩ := Option.isSome_iff_exists.mp (hfull i hi)
  exact mem_holding.mpr ⟨e, he, decide_eq_true (hhome i hi e.hash (hreach i e he))⟩

/-- If the entries with their home in one set lie in another one, then this has as many
buckets, or more. -/
theorem countP_home_le {S S' : Finset Nat}
    (hlies : ∀ i e, t.entryAt? i = some e → Probe.home e.hash t.capacity ∈ S → i ∈ S') :
    t.entries.countP (homeIn t.capacity S) ≤ S'.card := by
  rw [← card_holding]
  refine Finset.card_le_card fun i hi => ?_
  obtain ⟨e, he, hhome⟩ := mem_holding.mp hi
  exact hlies i e he (of_decide_eq_true hhome)

/-- An entry that had a place in an array of this size gets one again, when a first part
of the entries before it has been moved. It does not matter what is moved but for the
hashes. -/
theorem exists_place {K' V' : Type} {t' : Table K' V'} {pre : List (Entry K' V')}
    {e : Entry K' V'} {post : List UInt64} {f : Fault} (hp : p.InRange t.capacity)
    (hreach : t.AllReached p)
    (hes : (t.entries.map Entry.hash).Perm (pre.map Entry.hash ++ e.hash :: post))
    (hpacked : Packed p t.capacity pre t') :
    Seek.plainAcquire p (fun _ => false) e.hash t'.buckets ≠ .error f := by
  intro hstuck
  have hcap : t'.capacity = t.capacity := hpacked.capacity_eq
  have hpos : 0 < t.capacity := by
    obtain ⟨a, ha, _⟩ := List.mem_map.mp (hes.mem_iff.mpr (show e.hash ∈ _ by simp))
    obtain ⟨i, hi⟩ := mem_entries_iff.mp ha
    have := lt_capacity_of_entryAt? hi
    omega
  let S := t'.saturated p
  -- the path on which the entry is stuck is full
  have hhome : Probe.home e.hash t.capacity ∈ S := by
    refine mem_saturated.mpr ⟨by rw [hcap]; exact Probe.home_lt hpos, fun j x hx => ?_⟩
    rw [← hcap] at hx
    have hlt : x < t'.capacity := Probe.nth?_lt (Probe.home_lt (by omega)) hx
    exact isSome_entryAt? hpacked.tombCount_eq hlt
      (ne_empty_of_plainAcquire_error (hcap ▸ hp) (by omega) hstuck hx)
  -- the moved entries fill the set
  have hnew : S.card ≤ pre.countP (homeIn t.capacity S) := by
    rw [← hpacked.entries_perm.countP_eq, ← hcap]
    refine card_le_countP_home hpacked.reached (fun i hi => ?_) (fun i hi hash hreached => ?_)
    · exact (mem_saturated.mp hi).2 0 i rfl
    · have hlt := (mem_saturated.mp hi).1
      exact mem_saturated.mpr ⟨Probe.home_lt (by omega),
        saturated_of_reaches hpacked.tombCount_eq hreached (mem_saturated.mp hi).2⟩
  -- no path leaves the set, so the old array has all entries for it in it
  have hold : t.entries.countP (homeIn t.capacity S) ≤ S.card := by
    refine countP_home_le fun i a ha hi => ?_
    obtain ⟨hlt, hsat⟩ := mem_saturated.mp hi
    obtain ⟨j, _, hx, _⟩ := hreach i a ha
    replace hx : p.nth? t.capacity (Probe.home a.hash t.capacity) j = some i := hx
    rw [← hcap] at hx hsat hlt
    exact mem_saturated.mpr ⟨Probe.nth?_lt hlt hx, hsat.nth? hx⟩
  -- and it has one entry more for it
  have hmore : pre.countP (homeIn t.capacity S) + 1 ≤ t.entries.countP (homeIn t.capacity S) := by
    rw [countP_homeIn, countP_homeIn, hes.countP_eq, List.countP_append, List.countP_cons,
      if_pos (decide_eq_true hhome)]
    omega
  omega

end Table

namespace World

variable {K V τ : Type} {cb : Callbacks K V τ} {s : Strategy K} {w : World K V τ}

/-- A rebuild at the current capacity moves every entry. -/
theorem purge_ends (hcb : cb.Plain s) (hsound : Table.Sound s w.table)
    (hlim : w.table.capacity < s.limit.capacity) (hpos : 0 < w.table.capacity)
    (hp : s.probe.InRange w.table.capacity) :
    (rebuild cb w.table.capacity).Ends w
      (fun _ w' => Table.Packed s.probe w.table.capacity w.table.entries w'.table)
      fun _ _ => False := by
  refine (rebuild_ends hcb hpos).imp (fun _ w' h => h.2.2.1) (fun f w' h => ?_)
  obtain ⟨_, hstop⟩ := h
  cases hstop with
  | overflow hge _ => omega
  | @stuck _ pre post e _ hes hpacked hstuck =>
    have hhashes : w.table.entries.map Entry.hash =
        pre.map Entry.hash ++ e.hash :: post.map Entry.hash := by
      rw [hes, List.map_append, List.map_cons]
    exact Table.exists_place hp hsound.reached (.of_eq hhashes) hpacked hstuck
  | miscount _ _ hne =>
    refine hne ?_
    rw [Table.length_entries]
    exact hsound.exact.live_eq.symm

theorem rehash_zero_ends (hcb : cb.Plain s) (hsound : Table.Sound s w.table)
    (hlim : w.table.capacity < s.limit.capacity) (hpos : 0 < w.table.capacity)
    (hp : s.probe.InRange w.table.capacity) :
    (rehash cb 0).Ends w
      (fun _ w' => Table.Packed s.probe w.table.capacity w.table.entries w'.table)
      fun _ _ => False := by
  have htarget : rehashTarget w.table.capacity 0 = some w.table.capacity := by
    unfold rehashTarget
    rw [if_pos rfl, if_neg (by omega)]
  have hends := purge_ends hcb hsound hlim hpos hp
  unfold Ends at hends ⊢
  rw [rehash_of_some htarget]
  exact hends

end World

/-- The requests that rebuild a table in place: a rehash to nothing, and a reservation for
which the table is large enough but has too many tombstones. -/
inductive Table.Purges {K V : Type} (t : Table K V) : Request K V → Prop where
  | rehash : Purges t (.rehash 0)
  | reserve {extra wanted : Nat} : extra ≠ 0 →
      World.reservedCapacity (t.live + extra) = .ok wanted → wanted ≤ t.capacity →
      t.hasRoomFor extra = .ok false → Purges t (.reserve extra)

namespace Session

variable {K V : Type} {s : Strategy K} {session : Session K V}

/-- A purge is always answered. It keeps the entries with their hashes, and the capacity,
and it drops all tombstones. No more is asked of the probe function than that it stays in
the table, and nothing at all of the hash and of the equality. -/
theorem Intact.purge_succeeds (h : Intact s session) (hpos : 0 < session.world.table.capacity)
    (hp : s.probe.InRange session.world.table.capacity) {r : Request K V}
    (hr : session.world.table.Purges r) :
    ∃ session', Session.step s r session = (.ok .done, session') ∧
      session'.world.table.entries.Perm session.world.table.entries ∧
      session'.world.table.live = session.world.table.live ∧
      session'.world.table.capacity = session.world.table.capacity ∧
      session'.world.table.tombs = 0 ∧ session'.world.table.tombCount = 0 := by
  have hcb : (s.callbacks : Callbacks K V (Journal K V)).Plain s := s.callbacks_plain
  have hsound := h.sound
  have hlim := h.reachable.served.capacity_lt
  have hrehash := rehash_zero_ends hcb hsound hlim hpos hp
  have hends : (handle s r).Ends session
      (fun reply session' => reply = .done ∧ Table.Packed s.probe session.world.table.capacity
        session.world.table.entries session'.world.table)
      fun _ _ => False := by
    cases hr with
    | rehash =>
      refine ends_onWorld.mpr ?_
      rw [ends_bind]
      exact hrehash.imp (fun _ w h => ⟨rfl, h⟩) (fun _ _ h => h)
    | @reserve extra wanted hextra hwanted hle hroom =>
      refine ends_onWorld.mpr ?_
      unfold reserve
      rw [if_neg hextra, ends_bind, ends_bind, ends_get]
      dsimp only
      rw [ends_bind, hwanted, ends_lift_ok, if_neg (by omega), ends_bind, hroom, ends_lift_ok]
      exact hrehash.imp (fun _ w h => ⟨rfl, h⟩) (fun _ _ h => h)
  rcases step_cases hends with ⟨reply, session', hstep, hreply, hpacked⟩ | ⟨_, _, _, hfalse⟩
  · refine ⟨session', by rw [hstep, hreply], hpacked.entries_perm, ?_, hpacked.capacity_eq,
      hpacked.tombs_eq, hpacked.tombCount_eq⟩
    rw [hpacked.live_eq, Table.length_entries]
    exact hsound.exact.live_eq.symm
  · exact hfalse.elim

/-- A probe function that knows only the first bucket, and a tombstone in the home of the
entry that is left. -/
theorem purge_succeeds_toZero :
    let s : Strategy Nat :=
      { hash := fun _ => 1, equals := fun a b => a == b, probe? := some Probe.toZero }
    let session₀ : Session Nat Nat :=
      { world := { table := .blank 4, heap := ⟨1, 0⟩, client := [] } }
    let session := (run s [.insert 1 10, .insert 2 20, .erase 1] session₀).2
    Session.start s 4 none none = .ok session₀ ∧
      session.world.table.buckets = #[.full ⟨1, 2, 20⟩, .tombstone, .empty, .empty] ∧
      ∃ session', step s (.rehash 0) session = (.ok .done, session') ∧
        session'.world.table.entries.Perm session.world.table.entries ∧
        session'.world.table.tombs = 0 := by
  intro s session₀ session
  have hstart : Session.start s 4 none none = .ok session₀ := rfl
  have hintact : Intact s session := (Intact.start hstart).run _ (by simp)
  have hpos : 0 < session.world.table.capacity := by decide +kernel
  refine ⟨hstart, by decide +kernel, ?_⟩
  obtain ⟨session', hstep, hentries, _, _, htombs, _⟩ :=
    hintact.purge_succeeds hpos (fun _ _ => ⟨0, rfl, hpos⟩) .rehash
  exact ⟨session', hstep, hentries, htombs⟩

end Session

end OpenAddressing
