import OpenAddressing.Proofs.Purging
import OpenAddressing.Proofs.Targets

/-!
# The layout of a rebuilt array

A rebuild moves the entries one by one, each into the first free bucket on its path, so
where an entry ends up depends on what has been moved before it. Which buckets are full in
the end does not depend on that, but only on the hashes.

Suppose that two arrays of one size are packed with entries of the same hashes, and that
bucket `x` is full in the first one and free in the second one. Look at the buckets from
which the path leads to `x` through buckets that are full in the first array (`basin`). The
entries with their home among them are counted in both arrays.

* In the first array each of these buckets holds an entry, and that entry has its home
  among them, because up to its bucket it has passed only full buckets.
* In the second array an entry with its home among them has `x` ahead of it on its path.
  Since `x` is free the entry lies before it, and so in one of these buckets other than `x`.

So the second array has fewer such entries than the first one, although the hashes are the
same (`Packed.occupied_subset`). Whether there is a place for every entry does not depend on
their order either, by `exists_place`: an array in which all entries have a place shows that
no entry is left over in another order (`Packed.not_stuck`).
-/

namespace OpenAddressing

open Act World

namespace Table

variable {K V K' V' : Type} {t : Table K V} {t' : Table K' V'} {p : Probe} {c i x y : Nat}
  {es : List (Entry K V)} {es' : List (Entry K' V')}

/-- The full buckets. -/
def occupied (t : Table K V) : Finset Nat := t.holding fun _ => true

theorem mem_occupied : i ∈ t.occupied ↔ (t.entryAt? i).isSome = true := by
  unfold occupied
  rw [mem_holding, Option.isSome_iff_exists]
  constructor
  · rintro ⟨e, he, _⟩
    exact ⟨e, he⟩
  · rintro ⟨e, he⟩
    exact ⟨e, he, rfl⟩

/-- The path from bucket `y` leads to bucket `x`, and all buckets up to there are full. -/
def LeadsTo (p : Probe) (t : Table K V) (x y : Nat) : Prop :=
  ∃ j, p.nth? t.capacity y j = some x ∧
    ∀ m ≤ j, ∀ z, p.nth? t.capacity y m = some z → z ∈ t.occupied

open Classical in
/-- The buckets from which the path leads to bucket `x` through full buckets. -/
noncomputable def basin (p : Probe) (t : Table K V) (x : Nat) : Finset Nat :=
  (Finset.range t.capacity).filter fun y => t.LeadsTo p x y

theorem mem_basin : y ∈ t.basin p x ↔ y < t.capacity ∧ t.LeadsTo p x y := by
  classical
  unfold basin
  rw [Finset.mem_filter, Finset.mem_range]

/-- Further along, the path still leads to the same bucket. -/
theorem LeadsTo.drop {j k : Nat} (hj : p.nth? t.capacity y j = some x)
    (hfull : ∀ m ≤ j, ∀ z, p.nth? t.capacity y m = some z → z ∈ t.occupied) (hkj : k ≤ j)
    (hk : p.nth? t.capacity y k = some i) : t.LeadsTo p x i := by
  obtain ⟨n, rfl⟩ := Nat.exists_eq_add_of_le hkj
  refine ⟨n, by rw [← Probe.nth?_add_of hk]; exact hj, fun m hm z hz => ?_⟩
  rw [← Probe.nth?_add_of hk] at hz
  exact hfull (k + m) (by omega) z hz

/-- Without tombstones, a path that leads to an entry goes on to where this one leads. -/
theorem LeadsTo.of_reaches (htombs : t.tombCount = 0) {hash : UInt64}
    (hreach : t.Reaches p hash i) (hi : t.LeadsTo p x i) :
    t.LeadsTo p x (Probe.home hash t.capacity) := by
  obtain ⟨k, hk, hbefore⟩ := hreach.full_before htombs
  obtain ⟨j, hj, hfull⟩ := hi
  refine ⟨k + j, by rw [Probe.nth?_add_of hk]; exact hj, fun m hm z hz => ?_⟩
  rcases Nat.lt_or_ge m k with hlt | hge
  · exact mem_occupied.mpr (hbefore m hlt z hz)
  · obtain ⟨n, rfl⟩ := Nat.exists_eq_add_of_le hge
    rw [Probe.nth?_add_of hk] at hz
    exact hfull n (by omega) z hz

/-- An entry whose path leads to a free bucket lies before this bucket. -/
theorem mem_erase_basin (hcap : t'.capacity = t.capacity) (htombs : t'.tombCount = 0)
    {e : Entry K' V'} (he : t'.entryAt? i = some e) (hreach : t'.Reaches p e.hash i)
    (hfree : x ∉ t'.occupied) (hhome : Probe.home e.hash t.capacity ∈ t.basin p x) :
    i ∈ (t.basin p x).erase x := by
  obtain ⟨k, hi, hbefore⟩ := hreach.full_before htombs
  obtain ⟨hlt, j, hj, hfull⟩ := mem_basin.mp hhome
  rw [hcap] at hi hbefore
  have hix : i ≠ x := by
    intro hix
    rw [hix] at he
    exact hfree (mem_occupied.mpr (by rw [he]; rfl))
  have hkj : k ≤ j := by
    rcases Nat.lt_or_ge j k with hjk | hge
    · -- the path to the entry would have passed the free bucket
      exact absurd (mem_occupied.mpr (hbefore j hjk x hj)) hfree
    · exact hge
  refine Finset.mem_erase.mpr ⟨hix, mem_basin.mpr ⟨?_, LeadsTo.drop hj hfull hkj hi⟩⟩
  exact Probe.nth?_lt hlt hi

/-- A bucket that is full in one packed array is full in every other one with the same hashes. -/
theorem Packed.occupied_subset (h : Packed p c es t) (h' : Packed p c es' t')
    (hhashes : (es.map Entry.hash).Perm (es'.map Entry.hash)) : t.occupied ⊆ t'.occupied := by
  intro x hx
  refine Decidable.byContradiction fun hfree => ?_
  have hcap : t'.capacity = t.capacity := h'.capacity_eq.trans h.capacity_eq.symm
  have hself : x ∈ t.basin p x := by
    obtain ⟨e, he⟩ := Option.isSome_iff_exists.mp (mem_occupied.mp hx)
    refine mem_basin.mpr ⟨lt_capacity_of_entryAt? he, 0, rfl, fun m hm z hz => ?_⟩
    obtain rfl : m = 0 := by omega
    exact Option.some.inj hz ▸ hx
  have hmore : (t.basin p x).card ≤ t.entries.countP (homeIn t.capacity (t.basin p x)) := by
    refine card_le_countP_home h.reached (fun i hi => ?_) (fun i hi hash hreach => ?_)
    · obtain ⟨_, j, _, hfull⟩ := mem_basin.mp hi
      exact mem_occupied.mp (hfull 0 (by omega) i rfl)
    · obtain ⟨hlt, hleads⟩ := mem_basin.mp hi
      exact mem_basin.mpr ⟨Probe.home_lt (by omega),
        LeadsTo.of_reaches h.tombCount_eq hreach hleads⟩
  have hless : t'.entries.countP (homeIn t.capacity (t.basin p x)) ≤
      ((t.basin p x).erase x).card := by
    rw [← hcap]
    refine countP_home_le fun i e he hhome => ?_
    rw [hcap] at hhome
    exact mem_erase_basin hcap h'.tombCount_eq he (h'.reached i e he) hfree hhome
  have hsame : t.entries.countP (homeIn t.capacity (t.basin p x)) =
      t'.entries.countP (homeIn t.capacity (t.basin p x)) := by
    rw [h.entries_perm.countP_eq, h'.entries_perm.countP_eq, countP_homeIn, countP_homeIn,
      hhashes.countP_eq]
  have hlost := Finset.card_erase_lt_of_mem hself
  omega

theorem Packed.occupied_eq (h : Packed p c es t) (h' : Packed p c es' t')
    (hhashes : (es.map Entry.hash).Perm (es'.map Entry.hash)) : t.occupied = t'.occupied :=
  Finset.Subset.antisymm (h.occupied_subset h' hhashes) (h'.occupied_subset h hhashes.symm)

/-- If all entries have found a place in one array, then no entry is stuck in another one
into which entries with the same hashes are moved. -/
theorem Packed.not_stuck (h : Packed p c es t) (hp : p.InRange c) {pre post : List (Entry K' V')}
    {e : Entry K' V'} {f : Fault} (h' : Packed p c pre t')
    (hhashes : (es.map Entry.hash).Perm ((pre ++ e :: post).map Entry.hash)) :
    Seek.plainAcquire p (fun _ => false) e.hash t'.buckets ≠ .error f := by
  have hcap := h.capacity_eq
  subst hcap
  rw [List.map_append, List.map_cons] at hhashes
  exact exists_place hp h.reached ((h.entries_perm.map _).trans hhashes) h'

/-- If the probe function stays in the table and the search comes to no slot, then because
the lap is over. -/
theorem eq_probeExhausted {accepts : K → Bool} {hash : UInt64} {f : Fault}
    (hp : p.InRange t.capacity) (hpos : 0 < t.capacity)
    (h : Seek.plainAcquire p accepts hash t.buckets = .error f) :
    f = .probeExhausted t.capacity := by
  obtain ⟨landing, hl⟩ : ∃ landing, Seek.plainSeek p accepts hash t.buckets = .ok landing :=
    Seek.exists_landing hp (Probe.home_lt hpos)
  rcases bind_eq_error_iff.mp h with hstop | ⟨_, _, h⟩
  · rw [hl] at hstop
    exact absurd hstop (by simp)
  · exact (Landing.slot_eq_error_iff.mp h).2

/-- The counters of a packed table are right. -/
theorem Packed.exact (h : Packed p c es t) : t.Exact where
  live_eq := h.live_eq.trans h.fullCount_eq.symm
  tombs_eq := h.tombs_eq.trans h.tombCount_eq.symm

/-- An empty array is packed as it is. -/
theorem Exact.packed (h : t.Exact) (hcap : t.capacity = 0) : Packed p 0 t.entries t := by
  have htombs : t.tombCount = 0 := by
    have hle := t.tombCount_le_capacity
    omega
  refine ⟨hcap, ?_, h.tombs_eq.trans htombs, htombs, .refl _, fun i e he => ?_⟩
  · rw [length_entries]
    exact h.live_eq
  · have hlt := lt_capacity_of_entryAt? he
    omega

/-- The requests for a rebuild at `c` buckets: to grow to as many, or to stay at as many. -/
inductive RebuildsAt (t : Table K V) (c : Nat) : Nat → Prop where
  | grow : t.capacity < c → RebuildsAt t c c
  | stay : t.capacity = c → RebuildsAt t c 0

theorem RebuildsAt.rehashTarget_eq {n : Nat} (h : t.RebuildsAt c n) (hpos : 0 < c) :
    World.rehashTarget t.capacity n = some c := by
  unfold World.rehashTarget
  cases h with
  | grow hlt => rw [if_neg (by omega), if_neg (by omega)]
  | stay heq => rw [if_pos rfl, if_neg (by omega), heq]

/-- No array has zero buckets after it has grown. -/
theorem RebuildsAt.eq_zero {n : Nat} (h : t.RebuildsAt 0 n) : n = 0 ∧ t.capacity = 0 := by
  cases h with
  | grow hlt => omega
  | stay heq => exact ⟨rfl, heq⟩

end Table

namespace Session

variable {K V K' V' : Type} {s : Strategy K} {s' : Strategy K'} {session : Session K V}
  {session' : Session K' V'} {c n n' : Nat}

/-- A rehash to `c` buckets, of a table with right counters: either all entries are moved, or
one of them is stuck behind those before it. -/
theorem step_rehash (hexact : session.world.table.Exact) (hp : s.probe.InRange c)
    (hn : session.world.table.RebuildsAt c n) (hlim : c < s.limit.capacity) :
    (∃ after, step s (.rehash n) session = (.ok .done, after) ∧
      Table.Packed s.probe c session.world.table.entries after.world.table) ∨
    ∃ after pre e post, step s (.rehash n) session = (.error (.probeExhausted c), after) ∧
      session.world.table.entries = pre ++ e :: post ∧
      Table.Packed s.probe c pre after.world.table ∧
      Seek.plainAcquire s.probe (fun _ => false) e.hash after.world.table.buckets =
        .error (.probeExhausted c) := by
  rcases Nat.eq_zero_or_pos c with rfl | hpos
  · -- nothing is done, and nothing is to be done
    obtain ⟨rfl, hcap⟩ := hn.eq_zero
    have htarget : rehashTarget session.world.table.capacity 0 = none := by rw [hcap]; rfl
    exact Or.inl ⟨_, step_of_ok (g := fun _ => .done) rfl (rehash_of_none htarget),
      hexact.packed hcap⟩
  have htarget := hn.rehashTarget_eq hpos
  have hends := rebuild_ends (w := session.world) (s.callbacks_plain (V := V)) hpos
  have hrehash : rehash s.callbacks n session.world = rebuild s.callbacks c session.world :=
    rehash_of_some htarget
  cases hrun : rebuild s.callbacks c session.world with
  | ok _ w' =>
    obtain ⟨_, _, hpacked, _⟩ := hends.of_ok hrun
    exact Or.inl ⟨_, step_of_ok (g := fun _ => .done) rfl (hrehash.trans hrun), hpacked⟩
  | error f w' =>
    have hstep := step_of_error (r := .rehash n) (g := fun _ => Reply.done) rfl (hrehash.trans hrun)
    obtain ⟨_, hstop⟩ := hends.of_error hrun
    cases hstop with
    | overflow hge _ => omega
    | stuck _ hentries hpacked hstuck =>
      have hcap := hpacked.capacity_eq
      obtain rfl : f = .probeExhausted c := by
        rw [← hcap] at hp hpos ⊢
        exact Table.eq_probeExhausted hp hpos hstuck
      exact Or.inr ⟨_, _, _, _, hstep, hentries, hpacked, hstuck⟩
    | miscount _ _ hne =>
      rw [Table.length_entries] at hne
      exact absurd hexact.live_eq.symm hne

/-- A rehash to more buckets than there can be does nothing. -/
theorem step_rehash_of_limit_le (hn : session.world.table.RebuildsAt c n)
    (hge : s.limit.capacity ≤ c) :
    step s (.rehash n) session = (.error .capacityOverflow, session) := by
  have hpos := s.limit.capacity_pos
  exact step_of_error (g := fun _ => Reply.done) rfl
    ((rehash_of_some (hn.rehashTarget_eq (by omega))).trans (rebuild_of_limit_le hge))

/-- A table that is packed already is rebuilt in place, and in the same buckets. -/
theorem step_rehash_packed {es : List (Entry K V)} (hp : s.probe.InRange c)
    (hlim : c < s.limit.capacity) (h : Table.Packed s.probe c es session.world.table) :
    ∃ again, step s (.rehash 0) session = (.ok .done, again) ∧
      again.world.table.occupied = session.world.table.occupied ∧
      again.world.table.entries.Perm session.world.table.entries := by
  have hhashes := h.entries_perm.symm.map Entry.hash
  rcases step_rehash h.exact hp (.stay h.capacity_eq) hlim with
    ⟨again, hstep, hagain⟩ | ⟨_, pre, e, post, _, hentries, hpacked, hstuck⟩
  · exact ⟨again, hstep, (h.occupied_eq hagain hhashes).symm, hagain.entries_perm⟩
  · rw [hentries] at hhashes
    exact absurd hstuck (h.not_stuck hp hpacked hhashes)

/-- Which buckets a rebuild fills is a matter of the hashes alone. Two tables with the same
hashes that are rebuilt at `c` buckets either both stop, because some entry has no place, or
they have the same full buckets in the end. Another rebuild in place right after that fills
the same buckets again. More buckets than there can be are refused. -/
theorem rebuilds_agree (hsame : s'.probe = s.probe) (hp : s.probe.InRange c)
    (hexact : session.world.table.Exact) (hexact' : session'.world.table.Exact)
    (hhashes : (session.world.table.entries.map Entry.hash).Perm
      (session'.world.table.entries.map Entry.hash))
    (hn : session.world.table.RebuildsAt c n) (hn' : session'.world.table.RebuildsAt c n') :
    (c < s.limit.capacity → c < s'.limit.capacity → ∃ after after',
      ((step s (.rehash n) session = (.error (.probeExhausted c), after) ∧
          step s' (.rehash n') session' = (.error (.probeExhausted c), after')) ∨
        (step s (.rehash n) session = (.ok .done, after) ∧
          step s' (.rehash n') session' = (.ok .done, after') ∧
          after.world.table.capacity = c ∧ after'.world.table.capacity = c ∧
          after.world.table.entries.Perm session.world.table.entries ∧
          after'.world.table.entries.Perm session'.world.table.entries ∧
          after.world.table.occupied = after'.world.table.occupied)) ∧
      ∃ again, step s (.rehash 0) after = (.ok .done, again) ∧
        again.world.table.occupied = after.world.table.occupied ∧
        again.world.table.entries.Perm after.world.table.entries) ∧
    (s.limit.capacity ≤ c → step s (.rehash n) session = (.error .capacityOverflow, session)) ∧
    (s'.limit.capacity ≤ c →
      step s' (.rehash n') session' = (.error .capacityOverflow, session')) := by
  refine ⟨fun hlim hlim' => ?_, step_rehash_of_limit_le hn, step_rehash_of_limit_le hn'⟩
  have hother := step_rehash (s := s') hexact' (hsame ▸ hp) hn' hlim'
  rw [hsame] at hother
  rcases step_rehash hexact hp hn hlim with
    ⟨after, hstep, hpacked⟩ | ⟨after, pre, e, post, hstep, hentries, hpacked, hstuck⟩
  · obtain ⟨after', hstep', hpacked'⟩ | ⟨_, _, e', _, _, hentries', hpacked', hstuck'⟩ := hother
    · have hlayout := hpacked.occupied_eq hpacked' hhashes
      exact ⟨after, after', Or.inr ⟨hstep, hstep', hpacked.capacity_eq, hpacked'.capacity_eq,
        hpacked.entries_perm, hpacked'.entries_perm, hlayout⟩, step_rehash_packed hp hlim hpacked⟩
    · rw [hentries'] at hhashes
      exact absurd hstuck' (hpacked.not_stuck hp hpacked' hhashes)
  · obtain ⟨after', hstep', hpacked'⟩ | ⟨after', _, _, _, hstep', _, _, _⟩ := hother
    · rw [hentries] at hhashes
      exact absurd hstuck (hpacked'.not_stuck hp hpacked hhashes.symm)
    · exact ⟨after, after', Or.inl ⟨hstep, hstep'⟩, step_rehash_packed hp hlim hpacked⟩

/-- Three keys that go round the end of the table, moved to 16 buckets from 8 and from 16.
The buckets 0, 1 and 15 are full both times, but not with the same keys. -/
theorem rebuilds_agree_around :
    let s : Strategy Nat := { hash := fun k => k.toUInt64, equals := fun a b => a == b }
    let small₀ : Session Nat Nat :=
      { world := { table := .blank 8, heap := ⟨1, 0⟩, client := [] } }
    let large₀ : Session Nat Nat :=
      { world := { table := .blank 16, heap := ⟨1, 0⟩, client := [] } }
    let small := (run s [.insert 31 1, .insert 15 2, .insert 16 3] small₀).2
    let large := (run s [.insert 3 0, .insert 15 2, .insert 16 3, .insert 31 1, .erase 3] large₀).2
    Session.start s 8 none none = .ok small₀ ∧ Session.start s 16 none none = .ok large₀ ∧
      small.world.table.buckets.toList.take 2 = [.full ⟨15, 15, 2⟩, .full ⟨16, 16, 3⟩] ∧
      large.world.table.buckets.toList.take 4 =
        [.full ⟨16, 16, 3⟩, .full ⟨31, 31, 1⟩, .empty, .tombstone] ∧
      ∃ after after', step s (.rehash 16) small = (.ok .done, after) ∧
        step s (.rehash 0) large = (.ok .done, after') ∧
        after.world.table.entryAt? 1 = some ⟨31, 31, 1⟩ ∧
        after'.world.table.entryAt? 1 = some ⟨15, 15, 2⟩ ∧
        after.world.table.occupied = after'.world.table.occupied := by
  intro s small₀ large₀ small large
  have hp : s.probe.InRange 16 := (Probe.linear_covers (by decide)).inRange
  have hexact : small.world.table.Exact := ⟨by decide +kernel, by decide +kernel⟩
  have hexact' : large.world.table.Exact := ⟨by decide +kernel, by decide +kernel⟩
  have hhashes : (small.world.table.entries.map Entry.hash).Perm
      (large.world.table.entries.map Entry.hash) := by decide +kernel
  have hdone : (step s (.rehash 16) small).1.isOk = true := by decide +kernel
  obtain ⟨after, after', hends, _⟩ := (rebuilds_agree rfl hp hexact hexact' hhashes
    (.grow (by decide +kernel)) (.stay (by decide +kernel))).1 (by decide) (by decide)
  refine ⟨rfl, rfl, by decide +kernel, by decide +kernel, after, after', ?_⟩
  rcases hends with ⟨hstep, _⟩ | ⟨hstep, hstep', _, _, _, _, hsame⟩
  · rw [hstep] at hdone
    cases hdone
  · have hafter : after = (step s (.rehash 16) small).2 := by rw [hstep]
    have hafter' : after' = (step s (.rehash 0) large).2 := by rw [hstep']
    refine ⟨hstep, hstep', ?_, ?_, hsame⟩
    · rw [hafter]; decide +kernel
    · rw [hafter']; decide +kernel

end Session

end OpenAddressing
