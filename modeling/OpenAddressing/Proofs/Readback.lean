import OpenAddressing.Proofs.Landings
import OpenAddressing.Proofs.Places
import Mathlib.Data.Nat.Find

/-!
# Reading back what was put in

Nothing is known here of the equality but that it accepts a key for itself. It need be
neither symmetric nor transitive, and equal keys may have different hashes; the table may
hold several entries that it cannot tell apart.

Still a lookup right after an insertion comes to the pair that was put in. The slot of an
insertion is a bucket that its search has come by (`exists_gets_of_acquire`): what lies on
the path before the first visit of this bucket is passed, and the insertion does not touch
it. The next search with the same key takes the same path and passes the same buckets, so
the first entry that it accepts is the one in the slot (`plainSeek_setFull`).
-/

namespace OpenAddressing

open Act World

/-- The bucket of a slot. -/
def Slot.index : Slot → Nat
  | .occupied i => i
  | .vacant i _ => i

/-- The bucket of a slot if it has an entry already. -/
def Slot.found? : Slot → Option Nat
  | .occupied i => some i
  | .vacant _ _ => none

namespace Seek

variable {K V : Type} {p : Probe} {accepts : K → Bool} {hash : UInt64}
  {buckets buckets' : Array (Bucket K V)} {i j m x y : Nat} {slot : Slot} {e : Entry K V}

/-- On its way a search gets to each bucket before. -/
theorem Gets.of_le (h : Gets p accepts hash buckets i j x) (hm : m ≤ j)
    (hy : p.nth? buckets.size i m = some y) : Gets p accepts hash buckets i m y :=
  ⟨hy, fun m' hm' => h.2 m' (by omega)⟩

/-- A search that gets to a bucket gets there for a first time. -/
theorem Gets.exists_first (h : Gets p accepts hash buckets i j x) :
    ∃ m ≤ j, Gets p accepts hash buckets i m x ∧
      ∀ m' < m, p.nth? buckets.size i m' ≠ some x := by
  classical
  have hex : ∃ m, p.nth? buckets.size i m = some x := ⟨j, h.1⟩
  have hle : Nat.find hex ≤ j := Nat.find_min' hex h.1
  exact ⟨Nat.find hex, hle, h.of_le hle (Nat.find_spec hex), fun m' hm' => Nat.find_min hex hm'⟩

/-- What lies on the way decides how far a search gets. -/
theorem Gets.congr (hsize : buckets'.size = buckets.size)
    (hkept : ∀ m < j, ∀ y, p.nth? buckets.size i m = some y → buckets'[y]? = buckets[y]?)
    (h : Gets p accepts hash buckets i j x) : Gets p accepts hash buckets' i j x := by
  refine ⟨by rw [hsize]; exact h.1, fun m hm y b hy hb => ?_⟩
  rw [hsize] at hy
  rw [hkept m hm y hy] at hb
  exact h.2 m hm y b hy hb

/-- The first tombstone on the way is a bucket that the search has got to. -/
theorem Gets.firstTombstone (h : Gets p accepts hash buckets i j x)
    (hy : firstTombstone p buckets i j = some y) :
    ∃ m < j, Gets p accepts hash buckets i m y := by
  obtain ⟨m, hm, hvisit⟩ := List.mem_filterMap.mp (List.mem_of_find?_eq_some hy)
  have hlt := List.mem_range.mp hm
  exact ⟨m, hlt, h.of_le (by omega) hvisit⟩

/-- The slot of an insertion is one that its search has got to. -/
theorem exists_gets_of_acquire (hpos : 0 < buckets.size)
    (h : plainAcquire p accepts hash buckets = .ok slot) :
    ∃ j < buckets.size,
      Gets p accepts hash buckets (Probe.home hash buckets.size) j slot.index := by
  have hhome : Probe.home hash buckets.size < buckets.size := Probe.home_lt hpos
  unfold plainAcquire plainSeek at h
  rcases gets_cases p accepts hash buckets.size hhome with
    ⟨j, hj, x, e, hgets, hx, hfit⟩ | ⟨j, hj, x, hgets, hx⟩ | ⟨x, hgets⟩ |
    ⟨j, hj, x, b, f, hgets, hx, hpassed, hstep⟩
  · rw [plainWalk_of_fits hhome hj hgets hx hfit] at h
    have hslot : Slot.occupied x = slot := Except.ok.inj h
    exact ⟨j, hj, hslot ▸ hgets⟩
  · rw [plainWalk_of_empty hhome hj hgets hx, Option.none_or] at h
    replace h : (Landing.gap x _).slot buckets.size = .ok slot := h
    rw [slot_gap] at h
    have hslot := Except.ok.inj h
    cases hfirst : firstTombstone p buckets (Probe.home hash buckets.size) j with
    | none =>
      rw [hfirst] at hslot
      exact ⟨j, hj, hslot ▸ hgets⟩
    | some y =>
      rw [hfirst] at hslot
      obtain ⟨m, hm, hfound⟩ := hgets.firstTombstone hfirst
      exact ⟨m, by omega, hslot ▸ hfound⟩
  · rw [plainWalk_of_lap hhome hgets, Option.none_or] at h
    replace h : (Landing.lap _).slot buckets.size = .ok slot := h
    rw [slot_lap] at h
    cases hfirst : firstTombstone p buckets (Probe.home hash buckets.size) buckets.size with
    | none =>
      rw [hfirst] at h
      exact absurd h (by simp [slotAfterLap])
    | some y =>
      rw [hfirst] at h
      have hslot : Slot.vacant y true = slot := Except.ok.inj h
      obtain ⟨m, hm, hfound⟩ := hgets.firstTombstone hfirst
      exact ⟨m, hm, hslot ▸ hfound⟩
  · rw [plainWalk_of_step_error hhome hj hgets hx hpassed hstep] at h
    obtain ⟨landing, hstop, _⟩ := bind_eq_ok_iff.mp h
    exact absurd hstop (by simp)

/-- A lookup finds what an insertion that accepts the same keys has found. -/
theorem found?_of_acquire (h : plainAcquire p accepts hash buckets = .ok slot) :
    ∃ landing, plainSeek p accepts hash buckets = .ok landing ∧ landing.found? = slot.found? := by
  obtain ⟨landing, hseek, h⟩ := bind_eq_ok_iff.mp h
  refine ⟨landing, hseek, ?_⟩
  cases landing with
  | hit x => rw [← (Except.ok.inj h : Slot.occupied x = slot)]; rfl
  | gap x tomb =>
    rw [slot_gap] at h
    rw [← Except.ok.inj h]
    cases tomb <;> rfl
  | lap tomb =>
    rw [slot_lap] at h
    cases tomb with
    | none => exact absurd h (by simp [slotAfterLap])
    | some y => rw [← (Except.ok.inj h : Slot.vacant y true = slot)]; rfl

/-- An accepted entry that is put into the slot is the first one that the search comes to. -/
theorem plainSeek_setFull {t : Table K V} (hpos : 0 < t.capacity)
    (h : plainAcquire p accepts hash t.buckets = .ok slot) (hfit : Fits accepts hash e) :
    plainSeek p accepts hash (t.setBucket slot.index (.full e)).buckets =
      .ok (.hit slot.index) := by
  obtain ⟨j, hj, hgets⟩ := exists_gets_of_acquire hpos h
  obtain ⟨m, hm, hfirst, hnew⟩ := hgets.exists_first
  have hhome : Probe.home hash t.buckets.size < t.buckets.size := Probe.home_lt hpos
  have hslot : slot.index < t.capacity := Probe.nth?_lt hhome hgets.1
  have hsize : (t.setBucket slot.index (.full e)).buckets.size = t.buckets.size :=
    Table.capacity_setBucket
  -- no bucket before the first visit is the one that is written
  have hgets' : Gets p accepts hash (t.setBucket slot.index (.full e)).buckets
      (Probe.home hash t.buckets.size) m slot.index := by
    refine hfirst.congr hsize fun m' hm' y hy => ?_
    rw [Table.getElem?_setBucket hslot, if_neg]
    intro hne
    exact hnew m' hm' (hne ▸ hy)
  have hfull : (t.setBucket slot.index (.full e)).buckets[slot.index]? = some (.full e) := by
    rw [Table.getElem?_setBucket hslot, if_pos rfl]
  unfold plainSeek
  rw [hsize]
  exact plainWalk_of_fits (by rw [hsize]; exact hhome) (by omega) hgets' hfull hfit

end Seek

namespace Table

variable {K V : Type} {s : Strategy K} {k : K} {v : V} {t t' : Table K V}
  {r : Option (Entry K V)}

/-- Storing a pair writes one bucket, and a lookup of the key finds this bucket then. -/
theorem Stored.readback (hpos : 0 < t.capacity) (hk : s.equals k k = true)
    (h : t.Stored s k v r t') :
    ∃ i, t'.plainFind s k = .ok (some i) ∧ t'.entryAt? i = some ⟨s.hash k, k, v⟩ ∧
      ∀ x, x ≠ i → t'.buckets[x]? = t.buckets[x]? := by
  have hfit : Seek.Fits (s.equals k) (s.hash k) (⟨s.hash k, k, v⟩ : Entry K V) := ⟨rfl, hk⟩
  -- both ways of storing write the entry into the bucket of the slot
  obtain ⟨slot, hslot, hbuckets⟩ : ∃ slot,
      Seek.plainAcquire s.probe (s.equals k) (s.hash k) t.buckets = .ok slot ∧
        t'.buckets = (t.setBucket slot.index (.full ⟨s.hash k, k, v⟩)).buckets := by
    cases h with
    | fill hslot => exact ⟨_, hslot, rfl⟩
    | replace hslot _ => exact ⟨_, hslot, rfl⟩
  have hseek := Seek.plainSeek_setFull hpos hslot hfit
  rw [← hbuckets] at hseek
  obtain ⟨⟨e, he, _⟩, _⟩ := plainSeek_hit hseek
  have hi : slot.index < t.capacity := by
    rw [← h.capacity_eq]
    exact lt_capacity_of_entryAt? he
  refine ⟨slot.index, ?_, ?_, fun x hx => ?_⟩
  · exact plainFind_of_plainSeek (by rw [h.capacity_eq]; omega) hseek
  · rw [entryAt?_eq_some_iff, hbuckets, getElem?_setBucket hi, if_pos rfl]
  · rw [hbuckets, getElem?_setBucket hi, if_neg (fun hxi => hx hxi.symm)]

/-- What storing a pair replaces is what a lookup of the key would have found, and the
number of entries grows if this is nothing. -/
theorem Stored.replaces (hpos : 0 < t.capacity) (h : t.Stored s k v r t') :
    (∃ i?, t.plainFind s k = .ok i? ∧ i?.bind t.entryAt? = r) ∧
      t'.live = t.live + (if r.isNone then 1 else 0) ∧
      t'.entries.length = t.entries.length + (if r.isNone then 1 else 0) := by
  have hfind : ∀ slot, Seek.plainAcquire s.probe (s.equals k) (s.hash k) t.buckets = .ok slot →
      t.plainFind s k = .ok slot.found? := by
    intro slot hslot
    obtain ⟨landing, hseek, hfound⟩ := Seek.found?_of_acquire hslot
    rw [plainFind_of_plainSeek (by omega) hseek, hfound]
  cases h with
  | fill hslot =>
    have hfree := (plainAcquire_vacant hslot).1
    refine ⟨⟨none, hfind _ hslot, rfl⟩, rfl, ?_⟩
    exact (entries_fillAt hfree).length_eq
  | replace hslot hold =>
    refine ⟨⟨_, hfind _ hslot, hold⟩, rfl, ?_⟩
    rw [length_entries, length_entries, fullCount_setFull hold]
    rfl

end Table

namespace Session

variable {K V : Type} {s : Strategy K} {session session' : Session K V} {k : K} {v : V}
  {reply : Reply K V}

/-- If an insertion of `k` returns and the equality accepts `k` for itself, then a lookup of
`k` right after it answers with the pair that was inserted. If besides the array has not
been rebuilt, then all buckets but the one that the lookup finds are as before, and the
number of entries has grown by one if a lookup of `k` before would have answered that there
is none, and not otherwise. -/
theorem insert_then_lookup (h : Reachable s session) (hk : s.equals k k = true)
    (hinsert : step s (.insert k v) session = (.ok reply, session')) :
    let t := session.world.table
    let t' := session'.world.table
    (step s (.lookup (.getEntry k)) session').1 = .ok (.answer (.entry (some (k, v)))) ∧
    ∃ i, t'.plainFind s k = .ok (some i) ∧ t'.entryAt? i = some ⟨s.hash k, k, v⟩ ∧
      (¬ Rebuilds s (.insert k v) session →
        (∀ x, x ≠ i → t'.buckets[x]? = t.buckets[x]?) ∧
        ∃ before,
          (step s (.lookup (.getEntry k)) session).1 = .ok (.answer (.entry before)) ∧
          t'.live = t.live + (if before.isNone then 1 else 0) ∧
          t'.entries.length = t.entries.length + (if before.isNone then 1 else 0)) := by
  intro t t'
  have hw := h.atRest
  have hsettles := insert_settles (k := k) (v := v) (s.callbacks_plain (V := V))
    (Strategy.callbacks_keeps fun _ _ _ => rfl) hw
  have hp' : session'.world.probing = false := by
    have hnext := (h.step (.insert k v)).atRest
    rw [hinsert] at hnext
    exact hnext.probing_eq
  cases hrun : insert s.callbacks k v session.world with
  | error f w' =>
    rw [step_of_error (r := .insert k v) (g := fun _ => .done) rfl hrun] at hinsert
    exact absurd (congrArg Prod.fst hinsert) (by simp)
  | ok _ w' =>
    have hstep := step_of_ok (r := .insert k v) (g := fun _ => .done) rfl hrun
    obtain ⟨w₁, r, hsettled, hroomy, hstored, hheap⟩ := hsettles.of_ok hrun
    have hw' : w' = session'.world := by
      rw [hstep] at hinsert
      exact congrArg (fun stepped => stepped.2.world) hinsert
    subst hw'
    have hpos : 0 < w₁.table.capacity := by
      unfold Table.Roomy at hroomy
      omega
    obtain ⟨i, hfind, hentry, hother⟩ := hstored.readback hpos hk
    refine ⟨?_, i, hfind, hentry, fun hrebuilds => ?_⟩
    · rw [step_getEntry hp' hfind, Option.bind_some, hentry]
      rfl
    · -- an array that has not been rebuilt is the one that the pair is stored in
      have htable : w₁.table = t := by
        rcases hsettled with ⟨htable, _⟩ | hlt
        · exact htable
        · exfalso
          refine hrebuilds ⟨rfl, ?_⟩
          rw [hinsert]
          show session'.world.heap.allocated ≠ session.world.heap.allocated
          rw [hheap]
          omega
      rw [htable] at hstored hother hpos
      obtain ⟨⟨i?, hbefore, hr⟩, hlive, hlength⟩ := hstored.replaces hpos
      refine ⟨hother, r.map Entry.pair, ?_, ?_, ?_⟩
      · rw [step_getEntry hw.probing_eq hbefore, ← hr]
      · rw [Option.isNone_map]
        exact hlive
      · rw [Option.isNone_map]
        exact hlength

/-- The equality is the order of the numbers, so it is not symmetric: 20 goes past 12, which
does not accept it, into the tombstone that 9 has left; after that 3 finds and replaces 20,
because it comes before it. -/
theorem insert_then_lookup_ordered :
    let s : Strategy Nat := { hash := fun _ => 0, equals := fun a b => decide (a ≤ b) }
    let session₀ : Session Nat Nat :=
      { world := { table := .blank 8, heap := ⟨1, 0⟩, client := [] } }
    let session := (run s [.insert 9 90, .insert 12 120, .erase 9] session₀).2
    let session' := (step s (.insert 20 200) session).2
    let session'' := (step s (.insert 3 30) session').2
    Session.start s 8 none none = .ok session₀ ∧
      session.world.table.entryAt? 0 = none ∧ ¬ Rebuilds s (.insert 20 200) session ∧
      (step s (.lookup (.getEntry 20)) session').1 = .ok (.answer (.entry (some (20, 200)))) ∧
      session'.world.table.live = 2 ∧
      (step s (.lookup (.getEntry 3)) session'').1 = .ok (.answer (.entry (some (3, 30)))) ∧
      session''.world.table.entryAt? 0 = some ⟨0, 3, 30⟩ ∧ session''.world.table.live = 2 := by
  intro s session₀ session session' session''
  have hstart : Session.start s 8 none none = .ok session₀ := rfl
  have hreach : Reachable s session := (Reachable.start hstart).run _
  have hrebuilds : ¬ Rebuilds s (.insert 20 200) session := by decide +kernel
  have hok : (step s (.insert 20 200) session).1.isOk = true := by decide +kernel
  have hok' : (step s (.insert 3 30) session').1.isOk = true := by decide +kernel
  obtain ⟨reply, hinsert⟩ := exists_reply hok
  obtain ⟨reply', hinsert'⟩ := exists_reply hok'
  have hafter := insert_then_lookup hreach (by decide) hinsert
  have hafter' := insert_then_lookup (hreach.step _) (by decide) hinsert'
  exact ⟨hstart, by decide +kernel, hrebuilds, hafter.1, by decide +kernel, hafter'.1,
    by decide +kernel, by decide +kernel⟩

end Session

end OpenAddressing
