import OpenAddressing.Proofs.Lookups
import Mathlib.Logic.Relation

/-!
# What can happen to a table

Every call changes its table by a sequence of a few *changes*: an entry is filled in,
replaced, buried or given another value, or the array is rebuilt from a first part of
the entries (all of them, or as many as could be placed before the probe function gave
up). `Change` lists them with all that the call has made sure of; the chapters on the
single calls show that they do nothing else, also when they are stopped.

The three invariants of a table are proved of changes, and thereby of all runs:

* `Bounded`: the counters are at least the numbers of full buckets and tombstones, and
  their sum is below three quarters of the capacity. This holds even after a clear
  that a hook has interrupted.
* `Exact`: the counters are these numbers.
* `Sound`: besides, every entry carries the hash of its key and is reached by a search
  for it, and no two entries have equal keys.

Clearing is not among the changes, because an interrupted one breaks `Exact`; what it
does is in `OpenAddressing.Proofs.Clearing`.
-/

namespace OpenAddressing

/-- The equality is an equivalence relation, and equal keys have equal hashes. -/
structure Strategy.Lawful {K : Type} (s : Strategy K) : Prop where
  equiv : Equivalence fun a b => s.equals a b = true
  hash : ∀ a b, s.equals a b = true → s.hash a = s.hash b

namespace Table

variable {K V : Type}

/-- The table with an entry more, in a free bucket. -/
def fillAt (t : Table K V) (i : Nat) (reused : Bool) (e : Entry K V) : Table K V :=
  { t.setBucket i (.full e) with
    live := t.live + 1, tombs := if reused then t.tombs - 1 else t.tombs }

/-- The table with a tombstone in the place of an entry. -/
def buryAt (t : Table K V) (i : Nat) : Table K V :=
  { t.setBucket i .tombstone with live := t.live - 1, tombs := t.tombs + 1 }

/-- Every entry is reached by a search for its hash. -/
def AllReached (p : Probe) (t : Table K V) : Prop :=
  ∀ i e, t.entryAt? i = some e → t.Reaches p e.hash i

/-- An array of `c` buckets into which nothing but the entries `es` has been moved, and
in which searches reach them. -/
structure Packed (p : Probe) (c : Nat) (es : List (Entry K V)) (t : Table K V) : Prop where
  capacity_eq : t.capacity = c
  live_eq : t.live = es.length
  tombs_eq : t.tombs = 0
  tombCount_eq : t.tombCount = 0
  entries_perm : t.entries.Perm es
  reached : t.AllReached p

/-- The things that a call does to a table. -/
inductive Change (s : Strategy K) : Table K V → Table K V → Prop where
  | fill {t : Table K V} {k : K} {v : V} {i : Nat} {reused : Bool} :
      Seek.plainAcquire s.probe (s.equals k) (s.hash k) t.buckets = .ok (.vacant i reused) →
      4 * (t.live + t.tombs + 1) < 3 * t.capacity →
      Change s t (t.fillAt i reused ⟨s.hash k, k, v⟩)
  | replace {t : Table K V} {k : K} {v : V} {i : Nat} :
      Seek.plainAcquire s.probe (s.equals k) (s.hash k) t.buckets = .ok (.occupied i) →
      Change s t (t.setBucket i (.full ⟨s.hash k, k, v⟩))
  | bury {t : Table K V} {i : Nat} {e : Entry K V} :
      t.entryAt? i = some e → Change s t (t.buryAt i)
  | update {t : Table K V} {i : Nat} {e : Entry K V} {f : V → V} :
      t.entryAt? i = some e → Change s t (t.setBucket i (.full (e.mapValue f)))
  | rebuild {t t' : Table K V} {c : Nat} {es : List (Entry K V)} :
      es <+: t.entries → t.capacity ≤ c → 0 < c → c < s.limit.capacity →
      Packed s.probe c es t' → Change s t t'

/-- A sequence of changes. -/
abbrev Steps (s : Strategy K) : Table K V → Table K V → Prop := Relation.ReflTransGen (Change s)

variable {s : Strategy K} {t t' : Table K V} {i : Nat} {e : Entry K V}

/-! ## Single buckets -/

@[simp] theorem capacity_fillAt {reused : Bool} :
    (t.fillAt i reused e).capacity = t.capacity := capacity_setBucket

@[simp] theorem capacity_buryAt : (t.buryAt i).capacity = t.capacity := capacity_setBucket

theorem fullCount_fillAt {reused : Bool}
    (h : t.buckets[i]? = some (if reused then .tombstone else .empty)) :
    (t.fillAt i reused e).fullCount = t.fullCount + 1 := by
  show (t.setBucket i (.full e)).fullCount = _
  have := fullCount_setBucket h (.full e)
  cases reused <;> simpa [Bucket.isFull] using this

theorem tombCount_fillAt {reused : Bool}
    (h : t.buckets[i]? = some (if reused then .tombstone else .empty)) :
    (t.fillAt i reused e).tombCount + reused.toNat = t.tombCount := by
  show (t.setBucket i (.full e)).tombCount + _ = _
  have := tombCount_setBucket h (.full e)
  cases reused <;> simpa [Bucket.isTombstone] using this

/-- A counter that is not too low counts the tombstone that is used up. -/
theorem tombs_fillAt {reused : Bool}
    (h : t.buckets[i]? = some (if reused then .tombstone else .empty))
    (hle : t.tombCount ≤ t.tombs) : (t.fillAt i reused e).tombs + reused.toNat = t.tombs := by
  have hcount := tombCount_fillAt (e := e) h
  cases reused with
  | false => rfl
  | true =>
    rw [Bool.toNat_true] at hcount ⊢
    show t.tombs - 1 + 1 = t.tombs
    omega

theorem entries_fillAt {reused : Bool}
    (h : t.buckets[i]? = some (if reused then .tombstone else .empty)) :
    (t.fillAt i reused e).entries.Perm (e :: t.entries) := by
  obtain ⟨others, hold, hnew⟩ := entries_setBucket h
  have hfree : Bucket.entry? (if reused then .tombstone else .empty : Bucket K V) = none := by
    cases reused <;> rfl
  rw [hfree] at hold
  exact (hnew (.full e)).trans (List.Perm.cons e hold.symm)

theorem fullCount_buryAt (h : t.entryAt? i = some e) :
    (t.buryAt i).fullCount + 1 = t.fullCount := by
  show (t.setBucket i .tombstone).fullCount + 1 = _
  have := fullCount_setBucket (entryAt?_eq_some_iff.mp h) .tombstone
  simpa [Bucket.isFull] using this

theorem tombCount_buryAt (h : t.entryAt? i = some e) :
    (t.buryAt i).tombCount = t.tombCount + 1 := by
  show (t.setBucket i .tombstone).tombCount = _
  have := tombCount_setBucket (entryAt?_eq_some_iff.mp h) .tombstone
  simpa [Bucket.isTombstone] using this

theorem entries_buryAt (h : t.entryAt? i = some e) :
    t.entries.Perm (e :: (t.buryAt i).entries) := by
  obtain ⟨others, hold, hnew⟩ := entries_setBucket (entryAt?_eq_some_iff.mp h)
  exact hold.trans (List.Perm.cons e (hnew .tombstone).symm)

/-- Another entry in the place of an old one. -/
theorem entries_setFull (h : t.entryAt? i = some e) (e' : Entry K V) :
    (t.setBucket i (.full e')).entries.Perm (e' :: (t.buryAt i).entries) := by
  obtain ⟨others, _, hnew⟩ := entries_setBucket (entryAt?_eq_some_iff.mp h)
  exact (hnew (.full e')).trans (List.Perm.cons e' (hnew .tombstone).symm)

theorem fullCount_setFull (h : t.entryAt? i = some e) (e' : Entry K V) :
    (t.setBucket i (.full e')).fullCount = t.fullCount := by
  have := fullCount_setBucket (entryAt?_eq_some_iff.mp h) (.full e')
  simpa [Bucket.isFull] using this

theorem tombCount_setFull (h : t.entryAt? i = some e) (e' : Entry K V) :
    (t.setBucket i (.full e')).tombCount = t.tombCount := by
  have := tombCount_setBucket (entryAt?_eq_some_iff.mp h) (.full e')
  simpa [Bucket.isTombstone] using this

/-- A bucket that gets an entry which is reached there, or a tombstone, leaves all
entries reached. -/
theorem AllReached.setBucket {p : Probe} {b : Bucket K V} (h : t.AllReached p)
    (hi : i < t.capacity) (hb : b ≠ .empty)
    (hnew : ∀ e, b.entry? = some e → t.Reaches p e.hash i) : (t.setBucket i b).AllReached p := by
  intro x a ha
  rw [entryAt?_setBucket hi] at ha
  split at ha
  · rename_i hix
    subst hix
    exact (hnew a ha).setBucket hi hb
  · exact (h x a ha).setBucket hi hb

/-! ## Packing -/

namespace Packed

variable {p : Probe} {c : Nat} {es : List (Entry K V)}

theorem blank : Packed p c [] (Table.blank c : Table K V) where
  capacity_eq := capacity_blank
  live_eq := rfl
  tombs_eq := rfl
  tombCount_eq := tombCount_blank
  entries_perm := by rw [entries_blank]
  reached := fun i e he => absurd he (by rw [entryAt?_blank]; simp)

theorem fullCount_eq (h : Packed p c es t) : t.fullCount = es.length := by
  rw [← length_entries]; exact h.entries_perm.length_eq

/-- Without tombstones, a free bucket is an empty one. -/
theorem not_reused {accepts : K → Bool} {hash : UInt64} {reused : Bool} (h : Packed p c es t)
    (hslot : Seek.plainAcquire p accepts hash t.buckets = .ok (.vacant i reused)) :
    reused = false := by
  cases reused with
  | false => rfl
  | true =>
    have := tombCount_pos (plainAcquire_vacant hslot).1
    have := h.tombCount_eq
    omega

/-- One entry more is moved, into the bucket that a search for it is given. -/
theorem snoc {accepts : K → Bool} {reused : Bool} (h : Packed p c es t)
    (hslot : Seek.plainAcquire p accepts e.hash t.buckets = .ok (.vacant i reused)) :
    Packed p c (es ++ [e]) { t.setBucket i (.full e) with live := t.live + 1 } := by
  obtain ⟨hi, hreach⟩ := plainAcquire_vacant hslot
  have hreused := h.not_reused hslot
  subst hreused
  have hlt := lt_capacity_of_getElem? hi
  have hentries : (t.setBucket i (.full e)).entries.Perm (e :: t.entries) := entries_fillAt hi
  refine ⟨?_, ?_, h.tombs_eq, ?_, ?_, ?_⟩
  · exact capacity_setBucket.trans h.capacity_eq
  · show t.live + 1 = _
    rw [h.live_eq, List.length_append]; rfl
  · show (t.setBucket i (.full e)).tombCount = 0
    have := tombCount_fillAt (e := e) hi
    exact this.trans h.tombCount_eq
  · refine hentries.trans ((List.Perm.cons e h.entries_perm).trans ?_)
    exact (List.perm_append_singleton e es).symm
  · refine h.reached.setBucket hlt (by simp) fun a ha => ?_
    have hea : e = a := Option.some.inj ha
    exact hea ▸ hreach

end Packed

/-! ## The counters bound what is there -/

/-- The counters are at least what they count, and keep the load below its maximum. -/
structure Bounded (t : Table K V) : Prop where
  full_le : t.fullCount ≤ t.live
  tombs_le : t.tombCount ≤ t.tombs
  load : (t.capacity = 0 ∧ t.live = 0 ∧ t.tombs = 0) ∨ 4 * (t.live + t.tombs) < 3 * t.capacity
  capacity_lt : t.capacity < capacityLimit

theorem Bounded.blank {c : Nat} (hc : c < capacityLimit) : Bounded (blank c : Table K V) where
  full_le := by rw [fullCount_blank]; exact Nat.zero_le _
  tombs_le := by rw [tombCount_blank]; exact Nat.zero_le _
  load := by
    rw [capacity_blank, live_blank, tombs_blank]
    omega
  capacity_lt := by rw [capacity_blank]; exact hc

theorem Bounded.vacated {n : Nat} (h : t.Bounded) : (t.vacated n).Bounded where
  full_le := Nat.le_trans fullCount_vacated_le h.full_le
  tombs_le := Nat.le_trans tombCount_vacated_le h.tombs_le
  load := by rw [capacity_vacated]; exact h.load
  capacity_lt := by rw [capacity_vacated]; exact h.capacity_lt

/-- An allocated table has an empty bucket. -/
theorem Bounded.exists_empty (h : t.Bounded) (hpos : 0 < t.capacity) :
    ∃ i : Nat, t.buckets[i]? = some .empty := by
  have h1 := h.full_le
  have h2 := h.tombs_le
  have h3 := h.load
  exact Table.exists_empty (by omega)

/-- What has been packed is not more than there was. -/
theorem Bounded.live_packed {p : Probe} {c : Nat} {es : List (Entry K V)} (h : t.Bounded)
    (hes : es <+: t.entries) (hp : Packed p c es t') : t'.live ≤ t.live := by
  have h1 := hes.length_le
  rw [length_entries] at h1
  rw [hp.live_eq]
  exact Nat.le_trans h1 h.full_le

theorem Change.bounded (hc : Change s t t') (h : t.Bounded) : t'.Bounded := by
  -- the load: only a fill and a rebuild change the sum of the counters, and a fill has
  -- been checked for it
  have hfull := h.full_le
  have htombs := h.tombs_le
  have hload := h.load
  cases hc with
  | @fill k v i reused hslot hroom =>
    have hi := (plainAcquire_vacant hslot).1
    have hf := fullCount_fillAt (e := ⟨s.hash k, k, v⟩) hi
    have ht := tombCount_fillAt (e := ⟨s.hash k, k, v⟩) hi
    have hcap : (t.fillAt i reused ⟨s.hash k, k, v⟩).capacity = t.capacity := capacity_fillAt
    have hcount := tombs_fillAt (e := ⟨s.hash k, k, v⟩) hi htombs
    have hlive : (t.fillAt i reused ⟨s.hash k, k, v⟩).live = t.live + 1 := rfl
    refine ⟨?_, ?_, ?_, by rw [hcap]; exact h.capacity_lt⟩
    · rw [hf, hlive]; omega
    · omega
    · rw [hcap, hlive]; omega
  | @replace k v i hslot =>
    obtain ⟨old, hold, _⟩ := plainAcquire_occupied hslot
    refine ⟨?_, ?_, ?_, by rw [capacity_setBucket]; exact h.capacity_lt⟩
    · rw [fullCount_setFull hold]; exact hfull
    · rw [tombCount_setFull hold]; exact htombs
    · rw [capacity_setBucket]; exact hload
  | @bury i e he =>
    have hf := fullCount_buryAt he
    have ht := tombCount_buryAt he
    have hcap : (t.buryAt i).capacity = t.capacity := capacity_buryAt
    refine ⟨?_, ?_, ?_, by rw [hcap]; exact h.capacity_lt⟩
    · show _ ≤ t.live - 1; omega
    · show _ ≤ t.tombs + 1; omega
    · rw [hcap]
      show (_ ∧ t.live - 1 = 0 ∧ t.tombs + 1 = 0) ∨ 4 * (t.live - 1 + (t.tombs + 1)) < _
      omega
  | @update i e f he =>
    refine ⟨?_, ?_, ?_, by rw [capacity_setBucket]; exact h.capacity_lt⟩
    · rw [fullCount_setFull he]; exact hfull
    · rw [tombCount_setFull he]; exact htombs
    · rw [capacity_setBucket]; exact hload
  | @rebuild _ c es hes hcap hpos hlim hp =>
    -- no more entries than there were, and no fewer buckets
    have hlive := h.live_packed hes hp
    refine ⟨?_, ?_, ?_, by rw [hp.capacity_eq]; exact s.limit.lt_capacityLimit hlim⟩
    · rw [hp.fullCount_eq, hp.live_eq]
    · rw [hp.tombCount_eq]; exact Nat.zero_le _
    · rw [hp.capacity_eq, hp.tombs_eq]
      omega

theorem Steps.bounded (hs : Steps s t t') (h : t.Bounded) : t'.Bounded := by
  induction hs with
  | refl => exact h
  | tail _ hc ih => exact hc.bounded ih

/-- An array that is not the old one is within the limit. -/
theorem Change.capacity_cases (hc : Change s t t') :
    t'.capacity = t.capacity ∨ t'.capacity < s.limit.capacity := by
  cases hc with
  | fill _ _ => exact Or.inl capacity_fillAt
  | replace _ => exact Or.inl capacity_setBucket
  | bury _ => exact Or.inl capacity_buryAt
  | update _ => exact Or.inl capacity_setBucket
  | rebuild _ _ _ hlim hp => exact Or.inr (hp.capacity_eq ▸ hlim)

theorem Steps.capacity_lt (hs : Steps s t t') (h : t.capacity < s.limit.capacity) :
    t'.capacity < s.limit.capacity := by
  induction hs with
  | refl => exact h
  | tail _ hc ih => exact hc.capacity_cases.elim (fun heq => heq ▸ ih) id

/-! ## The counters are exact -/

/-- The counters are the numbers of entries and of tombstones. -/
structure Exact (t : Table K V) : Prop where
  live_eq : t.live = t.fullCount
  tombs_eq : t.tombs = t.tombCount

theorem Exact.blank {c : Nat} : Exact (blank c : Table K V) where
  live_eq := by rw [fullCount_blank]; rfl
  tombs_eq := by rw [tombCount_blank]; rfl

theorem Change.exact (hc : Change s t t') (h : t.Exact) : t'.Exact := by
  have hlive := h.live_eq
  have htombs := h.tombs_eq
  cases hc with
  | @fill k v i reused hslot _ =>
    have hi := (plainAcquire_vacant hslot).1
    have hf := fullCount_fillAt (e := ⟨s.hash k, k, v⟩) hi
    have ht := tombCount_fillAt (e := ⟨s.hash k, k, v⟩) hi
    have hcount := tombs_fillAt (e := ⟨s.hash k, k, v⟩) hi (Nat.le_of_eq htombs.symm)
    refine ⟨?_, ?_⟩
    · show t.live + 1 = _; omega
    · omega
  | @replace k v i hslot =>
    obtain ⟨old, hold, _⟩ := plainAcquire_occupied hslot
    refine ⟨?_, ?_⟩
    · rw [fullCount_setFull hold]; exact hlive
    · rw [tombCount_setFull hold]; exact htombs
  | @bury i e he =>
    have hf := fullCount_buryAt he
    have ht := tombCount_buryAt he
    refine ⟨?_, ?_⟩
    · show t.live - 1 = _; omega
    · show t.tombs + 1 = _; omega
  | @update i e f he =>
    refine ⟨?_, ?_⟩
    · rw [fullCount_setFull he]; exact hlive
    · rw [tombCount_setFull he]; exact htombs
  | rebuild _ _ _ _ hp =>
    exact ⟨by rw [hp.fullCount_eq, hp.live_eq], by rw [hp.tombCount_eq, hp.tombs_eq]⟩

theorem Steps.exact (hs : Steps s t t') (h : t.Exact) : t'.Exact := by
  induction hs with
  | refl => exact h
  | tail _ hc ih => exact hc.exact ih

/-! ## Entries are where a search finds them -/

/-- The counters are exact, every entry has the hash of its key and is reached by a
search for it, and, if the equality is lawful, no two entries have equal keys. -/
structure Sound (s : Strategy K) (t : Table K V) : Prop where
  exact : t.Exact
  hashed : ∀ e ∈ t.entries, e.hash = s.hash e.key
  reached : t.AllReached s.probe
  distinct : s.Lawful → t.entries.Pairwise fun a b => s.equals a.key b.key = false

theorem Sound.blank {c : Nat} : Sound s (blank c : Table K V) where
  exact := .blank
  hashed := fun e he => absurd he (by rw [entries_blank]; exact List.not_mem_nil)
  reached := fun i e he => absurd he (by rw [entryAt?_blank]; simp)
  distinct := fun _ => by rw [entries_blank]; exact List.Pairwise.nil

theorem equals_false_symm (hs : s.Lawful) {a b : K} (h : s.equals a b = false) :
    s.equals b a = false := by
  cases hb : s.equals b a with
  | false => rfl
  | true => rw [hs.equiv.symm hb] at h; exact absurd h (by simp)

/-- Whether the keys of a list are distinct does not depend on its order. -/
theorem distinct_perm (hs : s.Lawful) {es es' : List (Entry K V)} (h : es.Perm es') :
    es.Pairwise (fun a b => s.equals a.key b.key = false) ↔
      es'.Pairwise fun a b => s.equals a.key b.key = false :=
  h.pairwise_iff fun hab => equals_false_symm hs hab

/-- To know that no key is equal, it is enough to know it of the entries that a search
for the key reaches. -/
theorem Sound.not_equals_of_reached (h : Sound s t) (hlaw : s.Lawful) {k : K}
    (hmiss : ∀ x e, t.entryAt? x = some e → t.Reaches s.probe (s.hash k) x → e.hash = s.hash k →
      s.equals k e.key = false) : ∀ e ∈ t.entries, s.equals k e.key = false := by
  intro e he
  obtain ⟨x, hx⟩ := mem_entries_iff.mp he
  cases heq : s.equals k e.key with
  | false => rfl
  | true =>
    have hhash : e.hash = s.hash k := by
      rw [h.hashed e he, hlaw.hash k e.key heq]
    rw [hmiss x e hx (hhash ▸ h.reached x e hx) hhash] at heq
    exact absurd heq (by simp)

/-- Two buckets do not hold equal keys. -/
theorem Sound.eq_of_equals (h : Sound s t) (hlaw : s.Lawful) {x : Nat} {a : Entry K V}
    (he : t.entryAt? i = some e) (ha : t.entryAt? x = some a)
    (hkeys : s.equals e.key a.key = true) : x = i := by
  rcases Decidable.em (i = x) with heq | hne
  · exact heq.symm
  · have hdiff := forall_of_pairwise_entries (fun _ _ => equals_false_symm hlaw)
      (h.distinct hlaw) hne he ha
    rw [hkeys] at hdiff
    exact absurd hdiff (by simp)

/-- A search that comes to a free bucket has not missed an equal key. -/
theorem Sound.not_equals_of_vacant (h : Sound s t) (hlaw : s.Lawful) {k : K} {reused : Bool}
    (hslot : Seek.plainAcquire s.probe (s.equals k) (s.hash k) t.buckets =
      .ok (.vacant i reused)) : ∀ e ∈ t.entries, s.equals k e.key = false := by
  refine h.not_equals_of_reached hlaw fun x e hx hreach hhash => ?_
  exact Bool.eq_false_iff.mpr fun heq => not_fits_of_vacant hslot hx hreach ⟨hhash, heq⟩

/-- Nor has a lookup that finds nothing. -/
theorem Sound.not_equals_of_plainFind (h : Sound s t) (hlaw : s.Lawful) {k : K}
    (hfind : t.plainFind s k = .ok none) : ∀ e ∈ t.entries, s.equals k e.key = false := by
  refine h.not_equals_of_reached hlaw fun x e hx hreach hhash => ?_
  exact Table.not_equals_of_plainFind hfind hx (hhash.symm ▸ hreach) hhash

theorem Sound.fill (h : Sound s t) {k : K} {v : V} {reused : Bool}
    (hslot : Seek.plainAcquire s.probe (s.equals k) (s.hash k) t.buckets =
      .ok (.vacant i reused))
    (hexact : (t.fillAt i reused ⟨s.hash k, k, v⟩).Exact) :
    Sound s (t.fillAt i reused ⟨s.hash k, k, v⟩) := by
  obtain ⟨hi, hreach⟩ := plainAcquire_vacant hslot
  have hperm := entries_fillAt (e := ⟨s.hash k, k, v⟩) hi
  refine ⟨hexact, ?_, ?_, ?_⟩
  · intro e he
    rcases List.mem_cons.mp (hperm.mem_iff.mp he) with rfl | hmem
    · rfl
    · exact h.hashed e hmem
  · refine h.reached.setBucket (lt_capacity_of_getElem? hi) (by simp) fun e he => ?_
    have hke : (⟨s.hash k, k, v⟩ : Entry K V) = e := Option.some.inj he
    subst hke
    exact hreach
  · intro hlaw
    rw [distinct_perm hlaw hperm, List.pairwise_cons]
    exact ⟨h.not_equals_of_vacant hlaw hslot, h.distinct hlaw⟩

/-- Another entry in the place of an old one, under the same hash: it may have a key
that is distinct from all others. -/
theorem Sound.setFull (h : Sound s t) {old new : Entry K V} (hold : t.entryAt? i = some old)
    (hhash : new.hash = old.hash) (hnew : new.hash = s.hash new.key)
    (hkeys : s.Lawful → ∀ a, s.equals old.key a = false → s.equals new.key a = false)
    (hexact : (t.setBucket i (.full new)).Exact) : Sound s (t.setBucket i (.full new)) := by
  have hbefore := entries_buryAt hold
  have hperm := entries_setFull hold new
  refine ⟨hexact, ?_, ?_, ?_⟩
  · intro e he
    rcases List.mem_cons.mp (hperm.mem_iff.mp he) with rfl | hmem
    · exact hnew
    · exact h.hashed e (hbefore.mem_iff.mpr (List.mem_cons_of_mem _ hmem))
  · refine h.reached.setBucket (lt_capacity_of_entryAt? hold) (by simp) fun e he => ?_
    have hne : new = e := Option.some.inj he
    subst hne
    exact hhash ▸ h.reached i old hold
  · -- put the old entry first, take it off, and put the new one in its place
    intro hlaw
    have hdist := (distinct_perm hlaw hbefore).mp (h.distinct hlaw)
    rw [distinct_perm hlaw hperm, List.pairwise_cons]
    obtain ⟨hhead, htail⟩ := List.pairwise_cons.mp hdist
    exact ⟨fun e he => hkeys hlaw e.key (hhead e he), htail⟩

theorem Sound.bury (h : Sound s t) (he : t.entryAt? i = some e) (hexact : (t.buryAt i).Exact) :
    Sound s (t.buryAt i) := by
  have hperm := entries_buryAt he
  refine ⟨hexact, ?_, ?_, ?_⟩
  · intro a ha
    exact h.hashed a (hperm.mem_iff.mpr (List.mem_cons_of_mem _ ha))
  · exact h.reached.setBucket (lt_capacity_of_entryAt? he) (by simp)
      fun a ha => absurd ha (by simp)
  · intro hlaw
    exact (List.pairwise_cons.mp ((distinct_perm hlaw hperm).mp (h.distinct hlaw))).2

theorem Change.sound (hc : Change s t t') (h : Sound s t) : Sound s t' := by
  have hexact := hc.exact h.exact
  cases hc with
  | fill hslot _ => exact h.fill hslot hexact
  | @replace k v i hslot =>
    obtain ⟨old, hold, hhash, hkey⟩ := plainAcquire_occupied hslot
    refine h.setFull hold hhash.symm rfl (fun hlaw a ha => ?_) hexact
    -- a key equal to the new one would be equal to the old one
    cases heq : s.equals k a with
    | false => rfl
    | true =>
      rw [hlaw.equiv.trans (hlaw.equiv.symm hkey) heq] at ha
      exact absurd ha (by simp)
  | bury he => exact h.bury he hexact
  | @update i e f he =>
    exact h.setFull he rfl (h.hashed e (mem_entries_iff.mpr ⟨i, he⟩)) (fun _ _ ha => ha) hexact
  | rebuild hes _ _ _ hp =>
    refine ⟨hexact, ?_, hp.reached, ?_⟩
    · intro e he
      exact h.hashed e (hes.mem (hp.entries_perm.mem_iff.mp he))
    · intro hlaw
      rw [distinct_perm hlaw hp.entries_perm]
      exact (h.distinct hlaw).sublist hes.sublist

theorem Steps.sound (hs : Steps s t t') (h : Sound s t) : Sound s t' := by
  induction hs with
  | refl => exact h
  | tail _ hc ih => exact hc.sound ih

end Table

end OpenAddressing
