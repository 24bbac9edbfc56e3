import OpenAddressing.Seek
import OpenAddressing.Proofs.Contents
import OpenAddressing.Proofs.Paths

/-!
# Searching with plain functions

`plainWalk` is the walk of a search whose probe function and key test have no memory;
it has no state and is a function of the array. All that is known of searches is
proved of it, and all of it comes from `plainWalk_cases`, which lists what one step of
the walk can do.

A search is bound to the path of its hash, and it gets as far along it as there are no
empty buckets: `Passes` says that it gets to a bucket, and `Reaches` that it does so
within a lap. An accepted entry that a search reaches makes it end with a hit
(`exists_hit`); a free bucket that it ends with is one that it reaches
(`plainAcquire_vacant`).
-/

namespace OpenAddressing

/-! ## Two parts of a computation -/

section

variable {α β : Type} {x : Except Fault α} {g : α → Except Fault β} {f : Fault}

/-- The whole comes to a result exactly if both parts do. -/
theorem bind_eq_ok_iff {b : β} : x >>= g = .ok b ↔ ∃ a, x = .ok a ∧ g a = .ok b := by
  cases x <;> simp [bind, Except.bind]

/-- The whole stops exactly if one of the parts does. -/
theorem bind_eq_error_iff :
    x >>= g = .error f ↔ x = .error f ∨ ∃ a, x = .ok a ∧ g a = .error f := by
  cases x <;> simp [bind, Except.bind]

theorem mapError_eq_error_iff {rename : Fault → Fault} :
    x.mapError rename = .error f ↔ ∃ g, x = .error g ∧ rename g = f := by
  cases x <;> simp [Except.mapError]

end

/-! ## What a search lands on -/

namespace Landing

variable {landing : Landing} {c i : Nat} {f : Fault}

/-- The entry that a lookup was after. -/
def found? : Landing → Option Nat
  | .hit i => some i
  | _ => none

theorem found?_eq_some_iff : landing.found? = some i ↔ landing = .hit i := by
  cases landing <;> simp [found?]

theorem slot_eq_occupied_iff : landing.slot c = .ok (.occupied i) ↔ landing = .hit i := by
  cases landing with
  | hit x => simp [slot]
  | gap x tomb => cases tomb <;> simp [slot]
  | lap tomb => cases tomb <;> simp [slot]

/-- The only landing without a slot is a lap that has met no tombstone. -/
theorem slot_eq_error_iff :
    landing.slot c = .error f ↔ landing = .lap none ∧ f = .probeExhausted c := by
  cases landing with
  | hit x => simp [slot]
  | gap x tomb => cases tomb <;> simp [slot]
  | lap tomb => cases tomb <;> simp [slot, eq_comm]

end Landing

namespace Seek

variable {K V : Type}

/-! ## Lookups are walks -/

section

variable {σ : Type} {probe : Nat → Nat → Act σ Nat} {acc : K → Act σ Bool} {hash : UInt64}
  {buckets : Array (Bucket K V)}

/-- The loop of a lookup makes the calls of the loop of an insertion, in the same order and
with the same end, whatever tombstone the latter has in mind. -/
theorem look_eq {n i : Nat} (tomb : Option Nat) :
    look probe acc hash buckets n i =
      (walk probe acc hash buckets n i tomb >>= fun landing => pure landing.found?) := by
  induction n generalizing i tomb with
  | zero => rfl
  | succ n ih =>
    rw [look, walk]
    cases buckets[i]? with
    | none => rfl
    | some b =>
      cases b with
      | empty => rfl
      | tombstone =>
        dsimp only
        rw [bind_assoc]
        exact bind_congr fun next => ih (tomb.or (some i))
      | full e =>
        dsimp only
        rw [bind_assoc]
        refine bind_congr fun fit => ?_
        cases fit with
        | true => rfl
        | false =>
          show (step probe i buckets.size >>= fun next => look probe acc hash buckets n next) =
            ((step probe i buckets.size >>= fun next =>
              walk probe acc hash buckets n next tomb) >>= fun landing => pure landing.found?)
          rw [bind_assoc]
          exact bind_congr fun next => ih tomb

theorem find_eq :
    find probe acc hash buckets =
      (seek probe acc hash buckets >>= fun landing => pure landing.found?) := look_eq none

end

/-! ## Plain walks -/

/-- The bucket after `i`, or the reason why there is none. -/
def plainStep (p : Probe) (i capacity : Nat) : Except Fault Nat := do
  let next ← p i capacity
  if next < capacity then return next else throw (.probeOutOfRange next capacity)

/-- The entry has the hash, and its key is accepted. -/
def Fits (accepts : K → Bool) (hash : UInt64) (e : Entry K V) : Prop :=
  e.hash = hash ∧ accepts e.key = true

instance {accepts : K → Bool} {hash : UInt64} {e : Entry K V} :
    Decidable (Fits accepts hash e) := inferInstanceAs (Decidable (_ ∧ _))

/-- The walk over `n` more buckets from bucket `i` on. -/
def plainWalk (p : Probe) (accepts : K → Bool) (hash : UInt64) (buckets : Array (Bucket K V)) :
    (n i : Nat) → (tomb : Option Nat) → Except Fault Landing
  | 0, _, tomb => .ok (.lap tomb)
  | n + 1, i, tomb =>
      match buckets[i]? with
      | none => .error (.indexOutOfBounds i buckets.size)
      | some .empty => .ok (.gap i tomb)
      | some .tombstone => do
          let next ← plainStep p i buckets.size
          plainWalk p accepts hash buckets n next (tomb.or (some i))
      | some (.full e) =>
          if Fits accepts hash e then .ok (.hit i)
          else do
            let next ← plainStep p i buckets.size
            plainWalk p accepts hash buckets n next tomb

/-- The search for a hash through the whole array. -/
def plainSeek (p : Probe) (accepts : K → Bool) (hash : UInt64) (buckets : Array (Bucket K V)) :
    Except Fault Landing :=
  plainWalk p accepts hash buckets buckets.size (Probe.home hash buckets.size) none

/-- The slot for an entry. -/
def plainAcquire (p : Probe) (accepts : K → Bool) (hash : UInt64)
    (buckets : Array (Bucket K V)) : Except Fault Slot := do
  let landing ← plainSeek p accepts hash buckets
  landing.slot buckets.size

/-- The path from bucket `i` comes to bucket `x` after `j` steps, and no bucket before
`x` is empty. -/
def Passes (p : Probe) (buckets : Array (Bucket K V)) (i j x : Nat) : Prop :=
  p.nth? buckets.size i j = some x ∧
    ∀ m < j, ∀ y, p.nth? buckets.size i m = some y → buckets[y]? ≠ some .empty

variable {p : Probe} {accepts : K → Bool} {hash : UInt64} {buckets : Array (Bucket K V)}
  {n i j x : Nat} {tomb : Option Nat} {landing : Landing} {e : Entry K V}

theorem plainStep_eq_ok_iff : plainStep p i n = .ok x ↔ p.next? n i = some x := by
  rw [Probe.next?_eq_some_iff]
  unfold plainStep
  rw [bind_eq_ok_iff]
  constructor
  · rintro ⟨next, hp, h⟩
    split at h
    · rename_i hlt
      have hnext : next = x := Except.ok.inj h
      exact ⟨hnext ▸ hp, hnext ▸ hlt⟩
    · exact absurd h (by simp)
  · rintro ⟨hp, hlt⟩
    exact ⟨x, hp, if_pos hlt⟩

/-- If there is no next bucket, then the probe function has not given one, or one that is
not in the table. -/
theorem plainStep_eq_error_iff {f : Fault} :
    plainStep p i n = .error f ↔
      p i n = .error f ∨ ∃ next, p i n = .ok next ∧ n ≤ next ∧ f = .probeOutOfRange next n := by
  unfold plainStep
  rw [bind_eq_error_iff]
  refine or_congr_right (exists_congr fun next => and_congr_right fun _ => ?_)
  split
  · rename_i hlt
    exact iff_of_false (by simp [pure, Except.pure]) fun h => absurd h.1 (by omega)
  · rename_i hge
    constructor
    · intro h
      exact ⟨by omega, (Except.error.inj h).symm⟩
    · rintro ⟨_, rfl⟩
      rfl

/-! ## Getting along the path -/

theorem passes_zero : Passes p buckets i 0 i :=
  ⟨rfl, fun _ hm => absurd hm (Nat.not_lt_zero _)⟩

theorem Passes.cons {i' : Nat} (hi : buckets[i]? ≠ some .empty)
    (hnext : p.next? buckets.size i = some i') (h : Passes p buckets i' j x) :
    Passes p buckets i (j + 1) x := by
  refine ⟨by rw [Probe.nth?_succ, hnext]; exact h.1, fun m hm y hy => ?_⟩
  cases m with
  | zero => exact Option.some.inj hy ▸ hi
  | succ m =>
    rw [Probe.nth?_succ, hnext] at hy
    exact h.2 m (by omega) y hy

theorem Passes.uncons (h : Passes p buckets i (j + 1) x) :
    buckets[i]? ≠ some .empty ∧
      ∃ i', p.next? buckets.size i = some i' ∧ Passes p buckets i' j x := by
  obtain ⟨hx, hpath⟩ := h
  rw [Probe.nth?_succ] at hx
  obtain ⟨i', hnext, hx⟩ := Option.bind_eq_some_iff.mp hx
  refine ⟨hpath 0 (by omega) i rfl, i', hnext, hx, fun m hm y hy => ?_⟩
  refine hpath (m + 1) (by omega) y ?_
  rw [Probe.nth?_succ, hnext]
  exact hy

/-- Buckets that fill up or become tombstones block no path. -/
theorem Passes.mono {buckets' : Array (Bucket K V)} (hsize : buckets'.size = buckets.size)
    (hkept : ∀ y : Nat, buckets[y]? ≠ some .empty → buckets'[y]? ≠ some .empty)
    (h : Passes p buckets i j x) : Passes p buckets' i j x := by
  refine ⟨by rw [hsize]; exact h.1, fun m hm y hy => ?_⟩
  rw [hsize] at hy
  exact hkept y (h.2 m hm y hy)

/-! ## One step of the walk -/

/-- The bucket does not end a walk. -/
def Passed (accepts : K → Bool) (hash : UInt64) (b : Bucket K V) : Prop :=
  b ≠ .empty ∧ ∀ e, b = .full e → ¬ Fits accepts hash e

theorem passed_tombstone : Passed accepts hash (.tombstone : Bucket K V) :=
  ⟨by simp, fun e he => absurd he (by simp)⟩

theorem passed_full (h : ¬ Fits accepts hash e) : Passed accepts hash (.full e) := by
  refine ⟨by simp, fun e' he => ?_⟩
  rw [Bucket.full.injEq] at he
  exact he ▸ h

/-- The first tombstone so far, after bucket `i` as well. -/
def firstTomb (tomb : Option Nat) (i : Nat) : Bucket K V → Option Nat
  | .tombstone => tomb.or (some i)
  | _ => tomb

/-- An accepted entry lies beyond a bucket that does not end a walk. -/
theorem Passes.uncons_of_passed {b : Bucket K V} (h : Passes p buckets i j x)
    (hb : buckets[i]? = some b) (hpassed : Passed accepts hash b)
    (hx : buckets[x]? = some (.full e)) (hfit : Fits accepts hash e) :
    ∃ j' i', j = j' + 1 ∧ p.next? buckets.size i = some i' ∧ Passes p buckets i' j' x := by
  cases j with
  | zero =>
    have hix : i = x := Option.some.inj h.1
    rw [hix, hx] at hb
    exact absurd hfit (hpassed.2 e (Option.some.inj hb).symm)
  | succ j =>
    obtain ⟨_, i', hnext, hpass⟩ := h.uncons
    exact ⟨j, i', rfl, hnext, hpass⟩

/-- A walk ends at the bucket it is at, ends because there is no next bucket, or goes on. -/
theorem plainWalk_cases (p : Probe) (accepts : K → Bool) (hash : UInt64) (n : Nat)
    (tomb : Option Nat) (hi : i < buckets.size) :
    (buckets[i]? = some .empty ∧
      plainWalk p accepts hash buckets (n + 1) i tomb = .ok (.gap i tomb)) ∨
    (∃ e, buckets[i]? = some (.full e) ∧ Fits accepts hash e ∧
      plainWalk p accepts hash buckets (n + 1) i tomb = .ok (.hit i)) ∨
    (∃ b f, buckets[i]? = some b ∧ Passed accepts hash b ∧ plainStep p i buckets.size = .error f ∧
      plainWalk p accepts hash buckets (n + 1) i tomb = .error f) ∨
    ∃ b i', buckets[i]? = some b ∧ Passed accepts hash b ∧ p.next? buckets.size i = some i' ∧
      plainWalk p accepts hash buckets (n + 1) i tomb =
        plainWalk p accepts hash buckets n i' (firstTomb tomb i b) := by
  have hget : buckets[i]? = some buckets[i] := Array.getElem?_eq_getElem hi
  rw [plainWalk, hget]
  cases hb : buckets[i] with
  | empty => exact Or.inl ⟨rfl, rfl⟩
  | tombstone =>
    cases hstep : plainStep p i buckets.size with
    | error f => exact Or.inr (Or.inr (Or.inl ⟨_, f, rfl, passed_tombstone, rfl, rfl⟩))
    | ok i' =>
      exact Or.inr (Or.inr (Or.inr
        ⟨_, i', rfl, passed_tombstone, plainStep_eq_ok_iff.mp hstep, rfl⟩))
  | full e =>
    by_cases hfit : Fits accepts hash e
    · exact Or.inr (Or.inl ⟨e, rfl, hfit, if_pos hfit⟩)
    · dsimp only
      rw [if_neg hfit]
      cases hstep : plainStep p i buckets.size with
      | error f => exact Or.inr (Or.inr (Or.inl ⟨_, f, rfl, passed_full hfit, rfl, rfl⟩))
      | ok i' =>
        exact Or.inr (Or.inr (Or.inr
          ⟨_, i', rfl, passed_full hfit, plainStep_eq_ok_iff.mp hstep, rfl⟩))

/-! ## Hits -/

/-- A walk that gets to an accepted entry ends with a hit, there or before. -/
theorem exists_hit (hi : i < buckets.size) (hpass : Passes p buckets i j x) (hj : j < n)
    (hx : buckets[x]? = some (.full e)) (hfit : Fits accepts hash e) :
    ∃ y, plainWalk p accepts hash buckets n i tomb = .ok (.hit y) := by
  induction n generalizing i j tomb with
  | zero => exact absurd hj (Nat.not_lt_zero _)
  | succ n ih =>
    rcases plainWalk_cases p accepts hash n tomb hi with
      ⟨hb, _⟩ | ⟨_, _, _, hrun⟩ | ⟨b, f, hb, hpassed, hstep, _⟩ | ⟨b, i', hb, hpassed, hnext, hrun⟩
    · -- an empty bucket is neither on the way nor the goal
      cases j with
      | zero =>
        have hix : i = x := Option.some.inj hpass.1
        rw [hix, hx] at hb
        exact absurd hb (by simp)
      | succ j => exact absurd hb hpass.uncons.1
    · exact ⟨i, hrun⟩
    · obtain ⟨_, i', _, hnext, _⟩ := hpass.uncons_of_passed hb hpassed hx hfit
      rw [plainStep_eq_ok_iff.mpr hnext] at hstep
      exact absurd hstep (by simp)
    · obtain ⟨j', i'', rfl, hnext', hpass'⟩ := hpass.uncons_of_passed hb hpassed hx hfit
      have hii : i' = i'' := Option.some.inj (hnext.symm.trans hnext')
      subst hii
      rw [hrun]
      exact ih (Probe.next?_eq_some_iff.mp hnext).2 hpass' (by omega)

/-- A hit is an accepted entry, and the walk got to it. -/
theorem of_hit (hi : i < buckets.size)
    (h : plainWalk p accepts hash buckets n i tomb = .ok (.hit x)) :
    (∃ e, buckets[x]? = some (.full e) ∧ Fits accepts hash e) ∧
      ∃ j < n, Passes p buckets i j x := by
  induction n generalizing i tomb with
  | zero => exact absurd h (by simp [plainWalk])
  | succ n ih =>
    rcases plainWalk_cases p accepts hash n tomb hi with
      ⟨_, hrun⟩ | ⟨e, hb, hfit, hrun⟩ | ⟨_, f, _, _, _, hrun⟩ | ⟨b, i', hb, hpassed, hnext, hrun⟩
    · rw [hrun] at h; exact absurd h (by simp)
    · rw [hrun] at h
      have hix : i = x := by simpa using h
      subst hix
      exact ⟨⟨e, hb, hfit⟩, 0, by omega, passes_zero⟩
    · rw [hrun] at h; exact absurd h (by simp)
    · rw [hrun] at h
      have hne : buckets[i]? ≠ some .empty := by
        rw [hb]; intro he; exact hpassed.1 (Option.some.inj he)
      obtain ⟨hx, j, hj, hpass⟩ := ih (Probe.next?_eq_some_iff.mp hnext).2 h
      exact ⟨hx, j + 1, by omega, Passes.cons hne hnext hpass⟩

/-! ## Free buckets -/

/-- The bucket that an insertion is given is free, and the walk got to it; or it is the
tombstone that the walk set out with. -/
theorem vacant_of_walk {reused : Bool} {c : Nat} (hi : i < buckets.size)
    (h : plainWalk p accepts hash buckets n i tomb = .ok landing)
    (hslot : landing.slot c = .ok (.vacant x reused)) :
    (tomb = some x ∧ reused = true) ∨
      (buckets[x]? = some (if reused then .tombstone else .empty) ∧
        ∃ j < n, Passes p buckets i j x) := by
  induction n generalizing i tomb with
  | zero =>
    have hl : Landing.lap tomb = landing := by simpa [plainWalk] using h
    subst hl
    cases tomb with
    | none => exact absurd hslot (by simp [Landing.slot])
    | some y =>
      have hyx : y = x ∧ true = reused := by simpa [Landing.slot] using hslot
      exact Or.inl ⟨by rw [hyx.1], hyx.2.symm⟩
  | succ n ih =>
    rcases plainWalk_cases p accepts hash n tomb hi with
      ⟨hb, hrun⟩ | ⟨e, hb, hfit, hrun⟩ | ⟨_, f, _, _, _, hrun⟩ | ⟨b, i', hb, hpassed, hnext, hrun⟩
    · rw [hrun] at h
      have hl : Landing.gap i tomb = landing := by simpa using h
      subst hl
      cases tomb with
      | none =>
        have hix : i = x ∧ false = reused := by simpa [Landing.slot] using hslot
        obtain ⟨rfl, rfl⟩ := hix
        exact Or.inr ⟨hb, 0, by omega, passes_zero⟩
      | some y =>
        have hyx : y = x ∧ true = reused := by simpa [Landing.slot] using hslot
        exact Or.inl ⟨by rw [hyx.1], hyx.2.symm⟩
    · rw [hrun] at h
      have hl : Landing.hit i = landing := by simpa using h
      subst hl
      exact absurd hslot (by simp [Landing.slot])
    · rw [hrun] at h; exact absurd h (by simp)
    · rw [hrun] at h
      have hne : buckets[i]? ≠ some .empty := by
        rw [hb]; intro he; exact hpassed.1 (Option.some.inj he)
      rcases ih (Probe.next?_eq_some_iff.mp hnext).2 h with ⟨htomb, hreused⟩ | ⟨hx, j, hj, hpass⟩
      · -- the rest of the walk keeps its tombstone, which may be the one it sees here
        cases b with
        | tombstone =>
          cases tomb with
          | none =>
            have hix : i = x := by simpa [firstTomb] using htomb
            subst hix; subst hreused
            exact Or.inr ⟨hb, 0, by omega, passes_zero⟩
          | some y => exact Or.inl ⟨by simpa [firstTomb] using htomb, hreused⟩
        | empty => exact Or.inl ⟨htomb, hreused⟩
        | full e => exact Or.inl ⟨htomb, hreused⟩
      · exact Or.inr ⟨hx, j + 1, by omega, Passes.cons hne hnext hpass⟩

/-! ## Laps -/

/-- A walk that ends with its lap has met no empty bucket. -/
theorem ne_empty_of_lap {t : Option Nat} (hi : i < buckets.size)
    (h : plainWalk p accepts hash buckets n i tomb = .ok (.lap t)) (hj : j < n)
    (hx : p.nth? buckets.size i j = some x) : buckets[x]? ≠ some .empty := by
  induction n generalizing i j tomb with
  | zero => exact absurd hj (Nat.not_lt_zero _)
  | succ n ih =>
    rcases plainWalk_cases p accepts hash n tomb hi with
      ⟨_, hrun⟩ | ⟨e, _, _, hrun⟩ | ⟨_, f, _, _, _, hrun⟩ | ⟨b, i', hb, hpassed, hnext, hrun⟩
    · rw [hrun] at h; exact absurd h (by simp)
    · rw [hrun] at h; exact absurd h (by simp)
    · rw [hrun] at h; exact absurd h (by simp)
    · rw [hrun] at h
      cases j with
      | zero =>
        have hix : i = x := Option.some.inj hx
        rw [← hix, hb]
        intro he
        exact hpassed.1 (Option.some.inj he)
      | succ j =>
        rw [Probe.nth?_succ, hnext] at hx
        exact ih (Probe.next?_eq_some_iff.mp hnext).2 h (by omega) hx

/-- If a walk stops, then because there is no next bucket. -/
theorem exists_plainStep_error {f : Fault} (hi : i < buckets.size)
    (h : plainWalk p accepts hash buckets n i tomb = .error f) :
    ∃ x < buckets.size, plainStep p x buckets.size = .error f := by
  induction n generalizing i tomb with
  | zero => exact absurd h (by simp [plainWalk])
  | succ n ih =>
    rcases plainWalk_cases p accepts hash n tomb hi with
      ⟨_, hrun⟩ | ⟨e, _, _, hrun⟩ | ⟨_, f', _, _, hstep, hrun⟩ | ⟨b, i', _, _, hnext, hrun⟩
    · rw [hrun] at h; exact absurd h (by simp)
    · rw [hrun] at h; exact absurd h (by simp)
    · rw [hrun] at h
      have hff : f' = f := by simpa using h
      exact ⟨i, hi, hff ▸ hstep⟩
    · rw [hrun] at h
      exact ih (Probe.next?_eq_some_iff.mp hnext).2 h

theorem plainStep_ne_error {f : Fault} (hp : p.InRange n) (hi : i < n) :
    plainStep p i n ≠ .error f := by
  intro h
  obtain ⟨i', hnext⟩ := hp.exists_next? hi
  rw [plainStep_eq_ok_iff.mpr hnext] at h
  exact absurd h (by simp)

/-- A probe function that stays in the table lets every walk end by itself. -/
theorem exists_landing (hp : p.InRange buckets.size) (hi : i < buckets.size) :
    ∃ landing, plainWalk p accepts hash buckets n i tomb = .ok landing := by
  cases h : plainWalk p accepts hash buckets n i tomb with
  | ok landing => exact ⟨landing, rfl⟩
  | error f =>
    obtain ⟨x, hx, hstep⟩ := exists_plainStep_error hi h
    exact absurd hstep (plainStep_ne_error hp hx)

end Seek

namespace Table

open Seek

variable {K V : Type} {p : Probe} {accepts : K → Bool} {hash : UInt64} {t : Table K V}
  {i x : Nat} {e : Entry K V}

/-- A search for the hash gets to bucket `i` within a lap. -/
def Reaches (p : Probe) (t : Table K V) (hash : UInt64) (i : Nat) : Prop :=
  ∃ j < t.capacity, Passes p t.buckets (Probe.home hash t.capacity) j i

/-- What is not empty stays so, and so what is reached stays reached. -/
theorem Reaches.setBucket {b : Bucket K V} (hi : i < t.capacity) (hb : b ≠ .empty)
    (h : Reaches p t hash x) : Reaches p (t.setBucket i b) hash x := by
  obtain ⟨j, hj, hpass⟩ := h
  have hcap : (t.setBucket i b).capacity = t.capacity := capacity_setBucket
  refine ⟨j, by rw [hcap]; exact hj, ?_⟩
  rw [hcap]
  -- the path depends on the capacity only, and what was not empty is not empty now
  refine hpass.mono hcap (fun y hy => ?_)
  rw [getElem?_setBucket hi]
  split
  · intro he; exact hb (Option.some.inj he)
  · exact hy

theorem plainSeek_hit (h : plainSeek p accepts hash t.buckets = .ok (.hit i)) :
    (∃ e, t.entryAt? i = some e ∧ Fits accepts hash e) ∧ Reaches p t hash i := by
  have hpos : 0 < t.buckets.size := by
    rcases Nat.eq_zero_or_pos t.buckets.size with h0 | h0
    · unfold plainSeek at h; rw [h0] at h; exact absurd h (by simp [plainWalk])
    · exact h0
  obtain ⟨⟨e, he, hfit⟩, hreach⟩ := of_hit (Probe.home_lt hpos) h
  exact ⟨⟨e, entryAt?_eq_some_iff.mpr he, hfit⟩, hreach⟩

/-- An accepted entry that the search reaches makes it end with a hit. -/
theorem exists_plainSeek_hit (he : t.entryAt? i = some e) (hreach : Reaches p t hash i)
    (hfit : Fits accepts hash e) : ∃ x, plainSeek p accepts hash t.buckets = .ok (.hit x) := by
  obtain ⟨j, hj, hpass⟩ := hreach
  have hpos : 0 < t.buckets.size := Nat.lt_of_le_of_lt (Nat.zero_le _) hj
  exact exists_hit (Probe.home_lt hpos) hpass hj (entryAt?_eq_some_iff.mp he) hfit

theorem plainAcquire_occupied (h : plainAcquire p accepts hash t.buckets = .ok (.occupied i)) :
    ∃ e, t.entryAt? i = some e ∧ Fits accepts hash e := by
  obtain ⟨landing, hl, h⟩ := bind_eq_ok_iff.mp h
  rw [Landing.slot_eq_occupied_iff.mp h] at hl
  exact (plainSeek_hit hl).1

theorem plainAcquire_vacant {reused : Bool}
    (h : plainAcquire p accepts hash t.buckets = .ok (.vacant i reused)) :
    t.buckets[i]? = some (if reused then .tombstone else .empty) ∧ Reaches p t hash i := by
  obtain ⟨landing, hl, h⟩ := bind_eq_ok_iff.mp h
  have hpos : 0 < t.buckets.size := by
    rcases Nat.eq_zero_or_pos t.buckets.size with h0 | h0
    · unfold plainSeek at hl
      rw [h0] at hl
      have hlap : Landing.lap none = landing := by simpa [plainWalk] using hl
      subst hlap
      exact absurd h (by simp [Landing.slot])
    · exact h0
  rcases vacant_of_walk (Probe.home_lt hpos) hl h with ⟨htomb, _⟩ | ⟨hi, j, hj, hpass⟩
  · exact absurd htomb (by simp)
  · exact ⟨hi, j, hj, hpass⟩

/-- If the search gives out a free bucket, it has not reached any accepted entry. -/
theorem not_fits_of_vacant {reused : Bool}
    (h : plainAcquire p accepts hash t.buckets = .ok (.vacant i reused))
    (he : t.entryAt? x = some e) (hreach : Reaches p t hash x) : ¬ Fits accepts hash e := by
  intro hfit
  obtain ⟨y, hy⟩ := exists_plainSeek_hit he hreach hfit
  obtain ⟨landing, hl, h⟩ := bind_eq_ok_iff.mp h
  rw [hy] at hl
  rw [← Except.ok.inj hl] at h
  exact absurd h (by simp [Landing.slot])

/-- If the search gives out no bucket although the probe function stays in the table, then
there is no empty bucket on the whole path. -/
theorem ne_empty_of_plainAcquire_error {f : Fault} {j : Nat} (hp : p.InRange t.capacity)
    (hpos : 0 < t.capacity) (h : plainAcquire p accepts hash t.buckets = .error f)
    (hx : p.nth? t.capacity (Probe.home hash t.capacity) j = some x) :
    t.buckets[x]? ≠ some .empty := by
  have hhome : Probe.home hash t.capacity < t.capacity := Probe.home_lt hpos
  obtain ⟨landing, hl⟩ : ∃ landing, plainWalk p accepts hash t.buckets t.capacity
      (Probe.home hash t.capacity) none = .ok landing := exists_landing hp hhome
  -- the walk is one lap long, and the path may visit the bucket later than that
  obtain ⟨k, hk, hx'⟩ := hp.exists_lt_of_nth? hhome hx
  have hseek : plainSeek p accepts hash t.buckets = .ok landing := hl
  rcases bind_eq_error_iff.mp h with hstop | ⟨_, hl', h⟩
  · rw [hseek] at hstop
    exact absurd hstop (by simp)
  · rw [(Landing.slot_eq_error_iff.mp h).1] at hl'
    exact ne_empty_of_lap hhome hl' hk hx'

/-- Searches that accept no key do not end at an entry. -/
theorem plainAcquire_ne_occupied
    (h : plainAcquire p (fun _ => false) hash t.buckets = .ok (.occupied i)) : False := by
  obtain ⟨e, _, _, hkey⟩ := plainAcquire_occupied h
  exact absurd hkey (by simp)

end Table

end OpenAddressing
