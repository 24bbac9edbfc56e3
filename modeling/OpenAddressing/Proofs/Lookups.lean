import OpenAddressing.Lookup
import OpenAddressing.Journal
import OpenAddressing.Proofs.Acts
import OpenAddressing.Proofs.Search

/-!
# Looking keys up

Callbacks are *plain* for a strategy if they answer with its hash, its equality and its
probe function, whatever they do to the client meanwhile. With them a search comes to
what `plainSeek` comes to, and the map it leaves is the map it found: `Answers`.

Callbacks that may also give up, with a fault in `E`, *follow* the strategy as long as they
do not. What they do to a search is a case more at its end, and nothing else: `Follows`. So
the searches are gone through once, with callbacks that may give up, and the plain ones are
those that never do.
-/

namespace OpenAddressing

namespace World

variable {K V τ α β : Type}

/-- Nothing but the client has changed. -/
def SameButClient (w w' : World K V τ) : Prop := ∃ c, w' = { w with client := c }

/-- Started in `w`, the act comes to `r`, and nothing but the client changes. -/
def Answers (act : Act (World K V τ) α) (w : World K V τ) (r : Except Fault α) : Prop :=
  act.Ends w (fun a w' => r = .ok a ∧ w.SameButClient w') fun f w' =>
    r = .error f ∧ w.SameButClient w'

theorem SameButClient.refl (w : World K V τ) : w.SameButClient w := ⟨w.client, rfl⟩

theorem SameButClient.trans {w w' w'' : World K V τ} (h : w.SameButClient w')
    (h' : w'.SameButClient w'') : w.SameButClient w'' := by
  obtain ⟨c, rfl⟩ := h
  obtain ⟨c', rfl⟩ := h'
  exact ⟨c', rfl⟩

theorem SameButClient.table_eq {w w' : World K V τ} (h : w.SameButClient w') :
    w'.table = w.table := by
  obtain ⟨c, rfl⟩ := h; rfl

theorem SameButClient.heap_eq {w w' : World K V τ} (h : w.SameButClient w') :
    w'.heap = w.heap := by
  obtain ⟨c, rfl⟩ := h; rfl

theorem answers_pure {w : World K V τ} {a : α} : Answers (pure a) w (.ok a) :=
  ⟨rfl, .refl w⟩

theorem answers_throw {w : World K V τ} {f : Fault} :
    Answers (throw f : Act (World K V τ) α) w (.error f) :=
  ⟨rfl, .refl w⟩

theorem answers_lift {w : World K V τ} {r : Except Fault α} : Answers (Act.lift r) w r := by
  cases r with
  | ok a => exact ⟨rfl, .refl w⟩
  | error f => exact ⟨rfl, .refl w⟩

section

variable {E : Fault → Prop}

/-- Started in `w`, the act comes to `r`, unless it gives up before with a fault in `E`; and
nothing but the client changes. -/
def Follows (E : Fault → Prop) (act : Act (World K V τ) α) (w : World K V τ)
    (r : Except Fault α) : Prop :=
  act.Ends w (fun a w' => r = .ok a ∧ w.SameButClient w') fun f w' =>
    (r = .error f ∨ E f) ∧ w.SameButClient w'

theorem Answers.follows {w : World K V τ} {act : Act (World K V τ) α} {r : Except Fault α}
    (h : Answers act w r) : Follows E act w r :=
  h.imp (fun _ _ h => h) (fun _ _ h => ⟨Or.inl h.1, h.2⟩)

/-- An act that never gives up comes to its result. -/
theorem Follows.answers {w : World K V τ} {act : Act (World K V τ) α} {r : Except Fault α}
    (h : Follows (fun _ => False) act w r) : Answers act w r :=
  h.imp (fun _ _ h => h) (fun _ _ h => ⟨h.1.resolve_right id, h.2⟩)

theorem Follows.bind {w : World K V τ} {x : Act (World K V τ) β} {rx : Except Fault β}
    {f : β → Act (World K V τ) α} {g : β → Except Fault α} (hx : Follows E x w rx)
    (hf : ∀ b w', rx = .ok b → w.SameButClient w' → Follows E (f b) w' (g b)) :
    Follows E (x >>= f) w (rx >>= g) := by
  unfold Follows at hx ⊢
  rw [Act.ends_bind]
  refine hx.imp (fun b w' h => ?_) (fun e w' h => ?_)
  · obtain ⟨rfl, hw⟩ := h
    refine (hf b w' rfl hw).imp (fun a w'' h' => ?_) (fun e w'' h' => ?_)
    · exact ⟨h'.1, hw.trans h'.2⟩
    · exact ⟨h'.1, hw.trans h'.2⟩
  · obtain ⟨rfl | hE, hw⟩ := h
    · exact ⟨Or.inl rfl, hw⟩
    · exact ⟨Or.inr hE, hw⟩

/-- The answer of the first act is known. -/
theorem Follows.bind_ok {w : World K V τ} {x : Act (World K V τ) β} {b : β}
    {f : β → Act (World K V τ) α} {r : Except Fault α} (hx : Follows E x w (.ok b))
    (hf : ∀ w', w.SameButClient w' → Follows E (f b) w' r) : Follows E (x >>= f) w r := by
  refine hx.bind (g := fun _ => r) fun b' w' hb hw => ?_
  have hbb : b = b' := Except.ok.inj hb
  subst hbb
  exact hf w' hw

end

/-- The client changes, the answer is fixed. -/
theorem answers_onClient {w : World K V τ} {act : Act τ PUnit} {g : τ → τ}
    (h : ∀ c, act c = .ok ⟨⟩ (g c)) : Answers (onClient act) w (.ok ⟨⟩) := by
  unfold Answers
  rw [ends_onClient]
  unfold Act.Ends
  rw [h]
  exact ⟨rfl, g w.client, rfl⟩

end World

open World

/-- The callbacks answer as a strategy does. -/
structure Callbacks.Plain {K V τ : Type} (cb : Callbacks K V τ) (s : Strategy K) : Prop where
  hash : ∀ k w, Answers (cb.hash k) w (.ok (s.hash k))
  equals : ∀ a b w, Answers (cb.equals a b) w (.ok (s.equals a b))
  probe : ∀ i capacity w, Answers (cb.probe i capacity) w (s.probe i capacity)
  limit : cb.limit = s.limit

/-- The callbacks answer as a strategy does, unless they give up with a fault in `E`. -/
structure Callbacks.Follows {K V τ : Type} (E : Fault → Prop) (cb : Callbacks K V τ)
    (s : Strategy K) : Prop where
  hash : ∀ k w, World.Follows E (cb.hash k) w (.ok (s.hash k))
  equals : ∀ a b w, World.Follows E (cb.equals a b) w (.ok (s.equals a b))
  probe : ∀ i capacity w, World.Follows E (cb.probe i capacity) w (s.probe i capacity)
  limit : cb.limit = s.limit

/-- Plain callbacks never give up. -/
theorem Callbacks.Plain.follows {K V τ : Type} {cb : Callbacks K V τ} {s : Strategy K}
    (hcb : cb.Plain s) : cb.Follows (fun _ => False) s where
  hash := fun k w => (hcb.hash k w).follows
  equals := fun a b w => (hcb.equals a b w).follows
  probe := fun i capacity w => (hcb.probe i capacity w).follows
  limit := hcb.limit

theorem Callbacks.Follows.plain {K V τ : Type} {cb : Callbacks K V τ} {s : Strategy K}
    (hcb : cb.Follows (fun _ => False) s) : cb.Plain s where
  hash := fun k w => (hcb.hash k w).answers
  equals := fun a b w => (hcb.equals a b w).answers
  probe := fun i capacity w => (hcb.probe i capacity w).answers
  limit := hcb.limit

/-- An interruption that gives up or does nothing to the map is all that keeps the callbacks
from being plain; writing calls down does not. -/
theorem Strategy.interrupted_follows {K V : Type} {E : Fault → Prop} {s : Strategy K}
    {interrupt : Interrupt K V} (h : ∀ c w, World.Follows E (interrupt c) w (.ok ())) :
    (s.interrupted interrupt).Follows E s := by
  have hnote : ∀ (e : Event K V) (w : World K V (Journal K V)),
      Follows E (World.onClient (Journal.note e)) w (.ok ⟨⟩) :=
    fun e _ => (answers_onClient (g := (e :: ·)) fun _ => rfl).follows
  constructor
  · intro k w
    exact (hnote _ w).bind_ok fun _ _ => (h _ _).bind_ok fun _ _ => answers_pure.follows
  · intro a b w
    exact (hnote _ w).bind_ok fun _ _ => (h _ _).bind_ok fun _ _ => answers_pure.follows
  · intro i capacity w
    unfold Strategy.interrupted
    dsimp only
    cases s.probe? with
    | none => exact answers_lift.follows
    | some _ =>
      exact (hnote _ w).bind_ok fun _ _ => (h _ _).bind_ok fun _ _ => answers_lift.follows
  · rfl

theorem Strategy.callbacks_plain {K V : Type} (s : Strategy K) :
    (s.callbacks : Callbacks K V (Journal K V)).Plain s :=
  (Strategy.interrupted_follows fun _ _ => answers_pure.follows).plain

namespace Seek

variable {K V τ : Type} {E : Fault → Prop} {cb : Callbacks K V τ} {s : Strategy K}

theorem step_follows (hcb : cb.Follows E s) {i capacity : Nat} {w : World K V τ} :
    Follows E (step cb.probe i capacity) w (plainStep s.probe i capacity) := by
  refine (hcb.probe i capacity w).bind fun next w' _ _ => ?_
  split
  · exact answers_pure.follows
  · exact answers_throw.follows

theorem fits_follows {acc : K → Act (World K V τ) Bool} {accepts : K → Bool}
    (hacc : ∀ k w, Follows E (acc k) w (.ok (accepts k))) {hash : UInt64} {e : Entry K V}
    {w : World K V τ} : Follows E (fits acc hash e) w (.ok (decide (Fits accepts hash e))) := by
  unfold fits
  split
  · rename_i hhash
    have heq : decide (Fits accepts hash e) = accepts e.key := by
      unfold Fits; simp [hhash]
    rw [heq]
    exact hacc e.key w
  · rename_i hhash
    have heq : decide (Fits accepts hash e) = false := by
      unfold Fits; simp [hhash]
    rw [heq]
    exact answers_pure.follows

theorem walk_follows (hcb : cb.Follows E s) {acc : K → Act (World K V τ) Bool}
    {accepts : K → Bool} (hacc : ∀ k w, Follows E (acc k) w (.ok (accepts k))) {hash : UInt64}
    {buckets : Array (Bucket K V)} {n i : Nat} {tomb : Option Nat} {w : World K V τ} :
    Follows E (walk cb.probe acc hash buckets n i tomb) w
      (plainWalk s.probe accepts hash buckets n i tomb) := by
  induction n generalizing i tomb w with
  | zero => exact answers_pure.follows
  | succ n ih =>
    rw [walk, plainWalk]
    cases hb : buckets[i]? with
    | none => exact answers_throw.follows
    | some b =>
      cases b with
      | empty => exact answers_pure.follows
      | tombstone => exact (step_follows hcb).bind fun _ _ _ _ => ih
      | full e =>
        have hfits : Follows E (fits acc hash e) w (.ok (decide (Fits accepts hash e))) :=
          fits_follows hacc
        dsimp only
        by_cases hfit : Fits accepts hash e
        · rw [if_pos hfit]
          rw [decide_eq_true hfit] at hfits
          exact hfits.bind_ok fun _ _ => answers_pure.follows
        · rw [if_neg hfit]
          rw [decide_eq_false hfit] at hfits
          exact hfits.bind_ok fun _ _ => (step_follows hcb).bind fun _ _ _ _ => ih

theorem acquire_follows (hcb : cb.Follows E s) {acc : K → Act (World K V τ) Bool}
    {accepts : K → Bool} (hacc : ∀ k w, Follows E (acc k) w (.ok (accepts k))) {hash : UInt64}
    {t : Table K V} (hpos : t.capacity ≠ 0) {w : World K V τ} :
    Follows E (acquire cb.probe acc hash t.buckets) w
      (plainAcquire s.probe accepts hash t.buckets) := by
  have hpos' : t.buckets.size ≠ 0 := hpos
  unfold acquire Act.require
  rw [if_pos hpos']
  exact (walk_follows hcb hacc).bind fun _ _ _ _ => answers_lift.follows

end Seek

/-- The bucket that a lookup finds. -/
def Table.plainFind {K V : Type} (s : Strategy K) (k : K) (t : Table K V) :
    Except Fault (Option Nat) :=
  if t.capacity = 0 then .ok none
  else do
    let landing ← Seek.plainSeek s.probe (s.equals k) (s.hash k) t.buckets
    return landing.found?

namespace Table

variable {K V : Type} {s : Strategy K} {k : K} {t : Table K V} {i : Nat} {e : Entry K V}
  {landing : Landing}

/-- A lookup in a table with buckets comes to what its search lands on. -/
theorem plainFind_of_plainSeek (hpos : t.capacity ≠ 0)
    (h : Seek.plainSeek s.probe (s.equals k) (s.hash k) t.buckets = .ok landing) :
    t.plainFind s k = .ok landing.found? := by
  unfold plainFind
  rw [if_neg hpos, h]
  rfl

theorem plainSeek_of_plainFind (h : plainFind s k t = .ok (some i)) :
    Seek.plainSeek s.probe (s.equals k) (s.hash k) t.buckets = .ok (.hit i) := by
  unfold plainFind at h
  split at h
  · exact absurd h (by simp)
  · obtain ⟨landing, hl, h⟩ := bind_eq_ok_iff.mp h
    rw [hl, Landing.found?_eq_some_iff.mp (Except.ok.inj h)]

/-- What a lookup finds has the hash of the key and compares equal with it. -/
theorem entry_of_plainFind (h : plainFind s k t = .ok (some i)) :
    ∃ e, t.entryAt? i = some e ∧ e.hash = s.hash k ∧ s.equals k e.key = true :=
  (plainSeek_hit (plainSeek_of_plainFind h)).1

/-- A lookup that finds nothing has not reached an entry that compares equal. -/
theorem not_equals_of_plainFind (h : plainFind s k t = .ok none) (he : t.entryAt? i = some e)
    (hreach : t.Reaches s.probe e.hash i) (hhash : e.hash = s.hash k) :
    s.equals k e.key = false := by
  cases heq : s.equals k e.key with
  | false => rfl
  | true =>
    exfalso
    have hpos : t.capacity ≠ 0 := by
      have := lt_capacity_of_entryAt? he; omega
    rw [hhash] at hreach
    obtain ⟨x, hx⟩ := exists_plainSeek_hit he hreach ⟨hhash, heq⟩
    rw [plainFind_of_plainSeek hpos hx] at h
    exact absurd h (by simp [Landing.found?])

end Table

namespace World

variable {K V τ α : Type} {E : Fault → Prop} {cb : Callbacks K V τ} {s : Strategy K} {k : K}
  {w : World K V τ}

theorem findKey_follows (hcb : cb.Follows E s) :
    Follows E (findKey cb k) w (w.table.plainFind s k) := by
  unfold findKey Table.plainFind
  unfold Follows
  rw [Act.ends_bind, Act.ends_get]
  split
  · exact answers_pure.follows
  · refine (hcb.hash k w).bind_ok fun w' _ => ?_
    rw [Seek.find_eq]
    exact (Seek.walk_follows hcb (hcb.equals k)).bind fun _ _ _ _ => answers_pure.follows

/-- The faults of a lookup: those of the search, and that another one is running. -/
def LookupFault (s : Strategy K) (k : K) (w : World K V τ) (f : Fault) : Prop :=
  w.table.plainFind s k = .error f ∨ (f = .reentrant ∧ w.probing = true)

theorem locate_follows (hcb : cb.Follows E s) :
    (locate cb k).Ends w (fun i? w' => w.table.plainFind s k = .ok i? ∧ w.SameButClient w')
      fun f w' => (LookupFault s k w f ∨ E f) ∧ w.SameButClient w' := by
  unfold locate
  rw [ends_guarded]
  refine ⟨fun hp => ⟨Or.inl (Or.inr ⟨rfl, hp⟩), .refl w⟩, fun hp => ?_⟩
  -- on both exits the guard takes the mark away again that it has set
  have hback : ∀ w', ({ w with probing := true } : World K V τ).SameButClient w' →
      w.SameButClient { w' with probing := false } := by
    rintro w' ⟨c, rfl⟩
    refine ⟨c, ?_⟩
    rw [← hp]
  refine (findKey_follows hcb).imp (fun i? w' h => ?_) (fun f w' h => ?_)
  · exact ⟨h.1, hback w' h.2⟩
  · exact ⟨h.1.imp_left Or.inl, hback w' h.2⟩

theorem locate_ends (hcb : cb.Plain s) :
    (locate cb k).Ends w (fun i? w' => w.table.plainFind s k = .ok i? ∧ w.SameButClient w')
      fun f w' => LookupFault s k w f ∧ w.SameButClient w' :=
  (locate_follows hcb.follows).imp (fun _ _ h => h)
    (fun _ _ h => ⟨h.1.resolve_right id, h.2⟩)

/-- A lookup answers with the pair in the bucket that the search finds. -/
theorem getEntry?_follows (hcb : cb.Follows E s) :
    (World.getEntry? cb k).Ends w
      (fun r w' => (∃ i?, w.table.plainFind s k = .ok i? ∧
        r = (i?.bind w.table.entryAt?).map Entry.pair) ∧ w.SameButClient w')
      fun f w' => (LookupFault s k w f ∨ E f) ∧ w.SameButClient w' := by
  unfold getEntry?
  rw [Act.ends_bind]
  refine (locate_follows hcb).imp (fun i? w' h => ?_) (fun _ _ h => h)
  obtain ⟨hfind, hw⟩ := h
  cases i? with
  | none => exact ⟨⟨none, hfind, rfl⟩, hw⟩
  | some i =>
    obtain ⟨e, he, _⟩ := Table.entry_of_plainFind hfind
    simp only [Act.ends_bind, Act.ends_get, hw.table_eq,
      Table.bucketAt_of_getElem? (Table.entryAt?_eq_some_iff.mp he), Act.ends_lift_ok,
      Act.ends_pure]
    refine ⟨⟨some i, hfind, ?_⟩, hw⟩
    rw [Option.bind_some, he]
    rfl

theorem getEntry?_ends (hcb : cb.Plain s) :
    (World.getEntry? cb k).Ends w
      (fun r w' => (∃ i?, w.table.plainFind s k = .ok i? ∧
        r = (i?.bind w.table.entryAt?).map Entry.pair) ∧ w.SameButClient w')
      fun f w' => LookupFault s k w f ∧ w.SameButClient w' :=
  (getEntry?_follows hcb.follows).imp (fun _ _ h => h)
    (fun _ _ h => ⟨h.1.resolve_right id, h.2⟩)

end World

end OpenAddressing
