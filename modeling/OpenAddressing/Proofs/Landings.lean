import OpenAddressing.Proofs.Transcripts

/-!
# Where the two searches end

A lookup and an insertion have a loop each. Both follow the path of the hash up to the first
bucket that ends a search, and `Gets` says that they get so far: the path is there, and
every bucket before is passed. What happens on the way is then a matter of the list of
visited buckets: the calls that are made are those of the buckets, one after the other
(`Seek.passing`), and the tombstone that an insertion has in mind is the first one in the
list (`Seek.firstTombstone`).

The walk from the home bucket is therefore the walk from where it gets to
(`plainWalk_of_gets`), and its transcript likewise (`transcript_of_gets`). One more step
decides how it ends, and `searches_agree` says for each way (`Ending`) what both searches
answer and which calls they have made.
-/

namespace OpenAddressing

open Act World

/-- The first `j` buckets of the path from bucket `i`. -/
def Probe.visited (p : Probe) (c i j : Nat) : List Nat := (List.range j).filterMap (p.nth? c i)

namespace Probe

variable {p : Probe} {c i i' j x : Nat}

theorem visited_cons (hnext : p.next? c i = some i') :
    p.visited c i (j + 1) = i :: p.visited c i' j := by
  have htail : (p.nth? c i ∘ Nat.succ) = p.nth? c i' := by
    funext m
    show p.nth? c i (m + 1) = _
    rw [nth?_succ, hnext]
    rfl
  unfold visited
  rw [List.range_succ_eq_map, List.filterMap_cons, List.filterMap_map, htail]
  rfl

theorem visited_snoc (hx : p.nth? c i j = some x) :
    p.visited c i (j + 1) = p.visited c i j ++ [x] := by
  unfold visited
  rw [List.range_succ, List.filterMap_append, List.filterMap_cons, hx]
  rfl

end Probe

namespace Seek

variable {K V : Type}

/-- The search from bucket `i` gets to bucket `x` in `j` steps: the path leads there, and no
bucket before ends the search. -/
def Gets (p : Probe) (accepts : K → Bool) (hash : UInt64) (buckets : Array (Bucket K V))
    (i j x : Nat) : Prop :=
  p.nth? buckets.size i j = some x ∧
    ∀ m < j, ∀ y b, p.nth? buckets.size i m = some y → buckets[y]? = some b →
      Passed accepts hash b

/-- The first tombstone among the first `j` buckets of the path from bucket `i`. -/
def firstTombstone (p : Probe) (buckets : Array (Bucket K V)) (i j : Nat) : Option Nat :=
  (p.visited buckets.size i j).find? fun x => buckets[x]?.any Bucket.isTombstone

/-- The calls that are made to find out about the key in a bucket. -/
def asked (ask : K → List (Event K V)) (hash : UInt64) (buckets : Array (Bucket K V))
    (x : Nat) : List (Event K V) :=
  match buckets[x]? with
  | some (.full e) => if e.hash = hash then ask e.key else []
  | _ => []

/-- The calls that are made on the way past the first `j` buckets of the path. -/
def passing (s : Strategy K) (ask : K → List (Event K V)) (hash : UInt64)
    (buckets : Array (Bucket K V)) (i j : Nat) : List (Event K V) :=
  (s.probe.visited buckets.size i j).flatMap fun x =>
    asked ask hash buckets x ++ s.goes x buckets.size

/-- The slot that an insertion takes which comes to the empty bucket `x`. -/
def slotAt (x : Nat) : Option Nat → Slot
  | some t => .vacant t true
  | none => .vacant x false

/-- The slot that an insertion takes after a lap in a table of `c` buckets. -/
def slotAfterLap (c : Nat) : Option Nat → Except Fault Slot
  | some t => .ok (.vacant t true)
  | none => .error (.probeExhausted c)

theorem slot_gap {c x : Nat} {tomb : Option Nat} :
    (Landing.gap x tomb).slot c = .ok (slotAt x tomb) := by
  cases tomb <;> rfl

theorem slot_lap {c : Nat} {tomb : Option Nat} :
    (Landing.lap tomb).slot c = slotAfterLap c tomb := by
  cases tomb <;> rfl

variable {p : Probe} {accepts : K → Bool} {hash : UInt64} {buckets : Array (Bucket K V)}
  {n i j x : Nat} {tomb : Option Nat} {e : Entry K V} {b : Bucket K V} {f : Fault}

/-! ## Getting past buckets -/

theorem gets_zero : Gets p accepts hash buckets i 0 i :=
  ⟨rfl, fun _ hm => absurd hm (Nat.not_lt_zero _)⟩

theorem Gets.cons {i' : Nat} (hb : buckets[i]? = some b) (hpassed : Passed accepts hash b)
    (hnext : p.next? buckets.size i = some i') (h : Gets p accepts hash buckets i' j x) :
    Gets p accepts hash buckets i (j + 1) x := by
  refine ⟨by rw [Probe.nth?_succ, hnext]; exact h.1, fun m hm y b' hy hb' => ?_⟩
  cases m with
  | zero =>
    have hiy : i = y := Option.some.inj hy
    rw [← hiy, hb] at hb'
    exact Option.some.inj hb' ▸ hpassed
  | succ m =>
    rw [Probe.nth?_succ, hnext] at hy
    exact h.2 m (by omega) y b' hy hb'

theorem Gets.uncons (hi : i < buckets.size) (h : Gets p accepts hash buckets i (j + 1) x) :
    ∃ b i', buckets[i]? = some b ∧ Passed accepts hash b ∧ p.next? buckets.size i = some i' ∧
      Gets p accepts hash buckets i' j x := by
  obtain ⟨hx, hpath⟩ := h
  rw [Probe.nth?_succ] at hx
  obtain ⟨i', hnext, hx⟩ := Option.bind_eq_some_iff.mp hx
  have hb : buckets[i]? = some buckets[i] := Array.getElem?_eq_getElem hi
  refine ⟨buckets[i], i', hb, hpath 0 (by omega) i _ rfl hb, hnext, hx, fun m hm y b hy => ?_⟩
  refine hpath (m + 1) (by omega) y b ?_
  rw [Probe.nth?_succ, hnext]
  exact hy

theorem firstTombstone_cons {i' : Nat} (hb : buckets[i]? = some b)
    (hnext : p.next? buckets.size i = some i') :
    tomb.or (firstTombstone p buckets i (j + 1)) =
      (firstTomb tomb i b).or (firstTombstone p buckets i' j) := by
  unfold firstTombstone
  rw [Probe.visited_cons hnext, List.find?_cons, hb, Option.any_some]
  cases b with
  | empty => rfl
  | tombstone =>
    show tomb.or (some i) = (tomb.or (some i)).or _
    cases tomb <;> rfl
  | full e => rfl

/-- A walk goes on from where it gets to, with the first tombstone that it has passed. -/
theorem plainWalk_of_gets {m : Nat} (hi : i < buckets.size)
    (h : Gets p accepts hash buckets i j x) (hm : n + j = m) :
    plainWalk p accepts hash buckets m i tomb =
      plainWalk p accepts hash buckets n x (tomb.or (firstTombstone p buckets i j)) := by
  subst hm
  induction j generalizing i tomb with
  | zero =>
    have hix : i = x := Option.some.inj h.1
    subst hix
    show _ = plainWalk p accepts hash buckets n i (tomb.or none)
    rw [Option.or_none]
    rfl
  | succ j ih =>
    obtain ⟨b, i', hb, hpassed, hnext, hgets⟩ := h.uncons hi
    rw [firstTombstone_cons hb hnext, ← ih (Probe.next?_eq_some_iff.mp hnext).2 hgets,
      ← Nat.add_assoc]
    rcases plainWalk_cases p accepts hash (n + j) tomb hi with
      ⟨hb', _⟩ | ⟨e, hb', hfit, _⟩ | ⟨_, f, _, _, hstep, _⟩ | ⟨b', i'', hb', _, hnext', hrun⟩
    · rw [hb] at hb'
      exact absurd (Option.some.inj hb') hpassed.1
    · rw [hb] at hb'
      exact absurd hfit (hpassed.2 e (Option.some.inj hb'))
    · rw [plainStep_eq_ok_iff.mpr hnext] at hstep
      exact absurd hstep (by simp)
    · have hbb : b = b' := Option.some.inj (hb.symm.trans hb')
      have hii : i' = i'' := Option.some.inj (hnext.symm.trans hnext')
      rw [hrun, hbb, hii]

/-! ## The calls on the way -/

section

variable {s : Strategy K} {ask : K → List (Event K V)}

/-- The calls at a bucket that is passed, and then those from the next bucket on. -/
theorem transcript_of_passed (hb : buckets[i]? = some b) (hpassed : Passed accepts hash b) :
    transcript s ask accepts hash buckets (n + 1) i =
      asked ask hash buckets i ++ s.goes i buckets.size ++
        match plainStep s.probe i buckets.size with
        | .ok next => transcript s ask accepts hash buckets n next
        | .error _ => [] := by
  rw [transcript, hb]
  unfold asked
  rw [hb]
  cases b with
  | empty => exact absurd rfl hpassed.1
  | tombstone => rfl
  | full e =>
    dsimp only
    rw [if_neg (hpassed.2 e rfl)]
    exact (List.append_assoc _ _ _).symm

/-- The calls on the way to where the search gets, and then those from there on. -/
theorem transcript_of_gets {m : Nat} (hi : i < buckets.size)
    (h : Gets s.probe accepts hash buckets i j x) (hm : n + j = m) :
    transcript s ask accepts hash buckets m i =
      passing s ask hash buckets i j ++ transcript s ask accepts hash buckets n x := by
  subst hm
  induction j generalizing i with
  | zero =>
    have hix : i = x := Option.some.inj h.1
    subst hix
    rfl
  | succ j ih =>
    obtain ⟨b, i', hb, hpassed, hnext, hgets⟩ := h.uncons hi
    have htail := ih (Probe.next?_eq_some_iff.mp hnext).2 hgets
    rw [← Nat.add_assoc, transcript_of_passed hb hpassed, plainStep_eq_ok_iff.mpr hnext]
    dsimp only
    unfold passing
    rw [Probe.visited_cons hnext, List.flatMap_cons, htail]
    simp only [List.append_assoc]
    rfl

theorem transcript_of_fits (hx : buckets[x]? = some (.full e)) (hfit : Fits accepts hash e) :
    transcript s ask accepts hash buckets (n + 1) x = ask e.key := by
  rw [transcript, hx]
  dsimp only
  rw [if_pos hfit.1, if_pos hfit, List.append_nil]

theorem transcript_of_empty (hx : buckets[x]? = some .empty) :
    transcript s ask accepts hash buckets (n + 1) x = [] := by
  rw [transcript, hx]

end

/-! ## Ways to end -/

/-- A walk gets to a bucket that ends it, goes on for its whole lap, or gets to a bucket that
it passes and that has no next one. -/
theorem gets_cases (p : Probe) (accepts : K → Bool) (hash : UInt64) (n : Nat)
    (hi : i < buckets.size) :
    (∃ j < n, ∃ x e, Gets p accepts hash buckets i j x ∧ buckets[x]? = some (.full e) ∧
      Fits accepts hash e) ∨
    (∃ j < n, ∃ x, Gets p accepts hash buckets i j x ∧ buckets[x]? = some .empty) ∨
    (∃ x, Gets p accepts hash buckets i n x) ∨
    ∃ j < n, ∃ x b f, Gets p accepts hash buckets i j x ∧ buckets[x]? = some b ∧
      Passed accepts hash b ∧ plainStep p x buckets.size = .error f := by
  induction n generalizing i with
  | zero => exact Or.inr (Or.inr (Or.inl ⟨i, gets_zero⟩))
  | succ n ih =>
    rcases plainWalk_cases p accepts hash n none hi with
      ⟨hb, _⟩ | ⟨e, hb, hfit, _⟩ | ⟨b, f, hb, hpassed, hstep, _⟩ | ⟨b, i', hb, hpassed, hnext, _⟩
    · exact Or.inr (Or.inl ⟨0, by omega, i, gets_zero, hb⟩)
    · exact Or.inl ⟨0, by omega, i, e, gets_zero, hb, hfit⟩
    · exact Or.inr (Or.inr (Or.inr ⟨0, by omega, i, b, f, gets_zero, hb, hpassed, hstep⟩))
    · rcases ih (Probe.next?_eq_some_iff.mp hnext).2 with
        ⟨j, hj, x, e, hgets, hx⟩ | ⟨j, hj, x, hgets, hx⟩ | ⟨x, hgets⟩ | ⟨j, hj, x, b', f, hgets, hx⟩
      · exact Or.inl ⟨j + 1, by omega, x, e, hgets.cons hb hpassed hnext, hx⟩
      · exact Or.inr (Or.inl ⟨j + 1, by omega, x, hgets.cons hb hpassed hnext, hx⟩)
      · exact Or.inr (Or.inr (Or.inl ⟨x, hgets.cons hb hpassed hnext⟩))
      · exact Or.inr (Or.inr (Or.inr
          ⟨j + 1, by omega, x, b', f, hgets.cons hb hpassed hnext, hx⟩))

theorem plainWalk_of_fits (hi : i < buckets.size) (hj : j < n)
    (hgets : Gets p accepts hash buckets i j x) (hx : buckets[x]? = some (.full e))
    (hfit : Fits accepts hash e) : plainWalk p accepts hash buckets n i tomb = .ok (.hit x) := by
  have hn : n - j - 1 + 1 + j = n := by omega
  rw [plainWalk_of_gets hi hgets hn, plainWalk, hx]
  exact if_pos hfit

theorem plainWalk_of_empty (hi : i < buckets.size) (hj : j < n)
    (hgets : Gets p accepts hash buckets i j x) (hx : buckets[x]? = some .empty) :
    plainWalk p accepts hash buckets n i tomb =
      .ok (.gap x (tomb.or (firstTombstone p buckets i j))) := by
  have hn : n - j - 1 + 1 + j = n := by omega
  rw [plainWalk_of_gets hi hgets hn, plainWalk, hx]

theorem plainWalk_of_lap (hi : i < buckets.size) (hgets : Gets p accepts hash buckets i n x) :
    plainWalk p accepts hash buckets n i tomb =
      .ok (.lap (tomb.or (firstTombstone p buckets i n))) :=
  plainWalk_of_gets hi hgets (Nat.zero_add n)

theorem plainWalk_of_step_error (hi : i < buckets.size) (hj : j < n)
    (hgets : Gets p accepts hash buckets i j x) (hx : buckets[x]? = some b)
    (hpassed : Passed accepts hash b) (hstep : plainStep p x buckets.size = .error f) :
    plainWalk p accepts hash buckets n i tomb = .error f := by
  have hn : n - j - 1 + 1 + j = n := by omega
  rw [plainWalk_of_gets hi hgets hn, plainWalk, hx]
  cases b with
  | empty => exact absurd rfl hpassed.1
  | tombstone =>
    dsimp only
    rw [hstep]
    rfl
  | full e =>
    dsimp only
    rw [if_neg (hpassed.2 e rfl), hstep]
    rfl

/-! ## What both searches come to -/

section

variable {s : Strategy K} {k : K}

/-- Both searches for a key with this hash make the calls `events`; the one for a lookup then
comes to `found`, and the one for an insertion to `slot`. -/
def BothEnd (s : Strategy K) (k : K) (hash : UInt64) (buckets : Array (Bucket K V))
    (events : List (Event K V)) (found : Except Fault (Option Nat)) (slot : Except Fault Slot) :
    Prop :=
  ∀ w : World K V (Journal K V),
    find s.callbacks.probe (s.callbacks.equals k) hash buckets w =
      lift found (w.logged events) ∧
    acquire s.callbacks.probe (s.callbacks.equals k) hash buckets w =
      lift slot (w.logged events)

/-- Both searches make the calls of one transcript, and come to what is read off one walk. -/
theorem bothEnd_of_walk (hpos : 0 < buckets.size) {r : Except Fault Landing}
    (hwalk : plainWalk s.probe (s.equals k) hash buckets buckets.size
      (Probe.home hash buckets.size) none = r) :
    BothEnd s k hash buckets
      (transcript s (fun a => [.compared k a]) (s.equals k) hash buckets buckets.size
        (Probe.home hash buckets.size))
      (r.map Landing.found?) (r >>= Landing.slot buckets.size) := by
  intro w
  have hseek : seek s.callbacks.probe (s.callbacks.equals k) hash buckets w =
      lift r (w.logged (transcript s (fun a => [.compared k a]) (s.equals k) hash buckets
        buckets.size (Probe.home hash buckets.size))) := by
    unfold seek
    rw [← hwalk, show s.callbacks = s.interrupted fun _ => pure () from rfl,
      walk_eq fun _ => Strategy.interrupted_equals]
    exact bind_of_ok perform_plain
  constructor
  · rw [find_eq]
    exact bind_pure_of_eq hseek
  · unfold acquire
    rw [show Act.require (σ := World K V (Journal K V)) (buckets.size ≠ 0) .unallocated = pure ()
      from if_pos (by omega), pure_bind]
    exact bind_lift_of_eq hseek

/-- The calls at one bucket more. -/
theorem passing_snoc {ask : K → List (Event K V)} (hx : s.probe.nth? buckets.size i j = some x) :
    passing s ask hash buckets i (j + 1) =
      passing s ask hash buckets i j ++ (asked ask hash buckets x ++ s.goes x buckets.size) := by
  unfold passing
  rw [Probe.visited_snoc hx, List.flatMap_append, List.flatMap_singleton]

/-- What the path of the hash says about a search for `k`: the calls that it makes, and what
it comes to for a lookup and for an insertion. -/
inductive Ending (s : Strategy K) (k : K) (hash : UInt64) (buckets : Array (Bucket K V)) :
    List (Event K V) → Except Fault (Option Nat) → Except Fault Slot → Prop
  /-- The first bucket that ends the search has an entry with the hash and a key that is
  accepted. -/
  | hit {j x : Nat} {e : Entry K V} (hj : j < buckets.size)
      (hgets : Gets s.probe (s.equals k) hash buckets (Probe.home hash buckets.size) j x)
      (hx : buckets[x]? = some (.full e)) (hfit : Fits (s.equals k) hash e) :
      Ending s k hash buckets
        (passing s (fun a => [.compared k a]) hash buckets (Probe.home hash buckets.size) j ++
          [.compared k e.key])
        (.ok (some x)) (.ok (.occupied x))
  /-- The first bucket that ends the search is empty. -/
  | gap {j x : Nat} (hj : j < buckets.size)
      (hgets : Gets s.probe (s.equals k) hash buckets (Probe.home hash buckets.size) j x)
      (hx : buckets[x]? = some .empty) :
      Ending s k hash buckets
        (passing s (fun a => [.compared k a]) hash buckets (Probe.home hash buckets.size) j)
        (.ok none)
        (.ok (slotAt x (firstTombstone s.probe buckets (Probe.home hash buckets.size) j)))
  /-- A lap leads past buckets that do not end the search, and stays in the table. -/
  | lap {x : Nat}
      (hgets : Gets s.probe (s.equals k) hash buckets (Probe.home hash buckets.size)
        buckets.size x) :
      Ending s k hash buckets
        (passing s (fun a => [.compared k a]) hash buckets (Probe.home hash buckets.size)
          buckets.size)
        (.ok none)
        (slotAfterLap buckets.size
          (firstTombstone s.probe buckets (Probe.home hash buckets.size) buckets.size))
  /-- The path comes to a bucket that does not end the search, and leaves the table there. -/
  | stray {j x next : Nat} {b : Bucket K V} (hj : j < buckets.size)
      (hgets : Gets s.probe (s.equals k) hash buckets (Probe.home hash buckets.size) j x)
      (hx : buckets[x]? = some b) (hpassed : Passed (s.equals k) hash b)
      (hnext : s.probe x buckets.size = .ok next) (hout : buckets.size ≤ next) :
      Ending s k hash buckets
        (passing s (fun a => [.compared k a]) hash buckets (Probe.home hash buckets.size) (j + 1))
        (.error (.probeOutOfRange next buckets.size))
        (.error (.probeOutOfRange next buckets.size))
  /-- The path comes to a bucket that does not end the search, and the probe function stops
  there for a reason of its own. -/
  | stop {j x : Nat} {b : Bucket K V} {f : Fault} (hj : j < buckets.size)
      (hgets : Gets s.probe (s.equals k) hash buckets (Probe.home hash buckets.size) j x)
      (hx : buckets[x]? = some b) (hpassed : Passed (s.equals k) hash b)
      (hstop : s.probe x buckets.size = .error f) :
      Ending s k hash buckets
        (passing s (fun a => [.compared k a]) hash buckets (Probe.home hash buckets.size) (j + 1))
        (.error f) (.error f)

/-- Every path ends in one of these ways. -/
theorem exists_ending (s : Strategy K) (k : K) (hash : UInt64) (hpos : 0 < buckets.size) :
    ∃ events found slot, Ending s k hash buckets events found slot := by
  have hhome : Probe.home hash buckets.size < buckets.size := Probe.home_lt hpos
  rcases gets_cases s.probe (s.equals k) hash buckets.size hhome with
    ⟨j, hj, x, e, hgets, hx, hfit⟩ | ⟨j, hj, x, hgets, hx⟩ | ⟨x, hgets⟩ |
    ⟨j, hj, x, b, f, hgets, hx, hpassed, hstep⟩
  · exact ⟨_, _, _, .hit hj hgets hx hfit⟩
  · exact ⟨_, _, _, .gap hj hgets hx⟩
  · exact ⟨_, _, _, .lap hgets⟩
  · rcases plainStep_eq_error_iff.mp hstep with hstop | ⟨next, hnext, hout, rfl⟩
    · exact ⟨_, _, _, .stop hj hgets hx hpassed hstop⟩
    · exact ⟨_, _, _, .stray hj hgets hx hpassed hnext hout⟩

/-- At a bucket that is passed and has no next one, both searches stop. -/
theorem bothEnd_of_step_error (hpos : 0 < buckets.size) (hj : j < buckets.size)
    (hgets : Gets s.probe (s.equals k) hash buckets (Probe.home hash buckets.size) j x)
    (hx : buckets[x]? = some b) (hpassed : Passed (s.equals k) hash b)
    (hstep : plainStep s.probe x buckets.size = .error f) :
    BothEnd s k hash buckets
      (passing s (fun a => [.compared k a]) hash buckets (Probe.home hash buckets.size) (j + 1))
      (.error f) (.error f) := by
  have hhome : Probe.home hash buckets.size < buckets.size := Probe.home_lt hpos
  have hn : buckets.size - j - 1 + 1 + j = buckets.size := by omega
  have hend := bothEnd_of_walk hpos
    (plainWalk_of_step_error hhome hj hgets hx hpassed hstep)
  rw [transcript_of_gets hhome hgets hn, transcript_of_passed hx hpassed, hstep,
    List.append_nil] at hend
  rw [passing_snoc hgets.1]
  exact hend

/-- A lookup and an insertion that search for the same key make the same calls of the same
callbacks, and end as the path of the hash says. -/
theorem searches_agree (s : Strategy K) (k : K) (hash : UInt64) (buckets : Array (Bucket K V))
    (hpos : 0 < buckets.size) :
    (∃ events found slot, Ending s k hash buckets events found slot) ∧
    ∀ events found slot, Ending s k hash buckets events found slot →
      BothEnd s k hash buckets events found slot := by
  refine ⟨exists_ending s k hash hpos, fun events found slot hending => ?_⟩
  have hhome : Probe.home hash buckets.size < buckets.size := Probe.home_lt hpos
  cases hending with
  | @hit j x e hj hgets hx hfit =>
    have hn : buckets.size - j - 1 + 1 + j = buckets.size := by omega
    have hend := bothEnd_of_walk hpos (plainWalk_of_fits hhome hj hgets hx hfit)
    rw [transcript_of_gets hhome hgets hn, transcript_of_fits hx hfit] at hend
    exact hend
  | @gap j x hj hgets hx =>
    have hn : buckets.size - j - 1 + 1 + j = buckets.size := by omega
    have hend := bothEnd_of_walk hpos (plainWalk_of_empty hhome hj hgets hx)
    rw [transcript_of_gets hhome hgets hn, transcript_of_empty hx, List.append_nil,
      Option.none_or] at hend
    rw [← slot_gap (c := buckets.size)]
    exact hend
  | @lap x hgets =>
    have hend := bothEnd_of_walk hpos (plainWalk_of_lap hhome hgets)
    rw [transcript_of_gets hhome hgets (Nat.zero_add _), Option.none_or] at hend
    rw [← slot_lap, ← List.append_nil (passing s _ hash buckets _ _)]
    exact hend
  | stray hj hgets hx hpassed hnext hout =>
    refine bothEnd_of_step_error hpos hj hgets hx hpassed ?_
    exact plainStep_eq_error_iff.mpr (Or.inr ⟨_, hnext, hout, rfl⟩)
  | stop hj hgets hx hpassed hstop =>
    refine bothEnd_of_step_error hpos hj hgets hx hpassed ?_
    exact plainStep_eq_error_iff.mpr (Or.inl hstop)

/-- The probe function does not turn around at the end of the table. A search for 9 passes
the key 5 and a tombstone; one for 13 also passes the key 9 and then leaves the table. -/
theorem searches_agree_unwrapped :
    let s : Strategy Nat :=
      { hash := fun _ => 1, equals := fun a b => a == b, probe? := some Probe.unwrapped }
    let buckets : Array (Bucket Nat Nat) :=
      #[.empty, .full ⟨1, 5, 50⟩, .tombstone, .full ⟨1, 9, 90⟩]
    0 < buckets.size ∧
      BothEnd s 9 1 buckets [.compared 9 5, .probed 1 4, .probed 2 4, .compared 9 9]
        (.ok (some 3)) (.ok (.occupied 3)) ∧
      BothEnd s 13 1 buckets
        [.compared 13 5, .probed 1 4, .probed 2 4, .compared 13 9, .probed 3 4]
        (.error (.probeOutOfRange 4 4)) (.error (.probeOutOfRange 4 4)) := by
  intro s buckets
  have hpos : 0 < buckets.size := by decide
  -- both keys get past the first two buckets
  have hgets : ∀ k, k ≠ 5 → Gets s.probe (s.equals k) 1 buckets 1 2 3 := by
    intro k hk
    have hfirst : Passed (s.equals k) 1 (.full ⟨1, 5, 50⟩ : Bucket Nat Nat) :=
      passed_full fun hfit => hk (beq_iff_eq.mp hfit.2)
    exact (gets_zero.cons rfl passed_tombstone rfl).cons rfl hfirst rfl
  have hthird : Passed (s.equals 13) 1 (.full ⟨1, 9, 90⟩ : Bucket Nat Nat) :=
    passed_full fun hfit => absurd hfit.2 (by decide)
  refine ⟨hpos, ?_, ?_⟩
  · exact (searches_agree s 9 1 buckets hpos).2 _ _ _
      (.hit (j := 2) (by decide) (hgets 9 (by decide)) rfl ⟨rfl, rfl⟩)
  · exact (searches_agree s 13 1 buckets hpos).2 _ _ _
      (.stray (j := 2) (by decide) (hgets 13 (by decide)) rfl hthird rfl (by decide))

end

end Seek

end OpenAddressing
