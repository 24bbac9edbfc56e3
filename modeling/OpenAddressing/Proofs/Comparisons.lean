import OpenAddressing.Proofs.Indexed
import OpenAddressing.Proofs.Landings
import Mathlib.Data.Finset.Card

/-!
# Which keys a search compares

A search shows a stored key to the equality only if the hash stored with it is the one that
is searched for, and it goes on to another one only if the key was not accepted.
`Seek.shown` is the list of the entries that are shown, and `Seek.Shown` what is known of
it: it follows the path of the search. So on a path that comes to no bucket twice no entry
is shown twice, and then there are no more comparisons than entries with the hash
(`Compares.length_le`).
-/

namespace OpenAddressing

/-- The call asks about a key: for its hash, or whether it is equal to another one. -/
def Event.isQuestion {K V : Type} : Event K V → Bool
  | .hashed _ | .compared _ _ => true
  | _ => false

/-- The questions about keys, the last one first. -/
def Journal.questions {K V : Type} (j : Journal K V) : List (Event K V) :=
  j.filter Event.isQuestion

namespace Probe

variable {p : Probe} {c i n : Nat}

/-- A path comes to no bucket twice within a lap. -/
def OncePerLap (p : Probe) (c : Nat) : Prop := ∀ i < c, (p.visited c i c).Nodup

/-- A path begins where it starts, and then goes on as long as there are next buckets. -/
theorem visited_succ :
    p.visited c i (n + 1) =
      i :: (List.range n).filterMap fun j => (p.next? c i).bind fun i' => p.nth? c i' j := by
  unfold visited
  rw [List.range_succ_eq_map, List.filterMap_cons, List.filterMap_map]
  show i :: (List.range n).filterMap (fun j => p.nth? c i (j + 1)) = _
  simp only [nth?_succ]

/-- A lap that visits every bucket has no visit to spare. -/
theorem Covers.oncePerLap (h : p.Covers c) : p.OncePerLap c := by
  intro i hi
  have hlength : (p.visited c i c).length ≤ c := by
    unfold visited
    exact (List.length_filterMap_le _ _).trans (Nat.le_of_eq List.length_range)
  have hall : Finset.range c ⊆ (p.visited c i c).toFinset := by
    intro x hx
    obtain ⟨j, hj, hx⟩ := h.visits i hi x (Finset.mem_range.mp hx)
    exact List.mem_toFinset.mpr (List.mem_filterMap.mpr ⟨j, List.mem_range.mpr hj, hx⟩)
  have hcard := Finset.card_le_card hall
  rw [Finset.card_range] at hcard
  have hle := List.toFinset_card_le (p.visited c i c)
  exact Multiset.toFinset_card_eq_card_iff_nodup.mp
    (show (p.visited c i c).toFinset.card = (p.visited c i c).length by omega)

theorem linear_oncePerLap (hc : c < Word.limit) : linear.OncePerLap c :=
  (linear_covers hc).oncePerLap

end Probe

namespace Seek

variable {K V : Type} {s : Strategy K} {p : Probe} {accepts : K → Bool} {hash : UInt64}
  {buckets : Array (Bucket K V)} {n i : Nat} {e : Entry K V} {path : List Nat}
  {xs : List (Nat × Entry K V)}

/-- The entries, with their buckets, whose keys are shown on a walk over `n` more buckets
from bucket `i` on. -/
def shown (p : Probe) (accepts : K → Bool) (hash : UInt64) (buckets : Array (Bucket K V)) :
    (n i : Nat) → List (Nat × Entry K V)
  | 0, _ => []
  | n + 1, i =>
      let onwards :=
        match plainStep p i buckets.size with
        | .ok next => shown p accepts hash buckets n next
        | .error _ => []
      match buckets[i]? with
      | none => []
      | some .empty => []
      | some .tombstone => onwards
      | some (.full e) =>
          if e.hash = hash then (i, e) :: if accepts e.key then [] else onwards else onwards

/-- The comparison of a key with that of an entry. -/
def comparison (k : K) (x : Nat × Entry K V) : Event K V := .compared k x.2.key

/-- The entries `xs` are shown along the path: each is in its bucket and has the hash, and
only those that are not accepted have others after them. -/
structure Shown (accepts : K → Bool) (hash : UInt64) (buckets : Array (Bucket K V))
    (path : List Nat) (xs : List (Nat × Entry K V)) : Prop where
  stored : ∀ x ∈ xs, buckets[x.1]? = some (.full x.2) ∧ x.2.hash = hash
  rejected : xs.Pairwise fun x _ => accepts x.2.key = false
  sublist : (xs.map Prod.fst).Sublist path

theorem Shown.nil : Shown accepts hash buckets path [] :=
  ⟨fun _ h => absurd h List.not_mem_nil, .nil, List.nil_sublist path⟩

theorem Shown.skip (h : Shown accepts hash buckets path xs) :
    Shown accepts hash buckets (i :: path) xs :=
  ⟨h.stored, h.rejected, h.sublist.cons i⟩

/-- One more entry is shown before the others, if there are any it is not accepted. -/
theorem Shown.cons (hi : buckets[i]? = some (.full e)) (he : e.hash = hash)
    (hrejected : xs ≠ [] → accepts e.key = false) (h : Shown accepts hash buckets path xs) :
    Shown accepts hash buckets (i :: path) ((i, e) :: xs) where
  stored := List.forall_mem_cons.mpr ⟨⟨hi, he⟩, h.stored⟩
  rejected := List.pairwise_cons.mpr
    ⟨fun _ hx => hrejected (List.ne_nil_of_mem hx), h.rejected⟩
  sublist := h.sublist.cons_cons i

theorem shown_shown :
    Shown accepts hash buckets (p.visited buckets.size i n)
      (shown p accepts hash buckets n i) := by
  induction n generalizing i with
  | zero => exact .nil
  | succ n ih =>
    have honwards : Shown accepts hash buckets
        ((List.range n).filterMap fun j =>
          (p.next? buckets.size i).bind fun i' => p.nth? buckets.size i' j)
        (match plainStep p i buckets.size with
          | .ok next => shown p accepts hash buckets n next
          | .error _ => []) := by
      cases hstep : plainStep p i buckets.size with
      | error f => exact .nil
      | ok next =>
        rw [plainStep_eq_ok_iff.mp hstep]
        exact ih
    rw [shown, Probe.visited_succ]
    cases hb : buckets[i]? with
    | none => exact .nil
    | some b =>
      cases b with
      | empty => exact .nil
      | tombstone => exact honwards.skip
      | full e =>
        dsimp only
        by_cases he : e.hash = hash
        · rw [if_pos he]
          cases haccepts : accepts e.key with
          | true => exact .cons hb he (fun hne => absurd rfl hne) .nil
          | false => exact .cons hb he (fun _ => haccepts) honwards
        · rw [if_neg he]
          exact honwards.skip

/-- The comparisons of a search are those with the entries that are shown. -/
theorem questions_transcript {k : K} :
    (transcript s (fun a => [.compared k a]) accepts hash buckets n i).filter Event.isQuestion =
      (shown s.probe accepts hash buckets n i).map (comparison k) := by
  induction n generalizing i with
  | zero => rfl
  | succ n ih =>
    have honwards : (s.goes i buckets.size ++
        match plainStep s.probe i buckets.size with
        | .ok next => transcript s (fun a => [.compared k a]) accepts hash buckets n next
        | .error _ => []).filter Event.isQuestion =
        (match plainStep s.probe i buckets.size with
        | .ok next => shown s.probe accepts hash buckets n next
        | .error _ => []).map (comparison k) := by
      have hgoes : (s.goes i buckets.size : List (Event K V)).filter Event.isQuestion = [] := by
        unfold Strategy.goes
        cases s.probe? <;> rfl
      rw [List.filter_append, hgoes, List.nil_append]
      cases plainStep s.probe i buckets.size with
      | error f => rfl
      | ok next => exact ih
    rw [transcript, shown]
    cases buckets[i]? with
    | none => rfl
    | some b =>
      cases b with
      | empty => rfl
      | tombstone => exact honwards
      | full e =>
        dsimp only
        by_cases he : e.hash = hash
        · rw [if_pos he, if_pos he]
          cases haccepts : accepts e.key with
          | true =>
            have hfit : Fits accepts hash e := ⟨he, haccepts⟩
            rw [if_pos hfit]
            rfl
          | false =>
            have hfit : ¬ Fits accepts hash e := fun h => absurd h.2 (by simp [haccepts])
            rw [if_neg hfit, List.filter_append]
            exact congrArg (Event.compared k e.key :: ·) honwards
        · have hfit : ¬ Fits accepts hash e := fun h => he h.1
          rw [if_neg he, if_neg he, if_neg hfit]
          exact honwards

end Seek

namespace Table

variable {K V : Type} {s : Strategy K} {k : K} {t : Table K V} {xs : List (Nat × Entry K V)}

/-- A search for `k` in the table compares it with the keys of the entries `xs`, in this
order. -/
structure Compares (s : Strategy K) (k : K) (t : Table K V) (xs : List (Nat × Entry K V)) :
    Prop where
  /-- Each entry is in its bucket, and was stored with the hash of `k`. -/
  stored : ∀ x ∈ xs, t.entryAt? x.1 = some x.2 ∧ x.2.hash = s.hash k
  /-- The search goes on only after a comparison without success. -/
  rejected : xs.Pairwise fun x _ => s.equals k x.2.key = false
  /-- No bucket is compared twice if none is visited twice. -/
  once : s.probe.OncePerLap t.capacity → (xs.map Prod.fst).Nodup

/-- The questions that a search for `k` asks if it compares it with these entries. -/
def questions (k : K) (xs : List (Nat × Entry K V)) : List (Event K V) :=
  .hashed k :: xs.map (Seek.comparison k)

/-- The questions of a search. -/
theorem questions_transcript (hpos : t.capacity ≠ 0) :
    ∃ xs, (t.transcript s k).filter Event.isQuestion = questions k xs ∧ t.Compares s k xs := by
  let home := Probe.home (s.hash k) t.capacity
  have hshown : Seek.Shown (s.equals k) (s.hash k) t.buckets
      (s.probe.visited t.capacity home t.capacity)
      (Seek.shown s.probe (s.equals k) (s.hash k) t.buckets t.capacity home) := Seek.shown_shown
  refine ⟨Seek.shown s.probe (s.equals k) (s.hash k) t.buckets t.capacity home, ?_, ?_⟩
  · unfold transcript
    rw [if_neg hpos]
    exact congrArg (Event.hashed k :: ·) Seek.questions_transcript
  · refine ⟨fun x hx => ?_, hshown.rejected, fun honce => ?_⟩
    · obtain ⟨hbucket, hhash⟩ := hshown.stored x hx
      exact ⟨entryAt?_eq_some_iff.mpr hbucket, hhash⟩
    · exact (honce home (Probe.home_lt (by omega))).sublist hshown.sublist

/-- Probing linearly comes to no bucket twice within a lap of a table. -/
theorem Bounded.oncePerLap (h : t.Bounded)
    (hprobe : s.probe = Probe.linear ∨ s.probe.OncePerLap t.capacity) :
    s.probe.OncePerLap t.capacity := by
  rcases hprobe with hlinear | honce
  · have hcap := h.capacity_lt
    have hlimit := limit_eq
    rw [hlinear]
    exact Probe.linear_oncePerLap (by omega)
  · exact honce

/-- No search compares more often than there are entries with the hash. -/
theorem Compares.length_le (h : t.Compares s k xs) (honce : s.probe.OncePerLap t.capacity) :
    xs.length ≤ t.entries.countP fun e => e.hash = s.hash k := by
  have hnodup : xs.Nodup := (h.once honce).of_map Prod.fst
  have hsub : xs ⊆ t.indexedEntries.filter fun x => x.2.hash = s.hash k := by
    intro x hx
    obtain ⟨hentry, hhash⟩ := h.stored x hx
    exact List.mem_filter.mpr ⟨mem_indexedEntries_iff.mpr hentry, decide_eq_true hhash⟩
  calc xs.length
      ≤ (t.indexedEntries.filter fun x => x.2.hash = s.hash k).length :=
        (List.subperm_of_subset hnodup hsub).length_le
    _ = t.entries.countP fun e => e.hash = s.hash k := by
        rw [← List.countP_eq_length_filter, ← map_snd_indexedEntries, List.countP_map]
        rfl

end Table

end OpenAddressing
