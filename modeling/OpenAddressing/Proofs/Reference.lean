import OpenAddressing.Session.Basic
import OpenAddressing.Proofs.Changes

/-!
# The map as a list of pairs

What a map is to its user: a list with one pair for each class of equal keys, in no
particular order. `Reference.step` answers the calls that see no more of a map than this.
It knows nothing of buckets, hashes, probe functions and capacities, and so it has no
faults either; the other requests have no answer here.

If keys are distinct, at most one pair matches a key. The lemmas come in two forms for
the two cases: the list is a pair that matches and a rest (`..._of_perm_cons`), or no pair
matches (`..._of_forall`).
-/

namespace OpenAddressing.Reference

variable {K V : Type} {s : Strategy K} {k : K} {v : V} {f : V → V} {m m' rest : List (K × V)}
  {p : K × V}

/-- The pair is stored under a key that equals `k`. -/
def hasKey (s : Strategy K) (k : K) (p : K × V) : Bool := s.equals k p.1

/-- The pair of a key, with the key as it is stored. -/
def find? (s : Strategy K) (k : K) (m : List (K × V)) : Option (K × V) := m.find? (hasKey s k)

/-- The pairs of all other keys. -/
def erase (s : Strategy K) (k : K) (m : List (K × V)) : List (K × V) :=
  m.filter fun p => !hasKey s k p

/-- A new pair takes the place of the pair of an equal key, key and value. -/
def insert (s : Strategy K) (k : K) (v : V) (m : List (K × V)) : List (K × V) :=
  (k, v) :: erase s k m

/-- Pair after pair is inserted. -/
def insertAll (s : Strategy K) (items m : List (K × V)) : List (K × V) :=
  items.foldl (fun m p => insert s p.1 p.2 m) m

/-- The value of a key changes, and the stored key stays. -/
def update (s : Strategy K) (k : K) (f : V → V) (m : List (K × V)) : List (K × V) :=
  m.map fun p => if hasKey s k p then (p.1, f p.2) else p

/-- The answer to a lookup. -/
def answer (s : Strategy K) (m : List (K × V)) : Lookup K → Answer K V
  | .get k => .value ((find? s k m).map Prod.snd)
  | .getEntry k => .entry (find? s k m)
  | .contains k => .flag (find? s k m).isSome

/-- The reply to a request and the pairs after it, if pairs are all that it depends on. -/
def step (s : Strategy K) : Request K V → List (K × V) → Option (Reply K V × List (K × V))
  | .lookup l, m => some (.answer (answer s m l), m)
  | .update k f, m => some (.value ((find? s k m).map fun p => f p.2), update s k f m)
  | .insert k v, m => some (.done, insert s k v m)
  | .insertAll items, m => some (.done, insertAll s items m)
  | .erase k, m => some (.flag (find? s k m).isSome, erase s k m)
  | .take k, m => some (.pair (find? s k m), erase s k m)
  | .rehash _, m => some (.done, m)
  | .reserve _, m => some (.done, m)
  | .clear, _ => some (.done, [])
  | _, _ => none

/-- The replies to a list of requests and the pairs after it. -/
def run (s : Strategy K) : List (Request K V) → List (K × V) →
    Option (List (Reply K V) × List (K × V))
  | [], m => some ([], m)
  | r :: rs, m => do
      let (reply, m') ← step s r m
      let (replies, m'') ← run s rs m'
      return (reply :: replies, m'')

/-- No two pairs have equal keys. -/
def Distinct (s : Strategy K) (m : List (K × V)) : Prop :=
  m.Pairwise fun p q => s.equals p.1 q.1 = false

theorem Distinct.perm (hs : s.Lawful) (hm : Distinct s m) (h : m.Perm m') : Distinct s m' :=
  (h.pairwise_iff fun hpq => Table.equals_false_symm hs hpq).mp hm

/-! ## No pair matches -/

theorem find?_of_forall (h : ∀ p ∈ m, s.equals k p.1 = false) : find? s k m = none := by
  unfold find?
  rw [List.find?_eq_none]
  intro p hp
  show ¬ s.equals k p.1 = true
  rw [h p hp]
  exact Bool.false_ne_true

theorem erase_of_forall (h : ∀ p ∈ m, s.equals k p.1 = false) : erase s k m = m := by
  unfold erase
  rw [List.filter_eq_self]
  intro p hp
  show (!s.equals k p.1) = true
  rw [h p hp]
  rfl

theorem update_of_forall (h : ∀ p ∈ m, s.equals k p.1 = false) : update s k f m = m := by
  unfold update
  rw [List.map_congr_left (g := id) fun p hp => ?_, List.map_id]
  have hkey : hasKey s k p = false := h p hp
  rw [hkey]
  rfl

/-! ## One pair matches -/

/-- Beside a pair that matches there is no other. -/
theorem forall_of_distinct_cons (hs : s.Lawful) (hm : Distinct s (p :: rest))
    (hp : s.equals k p.1 = true) : ∀ q ∈ rest, s.equals k q.1 = false := by
  intro q hq
  have hpq : s.equals p.1 q.1 = false := (List.pairwise_cons.mp hm).1 q hq
  cases hkq : s.equals k q.1 with
  | false => rfl
  | true =>
    rw [hs.equiv.trans (hs.equiv.symm hp) hkq] at hpq
    exact absurd hpq (by simp)

theorem find?_of_perm_cons (hs : s.Lawful) (hm : Distinct s m) (h : m.Perm (p :: rest))
    (hp : s.equals k p.1 = true) : find? s k m = some p := by
  have hdistinct : Distinct s (p :: rest) := hm.perm hs h
  obtain ⟨q, hq⟩ : ∃ q, find? s k m = some q := by
    refine Option.isSome_iff_exists.mp ?_
    unfold find?
    rw [List.find?_isSome]
    exact ⟨p, h.mem_iff.mpr List.mem_cons_self, hp⟩
  have hqkey : hasKey s k q = true := List.find?_some hq
  rcases List.mem_cons.mp (h.mem_iff.mp (List.mem_of_find?_eq_some hq)) with rfl | hrest
  · exact hq
  · have hne : hasKey s k q = false := forall_of_distinct_cons hs hdistinct hp q hrest
    rw [hne] at hqkey
    exact absurd hqkey (by simp)

theorem erase_of_perm_cons (hs : s.Lawful) (hm : Distinct s m) (h : m.Perm (p :: rest))
    (hp : s.equals k p.1 = true) : (erase s k m).Perm rest := by
  have hdistinct : Distinct s (p :: rest) := hm.perm hs h
  have hkey : hasKey s k p = true := hp
  have hcons : erase s k (p :: rest) = rest := by
    have hrest : erase s k rest = rest := erase_of_forall (forall_of_distinct_cons hs hdistinct hp)
    unfold erase at hrest ⊢
    rw [List.filter_cons, hkey, hrest]
    rfl
  rw [← hcons]
  exact h.filter _

theorem update_of_perm_cons (hs : s.Lawful) (hm : Distinct s m) (h : m.Perm (p :: rest))
    (hp : s.equals k p.1 = true) : (update s k f m).Perm ((p.1, f p.2) :: rest) := by
  have hdistinct : Distinct s (p :: rest) := hm.perm hs h
  have hkey : hasKey s k p = true := hp
  have hcons : update s k f (p :: rest) = (p.1, f p.2) :: rest := by
    have hrest : update s k f rest = rest :=
      update_of_forall (forall_of_distinct_cons hs hdistinct hp)
    unfold update at hrest ⊢
    rw [List.map_cons, hrest, hkey]
    rfl
  rw [← hcons]
  exact h.map _

end OpenAddressing.Reference
