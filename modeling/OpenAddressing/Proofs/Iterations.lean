import OpenAddressing.Proofs.Indexed
import OpenAddressing.Proofs.Walks

/-!
# Iteration call by call

A walk has two ideas of where it stands: the bucket to look at next, and the number of
entries still to come. It *faces* a list of entries if the two agree on it: these entries are
in the buckets from there on, and as many are still to come. One call of `next` takes the
first of them, and the walk faces the others (`Faces.next_cons`); a walk that faces nothing
stays as it is (`Faces.next_nil`). So what any number of calls answer, and what a copy of the
walk made after them still visits, is read off the list that the walk faced at the start.

If the counters are exact, then a walk over the whole table faces all of its entries
(`faces_start`).
-/

namespace OpenAddressing

namespace Table

variable {K V : Type} {t t' : Table K V} {i j : Nat}

/-- The entries from a bucket on, with their indexes. -/
def indexedFrom (t : Table K V) (i : Nat) : List (Nat × Entry K V) :=
  (List.range' i (t.capacity - i)).filterMap fun j => (t.entryAt? j).map (j, ·)

theorem indexedFrom_of_le (h : t.capacity ≤ i) : t.indexedFrom i = [] := by
  unfold indexedFrom
  rw [Nat.sub_eq_zero_of_le h]
  rfl

theorem indexedFrom_of_lt (h : i < t.capacity) :
    t.indexedFrom i = ((t.entryAt? i).map (i, ·)).toList ++ t.indexedFrom (i + 1) := by
  unfold indexedFrom
  rw [show t.capacity - i = t.capacity - (i + 1) + 1 by omega, List.range'_succ,
    List.filterMap_cons]
  cases t.entryAt? i <;> rfl

theorem le_of_mem_indexedFrom {x : Nat × Entry K V} (hx : x ∈ t.indexedFrom i) : i ≤ x.1 := by
  obtain ⟨j, hj, he⟩ := List.mem_filterMap.mp hx
  obtain ⟨_, _, rfl⟩ := Option.map_eq_some_iff.mp he
  exact (List.mem_range'_1.mp hj).1

/-- What is ahead depends on the buckets ahead. -/
theorem indexedFrom_congr (hcap : t'.capacity = t.capacity)
    (h : ∀ x, i ≤ x → t'.entryAt? x = t.entryAt? x) : t'.indexedFrom i = t.indexedFrom i := by
  unfold indexedFrom
  rw [hcap]
  refine List.filterMap_congr fun x hx => ?_
  rw [h x (List.mem_range'_1.mp hx).1]

/-- Buckets without an entry are passed. -/
theorem indexedFrom_skip (hij : i ≤ j) (hfree : ∀ x, i ≤ x → x < j → t.entryAt? x = none) :
    t.indexedFrom i = t.indexedFrom j := by
  obtain ⟨d, rfl⟩ := Nat.exists_eq_add_of_le hij
  induction d generalizing i with
  | zero => rfl
  | succ d ih =>
    rcases Nat.lt_or_ge i t.capacity with hlt | hge
    · rw [indexedFrom_of_lt hlt, hfree i (Nat.le_refl i) (by omega)]
      have htail := ih (i := i + 1) (Nat.le_add_right _ _) fun x hx hx' =>
        hfree x (by omega) (by omega)
      rw [show i + (d + 1) = i + 1 + d by omega]
      exact htail
    · rw [indexedFrom_of_le hge, indexedFrom_of_le (by omega)]

/-- A scan finds the first entry ahead. -/
theorem nextEntry?_indexed (t : Table K V) (i : Nat) :
    (t.nextEntry? i = none ∧ t.indexedFrom i = []) ∨
      ∃ j e, t.nextEntry? i = some (j, e) ∧ t.entryAt? j = some e ∧
        t.indexedFrom i = (j, e) :: t.indexedFrom (j + 1) := by
  rcases t.nextEntry?_first i with ⟨hnone, hfree⟩ | ⟨j, e, hsome, hij, he, hfree⟩
  · refine Or.inl ⟨hnone, ?_⟩
    rw [indexedFrom_skip (Nat.le_add_right i t.capacity) fun x hx _ => hfree x hx]
    exact indexedFrom_of_le (Nat.le_add_left _ _)
  · refine Or.inr ⟨j, e, hsome, he, ?_⟩
    rw [indexedFrom_skip hij hfree, indexedFrom_of_lt (lt_capacity_of_entryAt? he), he]
    rfl

end Table

namespace Walk

variable {K V : Type} {t : Table K V} {w : Walk} {x : Nat × Entry K V}
  {xs : List (Nat × Entry K V)}

/-- What a walk answers for an entry. -/
def item (x : Nat × Entry K V) : Nat × K × V := (x.1, x.2.pair)

/-- The answers to `n` calls of `next`, and the walk after them. -/
def calls (t : Table K V) :
    (n : Nat) → Walk → Except Fault (List (Option (Nat × K × V)) × Walk)
  | 0, w => .ok ([], w)
  | n + 1, w => do
      let (item?, w') ← next t w
      let (items, w'') ← calls t n w'
      return (item? :: items, w'')

/-- The entries are those in the buckets ahead of the walk, and as many are still to come. -/
structure Faces (t : Table K V) (w : Walk) (xs : List (Nat × Entry K V)) : Prop where
  ahead : t.indexedFrom w.position = xs
  remaining : w.remaining = xs.length

/-- A walk that faces nothing has come to its end, and stays there. -/
theorem Faces.next_nil (h : w.Faces t []) : next t w = .ok (none, w) := if_pos h.remaining

/-- A walk takes what it faces one by one, and its count does not run out before. -/
theorem Faces.next_cons (h : w.Faces t (x :: xs)) :
    ∃ w', next t w = .ok (some (item x), w') ∧ w'.Faces t xs ∧ t.entryAt? x.1 = some x.2 ∧
      w'.position = x.1 + 1 := by
  have hremaining : w.remaining = xs.length + 1 := h.remaining
  unfold next
  rw [if_neg (by omega)]
  rcases t.nextEntry?_indexed w.position with ⟨_, hnil⟩ | ⟨j, e, hsome, he, hcons⟩
  · rw [h.ahead] at hnil
    exact absurd hnil (List.cons_ne_nil x xs)
  · rw [h.ahead] at hcons
    obtain ⟨rfl, hxs⟩ := List.cons.inj hcons
    rw [hsome]
    dsimp only
    rw [Word.sub_of_le (by omega)]
    refine ⟨⟨j + 1, w.remaining - 1⟩, rfl, ⟨hxs.symm, ?_⟩, he, rfl⟩
    show w.remaining - 1 = xs.length
    omega

/-- Any number of calls: first the entries in order, and then nothing for ever. -/
theorem Faces.calls (h : w.Faces t xs) (n : Nat) :
    ∃ w', calls t n w = .ok
        ((xs.take n).map (fun x => some (item x)) ++ List.replicate (n - xs.length) none, w') ∧
      w'.Faces t (xs.drop n) := by
  induction n generalizing w xs with
  | zero => exact ⟨w, by rw [Nat.zero_sub]; rfl, h⟩
  | succ n ih =>
    cases xs with
    | nil =>
      obtain ⟨w', hanswers, hfaces⟩ := ih h
      rw [List.take_nil] at hanswers
      rw [List.drop_nil] at hfaces
      refine ⟨w', ?_, hfaces⟩
      rw [Walk.calls, h.next_nil]
      show (Walk.calls t n w >>= _) = _
      rw [hanswers, List.take_nil]
      rfl
    | cons x xs =>
      obtain ⟨w₁, hnext, hfaces₁, _⟩ := h.next_cons
      obtain ⟨w', hanswers, hfaces⟩ := ih hfaces₁
      refine ⟨w', ?_, hfaces⟩
      rw [Walk.calls, hnext]
      show (Walk.calls t n w₁ >>= _) = _
      rw [hanswers, List.length_cons, Nat.add_sub_add_right]
      rfl

/-- A stretch of at most `n` entries. -/
theorem Faces.visit (h : w.Faces t xs) (n : Nat) :
    ∃ left, visit t n w = .ok {
        items := (xs.take n).map item
        lengths := (List.range (min n xs.length + 1)).map (xs.length - ·)
        ended := decide (xs.length < n)
        left } ∧ left.Faces t (xs.drop n) := by
  induction n generalizing w xs with
  | zero =>
    refine ⟨w, ?_, h⟩
    rw [Nat.zero_min, Walk.visit, h.remaining]
    rfl
  | succ n ih =>
    cases xs with
    | nil =>
      refine ⟨w, ?_, h⟩
      rw [Walk.visit, h.next_nil, List.length_nil, Nat.min_zero]
      show Except.ok (Stretch.mk [] [w.remaining] true w) = _
      rw [h.remaining]
      rfl
    | cons x xs =>
      obtain ⟨w', hnext, hfaces', _⟩ := h.next_cons
      obtain ⟨left, hvisit, hfaces⟩ := ih hfaces'
      have hlengths : w.remaining :: (List.range (min n xs.length + 1)).map (xs.length - ·) =
          (List.range (min (n + 1) (x :: xs).length + 1)).map ((x :: xs).length - ·) := by
        have hrange : List.range (min (n + 1) (xs.length + 1) + 1) =
            0 :: (List.range (min n xs.length + 1)).map Nat.succ := by
          rw [Nat.succ_min_succ]
          exact List.range_succ_eq_map
        rw [h.remaining, List.length_cons, hrange, List.map_cons, List.map_map]
        refine congrArg (List.cons _) (List.map_congr_left fun m _ => ?_)
        show xs.length - m = xs.length + 1 - (m + 1)
        omega
      refine ⟨left, ?_, hfaces⟩
      rw [Walk.visit, hnext]
      show (Walk.visit t n w' >>= _) = _
      rw [hvisit, ← hlengths, List.length_cons]
      show Except.ok (Stretch.mk _ _ (decide (xs.length < n)) left) = _
      simp only [Nat.add_lt_add_iff_right]
      rfl

/-- What a copy of the walk visits. -/
theorem Faces.collect (h : w.Faces t xs) : w.collect t = .ok (xs.map fun x => x.2.pair) := by
  obtain ⟨left, hvisit, _⟩ := h.visit (w.remaining + 1)
  unfold Walk.collect visitAll
  rw [hvisit, List.take_of_length_le (by rw [h.remaining]; exact Nat.le_succ _)]
  show Except.ok ((xs.map item).map Prod.snd) = _
  rw [List.map_map]
  rfl

end Walk

end OpenAddressing
