import OpenAddressing.Walk
import OpenAddressing.Proofs.Changes

/-!
# What walks visit

A walk reads the array from its position on, and `entriesFrom` is what is there to
read. Both ends of a walk are in the statement of what it visits: the array's, because
it takes from `entriesFrom`, and its own count's, because it takes no more than that.
If the counters are exact the two ends are the same, and a walk over the whole table
visits `entries`.
-/

namespace OpenAddressing

namespace Table

variable {K V : Type} {t : Table K V} {i : Nat} {b : Bucket K V}

/-- The entries from a bucket on. -/
def entriesFrom (t : Table K V) (i : Nat) : List (Entry K V) :=
  (t.buckets.toList.drop i).filterMap Bucket.entry?

theorem entriesFrom_zero : t.entriesFrom 0 = t.entries := rfl

theorem entriesFrom_of_le (h : t.capacity ≤ i) : t.entriesFrom i = [] := by
  unfold entriesFrom
  rw [List.drop_eq_nil_of_le (by rw [Array.length_toList]; exact h)]
  rfl

theorem entriesFrom_of_getElem? (h : t.buckets[i]? = some b) :
    t.entriesFrom i = b.entry?.toList ++ t.entriesFrom (i + 1) := by
  obtain ⟨hi, hb⟩ := Array.getElem?_eq_some_iff.mp h
  unfold entriesFrom
  rw [List.drop_eq_getElem_cons (by simpa using hi), Array.getElem_toList, hb]
  cases b <;> rfl

/-- A scan stops at the first entry that is left, and only there. -/
theorem scan_cases {n : Nat} (hn : t.capacity = i + n) :
    (scan t.buckets n i = none ∧ t.entriesFrom i = []) ∨
      ∃ j e, scan t.buckets n i = some (j, e) ∧ t.entryAt? j = some e ∧
        t.entriesFrom i = e :: t.entriesFrom (j + 1) := by
  induction n generalizing i with
  | zero => exact Or.inl ⟨rfl, entriesFrom_of_le (by omega)⟩
  | succ n ih =>
    obtain ⟨b, hb⟩ := exists_bucket (t := t) (i := i) (by omega)
    have hhead := entriesFrom_of_getElem? hb
    rw [scan, hb, Option.bind_some]
    cases he : b.entry? with
    | some e =>
      refine Or.inr ⟨i, e, rfl, (entryAt?_of_getElem? hb).trans he, ?_⟩
      rw [hhead, he]
      rfl
    | none =>
      rw [he] at hhead
      replace hhead : t.entriesFrom i = t.entriesFrom (i + 1) := hhead
      rw [hhead]
      exact ih (by omega)

theorem nextEntry?_cases (t : Table K V) (i : Nat) :
    (t.nextEntry? i = none ∧ t.entriesFrom i = []) ∨
      ∃ j e, t.nextEntry? i = some (j, e) ∧ t.entryAt? j = some e ∧
        t.entriesFrom i = e :: t.entriesFrom (j + 1) := by
  unfold nextEntry?
  rcases Nat.le_total t.capacity i with hle | hle
  · rw [Nat.sub_eq_zero_of_le hle]
    exact Or.inl ⟨rfl, entriesFrom_of_le hle⟩
  · exact scan_cases (by omega)

/-- A scan finds the first entry in its range, or there is none in it. -/
theorem scan_first {n : Nat} :
    (scan t.buckets n i = none ∧ ∀ x, i ≤ x → x < i + n → t.entryAt? x = none) ∨
      ∃ j e, scan t.buckets n i = some (j, e) ∧ i ≤ j ∧ t.entryAt? j = some e ∧
        ∀ x, i ≤ x → x < j → t.entryAt? x = none := by
  induction n generalizing i with
  | zero => exact Or.inl ⟨rfl, fun x h h' => by omega⟩
  | succ n ih =>
    rw [scan]
    cases he : t.buckets[i]?.bind Bucket.entry? with
    | some e => exact Or.inr ⟨i, e, rfl, Nat.le_refl i, he, fun x h h' => by omega⟩
    | none =>
      -- the buckets passed so far are the one here and those of the rest of the scan
      have hskip : ∀ x, i ≤ x → x = i ∨ i + 1 ≤ x := fun x h => by omega
      rcases ih (i := i + 1) with ⟨hscan, hfree⟩ | ⟨j, e, hscan, hij, hj, hfree⟩
      · refine Or.inl ⟨hscan, fun x h h' => ?_⟩
        rcases hskip x h with rfl | hx
        · exact he
        · exact hfree x hx (by omega)
      · refine Or.inr ⟨j, e, hscan, by omega, hj, fun x h h' => ?_⟩
        rcases hskip x h with rfl | hx
        · exact he
        · exact hfree x hx h'

theorem nextEntry?_first (t : Table K V) (i : Nat) :
    (t.nextEntry? i = none ∧ ∀ x, i ≤ x → t.entryAt? x = none) ∨
      ∃ j e, t.nextEntry? i = some (j, e) ∧ i ≤ j ∧ t.entryAt? j = some e ∧
        ∀ x, i ≤ x → x < j → t.entryAt? x = none := by
  rcases scan_first (t := t) (i := i) (n := t.capacity - i) with ⟨hscan, hfree⟩ | hfound
  · refine Or.inl ⟨hscan, fun x hx => ?_⟩
    rcases Nat.lt_or_ge x t.capacity with hlt | hge
    · exact hfree x hx (by omega)
    · unfold entryAt?
      rw [Array.getElem?_eq_none hge]
      rfl
  · exact Or.inr hfound

end Table

namespace Walk

variable {K V : Type} {t : Table K V}

/-! ## Walks do not stop

A walk that still has entries to come has a count to take one from, so that no fault is left
to speak of. -/

/-- The next entry and the walk after it, with nothing that could stop. -/
def plainNext (t : Table K V) (w : Walk) : Option (Nat × K × V) × Walk :=
  if w.remaining = 0 then (none, w)
  else
    match t.nextEntry? w.position with
    | none => (none, { w with position := t.capacity })
    | some (i, e) => (some (i, e.pair), ⟨i + 1, w.remaining - 1⟩)

theorem next_eq {w : Walk} : next t w = .ok (plainNext t w) := by
  unfold next plainNext
  by_cases hrem : w.remaining = 0
  · rw [if_pos hrem, if_pos hrem]
  · rw [if_neg hrem, if_neg hrem]
    cases t.nextEntry? w.position with
    | none => rfl
    | some x =>
      dsimp only
      rw [Word.sub_of_le (Nat.pos_of_ne_zero hrem)]
      rfl

/-- A stretch of at most `n` entries, with nothing that could stop. -/
def plainVisit (t : Table K V) : (n : Nat) → Walk → Stretch K V
  | 0, w => ⟨[], [w.remaining], false, w⟩
  | n + 1, w =>
      match plainNext t w with
      | (none, w') => ⟨[], [w'.remaining], true, w'⟩
      | (some item, w') =>
          let rest := plainVisit t n w'
          { rest with items := item :: rest.items, lengths := w.remaining :: rest.lengths }

theorem visit_eq {n : Nat} {w : Walk} : visit t n w = .ok (plainVisit t n w) := by
  induction n generalizing w with
  | zero => rfl
  | succ n ih =>
    rw [visit, plainVisit, next_eq]
    rcases plainNext t w with ⟨item?, w'⟩
    cases item? with
    | none => rfl
    | some item =>
      show (visit t n w' >>= _) = _
      rw [ih]
      rfl

/-- The pairs that are still to come. -/
def toList (t : Table K V) (w : Walk) : List (K × V) :=
  (plainVisit t (w.remaining + 1) w).items.map Prod.snd

theorem collect_eq {w : Walk} : w.collect t = .ok (w.toList t) := by
  unfold collect visitAll
  rw [visit_eq]
  rfl

/-! ## What a walk visits -/

/-- A walk takes what is there, up to its limit and its count. -/
theorem plainVisit_items {n : Nat} {w : Walk} :
    (plainVisit t n w).items.map Prod.snd =
      ((t.entriesFrom w.position).take (min n w.remaining)).map Entry.pair := by
  -- one step of the walk takes one entry from what is there and one from its count
  induction n generalizing w with
  | zero => rw [Nat.zero_min]; rfl
  | succ n ih =>
    rw [plainVisit]
    unfold plainNext
    by_cases hrem : w.remaining = 0
    · rw [if_pos hrem, hrem, Nat.min_zero]
      rfl
    · rw [if_neg hrem]
      rcases t.nextEntry?_cases w.position with ⟨hnext, hnil⟩ | ⟨j, e, hnext, _, hcons⟩
      · rw [hnext, hnil, List.take_nil]
        rfl
      · rw [hnext, hcons, show min (n + 1) w.remaining = min n (w.remaining - 1) + 1 by omega]
        show e.pair :: (plainVisit t n ⟨j + 1, w.remaining - 1⟩).items.map Prod.snd = _
        rw [ih]
        rfl

/-- The entries that a walk visits, where they are: each behind the one before. -/
theorem plainVisit_indexed {n : Nat} {w : Walk} :
    (plainVisit t n w).items.Pairwise (fun a b => a.1 < b.1) ∧
      ∀ item ∈ (plainVisit t n w).items, w.position ≤ item.1 ∧
        (t.entryAt? item.1).map Entry.pair = some item.2 := by
  induction n generalizing w with
  | zero => exact ⟨List.Pairwise.nil, fun item h => absurd h List.not_mem_nil⟩
  | succ n ih =>
    rw [plainVisit]
    unfold plainNext
    split
    · rename_i w' hnext
      exact ⟨List.Pairwise.nil, fun item h => absurd h List.not_mem_nil⟩
    · rename_i item w' hnext
      split at hnext
      · exact absurd hnext (by simp)
      · rcases t.nextEntry?_first w.position with ⟨hnone, _⟩ | ⟨j, e, hsome, hle, he, _⟩
        · rw [hnone] at hnext; exact absurd hnext (by simp)
        · rw [hsome] at hnext
          obtain ⟨hitem, rfl⟩ := Prod.mk.inj hnext
          have hitem' : (j, e.pair) = item := Option.some.inj hitem
          subst hitem'
          obtain ⟨hpair, hrest⟩ := ih (w := ⟨j + 1, w.remaining - 1⟩)
          refine ⟨List.pairwise_cons.mpr ⟨fun a ha => (hrest a ha).1, hpair⟩, ?_⟩
          intro a ha
          rcases List.mem_cons.mp ha with rfl | ha
          · exact ⟨hle, by rw [he]; rfl⟩
          · have hpos : j + 1 ≤ a.1 := (hrest a ha).1
            exact ⟨by omega, (hrest a ha).2⟩

theorem nodup_plainVisit {n : Nat} {w : Walk} :
    ((plainVisit t n w).items.map Prod.fst).Nodup := by
  rw [List.nodup_iff_pairwise_ne, List.pairwise_map]
  exact plainVisit_indexed.1.imp fun h => Nat.ne_of_lt h

theorem isSome_of_mem_plainVisit {n i : Nat} {w : Walk}
    (hi : i ∈ (plainVisit t n w).items.map Prod.fst) :
    (t.entryAt? i).isSome := by
  obtain ⟨item, hitem, rfl⟩ := List.mem_map.mp hi
  have hpair := (plainVisit_indexed.2 item hitem).2
  rw [← Option.isSome_map, hpair]
  rfl

end Walk

namespace Table

variable {K V : Type} {t : Table K V}

/-- The pairs that a walk over the whole table visits. -/
def toList (t : Table K V) : List (K × V) := (Walk.start t).toList t

theorem collect_eq : t.collect = .ok t.toList := Walk.collect_eq

/-- A walk over the whole table visits as many entries as the table counts. -/
theorem toList_eq : t.toList = (t.entries.take t.live).map Entry.pair := by
  unfold toList Walk.toList
  rw [Walk.plainVisit_items, Nat.min_eq_right (Nat.le_succ _)]
  rfl

theorem Exact.toList_eq (h : t.Exact) : t.toList = t.entries.map Entry.pair := by
  rw [Table.toList_eq, h.live_eq, ← length_entries, List.take_length]

theorem Exact.collect_eq (h : t.Exact) : t.collect = .ok (t.entries.map Entry.pair) := by
  rw [Table.collect_eq, h.toList_eq]

theorem Exact.length_toList (h : t.Exact) : t.toList.length = t.live := by
  rw [h.toList_eq, List.length_map, length_entries, h.live_eq]

end Table

end OpenAddressing
