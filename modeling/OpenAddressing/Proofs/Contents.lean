import OpenAddressing.Table

/-!
# What a table holds

Three readings of the bucket array: bucket by bucket (`buckets[i]?`, `entryAt?`), as
the list of its entries in bucket order (`entries`), and by numbers (`fullCount`,
`tombCount`). An operation touches one bucket, or replaces or empties the array; the
lemmas here say what each of these does to the three readings, and later modules do
not look at the array itself.

`buckets_split` is behind all statements about one bucket: the array is what comes
before the bucket, the bucket, and what comes after it.
-/

namespace OpenAddressing

namespace Bucket

variable {K V : Type}

@[simp] theorem entry?_empty : Bucket.entry? (empty : Bucket K V) = none := rfl

@[simp] theorem entry?_tombstone : Bucket.entry? (tombstone : Bucket K V) = none := rfl

@[simp] theorem entry?_full {e : Entry K V} : Bucket.entry? (full e) = some e := rfl

theorem entry?_eq_some_iff {b : Bucket K V} {e : Entry K V} : b.entry? = some e ↔ b = full e := by
  cases b <;> simp [Bucket.entry?]

@[simp] theorem isSome_entry? {b : Bucket K V} : b.entry?.isSome = b.isFull := by
  cases b <;> rfl

end Bucket

namespace Table

variable {K V : Type} {t : Table K V} {i j : Nat} {b : Bucket K V} {e : Entry K V}

/-- The number of buckets that hold an entry. -/
def fullCount (t : Table K V) : Nat := t.buckets.toList.countP Bucket.isFull

/-- The number of buckets that are tombstones. -/
def tombCount (t : Table K V) : Nat := t.buckets.toList.countP Bucket.isTombstone

/-! ## Reading buckets -/

theorem lt_capacity_of_getElem? (h : t.buckets[i]? = some b) : i < t.capacity :=
  (Array.getElem?_eq_some_iff.mp h).1

theorem exists_bucket (hi : i < t.capacity) : ∃ b, t.buckets[i]? = some b :=
  ⟨_, Array.getElem?_eq_getElem hi⟩

theorem bucketAt_of_getElem? (h : t.buckets[i]? = some b) : t.bucketAt i = .ok b := by
  unfold bucketAt; rw [h]

theorem entryAt?_of_getElem? (h : t.buckets[i]? = some b) : t.entryAt? i = b.entry? := by
  unfold entryAt?; rw [h]; rfl

theorem entryAt?_eq_some_iff : t.entryAt? i = some e ↔ t.buckets[i]? = some (.full e) := by
  unfold entryAt?
  rw [Option.bind_eq_some_iff]
  constructor
  · rintro ⟨b, hb, he⟩
    rw [hb, Bucket.entry?_eq_some_iff.mp he]
  · intro h
    exact ⟨.full e, h, rfl⟩

theorem lt_capacity_of_entryAt? (h : t.entryAt? i = some e) : i < t.capacity :=
  lt_capacity_of_getElem? (entryAt?_eq_some_iff.mp h)

theorem mem_entries_iff : e ∈ t.entries ↔ ∃ i, t.entryAt? i = some e := by
  unfold entries
  rw [List.mem_filterMap]
  constructor
  · rintro ⟨b, hb, he⟩
    obtain ⟨i, hi⟩ := List.getElem?_of_mem hb
    rw [Array.getElem?_toList] at hi
    exact ⟨i, (entryAt?_of_getElem? hi).trans he⟩
  · rintro ⟨i, hi⟩
    have h := entryAt?_eq_some_iff.mp hi
    rw [← Array.getElem?_toList] at h
    exact ⟨.full e, List.mem_of_getElem? h, rfl⟩

theorem length_entries : t.entries.length = t.fullCount := by
  unfold entries fullCount
  rw [List.length_filterMap_eq_countP]
  simp only [Bucket.isSome_entry?]

/-- What holds of any two entries in list order holds of the entries in any two buckets. -/
theorem forall_of_pairwise_entries {R : Entry K V → Entry K V → Prop}
    (hR : ∀ a b, R a b → R b a) (h : t.entries.Pairwise R) {a c : Entry K V}
    (hij : i ≠ j) (ha : t.entryAt? i = some a) (hc : t.entryAt? j = some c) : R a c := by
  unfold entries at h
  rw [List.pairwise_filterMap, List.pairwise_iff_getElem] at h
  have key : ∀ {i j : Nat} {a c : Entry K V}, i < j → t.entryAt? i = some a →
      t.entryAt? j = some c → R a c := by
    intro i j a c hlt ha hc
    obtain ⟨hi, hia⟩ := Array.getElem?_eq_some_iff.mp (entryAt?_eq_some_iff.mp ha)
    obtain ⟨hj, hjc⟩ := Array.getElem?_eq_some_iff.mp (entryAt?_eq_some_iff.mp hc)
    refine h i j (by simpa using hi) (by simpa using hj) hlt a ?_ c ?_
    · rw [Array.getElem_toList, hia]; rfl
    · rw [Array.getElem_toList, hjc]; rfl
  rcases Nat.lt_or_gt_of_ne hij with hlt | hgt
  · exact key hlt ha hc
  · exact hR c a (key hgt hc ha)

/-! ## One bucket changes -/

@[simp] theorem capacity_setBucket : (t.setBucket i b).capacity = t.capacity := by
  simp [setBucket, capacity]

theorem getElem?_setBucket (hi : i < t.capacity) :
    (t.setBucket i b).buckets[j]? = if i = j then some b else t.buckets[j]? := by
  have hi' : i < t.buckets.size := hi
  unfold setBucket
  rw [Array.getElem?_setIfInBounds]
  split
  · rfl
  · rfl

theorem entryAt?_setBucket (hi : i < t.capacity) :
    (t.setBucket i b).entryAt? j = if i = j then b.entry? else t.entryAt? j := by
  unfold entryAt?
  rw [getElem?_setBucket hi]
  split <;> rfl

/-- The array around one of its buckets. -/
theorem buckets_split (h : t.buckets[i]? = some b) :
    ∃ front back, t.buckets.toList = front ++ b :: back ∧
      ∀ b', (t.setBucket i b').buckets.toList = front ++ b' :: back := by
  obtain ⟨hi, hb⟩ := Array.getElem?_eq_some_iff.mp h
  have hi' : i < t.buckets.toList.length := by simpa using hi
  refine ⟨t.buckets.toList.take i, t.buckets.toList.drop (i + 1), ?_, fun b' => ?_⟩
  · rw [← hb, ← Array.getElem_toList, List.getElem_cons_drop, List.take_append_drop]
  · unfold setBucket
    rw [Array.toList_setIfInBounds, List.set_eq_take_append_cons_drop, if_pos hi']

theorem countP_setBucket (q : Bucket K V → Bool) (h : t.buckets[i]? = some b) (b' : Bucket K V) :
    (t.setBucket i b').buckets.toList.countP q + (q b).toNat =
      t.buckets.toList.countP q + (q b').toNat := by
  obtain ⟨front, back, ht, ht'⟩ := buckets_split h
  rw [ht, ht' b', List.countP_append, List.countP_append, List.countP_cons, List.countP_cons]
  cases q b <;> cases q b' <;> simp <;> omega

theorem fullCount_setBucket (h : t.buckets[i]? = some b) (b' : Bucket K V) :
    (t.setBucket i b').fullCount + b.isFull.toNat = t.fullCount + b'.isFull.toNat :=
  countP_setBucket Bucket.isFull h b'

theorem tombCount_setBucket (h : t.buckets[i]? = some b) (b' : Bucket K V) :
    (t.setBucket i b').tombCount + b.isTombstone.toNat =
      t.tombCount + b'.isTombstone.toNat :=
  countP_setBucket Bucket.isTombstone h b'

/-- The entries beside one bucket stay as they are. -/
theorem entries_setBucket (h : t.buckets[i]? = some b) :
    ∃ others, t.entries.Perm (b.entry?.toList ++ others) ∧
      ∀ b', (t.setBucket i b').entries.Perm (b'.entry?.toList ++ others) := by
  obtain ⟨front, back, ht, ht'⟩ := buckets_split h
  have key : ∀ c : Bucket K V, ((front ++ c :: back).filterMap Bucket.entry?).Perm
      (c.entry?.toList ++ (front.filterMap Bucket.entry? ++ back.filterMap Bucket.entry?)) := by
    intro c
    rw [List.filterMap_append, ← List.singleton_append, List.filterMap_append,
      ← List.append_assoc, ← List.append_assoc]
    refine List.Perm.append_right _ ?_
    have hc : [c].filterMap Bucket.entry? = c.entry?.toList := by
      cases c <;> rfl
    rw [hc]
    exact List.perm_append_comm
  refine ⟨front.filterMap Bucket.entry? ++ back.filterMap Bucket.entry?, ?_, fun b' => ?_⟩
  · unfold entries; rw [ht]; exact key b
  · unfold entries; rw [ht' b']; exact key b'

/-! ## Room -/

theorem mem_toList_of_getElem? (h : t.buckets[i]? = some b) : b ∈ t.buckets.toList := by
  rw [← Array.getElem?_toList] at h
  exact List.mem_of_getElem? h

theorem fullCount_pos (h : t.entryAt? i = some e) : 0 < t.fullCount :=
  List.countP_pos_iff.mpr ⟨_, mem_toList_of_getElem? (entryAt?_eq_some_iff.mp h), rfl⟩

theorem tombCount_pos (h : t.buckets[i]? = some .tombstone) : 0 < t.tombCount :=
  List.countP_pos_iff.mpr ⟨_, mem_toList_of_getElem? h, rfl⟩

theorem fullCount_le_capacity (t : Table K V) : t.fullCount ≤ t.capacity := by
  unfold fullCount capacity
  rw [← Array.length_toList]
  exact List.countP_le_length

theorem tombCount_le_capacity (t : Table K V) : t.tombCount ≤ t.capacity := by
  unfold tombCount capacity
  rw [← Array.length_toList]
  exact List.countP_le_length

/-- If not all buckets are full or tombstones, some bucket is empty. -/
theorem exists_empty (h : t.fullCount + t.tombCount < t.capacity) :
    ∃ i : Nat, t.buckets[i]? = some .empty := by
  unfold fullCount tombCount capacity at h
  rw [← Array.length_toList] at h
  have key : ∀ bs : List (Bucket K V),
      bs.countP Bucket.isFull + bs.countP Bucket.isTombstone < bs.length → Bucket.empty ∈ bs := by
    intro bs
    induction bs with
    | nil => intro h; simp at h
    | cons b bs ih =>
      intro h
      rw [List.countP_cons, List.countP_cons, List.length_cons] at h
      cases b with
      | empty => exact List.mem_cons_self
      | tombstone =>
        simp only [Bucket.isFull, Bucket.isTombstone] at h
        exact List.mem_cons_of_mem _ (ih (by simp at h; omega))
      | full e =>
        simp only [Bucket.isFull, Bucket.isTombstone] at h
        exact List.mem_cons_of_mem _ (ih (by simp at h; omega))
  obtain ⟨i, hi⟩ := List.getElem?_of_mem (key _ h)
  rw [Array.getElem?_toList] at hi
  exact ⟨i, hi⟩

/-! ## Arrays without entries -/

section Blank

variable {c : Nat}

@[simp] theorem capacity_blank : (blank c : Table K V).capacity = c := by
  simp [blank, capacity]

@[simp] theorem live_blank : (blank c : Table K V).live = 0 := rfl

@[simp] theorem tombs_blank : (blank c : Table K V).tombs = 0 := rfl

@[simp] theorem entries_blank : (blank c : Table K V).entries = [] := by
  simp [blank, entries]

@[simp] theorem fullCount_blank : (blank c : Table K V).fullCount = 0 := by
  rw [← length_entries, entries_blank]; rfl

@[simp] theorem tombCount_blank : (blank c : Table K V).tombCount = 0 := by
  simp [blank, tombCount, List.countP_replicate, Bucket.isTombstone]

theorem entryAt?_blank : (blank c : Table K V).entryAt? i = none := by
  cases h : (blank c : Table K V).entryAt? i with
  | none => rfl
  | some e =>
    have hmem := mem_entries_iff.mpr ⟨i, h⟩
    rw [entries_blank] at hmem
    exact absurd hmem List.not_mem_nil

end Blank

/-- The table after its first `n` buckets have been emptied, while the counters still
say what they said before. -/
def vacated (t : Table K V) (n : Nat) : Table K V :=
  { t with buckets := t.buckets.mapIdx fun i b => if i < n then .empty else b }

@[simp] theorem capacity_vacated {n : Nat} : (t.vacated n).capacity = t.capacity := by
  simp [vacated, capacity]

theorem getElem?_vacated {n : Nat} :
    (t.vacated n).buckets[i]? = t.buckets[i]?.map fun b => if i < n then .empty else b := by
  simp [vacated, Array.getElem?_mapIdx]

@[simp] theorem vacated_zero : t.vacated 0 = t := by
  have hbuckets : (t.vacated 0).buckets = t.buckets := by
    apply Array.ext_getElem?
    intro i
    simp [getElem?_vacated]
  unfold vacated at hbuckets ⊢
  dsimp only at hbuckets ⊢
  rw [hbuckets]

/-- Emptying one bucket more. -/
theorem setBucket_vacated {n : Nat} : (t.vacated n).setBucket n .empty = t.vacated (n + 1) := by
  have hbuckets : ((t.vacated n).setBucket n .empty).buckets = (t.vacated (n + 1)).buckets := by
    apply Array.ext_getElem?
    intro i
    by_cases hn : n < t.capacity
    · rw [getElem?_setBucket (by simpa using hn), getElem?_vacated, getElem?_vacated]
      by_cases hi : n = i
      · subst hi
        obtain ⟨b, hb⟩ := exists_bucket hn
        simp [hb]
      · have : (i < n + 1) = (i < n) := by
          apply propext; omega
        simp only [hi, if_false, this]
    · have hout : (t.vacated n).buckets.size ≤ n := by
        have := capacity_vacated (t := t) (n := n)
        unfold capacity at this hn
        omega
      unfold setBucket
      rw [Array.setIfInBounds_eq_of_size_le hout, getElem?_vacated, getElem?_vacated]
      cases hb : t.buckets[i]? with
      | none => rfl
      | some b =>
        have hi := lt_capacity_of_getElem? hb
        simp [show i < n by omega, show i < n + 1 by omega]
  unfold setBucket vacated at hbuckets ⊢
  dsimp only at hbuckets ⊢
  rw [hbuckets]

/-- With all buckets emptied and the counters at zero, the table is as good as new. -/
theorem vacated_capacity :
    { t.vacated t.capacity with live := 0, tombs := 0 } = (blank t.capacity : Table K V) := by
  have hbuckets : (t.vacated t.capacity).buckets = (blank t.capacity : Table K V).buckets := by
    apply Array.ext_getElem?
    intro i
    rw [getElem?_vacated]
    cases hb : t.buckets[i]? with
    | none =>
      have : ¬ i < t.capacity := by
        intro hi
        obtain ⟨b, hb'⟩ := exists_bucket hi
        rw [hb] at hb'
        exact absurd hb' (by simp)
      simp [blank, this]
    | some b =>
      have hi := lt_capacity_of_getElem? hb
      simp [blank, hi]
  unfold blank at hbuckets ⊢
  dsimp only at hbuckets ⊢
  rw [hbuckets]

/-- Emptying buckets makes no bucket full or a tombstone. -/
theorem countP_vacated_le {q : Bucket K V → Bool} (hq : q .empty = false) {n : Nat} :
    (t.vacated n).buckets.toList.countP q ≤ t.buckets.toList.countP q := by
  induction n with
  | zero => exact Nat.le_of_eq (by rw [vacated_zero])
  | succ n ih =>
    rw [← setBucket_vacated]
    refine Nat.le_trans ?_ ih
    cases hb : (t.vacated n).buckets[n]? with
    | none =>
      unfold setBucket
      exact Nat.le_of_eq (by
        rw [Array.setIfInBounds_eq_of_size_le (Array.getElem?_eq_none_iff.mp hb)])
    | some b =>
      have := countP_setBucket q hb .empty
      rw [hq, Bool.toNat_false] at this
      omega

theorem fullCount_vacated_le {n : Nat} : (t.vacated n).fullCount ≤ t.fullCount :=
  countP_vacated_le rfl

theorem tombCount_vacated_le {n : Nat} : (t.vacated n).tombCount ≤ t.tombCount :=
  countP_vacated_le rfl

end Table

end OpenAddressing
