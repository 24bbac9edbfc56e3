import OpenAddressing.Proofs.Contents

/-!
# Entries and where they are

`indexedEntries` is the list of entries in bucket order with the bucket of each. The indexes
go up, so none comes twice, and a pair is in the list exactly if its entry is in its bucket:
the list is all that there is to say about where the entries of a table are.
-/

namespace OpenAddressing.Table

variable {K V : Type} {t : Table K V} {i : Nat} {e : Entry K V}

/-- The entries with their indexes, index by index. -/
theorem indexedEntries_eq_filterMap :
    t.indexedEntries =
      (List.range t.capacity).filterMap fun i => (t.entryAt? i).map (i, ·) := by
  have hbuckets :
      (t.buckets.toList.zipIdx.map fun b => Option.map (b.2, ·) <| Bucket.entry? b.1) =
        (List.range t.capacity).map fun i => (t.entryAt? i).map (i, ·) := by
    apply List.ext_getElem?
    intro i
    rw [List.getElem?_map, List.getElem?_map, List.getElem?_zipIdx, Array.getElem?_toList,
      Nat.zero_add]
    cases hb : t.buckets[i]? with
    | none =>
      have hi : t.capacity ≤ i := Array.getElem?_eq_none_iff.mp hb
      rw [List.getElem?_eq_none (by rw [List.length_range]; exact hi)]
      rfl
    | some b =>
      rw [List.getElem?_range (lt_capacity_of_getElem? hb), Option.map_some, Option.map_some,
        Option.map_some, entryAt?_of_getElem? hb]
  calc t.indexedEntries
      = (t.buckets.toList.zipIdx.map fun b =>
          Option.map (b.2, ·) <| Bucket.entry? b.1).filterMap id := by
        rw [List.filterMap_map]; rfl
    _ = (List.range t.capacity).filterMap fun i => (t.entryAt? i).map (i, ·) := by
        rw [hbuckets, List.filterMap_map]; rfl

theorem mem_indexedEntries_iff : (i, e) ∈ t.indexedEntries ↔ t.entryAt? i = some e := by
  rw [indexedEntries_eq_filterMap, List.mem_filterMap]
  constructor
  · rintro ⟨j, _, hj⟩
    obtain ⟨e', he', hpair⟩ := Option.map_eq_some_iff.mp hj
    obtain ⟨rfl, rfl⟩ := Prod.mk.inj hpair
    exact he'
  · intro he
    exact ⟨i, List.mem_range.mpr (lt_capacity_of_entryAt? he), by rw [he]; rfl⟩

/-- The entries are what is left without the indexes. -/
theorem map_snd_indexedEntries : t.indexedEntries.map Prod.snd = t.entries := by
  have hsnd : ∀ b : Bucket K V × Nat,
      Option.map Prod.snd (Option.map (b.2, ·) <| Bucket.entry? b.1) = Bucket.entry? b.1 := by
    rintro ⟨b, i⟩
    cases b <;> rfl
  calc t.indexedEntries.map Prod.snd
      = t.buckets.toList.zipIdx.filterMap fun b =>
          Option.map Prod.snd (Option.map (b.2, ·) <| Bucket.entry? b.1) := by
        unfold indexedEntries; rw [List.map_filterMap]
    _ = (t.buckets.toList.zipIdx.map Prod.fst).filterMap Bucket.entry? := by
        simp only [hsnd]; rw [List.filterMap_map]; rfl
    _ = t.entries := by rw [List.zipIdx_map_fst]; rfl

theorem length_indexedEntries : t.indexedEntries.length = t.entries.length := by
  rw [← map_snd_indexedEntries, List.length_map]

/-- The indexes go up. -/
theorem indexedEntries_sorted : t.indexedEntries.Pairwise fun a b => a.1 < b.1 := by
  rw [indexedEntries_eq_filterMap, List.pairwise_filterMap]
  refine List.pairwise_lt_range.imp fun hlt a ha b hb => ?_
  obtain ⟨_, _, rfl⟩ := Option.map_eq_some_iff.mp ha
  obtain ⟨_, _, rfl⟩ := Option.map_eq_some_iff.mp hb
  exact hlt

theorem nodup_indexedEntries : (t.indexedEntries.map Prod.fst).Nodup := by
  rw [List.nodup_iff_pairwise_ne, List.pairwise_map]
  exact indexedEntries_sorted.imp fun hlt => Nat.ne_of_lt hlt

end OpenAddressing.Table
