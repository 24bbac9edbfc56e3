import OpenAddressing.Proofs.Deliveries
import OpenAddressing.Proofs.Indexed

/-!
# Values changed in place

An update in place changes the values of some entries and nothing else. Updates in different
buckets do not see each other, so any number of them comes to `mapValuesAt` (`updateAll_eq`).

The entries that are touched are in different buckets, so the table splits into them and the
rest: `Rewrites`. A table cannot be split at its entries as such, for two of them may be
equal; it is split at their indexes (`entries_perm_split`).
-/

namespace OpenAddressing

open Act

/-- The bucket with another value, if it holds an entry. -/
def Bucket.mapValue {K V : Type} (f : V → V) : Bucket K V → Bucket K V
  | .full e => .full (e.mapValue f)
  | b => b

namespace Table

variable {K V : Type} {t t' : Table K V} {f : V → V} {is : List Nat} {i j : Nat}
  {e : Entry K V}

/-- The table with the values at the indexes `is` replaced. -/
def mapValuesAt (f : V → V) (is : List Nat) (t : Table K V) : Table K V :=
  { t with buckets := t.buckets.mapIdx fun i b => if i ∈ is then b.mapValue f else b }

@[simp] theorem capacity_mapValuesAt : (t.mapValuesAt f is).capacity = t.capacity :=
  Array.size_mapIdx

theorem getElem?_mapValuesAt :
    (t.mapValuesAt f is).buckets[j]? =
      t.buckets[j]?.map fun b => if j ∈ is then b.mapValue f else b :=
  Array.getElem?_mapIdx

theorem entryAt?_mapValuesAt :
    (t.mapValuesAt f is).entryAt? j =
      if j ∈ is then (t.entryAt? j).map fun e => e.mapValue f else t.entryAt? j := by
  unfold entryAt?
  rw [getElem?_mapValuesAt]
  cases t.buckets[j]? with
  | none => split <;> rfl
  | some b =>
    rw [Option.map_some]
    by_cases hj : j ∈ is
    · rw [if_pos hj, if_pos hj]
      cases b <;> rfl
    · rw [if_neg hj, if_neg hj]

theorem mapValuesAt_nil : t.mapValuesAt f [] = t := by
  have hbuckets : (t.mapValuesAt f []).buckets = t.buckets := by
    refine Array.ext_getElem? fun j => ?_
    rw [getElem?_mapValuesAt]
    cases t.buckets[j]? <;> rfl
  exact congrArg (fun buckets => { t with buckets }) hbuckets

/-- One value after the other. -/
theorem mapValuesAt_cons (he : t.entryAt? i = some e) (hi : i ∉ is) :
    (t.setBucket i (.full (e.mapValue f))).mapValuesAt f is = t.mapValuesAt f (i :: is) := by
  have hbuckets : ((t.setBucket i (.full (e.mapValue f))).mapValuesAt f is).buckets =
      (t.mapValuesAt f (i :: is)).buckets := by
    refine Array.ext_getElem? fun j => ?_
    rw [getElem?_mapValuesAt, getElem?_mapValuesAt, getElem?_setBucket (lt_capacity_of_entryAt? he)]
    by_cases hij : i = j
    · subst hij
      rw [if_pos rfl, entryAt?_eq_some_iff.mp he, Option.map_some, Option.map_some, if_neg hi,
        if_pos List.mem_cons_self]
      rfl
    · have hiff : j ∈ i :: is ↔ j ∈ is :=
        ⟨fun h => (List.mem_cons.mp h).resolve_left (Ne.symm hij), List.mem_cons_of_mem i⟩
      rw [if_neg hij]
      simp only [hiff]
  exact congrArg (fun buckets => { t with buckets }) hbuckets

/-- The values at different indexes are replaced one after the other. -/
theorem updateAll_eq (hnodup : is.Nodup) (hfull : ∀ i ∈ is, (t.entryAt? i).isSome) :
    updateAll f is t = .ok () (t.mapValuesAt f is) := by
  induction is generalizing t with
  | nil =>
    rw [mapValuesAt_nil]
    rfl
  | cons i is ih =>
    obtain ⟨hi, hnodup⟩ := List.nodup_cons.mp hnodup
    obtain ⟨hfirst, hrest⟩ := List.forall_mem_cons.mp hfull
    obtain ⟨e, he⟩ := Option.isSome_iff_exists.mp hfirst
    have hupdate : discard (updateAt i f) t = .ok () (t.setBucket i (.full (e.mapValue f))) :=
      bind_of_ok (updateAt_eq he)
    rw [← mapValuesAt_cons he hi]
    refine (bind_of_ok hupdate).trans (ih hnodup fun j hj => ?_)
    have hij : i ≠ j := fun h => hi (h ▸ hj)
    rw [entryAt?_setBucket (lt_capacity_of_entryAt? he), if_neg hij]
    exact hrest j hj

/-- The entries by their indexes. -/
theorem entries_eq_filterMap : t.entries = (List.range t.capacity).filterMap t.entryAt? := by
  rw [← map_snd_indexedEntries, indexedEntries_eq_filterMap, List.map_filterMap]
  refine List.filterMap_congr fun i _ => ?_
  rw [Option.map_map]
  exact Option.map_id'

/-- The entries at some indexes, and the others. -/
theorem entries_perm_split (hnodup : is.Nodup) (hlt : ∀ i ∈ is, i < t.capacity) :
    t.entries.Perm (is.filterMap t.entryAt? ++
      ((List.range t.capacity).filter (· ∉ is)).filterMap t.entryAt?) := by
  have hsplit := List.filter_append_perm (fun i => decide (i ∈ is)) (List.range t.capacity)
  have his : ((List.range t.capacity).filter fun i => decide (i ∈ is)).Perm is := by
    refine (List.perm_ext_iff_of_nodup (List.nodup_range.filter _) hnodup).mpr fun i => ?_
    simp only [List.mem_filter, List.mem_range, decide_eq_true_eq, and_iff_right_iff_imp]
    exact hlt i
  rw [entries_eq_filterMap]
  refine (hsplit.symm.filterMap _).trans ?_
  rw [List.filterMap_append]
  refine (his.filterMap _).append ?_
  simp

/-- The values of the pairs `touched` have been changed, and the other pairs are the same. -/
def Rewrites (f : V → V) (touched : List (K × V)) (t t' : Table K V) : Prop :=
  ∃ still : Multiset (K × V), t.pairs = ↑touched + still ∧
    t'.pairs = ↑(touched.map (Prod.map id f)) + still

theorem Rewrites.refl : Rewrites f [] t t := ⟨t.pairs, (zero_add _).symm, (zero_add _).symm⟩

/-- The values at the indexes `is` have been changed where they are, and nothing else. -/
structure MappedAt (f : V → V) (is : List Nat) (t t' : Table K V) : Prop where
  capacity_eq : t'.capacity = t.capacity
  entryAt?_eq : ∀ i, t'.entryAt? i =
    if i ∈ is then (t.entryAt? i).map fun e => e.mapValue f else t.entryAt? i

theorem mapValuesAt_mapped : MappedAt f is t (t.mapValuesAt f is) :=
  ⟨capacity_mapValuesAt, fun _ => entryAt?_mapValuesAt⟩

theorem MappedAt.rewrites (h : MappedAt f is t t') (hnodup : is.Nodup)
    (hlt : ∀ i ∈ is, i < t.capacity) :
    Rewrites f ((is.filterMap t.entryAt?).map Entry.pair) t t' := by
  obtain ⟨hcap, hentry⟩ := h
  let others := ((List.range t.capacity).filter (· ∉ is)).filterMap t.entryAt?
  have hothers : ((List.range t.capacity).filter (· ∉ is)).filterMap t'.entryAt? = others := by
    refine List.filterMap_congr fun i hi => ?_
    have hout : i ∉ is := by simpa using (List.mem_filter.mp hi).2
    rw [hentry, if_neg hout]
  have hinside : is.filterMap t'.entryAt? =
      (is.filterMap t.entryAt?).map fun e => e.mapValue f := by
    rw [List.map_filterMap]
    refine List.filterMap_congr fun i hi => ?_
    rw [hentry, if_pos hi]
  have hbefore := entries_perm_split (t := t) hnodup hlt
  have hafter := entries_perm_split (t := t') hnodup (by rw [hcap]; exact hlt)
  rw [hcap, hothers, hinside] at hafter
  refine ⟨(others.map Entry.pair : List (K × V)), ?_, ?_⟩
  · rw [pairs_of_perm hbefore, List.map_append, Multiset.coe_add]
  · rw [pairs_of_perm hafter, List.map_append, Multiset.coe_add, List.map_map, List.map_map]
    rfl

theorem Updated.rewrites {i? : Option Nat} {v? : Option V} (h : Updated f t i? v? t') :
    Rewrites f ((i?.bind t.entryAt?).map Entry.pair).toList t t' := by
  cases h with
  | nothing => exact .refl
  | @entry i e he =>
    have hlt := lt_capacity_of_entryAt? he
    have hone : ((some i).bind t.entryAt?).map Entry.pair = some e.pair := by
      rw [Option.bind_some, he]; rfl
    have hlist : ([i].filterMap t.entryAt?).map Entry.pair = [e.pair] := by
      simp [he]
    rw [hone, Option.toList_some, ← hlist]
    have hupdated : t.setBucket i (.full (e.mapValue f)) = t.mapValuesAt f [i] := by
      rw [← mapValuesAt_cons he List.not_mem_nil, mapValuesAt_nil]
    rw [hupdated]
    exact mapValuesAt_mapped.rewrites (List.nodup_singleton i) (by simpa using hlt)

/-- An update that finds nothing leaves the table alone, as one of no entry does. -/
theorem updateAt_rewrites {i : Nat} :
    (updateAt i f).Ends t
      (fun v? t' => v? = (t.entryAt? i).map (fun e => f e.value) ∧
        Rewrites f ((t.entryAt? i).map Entry.pair).toList t t')
      fun _ _ => False := by
  refine updateAt_ends.imp (fun v? t' h => ?_) (fun _ _ h => h)
  rcases h with ⟨hnone, rfl, rfl⟩ | hupdated
  · rw [hnone]
    exact ⟨rfl, .refl⟩
  · have hrewrites := hupdated.rewrites
    rw [Option.bind_some] at hrewrites
    refine ⟨?_, hrewrites⟩
    cases hupdated with
    | entry he => rw [he]; rfl

/-- The entries at different indexes are changed one after the other. -/
theorem updateAll_rewrites (hnodup : is.Nodup) (hfull : ∀ i ∈ is, (t.entryAt? i).isSome) :
    (updateAll f is).Ends t
      (fun _ t' => Rewrites f ((is.filterMap t.entryAt?).map Entry.pair) t t')
      fun _ _ => False := by
  have hlt : ∀ i ∈ is, i < t.capacity := by
    intro i hi
    obtain ⟨e, he⟩ := Option.isSome_iff_exists.mp (hfull i hi)
    exact lt_capacity_of_entryAt? he
  unfold Ends
  rw [updateAll_eq hnodup hfull]
  exact mapValuesAt_mapped.rewrites hnodup hlt

/-- A walk that changes values changes those of the entries that it visits. -/
theorem updateVisited_rewrites {n : Nat} {w : Walk} :
    (updateAll f ((Walk.plainVisit t n w).items.map Prod.fst)).Ends t
      (fun _ t' => Rewrites f ((Walk.plainVisit t n w).items.map Prod.snd) t t')
      fun _ _ => False := by
  have hpairs : (((Walk.plainVisit t n w).items.map Prod.fst).filterMap t.entryAt?).map Entry.pair =
      (Walk.plainVisit t n w).items.map Prod.snd := by
    rw [List.map_filterMap, List.filterMap_map]
    rw [← List.filterMap_eq_map]
    refine List.filterMap_congr fun item hitem => ?_
    exact (Walk.plainVisit_indexed.2 item hitem).2
  rw [← hpairs]
  exact updateAll_rewrites Walk.nodup_plainVisit fun i hi => Walk.isSome_of_mem_plainVisit hi

end Table

end OpenAddressing
