import OpenAddressing.Proofs.Indexed
import OpenAddressing.Proofs.Sessions
import OpenAddressing.Proofs.Transcripts

/-!
# What snapshots hold

A snapshot is made of the items of a walk, and everything that it is asked is answered from
its slots alone. `Snapshot.Holds` is the statement that all of these answers are those of one
list: the slots, the size, the item at each position, and the items up to the empty slot. A
snapshot holds the items that it was made of (`Snapshot.ofItems_holds`).

Two snapshots of one table are made by two walks that know nothing of each other. They agree
position by position because both follow `Table.indexedEntries`, where every entry has one
position.
-/

namespace OpenAddressing

open Act

namespace Snapshot

variable {α : Type} {items : List α}

/-- The snapshot answers everything from this list. -/
structure Holds (shot : Snapshot α) (items : List α) : Prop where
  /-- Each item is in a slot, and one empty slot ends them. -/
  slots : shot.slots.toList = items.map some ++ [none]
  size : shot.size = .ok items.length
  get? : ∀ i, shot.get? i = .ok items[i]?
  toList : shot.toList = items

/-- The items before the first empty slot are all of them. -/
theorem takeWhile_slots :
    (items.map some ++ [none]).takeWhile Option.isSome = items.map (some : α → Option α) := by
  induction items with
  | nil => rfl
  | cons item items ih => exact congrArg (some item :: ·) ih

/-- The item in a slot; the slot that ends the snapshot has none, and past it there is no
slot. -/
theorem join_slots (i : Nat) :
    (items.map some ++ [none] : List (Option α))[i]?.join = items[i]? := by
  rw [List.getElem?_append, List.length_map]
  split
  · rename_i hi
    rw [List.getElem?_map, List.getElem?_eq_getElem hi]
    rfl
  · rename_i hi
    rw [List.getElem?_eq_none (Nat.le_of_not_lt hi)]
    cases i - items.length <;> rfl

theorem ofItems_holds (items : List α) : (ofItems items).Holds items := by
  refine ⟨rfl, ?_, fun i => ?_, ?_⟩
  · rw [size_eq]
    show Except.ok ((items.map some ++ [none]).toArray.size - 1) = _
    rw [List.size_toArray, List.length_append, List.length_map]
    rfl
  · rw [get?_eq]
    show Except.ok ((items.map some ++ [none]).toArray[i]?).join = _
    rw [List.getElem?_toArray, join_slots]
  · show ((items.map some ++ [none]).takeWhile Option.isSome).filterMap id = items
    rw [takeWhile_slots, List.filterMap_map]
    exact List.filterMap_some

/-- What is reported of a snapshot that holds these items. -/
theorem Holds.report {K V : Type} {shot : Snapshot (View K V)} {items : List (View K V)}
    (h : shot.Holds items) (positions : List Nat) (heap : Heap) :
    shot.report positions heap = .ok {
      size := items.length
      items := items
      slots := items.length + 1
      terminated := true
      picked := positions.map fun i => items[i]?
      heap } := by
  have hsize : shot.slots.size - 1 = items.length :=
    Except.ok.inj (shot.size_eq.symm.trans h.size)
  have hslots : shot.slots.size = items.length + 1 := by
    rw [← Array.length_toList, h.slots, List.length_append, List.length_map]
    rfl
  have hpicked : (positions.map fun i => shot.slots[i]?.join) = positions.map fun i => items[i]? :=
    List.map_congr_left fun i _ => Except.ok.inj ((shot.get?_eq i).symm.trans (h.get? i))
  rw [shot.report_eq, hsize, hslots, hpicked, h.toList]

end Snapshot

namespace Table

variable {K V : Type} {t : Table K V} {j : Nat} {e : Entry K V}

theorem Exact.toList_eq_indexed (h : t.Exact) :
    t.toList = t.indexedEntries.map fun x => x.2.pair := by
  rw [h.toList_eq, ← map_snd_indexedEntries, List.map_map]
  rfl

/-- Each entry has one position in the list of entries. -/
theorem existsUnique_position (he : t.entryAt? j = some e) :
    ∃! i : Nat, t.indexedEntries[i]? = some (j, e) := by
  obtain ⟨i, hi⟩ := List.mem_iff_getElem?.mp (mem_indexedEntries_iff.mpr he)
  refine ⟨i, hi, fun i' hi' => ?_⟩
  have hindex : (t.indexedEntries.map Prod.fst)[i']? = (t.indexedEntries.map Prod.fst)[i]? := by
    rw [List.getElem?_map, List.getElem?_map, hi, hi']
  obtain ⟨hlt, _⟩ := List.getElem?_eq_some_iff.mp hi'
  exact (List.getElem?_inj (by rwa [List.length_map]) nodup_indexedEntries).mp hindex

end Table

namespace World

variable {K V τ : Type} {w : World K V τ} {part : Part}

theorem snapshot_of_unallocated (hb : w.table.Bounded) (h : w.table.capacity = 0) :
    snapshot part w = .ok none w := by
  rcases snapshot_cases part hb with ⟨_, hrun⟩ | ⟨hcap, _⟩ | ⟨hcap, _⟩
  · exact hrun
  · exact absurd h hcap
  · exact absurd h hcap

/-- If the counters are exact, then a snapshot has as many items as it should. -/
theorem snapshot_of_exact (hb : w.table.Bounded) (h : w.table.Exact)
    (hcap : w.table.capacity ≠ 0) :
    snapshot part w =
      .ok (some (.ofItems (w.table.toList.map part.view)))
        { w with heap := w.heap.allocate } := by
  rcases snapshot_cases part hb with ⟨h0, _⟩ | ⟨_, _, hrun⟩ | ⟨_, hlength, _⟩
  · exact absurd h0 hcap
  · exact hrun
  · exact absurd h.length_toList hlength

/-- What is reported of a snapshot that holds these items. -/
theorem inspectSnapshot_of_holds {shot : Snapshot (View K V)} {items : List (View K V)}
    {w' : World K V τ} (h : shot.Holds items) (hshot : snapshot part w = .ok (some shot) w')
    (positions : List Nat) :
    inspectSnapshot part positions w =
      .ok (some {
          size := items.length
          items := items
          slots := items.length + 1
          terminated := true
          picked := positions.map fun i => items[i]?
          heap := w'.heap })
        { w' with heap := w'.heap.free } := by
  unfold inspectSnapshot
  rw [bind_of_ok hshot]
  show (lift (shot.report positions w'.heap) >>= fun r => pure (some r) : Act (World K V τ) _)
    { w' with heap := w'.heap.free } = _
  rw [h.report]
  rfl

end World

namespace Session

variable {K V : Type} {s : Strategy K} {session : Session K V}

/-- Snapshots in every session in which no hook has given up during a clear.

A map without buckets has none. Any other map gives one that holds what a walk over the whole
map visits, each time, and takes one block from the heap for it. The items of a snapshot of
the keys and one of the values belong together position by position: in each position they
are of one entry, and each entry has one position. -/
theorem snapshots_exact (h : Intact s session) :
    let w := session.world
    let t := w.table
    let taken : World K V (Journal K V) := { w with heap := w.heap.allocate }
    ∃ pairs, t.collect = .ok pairs ∧
    let items (part : Part) := pairs.map part.view
    (t.capacity = 0 → ∀ part positions, World.snapshot part w = .ok none w ∧
      step s (.snapshot part positions) session = (.ok (.snapshot none), session)) ∧
    (t.capacity ≠ 0 → ∃ shot : Part → Snapshot (View K V),
      (∀ part, World.snapshot part w = .ok (some (shot part)) taken ∧
        (shot part).Holds (items part) ∧ (shot part).size = .ok t.live ∧
        ∀ positions, step s (.snapshot part positions) session =
          (.ok (.snapshot (some {
            size := t.live
            items := items part
            slots := t.live + 1
            terminated := true
            picked := positions.map fun i => (items part)[i]?
            heap := taken.heap })), ⟨{ w with heap := taken.heap.free }, session.cursors⟩)) ∧
      (∀ i < t.live, ∃ j e, t.indexedEntries[i]? = some (j, e) ∧ t.entryAt? j = some e ∧
        (shot .key).get? i = .ok (some (.key e.key)) ∧
        (shot .value).get? i = .ok (some (.value e.value))) ∧
      ∀ j e, t.entryAt? j = some e →
        ∃! i : Nat, i < t.live ∧ t.indexedEntries[i]? = some (j, e)) := by
  intro w t taken
  refine ⟨t.toList, Table.collect_eq, ?_⟩
  intro items
  have hexact : t.Exact := h.sound.exact
  have hbounded : t.Bounded := h.reachable.atRest.bounded
  have hlength (part : Part) : (items part).length = t.live := by
    rw [List.length_map, hexact.length_toList]
  have hlive : t.indexedEntries.length = t.live := by
    rw [Table.length_indexedEntries, Table.length_entries, hexact.live_eq]
  refine ⟨fun hcap part positions => ?_, fun hcap => ?_⟩
  · have hnone : World.snapshot part w = .ok none w := World.snapshot_of_unallocated hbounded hcap
    have hinspect : World.inspectSnapshot part positions w = .ok none w :=
      (bind_of_ok hnone).trans rfl
    exact ⟨hnone, step_of_ok (r := .snapshot part positions) (g := .snapshot) rfl hinspect⟩
  · have hholds (part : Part) := Snapshot.ofItems_holds (items part)
    refine ⟨fun part => .ofItems (items part), fun part => ?_, fun i hi => ?_, fun j e he => ?_⟩
    · have hshot : World.snapshot part w = .ok (some (.ofItems (items part))) taken :=
        World.snapshot_of_exact hbounded hexact hcap
      refine ⟨hshot, hholds part, by rw [(hholds part).size, hlength], fun positions => ?_⟩
      have hinspect := World.inspectSnapshot_of_holds (hholds part) hshot positions
      rw [hlength] at hinspect
      exact step_of_ok (g := .snapshot) rfl hinspect
    · have hi' : i < t.indexedEntries.length := hlive ▸ hi
      obtain ⟨⟨j, e⟩, hje⟩ : ∃ x, t.indexedEntries[i]? = some x :=
        ⟨_, List.getElem?_eq_getElem hi'⟩
      have hitem (part : Part) : (items part)[i]? = some (part.view e.pair) := by
        show (t.toList.map part.view)[i]? = _
        rw [List.getElem?_map, hexact.toList_eq_indexed, List.getElem?_map, hje]
        rfl
      refine ⟨j, e, hje, Table.mem_indexedEntries_iff.mp (List.mem_of_getElem? hje), ?_, ?_⟩
      · rw [(hholds .key).get?, hitem]
        rfl
      · rw [(hholds .value).get?, hitem]
        rfl
    · obtain ⟨i, hi, hunique⟩ := Table.existsUnique_position he
      obtain ⟨hlt, _⟩ := List.getElem?_eq_some_iff.mp hi
      exact ⟨i, ⟨hlive ▸ hlt, hi⟩, fun i' hi' => hunique i' hi'.2⟩

/-- A snapshot of the keys on both sides of a tombstone: two items and the empty slot. -/
theorem snapshots_exact_tombstone :
    let s : Strategy Nat := { hash := fun k => k.toUInt64, equals := fun a b => a == b }
    let session₀ : Session Nat Nat :=
      { world := { table := .blank 8, heap := ⟨1, 0⟩, client := [] } }
    let session := (run s [.insertAll [(1, 10), (2, 20), (3, 30)], .erase 2] session₀).2
    Session.start s 8 none none = .ok session₀ ∧ Intact s session ∧
      session.world.table.capacity ≠ 0 ∧
      ∃ shot w, World.snapshot .key session.world = .ok (some shot) w ∧
        shot.slots.toList = [some (.key 1), some (.key 3), none] ∧
        shot.get? 1 = .ok (some (.key 3)) ∧ shot.get? 2 = .ok none := by
  intro s session₀ session
  have hstart : Session.start s 8 none none = .ok session₀ := rfl
  have hintact : Intact s session := (Intact.start hstart).run _ (by simp)
  have hcap : session.world.table.capacity ≠ 0 := by decide +kernel
  have hpairs : session.world.table.collect = .ok [(1, 10), (3, 30)] := by decide +kernel
  obtain ⟨pairs, hcollect, _, hallocated⟩ := snapshots_exact hintact
  obtain rfl : [(1, 10), (3, 30)] = pairs := Except.ok.inj (hpairs.symm.trans hcollect)
  obtain ⟨shot, hshots, _⟩ := hallocated hcap
  obtain ⟨hshot, hkeys, _⟩ := hshots .key
  exact ⟨hstart, hintact, hcap, shot .key, _, hshot, hkeys.slots, hkeys.get? 1, hkeys.get? 2⟩

end Session

end OpenAddressing
