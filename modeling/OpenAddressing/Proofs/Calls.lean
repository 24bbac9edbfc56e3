import OpenAddressing.Session.Basic
import OpenAddressing.Proofs.Updates
import OpenAddressing.Proofs.Walks

/-!
# All calls but clearing are regular

The calls that change the table in more than one place do so by the calls of
`OpenAddressing.Proofs.Updates`, one after the other, and are regular because those
are. What only reads the map is regular for want of anything to change.
-/

namespace OpenAddressing

open Act

namespace Snapshot

variable {α : Type}

/-- The slot that ends a snapshot is one of its slots. -/
theorem size_eq (shot : Snapshot α) : shot.size = .ok (shot.slots.size - 1) := by
  refine Word.sub_of_le (Nat.pos_of_ne_zero fun h0 => ?_)
  have hended := shot.ended
  rw [Array.eq_empty_of_size_eq_zero h0] at hended
  exact absurd hended (by simp)

/-- Every position is answered from the slots, in range or not. -/
theorem get?_eq (shot : Snapshot α) (i : Nat) : shot.get? i = .ok shot.slots[i]?.join := by
  unfold get?
  rw [size_eq]
  show (if i < shot.slots.size - 1 then _ else _ : Except Fault (Option α)) = _
  have hended := shot.ended
  rw [Array.back?_eq_getElem?] at hended
  by_cases hi : i < shot.slots.size - 1
  · rw [if_pos hi, Array.getElem?_eq_getElem (by omega)]
    rfl
  · rw [if_neg hi]
    rcases Nat.lt_or_ge i shot.slots.size with hlt | hge
    · rw [show i = shot.slots.size - 1 by omega, hended]
      rfl
    · rw [Array.getElem?_eq_none hge]
      rfl

theorem report_eq {K V : Type} (shot : Snapshot (View K V)) {positions : List Nat} {heap : Heap} :
    shot.report positions heap = .ok {
      size := shot.slots.size - 1
      items := shot.toList
      slots := shot.slots.size
      terminated := true
      picked := positions.map fun i => shot.slots[i]?.join
      heap } := by
  have hpicked : positions.mapM shot.get? = .ok (positions.map fun i => shot.slots[i]?.join) := by
    rw [show shot.get? = fun i => pure shot.slots[i]?.join from funext shot.get?_eq]
    exact List.mapM_pure
  unfold report
  rw [size_eq, hpicked, shot.ended]
  rfl

theorem collect_eq {K V : Type} {part : Part} {t : Table K V} :
    collect part t =
      if t.toList.length = t.live then .ok (.ofItems (t.toList.map part.view))
      else .error (.snapshotMiscount t.toList.length t.live) := by
  unfold collect
  rw [Table.collect_eq]
  show (if (t.toList.map part.view).length = t.live then _ else _) = _
  rw [List.length_map]
  rfl

end Snapshot

namespace World

variable {K V τ α : Type} {cb : Callbacks K V τ} {s : Strategy K} {k : K} {v : V}

/-- An act on the table alone that cannot stop. -/
theorem regular_onTable {act : Act (Table K V) α}
    (h : ∀ t, t.Bounded → act.Ends t (fun _ t' => Table.Steps s t t') fun _ _ => False) :
    Regular s (onTable act : Act (World K V τ) α) := by
  intro w hw
  rw [ends_onTable]
  refine (h w.table hw.bounded).imp (fun _ t' h => ?_) (fun _ _ h => h.elim)
  exact ⟨sameRest_withTable (.refl w), h⟩

/-- The account of the heap does not matter. -/
theorem regular_modify {g : World K V τ → World K V τ}
    (hrest : ∀ w : World K V τ, w.SameRest (g w))
    (htable : ∀ w : World K V τ, (g w).table = w.table) :
    Regular s (modify g : Act (World K V τ) PUnit) := by
  intro w _
  rw [ends_modify]
  exact .of_table_eq (hrest w) (htable w)

/-! ## Lookups -/

theorem get?_regular (hcb : cb.Plain s) : Regular s (get? cb k) :=
  (getEntry?_regular hcb).bind fun _ => regular_pure

theorem contains_regular (hcb : cb.Plain s) : Regular s (contains cb k) :=
  (locate_regular hcb).bind fun _ => regular_pure

theorem answer_regular (hcb : cb.Plain s) {l : Lookup K} : Regular s (answer cb l) := by
  cases l with
  | get k => exact (get?_regular hcb).bind fun _ => regular_pure
  | getEntry k => exact (getEntry?_regular hcb).bind fun _ => regular_pure
  | contains k => exact (contains_regular hcb).bind fun _ => regular_pure

/-! ## Updates -/

theorem insert_regular (hcb : cb.Plain s) : Regular s (insert cb k v) := by
  intro w hw
  refine (insert_ends hcb hw).imp (fun _ w' h => ?_) (fun _ _ h => h.2.evolves h.1)
  obtain ⟨hrest, t, r, hgrown, hroom, hstored⟩ := h
  exact ⟨hrest, hgrown.steps.trans (.single (hstored.change hroom))⟩

theorem insertAll_regular (hcb : cb.Plain s) {items : List (K × V)} :
    Regular s (insertAll cb items) :=
  Regular.forM fun _ => insert_regular hcb

theorem removeAt_regular {i : Nat} :
    Regular s (removeAt i : Act (World K V τ) (Option (Entry K V))) := by
  refine regular_onTable fun t ht => (Table.bury_ends ht).imp (fun r t' h => ?_) (fun _ _ h => h)
  rcases h with ⟨_, _, rfl⟩ | hremoved
  · exact .refl
  · exact hremoved.steps

theorem releaseRemoved_regular {r : Option (Entry K V)} :
    Regular s (releaseRemoved r : Act (World K V τ) Bool) := by
  cases r with
  | none => exact regular_pure
  | some e => exact release_regular.bind fun _ => regular_pure

theorem erase_regular (hcb : cb.Plain s) : Regular s (erase cb k) := by
  intro w hw
  refine (erase_ends hcb hw).imp (fun _ w' h => ?_) (fun _ _ h => h)
  obtain ⟨hrest, i?, r, _, hremoved, _⟩ := h
  exact ⟨hrest, hremoved.steps⟩

theorem take_regular (hcb : cb.Plain s) : Regular s (take cb k) := by
  intro w hw
  refine (take_ends hcb hw.bounded).imp (fun _ w' h => ?_)
    (fun _ _ h => ⟨h.2.evolves, h.1.cause hw.probing_eq h.2.table_eq⟩)
  obtain ⟨hrest, i?, r, _, hremoved, _⟩ := h
  exact ⟨hrest, hremoved.steps⟩

theorem update_regular (hcb : cb.Plain s) {f : V → V} : Regular s (update cb k f) := by
  intro w hw
  refine (update_ends hcb).imp (fun _ w' h => ?_)
    (fun _ _ h => ⟨h.2.evolves, h.1.cause hw.probing_eq h.2.table_eq⟩)
  obtain ⟨hrest, i?, _, hupdated⟩ := h
  exact ⟨hrest, hupdated.steps⟩

/-! ## Walks -/

theorem steps_of_updateAt {t : Table K V} {i : Nat} {f : V → V} :
    (Table.updateAt i f).Ends t (fun _ t' => Table.Steps s t t') fun _ _ => False := by
  refine Table.updateAt_ends.imp (fun r t' h => ?_) (fun _ _ h => h)
  rcases h with ⟨_, _, rfl⟩ | hupdated
  · exact .refl
  · exact hupdated.steps

theorem updateAll_regular {f : V → V} {indexes : List Nat} :
    Regular s (onTable (Table.updateAll f indexes) : Act (World K V τ) Unit) := by
  refine regular_onTable fun t _ => ?_
  unfold Table.updateAll
  refine ends_forM (I := fun _ t' => Table.Steps s t t') .refl fun _ i _ t' _ hsteps => ?_
  rw [ends_discard]
  exact steps_of_updateAt.imp (fun _ _ h => hsteps.trans h) (fun _ _ h => h)

/-- The counters are added up without overflow. -/
theorem loadFactor_ok {t : Table K V} (h : t.Bounded) : ∃ load, t.loadFactor = .ok load := by
  have hlt := h.counters_lt
  have hlimit := Table.limit_eq
  unfold Table.loadFactor
  split
  · exact ⟨_, rfl⟩
  · rw [Word.add_of_lt (by omega)]
    exact ⟨_, rfl⟩

theorem summary_regular : Regular s (summary : Act (World K V τ) Summary) := by
  refine Regular.get fun w hw => ?_
  obtain ⟨load, hload⟩ := loadFactor_ok hw.bounded
  exact (regular_lift hload).bind fun _ => regular_pure

theorem items_regular : Regular s (items : Act (World K V τ) (List (K × V))) :=
  Regular.get fun _ _ => regular_lift Table.collect_eq

theorem walk_regular {part : Part} {limit : Option Nat} :
    Regular s (walk part limit : Act (World K V τ) (WalkReport K V)) :=
  Regular.get fun _ _ => (regular_lift Walk.visit_eq).bind fun _ =>
    (regular_lift Walk.collect_eq).bind fun _ => regular_pure

theorem updateWalk_regular {part : Part} {limit : Option Nat} {f : V → V} :
    Regular s (updateWalk part limit f : Act (World K V τ) (WalkReport K V)) :=
  Regular.get fun _ _ => (regular_lift Walk.visit_eq).bind fun _ =>
    updateAll_regular.bind fun _ => (regular_lift Walk.collect_eq).bind fun _ => regular_pure

/-! ## Snapshots -/

/-- A map without buckets has no snapshot. Any other has one with as many items as the table
counts, or it is given up. -/
theorem snapshot_cases {w : World K V τ} (part : Part) (h : w.table.Bounded) :
    (w.table.capacity = 0 ∧ snapshot part w = .ok none w) ∨
    (w.table.capacity ≠ 0 ∧ w.table.toList.length = w.table.live ∧ snapshot part w =
      .ok (some (.ofItems (w.table.toList.map part.view))) { w with heap := w.heap.allocate }) ∨
    (w.table.capacity ≠ 0 ∧ w.table.toList.length ≠ w.table.live ∧ snapshot part w =
      .error (.snapshotMiscount w.table.toList.length w.table.live)
        { w with heap := w.heap.allocate.free }) := by
  have hcount : (Functor.discard (lift (Word.add w.table.live 1)) : Act (World K V τ) PUnit) w =
      .ok ⟨⟩ w := by
    rw [h.add_live]
    rfl
  have htake : (modify fun w => { w with heap := w.heap.allocate } : Act (World K V τ) PUnit) w =
      .ok ⟨⟩ { w with heap := w.heap.allocate } := rfl
  unfold snapshot
  rw [get_bind]
  by_cases hcap : w.table.capacity = 0
  · rw [if_pos hcap]
    exact Or.inl ⟨hcap, rfl⟩
  · rw [if_neg hcap, bind_of_ok hcount, bind_of_ok htake, Snapshot.collect_eq]
    by_cases hlength : w.table.toList.length = w.table.live
    · rw [if_pos hlength]
      exact Or.inr (Or.inl ⟨hcap, hlength, rfl⟩)
    · rw [if_neg hlength]
      exact Or.inr (Or.inr ⟨hcap, hlength, rfl⟩)

/-- A snapshot is given up only if the counters are wrong. -/
theorem snapshot_regular {part : Part} :
    Regular s (snapshot part : Act (World K V τ) (Option (Snapshot (View K V)))) := by
  intro w hw
  unfold Ends
  rcases snapshot_cases part hw.bounded with
    ⟨_, hrun⟩ | ⟨_, _, hrun⟩ | ⟨_, hlength, hrun⟩
  · rw [hrun]
    exact .refl w
  · rw [hrun]
    exact .of_table_eq ⟨rfl, rfl, rfl⟩ rfl
  · rw [hrun]
    exact ⟨.of_table_eq ⟨rfl, rfl, rfl⟩ rfl,
      .snapshotMiscount fun hexact => hlength hexact.length_toList⟩

theorem inspectSnapshot_regular {part : Part} {positions : List Nat} :
    Regular s
      (inspectSnapshot part positions : Act (World K V τ) (Option (SnapshotReport K V))) := by
  refine snapshot_regular.bind fun shot => ?_
  cases shot with
  | none => exact regular_pure
  | some shot =>
    refine Regular.get fun w _ => Regular.bind ?_ fun _ => ?_
    · exact regular_modify (fun _ => ⟨rfl, rfl, rfl⟩) fun _ => rfl
    · exact (regular_lift shot.report_eq).bind fun _ => regular_pure

end World

/-! ## Cursors -/

namespace Cursor

open World

variable {K V τ : Type} {s : Strategy K}

/-- The index of a bucket can be counted up. -/
theorem advance_eq {t : Table K V} {c : Cursor} (h : t.capacity < Table.capacityLimit) :
    c.advance t = .ok (if c.index < t.capacity then seat t (c.index + 1) else c) := by
  have hlimit := Table.limit_eq
  unfold advance
  split
  · rw [Word.add_of_lt (by omega)]
    rfl
  · rfl

theorem update_regular {c : Cursor} {f : V → V} :
    Regular s (c.update f : Act (World K V τ) (Option V)) :=
  regular_onTable fun _ _ => steps_of_updateAt

theorem erase_regular {c : Cursor} : Regular s (c.erase : Act (World K V τ) Bool) :=
  removeAt_regular.bind fun _ => releaseRemoved_regular

theorem take_regular {c : Cursor} : Regular s (c.take : Act (World K V τ) (Option (K × V))) :=
  removeAt_regular.bind fun _ => regular_pure

theorem sweep_regular {stride n visited : Nat} {c : Cursor} :
    Regular s (sweep stride n visited c : Act (World K V τ) (List K)) := by
  induction n generalizing visited c with
  | zero => exact regular_pure
  | succ n ih =>
    rw [sweep]
    refine Regular.get fun w _ => ?_
    dsimp only
    split
    · exact regular_pure
    · refine (Regular.onlyIf erase_regular.discard).bind fun _ => Regular.get fun _ hw => ?_
      exact (regular_lift (advance_eq hw.bounded.capacity_lt)).bind fun _ =>
        ih.bind fun _ => regular_pure

end Cursor

theorem World.sweep_regular {K V τ : Type} {s : Strategy K} {stride : Nat} :
    Regular s (World.sweep stride : Act (World K V τ) (List K)) :=
  Regular.get fun _ _ => Cursor.sweep_regular

end OpenAddressing
