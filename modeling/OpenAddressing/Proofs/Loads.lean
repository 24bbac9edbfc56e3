import OpenAddressing.Proofs.Targets
import OpenAddressing.Proofs.Tours

/-!
# Requests that live within the load

The load of a table is the number of buckets that it counts as taken, by entries and by
tombstones. Removing an entry leaves a tombstone and so does not lower it; an insertion
raises it by one at most; nothing else but a rebuild and a clear changes it, and a clear
only lowers it.

A table has a *quota* of `n` insertions if the load stays below its maximum with `n` more
buckets taken. An insertion within the quota finds room, and so takes no new array. Hence
a session that has the quota for all the insertions of a list of requests answers them
in the array it has, as long as none of them asks for another one (`run_spends`).
-/

namespace OpenAddressing

open Act

/-- Number of pairs that a request may put into the map. -/
def Request.insertions {K V : Type} : Request K V → Nat
  | .insert _ _ => 1
  | .insertAll pairs => pairs.length
  | _ => 0

/-- The request is for another array. -/
def Request.resizes {K V : Type} : Request K V → Bool
  | .rehash _ | .reserve _ => true
  | _ => false

theorem Word.sub_eq_ok {a b c : Nat} (h : Word.sub a b = .ok c) : b ≤ a ∧ a - b = c := by
  unfold Word.sub at h
  split at h
  · rename_i hle
    exact ⟨hle, Except.ok.inj h⟩
  · exact absurd h (by simp)

theorem Word.add_eq_ok {a b c : Nat} (h : Word.add a b = .ok c) : a + b = c := by
  unfold Word.add at h
  split at h
  · exact Except.ok.inj h
  · exact absurd h (by simp)

namespace Table

variable {K V : Type} {s : Strategy K} {t t' t'' : Table K V} {i m n : Nat}

/-- The number of buckets that are counted as taken. -/
def load (t : Table K V) : Nat := t.live + t.tombs

/-- There are as many buckets as before, and as many of them count as taken. -/
structure SameLoad (t t' : Table K V) : Prop where
  capacity_eq : t'.capacity = t.capacity
  load_eq : t'.load = t.load

theorem SameLoad.refl (t : Table K V) : SameLoad t t := ⟨rfl, rfl⟩

theorem SameLoad.trans (h : SameLoad t t') (h' : SameLoad t' t'') : SameLoad t t'' :=
  ⟨h'.capacity_eq.trans h.capacity_eq, h'.load_eq.trans h.load_eq⟩

/-- Another entry, or a tombstone, in the place of an entry. -/
theorem bury_sameLoad :
    (bury i).Ends t (fun _ t' => SameLoad t t') fun _ t' => SameLoad t t' := by
  unfold bury
  rw [ends_bind, ends_get]
  cases t.entryAt? i with
  | none => exact .refl t
  | some e =>
    dsimp only
    simp only [ends_bind, ends_lift]
    refine ⟨fun live hlive => ⟨fun tombs htombs => ?_, fun _ _ => .refl t⟩, fun _ _ => .refl t⟩
    obtain ⟨hpos, hlive'⟩ := Word.sub_eq_ok hlive
    have htombs' := Word.add_eq_ok htombs
    refine ⟨capacity_setBucket, ?_⟩
    show live + tombs = t.live + t.tombs
    omega

theorem updateAt_sameLoad {f : V → V} :
    (updateAt i f).Ends t (fun _ t' => SameLoad t t') fun _ t' => SameLoad t t' := by
  refine updateAt_ends.imp (fun r t' h => ?_) (fun _ _ h => h.elim)
  rcases h with ⟨_, _, rfl⟩ | hupdated
  · exact .refl t'
  · cases hupdated with
    | entry _ => exact ⟨capacity_setBucket, rfl⟩

theorem updateAll_sameLoad {f : V → V} {indexes : List Nat} :
    (updateAll f indexes).Ends t (fun _ t' => SameLoad t t') fun _ t' => SameLoad t t' := by
  unfold updateAll
  refine ends_forM (I := fun _ t' => SameLoad t t') (.refl t) fun _ _ _ t' _ h => ?_
  rw [ends_discard]
  exact updateAt_sameLoad.imp (fun _ _ h' => h.trans h') (fun _ _ h' => h.trans h')

theorem Stored.load_le {k : K} {v : V} {r : Option (Entry K V)} (h : Stored s k v t r t') :
    t'.load ≤ t.load + 1 := by
  cases h with
  | @fill i reused _ =>
    show t.live + 1 + (if reused then t.tombs - 1 else t.tombs) ≤ t.live + t.tombs + 1
    split <;> omega
  | replace _ _ => exact Nat.le_succ _

/-- The load stays below its maximum with `n` more buckets taken. -/
def Quota (n : Nat) (t : Table K V) : Prop := n = 0 ∨ 4 * (t.load + n) < 3 * t.capacity

theorem Quota.mono (h : t.Quota n) (hcap : t'.capacity = t.capacity)
    (hload : t'.load + m ≤ t.load + n) (hle : m ≤ n) : t'.Quota m := by
  unfold Quota at h ⊢
  rw [hcap]
  omega

theorem Quota.roomy (h : t.Quota n) (hn : 0 < n) : t.Roomy := by
  unfold Quota load at h
  unfold Roomy
  omega

end Table

namespace World

variable {K V τ α : Type} {cb : Callbacks K V τ} {s : Strategy K} {w w' w'' : World K V τ}
  {k : K} {v : V} {m n : Nat}

/-- At most `n` more buckets are taken, in the same array. -/
structure Spends (n : Nat) (w w' : World K V τ) : Prop where
  capacity_eq : w'.table.capacity = w.table.capacity
  heap_eq : w'.heap = w.heap
  load_le : w'.table.load ≤ w.table.load + n

theorem Spends.refl (w : World K V τ) : w.Spends 0 w := ⟨rfl, rfl, Nat.le_refl _⟩

theorem Spends.trans (h : w.Spends m w') (h' : w'.Spends n w'') : w.Spends (m + n) w'' where
  capacity_eq := h'.capacity_eq.trans h.capacity_eq
  heap_eq := h'.heap_eq.trans h.heap_eq
  load_le := by
    have hle := h.load_le
    have hle' := h'.load_le
    omega

theorem Spends.mono (h : w.Spends m w') (hle : m ≤ n) : w.Spends n w' :=
  ⟨h.capacity_eq, h.heap_eq, Nat.le_trans h.load_le (Nat.add_le_add_left hle _)⟩

theorem SameButClient.spends (h : w.SameButClient w') : w.Spends 0 w' := by
  obtain ⟨c, rfl⟩ := h
  exact ⟨rfl, rfl, Nat.le_refl _⟩

/-- What there is of the array: the number of buckets, how many are taken, and the heap. -/
def footing (w : World K V τ) : Nat × Nat × Heap := (w.table.capacity, w.table.load, w.heap)

theorem spends_of_footing (h : w'.footing = w.footing) : w.Spends 0 w' := by
  obtain ⟨hcap, h⟩ := Prod.mk.inj h
  obtain ⟨hload, hheap⟩ := Prod.mk.inj h
  exact ⟨hcap, hheap, Nat.le_of_eq hload⟩

theorem footing_ignoresMark : IgnoresMark (footing : World K V τ → _) := fun _ _ => rfl

/-! ## Calls that keep the footing -/

theorem keeps_onTable_footing {act : Act (Table K V) α}
    (h : ∀ t, act.Ends t (fun _ t' => t.SameLoad t') fun _ t' => t.SameLoad t') :
    Keeps footing (onTable act : Act (World K V τ) α) := by
  have hsame : ∀ (w : World K V τ) t, w.table.SameLoad t →
      footing { w with table := t } = footing w := by
    intro w t ht
    unfold footing
    rw [ht.capacity_eq, ht.load_eq]
  intro w
  rw [ends_onTable]
  exact (h w.table).imp (fun _ t ht => hsame w t ht) (fun _ t ht => hsame w t ht)

theorem release_footing {e : Entry K V} : Keeps footing (release e : Act (World K V τ) Unit) := by
  have hsame : ∀ w w' : World K V τ, w.SameButClient w' → w'.footing = w.footing := by
    rintro w _ ⟨c, rfl⟩
    rfl
  intro w
  exact release_ends.imp (fun _ _ h => hsame _ _ h) (fun _ _ h => hsame _ _ h.1)

theorem releaseRemoved_footing {r : Option (Entry K V)} :
    Keeps footing (releaseRemoved r : Act (World K V τ) Bool) := by
  cases r with
  | none => exact keeps_pure
  | some e => exact release_footing.bind fun _ => keeps_pure

theorem removeAt_footing {i : Nat} :
    Keeps footing (removeAt i : Act (World K V τ) (Option (Entry K V))) :=
  keeps_onTable_footing fun _ => Table.bury_sameLoad

theorem remove_footing (hcb : cb.Keeps footing) : Keeps footing (remove cb k) := by
  refine (locate_keeps footing_ignoresMark hcb).bind fun i? => ?_
  cases i? with
  | none => exact keeps_pure
  | some i => exact removeAt_footing

theorem erase_footing (hcb : cb.Keeps footing) : Keeps footing (erase cb k) :=
  (remove_footing hcb).bind fun _ => releaseRemoved_footing

theorem take_footing (hcb : cb.Keeps footing) : Keeps footing (take cb k) :=
  (remove_footing hcb).bind fun _ => keeps_pure

theorem update_footing (hcb : cb.Keeps footing) {f : V → V} : Keeps footing (update cb k f) := by
  refine (locate_keeps footing_ignoresMark hcb).bind fun i? => ?_
  cases i? with
  | none => exact keeps_pure
  | some i =>
    refine Keeps.get fun _ => keeps_lift.discard.bind fun _ => ?_
    exact keeps_onTable_footing fun _ => Table.updateAt_sameLoad

/-! ## Clearing -/

theorem vacate_heap {n i released : Nat} :
    Keeps (fun w => w.heap) (vacate n i released : Act (World K V τ) Nat) := by
  have hrelease : ∀ e : Entry K V,
      Keeps (fun w => w.heap) (release e : Act (World K V τ) Unit) := by
    intro e w
    exact release_ends.imp (fun _ _ h => h.heap_eq) (fun _ _ h => h.1.heap_eq)
  induction n generalizing i released with
  | zero => exact keeps_pure
  | succ n ih =>
    rw [vacate]
    refine (keeps_onTable fun _ _ => rfl).bind fun e? => ?_
    cases e? with
    | none => exact ih
    | some e => exact (hrelease e).bind fun _ => keeps_lift.bind fun _ => ih

theorem clear_heap : Keeps (fun w => w.heap) (clear : Act (World K V τ) Unit) := by
  refine Keeps.get fun _ => vacate_heap.bind fun _ => Keeps.get fun _ => ?_
  exact keeps_require.bind fun _ => keeps_onTable fun _ _ => rfl

/-- A clear takes nothing, and its buckets are the ones it found. -/
theorem clear_spends (hlim : w.table.capacity < Table.capacityLimit) :
    (clear : Act (World K V τ) Unit).Ends w (fun _ w' => w.Spends 0 w')
      fun _ w' => w.Spends 0 w' := by
  refine ((clear_heap w).and (clear_ends hlim)).imp (fun _ w' h => ?_) (fun _ w' h => ?_)
  · obtain ⟨hheap, _, ht⟩ := h
    refine ⟨by rw [ht, Table.capacity_blank], hheap, ?_⟩
    rw [ht]
    exact Nat.zero_le _
  · obtain ⟨hheap, _, ⟨m, hm⟩, _⟩ := h
    refine ⟨by rw [hm, Table.capacity_vacated], hheap, ?_⟩
    rw [hm]
    exact Nat.le_refl _

/-! ## Insertions -/

theorem makeRoom_of_roomy (hw : w.table.Bounded) (h : w.table.Roomy) :
    makeRoom cb w = .ok () w := by
  rw [makeRoom_eq hw, Table.target_of_roomy h]
  rfl

/-- In a table that has room an insertion takes one bucket at most. -/
theorem insert_spends (hcb : cb.Plain s) (hw : w.AtRest) (h : w.table.Roomy) :
    (insert cb k v).Ends w (fun _ w' => w.Spends 1 w') fun _ w' => w.Spends 1 w' := by
  let w₀ : World K V τ := { w with probing := true }
  have hunmark : ∀ {n : Nat} {w₁ : World K V τ}, w₀.Spends n w₁ →
      w.Spends n { w₁ with probing := false } :=
    fun h => ⟨h.capacity_eq, h.heap_eq, h.load_le⟩
  refine insert_of_room hcb hw (J := fun w₁ => w₁ = w₀) ?_ ?_ ?_
  · unfold Ends
    rw [makeRoom_of_roomy (w := w₀) hw.bounded h]
    exact ⟨rfl, hw.bounded, h⟩
  · rintro f w₁ w₂ rfl hsame _
    exact hunmark (hsame.spends.mono (Nat.zero_le 1))
  · rintro r w₁ w₂ rfl _ _ hheap hstored
    have hspent : w.Spends 1 { w₂ with probing := false } :=
      hunmark ⟨hstored.capacity_eq, hheap, hstored.load_le⟩
    exact releaseRemoved_ends.imp (fun _ _ h => hspent.trans h.2.spends)
      (fun _ _ h => hspent.trans h.1.spends)

/-- With the quota for all pairs, each of them finds room. -/
theorem insertAll_spends (hcb : cb.Plain s) {items : List (K × V)} (hw : w.AtRest)
    (hquota : w.table.Quota items.length) :
    (insertAll cb items).Ends w (fun _ w' => w.Spends items.length w')
      fun _ w' => w.Spends items.length w' := by
  have hloop : (insertAll cb items).Ends w (fun _ w' => w'.AtRest ∧ w.Spends items.length w')
      fun _ w' => w.Spends items.length w' := by
    refine ends_forM (I := fun pre w' => w'.AtRest ∧ w.Spends pre.length w')
      ⟨hw, .refl w⟩ ?_
    rintro pre ⟨k, v⟩ post w₁ hitems ⟨hw₁, hspent⟩
    have hlength : items.length = pre.length + (post.length + 1) := by
      rw [hitems, List.length_append, List.length_cons]
    have hroomy : w₁.table.Roomy := by
      refine (hquota.mono (m := 1) hspent.capacity_eq ?_ (by omega)).roomy (Nat.lt_succ_self 0)
      have hle := hspent.load_le
      omega
    refine ((insert_regular hcb (k := k) (v := v) w₁ hw₁).and
      (insert_spends hcb hw₁ hroomy)).imp (fun _ w₂ h => ?_) (fun _ w₂ h => ?_)
    · rw [List.length_append]
      exact ⟨h.1.atRest hw₁, hspent.trans h.2⟩
    · exact (hspent.trans h.2).mono (by omega)
  exact hloop.imp (fun _ _ h => h.2) (fun _ _ h => h)

end World

namespace Cursor

open World

variable {K V τ : Type} {c : Cursor}

theorem erase_footing : Keeps footing (c.erase : Act (World K V τ) Bool) :=
  removeAt_footing.bind fun _ => releaseRemoved_footing

theorem take_footing : Keeps footing (c.take : Act (World K V τ) (Option (K × V))) :=
  removeAt_footing.bind fun _ => keeps_pure

theorem sweep_footing {stride n visited : Nat} :
    Keeps footing (sweep stride n visited c : Act (World K V τ) (List K)) := by
  induction n generalizing visited c with
  | zero => exact keeps_pure
  | succ n ih =>
    rw [sweep]
    refine Keeps.get fun w => ?_
    dsimp only
    split
    · exact keeps_pure
    · exact (Keeps.onlyIf erase_footing.discard).bind fun _ =>
        Keeps.get fun _ => keeps_lift.bind fun _ => ih.bind fun _ => keeps_pure

end Cursor

namespace Session

open World

variable {K V α : Type} {s : Strategy K} {session session' : Session K V} {r : Request K V}

/-- A request takes no more buckets than it may put pairs into the map. The block that a
snapshot takes is not one for buckets. -/
structure Spends (r : Request K V) (session session' : Session K V) : Prop where
  capacity_eq : session'.world.table.capacity = session.world.table.capacity
  heap_eq : r.isSnapshot = false → session'.world.heap = session.world.heap
  load_le : session'.world.table.load ≤ session.world.table.load + r.insertions

theorem spends_of_spends {act : Act (World K V (Journal K V)) α} {g : α → Reply K V}
    (h : act.Ends session.world (fun _ w => session.world.Spends r.insertions w)
      fun _ w => session.world.Spends r.insertions w) :
    (onWorld (act >>= fun a => pure (g a))).Ends session
      (fun _ session' => Spends r session session')
      fun _ session' => Spends r session session' := by
  rw [ends_onWorld, ends_bind]
  exact h.imp (fun _ _ h => ⟨h.capacity_eq, fun _ => h.heap_eq, h.load_le⟩)
    (fun _ _ h => ⟨h.capacity_eq, fun _ => h.heap_eq, h.load_le⟩)

theorem spends_of_footing {act : Act (World K V (Journal K V)) α} {g : α → Reply K V}
    (h : Keeps footing act) :
    (onWorld (act >>= fun a => pure (g a))).Ends session
      (fun _ session' => Spends r session session') fun _ session' => Spends r session session' :=
  spends_of_spends ((h session.world).imp
    (fun _ _ h => (World.spends_of_footing h).mono (Nat.zero_le _))
    (fun _ _ h => (World.spends_of_footing h).mono (Nat.zero_le _)))

theorem spends_of_world_eq (ht : session'.world.table = session.world.table)
    (hheap : session'.world.heap = session.world.heap) : Spends r session session' :=
  ⟨by rw [ht], fun _ => hheap, by rw [ht]; exact Nat.le_add_right _ _⟩

/-- A request that has the quota for its insertions, and does not ask for another array,
gets along with the one there is. -/
theorem handle_spends (hw : session.world.AtRest) (hr : r.resizes = false)
    (hquota : session.world.table.Quota r.insertions) :
    (handle s r).Ends session (fun _ session' => Spends r session session')
      fun _ session' => Spends r session session' := by
  have hcb : (s.callbacks : Callbacks K V (Journal K V)).Plain s := s.callbacks_plain
  have hkeeps : (s.callbacks : Callbacks K V (Journal K V)).Keeps footing :=
    Strategy.callbacks_keeps fun _ _ _ => rfl
  have hmark : IgnoresMark (footing : World K V (Journal K V) → _) := footing_ignoresMark
  cases r with
  | lookup l => exact spends_of_footing (answer_keeps hmark hkeeps)
  | nested l via inquiry =>
    exact spends_of_footing (g := fun a => .nested a.1 a.2)
      (answerNested_keeps hmark (fun _ _ _ => rfl) fun _ _ => rfl)
  | getEach ks => exact spends_of_footing (.mapM fun _ => get?_keeps hmark hkeeps)
  | containsEach ks => exact spends_of_footing (.mapM fun _ => contains_keeps hmark hkeeps)
  | update k f => exact spends_of_footing (World.update_footing hkeeps)
  | insert k v =>
    exact spends_of_spends (insert_spends hcb hw (hquota.roomy (Nat.lt_succ_self 0)))
  | insertAll items => exact spends_of_spends (insertAll_spends hcb hw hquota)
  | erase k => exact spends_of_footing (World.erase_footing hkeeps)
  | eraseEach ks => exact spends_of_footing (.mapM fun _ => World.erase_footing hkeeps)
  | take k => exact spends_of_footing (World.take_footing hkeeps)
  | rehash capacity => exact absurd hr (by simp [Request.resizes])
  | reserve extra => exact absurd hr (by simp [Request.resizes])
  | clear => exact spends_of_spends (clear_spends hw.bounded.capacity_lt)
  | setKeyHook hook => exact spends_of_world_eq rfl rfl
  | setValueHook hook => exact spends_of_world_eq rfl rfl
  | summary => exact spends_of_footing summary_keeps
  | hash k => exact spends_of_footing (hkeeps.hash k)
  | equal a b => exact spends_of_footing (hkeeps.equals a b)
  | probe i capacity => exact spends_of_footing (hkeeps.probe i capacity)
  | entries => exact spends_of_world_eq rfl rfl
  | items => exact spends_of_footing items_keeps
  | walk part limit => exact spends_of_footing walk_keeps
  | updateWalk part limit f =>
    refine spends_of_footing (Keeps.get fun _ => keeps_lift.bind fun _ => Keeps.bind ?_ fun _ =>
      keeps_lift.bind fun _ => keeps_pure)
    exact keeps_onTable_footing fun _ => Table.updateAll_sameLoad
  | snapshot part positions =>
    have htable : Keeps (fun w => w.table)
        (inspectSnapshot part positions : Act (World K V (Journal K V)) _) :=
      inspectSnapshot_keeps fun _ _ => rfl
    have hspends : ∀ w : World K V (Journal K V), w.table = session.world.table →
        Spends (.snapshot part positions) session ⟨w, session.cursors⟩ := by
      intro w ht
      refine ⟨by rw [ht], fun h => absurd h (by simp [Request.isSnapshot]), ?_⟩
      rw [ht]
      exact Nat.le_refl _
    refine ends_onWorld.mpr ?_
    rw [ends_bind]
    exact (htable session.world).imp (fun _ w h => hspends w h) (fun _ w h => hspends w h)
  | cursor c => exact spends_of_world_eq rfl rfl
  | advance c =>
    rw [ends_of_eq (handle_advance hw.bounded.capacity_lt)]
    exact spends_of_world_eq rfl rfl
  | copyCursor c source => exact spends_of_world_eq rfl rfl
  | sameCursor c₁ c₂ => exact spends_of_world_eq rfl rfl
  | look c => exact spends_of_world_eq rfl rfl
  | updateAt c f =>
    exact spends_of_footing (keeps_onTable_footing fun _ => Table.updateAt_sameLoad)
  | eraseAt c => exact spends_of_footing Cursor.erase_footing
  | takeAt c => exact spends_of_footing Cursor.take_footing
  | sweep stride => exact spends_of_footing (Keeps.get fun _ => Cursor.sweep_footing)

theorem step_spends (hw : session.world.AtRest) (hr : r.resizes = false)
    (hquota : session.world.table.Quota r.insertions) :
    Spends r session (step s r session).2 := by
  rcases step_cases (handle_spends (s := s) hw hr hquota) with
    ⟨_, _, hstep, h⟩ | ⟨_, _, hstep, h⟩
  · rw [hstep]; exact h
  · rw [hstep]; exact h

theorem Spends.not_rebuilds (h : Spends r session (step s r session).2) :
    ¬ Rebuilds s r session := by
  rintro ⟨hsnapshot, hne⟩
  exact hne (by rw [h.heap_eq hsnapshot])

/-- With the quota for all insertions of a run, no request of the run takes an array. -/
theorem run_spends (h : Reachable s session) {rs : List (Request K V)}
    (hrs : ∀ r ∈ rs, r.resizes = false)
    (hquota : session.world.table.Quota (rs.map Request.insertions).sum) :
    ∀ m ∈ trace s rs session, ¬ Rebuilds s m.2 m.1 ∧
      (step s m.2 m.1).2.world.table.capacity = session.world.table.capacity := by
  induction rs generalizing session with
  | nil => exact fun m hm => absurd hm List.not_mem_nil
  | cons r rs ih =>
    obtain ⟨hr, hrest⟩ := List.forall_mem_cons.mp hrs
    rw [List.map_cons, List.sum_cons] at hquota
    have hspends : Spends r session (step s r session).2 :=
      step_spends h.atRest hr (hquota.mono rfl (by omega) (by omega))
    -- what the first request spends is missing from the quota of the others
    have hnext : (step s r session).2.world.table.Quota (rs.map Request.insertions).sum := by
      refine hquota.mono hspends.capacity_eq ?_ (by omega)
      have hle := hspends.load_le
      omega
    refine List.forall_mem_cons.mpr ⟨⟨hspends.not_rebuilds, hspends.capacity_eq⟩, ?_⟩
    intro m hm
    obtain ⟨hrebuilds, hcap⟩ := ih (h.step r) hrest hnext m hm
    exact ⟨hrebuilds, hcap.trans hspends.capacity_eq⟩

end Session

end OpenAddressing
