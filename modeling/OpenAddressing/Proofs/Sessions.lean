import OpenAddressing.Proofs.Calls
import OpenAddressing.Proofs.Clearing
import OpenAddressing.Proofs.Nested

/-!
# What a session goes through

Every request but one moves the table by changes, whether it is answered or stopped
(`handle_ends`); the one is `clear`, and what it does to the table is known as well. So
the invariants of tables become invariants of sessions, by one induction each:

* In every session that can be reached, the map is at rest and its counters are bounded
  (`Reachable.atRest`).
* In every session that can be reached without a hook stopping a clear, the table is
  sound (`Intact.sound`).

A session is *intact* if no hook has ever given up while the map was cleared. It may be
full of other faults.
-/

namespace OpenAddressing

open Act World

variable {K V : Type} {s : Strategy K}

namespace Session

variable {session session' : Session K V}

theorem ends_onWorld {α : Type} {act : Act (World K V (Journal K V)) α}
    {Q : α → Session K V → Prop} {E : Fault → Session K V → Prop} :
    (onWorld act).Ends session Q E ↔
      act.Ends session.world (fun a w => Q a ⟨w, session.cursors⟩) fun f w =>
        E f ⟨w, session.cursors⟩ := by
  obtain ⟨world, cursors⟩ := session
  unfold Ends onWorld
  dsimp only
  cases act world <;> rfl

/-- The table goes through changes, and the session is at rest again if it was before. -/
structure Moves (s : Strategy K) (session session' : Session K V) : Prop where
  steps : Table.Steps s session.world.table session'.world.table
  probing : session'.world.probing = session.world.probing

theorem Moves.of_evolves {w : World K V (Journal K V)} {cursors : Nat → Cursor}
    (h : Evolves s session.world w) : Moves s session ⟨w, cursors⟩ :=
  ⟨h.steps, h.probing⟩

/-- The reasons for which a request is stopped: one of the map's, or, if the request is
to call the probe function, that this gives up. -/
inductive Stop (s : Strategy K) (r : Request K V) (session session' : Session K V) :
    Fault → Prop where
  | cause {f : Fault} : Cause s session.world session'.world f → Stop s r session session' f
  | probe {f : Fault} {i capacity : Nat} : r = .probe i capacity →
      s.probe i capacity = .error f → Stop s r session session' f

theorem ends_of_regular {α : Type} {r : Request K V} {act : Act (World K V (Journal K V)) α}
    {g : α → Reply K V} (h : Regular s act) (hw : session.world.AtRest) :
    (onWorld (act >>= fun a => pure (g a))).Ends session
      (fun _ session' => Moves s session session')
      fun f session' => Moves s session session' ∧ Stop s r session session' f := by
  rw [ends_onWorld]
  have hreg : Regular s (act >>= fun a => pure (g a)) := h.bind fun _ => regular_pure
  refine (hreg _ hw).imp (fun _ w h => ?_) (fun f w h => ?_)
  · exact .of_evolves h
  · exact ⟨.of_evolves h.1, .cause h.2⟩

/-- A cursor that moves on is resolved against the table. -/
theorem handle_advance_eq {r : Nat} : handle s (.advance r) session =
    (lift ((session.cursors r).advance session.world.table) >>= writeCursor r :
      Act (Session K V) _) session := rfl

/-- A cursor moves on without a fault. -/
theorem handle_advance {r : Nat}
    (hlim : session.world.table.capacity < Table.capacityLimit) :
    let t := session.world.table
    let c := session.cursors r
    let c' := if c.index < t.capacity then Cursor.seat t (c.index + 1) else c
    handle s (.advance r) session = writeCursor r c' session := by
  intro t c c'
  have hadvance : c.advance t = .ok c' := Cursor.advance_eq hlim
  rw [handle_advance_eq, hadvance]
  rfl

/-- Every request but clearing moves the session, whatever comes of it. -/
theorem handle_ends {r : Request K V} (hr : r ≠ .clear) (hw : session.world.AtRest) :
    (handle s r).Ends session (fun _ session' => Moves s session session')
      fun f session' => Moves s session session' ∧ Stop s r session session' f := by
  have hcb : (s.callbacks : Callbacks K V (Journal K V)).Plain s := s.callbacks_plain
  cases r with
  | clear => exact absurd rfl hr
  | lookup l => exact ends_of_regular (answer_regular hcb) hw
  | nested l via inquiry =>
    refine ends_onWorld.mpr ?_
    rw [ends_bind]
    refine answerNested_still.imp (fun r w h => ?_) (fun _ _ h => h.elim)
    exact ⟨by rw [h.2], h.1.probing⟩
  | getEach ks => exact ends_of_regular (.mapM fun _ => get?_regular hcb) hw
  | containsEach ks => exact ends_of_regular (.mapM fun _ => contains_regular hcb) hw
  | update k f => exact ends_of_regular (World.update_regular hcb) hw
  | insert k v => exact ends_of_regular (insert_regular hcb) hw
  | insertAll items => exact ends_of_regular (insertAll_regular hcb) hw
  | erase k => exact ends_of_regular (World.erase_regular hcb) hw
  | eraseEach ks => exact ends_of_regular (.mapM fun _ => World.erase_regular hcb) hw
  | take k => exact ends_of_regular (World.take_regular hcb) hw
  | rehash capacity => exact ends_of_regular (rehash_regular hcb) hw
  | reserve extra => exact ends_of_regular (reserve_regular hcb) hw
  | setKeyHook hook => exact ⟨.refl, rfl⟩
  | setValueHook hook => exact ⟨.refl, rfl⟩
  | summary => exact ends_of_regular summary_regular hw
  | hash k => exact ends_of_regular (regular_of_answers (hcb.hash k)) hw
  | equal a b => exact ends_of_regular (regular_of_answers (hcb.equals a b)) hw
  | probe i capacity =>
    refine ends_onWorld.mpr ?_
    rw [ends_bind]
    refine (hcb.probe i capacity _).imp (fun _ w h => ?_) (fun f w h => ?_)
    · exact .of_evolves h.2.evolves
    · exact ⟨.of_evolves h.2.evolves, .probe rfl h.1⟩
  | entries => exact ⟨.refl, rfl⟩
  | items => exact ends_of_regular items_regular hw
  | walk part limit => exact ends_of_regular walk_regular hw
  | updateWalk part limit f => exact ends_of_regular updateWalk_regular hw
  | snapshot part positions => exact ends_of_regular inspectSnapshot_regular hw
  | cursor r => exact ⟨.refl, rfl⟩
  | advance r =>
    rw [ends_of_eq (handle_advance hw.bounded.capacity_lt)]
    exact ⟨.refl, rfl⟩
  | copyCursor r source => exact ⟨.refl, rfl⟩
  | sameCursor r₁ r₂ => exact ⟨.refl, rfl⟩
  | look r => exact ⟨.refl, rfl⟩
  | updateAt r f => exact ends_of_regular Cursor.update_regular hw
  | eraseAt r => exact ends_of_regular Cursor.erase_regular hw
  | takeAt r => exact ends_of_regular Cursor.take_regular hw
  | sweep stride => exact ends_of_regular World.sweep_regular hw

/-- Clearing is answered with a table as good as new; else some buckets are empty, and
either a hook has given up or the counters had been wrong. -/
theorem handle_clear_ends (s : Strategy K) (hw : session.world.AtRest) :
    (handle s (.clear : Request K V)).Ends session
      (fun _ session' => session'.world.table = .blank session.world.table.capacity ∧
        session'.world.probing = session.world.probing)
      fun f session' => (∃ m, session'.world.table = session.world.table.vacated m) ∧
        session'.world.probing = session.world.probing ∧
        ((session.world.ClearStopped ∧ session.world.HookRaises f) ∨
          (¬ session.world.table.Exact ∧
            ∃ released counted, f = .clearMiscount released counted)) := by
  refine ends_onWorld.mpr ?_
  rw [ends_bind]
  refine (clear_ends hw.bounded.capacity_lt).imp (fun _ w h => ?_) (fun f w h => ?_)
  · exact ⟨h.2, h.1.probing⟩
  · exact ⟨h.2.1, h.1.probing, h.2.2⟩

/-- Whatever comes of it, a cursor that moves on leaves the world as it is. -/
theorem advance_world {r : Nat} : (step s (.advance r) session).2.world = session.world := by
  unfold step
  rw [handle_advance_eq]
  cases (session.cursors r).advance session.world.table with
  | ok c => rfl
  | error f => rfl

/-- A step of the session is the run of its request. -/
theorem step_cases {r : Request K V} {Q : Reply K V → Session K V → Prop}
    {E : Fault → Session K V → Prop} (h : (handle s r).Ends session Q E) :
    (∃ reply session', step s r session = (.ok reply, session') ∧ Q reply session') ∨
      ∃ f session', step s r session = (.error f, session') ∧ E f session' := by
  unfold Ends at h
  unfold step
  cases hrun : handle s r session with
  | ok reply session' => rw [hrun] at h; exact Or.inl ⟨reply, session', rfl, h⟩
  | error f session' => rw [hrun] at h; exact Or.inr ⟨f, session', rfl, h⟩

/-- A step that answers has a reply. -/
theorem exists_reply {stepped : Except Fault (Reply K V) × Session K V}
    (h : stepped.1.isOk = true) : ∃ reply, stepped = (.ok reply, stepped.2) := by
  obtain ⟨result, left⟩ := stepped
  cases result with
  | ok reply => exact ⟨reply, rfl⟩
  | error f => exact absurd h (by simp [Except.isOk, Except.toBool])

/-- A step that does not answer stops with a fault. -/
theorem exists_fault {stepped : Except Fault (Reply K V) × Session K V}
    (h : stepped.1.isOk = false) : ∃ f, stepped = (.error f, stepped.2) := by
  obtain ⟨reply, session'⟩ := stepped
  cases reply with
  | ok reply => exact absurd h (by simp [Except.isOk, Except.toBool])
  | error f => exact ⟨f, rfl⟩

/-- The step of a request that is answered by an act on the world. -/
theorem step_of_ok {α : Type} {r : Request K V} {act : Act (World K V (Journal K V)) α}
    {g : α → Reply K V} {a : α} {w : World K V (Journal K V)}
    (hr : handle s r session = onWorld (act >>= fun a => pure (g a)) session)
    (h : act session.world = .ok a w) :
    step s r session = (.ok (g a), ⟨w, session.cursors⟩) := by
  have hbind : (act >>= fun a => pure (g a)) session.world = .ok (g a) w := bind_of_ok h
  unfold step
  rw [hr]
  unfold onWorld
  dsimp only
  rw [hbind]

theorem step_of_error {α : Type} {r : Request K V} {act : Act (World K V (Journal K V)) α}
    {g : α → Reply K V} {f : Fault} {w : World K V (Journal K V)}
    (hr : handle s r session = onWorld (act >>= fun a => pure (g a)) session)
    (h : act session.world = .error f w) :
    step s r session = (.error f, ⟨w, session.cursors⟩) := by
  have hbind : (act >>= fun a => pure (g a)) session.world = .error f w := bind_of_error h
  unfold step
  rw [hr]
  unfold onWorld
  dsimp only
  rw [hbind]

theorem step_congr {q q' : Request K V} {act act' : Act (World K V (Journal K V)) (Reply K V)}
    {w : World K V (Journal K V)} (hq : handle s q session = onWorld act session)
    (hq' : handle s q' ⟨w, session.cursors⟩ = onWorld act' ⟨w, session.cursors⟩)
    (h : act session.world = act' w) : step s q session = step s q' ⟨w, session.cursors⟩ := by
  unfold step
  rw [hq, hq']
  unfold onWorld
  dsimp only
  rw [h]

/-- What clearing comes to in a session at rest. -/
theorem clear_step (hw : session.world.AtRest) :
    (∃ session', step s (.clear : Request K V) session = (.ok .done, session') ∧
        session.world.table.entries.length = session.world.table.live) ∨
      ∃ f session', step s (.clear : Request K V) session = (.error f, session') ∧
        session.world.SameRest session'.world ∧
        session.world.ClearStop session'.world f := by
  have hends : (handle s (.clear : Request K V)).Ends session
      (fun reply _ => reply = .done ∧
        session.world.table.entries.length = session.world.table.live)
      fun f session' => session.world.SameRest session'.world ∧
        session.world.ClearStop session'.world f := by
    refine ends_onWorld.mpr ?_
    rw [ends_bind]
    exact (clear_stops hw.bounded.capacity_lt).imp (fun _ _ h => ⟨rfl, h.2.2⟩) (fun _ _ h => h)
  rcases step_cases hends with ⟨_, session', hstep, rfl, hlength⟩ | ⟨f, session', hstep, h⟩
  · exact Or.inl ⟨session', hstep, hlength⟩
  · exact Or.inr ⟨f, session', hstep, h⟩

/-- The end of the map is a clear, and stops where a clear does. -/
theorem finish_stops (hw : session.world.AtRest) {f : Fault}
    (hf : (finish session).1 = .error f) : ∃ w', session.world.ClearStop w' f := by
  have hends : (dispose : Act (World K V (Journal K V)) Unit).Ends session.world
      (fun _ _ => True) fun f _ => ∃ w', session.world.ClearStop w' f := by
    unfold dispose
    rw [ends_andFinally]
    exact (clear_stops hw.bounded.capacity_lt).imp (fun _ _ _ => trivial) fun _ w' h => ⟨w', h.2⟩
  unfold finish at hf
  cases hrun : dispose session.world with
  | ok _ w => rw [hrun] at hf; exact absurd hf (by simp)
  | error g w =>
    rw [hrun] at hf
    exact (Except.error.inj hf) ▸ hends.of_error hrun

/-- A new session is what a rehash makes of a table without buckets. -/
theorem start_grown {capacity : Nat} {keyHook : Option (Hook (Journal K V) K)}
    {valueHook : Option (Hook (Journal K V) V)}
    (h : Session.start s capacity keyHook valueHook = .ok session) :
    let w₀ : World K V (Journal K V) := { keyHook, valueHook, client := [] }
    w₀.SameRest session.world ∧ Table.Grown s w₀.table session.world.table := by
  intro w₀
  unfold Session.start create at h
  have hrehash := rehash_grown s.callbacks_plain capacity (w := w₀)
  split at h
  · rename_i w hrun
    have hw : { world := w } = session := by simpa [Except.map] using h
    rw [← hw]
    exact hrehash.of_ok hrun
  · exact absurd h (by simp [Except.map])

theorem atRest_of_start {capacity : Nat} {keyHook : Option (Hook (Journal K V) K)}
    {valueHook : Option (Hook (Journal K V) V)}
    (h : Session.start s capacity keyHook valueHook = .ok session) : session.world.AtRest := by
  obtain ⟨hrest, hgrown⟩ := start_grown h
  refine (evolves_of_grown hrest hgrown).atRest ⟨?_, rfl⟩
  exact Table.Bounded.blank (c := 0) (by decide)

/-- Clearing keeps the buckets, wherever it stops. -/
theorem capacity_clear (hw : session.world.AtRest) :
    (Session.step s (.clear : Request K V) session).2.world.table.capacity =
      session.world.table.capacity := by
  rcases step_cases (handle_clear_ends s hw) with
    ⟨_, session', hstep, ht, _⟩ | ⟨f, session', hstep, ⟨m, ht⟩, _⟩
  · rw [hstep]
    show session'.world.table.capacity = _
    rw [ht, Table.capacity_blank]
  · rw [hstep]
    show session'.world.table.capacity = _
    rw [ht, Table.capacity_vacated]

/-- No request disturbs a session at rest for longer than it takes. -/
theorem atRest_step (hw : session.world.AtRest) (r : Request K V) :
    (Session.step s r session).2.world.AtRest := by
  -- clearing is no change of the table, and so is a case of its own
  by_cases hr : r = .clear
  · subst hr
    rcases step_cases (handle_clear_ends s hw) with
      ⟨_, session', hstep, ht, hp⟩ | ⟨f, session', hstep, ⟨m, ht⟩, hp, _⟩
    · rw [hstep]
      refine ⟨?_, hp.trans hw.probing_eq⟩
      rw [ht]
      exact .blank hw.bounded.capacity_lt
    · rw [hstep]
      refine ⟨?_, hp.trans hw.probing_eq⟩
      rw [ht]
      exact hw.bounded.vacated
  · rcases step_cases (handle_ends (s := s) hr hw) with
      ⟨_, session', hstep, hmoves⟩ | ⟨f, session', hstep, hmoves, _⟩
    · rw [hstep]
      exact ⟨hmoves.steps.bounded hw.bounded, hmoves.probing.trans hw.probing_eq⟩
    · rw [hstep]
      exact ⟨hmoves.steps.bounded hw.bounded, hmoves.probing.trans hw.probing_eq⟩

/-! ## Reachable sessions -/

/-- The sessions that some run comes to. -/
inductive Reachable (s : Strategy K) : Session K V → Prop where
  | start {capacity : Nat} {keyHook : Option (Hook (Journal K V) K)}
      {valueHook : Option (Hook (Journal K V) V)} {session : Session K V} :
      Session.start s capacity keyHook valueHook = .ok session → Reachable s session
  | step {session : Session K V} (r : Request K V) : Reachable s session →
      Reachable s (Session.step s r session).2

/-- The sessions that some run comes to in which no hook gives up during a clear. -/
inductive Intact (s : Strategy K) : Session K V → Prop where
  | start {capacity : Nat} {keyHook : Option (Hook (Journal K V) K)}
      {valueHook : Option (Hook (Journal K V) V)} {session : Session K V} :
      Session.start s capacity keyHook valueHook = .ok session → Intact s session
  | step {session : Session K V} (r : Request K V) : Intact s session →
      (r = .clear → ¬ session.world.ClearStopped) → Intact s (Session.step s r session).2

theorem Intact.reachable (h : Intact s session) : Reachable s session := by
  induction h with
  | start hstart => exact .start hstart
  | step r _ _ ih => exact .step r ih

/-- The session after any list of requests is reachable. -/
theorem Reachable.run (h : Reachable s session) (rs : List (Request K V)) :
    Reachable s (Session.run s rs session).2 := by
  induction rs generalizing session with
  | nil => exact h
  | cons r rs ih => exact ih (h.step r)

theorem Reachable.atRest (h : Reachable s session) : session.world.AtRest := by
  induction h with
  | start hstart => exact atRest_of_start hstart
  | step r _ ih => exact atRest_step ih r

theorem sound_of_start {capacity : Nat} {keyHook : Option (Hook (Journal K V) K)}
    {valueHook : Option (Hook (Journal K V) V)}
    (h : Session.start s capacity keyHook valueHook = .ok session) :
    Table.Sound s session.world.table :=
  (start_grown h).2.steps.sound (Table.Sound.blank (c := 0))

/-- A clear that no hook stops leaves a sound table. -/
theorem sound_clear (hw : session.world.AtRest) (h : Table.Sound s session.world.table)
    (hstopped : ¬ session.world.ClearStopped) :
    Table.Sound s (Session.step s (.clear : Request K V) session).2.world.table := by
  rcases step_cases (handle_clear_ends s hw) with
    ⟨_, session', hstep, ht, _⟩ | ⟨f, session', hstep, _, _, ⟨hstop, _⟩ | ⟨hne, _⟩⟩
  · rw [hstep]
    show Table.Sound s session'.world.table
    rw [ht]
    exact .blank
  · exact absurd hstop hstopped
  · -- the counters were exact before, so the clear has not found them wrong
    exact absurd h.exact hne

theorem Intact.sound (h : Intact s session) : Table.Sound s session.world.table := by
  induction h with
  | start hstart => exact sound_of_start hstart
  | @step session r hintact hclear ih =>
    by_cases hr : r = .clear
    · subst hr
      exact sound_clear hintact.reachable.atRest ih (hclear rfl)
    · rcases step_cases (handle_ends (s := s) hr hintact.reachable.atRest) with
        ⟨_, session', hstep, hmoves⟩ | ⟨f, session', hstep, hmoves, _⟩
      · rw [hstep]
        exact hmoves.steps.sound ih
      · rw [hstep]
        exact hmoves.steps.sound ih

/-- A run without clears stays intact. -/
theorem Intact.run (h : Intact s session) (rs : List (Request K V)) (hrs : ∀ r ∈ rs, r ≠ .clear) :
    Intact s (Session.run s rs session).2 := by
  induction rs generalizing session with
  | nil => exact h
  | cons r rs ih =>
    have hr : r ≠ .clear := hrs r List.mem_cons_self
    refine ih (h.step r fun hclear => absurd hclear hr) fun r' hr' => ?_
    exact hrs r' (List.mem_cons_of_mem _ hr')

/-- In every intact session the counters are exact, every entry carries the hash of its
key and lies on the path of this hash behind buckets that are not empty, and if the
equality is lawful then no two buckets hold equal keys. The strategy is arbitrary: the
probe function may be stuck, leave the table or give up, and the equality need not even
be reflexive. -/
theorem Intact.representation (h : Intact s session) :
    let t := session.world.table
    (t.live = t.fullCount ∧ t.tombs = t.tombCount) ∧
    (∀ i e, t.entryAt? i = some e → e.hash = s.hash e.key) ∧
    (∀ i e, t.entryAt? i = some e → ∃ j < t.capacity,
      s.probe.nth? t.capacity (Probe.home e.hash t.capacity) j = some i ∧
      (∀ m ≤ j, ∃ x < t.capacity,
        s.probe.nth? t.capacity (Probe.home e.hash t.capacity) m = some x) ∧
      ∀ m < j, ∀ x, s.probe.nth? t.capacity (Probe.home e.hash t.capacity) m = some x →
        t.buckets[x]? ≠ some .empty) ∧
    (s.Lawful → ∀ i j a b, i ≠ j → t.entryAt? i = some a → t.entryAt? j = some b →
      s.equals a.key b.key = false) := by
  intro t
  have hsound : Table.Sound s t := h.sound
  refine ⟨⟨hsound.exact.live_eq, hsound.exact.tombs_eq⟩, fun i e he => ?_, fun i e he => ?_,
    fun hlaw i j a b hij ha hb => ?_⟩
  · exact hsound.hashed e (Table.mem_entries_iff.mpr ⟨i, he⟩)
  · obtain ⟨j, hj, hi, hpath⟩ := hsound.reached i e he
    refine ⟨j, hj, hi, fun m hm => ?_, hpath⟩
    obtain ⟨x, hx⟩ := Probe.exists_nth?_of_le hi hm
    exact ⟨x, Probe.nth?_lt (Probe.home_lt (by omega)) hx, hx⟩
  · exact Table.forall_of_pairwise_entries (fun _ _ => Table.equals_false_symm hlaw)
      (hsound.distinct hlaw) hij ha hb

/-- A run with two faults: the stuck probe function finds no bucket for a key that the
equality does not accept even for itself, and the key hook gives up after an eviction. -/
theorem representation_after_faults :
    let s : Strategy Nat :=
      { hash := fun k => k.toUInt64, equals := fun _ _ => false, probe? := some Probe.stuck }
    let hook : Hook (Journal Nat Nat) Nat := Hook.failing (Hook.recordKey "keys") "no"
    let requests : List (Request Nat Nat) :=
      [.insert 1 10, .insert 1 20, .insert 2 30, .setKeyHook (some hook), .cursor 0, .eraseAt 0]
    let session₀ : Session Nat Nat :=
      { world := { table := .blank 4, heap := ⟨1, 0⟩, client := [] } }
    let t := (run s requests session₀).2.world.table
    Session.start s 4 none none = .ok session₀ ∧
      (run s requests session₀).1.map Except.isOk = [true, false, true, true, true, false] ∧
      t.buckets = #[.empty, .tombstone, .full ⟨2, 2, 30⟩, .empty] ∧
      t.live = t.fullCount ∧ t.tombs = t.tombCount := by
  intro s hook requests session₀ t
  have hstart : Session.start s 4 none none = .ok session₀ := rfl
  have hintact : Intact s (run s requests session₀).2 :=
    (Intact.start hstart).run requests (by simp [requests])
  exact ⟨hstart, by decide +kernel, by decide +kernel, hintact.representation.1⟩

end Session

end OpenAddressing
