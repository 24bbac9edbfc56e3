import OpenAddressing.Proofs.Deliveries
import OpenAddressing.Proofs.Limits
import OpenAddressing.Proofs.Remnants

/-!
# What a stopped call leaves

An insertion has four places to stop at. It may ask for too many buckets, and then nothing
has happened. The growth may stop on the way, which is the subject of
`OpenAddressing.Proofs.Remnants`. Then the search for a slot may not come to one: the
entries are all there, in the array that has been made for one more. And last, a hook may
give up on the entry that has been replaced.

By then the call has settled the table, and so it has when a hook gives up on an entry that
is erased. `Releases` splits a call in two: a *core* that calls no hook, and a release that
does not touch the table. So the table that is left is the same whatever the hooks do.
-/

namespace OpenAddressing

open Act World

namespace Table

variable {K V : Type} {t : Table K V} {c : Nat}

/-- The first array has 256 buckets, and every other one twice as many as the one before. -/
theorem target_insertion_eq_some (h : t.target .insertion = some c) :
    ¬ t.Roomy ∧ c = if t.capacity = 0 then 256 else 2 * t.capacity := by
  refine ⟨fun hroomy => ?_, ?_⟩
  · rw [target_of_roomy hroomy] at h
    exact absurd h (by simp)
  · rw [target_insertion] at h
    split at h
    · rename_i h0
      rw [if_pos h0]
      exact (Option.some.inj h).symm
    · rename_i hpos
      rw [if_neg hpos]
      split at h
      · exact absurd h (by simp)
      · exact (Option.some.inj h).symm

end Table

namespace World

variable {K V τ α : Type} {cb : Callbacks K V τ} {s : Strategy K} {w w₁ w₂ : World K V τ}
  {k : K} {v : V} {f : Fault}

/-! ## Searches for a slot -/

/-- An insertion that stops although there is room has changed nothing but the client since
there was. -/
theorem insertSlot_of_makeRoom (hcb : cb.Plain s) (hw : w.table.Bounded)
    (hroom : makeRoom cb w = .ok () w₁) (hstop : insertSlot cb k v w = .error f w₂) :
    w₁.SameButClient w₂ ∧
      Seek.plainAcquire s.probe (s.equals k) (s.hash k) w₁.table.buckets = .error f := by
  have hends := insertSlot_of_room hcb.follows (k := k) (v := v) (w := w) (J := fun w' => w' = w₁)
    (E := fun f w' => w₁.SameButClient w' ∧
      Seek.plainAcquire s.probe (s.equals k) (s.hash k) w₁.table.buckets = .error f) ?_ ?_
  · exact hends.of_error hstop
  · have hmade := makeRoom_ends hcb hw
    unfold Ends at hmade ⊢
    rw [hroom] at hmade ⊢
    exact ⟨rfl, hmade.2.1.steps.bounded hw, hmade.2.2⟩
  · rintro f w₁ w' rfl _ hsame hrun
    exact ⟨hsame, hrun.resolve_right id⟩

/-! ## Releases -/

/-- The call comes to what its core comes to, and then releases what this has taken out of
the table: it may stop there, but the table stays. -/
def Releases (core : Act (World K V τ) (Option (Entry K V))) (whole : Act (World K V τ) α) :
    Prop :=
  ∀ w, w.AtRest → (∀ f w', core w = .error f w' → whole w = .error f w') ∧
    ∀ r w', core w = .ok r w' → whole.Ends w (fun _ w'' => w''.table = w'.table)
      fun f w'' => w''.table = w'.table ∧ r.isSome ∧ w.HookRaises f

theorem releaseRemoved_table {r : Option (Entry K V)} :
    (releaseRemoved r).Ends w (fun _ w' => w'.table = w.table)
      fun f w' => w'.table = w.table ∧ r.isSome ∧ w.HookRaises f := by
  cases r with
  | none => exact rfl
  | some e =>
    exact releaseRemoved_ends.imp (fun _ _ h => h.2.table_eq)
      (fun _ _ h => ⟨h.1.table_eq, rfl, h.2⟩)

theorem releases_bind {core : Act (World K V τ) (Option (Entry K V))}
    (hrest : ∀ w, w.AtRest → core.Ends w (fun _ w' => w.SameRest w') fun _ _ => True) :
    Releases core (core >>= releaseRemoved) := by
  refine fun w hw => ⟨fun f w' hrun => bind_of_error hrun, fun r w' hrun => ?_⟩
  have hsame := hrest w hw
  unfold Ends at hsame ⊢
  rw [hrun] at hsame
  rw [bind_of_ok hrun]
  exact releaseRemoved_table.imp (fun _ _ h => h)
    (fun _ _ h => ⟨h.1, h.2.1, h.2.2.of_sameRest hsame⟩)

theorem erase_releases (hcb : cb.Plain s) : Releases (remove cb k) (erase cb k) :=
  releases_bind fun _ hw =>
    (remove_ends hcb hw.bounded).imp (fun _ _ h => h.1) (fun _ _ _ => trivial)

theorem insert_releases (hcb : cb.Plain s) :
    Releases (guarded (insertSlot cb k v)) (insert cb k v) := by
  refine fun w hw => ⟨fun f w' hrun => bind_of_error hrun, fun r w' hrun => ?_⟩
  have hslot := guardedSlot_ends hcb hw (k := k) (v := v)
  refine insert_of_slot hcb.follows hw ?_
  unfold Ends at hslot ⊢
  rw [hrun] at hslot ⊢
  exact releaseRemoved_table.imp (fun _ _ h => h)
    (fun _ _ h => ⟨h.1, h.2.1, h.2.2.of_sameRest hslot.1⟩)

end World

theorem Cursor.erase_releases {K V τ : Type} {c : Cursor} :
    Releases (removeAt c.index) (c.erase : Act (World K V τ) Bool) :=
  releases_bind fun _ hw =>
    (removeAt_ends hw.bounded).imp (fun _ _ h => h.1) (fun _ _ h => h.elim)

/-- The request may hand one entry to the hooks when all else is done. -/
def Request.evicts {K V : Type} : Request K V → Bool
  | .insert _ _ | .erase _ | .eraseAt _ => true
  | _ => false

namespace Session

variable {K V α : Type} {s : Strategy K} {session : Session K V} {r : Request K V} {k : K} {v : V}
  {f : Fault}

/-! ## Too many buckets -/

/-- Once there is room, an insertion is stopped by the probe function or by a hook. -/
theorem isClient_of_room (hw : session.world.AtRest) {w₁ w' : World K V (Journal K V)}
    (hroom : makeRoom s.callbacks (session.demanding .insertion) = .ok () w₁)
    (hrun : insert s.callbacks k v session.world = .error f w') :
    f.isProbing = true ∨ f.isClient = true := by
  have hins := (insert_of_makeRoom_ok s.callbacks_plain hw hroom).of_error hrun
  rcases hins with ⟨_, hsearch⟩ | ⟨_, hraises⟩
  · have hmade := makeRoom_ends s.callbacks_plain (w := session.demanding .insertion) hw.bounded
    obtain ⟨_, hgrown, hroomy⟩ := hmade.of_ok hroom
    have hbounded : w₁.table.Bounded := hgrown.steps.bounded hw.bounded
    unfold Table.Roomy at hroomy
    exact Table.isClient_of_plainAcquire hbounded.capacity_lt (by omega) hsearch
  · exact Or.inr hraises.isClient

/-- A request that is refused has led to too many buckets, and has done nothing. -/
theorem demand_refused {d : Demand} (hw : session.world.AtRest) (hr : r.demand? = some d)
    {session' : Session K V}
    (hstep : step s r session = (.error .capacityOverflow, session')) :
    (∃ c ∈ session.world.table.target d, s.limit.capacity ≤ c) ∧ session' = session := by
  have hmade := meet_demanding (s := s) hw d
  cases hroom : meet s.callbacks d (session.demanding d) with
  | error g w' =>
    replace hmade := hmade.of_error hroom
    have hstep' := step_of_unmet hr hw.probing_eq hroom hmade.sameRest.probing
    rw [hstep] at hstep'
    obtain ⟨hg, rfl⟩ := Prod.mk.inj hstep'
    obtain rfl := Except.error.inj hg
    cases hmade with
    | refused htarget hge hsame =>
      refine ⟨⟨_, htarget, hge⟩, ?_⟩
      rw [hsame]
      show (⟨{ session.world with probing := false }, session.cursors⟩ : Session K V) = session
      rw [← hw.probing_eq]
    | stopped htarget hc _ hstop _ =>
      have hcause := hstop.isClient (Table.le_target htarget).2 hc
      exact absurd hcause (by decide)
  | ok _ w₁ =>
    -- of the requests that make demands, only an insertion has more to do
    cases r with
    | insert k v =>
      obtain rfl : Demand.insertion = d := Option.some.inj hr
      cases hrun : insert s.callbacks k v session.world with
      | ok _ w' =>
        rw [step_of_ok (r := .insert k v) (g := fun _ => .done) rfl hrun] at hstep
        exact absurd hstep (by simp)
      | error g w' =>
        rw [step_of_error (r := .insert k v) (g := fun _ => .done) rfl hrun] at hstep
        obtain rfl := Except.error.inj (Prod.mk.inj hstep).1
        exact absurd (isClient_of_room hw hroom hrun) (by decide)
    | rehash request =>
      obtain rfl : Demand.rehash request = d := Option.some.inj hr
      rw [demanding_eq hw.probing_eq rfl] at hroom
      rw [step_of_ok (r := .rehash request) (g := fun _ => .done) rfl hroom] at hstep
      exact absurd hstep (by simp)
    | reserve extra =>
      obtain rfl : Demand.reserve extra = d := Option.some.inj hr
      rw [demanding_eq hw.probing_eq rfl] at hroom
      rw [step_of_ok (r := .reserve extra) (g := fun _ => .done) rfl hroom] at hstep
      exact absurd hstep (by simp)
    | _ => exact absurd hr (by simp [Request.demand?])

theorem insertion_refused (hw : session.world.AtRest) {session' : Session K V}
    (hstep : step s (.insert k v) session = (.error .capacityOverflow, session')) :
    session' = session :=
  (demand_refused hw rfl hstep).2

/-! ## No slot -/

/-- The session as an insertion leaves it that has stopped in `w`. -/
def stoppedIn (session : Session K V) (w : World K V (Journal K V)) : Session K V :=
  ⟨{ w with probing := false }, session.cursors⟩

/-- An insertion that finds no slot in the array that has room leaves all entries in it, and
has called no hook. -/
theorem insertion_unplaced (h : Intact s session) {w₁ w₂ : World K V (Journal K V)}
    (hroom : makeRoom s.callbacks (session.demanding .insertion) = .ok () w₁)
    (hstop : insertSlot s.callbacks k v (session.demanding .insertion) = .error f w₂) :
    let t := session.world.table
    let t' := w₂.table
    step s (.insert k v) session = (.error f, session.stoppedIn w₂) ∧
    (∀ keyHook valueHook, step s (.insert k v) (session.withHooks keyHook valueHook) =
      (.error f, (session.stoppedIn w₂).withHooks keyHook valueHook)) ∧
    w₂.handed = session.world.handed ∧
    Seek.plainAcquire s.probe (s.equals k) (s.hash k) t'.buckets = .error f ∧
    t'.entries.Perm t.entries ∧ t'.AllReached s.probe ∧
    (t.Roomy → t' = t) ∧
    (¬ t.Roomy → t'.capacity = (if t.capacity = 0 then 256 else 2 * t.capacity) ∧
      t'.live = t.live ∧ t'.tombs = 0 ∧ t'.tombCount = 0) := by
  intro t t'
  have hw := h.reachable.atRest
  obtain ⟨hsame, hsearch⟩ := insertSlot_of_makeRoom s.callbacks_plain
    (w := session.demanding .insertion) hw.bounded hroom hstop
  have ht' : t' = w₁.table := hsame.table_eq
  have hmet := (meet_demanding (s := s) hw .insertion).of_ok hroom
  have hstep : ∀ (session : Session K V) w, session.world.probing = false →
      insertSlot s.callbacks k v (session.demanding .insertion) = .error f w →
      step s (.insert k v) session = (.error f, session.stoppedIn w) :=
    fun session w hp hstop =>
      step_of_error (g := fun _ => .done) rfl (bind_of_error (guarded_of_error hp hstop))
  refine ⟨hstep session w₂ hw.probing_eq hstop, fun keyHook valueHook => ?_, ?_,
    ht' ▸ hsearch, ?_⟩
  · have hother := (insertSlot_hookless Strategy.callbacks_hookless).of_error keyHook valueHook
      hstop
    exact hstep (session.withHooks keyHook valueHook) _ hw.probing_eq hother
  · exact (insertSlot_keeps handed_ofClient callbacks_keep_handed
      (session.demanding .insertion)).of_error hstop
  · rw [ht']
    cases hmet with
    | asIs htarget hnothing =>
      have hroomy : t.Roomy := Table.roomy_of_target htarget
      have heq : w₁.table = t := by rw [hnothing]; rfl
      rw [heq]
      exact ⟨.refl _, h.sound.reached, fun _ => rfl, fun hfull => absurd hroomy hfull⟩
    | rebuilt htarget _ _ hpacked hcount _ =>
      obtain ⟨hfull, hc⟩ := Table.target_insertion_eq_some htarget
      exact ⟨hpacked.entries_perm, hpacked.reached, fun hroomy => absurd hroomy hfull,
        fun _ => ⟨hpacked.capacity_eq.trans hc, hpacked.live_eq.trans hcount, hpacked.tombs_eq,
          hpacked.tombCount_eq⟩⟩

/-! ## Hooks that give up -/

/-- The table after the request has stored its pair in the place of an entry, or has taken
an entry out. -/
inductive Evicted (s : Strategy K) (session : Session K V) : Request K V → Table K V → Prop where
  | insert {k : K} {v : V} {t t' : Table K V} {old : Entry K V} :
      Table.Grown s session.world.table t → t.Stored s k v (some old) t' →
      Evicted s session (.insert k v) t'
  | erase {k : K} {i : Nat} {e : Entry K V} :
      session.world.table.plainFind s k = .ok (some i) →
      session.world.table.entryAt? i = some e →
      Evicted s session (.erase k) (session.world.table.buryAt i)
  | eraseAt {c : Nat} {e : Entry K V} :
      session.world.table.entryAt? (session.cursors c).index = some e →
      Evicted s session (.eraseAt c) (session.world.table.buryAt (session.cursors c).index)

/-- With hooks that return, the request leaves the table that it leaves with the hooks there
are; and it stops for the same reason or, if it does not stop, a hook has been the reason. -/
structure Settles (s : Strategy K) (r : Request K V) (session quiet : Session K V) : Prop where
  table_eq : (step s r quiet).2.world.table = (step s r session).2.world.table
  stops : ∀ f, (step s r session).1 = .error f → (step s r quiet).1 = .error f ∨
    ((∃ reply, (step s r quiet).1 = .ok reply) ∧ session.world.HookRaises f ∧
      Evicted s session r (step s r session).2.world.table)

/-- A request whose core calls no hook, and whose release leaves the table alone. -/
theorem settles_of_releases {core : Act (World K V (Journal K V)) (Option (Entry K V))}
    {whole : Act (World K V (Journal K V)) α} {g : α → Reply K V}
    {keyHook : Option (Hook (Journal K V) K)} {valueHook : Option (Hook (Journal K V) V)}
    (hw : session.world.AtRest) (hcore : Hookless core) (hwhole : Releases core whole)
    (hr : ∀ session' : Session K V, session'.cursors = session.cursors →
      handle s r session' = onWorld (whole >>= fun a => pure (g a)) session')
    (hquiet : ∀ f, ¬ (session.world.withHooks keyHook valueHook).HookRaises f)
    (hevicted : ∀ e w', core session.world = .ok (some e) w' → Evicted s session r w'.table) :
    Settles s r session (session.withHooks keyHook valueHook) := by
  have hhere := hr session rfl
  have hthere := hr (session.withHooks keyHook valueHook) rfl
  have hw' : (session.withHooks keyHook valueHook).world.AtRest := ⟨hw.bounded, hw.probing_eq⟩
  cases hrun : core session.world with
  | error f w' =>
    -- the core stops before any hook is called, so it stops with the other hooks as well
    have hother := hcore.of_error keyHook valueHook hrun
    have hstep := step_of_error hhere ((hwhole _ hw).1 f w' hrun)
    have hstep' := step_of_error hthere ((hwhole _ hw').1 f _ hother)
    refine ⟨by rw [hstep, hstep']; rfl, fun f' hf => Or.inl ?_⟩
    rw [hstep] at hf
    rw [hstep']
    exact hf
  | ok e? w' =>
    have hother := hcore.of_ok keyHook valueHook hrun
    have hrelease := (hwhole _ hw).2 e? w' hrun
    have hrelease' := (hwhole _ hw').2 e? _ hother
    obtain ⟨a', w₂', hrun', htable'⟩ : ∃ a' w₂',
        whole (session.withHooks keyHook valueHook).world = .ok a' w₂' ∧
          w₂'.table = w'.table := by
      cases hrun' : whole (session.withHooks keyHook valueHook).world with
      | ok a' w₂' => exact ⟨a', w₂', rfl, hrelease'.of_ok hrun'⟩
      | error f w₂' => exact absurd (hrelease'.of_error hrun').2.2 (hquiet f)
    have hstep' := step_of_ok hthere hrun'
    cases hrun₂ : whole session.world with
    | ok a w₂ =>
      have hstep := step_of_ok hhere hrun₂
      refine ⟨by rw [hstep, hstep', htable', hrelease.of_ok hrun₂], fun f hf => ?_⟩
      rw [hstep] at hf
      exact absurd hf (by simp)
    | error f w₂ =>
      obtain ⟨htable, hsome, hraises⟩ := hrelease.of_error hrun₂
      obtain ⟨e, rfl⟩ := Option.isSome_iff_exists.mp hsome
      have hstep := step_of_error hhere hrun₂
      refine ⟨by rw [hstep, hstep', htable', htable], fun f' hf => Or.inr ?_⟩
      rw [hstep] at hf ⊢
      obtain rfl := Except.error.inj hf
      refine ⟨⟨_, by rw [hstep']⟩, hraises, ?_⟩
      rw [htable]
      exact hevicted e w' hrun

theorem settles_of_evicts (hw : session.world.AtRest) (hr : r.evicts = true)
    {keyHook : Option (Hook (Journal K V) K)} {valueHook : Option (Hook (Journal K V) V)}
    (hquiet : ∀ f, ¬ (session.world.withHooks keyHook valueHook).HookRaises f) :
    Settles s r session (session.withHooks keyHook valueHook) := by
  have hcb : (s.callbacks : Callbacks K V (Journal K V)).Plain s := s.callbacks_plain
  have hhookless : (s.callbacks : Callbacks K V (Journal K V)).Hookless :=
    Strategy.callbacks_hookless
  cases r with
  | insert k v =>
    refine settles_of_releases (g := fun _ => .done) hw (insertSlot_hookless hhookless).guarded
      (insert_releases hcb) (fun _ _ => rfl) hquiet fun e w' hrun => ?_
    have hslot := guardedSlot_ends hcb hw (k := k) (v := v)
    obtain ⟨_, t, hgrown, _, hstored⟩ := hslot.of_ok hrun
    exact .insert hgrown hstored
  | erase k =>
    refine settles_of_releases hw (remove_hookless hhookless) (World.erase_releases hcb)
      (fun _ _ => rfl) hquiet fun e w' hrun => ?_
    have hremove := remove_ends hcb (k := k) hw.bounded
    obtain ⟨_, i?, hfind, hremoved⟩ := hremove.of_ok hrun
    generalize w'.table = t' at hremoved ⊢
    cases hremoved with
    | entry he => exact .erase hfind he
  | eraseAt c =>
    let erase : Act (World K V (Journal K V)) Bool := (session.cursors c).erase
    have hreleases : Releases (removeAt (session.cursors c).index) erase := Cursor.erase_releases
    refine settles_of_releases (g := .flag) hw removeAt_hookless hreleases ?_ hquiet
      fun e w' hrun => ?_
    · intro session' hcursors
      show onWorld ((session'.cursors c).erase >>= fun a => pure (Reply.flag a)) session' = _
      rw [hcursors]
    · have hremove := removeAt_ends (i := (session.cursors c).index) hw.bounded
      obtain ⟨_, ⟨_, hnone, _⟩ | hremoved⟩ := hremove.of_ok hrun
      · exact absurd hnone (by simp)
      · generalize w'.table = t' at hremoved ⊢
        cases hremoved with
        | entry he => exact .eraseAt he
  | _ => exact absurd hr (by simp [Request.evicts])

/-- What the calls that are stopped leave behind, in every session in which no hook has
given up during a clear:

* an insertion that is refused for its capacity leaves the session as it was;
* an insertion that makes room and then finds no slot leaves every entry where a search
  gets to it, in the table it found if that had room and else in an array of twice the size
  (or of 256 buckets) without tombstones, and has called no hook;
* an insertion or an erasure that a hook stops leaves the table that it leaves with any
  hooks that return: the new pair is stored, or the entry is gone. -/
theorem failed_calls (h : Intact s session) :
    let t := session.world.table
    (∀ k v session', step s (.insert k v) session = (.error .capacityOverflow, session') →
      session' = session) ∧
    (∀ k v f w₁ w₂, makeRoom s.callbacks (session.demanding .insertion) = .ok () w₁ →
      insertSlot s.callbacks k v (session.demanding .insertion) = .error f w₂ →
      let session' := session.stoppedIn w₂
      let t' := session'.world.table
      step s (.insert k v) session = (.error f, session') ∧
      ((∀ keyHook valueHook, step s (.insert k v) (session.withHooks keyHook valueHook) =
          (.error f, session'.withHooks keyHook valueHook)) ∧
        session'.world.handed = session.world.handed) ∧
      t'.entries.Perm t.entries ∧ t'.AllReached s.probe ∧
      (t.Roomy → t' = t) ∧
      (¬ t.Roomy → t'.capacity = (if t.capacity = 0 then 256 else 2 * t.capacity) ∧
        t'.live = t.live ∧ t'.tombs = 0 ∧ t'.tombCount = 0)) ∧
    ∀ r keyHook valueHook, r.evicts = true →
      let quiet := (run s [.setKeyHook keyHook, .setValueHook valueHook] session).2
      (∀ f, ¬ quiet.world.HookRaises f) →
      (step s r quiet).2.world.table = (step s r session).2.world.table ∧
      ∀ f, (step s r session).1 = .error f → (step s r quiet).1 = .error f ∨
        ((∃ reply, (step s r quiet).1 = .ok reply) ∧ session.world.HookRaises f ∧
          Evicted s session r (step s r session).2.world.table) := by
  intro t
  have hw := h.reachable.atRest
  refine ⟨fun k v session' => insertion_refused hw, fun k v f w₁ w₂ hroom hstop => ?_, ?_⟩
  · obtain ⟨hstep, hhooks, hhanded, _, hperm, hreached, hroomy, hfull⟩ :=
      insertion_unplaced h hroom hstop
    exact ⟨hstep, ⟨hhooks, hhanded⟩, hperm, hreached, hroomy, hfull⟩
  · intro r keyHook valueHook hr quiet hquiet
    have hsettles := settles_of_evicts (s := s) hw hr hquiet
    exact ⟨hsettles.table_eq, hsettles.stops⟩

/-- The key hook gives up on the key that the new pair has replaced: the pair is stored as
it is without a hook. -/
theorem failed_calls_overwriting :
    let s : Strategy Nat := { hash := fun k => k.toUInt64, equals := fun a b => a == b }
    let hook : Hook (Journal Nat Nat) Nat := Hook.failing (Hook.recordKey "keys") "no"
    let session₀ : Session Nat Nat :=
      { world := { table := .blank 4, keyHook := some hook, heap := ⟨1, 0⟩, client := [] } }
    let session := (run s [.insert 1 10, .insert 2 20] session₀).2
    Session.start s 4 (some hook) none = .ok session₀ ∧ Intact s session ∧
      (step s (.insert 1 11) session).1.isOk = false ∧
      (step s (.insert 1 11) session).2.world.table.entries = [⟨1, 1, 11⟩, ⟨2, 2, 20⟩] ∧
      (step s (.insert 1 11)
          (run s [.setKeyHook none, .setValueHook none] session).2).2.world.table =
        (step s (.insert 1 11) session).2.world.table := by
  intro s hook session₀ session
  have hstart : Session.start s 4 (some hook) none = .ok session₀ := rfl
  have hintact : Intact s session := (Intact.start hstart).run _ (by simp)
  have hquiet : ∀ f,
      ¬ (run s [.setKeyHook none, .setValueHook none] session).2.world.HookRaises f := by
    intro f
    rw [run_setHooks]
    exact not_hookRaises_of_none rfl rfl
  obtain ⟨_, _, hhooks⟩ := failed_calls hintact
  exact ⟨hstart, hintact, by decide +kernel, by decide +kernel,
    (hhooks (.insert 1 11) none none rfl hquiet).1⟩

end Session

end OpenAddressing
