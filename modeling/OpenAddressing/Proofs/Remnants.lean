import OpenAddressing.Proofs.Hookless
import OpenAddressing.Proofs.Targets

/-!
# What an interrupted rebuild leaves

A rebuild moves the entries one by one into the new array, and the probe function may keep
any of them from finding a bucket: by staying where it is, by leaving the table, or by
raising a fault of its own. The entries before it are then all that the map has left. They
are counted as they are moved, so that the counters are right at every point where the
move can stop, and each of them has been put where a search for it comes by.

On the way the client is asked for nothing but the next bucket: hashes are cached, keys
are not compared, and no entry is handed to a hook.
-/

namespace OpenAddressing

open Act World

/-- What a request demands of the array. -/
def Request.demand? {K V : Type} : Request K V → Option Demand
  | .rehash request => some (.rehash request)
  | .reserve extra => some (.reserve extra)
  | .insert _ _ => some .insertion
  | _ => none

/-- The demand is made in the middle of a search. -/
def Demand.searching : Demand → Bool
  | .insertion => true
  | _ => false

/-- What a journal holds besides the calls of the probe function. -/
def Journal.unprobed {K V : Type} (j : Journal K V) : List (Event K V) :=
  j.filter fun e => e.callback? ≠ some .probe

/-- Callbacks that answer nothing but where to go next. -/
def Callbacks.probeOnly {K V τ : Type} (cb : Callbacks K V τ) : Callbacks K V τ where
  hash _ := pure 0
  equals _ _ := pure false
  probe := cb.probe
  limit := cb.limit

namespace World

variable {K V τ γ : Type} {cb : Callbacks K V τ} {s : Strategy K} {obs : World K V τ → γ}
  {w w' : World K V τ} {d : Demand} {f : Fault}

/-- No demand needs a hash or an equality. -/
theorem meet_probeOnly (cb : Callbacks K V τ) (d : Demand) :
    meet cb.probeOnly d = meet cb d := by
  cases d with
  | rehash _ => rfl
  | reserve _ => rfl
  | insertion => rfl

theorem meet_keeps (hobs : OfClient obs) (hprobe : ∀ i capacity, Keeps obs (cb.probe i capacity))
    (d : Demand) : Keeps obs (meet cb d) := by
  have hcb : cb.probeOnly.Keeps obs := ⟨fun _ => keeps_pure, fun _ _ => keeps_pure, hprobe⟩
  rw [← meet_probeOnly]
  cases d with
  | rehash _ => exact rehash_keeps hobs hcb
  | reserve _ => exact reserve_keeps hobs hcb
  | insertion => exact makeRoom_keeps hobs hcb

theorem meet_hookless (hcb : cb.Hookless) (d : Demand) : Hookless (meet cb d) := by
  cases d with
  | rehash _ => exact rehash_hookless hcb
  | reserve _ => exact reserve_hookless hcb
  | insertion => exact makeRoom_hookless hcb

/-- A demand writes nothing down but the calls of the probe function. -/
theorem meet_unprobed {K V : Type} {s : Strategy K} (d : Demand) :
    Keeps (fun w => Journal.unprobed w.client)
      (meet (s.callbacks : Callbacks K V (Journal K V)) d) := by
  refine meet_keeps (fun _ _ h => by rw [h]) (fun i capacity => ?_) d
  unfold Strategy.callbacks Strategy.interrupted
  dsimp only
  split
  · exact keeps_lift
  · have hprobed : (.probed i capacity : Event K V).Unseen
        fun w => Journal.unprobed w.client := fun _ => rfl
    exact hprobed.note_keeps.bind fun _ => keeps_pure.bind fun _ => keeps_lift

theorem Unmet.sameRest (h : Unmet s d w w' f) : w.SameRest w' := by
  cases h with
  | refused _ _ hw => exact hw ▸ .refl w
  | stopped _ _ hrest _ _ => exact hrest

/-- A demand that leads to a rebuild is met by it. -/
theorem Met.packed {c : Nat} (h : Met s d w w') (htarget : w.table.target d = some c) :
    Table.Packed s.probe c w.table.entries w'.table := by
  cases h with
  | asIs hnone _ => rw [htarget] at hnone; exact absurd hnone (by simp)
  | rebuilt hsome _ _ hpacked _ _ =>
    rw [htarget] at hsome
    exact Option.some.inj hsome ▸ hpacked

/-- If the counters are right, a rebuild stops at one of the entries, and those before it
are packed. -/
theorem Unmet.packed {c : Nat} (h : Unmet s d w w' f) (hexact : w.table.Exact)
    (htarget : w.table.target d = some c) (hc : c < s.limit.capacity) :
    ∃ m e, w.table.entries[m]? = some e ∧
      Table.Packed s.probe c (w.table.entries.take m) w'.table ∧ w'.table.live = m ∧
      Seek.plainAcquire s.probe (fun _ => false) e.hash w'.table.buckets = .error f := by
  cases h with
  | refused hsome hge _ =>
    rw [htarget] at hsome
    have hcc := Option.some.inj hsome
    omega
  | stopped hsome _ _ hstop _ =>
    rw [htarget] at hsome
    have hcc := Option.some.inj hsome
    subst hcc
    cases hstop with
    | overflow hge _ => omega
    | @stuck _ pre post e _ hentries hpacked hrun =>
      have htake : w.table.entries.take pre.length = pre := by
        rw [hentries, List.take_left]
      refine ⟨pre.length, e, ?_, htake.symm ▸ hpacked, hpacked.live_eq, hrun⟩
      rw [hentries, List.getElem?_append_right (Nat.le_refl _), Nat.sub_self]
      rfl
    | miscount _ _ hne =>
      rw [Table.length_entries] at hne
      exact absurd hexact.live_eq.symm hne

/-- An insertion that finds no room stops there. -/
theorem insert_of_makeRoom_error {k : K} {v : V} (hp : w.probing = false)
    (h : makeRoom cb { w with probing := true } = .error f w') :
    insert cb k v w = .error f { w' with probing := false } := by
  have hslot : insertSlot cb k v { w with probing := true } = .error f w' := bind_of_error h
  exact bind_of_error (guarded_of_error hp hslot)

/-- Once there is room in `w'`, an insertion stores its pair, or the search for a slot does
not come to one; and a hook may give up on what the pair has replaced. -/
theorem insert_of_makeRoom_ok (hcb : cb.Plain s) (hw : w.AtRest) {k : K} {v : V}
    (h : makeRoom cb { w with probing := true } = .ok () w') :
    (insert cb k v).Ends w (fun _ w'' => ∃ old, w'.table.Stored s k v old w''.table)
      fun f w'' =>
        (w''.table = w'.table ∧
          Seek.plainAcquire s.probe (s.equals k) (s.hash k) w'.table.buckets = .error f) ∨
        ((∃ old, w'.table.Stored s k v old w''.table) ∧ w.HookRaises f) := by
  let w₀ : World K V τ := { w with probing := true }
  obtain ⟨hrest, hgrown, hroomy⟩ := (makeRoom_ends hcb (w := w₀) hw.bounded).of_ok h
  refine insert_of_room hcb hw (J := fun w₁ => w₁ = w') ?_ ?_ ?_
  · unfold Ends
    rw [h]
    exact ⟨rfl, hgrown.steps.bounded hw.bounded, hroomy⟩
  · rintro f w₁ w₂ rfl hsame hrun
    exact Or.inl ⟨hsame.table_eq, hrun⟩
  · rintro r w₁ w₂ rfl _ hrest' _ hstored
    refine releaseRemoved_ends.imp (fun _ w₃ h => ⟨r, ?_⟩) (fun f w₃ h => Or.inr ⟨⟨r, ?_⟩, ?_⟩)
    · rw [h.2.table_eq]; exact hstored
    · rw [h.1.table_eq]; exact hstored
    · have hkept : w.SameRest { w₂ with probing := false } :=
        ⟨(hrest.trans hrest').keyHook, (hrest.trans hrest').valueHook, hw.probing_eq.symm⟩
      exact h.2.of_sameRest hkept

end World

namespace Session

variable {K V : Type} {s : Strategy K} {session : Session K V} {r : Request K V} {d : Demand}
  {f : Fault} {w' : World K V (Journal K V)}

/-- The world in which the request makes its demand. -/
def demanding (d : Demand) (session : Session K V) : World K V (Journal K V) :=
  { session.world with probing := d.searching }

theorem demanding_eq (hp : session.world.probing = false) (hd : d.searching = false) :
    session.demanding d = session.world := by
  unfold demanding
  rw [hd, ← hp]

theorem meet_demanding (hw : session.world.AtRest) (d : Demand) :
    (meet s.callbacks d).Ends (session.demanding d)
      (fun _ w' => Met s d (session.demanding d) w')
      fun f w' => Unmet s d (session.demanding d) w' f :=
  meet_ends (w := session.demanding d) s.callbacks_plain
    (Strategy.callbacks_keeps fun _ _ _ => rfl) hw.bounded d

/-- A request whose demand is not met is stopped by that. -/
theorem step_of_unmet (hr : r.demand? = some d) (hp : session.world.probing = false)
    (h : meet s.callbacks d (session.demanding d) = .error f w')
    (hprobing : w'.probing = d.searching) :
    step s r session = (.error f, ⟨{ w' with probing := false }, session.cursors⟩) := by
  have hunmark : d.searching = false → ({ w' with probing := false } : World K V _) = w' := by
    intro hd
    rw [← hd, ← hprobing]
  cases r with
  | rehash request =>
    obtain rfl : Demand.rehash request = d := Option.some.inj hr
    rw [demanding_eq hp rfl] at h
    rw [hunmark rfl]
    exact step_of_error (g := fun _ => .done) rfl h
  | reserve extra =>
    obtain rfl : Demand.reserve extra = d := Option.some.inj hr
    rw [demanding_eq hp rfl] at h
    rw [hunmark rfl]
    exact step_of_error (g := fun _ => .done) rfl h
  | insert k v =>
    obtain rfl : Demand.insertion = d := Option.some.inj hr
    exact step_of_error (g := fun _ => .done) rfl (insert_of_makeRoom_error hp h)
  | _ => exact absurd hr (by simp [Request.demand?])

/-- A request whose demand is met leaves the table at that, or has stored its pair in it. -/
theorem step_of_met (hr : r.demand? = some d) (hw : session.world.AtRest)
    (h : meet s.callbacks d (session.demanding d) = .ok () w') :
    (step s r session).2.world.table = w'.table ∨
      ∃ k v old, r = .insert k v ∧
        w'.table.Stored s k v old (step s r session).2.world.table := by
  cases r with
  | rehash request =>
    obtain rfl : Demand.rehash request = d := Option.some.inj hr
    rw [demanding_eq hw.probing_eq rfl] at h
    rw [step_of_ok (r := .rehash request) (g := fun _ => .done) rfl h]
    exact Or.inl rfl
  | reserve extra =>
    obtain rfl : Demand.reserve extra = d := Option.some.inj hr
    rw [demanding_eq hw.probing_eq rfl] at h
    rw [step_of_ok (r := .reserve extra) (g := fun _ => .done) rfl h]
    exact Or.inl rfl
  | insert k v =>
    obtain rfl : Demand.insertion = d := Option.some.inj hr
    have hends := insert_of_makeRoom_ok s.callbacks_plain hw (k := k) (v := v) h
    cases hrun : insert s.callbacks k v session.world with
    | ok _ w'' =>
      rw [step_of_ok (r := .insert k v) (g := fun _ => .done) rfl hrun]
      obtain ⟨old, hstored⟩ := hends.of_ok hrun
      exact Or.inr ⟨k, v, old, rfl, hstored⟩
    | error f w'' =>
      rw [step_of_error (r := .insert k v) (g := fun _ => .done) rfl hrun]
      rcases hends.of_error hrun with ⟨htable, _⟩ | ⟨⟨old, hstored⟩, _⟩
      · exact Or.inl htable
      · exact Or.inr ⟨k, v, old, rfl, hstored⟩
  | _ => exact absurd hr (by simp [Request.demand?])

/-- A request that rebuilds an array with right counters at `c` buckets either moves every
entry, or it is stopped at an entry `e` with exactly the entries before it moved: these are
counted, no tombstones are, and a search for each of them still gets to it. In both cases
the probe function has been all that was called; and if the request is stopped, it is
stopped in the same way whatever the hooks are. -/
theorem rebuild_outcomes (hw : session.world.AtRest) (hexact : session.world.table.Exact)
    (hr : r.demand? = some d) {c : Nat} (htarget : session.world.table.target d = some c)
    (hc : c < s.limit.capacity) :
    let t := session.world.table
    (∃ w', meet s.callbacks d (session.demanding d) = .ok () w' ∧
      (w'.table.capacity = c ∧ w'.table.tombs = 0 ∧ w'.table.tombCount = 0 ∧
        w'.table.live = t.live ∧ w'.table.entries.Perm t.entries ∧
        w'.table.AllReached s.probe) ∧
      Journal.unprobed w'.client = Journal.unprobed session.world.client ∧
      ((step s r session).2.world.table = w'.table ∨
        ∃ k v old, r = .insert k v ∧
          w'.table.Stored s k v old (step s r session).2.world.table)) ∨
    ∃ f session' m e, step s r session = (.error f, session') ∧ t.entries[m]? = some e ∧
      (session'.world.table.capacity = c ∧ session'.world.table.tombs = 0 ∧
        session'.world.table.tombCount = 0 ∧ session'.world.table.live = m ∧
        session'.world.table.entries.Perm (t.entries.take m) ∧
        session'.world.table.AllReached s.probe) ∧
      Seek.plainAcquire s.probe (fun _ => false) e.hash session'.world.table.buckets =
        .error f ∧
      Journal.unprobed session'.world.client = Journal.unprobed session.world.client ∧
      ∀ keyHook valueHook, step s r (session.withHooks keyHook valueHook) =
        (.error f, session'.withHooks keyHook valueHook) := by
  intro t
  have hmeet := meet_demanding (s := s) hw d
  have hquiet := meet_unprobed (s := s) d (session.demanding d)
  cases hrun : meet s.callbacks d (session.demanding d) with
  | ok u w' =>
    replace hquiet := hquiet.of_ok hrun
    have hpacked := (hmeet.of_ok hrun).packed htarget
    refine Or.inl ⟨w', rfl, ⟨hpacked.capacity_eq, hpacked.tombs_eq, hpacked.tombCount_eq, ?_,
      hpacked.entries_perm, hpacked.reached⟩, hquiet, step_of_met hr hw hrun⟩
    rw [hpacked.live_eq, Table.length_entries]
    exact hexact.live_eq.symm
  | error f w' =>
    replace hmeet := hmeet.of_error hrun
    replace hquiet := hquiet.of_error hrun
    obtain ⟨m, e, he, hpacked, hlive, hstuck⟩ := hmeet.packed hexact htarget hc
    refine Or.inr ⟨f, ⟨{ w' with probing := false }, session.cursors⟩, m, e, ?_, he,
      ⟨hpacked.capacity_eq, hpacked.tombs_eq, hpacked.tombCount_eq, hlive,
        hpacked.entries_perm, hpacked.reached⟩, hstuck, hquiet, fun keyHook valueHook => ?_⟩
    · exact step_of_unmet hr hw.probing_eq hrun hmeet.sameRest.probing
    · have hother := (meet_hookless Strategy.callbacks_hookless d).of_error keyHook valueHook hrun
      have hstopped : step s r (session.withHooks keyHook valueHook) = _ :=
        step_of_unmet hr hw.probing_eq hother hmeet.sameRest.probing
      exact hstopped

/-- The probe function always answers with the bucket it is asked about. In six buckets the
hashes 1 and 9 have homes of their own, in eight they have the same one: only the first
entry is moved. -/
theorem rebuild_outcomes_stuck :
    let s : Strategy Nat :=
      { hash := fun k => k.toUInt64, equals := fun a b => a == b, probe? := some Probe.stuck }
    let session₀ : Session Nat Nat :=
      { world := { table := .blank 6, heap := ⟨1, 0⟩, client := [] } }
    let session := (run s [.insert 1 10, .insert 9 90] session₀).2
    let session' := (step s (.rehash 8) session).2
    Session.start s 6 none none = .ok session₀ ∧ Intact s session ∧
      session.world.table.entries = [⟨1, 1, 10⟩, ⟨9, 9, 90⟩] ∧
      session'.world.table.entries = [⟨1, 1, 10⟩] ∧
      session'.world.table.live = 1 ∧ session'.world.table.AllReached s.probe := by
  intro s session₀ session session'
  have hstart : Session.start s 6 none none = .ok session₀ := rfl
  have hintact : Intact s session := (Intact.start hstart).run _ (by simp)
  have hafter : session'.world.table.entries = [⟨1, 1, 10⟩] := by decide +kernel
  refine ⟨hstart, hintact, by decide +kernel, hafter, by decide +kernel, ?_⟩
  have htarget : session.world.table.target (.rehash 8) = some 8 := by decide +kernel
  have houtcomes := @rebuild_outcomes _ _ s session (.rehash 8) (.rehash 8)
    hintact.reachable.atRest hintact.sound.exact rfl 8 htarget (by decide)
  rcases houtcomes with ⟨w', _, ⟨_, _, _, _, hperm, _⟩, _, htable | ⟨_, _, _, hr, _⟩⟩ |
    ⟨f, session'', m, e, hstep, _, ⟨_, _, _, _, _, hreached⟩, _⟩
  · -- not all entries have been moved, so the rebuild has not returned
    have hlength := hperm.length_eq
    rw [← htable] at hlength
    exact absurd hlength (by decide +kernel)
  · exact absurd hr (by simp)
  · have hleft : session' = session'' := congrArg Prod.snd hstep
    rw [hleft]
    exact hreached

end Session

end OpenAddressing
