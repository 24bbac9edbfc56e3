import OpenAddressing.Proofs.Sessions

/-!
# Sessions with a client that gives up

The callbacks of a strategy answer whatever they are called for. Here the client may also
give up at any call of them, of the hash and the equality as of the probe function, and it
is free to make this depend on all calls so far. The sessions that runs with such a client
come to are *served*; they are *whole* as long as no hook has given up during a clear.

What a call leaves behind when it is given up is what some change of the table leaves: the
table with more room in which nothing was stored, or the entries that a rebuild had moved.
So a *steady* act, in contrast to a regular one, may also stop because the client gives up,
and it evolves the world all the same. From one step lemma for the requests (`serve_ends`)
the invariants of sessions follow again by one induction each: every served session is at
rest (`Served.atRest`), and the table of a whole one is sound (`Whole.sound`).
-/

namespace OpenAddressing

open Act World

namespace World

variable {K V τ α β : Type} {E : Fault → Prop} {s : Strategy K} {w w' : World K V τ} {f : Fault}

/-- From a world at rest, the act evolves it, and stops only for a cause or because a callback
gives up, with a fault in `E`. -/
def Steady (E : Fault → Prop) (s : Strategy K) (act : Act (World K V τ) α) : Prop :=
  ∀ w, w.AtRest → act.Ends w (fun _ w' => Evolves s w w') fun f w' =>
    Evolves s w w' ∧ (Cause s w w' f ∨ E f)

theorem Regular.steady {act : Act (World K V τ) α} (h : Regular s act) : Steady E s act :=
  fun w hw => (h w hw).imp (fun _ _ h => h) (fun _ _ h => ⟨h.1, Or.inl h.2⟩)

theorem Steady.bind {x : Act (World K V τ) β} {g : β → Act (World K V τ) α} (hx : Steady E s x)
    (hg : ∀ b, Steady E s (g b)) : Steady E s (x >>= g) := by
  intro w hw
  rw [ends_bind]
  refine (hx w hw).imp (fun b w' h => ?_) (fun _ _ h => h)
  refine (hg b w' (h.atRest hw)).imp (fun _ _ h' => ?_) (fun _ _ h' => ?_)
  · exact h.trans h'
  · exact ⟨h.trans h'.1, h'.2.imp_left (Cause.of_evolves h)⟩

/-- What is done with the answer is regular. -/
theorem Steady.then {x : Act (World K V τ) β} {g : β → Act (World K V τ) α} (hx : Steady E s x)
    (hg : ∀ b, Regular s (g b)) : Steady E s (x >>= g) :=
  hx.bind fun b => (hg b).steady

theorem Steady.forM {xs : List β} {g : β → Act (World K V τ) PUnit}
    (hg : ∀ b, Steady E s (g b)) : Steady E s (xs.forM g) := by
  induction xs with
  | nil => exact regular_pure.steady
  | cons x xs ih => exact (hg x).bind fun _ => ih

theorem Steady.mapM {xs : List β} {g : β → Act (World K V τ) α} (hg : ∀ b, Steady E s (g b)) :
    Steady E s (xs.mapM g) := by
  induction xs with
  | nil => rw [List.mapM_nil]; exact regular_pure.steady
  | cons x xs ih =>
    rw [List.mapM_cons]
    exact (hg x).bind fun _ => ih.then fun _ => regular_pure

section

variable {cb : Callbacks K V τ} {k : K} {v : V}

theorem steady_of_follows {act : Act (World K V τ) α} {a : α}
    (h : ∀ w, Follows E act w (.ok a)) : Steady E s act := by
  intro w _
  exact (h w).imp (fun _ _ h => h.2.evolves)
    (fun _ _ h => ⟨h.2.evolves, Or.inr (h.1.resolve_left (by simp))⟩)

/-- A lookup that stops has changed nothing. -/
theorem steady_of_lookupFault (hw : w.AtRest)
    (h : (LookupFault s k w f ∨ E f) ∧ w.SameButClient w') :
    Evolves s w w' ∧ (Cause s w w' f ∨ E f) :=
  ⟨h.2.evolves, h.1.imp_left fun hstop => hstop.cause hw.probing_eq h.2.table_eq⟩

/-- A rebuild that is given up has moved some of the entries. -/
theorem steady_of_halted (h : w.SameRest w' ∧
    (Table.Halted s w.table w'.table f ∨ E f ∧ Table.Steps s w.table w'.table)) :
    Evolves s w w' ∧ (Cause s w w' f ∨ E f) := by
  obtain ⟨hrest, hhalted | ⟨hE, hsteps⟩⟩ := h
  · exact (evolves_of_halted hhalted hrest).imp_right Or.inl
  · exact ⟨⟨hrest, hsteps⟩, Or.inr hE⟩

variable (hcb : cb.Follows E s)
include hcb

theorem locate_steady : Steady E s (locate cb k) := fun _ hw =>
  (locate_follows hcb).imp (fun _ _ h => h.2.evolves) (fun _ _ h => steady_of_lookupFault hw h)

theorem getEntry?_steady : Steady E s (World.getEntry? cb k) := fun _ hw =>
  (getEntry?_follows hcb).imp (fun _ _ h => h.2.evolves) (fun _ _ h => steady_of_lookupFault hw h)

theorem get?_steady : Steady E s (get? cb k) :=
  (getEntry?_steady hcb).then fun _ => regular_pure

theorem contains_steady : Steady E s (contains cb k) :=
  (locate_steady hcb).then fun _ => regular_pure

theorem answer_steady {l : Lookup K} :
    Steady E s (answer cb l) := by
  cases l with
  | get k => exact (get?_steady hcb).then fun _ => regular_pure
  | getEntry k => exact (getEntry?_steady hcb).then fun _ => regular_pure
  | contains k => exact (contains_steady hcb).then fun _ => regular_pure

theorem update_steady {g : V → V} : Steady E s (update cb k g) := by
  intro w hw
  unfold update
  rw [ends_bind]
  refine (locate_follows hcb).imp (fun i? w₁ h => ?_) (fun _ _ h => steady_of_lookupFault hw h)
  obtain ⟨hfind, hw₁⟩ := h
  cases i? with
  | none => exact hw₁.evolves
  | some i =>
    -- the search has come to an entry, so its bucket is in the table
    obtain ⟨e, he, _⟩ := Table.entry_of_plainFind hfind
    have hbucket := Table.bucketAt_of_getElem? (Table.entryAt?_eq_some_iff.mp he)
    simp only [ends_bind, ends_get, ends_discard, hw₁.table_eq, hbucket, ends_lift_ok,
      ends_onTable]
    refine (steps_of_updateAt (s := s)).imp (fun _ t' h => ?_) (fun _ _ h => h.elim)
    exact ⟨sameRest_withTable hw₁.sameRest, h⟩

theorem remove_steady : Steady E s (remove cb k) := by
  refine (locate_steady hcb).then fun i? => ?_
  cases i? with
  | none => exact regular_pure
  | some i => exact removeAt_regular

theorem erase_steady : Steady E s (erase cb k) :=
  (remove_steady hcb).then fun _ => releaseRemoved_regular

theorem take_steady : Steady E s (take cb k) :=
  (remove_steady hcb).then fun _ => regular_pure

/-- An insertion that is given up has made room, or else it has stored its pair. -/
theorem insert_steady : Steady E s (insert cb k v) := by
  intro w hw
  refine insert_of_slot hcb hw
    ((guardedSlot_follows hcb hw).imp (fun r w₁ h => ?_) fun f w₁ h => ?_)
  · obtain ⟨hrest, t, hgrown, hroom, hstored⟩ := h
    have hevolves : Evolves s w w₁ :=
      ⟨hrest, hgrown.steps.trans (.single (hstored.change hroom))⟩
    refine (releaseRemoved_regular (s := s) w₁ (hevolves.atRest hw)).imp (fun _ _ h => ?_)
      (fun _ _ h => ?_)
    · exact hevolves.trans h
    · exact ⟨hevolves.trans h.1, Or.inl (h.2.of_evolves hevolves)⟩
  · obtain ⟨hrest, hstop | ⟨hE, hsteps⟩⟩ := h
    · exact (evolves_of_slotStop hstop hrest).imp_right Or.inl
    · exact ⟨⟨hrest, hsteps⟩, Or.inr hE⟩

theorem insertAll_steady {items : List (K × V)} : Steady E s (insertAll cb items) :=
  Steady.forM fun _ => insert_steady hcb

theorem rehash_steady {request : Nat} : Steady E s (rehash cb request) := fun _ _ =>
  (rehash_follows hcb request).imp (fun _ _ h => evolves_of_grown h.1 h.2)
    (fun _ _ h => steady_of_halted h)

theorem reserve_steady {extra : Nat} : Steady E s (reserve cb extra) := fun _ hw =>
  (reserve_follows hcb hw.bounded).imp (fun _ _ h => evolves_of_grown h.1 h.2)
    (fun _ _ h => steady_of_halted h)

end

end World

/-! ## Requests -/

section

variable {K V : Type} {s : Strategy K} {act : Callback → Act (Journal K V) Unit} {c : Callback}
  {w : World K V (Journal K V)}

/-- The client runs at each call of a callback, and may give up. -/
def Interrupt.ofClient (act : Callback → Act (Journal K V) Unit) : Interrupt K V :=
  fun c => onClient (act c).asClient

/-- The fault is one with which the client gives up at some call of a callback. -/
def GivesUp (act : Callback → Act (Journal K V) Unit) (f : Fault) : Prop :=
  ∃ c j j', (act c).asClient j = .error f j'

theorem GivesUp.isClient {f : Fault} (h : GivesUp act f) : f.isClient = true := by
  obtain ⟨_, _, _, hrun⟩ := h
  exact isClient_of_asClient hrun

theorem Interrupt.ofClient_follows :
    Follows (GivesUp act) (Interrupt.ofClient act c) w (.ok ()) := by
  unfold Follows Interrupt.ofClient
  rw [ends_onClient]
  unfold Ends
  split
  · exact ⟨rfl, _, rfl⟩
  · rename_i hrun
    exact ⟨Or.inr ⟨c, _, _, hrun⟩, _, rfl⟩

theorem Interrupt.ofClient_calm {t : Table K V} :
    Calm (GivesUp act) s t (fun _ => True) (Interrupt.ofClient act c) := fun w _ =>
  (Interrupt.ofClient_follows (w := w)).imp (fun _ _ h => ⟨trivial, h.2.still⟩)
    (fun _ _ h => ⟨Or.inr (Or.inl (h.1.resolve_left (by simp))), h.2.still⟩)

end

namespace Session

variable {K V : Type} {s : Strategy K} {session session' : Session K V} {r : Request K V}
  {act : Callback → Act (Journal K V) Unit} {f : Fault}

/-- The step of a request during which the client runs `act` at each call of a callback. -/
def tryStep (s : Strategy K) (act : Callback → Act (Journal K V) Unit) (r : Request K V)
    (session : Session K V) : Except Fault (Reply K V) × Session K V :=
  match serve s (.ofClient act) r session with
  | .ok reply session' => (.ok reply, session')
  | .error fault session' => (.error fault, session')

theorem tryStep_cases {Q : Reply K V → Session K V → Prop} {E : Fault → Session K V → Prop}
    (h : (serve s (.ofClient act) r).Ends session Q E) :
    (∃ reply session', tryStep s act r session = (.ok reply, session') ∧ Q reply session') ∨
      ∃ f session', tryStep s act r session = (.error f, session') ∧ E f session' := by
  unfold Ends at h
  unfold tryStep
  cases hrun : serve s (.ofClient act) r session with
  | ok reply session' => rw [hrun] at h; exact Or.inl ⟨reply, session', rfl, h⟩
  | error f session' => rw [hrun] at h; exact Or.inr ⟨f, session', rfl, h⟩

theorem ends_of_steady {α : Type} {E : Fault → Prop} {act : Act (World K V (Journal K V)) α}
    {g : α → Reply K V} (h : Steady E s act) (hw : session.world.AtRest) :
    (onWorld (act >>= fun a => pure (g a))).Ends session
      (fun _ session' => Moves s session session')
      fun f session' => Moves s session session' ∧
        (Stop s r session session' f ∨ E f) := by
  rw [ends_onWorld]
  refine ((h.then fun _ => regular_pure : Steady E s (act >>= fun a => pure (g a))) _ hw).imp
    (fun _ w h => ?_) (fun f w h => ?_)
  · exact .of_evolves h
  · exact ⟨.of_evolves h.1, h.2.imp_left .cause⟩

/-- Every request but clearing moves the session, even if it is given up. -/
theorem serve_ends (hclear : r ≠ .clear) (hw : session.world.AtRest) :
    (serve s (.ofClient act) r).Ends session (fun _ session' => Moves s session session')
      fun f session' => Moves s session session' ∧
        (Stop s r session session' f ∨ GivesUp act f) := by
  have hplain : (handle s r).Ends session (fun _ session' => Moves s session session')
      fun f session' => Moves s session session' ∧
        (Stop s r session session' f ∨ GivesUp act f) :=
    (handle_ends hclear hw).imp (fun _ _ h => h) (fun _ _ h => h.imp_right Or.inl)
  have hcb : (s.interrupted (.ofClient act)).Follows (GivesUp act) s :=
    Strategy.interrupted_follows fun _ _ => Interrupt.ofClient_follows
  -- a request that calls no callback does not know of the client
  cases r with
  | clear => exact absurd rfl hclear
  | probe i capacity =>
    refine ends_onWorld.mpr ?_
    rw [ends_bind]
    refine (hcb.probe i capacity _).imp (fun _ w h => ?_) (fun f w h => ?_)
    · exact .of_evolves h.2.evolves
    · exact ⟨.of_evolves h.2.evolves, h.1.imp_left (.probe rfl)⟩
  | lookup l => exact ends_of_steady (answer_steady hcb) hw
  | nested l via inquiry =>
    refine ends_onWorld.mpr ?_
    rw [ends_bind]
    refine (answerNested_ends fun _ => Interrupt.ofClient_calm).imp (fun r w h => ?_)
      (fun _ _ h => h.elim)
    exact ⟨by rw [h.2.2], h.2.1.probing⟩
  | getEach ks => exact ends_of_steady (.mapM fun _ => get?_steady hcb) hw
  | containsEach ks => exact ends_of_steady (.mapM fun _ => contains_steady hcb) hw
  | update k f => exact ends_of_steady (update_steady hcb) hw
  | insert k v => exact ends_of_steady (insert_steady hcb) hw
  | insertAll items => exact ends_of_steady (insertAll_steady hcb) hw
  | erase k => exact ends_of_steady (erase_steady hcb) hw
  | eraseEach ks => exact ends_of_steady (.mapM fun _ => erase_steady hcb) hw
  | take k => exact ends_of_steady (take_steady hcb) hw
  | rehash capacity => exact ends_of_steady (rehash_steady hcb) hw
  | reserve extra => exact ends_of_steady (reserve_steady hcb) hw
  | hash k => exact ends_of_steady (steady_of_follows (hcb.hash k)) hw
  | equal a b => exact ends_of_steady (steady_of_follows (hcb.equals a b)) hw
  | setKeyHook hook => exact hplain
  | setValueHook hook => exact hplain
  | summary => exact hplain
  | entries => exact hplain
  | items => exact hplain
  | walk part limit => exact hplain
  | updateWalk part limit f => exact hplain
  | snapshot part positions => exact hplain
  | cursor c => exact hplain
  | advance c => exact hplain
  | copyCursor c source => exact hplain
  | sameCursor c₁ c₂ => exact hplain
  | look c => exact hplain
  | updateAt c f => exact hplain
  | eraseAt c => exact hplain
  | takeAt c => exact hplain
  | sweep stride => exact hplain

/-- Even if it is given up, a request other than clearing moves the session. -/
theorem moves_tryStep (hclear : r ≠ .clear) (hw : session.world.AtRest) :
    Moves s session (tryStep s act r session).2 := by
  rcases tryStep_cases (serve_ends (s := s) hclear hw) with
    ⟨_, _, hstep, hmoves⟩ | ⟨_, _, hstep, hmoves, _⟩
  · exact hstep ▸ hmoves
  · exact hstep ▸ hmoves

/-- Clearing calls no callback. -/
theorem tryStep_clear : tryStep s act .clear session = step s .clear session := rfl

/-! ## Served sessions -/

/-- The sessions that some run comes to in which the client may give up at any call. -/
inductive Served (s : Strategy K) : Session K V → Prop where
  | start {capacity : Nat} {keyHook : Option (Hook (Journal K V) K)}
      {valueHook : Option (Hook (Journal K V) V)} {session : Session K V} :
      Session.start s capacity keyHook valueHook = .ok session → Served s session
  | step {session : Session K V} (act : Callback → Act (Journal K V) Unit) (r : Request K V) :
      Served s session → Served s (tryStep s act r session).2

/-- The served sessions that some run comes to in which no hook gives up during a clear. -/
inductive Whole (s : Strategy K) : Session K V → Prop where
  | start {capacity : Nat} {keyHook : Option (Hook (Journal K V) K)}
      {valueHook : Option (Hook (Journal K V) V)} {session : Session K V} :
      Session.start s capacity keyHook valueHook = .ok session → Whole s session
  | step {session : Session K V} (act : Callback → Act (Journal K V) Unit) (r : Request K V) :
      Whole s session → (r = .clear → ¬ session.world.ClearStopped) →
      Whole s (tryStep s act r session).2

/-- A client that does nothing at a call does not give up, and so the session after any list
of requests that nothing interrupts is served. -/
theorem Served.run (h : Served s session) (rs : List (Request K V)) :
    Served s (Session.run s rs session).2 := by
  induction rs generalizing session with
  | nil => exact h
  | cons r rs ih => exact ih (h.step (fun _ => pure ()) r)

theorem Reachable.served (h : Reachable s session) : Served s session := by
  induction h with
  | start hstart => exact .start hstart
  | step r _ ih => exact ih.step (fun _ => pure ()) r

theorem Intact.whole (h : Intact s session) : Whole s session := by
  induction h with
  | start hstart => exact .start hstart
  | step r _ hclear ih => exact ih.step (fun _ => pure ()) r hclear

theorem Whole.served (h : Whole s session) : Served s session := by
  induction h with
  | start hstart => exact .start hstart
  | step act r _ _ ih => exact ih.step act r

/-- No request disturbs a session at rest for longer than it takes. -/
theorem Served.atRest (h : Served s session) : session.world.AtRest := by
  induction h with
  | start hstart => exact atRest_of_start hstart
  | @step session act r _ ih =>
    by_cases hclear : r = .clear
    · subst hclear
      rw [tryStep_clear]
      exact atRest_step ih .clear
    · have hmoves : Moves s session (tryStep s act r session).2 := moves_tryStep hclear ih
      exact ⟨hmoves.steps.bounded ih.bounded, hmoves.probing.trans ih.probing_eq⟩

/-- In a whole session the table is sound, whatever the client has given up. -/
theorem Whole.sound (h : Whole s session) : Table.Sound s session.world.table := by
  induction h with
  | start hstart => exact sound_of_start hstart
  | @step session act r hwhole hstopped ih =>
    by_cases hclear : r = .clear
    · subst hclear
      rw [tryStep_clear]
      exact sound_clear hwhole.served.atRest ih (hstopped rfl)
    · exact (moves_tryStep hclear hwhole.served.atRest).steps.sound ih

/-- No request takes more buckets than it may. -/
theorem Served.capacity_lt (h : Served s session) :
    session.world.table.capacity < s.limit.capacity := by
  induction h with
  | start hstart => exact (start_grown hstart).2.steps.capacity_lt s.limit.capacity_pos
  | @step session act r hserved ih =>
    by_cases hclear : r = .clear
    · subst hclear
      rw [tryStep_clear, capacity_clear hserved.atRest]
      exact ih
    · exact (moves_tryStep hclear hserved.atRest).steps.capacity_lt ih

/-- A request that is stopped has a reason, or it is a clear, or the client has given up. -/
theorem Served.stops (h : Served s session) (hf : (tryStep s act r session).1 = .error f) :
    let session' := (tryStep s act r session).2
    Stop s r session session' f ∨ session.world.ClearStop session'.world f ∨ GivesUp act f := by
  by_cases hclear : r = .clear
  · subst hclear
    rw [tryStep_clear] at hf ⊢
    rcases clear_step (s := s) h.atRest with ⟨_, hstep, _⟩ | ⟨g, session', hstep, _, hstop⟩
    · rw [hstep] at hf; exact absurd hf (by simp)
    · rw [hstep] at hf ⊢
      exact Or.inr (Or.inl ((Except.error.inj hf) ▸ hstop))
  · rcases tryStep_cases (serve_ends (s := s) hclear h.atRest) with
      ⟨_, _, hstep, _⟩ | ⟨g, session', hstep, _, hstop⟩
    · rw [hstep] at hf; exact absurd hf (by simp)
    · rw [hstep] at hf ⊢
      have hgf : g = f := Except.error.inj hf
      subst hgf
      exact hstop.imp_right Or.inr

theorem Served.causes (h : Served s session) (hr : ∀ i c, r ≠ .probe i c)
    (hf : (tryStep s act r session).1 = .error f) :
    let session' := (tryStep s act r session).2
    Cause s session.world session'.world f ∨ session.world.ClearStop session'.world f ∨
      GivesUp act f := by
  rcases h.stops hf with (hcause | ⟨hprobe, _⟩) | hrest
  · exact Or.inl hcause
  · exact absurd hprobe (hr _ _)
  · exact Or.inr hrest

/-- The lookup around an inquiry stops for a reason that lookups can have, and leaves the
table as it is. -/
theorem nested_stops {l : Lookup K} {via : Callback} {inquiry : Inquiry K}
    {inner : InquiryResult}
    (hf : (tryStep s act (.nested l via inquiry) session).1 = .ok (.nested (.error f) inner)) :
    LookupStop (GivesUp act) s session.world.table f ∧
      (tryStep s act (.nested l via inquiry) session).2.world.table = session.world.table := by
  have hends : (serve s (.ofClient act) (.nested l via inquiry)).Ends session
      (fun reply session' => (∀ f inner, reply = .nested (.error f) inner →
        LookupStop (GivesUp act) s session.world.table f) ∧
          session'.world.table = session.world.table) fun _ _ => False := by
    refine ends_onWorld.mpr ?_
    rw [ends_bind]
    refine (answerNested_ends fun _ => Interrupt.ofClient_calm).imp (fun r w h => ?_)
      (fun _ _ h => h)
    exact ⟨fun f inner hreply => h.1 f (Reply.nested.inj hreply).1, h.2.2⟩
  rcases tryStep_cases hends with ⟨reply, _, hstep, hreply, htable⟩ | ⟨_, _, _, hfalse⟩
  · rw [hstep] at hf ⊢
    exact ⟨hreply f inner (Except.ok.inj hf), htable⟩
  · exact hfalse.elim

end Session

end OpenAddressing
