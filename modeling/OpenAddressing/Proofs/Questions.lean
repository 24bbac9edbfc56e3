import OpenAddressing.Proofs.Access
import OpenAddressing.Proofs.Comparisons
import OpenAddressing.Proofs.Remnants

/-!
# When the hash and the equality are called

The hash and the equality are asked about keys that a client brings along, and about nothing
else. A search asks the hash once and then compares (`OpenAddressing.Proofs.Comparisons`);
an insertion does so after it has made room, which asks nothing, and so asks nothing at all
if that fails. All that a request does besides is left to the hooks: `HookDriven` acts hand
keys and values over, and call nothing.

A hook does with the journal what it likes. So what a request asks is what it writes down
but for that: `Session.Asks` says that the hooks, and nobody else, have made the journal that
it leaves out of the one that has exactly the given questions on top.
-/

namespace OpenAddressing

open Act World

/-- The key that the request searches for in the table as it is. -/
def Request.sought? {K V : Type} : Request K V → Option K
  | .lookup l => some l.key
  | .update k _ | .erase k | .take k => some k
  | _ => none

/-- The request brings along a key. -/
def Request.hasKey {K V : Type} : Request K V → Bool
  | .lookup _ | .nested _ _ _ | .getEach _ | .containsEach _ | .update _ _ | .insert _ _
  | .insertAll _ | .erase _ | .eraseEach _ | .take _ | .hash _ | .equal _ _ => true
  | _ => false

namespace World

variable {K V τ α β : Type} {w w' w'' : World K V τ}

/-! ## Left to the hooks -/

/-- A hook takes over a key or a value, and leaves the client in `c'`. -/
def HookCall (w : World K V τ) (c c' : τ) : Prop :=
  (∃ hook k, w.keyHook = some hook ∧ (hook k).Ends c (fun _ d => d = c') fun _ d => d = c') ∨
    ∃ hook v, w.valueHook = some hook ∧ (hook v).Ends c (fun _ d => d = c') fun _ d => d = c'

theorem not_hookCall_of_none {c c' : τ} (hkey : w.keyHook.isNone) (hvalue : w.valueHook.isNone) :
    ¬ w.HookCall c c' := by
  rintro (⟨hook, _, hhook, _⟩ | ⟨hook, _, hhook, _⟩)
  · rw [hhook] at hkey
    exact absurd hkey (by simp)
  · rw [hhook] at hvalue
    exact absurd hvalue (by simp)

/-- The client has gone through calls of the hooks. -/
abbrev HookCalls (w : World K V τ) : τ → τ → Prop := Relation.ReflTransGen w.HookCall

theorem hookCalls_congr (hkey : w'.keyHook = w.keyHook) (hvalue : w'.valueHook = w.valueHook) :
    w'.HookCalls = w.HookCalls := by
  unfold HookCalls HookCall
  rw [hkey, hvalue]

/-- The hooks are the same, and they have made of the client what has become of it. -/
structure HooksOnly (w w' : World K V τ) : Prop where
  keyHook : w'.keyHook = w.keyHook
  valueHook : w'.valueHook = w.valueHook
  calls : w.HookCalls w.client w'.client

theorem HooksOnly.of_client_eq (hkey : w'.keyHook = w.keyHook)
    (hvalue : w'.valueHook = w.valueHook) (hclient : w'.client = w.client) : w.HooksOnly w' :=
  ⟨hkey, hvalue, by rw [hclient]⟩

theorem HooksOnly.refl (w : World K V τ) : w.HooksOnly w := ⟨rfl, rfl, .refl⟩

theorem HooksOnly.trans (h : w.HooksOnly w') (h' : w'.HooksOnly w'') : w.HooksOnly w'' where
  keyHook := h'.keyHook.trans h.keyHook
  valueHook := h'.valueHook.trans h.valueHook
  calls := by
    have hcalls := h'.calls
    rw [hookCalls_congr h.keyHook h.valueHook] at hcalls
    exact h.calls.trans hcalls

/-- Whether it returns or stops, the act comes to `w₁`, and to what the hooks make of it. -/
def EndsUpToHooks (act : Act (World K V τ) α) (w w₁ : World K V τ) : Prop :=
  act.Ends w (fun _ w' => w₁.HooksOnly w') fun _ w' => w₁.HooksOnly w'

/-- The act does nothing to the client but call hooks. -/
def HookDriven (act : Act (World K V τ) α) : Prop := ∀ w, EndsUpToHooks act w w

theorem hookDriven_pure {a : α} : HookDriven (pure a : Act (World K V τ) α) := fun w => .refl w

/-- What follows may be left to the hooks. -/
theorem EndsUpToHooks.bind {x : Act (World K V τ) β} {g : β → Act (World K V τ) α}
    (hx : EndsUpToHooks x w w') (hg : ∀ b, HookDriven (g b)) : EndsUpToHooks (x >>= g) w w' := by
  unfold EndsUpToHooks
  rw [ends_bind]
  refine Ends.imp hx (fun b w'' h => ?_) (fun _ _ h => h)
  exact Ends.imp (hg b w'') (fun _ _ h' => h.trans h') (fun _ _ h' => h.trans h')

theorem HookDriven.bind {x : Act (World K V τ) β} {g : β → Act (World K V τ) α}
    (hx : HookDriven x) (hg : ∀ b, HookDriven (g b)) : HookDriven (x >>= g) :=
  fun w => (hx w).bind hg

theorem HookDriven.get {g : World K V τ → Act (World K V τ) α} (hg : ∀ w, HookDriven (g w)) :
    HookDriven (get >>= g) := by
  intro w
  unfold EndsUpToHooks
  rw [ends_bind, ends_get]
  exact hg w w

theorem HookDriven.discard {act : Act (World K V τ) α} (h : HookDriven act) :
    HookDriven (Functor.discard act) := by
  intro w
  unfold EndsUpToHooks
  rw [ends_discard]
  exact h w

theorem HookDriven.onlyIf {p : Prop} [Decidable p] {act : Act (World K V τ) Unit}
    (h : HookDriven act) : HookDriven (Act.onlyIf p act) :=
  Act.onlyIf_of h hookDriven_pure

theorem hookDriven_throw {f : Fault} : HookDriven (throw f : Act (World K V τ) α) :=
  fun w => .refl w

theorem hookDriven_lift {r : Except Fault α} : HookDriven (lift r : Act (World K V τ) α) := by
  cases r with
  | ok a => exact hookDriven_pure
  | error f => exact hookDriven_throw

theorem hookDriven_require {p : Prop} [Decidable p] {f : Fault} :
    HookDriven (require p f : Act (World K V τ) Unit) := by
  unfold require
  split
  · exact hookDriven_pure
  · exact hookDriven_throw

theorem hookDriven_onTable {act : Act (Table K V) α} :
    HookDriven (onTable act : Act (World K V τ) α) := by
  intro w
  unfold EndsUpToHooks
  rw [ends_onTable]
  unfold Ends
  cases act w.table with
  | ok a t => exact .of_client_eq rfl rfl rfl
  | error f t => exact .of_client_eq rfl rfl rfl

theorem hookDriven_onHeap {g : Heap → Heap} :
    HookDriven (modify fun w => { w with heap := g w.heap } : Act (World K V τ) PUnit) :=
  fun w => (.of_client_eq rfl rfl rfl : w.HooksOnly { w with heap := g w.heap })

/-- Handing over is one call of the hook that there is. -/
theorem handOver_hooksOnly (hook? : Option (Hook τ α)) (a : α)
    (h : ∀ hook, hook? = some hook → ∀ c c', (hook a).Ends c (fun _ d => d = c')
      (fun _ d => d = c') → w.HookCall c c') :
    EndsUpToHooks (handOver hook? a) w w := by
  unfold EndsUpToHooks handOver
  cases hhook : hook? with
  | none => exact .refl w
  | some hook =>
    have hcall := h hook hhook w.client
    rw [ends_onClient, ends_asClient]
    unfold Ends at hcall ⊢
    cases hrun : hook a w.client with
    | ok _ c' =>
      rw [hrun] at hcall
      exact ⟨rfl, rfl, .single (hcall c' rfl)⟩
    | error f c' =>
      rw [hrun] at hcall
      exact ⟨rfl, rfl, .single (hcall c' rfl)⟩

theorem release_hookDriven {e : Entry K V} :
    HookDriven (release e : Act (World K V τ) Unit) := by
  intro w
  unfold EndsUpToHooks release
  rw [ends_bind, ends_get, ends_bind]
  have hkey := handOver_hooksOnly w.keyHook e.key (w := w)
    fun hook hhook c c' hrun => Or.inl ⟨hook, e.key, hhook, hrun⟩
  refine Ends.imp hkey (fun _ w' h => ?_) (fun _ _ h => h)
  have hvalue := handOver_hooksOnly w.valueHook e.value (w := w')
    fun hook hhook c c' hrun => Or.inr ⟨hook, e.value, h.valueHook.trans hhook, hrun⟩
  exact Ends.imp hvalue (fun _ _ h' => h.trans h') (fun _ _ h' => h.trans h')

theorem releaseRemoved_hookDriven {r : Option (Entry K V)} :
    HookDriven (releaseRemoved r : Act (World K V τ) Bool) := by
  cases r with
  | none => exact hookDriven_pure
  | some e => exact release_hookDriven.bind fun _ => hookDriven_pure

theorem vacate_hookDriven {n i released : Nat} :
    HookDriven (vacate n i released : Act (World K V τ) Nat) := by
  induction n generalizing i released with
  | zero => exact hookDriven_pure
  | succ n ih =>
    rw [vacate]
    refine hookDriven_onTable.bind fun e? => ?_
    cases e? with
    | none => exact ih
    | some e => exact release_hookDriven.bind fun _ => hookDriven_lift.bind fun _ => ih

theorem clear_hookDriven : HookDriven (clear : Act (World K V τ) Unit) := by
  refine HookDriven.get fun _ => vacate_hookDriven.bind fun _ => HookDriven.get fun _ => ?_
  exact hookDriven_require.bind fun _ => hookDriven_onTable

theorem summary_hookDriven : HookDriven (summary : Act (World K V τ) Summary) :=
  HookDriven.get fun _ => hookDriven_lift.bind fun _ => hookDriven_pure

theorem items_hookDriven : HookDriven (items : Act (World K V τ) (List (K × V))) :=
  HookDriven.get fun _ => hookDriven_lift

theorem walk_hookDriven {part : Part} {limit : Option Nat} :
    HookDriven (walk part limit : Act (World K V τ) (WalkReport K V)) :=
  HookDriven.get fun _ => hookDriven_lift.bind fun _ => hookDriven_lift.bind fun _ =>
    hookDriven_pure

theorem inspectSnapshot_hookDriven {part : Part} {positions : List Nat} : HookDriven
    (inspectSnapshot part positions : Act (World K V τ) (Option (SnapshotReport K V))) := by
  refine HookDriven.bind (HookDriven.get fun w => ?_) fun shot => ?_
  · dsimp only
    split
    · exact hookDriven_pure
    · refine hookDriven_lift.discard.bind fun _ => hookDriven_onHeap.bind fun _ => ?_
      split
      · exact hookDriven_pure
      · exact hookDriven_onHeap.bind fun _ => hookDriven_throw
  · cases shot with
    | none => exact hookDriven_pure
    | some shot =>
      exact HookDriven.get fun _ => hookDriven_onHeap.bind fun _ => hookDriven_lift.bind fun _ =>
        hookDriven_pure

end World

namespace Cursor

variable {K V τ : Type} {c : Cursor}

theorem erase_hookDriven : HookDriven (c.erase : Act (World K V τ) Bool) :=
  hookDriven_onTable.bind fun _ => releaseRemoved_hookDriven

theorem sweep_hookDriven {stride n visited : Nat} :
    HookDriven (sweep stride n visited c : Act (World K V τ) (List K)) := by
  induction n generalizing visited c with
  | zero => exact hookDriven_pure
  | succ n ih =>
    rw [sweep]
    refine HookDriven.get fun w => ?_
    dsimp only
    split
    · exact hookDriven_pure
    · exact (HookDriven.onlyIf erase_hookDriven.discard).bind fun _ =>
        HookDriven.get fun _ => hookDriven_lift.bind fun _ => ih.bind fun _ => hookDriven_pure

end Cursor

/-! ## Searches -/

section

variable {K V : Type} {s : Strategy K} {k : K} {v : V} {w w₁ : World K V (Journal K V)}

theorem World.locate_endsUpToHooks (hp : w.probing = false) :
    EndsUpToHooks (locate s.callbacks k) w (w.logged (w.table.transcript s k)) := by
  unfold EndsUpToHooks
  rw [ends_of_eq (locate_plain hp), ends_lift]
  exact ⟨fun _ _ => .refl _, fun _ _ => .refl _⟩

theorem World.remove_endsUpToHooks (hp : w.probing = false) :
    EndsUpToHooks (remove s.callbacks k) w (w.logged (w.table.transcript s k)) := by
  refine (locate_endsUpToHooks hp).bind fun i? => ?_
  cases i? with
  | none => exact hookDriven_pure
  | some i => exact hookDriven_onTable

/-- Once there is room, an insertion makes the calls of a search. -/
theorem World.insertSlot_asks (hroom : makeRoom s.callbacks w = .ok () w₁)
    (hpos : w₁.table.capacity ≠ 0) :
    EndsUpToHooks (insertSlot s.callbacks k v) w (w₁.logged (w₁.table.transcript s k)) := by
  have hends : Seek.BothEnd s k (s.hash k) w₁.table.buckets _ _ _ :=
    Seek.bothEnd_of_walk (Nat.pos_of_ne_zero hpos) rfl
  have hacquire := (hends (w₁.logged [.hashed k])).2
  rw [logged_logged] at hacquire
  have hcalls : w₁.table.transcript s k = [.hashed k] ++ Seek.transcript s
      (fun a => [.compared k a]) (s.equals k) (s.hash k) w₁.table.buckets w₁.table.buckets.size
      (Probe.home (s.hash k) w₁.table.buckets.size) := if_neg hpos
  have hhash : s.callbacks.hash k w₁ = .ok (s.hash k) (w₁.logged [.hashed k]) := rfl
  rw [hcalls]
  unfold EndsUpToHooks insertSlot
  rw [ends_of_eq (bind_of_ok hroom), ends_of_eq (bind_of_ok hhash), ends_bind, ends_get, ends_bind]
  refine (ends_of_eq hacquire).mpr (ends_lift.mpr ⟨fun slot _ => ?_, fun _ _ => .refl _⟩)
  cases slot with
  | occupied i => exact (hookDriven_onTable.bind fun _ => hookDriven_pure) _
  | vacant i reused => exact (hookDriven_onTable.bind fun _ => hookDriven_pure) _

/-- Once there is room, an insertion makes the calls of a search, and leaves all else to the
hooks. -/
theorem World.insert_asks (hp : w.probing = false)
    (hroom : makeRoom s.callbacks { w with probing := true } = .ok () w₁)
    (hpos : w₁.table.capacity ≠ 0) :
    EndsUpToHooks (insert s.callbacks k v) w (w₁.logged (w₁.table.transcript s k)) := by
  have hslot := insertSlot_asks (k := k) (v := v) hroom hpos
  have hunmark : ∀ {w₂ w₃ : World K V (Journal K V)}, w₂.HooksOnly w₃ →
      w₂.HooksOnly { w₃ with probing := false } := fun h => ⟨h.keyHook, h.valueHook, h.calls⟩
  unfold EndsUpToHooks insert
  rw [ends_bind, ends_guarded]
  refine ⟨fun h => absurd (hp.symm.trans h) (by simp), fun _ => ?_⟩
  refine hslot.imp (fun replaced w₂ h => ?_) (fun _ _ h => hunmark h)
  -- the load is checked once more, and an entry that has been replaced is released
  refine Ends.imp (HookDriven.get (fun _ => hookDriven_lift.bind fun _ =>
    hookDriven_require.bind fun _ => ?_) _) (fun _ _ h' => (hunmark h).trans h')
    fun _ _ h' => (hunmark h).trans h'
  cases replaced with
  | none => exact hookDriven_pure
  | some old => exact release_hookDriven

/-- To go on to the next bucket is no question. -/
theorem World.probe_questions {i capacity : Nat} :
    Keeps (fun w => Journal.questions w.client)
      ((s.callbacks : Callbacks K V (Journal K V)).probe i capacity) := by
  unfold Strategy.callbacks Strategy.interrupted
  dsimp only
  split
  · exact keeps_lift
  · have hprobed : (.probed i capacity : Event K V).Unseen
        fun w => Journal.questions w.client := fun _ => rfl
    exact hprobed.note_keeps.bind fun _ => keeps_pure.bind fun _ => keeps_lift

/-- No demand asks any questions. -/
theorem World.meet_questions (d : Demand) :
    Keeps (fun w => Journal.questions w.client)
      (meet (s.callbacks : Callbacks K V (Journal K V)) d) :=
  meet_keeps (fun _ _ h => by rw [h]) (fun _ _ => probe_questions) d

theorem World.questions_logged {events : List (Event K V)} :
    (w.logged events).client.questions =
      (events.filter Event.isQuestion).reverse ++ w.client.questions := by
  unfold World.logged Journal.questions
  rw [List.filter_append, List.filter_reverse]

end

namespace Session

variable {K V α : Type} {s : Strategy K} {session session' : Session K V} {r : Request K V}
  {k : K} {v : V} {qs : List (Event K V)}

/-- On the way from one session to the other these questions are asked, in this order: the
journal is what the hooks have made of one that has the questions on top. -/
def Asks (session session' : Session K V) (qs : List (Event K V)) : Prop :=
  ∃ j : Journal K V, j.questions = qs.reverse ++ session.world.client.questions ∧
    session.world.HookCalls j session'.world.client

/-- If no hook writes a question down itself, then those in the journal are those asked. -/
theorem Asks.questions_eq (h : Asks session session' qs)
    (hhooks : ∀ c c', session.world.HookCall c c' → c'.questions = c.questions) :
    session'.world.client.questions = qs.reverse ++ session.world.client.questions := by
  obtain ⟨j, hj, hcalls⟩ := h
  rw [← hj]
  clear hj
  generalize session'.world.client = c at hcalls
  induction hcalls with
  | refl => rfl
  | tail _ hcall ih => rw [hhooks _ _ hcall, ih]

theorem asks_of_client_eq (h : session'.world.client = session.world.client) :
    Asks session session' [] :=
  ⟨session.world.client, rfl, by rw [h]⟩

variable {act : Act (World K V (Journal K V)) α} {g : α → Reply K V}

/-- The questions are asked on the way to `w₁`, and the rest is left to the hooks. -/
theorem asks_of_endsUpToHooks
    (hact : handle s r session = onWorld (act >>= fun a => pure (g a)) session)
    (w₁ : World K V (Journal K V)) (hkey : w₁.keyHook = session.world.keyHook)
    (hvalue : w₁.valueHook = session.world.valueHook)
    (hqs : w₁.client.questions = qs.reverse ++ session.world.client.questions)
    (h : EndsUpToHooks act session.world w₁) : Asks session (step s r session).2 qs := by
  have hasks : ∀ w', w₁.HooksOnly w' → Asks session ⟨w', session.cursors⟩ qs := by
    intro w' hw'
    have hcalls := hw'.calls
    rw [hookCalls_congr hkey hvalue] at hcalls
    exact ⟨w₁.client, hqs, hcalls⟩
  cases hrun : act session.world with
  | ok a w' =>
    rw [step_of_ok hact hrun]
    exact hasks w' (h.of_ok hrun)
  | error f w' =>
    rw [step_of_error hact hrun]
    exact hasks w' (h.of_error hrun)

theorem asks_of_hookDriven
    (hact : handle s r session = onWorld (act >>= fun a => pure (g a)) session)
    (h : HookDriven act) : Asks session (step s r session).2 [] :=
  asks_of_endsUpToHooks hact session.world rfl rfl rfl (h session.world)

theorem asks_of_keeps
    (hact : handle s r session = onWorld (act >>= fun a => pure (g a)) session)
    (h : Keeps (fun w => Journal.questions w.client) act) :
    Asks session (step s r session).2 [] := by
  cases hrun : act session.world with
  | ok a w' =>
    rw [step_of_ok hact hrun]
    exact ⟨w'.client, (h session.world).of_ok hrun, .refl⟩
  | error f w' =>
    rw [step_of_error hact hrun]
    exact ⟨w'.client, (h session.world).of_error hrun, .refl⟩

/-- A request that brings along no key asks nothing. -/
theorem asks_nothing (hr : r.hasKey = false) : Asks session (step s r session).2 [] := by
  cases r with
  | rehash capacity => exact asks_of_keeps rfl (meet_questions (.rehash capacity))
  | reserve extra => exact asks_of_keeps rfl (meet_questions (.reserve extra))
  | clear => exact asks_of_hookDriven rfl clear_hookDriven
  | setKeyHook hook => exact asks_of_client_eq rfl
  | setValueHook hook => exact asks_of_client_eq rfl
  | summary => exact asks_of_hookDriven rfl summary_hookDriven
  | probe i capacity => exact asks_of_keeps rfl probe_questions
  | entries => exact asks_of_client_eq rfl
  | items => exact asks_of_hookDriven rfl items_hookDriven
  | walk part limit => exact asks_of_hookDriven rfl walk_hookDriven
  | updateWalk part limit f =>
    have hwalk : HookDriven (updateWalk part limit f : Act (World K V (Journal K V)) _) :=
      HookDriven.get fun _ => hookDriven_lift.bind fun _ => hookDriven_onTable.bind fun _ =>
        hookDriven_lift.bind fun _ => hookDriven_pure
    exact asks_of_hookDriven rfl hwalk
  | snapshot part positions => exact asks_of_hookDriven rfl inspectSnapshot_hookDriven
  | cursor c => exact asks_of_client_eq rfl
  | advance c => exact asks_of_client_eq (by rw [advance_world])
  | copyCursor c source => exact asks_of_client_eq rfl
  | sameCursor c₁ c₂ => exact asks_of_client_eq rfl
  | look c => exact asks_of_client_eq rfl
  | updateAt c f => exact asks_of_hookDriven rfl hookDriven_onTable
  | eraseAt c => exact asks_of_hookDriven rfl Cursor.erase_hookDriven
  | takeAt c => exact asks_of_hookDriven rfl (hookDriven_onTable.bind fun _ => hookDriven_pure)
  | sweep stride => exact asks_of_hookDriven rfl (HookDriven.get fun _ => Cursor.sweep_hookDriven)
  | _ => exact absurd hr (by simp [Request.hasKey])

/-- A request that searches for a key asks what the search asks. -/
theorem asks_of_sought (hp : session.world.probing = false) (hr : r.sought? = some k) :
    Asks session (step s r session).2
      ((session.world.table.transcript s k).filter Event.isQuestion) := by
  let w₁ := session.world.logged (session.world.table.transcript s k)
  cases r with
  | lookup l =>
    obtain rfl : l.key = k := Option.some.inj hr
    rw [step_lookup hp]
    exact ⟨w₁.client, questions_logged, .refl⟩
  | update k' f =>
    obtain rfl : k' = k := Option.some.inj hr
    refine asks_of_endsUpToHooks (g := .value) rfl w₁ rfl rfl questions_logged
      ((locate_endsUpToHooks hp).bind fun i? => ?_)
    cases i? with
    | none => exact hookDriven_pure
    | some i =>
      exact HookDriven.get fun _ => hookDriven_lift.discard.bind fun _ => hookDriven_onTable
  | erase k' =>
    obtain rfl : k' = k := Option.some.inj hr
    exact asks_of_endsUpToHooks rfl w₁ rfl rfl questions_logged
      ((remove_endsUpToHooks hp).bind fun _ => releaseRemoved_hookDriven)
  | take k' =>
    obtain rfl : k' = k := Option.some.inj hr
    exact asks_of_endsUpToHooks rfl w₁ rfl rfl questions_logged
      ((remove_endsUpToHooks hp).bind fun _ => hookDriven_pure)
  | _ => exact absurd hr (by simp [Request.sought?])

/-- An insertion that makes no room asks nothing. -/
theorem asks_of_no_room (hw : session.world.AtRest) {f : Fault} {w₁ : World K V (Journal K V)}
    (hroom : makeRoom s.callbacks (session.demanding .insertion) = .error f w₁) :
    (step s (.insert k v) session).1 = .error f ∧
      Asks session (step s (.insert k v) session).2 [] := by
  have hstep : step s (.insert k v) session =
      (.error f, ⟨{ w₁ with probing := false }, session.cursors⟩) :=
    step_of_error (g := fun _ => .done) rfl (insert_of_makeRoom_error hw.probing_eq hroom)
  rw [hstep]
  exact ⟨rfl, w₁.client,
    (meet_questions .insertion (session.demanding .insertion)).of_error hroom, .refl⟩

/-- An insertion that makes room asks what a search asks in the table that has it. -/
theorem asks_of_room (hw : session.world.AtRest) {w₁ : World K V (Journal K V)}
    (hroom : makeRoom s.callbacks (session.demanding .insertion) = .ok () w₁) :
    w₁.client.questions = session.world.client.questions ∧ w₁.table.capacity ≠ 0 ∧
      w₁.table.Bounded ∧ w₁.table.entries.Perm session.world.table.entries ∧
      Asks session (step s (.insert k v) session).2
        ((w₁.table.transcript s k).filter Event.isQuestion) := by
  obtain ⟨hrest, hgrown, hroomy⟩ := (makeRoom_ends s.callbacks_plain
    (w := session.demanding .insertion) hw.bounded).of_ok hroom
  have hquestions : w₁.client.questions = session.world.client.questions :=
    (meet_questions .insertion (session.demanding .insertion)).of_ok hroom
  have hpos : w₁.table.capacity ≠ 0 := by
    unfold Table.Roomy at hroomy
    omega
  refine ⟨hquestions, hpos, hgrown.steps.bounded hw.bounded, hgrown.entries_perm, ?_⟩
  refine asks_of_endsUpToHooks (g := fun _ => .done) rfl (w₁.logged (w₁.table.transcript s k))
    hrest.keyHook hrest.valueHook ?_ (insert_asks hw.probing_eq hroom hpos)
  rw [questions_logged, hquestions]

/-- When the hash and the equality are called, in every session that can be reached and
whatever the hooks do:

* A request that searches for a key in a map with buckets asks for the hash of this key
  first, and once. Then it compares the key with stored ones that have this hash, in this
  order of arguments, and goes on only as long as they are not equal. Without buckets it asks
  nothing.
* An insertion whose growth stops asks nothing. Growth that does not stop has asked nothing,
  and is followed by a search in the table that it leaves, which has the same entries.
* If the probe function comes to no bucket twice within a lap, as probing linearly does, then
  no entry is compared twice, and there are no more comparisons than entries with the hash.
* A request that brings along no key asks nothing.

What hooks add to the journal is up to them; if they leave the questions alone, then these
are all that is new in it (`Asks.questions_eq`). -/
theorem questions_asked (h : Reachable s session) :
    let t := session.world.table
    let equallyHashed (k : K) : Nat := t.entries.countP fun e => e.hash = s.hash k
    (∀ r k, r.sought? = some k →
      (t.capacity = 0 → Asks session (step s r session).2 []) ∧
      (t.capacity ≠ 0 → ∃ xs, Asks session (step s r session).2 (Table.questions k xs) ∧
        t.Compares s k xs ∧
        (s.probe = Probe.linear ∨ s.probe.OncePerLap t.capacity →
          (xs.map Prod.fst).Nodup ∧ xs.length ≤ equallyHashed k))) ∧
    (∀ k v,
      (∀ f w₁, makeRoom s.callbacks (session.demanding .insertion) = .error f w₁ →
        (step s (.insert k v) session).1 = .error f ∧
          Asks session (step s (.insert k v) session).2 []) ∧
      ∀ w₁, makeRoom s.callbacks (session.demanding .insertion) = .ok () w₁ →
        w₁.client.questions = session.world.client.questions ∧
        w₁.table.entries.Perm t.entries ∧
        ∃ xs, Asks session (step s (.insert k v) session).2 (Table.questions k xs) ∧
          w₁.table.Compares s k xs ∧
          (s.probe = Probe.linear ∨ s.probe.OncePerLap w₁.table.capacity →
            (xs.map Prod.fst).Nodup ∧ xs.length ≤ equallyHashed k)) ∧
    ∀ r : Request K V, r.hasKey = false → Asks session (step s r session).2 [] := by
  intro t equallyHashed
  have hw := h.atRest
  refine ⟨fun r k hr => ⟨fun h0 => ?_, fun hpos => ?_⟩, fun k v => ⟨fun f w₁ hroom => ?_,
    fun w₁ hroom => ?_⟩, fun r hr => asks_nothing hr⟩
  · have hasks := asks_of_sought (s := s) hw.probing_eq hr
    have hempty : t.transcript s k = [] := if_pos h0
    rw [show session.world.table = t from rfl, hempty] at hasks
    exact hasks
  · have hasks := asks_of_sought (s := s) hw.probing_eq hr
    obtain ⟨xs, hquestions, hcompares⟩ := Table.questions_transcript (s := s) (k := k) hpos
    rw [show session.world.table = t from rfl, hquestions] at hasks
    refine ⟨xs, hasks, hcompares, fun hprobe => ?_⟩
    have honce := hw.bounded.oncePerLap hprobe
    exact ⟨hcompares.once honce, hcompares.length_le honce⟩
  · exact asks_of_no_room hw hroom
  · obtain ⟨hsame, hpos, hbounded, hperm, hasks⟩ := asks_of_room (k := k) (v := v) hw hroom
    obtain ⟨xs, hquestions, hcompares⟩ := Table.questions_transcript (s := s) (k := k) hpos
    rw [hquestions] at hasks
    refine ⟨hsame, hperm, xs, hasks, hcompares, fun hprobe => ?_⟩
    have honce := hbounded.oncePerLap hprobe
    refine ⟨hcompares.once honce, (hcompares.length_le honce).trans ?_⟩
    exact Nat.le_of_eq (hperm.countP_eq _)

/-- A key that is not in the map is compared with the two keys of its hash, and not with the
third one on its path. There are no hooks, so that the journal has these questions on top. -/
theorem questions_asked_cluster :
    let s : Strategy Nat := { hash := fun k => (k % 10).toUInt64, equals := fun a b => a == b }
    let session₀ : Session Nat Nat :=
      { world := { table := .blank 8, heap := ⟨1, 0⟩, client := [] } }
    let session := (run s [.insert 1 10, .insert 2 20, .insert 11 110] session₀).2
    let session' := (step s (.lookup (.get 21)) session).2
    Session.start s 8 none none = .ok session₀ ∧ Reachable s session ∧
      session'.world.client.questions =
        [.compared 21 11, .compared 21 1, .hashed 21] ++ session.world.client.questions ∧
      ∃ xs, session'.world.client.questions =
          (Table.questions 21 xs).reverse ++ session.world.client.questions ∧
        (xs.map Prod.fst).Nodup ∧ xs.length ≤ 2 := by
  intro s session₀ session session'
  have hstart : Session.start s 8 none none = .ok session₀ := rfl
  have hreach : Reachable s session := (Reachable.start hstart).run _
  have hcount : session.world.table.entries.countP (fun e => e.hash = s.hash 21) = 2 := by
    decide +kernel
  have hkey : session.world.keyHook.isNone := by decide +kernel
  have hvalue : session.world.valueHook.isNone := by decide +kernel
  have hjournal : ∀ {session'} {qs : List (Event Nat Nat)}, Asks session session' qs →
      session'.world.client.questions = qs.reverse ++ session.world.client.questions :=
    fun h => h.questions_eq fun _ _ hcall => absurd hcall (not_hookCall_of_none hkey hvalue)
  obtain ⟨hsought, _⟩ := questions_asked hreach
  obtain ⟨xs, hasks, _, hfrugal⟩ := (hsought (.lookup (.get 21)) 21 rfl).2 (by decide +kernel)
  obtain ⟨hnodup, hlength⟩ := hfrugal (Or.inl rfl)
  exact ⟨hstart, hreach, by decide +kernel, xs, hjournal hasks, hnodup, hcount ▸ hlength⟩

end Session

end OpenAddressing
