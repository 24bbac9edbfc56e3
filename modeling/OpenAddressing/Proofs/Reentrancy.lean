import OpenAddressing.Proofs.Limits
import OpenAddressing.Proofs.Transcripts

/-!
# The guard against calls from inside a search

The map marks itself as searching and takes the mark away when the search ends, with an
answer or with a fault: one of its own, or one with which a callback has given up. So the
mark is never there between two requests, and none of them is stopped for it. That much
holds of all served sessions (`Session.Served.ne_reentrant`).

A callback that calls the map does so once, when it is called for the first time. Up to
there the lookup makes the calls of its transcript. If the callback looks something up,
this is where the lookup ends (`World.answer_refused`); if it only reads the map, the
lookup makes the rest of its calls (`World.answer_read`); and if the callback is not in the
transcript at all, there is nothing to tell it from an ordinary lookup
(`World.answer_uncalled`).
-/

namespace OpenAddressing

open Act World

namespace Journal

variable {K V : Type} {events : List (Event K V)} {via : Callback}

theorem since_append {j : Journal K V} : Journal.since (events.reverse ++ j) j.length = events := by
  unfold Journal.since
  simp

theorem calls_append {events' : List (Event K V)} {c : Callback} :
    calls (events ++ events') c = calls events c + calls events' c :=
  List.countP_append

theorem calls_singleton {e : Event K V} {c : Callback} (h : e.callback? = some c) :
    calls [e] c = 1 := by
  unfold calls
  simp [h]

theorem calls_eq_zero_iff {c : Callback} :
    calls events c = 0 ↔ ∀ e ∈ events, e.callback? ≠ some c := by
  unfold calls
  simp [List.countP_eq_zero]

/-- A callback that is called is called for the first time. -/
theorem exists_first_call {c : Callback} (h : calls events c ≠ 0) :
    ∃ pre e post, events = pre ++ e :: post ∧ calls pre c = 0 ∧ e.callback? = some c := by
  cases hfind : events.find? fun e => e.callback? = some c with
  | none =>
    refine absurd (calls_eq_zero_iff.mpr fun e he => ?_) h
    simpa using List.find?_eq_none.mp hfind e he
  | some e =>
    obtain ⟨he, pre, post, hevents, hpre⟩ := List.find?_eq_some_iff_append.mp hfind
    refine ⟨pre, e, post, hevents, calls_eq_zero_iff.mpr fun a ha => ?_, by simpa using he⟩
    simpa using hpre a ha

end Journal

/-- The number that a call of the map came back with, if the event is such a call. -/
def Event.returned? {K V : Type} : Event K V → Option Nat
  | .returned n => some n
  | _ => none

/-- What the calls during a lookup tell of an inquiry that `via` makes. -/
def InquiryResult.of {K V : Type} (via : Callback) (events : List (Event K V)) : InquiryResult :=
  match events.findSome? Event.returned? with
  | some n => .returned n
  | none => if Journal.calls events via = 0 then .notCalled else .stopped

section

variable {K V : Type} {s : Strategy K} {via : Callback} {l : Lookup K} {q : Inquiry K}
  {events done pre post : List (Event K V)} {e : Event K V}

/-- A callback that is called has not come back from a call of the map. -/
theorem findSome?_returned (hcallbacks : ∀ e ∈ events, e.callback?.isSome) :
    events.findSome? Event.returned? = none := by
  refine List.findSome?_eq_none_iff.mpr fun e he => ?_
  have hcall := hcallbacks e he
  cases e with
  | returned n => exact absurd hcall (by simp [Event.callback?])
  | _ => rfl

namespace InquiryResult

theorem of_uncalled (hcallbacks : ∀ e ∈ events, e.callback?.isSome)
    (h : Journal.calls events via = 0) : InquiryResult.of via events = .notCalled := by
  unfold InquiryResult.of
  rw [findSome?_returned hcallbacks]
  exact if_pos h

theorem of_refused (hcallbacks : ∀ e ∈ events, e.callback?.isSome)
    (h : Journal.calls events via ≠ 0) : InquiryResult.of via events = .stopped := by
  unfold InquiryResult.of
  rw [findSome?_returned hcallbacks]
  exact if_neg h

theorem of_read (hcallbacks : ∀ e ∈ events, e.callback?.isSome) (n : Nat) :
    InquiryResult.of via (events ++ .returned n :: post) = .returned n := by
  unfold InquiryResult.of
  rw [List.findSome?_append, findSome?_returned hcallbacks]
  rfl

end InquiryResult

namespace World

variable {inner : Act (World K V (Journal K V)) Nat} {w : World K V (Journal K V)}

/-- What a callback does, after its call has been written down, if `via` calls the map. -/
def reenter (via : Callback) (inner : Act (World K V (Journal K V)) Nat) (start : Nat)
    (c : Callback) : Act (World K V (Journal K V)) Unit := do
  let calls := Journal.calls ((← get).client.since start) c
  Act.onlyIf (c = via ∧ calls = 1) do
    let answer ← inner
    World.onClient (Journal.note (.returned answer))

theorem reentering_eq {start : Nat} :
    s.reentering .none via inner start = s.interrupted (reenter via inner start) := rfl

/-- The callback calls the map if the last call is its first one. -/
theorem reenter_eq {c : Callback} :
    reenter via inner w.client.length c (w.logged done) =
      (if c = via ∧ Journal.calls done c = 1 then
        (inner >>= fun n => onClient (Journal.note (.returned n))) (w.logged done)
      else .ok () (w.logged done)) := by
  have hsince : Journal.since (w.logged done).client w.client.length = done :=
    Journal.since_append
  unfold reenter Act.onlyIf
  rw [get_bind, hsince]
  split <;> rfl

/-- Nothing is interrupted if `via` has been called before, or if it is not called. -/
theorem perform_uninterrupted (h : Journal.calls done via ≠ 0 ∨ Journal.calls events via = 0) :
    perform (reenter via inner w.client.length) events (w.logged done) =
      .ok () (w.logged (done ++ events)) := by
  induction events generalizing done with
  | nil => rw [List.append_nil]; rfl
  | cons e events ih =>
    have hquiet : (e.callback?.elim (pure ()) (reenter via inner w.client.length))
        (w.logged (done ++ [e])) = .ok () (w.logged (done ++ [e])) := by
      cases hcall : e.callback? with
      | none => rfl
      | some c =>
        refine reenter_eq.trans (if_neg ?_)
        rintro ⟨rfl, hone⟩
        rw [Journal.calls_append, Journal.calls_singleton hcall] at hone
        rcases h with h | h
        · omega
        · exact Journal.calls_eq_zero_iff.mp h e List.mem_cons_self hcall
    rw [perform_cons, logged_logged, bind_of_ok hquiet, ih ?_, List.append_assoc]
    · rfl
    · rw [Journal.calls_append]
      rcases h with h | h
      · exact Or.inl (by omega)
      · refine Or.inr (Journal.calls_eq_zero_iff.mpr fun a ha => ?_)
        exact Journal.calls_eq_zero_iff.mp h a (List.mem_cons_of_mem _ ha)

theorem perform_uncalled (h : Journal.calls events via = 0) :
    perform (reenter via inner w.client.length) events w = .ok () (w.logged events) := by
  have hperform : perform (reenter via inner w.client.length) events (w.logged []) =
      .ok () (w.logged ([] ++ events)) := perform_uninterrupted (Or.inr h)
  exact hperform

/-- At the first call of `via`, the map is called. -/
theorem perform_called (hpre : Journal.calls pre via = 0) (he : e.callback? = some via) :
    perform (reenter via inner w.client.length) (pre ++ e :: post) w =
      (inner >>= fun n => onClient (Journal.note (.returned n)) >>= fun _ =>
        perform (reenter via inner w.client.length) post) (w.logged (pre ++ [e])) := by
  have hbefore : perform (reenter via inner w.client.length) pre w = .ok () (w.logged pre) :=
    perform_uncalled hpre
  have hone : Journal.calls (pre ++ [e]) via = 1 := by
    rw [Journal.calls_append, Journal.calls_singleton he, hpre]
  rw [perform_append, bind_of_ok hbefore, perform_cons, logged_logged, he]
  refine (bind_of_eq (reenter_eq.trans (if_pos ⟨rfl, hone⟩))).trans ?_
  rw [bind_assoc]

/-! ## The lookup around the inquiry -/

/-- If `via` is not called, the lookup is an ordinary one. -/
theorem answer_uncalled (hp : w.probing = false)
    (h : Journal.calls (w.table.transcript s l.key) via = 0) :
    answer (s.reentering .none via inner w.client.length) l w =
      lift (w.table.plainAnswer s l) (w.logged (w.table.transcript s l.key)) := by
  rw [reentering_eq]
  refine answer_of_performs (r := .ok ()) hp ?_
  exact perform_uncalled (w := { w with probing := true }) h

/-- If `via` is called and is not answered, the lookup ends there. -/
theorem answer_refused (hp : w.probing = false) {f : Fault}
    (hinner : ∀ w, w.probing = true → inner w = .error f w)
    (htranscript : w.table.transcript s l.key = pre ++ e :: post)
    (hpre : Journal.calls pre via = 0) (he : e.callback? = some via) :
    answer (s.reentering .none via inner w.client.length) l w =
      lift (.error f) (w.logged (pre ++ [e])) := by
  rw [reentering_eq]
  refine answer_of_performs (r := .error f) hp ?_
  unfold Performs
  rw [htranscript]
  refine (perform_called (w := { w with probing := true }) hpre he).trans ?_
  exact bind_of_error (hinner _ rfl)

/-- If `via` is called and reads the map, it sees the map as it is, and the lookup goes on. -/
theorem answer_read (hp : w.probing = false) {g : Table K V → Nat}
    (hinner : ∀ w, inner w = .ok (g w.table) w)
    (htranscript : w.table.transcript s l.key = pre ++ e :: post)
    (hpre : Journal.calls pre via = 0) (he : e.callback? = some via) :
    answer (s.reentering .none via inner w.client.length) l w =
      lift (w.table.plainAnswer s l) (w.logged (pre ++ e :: .returned (g w.table) :: post)) := by
  have hcalled : Journal.calls (pre ++ ([e] ++ [.returned (g w.table)])) via ≠ 0 := by
    rw [Journal.calls_append, Journal.calls_append, Journal.calls_singleton he]
    omega
  rw [reentering_eq]
  refine answer_of_performs (r := .ok ()) hp ?_
  unfold Performs
  rw [htranscript]
  refine (perform_called (w := { w with probing := true }) hpre he).trans ?_
  refine (bind_of_ok (hinner _)).trans ?_
  -- the answer of the inquiry is written down, and then the other calls are made
  show perform (reenter via inner w.client.length) post
    ((({ w with probing := true } : World K V _).logged (pre ++ [e])).logged
      [.returned (g w.table)]) = _
  rw [logged_logged, List.append_assoc]
  refine (perform_uninterrupted (w := { w with probing := true }) (Or.inl hcalled)).trans ?_
  rw [List.append_assoc]
  rfl

theorem answer_of_probing {τ : Type} {cb : Callbacks K V τ} {w : World K V τ}
    (hp : w.probing = true) : answer cb l w = .error .reentrant w := by
  have hguard : ∀ {α : Type} {act : Act (World K V τ) α}, guarded act w = .error .reentrant w := by
    intro α act
    unfold guarded
    rw [if_pos hp]
  cases l with
  | get k => exact bind_of_error (bind_of_error (bind_of_error hguard))
  | getEntry k => exact bind_of_error (bind_of_error hguard)
  | contains k => exact bind_of_error (bind_of_error hguard)

theorem inquire_walked {τ : Type} {cb : Callbacks K V τ} {w : World K V τ} :
    inquire cb .walked w = .ok w.table.toList.length w := by
  have hitems : World.items w = .ok w.table.toList w := lift_of_ok Table.collect_eq
  exact bind_of_ok hitems

theorem answerNested_eq {r : Except Fault (Answer K V)}
    (h : answer (s.reentering .none via (inquire (s.interrupted .none) q) w.client.length) l w =
      lift r (w.logged events)) :
    answerNested s .none l via q w = .ok (r, .of via events) (w.logged events) := by
  have hattempt : (answer (s.reentering .none via (inquire (s.interrupted .none) q)
      w.client.length) l).attempt w = .ok r (w.logged events) := by
    unfold attempt
    rw [h]
    cases r <;> rfl
  have hsince : Journal.since (w.logged events).client w.client.length = events :=
    Journal.since_append
  unfold answerNested
  rw [get_bind]
  refine (bind_of_ok hattempt).trans ?_
  rw [get_bind, hsince]
  rfl

end World

end

/-- The probe function does not know of the guard. -/
theorem Strategy.probe_ne_reentrant {K : Type} {s : Strategy K} {i capacity : Nat} :
    s.probe i capacity ≠ .error .reentrant := by
  unfold Strategy.probe
  cases s.probe? with
  | none =>
    unfold Probe.linear Probe.strided Word.add Word.rem
    simp only [bind, Except.bind]
    grind
  | some p => cases h : p i capacity <;> simp [h, Except.mapError, Fault.asClient]

namespace Session

variable {K V : Type} {s : Strategy K} {session : Session K V} {via : Callback} {l : Lookup K}
  {q : Inquiry K} {f : Fault} {events : List (Event K V)}

/-- The lookup calls the callback. -/
def Calls (s : Strategy K) (via : Callback) (l : Lookup K) (session : Session K V) : Prop :=
  let client := (step s (.lookup l) session).2.world.client
  Journal.calls (client.since session.world.client.length) via ≠ 0

instance : Decidable (Calls s via l session) := inferInstanceAs (Decidable (_ ≠ _))

/-- With the inquiry made by `via` when it is first called, the lookup comes to `outer` and
the inquiry to `inner`; and nothing changes but the client. -/
def Nests (s : Strategy K) (l : Lookup K) (via : Callback) (q : Inquiry K)
    (session : Session K V) (outer : Except Fault (Answer K V)) (inner : InquiryResult) : Prop :=
  ∃ client, step s (.nested l via q) session =
    (.ok (.nested outer inner), { session with world := { session.world with client := client } })

theorem calls_iff (hp : session.world.probing = false) :
    Calls s via l session ↔ Journal.calls (session.world.table.transcript s l.key) via ≠ 0 := by
  unfold Calls
  rw [step_lookup hp]
  show Journal.calls (Journal.since (_ ++ session.world.client) _) via ≠ 0 ↔ _
  rw [Journal.since_append]

theorem nests_of_answer {r : Except Fault (Answer K V)}
    (h : answer (s.reentering .none via (inquire s.callbacks q) session.world.client.length) l
      session.world = lift r (session.world.logged events)) :
    Nests s l via q session r (.of via events) :=
  ⟨_, step_of_ok (g := fun r => .nested r.1 r.2) rfl (answerNested_eq h)⟩

/-- The calls of a lookup that calls `via`, split at the first of these calls. -/
theorem exists_first_call (hp : session.world.probing = false) (h : Calls s via l session) :
    ∃ pre e post, session.world.table.transcript s l.key = pre ++ e :: post ∧
      Journal.calls pre via = 0 ∧ e.callback? = some via ∧
      ∀ a ∈ pre ++ [e], a.callback?.isSome := by
  obtain ⟨pre, e, post, htranscript, hpre, he⟩ := Journal.exists_first_call ((calls_iff hp).mp h)
  refine ⟨pre, e, post, htranscript, hpre, he, fun a ha => ?_⟩
  refine Table.callbacks_of_transcript (s := s) (k := l.key) (t := session.world.table) a ?_
  rw [htranscript]
  rcases List.mem_append.mp ha with ha | ha
  · exact List.mem_append_left _ ha
  · rw [List.mem_singleton.mp ha]
    simp

theorem nests_uncalled (hp : session.world.probing = false) (h : ¬ Calls s via l session) :
    Nests s l via q session (session.world.table.plainAnswer s l) .notCalled := by
  have hzero : Journal.calls (session.world.table.transcript s l.key) via = 0 :=
    Classical.not_not.mp (mt (calls_iff hp).mpr h)
  have hnests := nests_of_answer (q := q) (answer_uncalled hp hzero)
  rw [InquiryResult.of_uncalled Table.callbacks_of_transcript hzero] at hnests
  exact hnests

/-- A lookup from inside a lookup stops both. -/
theorem nests_refused (hp : session.world.probing = false) (h : Calls s via l session)
    {l' : Lookup K} : Nests s l via (.lookup l') session (.error .reentrant) .stopped := by
  obtain ⟨pre, e, post, htranscript, hpre, he, hcallbacks⟩ := exists_first_call hp h
  have hinner : ∀ w : World K V (Journal K V), w.probing = true →
      inquire s.callbacks (.lookup l') w = .error .reentrant w :=
    fun w hp => bind_of_error (bind_of_error (answer_of_probing hp))
  have hcalled : Journal.calls (pre ++ [e]) via ≠ 0 := by
    rw [Journal.calls_append, Journal.calls_singleton he]
    omega
  have hnests := nests_of_answer (answer_refused hp hinner htranscript hpre he)
  rw [InquiryResult.of_refused hcallbacks hcalled] at hnests
  exact hnests

theorem nests_read (hp : session.world.probing = false) {g : Table K V → Nat}
    (hread : ∀ w : World K V (Journal K V), inquire s.callbacks q w = .ok (g w.table) w) :
    Nests s l via q session (session.world.table.plainAnswer s l)
      (if Calls s via l session then .returned (g session.world.table) else .notCalled) := by
  split
  · rename_i h
    obtain ⟨pre, e, post, htranscript, hpre, he, hcallbacks⟩ := exists_first_call hp h
    have hanswer := answer_read hp hread htranscript hpre he
    rw [List.append_cons] at hanswer
    have hnests := nests_of_answer hanswer
    rw [InquiryResult.of_read hcallbacks] at hnests
    exact hnests
  · rename_i h
    exact nests_uncalled hp h

/-- No request is stopped because a search is running. -/
theorem Served.ne_reentrant (h : Served s session) {act : Callback → Act (Journal K V) Unit}
    {r : Request K V} : (tryStep s act r session).1 ≠ .error .reentrant := by
  intro hf
  rcases h.stops hf with (hcause | ⟨_, hprobe⟩) | hstop | hgives
  · exact (hcause.excused (h.step act r).atRest.bounded.capacity_lt).unguarded rfl
  · exact Strategy.probe_ne_reentrant hprobe
  · exact hstop.excused.unguarded rfl
  · exact absurd hgives.isClient (by simp [Fault.isClient])

theorem Served.finish_ne_reentrant (h : Served s session) :
    (finish session).1 ≠ .error .reentrant :=
  fun hf => (h.excused_of_finish hf).unguarded rfl

/-- The client may give up at any call of a callback or a hook, in any request of a run. Even
so the map is never marked as searching between two requests, and neither a request nor the
end of the map is stopped for a search that is running.

A lookup during which `via` makes another lookup is stopped for this reason exactly if it
calls `via`; else it comes to what it comes to by itself. If `via` asks for the size, or
walks over the map, or reads anything else off the table, then it reads it off the table as
it is, and the lookup comes to what it comes to by itself. Nothing but the client changes
in either case. -/
theorem lookups_guarded (h : Served s session) :
    let t := session.world.table
    (session.world.probing = false ∧
      (∀ act r, (tryStep s act r session).1 ≠ .error .reentrant) ∧
      (finish session).1 ≠ .error .reentrant) ∧
    ∀ l via, ∃ outer, (step s (.lookup l) session).1 = outer.map .answer ∧
      (∀ l', (Calls s via l session →
          Nests s l via (.lookup l') session (.error .reentrant) .stopped) ∧
        (¬ Calls s via l session → Nests s l via (.lookup l') session outer .notCalled)) ∧
      Nests s l via .size session outer
        (if Calls s via l session then .returned t.live else .notCalled) ∧
      (∃ items, t.collect = .ok items ∧ Nests s l via .walked session outer
        (if Calls s via l session then .returned items.length else .notCalled)) ∧
      ∀ read : Table K V → Nat, Calls s via l session → ∃ before after,
        World.answer (s.reentering .none via (do return read (← get).table)
            session.world.client.length) l session.world =
          lift outer (session.world.logged (before ++ .returned (read t) :: after)) := by
  intro t
  have hp := h.atRest.probing_eq
  refine ⟨⟨hp, fun act r => h.ne_reentrant, h.finish_ne_reentrant⟩,
    fun l via => ⟨t.plainAnswer s l, ?_, fun l' => ⟨?_, ?_⟩, ?_, ?_, ?_⟩⟩
  · rw [step_lookup hp]
  · exact fun hcalls => nests_refused hp hcalls
  · exact fun hcalls => nests_uncalled hp hcalls
  · exact nests_read hp fun _ => rfl
  · exact ⟨_, Table.collect_eq, nests_read (g := fun t => t.toList.length) hp fun _ =>
      inquire_walked⟩
  · intro read hcalls
    obtain ⟨pre, e, post, htranscript, hpre, he, _⟩ := exists_first_call hp hcalls
    refine ⟨pre ++ [e], post, ?_⟩
    rw [List.append_assoc]
    exact answer_read hp (fun _ => rfl) htranscript hpre he

/-- The keys 1 and 5 have the same hash, and a search for 5 compares the two; nothing has
the hash of 2. When 5 is to be bound, the hash gives up in the middle of the insertion; the
calls afterwards find no mark. -/
theorem lookups_guarded_colliding :
    let s : Strategy Nat := { hash := fun k => (k % 4).toUInt64, equals := fun a b => a == b }
    let session₀ : Session Nat Nat :=
      { world := { table := .blank 8, heap := ⟨1, 0⟩, client := [] } }
    let act : Callback → Act (Journal Nat Nat) Unit := fun c => require (c ≠ .hash) (.client "no")
    let session := (step s (.insert 1 10) (tryStep s act (.insert 5 50) session₀).2).2
    Session.start s 8 none none = .ok session₀ ∧
      (tryStep s act (.insert 5 50) session₀).1 = .error (.client "no") ∧
      Served s session ∧ session.world.probing = false ∧
      Calls s .equals (.get 5) session ∧ ¬ Calls s .equals (.get 2) session ∧
      Nests s (.get 5) .equals (.lookup (.contains 1)) session (.error .reentrant) .stopped ∧
      (∃ outer, Nests s (.get 2) .equals (.lookup (.contains 1)) session outer .notCalled) ∧
      ∃ outer, Nests s (.get 5) .equals .size session outer (.returned 1) := by
  intro s session₀ act session
  have hstart : Session.start s 8 none none = .ok session₀ := rfl
  have hserved : Served s session :=
    ((Served.start hstart).step act (.insert 5 50)).run [.insert 1 10]
  have hcalls : Calls s .equals (.get 5) session := by decide +kernel
  have hquiet : ¬ Calls s .equals (.get 2) session := by decide +kernel
  have hlive : session.world.table.live = 1 := by decide +kernel
  obtain ⟨⟨hprobing, _⟩, hlookups⟩ := lookups_guarded hserved
  obtain ⟨outer, _, hnested, hsize, _⟩ := hlookups (.get 5) .equals
  obtain ⟨outer', _, hnested', _⟩ := hlookups (.get 2) .equals
  rw [if_pos hcalls, hlive] at hsize
  exact ⟨hstart, rfl, hserved, hprobing, hcalls, hquiet, (hnested _).1 hcalls,
    ⟨outer', (hnested' _).2 hquiet⟩, ⟨outer, hsize⟩⟩

end Session

end OpenAddressing
