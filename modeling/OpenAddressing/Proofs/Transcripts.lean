import OpenAddressing.Proofs.Hookless
import OpenAddressing.Proofs.Nested

/-!
# The calls that a search makes

The callbacks of a strategy have no memory, so the calls that a search makes of them are
known from the array alone: `Seek.transcript` lists them in order, as far as the search
gets. A search with callbacks is then two things one after the other, with nothing between
them: the calls of its transcript are made (`World.perform`), and the search comes to what
the plain search comes to (`Seek.walk_eq`, `World.findKey_eq`). This holds whatever else the
callbacks do when they are called.

A lookup reads the table after its search has ended. If the calls have left the table as it
was, it answers what `Table.plainAnswer` answers (`World.answer_of_performs`).
-/

namespace OpenAddressing

open Act

section

variable {σ α β : Type}

theorem Act.lift_ok {a : α} : (lift (.ok a) : Act σ α) = pure a := rfl

theorem Act.lift_bind {r : Except Fault β} {g : β → Except Fault α} :
    (lift (r >>= g) : Act σ α) = (lift r >>= fun b => lift (g b)) := by
  cases r <;> rfl

end

section

variable {K V : Type} {s : Strategy K} {k : K} {hash : UInt64} {buckets : Array (Bucket K V)}

/-- The call that is made to get from a bucket to the next one. -/
def Strategy.goes (s : Strategy K) (i capacity : Nat) : List (Event K V) :=
  match s.probe? with
  | none => []
  | some _ => [.probed i capacity]

/-- The calls of a walk over `n` more buckets from bucket `i` on; `ask` are the calls that
are made to find out about a key with the right hash. -/
def Seek.transcript (s : Strategy K) (ask : K → List (Event K V)) (accepts : K → Bool)
    (hash : UInt64) (buckets : Array (Bucket K V)) : (n i : Nat) → List (Event K V)
  | 0, _ => []
  | n + 1, i =>
      let onwards := s.goes i buckets.size ++
        match plainStep s.probe i buckets.size with
        | .ok next => transcript s ask accepts hash buckets n next
        | .error _ => []
      match buckets[i]? with
      | none => []
      | some .empty => []
      | some .tombstone => onwards
      | some (.full e) =>
          (if e.hash = hash then ask e.key else []) ++
            if Fits accepts hash e then [] else onwards

/-- The calls of a lookup. -/
def Table.transcript (s : Strategy K) (k : K) (t : Table K V) : List (Event K V) :=
  if t.capacity = 0 then []
  else
    .hashed k :: Seek.transcript s (fun a => [.compared k a]) (s.equals k) (s.hash k) t.buckets
      t.capacity (Probe.home (s.hash k) t.capacity)

/-- The key that is looked up. -/
def Lookup.key {K : Type} : Lookup K → K
  | .get k | .getEntry k | .contains k => k

/-- What a lookup in the table answers. -/
def Table.plainAnswer (s : Strategy K) (t : Table K V) : Lookup K → Except Fault (Answer K V)
  | .get k => (t.plainFind s k).map fun i? => .value ((i?.bind t.entryAt?).map Entry.value)
  | .getEntry k => (t.plainFind s k).map fun i? => .entry ((i?.bind t.entryAt?).map Entry.pair)
  | .contains k => (t.plainFind s k).map fun i? => .flag i?.isSome

theorem Seek.callbacks_of_transcript {ask : K → List (Event K V)} {accepts : K → Bool}
    (hask : ∀ a, ∀ e ∈ ask a, e.callback?.isSome) {n i : Nat} :
    ∀ e ∈ Seek.transcript s ask accepts hash buckets n i, e.callback?.isSome := by
  induction n generalizing i with
  | zero => simp [Seek.transcript]
  | succ n ih =>
    have honwards : ∀ e ∈ (s.goes i buckets.size ++
        match Seek.plainStep s.probe i buckets.size with
        | .ok next => Seek.transcript s ask accepts hash buckets n next
        | .error _ => []), e.callback?.isSome := by
      intro e he
      rcases List.mem_append.mp he with he | he
      · unfold Strategy.goes at he
        split at he
        · exact absurd he (by simp)
        · rw [List.mem_singleton.mp he]
          rfl
      · split at he
        · exact ih e he
        · exact absurd he (by simp)
    rw [Seek.transcript]
    cases buckets[i]? with
    | none => simp
    | some b =>
      cases b with
      | empty => simp
      | tombstone => exact honwards
      | full a =>
        intro e he
        rcases List.mem_append.mp he with he | he
        · split at he
          · exact hask _ e he
          · exact absurd he (by simp)
        · split at he
          · exact absurd he (by simp)
          · exact honwards e he

/-- All that a search calls are callbacks. -/
theorem Table.callbacks_of_transcript {t : Table K V} :
    ∀ e ∈ t.transcript s k, e.callback?.isSome := by
  unfold Table.transcript
  split
  · simp
  · intro e he
    rcases List.mem_cons.mp he with rfl | he
    · rfl
    · refine Seek.callbacks_of_transcript (fun a e he => ?_) e he
      rw [List.mem_singleton.mp he]
      rfl

namespace World

variable {interrupt : Callback → Act (World K V (Journal K V)) Unit}

/-- Makes calls, one after the other: each is written down, and then the callback is
interrupted. -/
def perform (interrupt : Callback → Act (World K V (Journal K V)) Unit) :
    List (Event K V) → Act (World K V (Journal K V)) Unit
  | [] => pure ()
  | e :: events => do
      onClient (Journal.note e)
      e.callback?.elim (pure ()) interrupt
      perform interrupt events

/-- The world after these calls have been written down. -/
def logged (events : List (Event K V)) (w : World K V (Journal K V)) : World K V (Journal K V) :=
  { w with client := events.reverse ++ w.client }

theorem logged_logged {events events' : List (Event K V)} {w : World K V (Journal K V)} :
    (w.logged events).logged events' = w.logged (events ++ events') := by
  unfold logged
  simp

theorem perform_cons {e : Event K V} {events : List (Event K V)} {w : World K V (Journal K V)} :
    perform interrupt (e :: events) w =
      (e.callback?.elim (pure ()) interrupt >>= fun _ => perform interrupt events)
        (w.logged [e]) := rfl

/-- Callbacks that are not interrupted do no more than write down their calls. -/
theorem perform_plain {events : List (Event K V)} {w : World K V (Journal K V)} :
    perform (fun _ => pure ()) events w = .ok () (w.logged events) := by
  induction events generalizing w with
  | nil => rfl
  | cons e events ih =>
    rw [perform_cons]
    have hcall : (e.callback?.elim (pure ()) fun _ => pure () :
        Act (World K V (Journal K V)) Unit) = pure () := by
      cases e.callback? <;> rfl
    rw [hcall, pure_bind, ih, logged_logged]
    rfl

theorem perform_append {events events' : List (Event K V)} :
    perform interrupt (events ++ events') =
      (perform interrupt events >>= fun _ => perform interrupt events') := by
  induction events with
  | nil => rfl
  | cons e events ih =>
    rw [List.cons_append, perform, perform, ih]
    simp only [bind_assoc]

end World

open World

variable {interrupt : Callback → Act (World K V (Journal K V)) Unit}

theorem Strategy.interrupted_hash :
    (s.interrupted interrupt).hash k =
      (perform interrupt [.hashed k] >>= fun _ => pure (s.hash k)) := by
  simp only [perform, bind_assoc, pure_bind]
  rfl

theorem Strategy.interrupted_equals {a b : K} :
    (s.interrupted interrupt).equals a b =
      (perform interrupt [.compared a b] >>= fun _ => pure (s.equals a b)) := by
  simp only [perform, bind_assoc, pure_bind]
  rfl

theorem Strategy.interrupted_probe {i capacity : Nat} :
    (s.interrupted interrupt).probe i capacity =
      (perform interrupt (s.goes i capacity) >>= fun _ => lift (s.probe i capacity)) := by
  unfold Strategy.interrupted Strategy.goes
  dsimp only
  cases s.probe? with
  | none => rfl
  | some p =>
    simp only [perform, bind_assoc, pure_bind]
    rfl

namespace Seek

variable {acc : K → Act (World K V (Journal K V)) Bool} {accepts : K → Bool}
  {ask : K → List (Event K V)}

theorem step_eq {i capacity : Nat} :
    step (s.interrupted interrupt).probe i capacity =
      (perform interrupt (s.goes i capacity) >>= fun _ =>
        lift (plainStep s.probe i capacity)) := by
  unfold step plainStep
  rw [Strategy.interrupted_probe]
  simp only [bind_assoc]
  cases s.probe i capacity with
  | error f => rfl
  | ok next =>
    rw [lift_ok]
    simp only [pure_bind]
    show _ = (perform interrupt (s.goes i capacity) >>= fun _ =>
      lift (if next < capacity then .ok next else .error (.probeOutOfRange next capacity)))
    split <;> rfl

theorem fits_eq (hacc : ∀ a, acc a = (perform interrupt (ask a) >>= fun _ => pure (accepts a)))
    {e : Entry K V} :
    fits acc hash e = (perform interrupt (if e.hash = hash then ask e.key else []) >>= fun _ =>
      pure (decide (Fits accepts hash e))) := by
  unfold fits Fits
  split
  · rename_i heq
    rw [hacc]
    simp [heq]
  · rename_i hne
    simp [hne, perform]

/-- A walk makes the calls of its transcript, and then comes to what the plain walk comes
to. -/
theorem walk_eq (hacc : ∀ a, acc a = (perform interrupt (ask a) >>= fun _ => pure (accepts a)))
    {n i : Nat} {tomb : Option Nat} :
    walk (s.interrupted interrupt).probe acc hash buckets n i tomb =
      (perform interrupt (transcript s ask accepts hash buckets n i) >>= fun _ =>
        lift (plainWalk s.probe accepts hash buckets n i tomb)) := by
  induction n generalizing i tomb with
  | zero => rfl
  | succ n ih =>
    -- both kinds of buckets that are passed go on in this way
    have honwards : ∀ tomb,
        (step (s.interrupted interrupt).probe i buckets.size >>= fun next =>
          walk (s.interrupted interrupt).probe acc hash buckets n next tomb) =
        (perform interrupt (s.goes i buckets.size ++
          match plainStep s.probe i buckets.size with
          | .ok next => transcript s ask accepts hash buckets n next
          | .error _ => []) >>= fun _ =>
        lift (plainStep s.probe i buckets.size >>= fun next =>
          plainWalk s.probe accepts hash buckets n next tomb)) := by
      intro tomb
      rw [step_eq, perform_append]
      simp only [bind_assoc]
      cases plainStep s.probe i buckets.size with
      | error f => rfl
      | ok next =>
        simp only [lift_ok, pure_bind]
        rw [ih]
        rfl
    rw [walk, transcript, plainWalk]
    cases buckets[i]? with
    | none => rfl
    | some b =>
      cases b with
      | empty => rfl
      | tombstone => exact honwards _
      | full e =>
        dsimp only
        rw [fits_eq hacc, perform_append]
        by_cases hfit : Fits accepts hash e
        · simp only [hfit, decide_true, if_true, bind_assoc, pure_bind]
          rfl
        · simp only [hfit, decide_false, Bool.false_eq_true, if_false, bind_assoc, pure_bind]
          rw [honwards]

end Seek

namespace World

variable {w : World K V (Journal K V)}

/-- A search for a key makes the calls of its transcript, and then comes to what the plain
search comes to. -/
theorem findKey_eq :
    findKey (s.interrupted interrupt) k w =
      (perform interrupt (w.table.transcript s k) >>= fun _ =>
        lift (w.table.plainFind s k)) w := by
  unfold findKey Table.transcript Table.plainFind
  rw [get_bind]
  split
  · rfl
  · rw [← List.singleton_append, perform_append, Strategy.interrupted_hash, lift_bind]
    simp only [bind_assoc, pure_bind]
    rw [Seek.find_eq]
    unfold Seek.seek
    rw [Seek.walk_eq fun _ => Strategy.interrupted_equals]
    simp only [bind_assoc]
    rfl

/-! ## Answers -/

/-- What comes of an act is known, and it is followed by a computation without state. -/
theorem bind_lift_of_eq {σ α β : Type} {x : Act σ β} {g : β → Except Fault α}
    {r : Except Fault β} {a b : σ} (h : x a = lift r b) :
    (x >>= fun b => lift (g b)) a = lift (r >>= g) b := by
  cases r with
  | ok _ => exact bind_of_ok h
  | error _ => exact bind_of_error h

theorem bind_pure_of_eq {σ α β : Type} {x : Act σ β} {g : β → α} {r : Except Fault β} {a b : σ}
    (h : x a = lift r b) : (x >>= fun b => pure (g b)) a = lift (r.map g) b := by
  cases r with
  | ok _ => exact bind_of_ok h
  | error _ => exact bind_of_error h

variable {client : Journal K V} {r : Except Fault Unit} {l : Lookup K}

/-- The calls of a search come to `r`, and change nothing but the client. -/
def Performs (interrupt : Callback → Act (World K V (Journal K V)) Unit)
    (events : List (Event K V)) (w : World K V (Journal K V)) (r : Except Fault Unit)
    (client : Journal K V) : Prop :=
  perform interrupt events { w with probing := true } =
    lift r { w with probing := true, client := client }

theorem locate_of_performs (hp : w.probing = false)
    (h : Performs interrupt (w.table.transcript s k) w r client) :
    locate (s.interrupted interrupt) k w =
      lift (r >>= fun _ => w.table.plainFind s k) { w with client := client } := by
  have hfind : findKey (s.interrupted interrupt) k { w with probing := true } =
      lift (r >>= fun _ => w.table.plainFind s k)
        { w with probing := true, client := client } :=
    findKey_eq.trans (bind_lift_of_eq h)
  have hunmark : ({ w with probing := false, client := client } : World K V (Journal K V)) =
      { w with client := client } := by
    rw [← hp]
  unfold locate
  cases hr : r >>= fun _ => w.table.plainFind s k with
  | ok i? =>
    rw [hr] at hfind
    exact (guarded_of_ok hp hfind).trans (by rw [← hunmark]; rfl)
  | error f =>
    rw [hr] at hfind
    exact (guarded_of_error hp hfind).trans (by rw [← hunmark]; rfl)

theorem getEntry?_of_performs (hp : w.probing = false)
    (h : Performs interrupt (w.table.transcript s k) w r client) :
    World.getEntry? (s.interrupted interrupt) k w =
      lift (r >>= fun _ => (w.table.plainFind s k).map fun i? =>
        (i?.bind w.table.entryAt?).map Entry.pair) { w with client := client } := by
  have hlocate := locate_of_performs hp h
  unfold World.getEntry?
  cases r with
  | error f => exact bind_of_error hlocate
  | ok _ =>
    cases hfind : w.table.plainFind s k with
    | error f =>
      rw [hfind] at hlocate
      exact bind_of_error hlocate
    | ok i? =>
      rw [hfind] at hlocate
      refine (bind_of_ok hlocate).trans ?_
      cases i? with
      | none => rfl
      | some i =>
        obtain ⟨e, he, _⟩ := Table.entry_of_plainFind hfind
        have hbucket := Table.bucketAt_of_getElem? (Table.entryAt?_eq_some_iff.mp he)
        show (lift (w.table.bucketAt i) >>= fun b => pure (b.entry?.map Entry.pair))
          { w with client := client } = _
        rw [hbucket]
        show _ = lift (.ok ((w.table.entryAt? i).map Entry.pair)) { w with client := client }
        rw [he]
        rfl

/-- If the calls of its search leave the table alone, a lookup answers what is in it. -/
theorem answer_of_performs (hp : w.probing = false)
    (h : Performs interrupt (w.table.transcript s l.key) w r client) :
    answer (s.interrupted interrupt) l w =
      lift (r >>= fun _ => w.table.plainAnswer s l) { w with client := client } := by
  -- each lookup is the search, followed by a function of what it finds
  cases l with
  | get k =>
    refine (bind_pure_of_eq (bind_pure_of_eq (getEntry?_of_performs hp h))).trans ?_
    cases r with
    | error f => rfl
    | ok _ =>
      show lift ((((w.table.plainFind s k).map _).map _).map _) _ =
        lift ((w.table.plainFind s k).map _) _
      cases w.table.plainFind s k with
      | error f => rfl
      | ok i? =>
        show lift (.ok (Answer.value (Option.map _ (Option.map _ _)))) _ = _
        rw [Option.map_map]
        rfl
  | getEntry k =>
    refine (bind_pure_of_eq (getEntry?_of_performs hp h)).trans ?_
    cases r with
    | error f => rfl
    | ok _ =>
      show lift (((w.table.plainFind s k).map _).map _) _ = lift ((w.table.plainFind s k).map _) _
      cases w.table.plainFind s k <;> rfl
  | contains k =>
    refine (bind_pure_of_eq (bind_pure_of_eq (locate_of_performs hp h))).trans ?_
    cases r with
    | error f => rfl
    | ok _ =>
      show lift (((w.table.plainFind s k).map _).map _) _ = lift ((w.table.plainFind s k).map _) _
      cases w.table.plainFind s k <;> rfl

/-- An ordinary lookup writes down the calls of its transcript. -/
theorem answer_plain (hp : w.probing = false) :
    answer s.callbacks l w =
      lift (w.table.plainAnswer s l) (w.logged (w.table.transcript s l.key)) :=
  answer_of_performs (r := .ok ()) hp perform_plain

end World

/-- A lookup answers what is in the table, and writes down the calls of its transcript. -/
theorem Session.step_lookup {session : Session K V} {l : Lookup K}
    (hp : session.world.probing = false) :
    step s (.lookup l) session =
      ((session.world.table.plainAnswer s l).map .answer,
        ⟨session.world.logged (session.world.table.transcript s l.key), session.cursors⟩) := by
  have hanswer := answer_plain (s := s) (l := l) hp
  cases hr : session.world.table.plainAnswer s l with
  | ok a =>
    rw [hr] at hanswer
    exact step_of_ok (g := .answer) rfl hanswer
  | error f =>
    rw [hr] at hanswer
    exact step_of_error (g := .answer) rfl hanswer

/-- A lookup for the whole pair answers what is in the bucket that the search has found. -/
theorem Session.step_getEntry {session : Session K V} {k : K} {i? : Option Nat}
    (hp : session.world.probing = false)
    (hfind : session.world.table.plainFind s k = .ok i?) :
    step s (.lookup (.getEntry k)) session =
      (.ok (.answer (.entry ((i?.bind session.world.table.entryAt?).map Entry.pair))),
        ⟨session.world.logged (session.world.table.transcript s k), session.cursors⟩) := by
  have hanswer : session.world.table.plainAnswer s (.getEntry k) =
      .ok (.entry ((i?.bind session.world.table.entryAt?).map Entry.pair)) := by
    show (session.world.table.plainFind s k).map _ = _
    rw [hfind]
    rfl
  rw [step_lookup hp, hanswer]
  rfl

end

end OpenAddressing
