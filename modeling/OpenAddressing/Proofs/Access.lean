import OpenAddressing.Proofs.Sessions
import OpenAddressing.Proofs.Transcripts

/-!
# Two ways to an entry

An entry can be treated through a cursor, which names its bucket, or through its key, which
has to be searched for. In a sound table with a lawful equality the search comes to the
entry that the key was read from (`Sound.plainFind_entry`), whatever path the probe function
takes. So a request for the key makes the calls of the search, and from there on it is the
request for the cursor (`treatByKey_eq`).

The calls of the search are written into the journal before the hooks are called. Hooks that
write down and raise the same whatever calls of callbacks the journal holds are *unaware*;
such hooks cannot tell the two requests apart (`treat_unaware`).
-/

namespace OpenAddressing

open Act World

/-- What a journal holds besides the calls of the callbacks. -/
def Journal.uncalled {K V : Type} (j : Journal K V) : List (Event K V) :=
  j.filter fun e => e.callback?.isNone

/-- The hook returns or raises the same, and writes down the same, whatever calls of the
callbacks have been written down before. -/
def Hook.Unaware {K V α : Type} (hook : Hook (Journal K V) α) : Prop :=
  ∀ a j j', Journal.uncalled j = Journal.uncalled j' → ∃ r written,
    hook a j = lift r (written ++ j) ∧ hook a j' = lift r (written ++ j')

namespace Hook

variable {K V α : Type}

theorem recordKey_unaware (label : String) :
    (recordKey label : Hook (Journal K V) K).Unaware :=
  fun k _ _ _ => ⟨.ok (), [.keyReleased label k], rfl, rfl⟩

theorem recordValue_unaware (label : String) :
    (recordValue label : Hook (Journal K V) V).Unaware :=
  fun v _ _ _ => ⟨.ok (), [.valueReleased label v], rfl, rfl⟩

theorem Unaware.failing {hook : Hook (Journal K V) α} (h : hook.Unaware) (message : String) :
    (hook.failing message).Unaware := by
  intro a j j' hj
  obtain ⟨r, written, hrun, hrun'⟩ := h a j j' hj
  cases r with
  | ok _ =>
    exact ⟨.error (.client message), written, bind_of_ok hrun, bind_of_ok hrun'⟩
  | error f => exact ⟨.error f, written, bind_of_error hrun, bind_of_error hrun'⟩

end Hook

/-- What can be done to an entry. -/
inductive Treatment (V : Type) where
  | erase
  | take
  | update (f : V → V)

namespace Treatment

variable {K V : Type}

/-- The request for the entry of a key. -/
def byKey (k : K) : Treatment V → Request K V
  | .erase => .erase k
  | .take => .take k
  | .update f => .update k f

/-- The request for the entry under the cursor in a register. -/
def atCursor (r : Nat) : Treatment V → Request K V
  | .erase => .eraseAt r
  | .take => .takeAt r
  | .update f => .updateAt r f

/-- The reply where there is no entry. -/
def nothing : Treatment V → Reply K V
  | .erase => .flag false
  | .take => .pair none
  | .update _ => .value none

/-- What the request for a key does to the world. -/
def treatByKey (s : Strategy K) (k : K) : Treatment V → Act (World K V (Journal K V)) (Reply K V)
  | .erase => do return .flag (← World.erase s.callbacks k)
  | .take => do return .pair (← World.take s.callbacks k)
  | .update f => do return .value (← World.update s.callbacks k f)

/-- What the request for a cursor does to the world. -/
def treat (c : Cursor) : Treatment V → Act (World K V (Journal K V)) (Reply K V)
  | .erase => do return .flag (← c.erase)
  | .take => do return .pair (← c.take)
  | .update f => do return .value (← c.update f)

/-- The reply where there is an entry. -/
def reply (e : Entry K V) : Treatment V → Reply K V
  | .erase => .flag true
  | .take => .pair (some e.pair)
  | .update f => .value (some (f e.value))

/-- The entry is handed to the hooks. -/
def releases : Treatment V → Bool
  | .erase => true
  | _ => false

/-- The table after the treatment of the entry `e` in bucket `i`. -/
def table (t : Table K V) (i : Nat) (e : Entry K V) : Treatment V → Table K V
  | .update f => t.setBucket i (.full (e.mapValue f))
  | _ => t.buryAt i

end Treatment

namespace Table

variable {K V : Type} {s : Strategy K} {t : Table K V} {i : Nat} {e : Entry K V}

/-- A lookup of the key of an entry comes to this entry. -/
theorem Sound.plainFind_entry (h : Sound s t) (hlaw : s.Lawful) (he : t.entryAt? i = some e) :
    t.plainFind s e.key = .ok (some i) := by
  have hhash : e.hash = s.hash e.key := h.hashed e (mem_entries_iff.mpr ⟨i, he⟩)
  have hpos : t.capacity ≠ 0 := by
    have hi := lt_capacity_of_entryAt? he
    omega
  have hreach : t.Reaches s.probe (s.hash e.key) i := hhash ▸ h.reached i e he
  obtain ⟨x, hx⟩ := exists_plainSeek_hit he hreach ⟨hhash, hlaw.equiv.refl e.key⟩
  obtain ⟨⟨a, ha, _, hkey⟩, _⟩ := plainSeek_hit hx
  -- the entry that the search ends at has an equal key, and there is only one such entry
  have hxi : x = i := h.eq_of_equals hlaw he ha hkey
  rw [plainFind_of_plainSeek hpos hx, hxi]
  rfl

end Table

namespace World

variable {K V : Type} {s : Strategy K} {k : K} {w : World K V (Journal K V)} {c : Cursor}
  {e : Entry K V} {d : Treatment V} {j j' : Journal K V}

theorem onTable_of_ok {α τ : Type} {act : Act (Table K V) α} {w : World K V τ} {a : α}
    {t : Table K V} (h : act w.table = .ok a t) : onTable act w = .ok a { w with table := t } := by
  unfold onTable
  dsimp only
  rw [h]

/-- The search for a key makes the calls of its transcript, and the mark is gone after it. -/
theorem locate_plain (hp : w.probing = false) :
    locate s.callbacks k w =
      lift (w.table.plainFind s k) (w.logged (w.table.transcript s k)) :=
  locate_of_performs (r := .ok ()) hp perform_plain

/-- A request for the key of an entry is the request for its bucket, after the search. -/
theorem treatByKey_eq (hp : w.probing = false) (he : w.table.entryAt? c.index = some e)
    (hfind : w.table.plainFind s k = .ok (some c.index)) :
    d.treatByKey s k w = d.treat c (w.logged (w.table.transcript s k)) := by
  have hlocate : locate s.callbacks k w =
      .ok (some c.index) (w.logged (w.table.transcript s k)) := by
    rw [locate_plain hp, hfind]
    rfl
  have hremove : remove s.callbacks k w =
      removeAt c.index (w.logged (w.table.transcript s k)) := bind_of_ok hlocate
  cases d with
  | erase => exact bind_of_eq (bind_of_eq hremove)
  | take => exact bind_of_eq (bind_of_eq hremove)
  | update f =>
    refine bind_of_eq ((bind_of_ok hlocate).trans ?_)
    have hbucket := Table.bucketAt_of_getElem? (Table.entryAt?_eq_some_iff.mp he)
    show (discard (lift (w.table.bucketAt c.index)) >>= fun _ => onTable _)
      (w.logged (w.table.transcript s k)) = _
    rw [hbucket]
    rfl

/-- A treatment changes the bucket of the entry. An erasure hands the entry to the hooks
after that; the other treatments call nothing. -/
theorem treat_eq (hw : w.table.Bounded) (he : w.table.entryAt? c.index = some e) :
    d.treat c w =
      (onlyIf (d.releases = true) (release e) >>= fun _ => pure (d.reply e))
        { w with table := d.table w.table c.index e } := by
  have hremove : removeAt c.index w = .ok (some e) { w with table := w.table.buryAt c.index } :=
    onTable_of_ok (Table.bury_eq hw he)
  cases d with
  | erase =>
    refine (bind_of_eq (bind_of_ok hremove)).trans ?_
    show ((release e >>= fun _ => pure true) >>= fun b => pure (Reply.flag b)) _ = _
    rw [bind_assoc]
    rfl
  | take => exact bind_of_ok (bind_of_ok hremove)
  | update f => exact bind_of_ok (onTable_of_ok (Table.updateAt_eq he))

/-- All that can stop a treatment is a hook, and the table has been changed by then. -/
theorem treat_ends (hw : w.table.Bounded) (he : w.table.entryAt? c.index = some e) :
    (d.treat c).Ends w (fun _ w' => w'.table = d.table w.table c.index e)
      fun f w' => w'.table = d.table w.table c.index e ∧ w.HookRaises f := by
  have hrelease : (onlyIf (d.releases = true) (release e)).Ends
      { w with table := d.table w.table c.index e }
      (fun _ w' => w'.table = d.table w.table c.index e)
      fun f w' => w'.table = d.table w.table c.index e ∧ w.HookRaises f := by
    unfold onlyIf
    split
    · exact release_ends.imp (fun _ _ h => h.table_eq)
        (fun _ _ h => ⟨h.1.table_eq, h.2.of_sameRest (sameRest_withTable (.refl w))⟩)
    · rfl
  unfold Ends
  rw [treat_eq hw he]
  exact ends_bind.mpr (hrelease.imp (fun _ _ h => h) fun _ _ h => h)

/-- Without an entry in its bucket a cursor does nothing. -/
theorem treat_of_none (h : w.table.entryAt? c.index = none) :
    d.treat c w = .ok d.nothing w := by
  have hremove : removeAt c.index w = .ok none w := onTable_of_ok (Table.bury_of_none h)
  cases d with
  | erase => exact bind_of_ok (bind_of_ok hremove)
  | take => exact bind_of_ok (bind_of_ok hremove)
  | update f => exact bind_of_ok (onTable_of_ok (Table.updateAt_of_none h))

/-! ## Hooks that are unaware of the search -/

/-- Both hooks are unaware of the calls of the callbacks. -/
structure Unaware (w : World K V (Journal K V)) : Prop where
  keys : ∀ hook, w.keyHook = some hook → hook.Unaware
  values : ∀ hook, w.valueHook = some hook → hook.Unaware

theorem handOver_unaware {α : Type} {hook? : Option (Hook (Journal K V) α)} {a : α}
    (h : ∀ hook, hook? = some hook → hook.Unaware)
    (hj : Journal.uncalled j = Journal.uncalled j') :
    ∃ r written,
      handOver hook? a { w with client := j } = lift r { w with client := written ++ j } ∧
      handOver hook? a { w with client := j' } = lift r { w with client := written ++ j' } := by
  cases hook? with
  | none => exact ⟨.ok (), [], rfl, rfl⟩
  | some hook =>
    obtain ⟨r, written, hrun, hrun'⟩ := h hook rfl a j j' hj
    refine ⟨r.mapError Fault.asClient, written, ?_, ?_⟩
    · show onClient (hook a).asClient { w with client := j } = _
      unfold onClient asClient
      dsimp only
      rw [hrun]
      cases r <;> rfl
    · show onClient (hook a).asClient { w with client := j' } = _
      unfold onClient asClient
      dsimp only
      rw [hrun']
      cases r <;> rfl

theorem release_unaware (h : w.Unaware) (hj : Journal.uncalled j = Journal.uncalled j') :
    ∃ r written, release e { w with client := j } = lift r { w with client := written ++ j } ∧
      release e { w with client := j' } = lift r { w with client := written ++ j' } := by
  have hrelease : ∀ j, release e { w with client := j } =
      (handOver w.keyHook e.key >>= fun _ => handOver w.valueHook e.value)
        { w with client := j } := fun _ => rfl
  rw [hrelease, hrelease]
  obtain ⟨r, written, hkey, hkey'⟩ := handOver_unaware (w := w) (a := e.key) h.keys hj
  cases r with
  | error f => exact ⟨.error f, written, bind_of_error hkey, bind_of_error hkey'⟩
  | ok _ =>
    have hj' : Journal.uncalled (written ++ j) = Journal.uncalled (written ++ j') := by
      unfold Journal.uncalled at hj ⊢
      rw [List.filter_append, List.filter_append, hj]
    obtain ⟨r, written', hvalue, hvalue'⟩ :=
      handOver_unaware (w := w) (a := e.value) h.values hj'
    refine ⟨r, written' ++ written, ?_, ?_⟩
    · rw [List.append_assoc]
      exact (bind_of_ok hkey).trans hvalue
    · rw [List.append_assoc]
      exact (bind_of_ok hkey').trans hvalue'

/-- Unaware hooks make no difference between two journals with different calls of callbacks. -/
theorem treat_unaware (h : w.Unaware) (hw : w.table.Bounded)
    (he : w.table.entryAt? c.index = some e) (hj : Journal.uncalled j = Journal.uncalled j') :
    ∃ r written,
      d.treat c { w with client := j } =
        lift r { w with table := d.table w.table c.index e, client := written ++ j } ∧
      d.treat c { w with client := j' } =
        lift r { w with table := d.table w.table c.index e, client := written ++ j' } := by
  rw [treat_eq (w := { w with client := j }) hw he, treat_eq (w := { w with client := j' }) hw he]
  unfold onlyIf
  split
  · have h' : ({ w with table := d.table w.table c.index e } : World K V _).Unaware :=
      ⟨h.keys, h.values⟩
    obtain ⟨r, written, hrun, hrun'⟩ := release_unaware (e := e) h' hj
    exact ⟨r.map fun _ => d.reply e, written, bind_pure_of_eq hrun, bind_pure_of_eq hrun'⟩
  · exact ⟨.ok (d.reply e), [], rfl, rfl⟩

end World

namespace Session

variable {K V : Type} {s : Strategy K} {session : Session K V} {d : Treatment V} {r : Nat} {k : K}

theorem handle_atCursor :
    handle s (d.atCursor r) session = onWorld (d.treat (session.cursors r)) session := by
  cases d <;> rfl

theorem handle_byKey : handle s (d.byKey k) session = onWorld (d.treatByKey s k) session := by
  cases d <;> rfl

/-- Two requests come to the same. The first makes the calls `events` of callbacks, which the
second does not make; the replies or faults, what the hooks write down, and all that is
left in the end are the same. -/
def Alike (s : Strategy K) (events : List (Event K V)) (r r' : Request K V)
    (session : Session K V) : Prop :=
  ∃ (reply : Except Fault (Reply K V)) (w : World K V (Journal K V)) (written : List (Event K V)),
    step s r session =
      (reply, ⟨{ w with client := written ++ (events.reverse ++ session.world.client) },
        session.cursors⟩) ∧
    step s r' session =
      (reply, ⟨{ w with client := written ++ session.world.client }, session.cursors⟩)

theorem step_of_lift {q : Request K V} {act : Act (World K V (Journal K V)) (Reply K V)}
    {reply : Except Fault (Reply K V)} {w : World K V (Journal K V)}
    (hq : handle s q session = onWorld act session) (h : act session.world = lift reply w) :
    step s q session = (reply, ⟨w, session.cursors⟩) := by
  unfold step
  rw [hq]
  unfold onWorld
  dsimp only
  rw [h]
  cases reply <;> rfl

/-- A request for a cursor changes the bucket of the entry, and is stopped by hooks only. -/
theorem atCursor_table (session : Session K V) (d : Treatment V)
    (hw : session.world.table.Bounded) {e : Entry K V}
    (he : session.world.table.entryAt? (session.cursors r).index = some e) :
    (step s (d.atCursor r) session).2.world.table =
        d.table session.world.table (session.cursors r).index e ∧
      ∀ f, (step s (d.atCursor r) session).1 = .error f → session.world.HookRaises f := by
  have hends : (handle s (d.atCursor r)).Ends session
      (fun _ session' =>
        session'.world.table = d.table session.world.table (session.cursors r).index e)
      fun f session' =>
        session'.world.table = d.table session.world.table (session.cursors r).index e ∧
          session.world.HookRaises f := by
    unfold Ends
    rw [handle_atCursor]
    exact ends_onWorld.mpr (treat_ends hw he)
  rcases step_cases hends with ⟨_, _, hstep, h⟩ | ⟨g, _, hstep, h, hraises⟩
  · rw [hstep]
    exact ⟨h, fun f hf => absurd hf (by simp)⟩
  · rw [hstep]
    exact ⟨h, fun f hf => Except.error.inj hf ▸ hraises⟩

/-- The calls of a search are calls of callbacks. -/
theorem uncalled_transcript {t : Table K V} {j : Journal K V} :
    Journal.uncalled ((t.transcript s k).reverse ++ j) = Journal.uncalled j := by
  have hnone : (t.transcript s k).reverse.filter (fun e => e.callback?.isNone) = [] := by
    refine List.filter_eq_nil_iff.mpr fun e he => ?_
    have hcall := Table.callbacks_of_transcript e (List.mem_reverse.mp he)
    rw [Option.isNone_iff_eq_none]
    exact Option.isSome_iff_ne_none.mp hcall
  unfold Journal.uncalled
  rw [List.filter_append, hnone]
  rfl

/-- Through a cursor an entry is treated, looked at and changed as through its key. A cursor
may be any index, of this map or of another one. If there is an entry in its bucket, then a
request for the key of this entry makes the calls of the search, and is the request for the
cursor from there on; it is stopped by hooks only, and leaves the same table as the request
for the cursor. Hooks that do not look at the calls of the search are called in the same way.
If there is no entry in its bucket, then nothing happens. -/
theorem cursor_access (h : Intact s session) (hlaw : s.Lawful) (cursors : Nat → Cursor)
    (r : Nat) :
    let t := session.world.table
    let c := cursors r
    let held : Session K V := ⟨session.world, cursors⟩
    (∀ e, t.entryAt? c.index = some e →
      let searched : Session K V := ⟨session.world.logged (t.transcript s e.key), cursors⟩
      step s (.look r) held = (.ok (.seen c true (some e.key) (some e.value)), held) ∧
      step s (.lookup (.getEntry e.key)) held =
        (.ok (.answer (.entry (some (e.key, e.value)))), searched) ∧
      ∀ d : Treatment V,
        step s (d.byKey e.key) held = step s (d.atCursor r) searched ∧
        (step s (d.byKey e.key) held).2.world.table = d.table t c.index e ∧
        (step s (d.atCursor r) held).2.world.table = d.table t c.index e ∧
        (∀ f, (step s (d.byKey e.key) held).1 = .error f → session.world.HookRaises f) ∧
        (session.world.Unaware →
          Alike s (t.transcript s e.key) (d.byKey e.key) (d.atCursor r) held)) ∧
    (t.entryAt? c.index = none →
      step s (.look r) held = (.ok (.seen c (c.isValid t) none none), held) ∧
      ∀ d : Treatment V, step s (d.atCursor r) held = (.ok d.nothing, held)) := by
  intro t c held
  have hw := h.reachable.atRest
  have hbounded : t.Bounded := hw.bounded
  refine ⟨fun e he => ?_, fun hnone => ?_⟩
  · intro searched
    have hfind : t.plainFind s e.key = .ok (some c.index) := h.sound.plainFind_entry hlaw he
    refine ⟨?_, ?_, fun d => ?_⟩
    · have hvalid : c.isValid t = true := decide_eq_true (Table.lt_capacity_of_entryAt? he)
      show (Except.ok (Reply.seen c (c.isValid t) (c.key? t) (c.value? t)), held) = _
      unfold Cursor.key? Cursor.value?
      rw [hvalid, he]
      rfl
    · have hquiet : held.world.probing = false := hw.probing_eq
      refine (step_getEntry hquiet hfind).trans ?_
      rw [Option.bind_some, show held.world.table.entryAt? c.index = some e from he]
      rfl
    · have hsearch : step s (d.byKey e.key) held = step s (d.atCursor r) searched :=
        step_congr handle_byKey handle_atCursor
          (treatByKey_eq hw.probing_eq he hfind)
      have hthere := atCursor_table (s := s) searched d hbounded he
      have hhere := atCursor_table (s := s) held d hbounded he
      refine ⟨hsearch, ?_, hhere.1, fun f hf => ?_, fun hunaware => ?_⟩
      · rw [hsearch]
        exact hthere.1
      · rw [hsearch] at hf
        exact hthere.2 f hf
      · obtain ⟨reply, written, hrun, hrun'⟩ :=
          treat_unaware (d := d) hunaware hbounded he uncalled_transcript
        refine ⟨reply, { session.world with table := d.table t c.index e }, written, ?_, ?_⟩
        · rw [hsearch]
          exact step_of_lift handle_atCursor hrun
        · exact step_of_lift handle_atCursor hrun'
  · refine ⟨?_, fun d => ?_⟩
    · show (Except.ok (Reply.seen c (c.isValid t) (c.key? t) (c.value? t)), held) = _
      unfold Cursor.key? Cursor.value?
      rw [hnone]
      rfl
    · exact step_of_lift handle_atCursor (treat_of_none hnone)

/-- The probe function leads to the first bucket, always, and the value hook gives up. The key
3 is found behind 1; erasing it by its key and through a cursor comes to the same, and a
cursor at index 100 finds nothing. -/
theorem cursor_access_toZero :
    let s : Strategy Nat :=
      { hash := fun k => (k % 2).toUInt64, equals := fun a b => a == b,
        probe? := some Probe.toZero }
    let keyHook : Hook (Journal Nat Nat) Nat := Hook.recordKey "keys"
    let valueHook : Hook (Journal Nat Nat) Nat := (Hook.recordValue "values").failing "no"
    let session₀ : Session Nat Nat :=
      { world := { table := .blank 8, heap := ⟨1, 0⟩, client := [] } }
    let session := (run s [.insert 1 10, .insert 3 30, .setKeyHook (some keyHook),
      .setValueHook (some valueHook)] session₀).2
    let cursors : Nat → Cursor := fun r => if r = 0 then ⟨0⟩ else ⟨100⟩
    let held : Session Nat Nat := ⟨session.world, cursors⟩
    Session.start s 8 none none = .ok session₀ ∧ Intact s session ∧ session.world.Unaware ∧
      Alike s [.hashed 3, .compared 3 1, .probed 1 8, .compared 3 3] (.erase 3) (.eraseAt 0) held ∧
      (step s (.erase 3) held).1.isOk = false ∧
      (step s (.erase 3) held).2.world.table.buckets[0]? = some .tombstone ∧
      step s (.eraseAt 1) held = (.ok (.flag false), held) := by
  intro s keyHook valueHook session₀ session cursors held
  have hstart : Session.start s 8 none none = .ok session₀ := rfl
  have hintact : Intact s session := (Intact.start hstart).run _ (by simp)
  have hlaw : s.Lawful := by
    refine ⟨⟨fun a => beq_self_eq_true a, fun {a b} hab => ?_, fun {a b c} hab hbc => ?_⟩,
      fun a b hab => ?_⟩
    · rw [eq_of_beq hab]; exact beq_self_eq_true b
    · rw [eq_of_beq hab]; exact hbc
    · rw [eq_of_beq hab]
  have hhooks : session.world.keyHook = some keyHook ∧
      session.world.valueHook = some valueHook := ⟨rfl, rfl⟩
  have hunaware : session.world.Unaware := by
    refine ⟨fun hook hhook => ?_, fun hook hhook => ?_⟩
    · rw [hhooks.1] at hhook
      exact Option.some.inj hhook ▸ Hook.recordKey_unaware "keys"
    · rw [hhooks.2] at hhook
      exact Option.some.inj hhook ▸ (Hook.recordValue_unaware "values").failing "no"
  obtain ⟨hentry, _⟩ := cursor_access hintact hlaw cursors 0
  obtain ⟨_, hnone⟩ := cursor_access hintact hlaw cursors 1
  obtain ⟨_, _, htreat⟩ := hentry ⟨1, 3, 30⟩ (by decide +kernel)
  obtain ⟨_, _, _, _, halike⟩ := htreat .erase
  have hcalls : session.world.table.transcript s 3 =
      [.hashed 3, .compared 3 1, .probed 1 8, .compared 3 3] := by decide +kernel
  replace halike := halike hunaware
  rw [hcalls] at halike
  exact ⟨hstart, hintact, hunaware, halike, by decide +kernel, by decide +kernel,
    (hnone (by decide +kernel)).2 .erase⟩

end Session

end OpenAddressing
