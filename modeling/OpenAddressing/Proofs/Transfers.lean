import OpenAddressing.Proofs.Balances
import OpenAddressing.Proofs.Rewrites
import OpenAddressing.Proofs.Sessions

/-!
# What each request transfers

Each request that is answered balances the pairs: what was in the map and what it was given
is what is in the map now, what went to the hooks and what was handed back (`Transfers`);
an update in place replaces the values it touches. A request that is stopped leaks, but
nothing appears twice. `handle_transfers` says this of every request.

Most requests neither put anything in nor take anything out (`Request.Idle`), and it is
enough that they keep the table and what the hooks have been handed.
-/

namespace OpenAddressing

open Act World

variable {K V : Type} {s : Strategy K}

/-- The pair that a reply hands back for good. -/
def Reply.returned : Reply K V → List (K × V)
  | .pair p => p.toList
  | _ => []

namespace Request

/-- What a request does to the values that it touches. -/
def rewrite : Request K V → V → V
  | .update _ f | .updateWalk _ _ f | .updateAt _ f => f
  | _ => id

/-- A hook that the request registers writes down what it is handed. -/
def Records : Request K V → Prop
  | .setKeyHook hook? => ∀ hook, hook? = some hook → hook.Records .inl
  | .setValueHook hook? => ∀ hook, hook? = some hook → hook.Records .inr
  | _ => True

/-- The request takes no hook away. -/
def LeavesHooks : Request K V → Prop
  | .setKeyHook hook? => hook?.isSome
  | .setValueHook hook? => hook?.isSome
  | _ => True

/-- The key hook after the request. -/
def keyHookAfter (w : World K V (Journal K V)) : Request K V → Option (Hook (Journal K V) K)
  | .setKeyHook hook? => hook?
  | _ => w.keyHook

/-- The value hook after the request. -/
def valueHookAfter (w : World K V (Journal K V)) : Request K V → Option (Hook (Journal K V) V)
  | .setValueHook hook? => hook?
  | _ => w.valueHook

/-- The pairs that the request puts in: of many, those that the map takes. -/
def given (s : Strategy K) (session : Session K V) : Request K V → List (K × V)
  | .insert k v => [(k, v)]
  | .insertAll ps => accepted s.callbacks ps session.world
  | _ => []

/-- The pairs whose values the request may change. -/
def Touches (s : Strategy K) (session : Session K V) : Request K V → List (K × V) → Prop
  | .update k _, touched => OfKey s k touched
  | .updateAt r _, touched =>
      touched = ((session.world.table.entryAt? (session.cursors r).index).map Entry.pair).toList
  | .updateWalk _ limit _, touched =>
      let t := session.world.table
      touched = (t.entries.take (min (limit.getD (t.live + 1)) t.live)).map Entry.pair
  | _, touched => touched = []

/-- The pairs that the request may release. Clearing does so in bucket order, and a request
that neither inserts nor removes releases nothing, a rebuild on the way or not. -/
def Releases (s : Strategy K) (session : Session K V) : Request K V → List (K × V) → Prop
  | .insert k _, released => OfKey s k released
  | .erase k, released => OfKey s k released
  | .eraseAt r, released =>
      released = ((session.world.table.entryAt? (session.cursors r).index).map Entry.pair).toList
  | .clear, released => released = session.world.table.entries.map Entry.pair
  | .insertAll _, _ | .eraseEach _, _ | .sweep _, _ => True
  | _, released => released = []

/-- The request puts nothing in, changes no value and no hook, and releases nothing. -/
structure Idle (s : Strategy K) (session : Session K V) (r : Request K V) : Prop where
  keyHook : r.keyHookAfter session.world = session.world.keyHook
  valueHook : r.valueHookAfter session.world = session.world.valueHook
  given_eq : r.given s session = []
  touches : r.Touches s session []
  releases : r.Releases s session []

end Request

namespace Session

variable {α : Type} {session session' : Session K V} {r : Request K V} {reply : Reply K V}

/-- The request sets the hooks that it is there to set, and no others. -/
structure Rehooks (r : Request K V) (session session' : Session K V) : Prop where
  keyHook : session'.world.keyHook = r.keyHookAfter session.world
  valueHook : session'.world.valueHook = r.valueHookAfter session.world

/-- The balance of an answered request: some pairs are touched and the others are not, and
after the touched ones have been rewritten the pairs are the ones that are in the map now,
the ones released and the ones handed back. -/
def Transfers (s : Strategy K) (r : Request K V) (session : Session K V) (reply : Reply K V)
    (session' : Session K V) : Prop :=
  ∃ (touched released : List (K × V)) (still : Multiset (K × V)),
    (r.Touches s session touched ∧ r.Releases s session released) ∧
    session.world.table.pairs = ↑touched + still ∧
    ↑(touched.map (Prod.map id r.rewrite)) + still + ↑(r.given s session) =
      session'.world.table.pairs + ↑released + ↑reply.returned ∧
    session'.world.handed = session.world.handed ++ released.flatMap session.world.shares

/-- What becomes of the hooks and of the pairs if the request is answered. -/
def Answered (s : Strategy K) (r : Request K V) (session : Session K V) (reply : Reply K V)
    (session' : Session K V) : Prop :=
  Rehooks r session session' ∧ Transfers s r session reply session'

/-- What becomes of them if it is stopped. -/
def Stopped (s : Strategy K) (r : Request K V) (session session' : Session K V) : Prop :=
  Rehooks r session session' ∧ LeaksSome ↑(r.given s session) session.world session'.world

theorem rehooks_of_sameRest (h : session.world.SameRest session'.world)
    (hk : r.keyHookAfter session.world = session.world.keyHook)
    (hv : r.valueHookAfter session.world = session.world.valueHook) :
    Rehooks r session session' :=
  ⟨h.keyHook.trans hk.symm, h.valueHook.trans hv.symm⟩

/-- Nothing is touched. -/
theorem transfers_of_conveys {released : List (K × V)} (htouched : r.Touches s session [])
    (hreleased : r.Releases s session released)
    (h : Conveys ↑(r.given s session) ↑reply.returned released session.world session'.world) :
    Transfers s r session reply session' := by
  refine ⟨[], released, session.world.table.pairs, ⟨htouched, hreleased⟩, (zero_add _).symm, ?_,
    h.handed_eq⟩
  rw [← h.balance]
  exact congrArg (· + _) (zero_add _)

/-- Values are changed in place, and no hook is called. -/
theorem transfers_of_rewrites {touched : List (K × V)} (htouched : r.Touches s session touched)
    (hreleased : r.Releases s session []) (hgiven : r.given s session = [])
    (hreturned : reply.returned = [])
    (h : Table.Rewrites r.rewrite touched session.world.table session'.world.table)
    (hh : session'.world.handed = session.world.handed) :
    Transfers s r session reply session' := by
  obtain ⟨still, hbefore, hafter⟩ := h
  refine ⟨touched, [], still, ⟨htouched, hreleased⟩, hbefore, ?_, ?_⟩
  · rw [hgiven, hreturned, hafter, Multiset.coe_nil, add_zero, add_zero]
  · rw [hh]; exact (List.append_nil _).symm

/-- Nothing happens to the table, and nothing goes to the hooks. -/
theorem answered_of_same (hidle : r.Idle s session) (hreturned : reply.returned = [])
    (hrest : session.world.SameRest session'.world)
    (ht : session'.world.table = session.world.table)
    (hh : session'.world.handed = session.world.handed) : Answered s r session reply session' := by
  refine ⟨rehooks_of_sameRest hrest hidle.keyHook hidle.valueHook,
    transfers_of_conveys hidle.touches hidle.releases ?_⟩
  rw [hidle.given_eq, hreturned]
  exact .of_eq (congrArg Table.pairs ht) hh

theorem answered_of_world_eq (hidle : r.Idle s session) (hreturned : reply.returned = [])
    (h : session'.world = session.world) : Answered s r session reply session' :=
  answered_of_same hidle hreturned (h ▸ .refl _) (by rw [h]) (by rw [h])

theorem transfers_of_balances {act : Act (World K V (Journal K V)) α} {g : α → Reply K V}
    {P : α → List (K × V) → Multiset (K × V) → Prop} (hw : session.world.AtRest)
    (hr : session.world.Recording) (hk : r.keyHookAfter session.world = session.world.keyHook)
    (hv : r.valueHookAfter session.world = session.world.valueHook)
    (htouched : r.Touches s session []) (h : Balances s ↑(r.given s session) P act)
    (hP : ∀ a released returned, P a released returned →
      returned = ↑(g a).returned ∧ r.Releases s session released) :
    (onWorld (act >>= fun a => pure (g a))).Ends session
      (Answered s r session) fun _ session' => Stopped s r session session' := by
  rw [ends_onWorld, ends_bind]
  refine (h _ hw hr).imp (fun a w h => ?_) (fun f w h => ?_)
  · obtain ⟨hevolves, released, returned, hp, hconveys⟩ := h
    obtain ⟨rfl, hreleased⟩ := hP a released returned hp
    exact ⟨rehooks_of_sameRest hevolves.toSameRest hk hv,
      transfers_of_conveys htouched hreleased hconveys⟩
  · exact ⟨rehooks_of_sameRest h.1.toSameRest hk hv, h.2⟩

/-- A request that leaves all pairs where they are. -/
theorem transfers_of_idle {act : Act (World K V (Journal K V)) α} {g : α → Reply K V}
    (hw : session.world.AtRest) (hr : session.world.Recording) (hidle : r.Idle s session)
    (h : Balances s 0 (fun _ released returned => released = [] ∧ returned = 0) act)
    (hreturned : ∀ a, (g a).returned = []) :
    (onWorld (act >>= fun a => pure (g a))).Ends session
      (Answered s r session) fun _ session' => Stopped s r session session' := by
  refine transfers_of_balances (P := fun _ released returned => released = [] ∧ returned = 0)
    hw hr hidle.keyHook hidle.valueHook hidle.touches ?_ ?_
  · rw [hidle.given_eq]; exact h
  · rintro a released returned ⟨rfl, rfl⟩
    exact ⟨by rw [hreturned]; rfl, hidle.releases⟩

/-! ## The requests that need more than that -/

theorem update_transfers {k : K} {f : V → V} :
    (handle s (.update k f)).Ends session (Answered s (.update k f) session)
      fun _ session' => Stopped s (.update k f) session session' := by
  refine ends_onWorld.mpr ?_
  rw [ends_bind]
  have hhanded := World.update_keeps (k := k) (f := f) handed_ofClient
    (callbacks_keep_handed (s := s)) session.world
  refine ((World.update_ends s.callbacks_plain).and hhanded).imp (fun v? w h => ?_)
    (fun fault w h => ?_)
  · obtain ⟨⟨hrest, i?, hfind, hupdated⟩, hh⟩ := h
    refine ⟨rehooks_of_sameRest hrest rfl rfl, ?_⟩
    refine transfers_of_rewrites ?_ rfl rfl rfl hupdated.rewrites hh
    rw [Option.toList_map]
    refine ofKey_of_option fun e he => ?_
    obtain ⟨i, rfl, hi⟩ := Option.bind_eq_some_iff.mp he
    obtain ⟨e', he', _, hkey⟩ := Table.entry_of_plainFind hfind
    exact (Option.some.inj (hi.symm.trans he')) ▸ hkey
  · exact ⟨rehooks_of_sameRest h.1.2.sameRest rfl rfl, leaksSome_of_same h.1.2.table_eq h.2⟩

theorem updateWalk_transfers {part : Part} {limit : Option Nat} {f : V → V} :
    (handle s (.updateWalk part limit f)).Ends session
      (Answered s (.updateWalk part limit f) session) fun _ _ => False := by
  refine ends_onWorld.mpr ?_
  unfold World.updateWalk
  simp only [ends_bind, ends_get, Walk.visit_eq, ends_lift_ok, ends_onTable]
  refine Table.updateVisited_rewrites.imp (fun _ t h => ?_) (fun _ _ h => h)
  rw [Walk.plainVisit_items] at h
  rw [Walk.collect_eq, ends_lift_ok]
  exact ⟨⟨rfl, rfl⟩, transfers_of_rewrites rfl rfl rfl rfl h rfl⟩

theorem updateAt_transfers {c : Nat} {f : V → V} :
    (handle s (.updateAt c f)).Ends session (Answered s (.updateAt c f) session)
      fun _ _ => False := by
  refine ends_onWorld.mpr ?_
  unfold Cursor.update
  rw [ends_bind, ends_onTable]
  refine Table.updateAt_rewrites.imp (fun _ t h => ?_) (fun _ _ h => h)
  exact ⟨⟨rfl, rfl⟩, transfers_of_rewrites rfl rfl rfl rfl h.2 rfl⟩

theorem nested_transfers {l : Lookup K} {via : Callback} {inquiry : Inquiry K} :
    (handle s (.nested l via inquiry)).Ends session (Answered s (.nested l via inquiry) session)
      fun _ _ => False := by
  refine ends_onWorld.mpr ?_
  rw [ends_bind]
  have hhanded : Keeps World.handed (answerNested (V := V) s .none l via inquiry) :=
    answerNested_keeps handed_ofClient.ignoresMark (fun _ => callback_unseen)
      fun _ => unseen_of_handed? rfl
  refine (answerNested_still.and (hhanded _)).imp (fun a w h => ?_) (fun _ _ h => h.1)
  obtain ⟨hstill, hh⟩ := h
  exact answered_of_same ⟨rfl, rfl, rfl, rfl, rfl⟩ rfl hstill.1 hstill.2 hh

theorem insertAll_transfers {ps : List (K × V)} (hw : session.world.AtRest)
    (hr : session.world.Recording) :
    (handle s (.insertAll ps)).Ends session (Answered s (.insertAll ps) session)
      fun _ session' => Stopped s (.insertAll ps) session session' := by
  refine ends_onWorld.mpr ?_
  rw [ends_bind]
  refine (insertAll_balances s.callbacks_plain callbacks_keep_handed hw hr).imp (fun _ w h => ?_)
    (fun f w h => ?_)
  · obtain ⟨hevolves, htaken, released, hconveys⟩ := h
    have hall : Conveys ↑(accepted s.callbacks ps session.world) 0 released session.world w := by
      rw [htaken]; exact hconveys
    exact ⟨rehooks_of_sameRest hevolves.toSameRest rfl rfl, transfers_of_conveys rfl trivial hall⟩
  · exact ⟨rehooks_of_sameRest h.1.toSameRest rfl rfl, h.2⟩

theorem clear_transfers (hw : session.world.AtRest) (hr : session.world.Recording) :
    (handle s .clear).Ends session (Answered s .clear session)
      fun _ session' => Stopped s .clear session session' := by
  refine ends_onWorld.mpr ?_
  rw [ends_bind]
  have hlim := hw.bounded.capacity_lt
  refine ((clear_conveys hlim hr).and (clear_stops hlim)).imp (fun _ w h => ?_) (fun f w h => ?_)
  · exact ⟨rehooks_of_sameRest h.2.1 rfl rfl, transfers_of_conveys rfl rfl h.1⟩
  · exact ⟨rehooks_of_sameRest h.2.1 rfl rfl, h.1⟩

theorem eraseAt_transfers {c : Nat} (hw : session.world.AtRest) (hr : session.world.Recording) :
    (handle s (.eraseAt c)).Ends session (Answered s (.eraseAt c) session)
      fun _ session' => Stopped s (.eraseAt c) session session' := by
  refine ends_onWorld.mpr ?_
  rw [ends_bind]
  refine ((Cursor.erase_regular (s := s) _ hw).and (Cursor.erase_conveys hw hr)).imp
    (fun _ w h => ?_) (fun f w h => ?_)
  · exact ⟨rehooks_of_sameRest h.1.toSameRest rfl rfl, transfers_of_conveys rfl rfl h.2⟩
  · exact ⟨rehooks_of_sameRest h.1.1.toSameRest rfl rfl, h.2⟩

/-- Every request balances, whether it is answered or stopped. -/
theorem handle_transfers (hw : session.world.AtRest) (hr : session.world.Recording) :
    (handle s r).Ends session (Answered s r session)
      fun _ session' => Stopped s r session session' := by
  have hcb : (s.callbacks : Callbacks K V (Journal K V)).Plain s := s.callbacks_plain
  have hhanded : (s.callbacks : Callbacks K V (Journal K V)).Keeps World.handed :=
    callbacks_keep_handed
  have htable : (s.callbacks : Callbacks K V (Journal K V)).Keeps fun w => w.table :=
    Strategy.callbacks_keeps fun _ _ _ => rfl
  have hmark : IgnoresMark fun w : World K V (Journal K V) => w.table := fun _ _ => rfl
  have hmark' : IgnoresMark (World.handed : World K V (Journal K V) → _) :=
    handed_ofClient.ignoresMark
  cases r with
  | lookup l =>
    refine transfers_of_idle hw hr ⟨rfl, rfl, rfl, rfl, rfl⟩ (balances_of_keeps ?_ ?_ ?_)
      fun _ => rfl
    · exact answer_regular hcb
    · exact answer_keeps hmark htable
    · exact answer_keeps hmark' hhanded
  | nested l via inquiry => exact nested_transfers.imp (fun _ _ h => h) (fun _ _ h => h.elim)
  | getEach ks =>
    refine transfers_of_idle hw hr ⟨rfl, rfl, rfl, rfl, rfl⟩ (balances_of_keeps ?_ ?_ ?_)
      fun _ => rfl
    · exact .mapM fun _ => get?_regular hcb
    · exact .mapM fun _ => get?_keeps hmark htable
    · exact .mapM fun _ => get?_keeps hmark' hhanded
  | containsEach ks =>
    refine transfers_of_idle hw hr ⟨rfl, rfl, rfl, rfl, rfl⟩ (balances_of_keeps ?_ ?_ ?_)
      fun _ => rfl
    · exact .mapM fun _ => contains_regular hcb
    · exact .mapM fun _ => contains_keeps hmark htable
    · exact .mapM fun _ => contains_keeps hmark' hhanded
  | update k f => exact update_transfers
  | insert k v =>
    exact transfers_of_balances hw hr rfl rfl rfl (insert_balances hcb hhanded)
      fun _ _ _ h => h
  | insertAll ps => exact insertAll_transfers hw hr
  | erase k =>
    exact transfers_of_balances hw hr rfl rfl rfl (erase_balances hcb hhanded)
      fun _ _ _ h => ⟨h.1, h.2.1⟩
  | eraseEach ks =>
    have herase : Sheds s (ks.mapM (World.erase (s.callbacks : Callbacks K V (Journal K V)))) :=
      .mapM fun k => (erase_balances hcb hhanded (k := k)).imp fun _ _ _ h => h.1
    exact transfers_of_balances hw hr rfl rfl rfl herase fun _ _ _ h => ⟨h, trivial⟩
  | take k =>
    exact transfers_of_balances hw hr rfl rfl rfl (World.take_balances hcb hhanded)
      fun _ _ _ h => ⟨h.2, h.1⟩
  | rehash capacity =>
    refine transfers_of_idle hw hr ⟨rfl, rfl, rfl, rfl, rfl⟩ ?_ fun _ => rfl
    exact rehash_balances hcb hhanded
  | reserve extra =>
    refine transfers_of_idle hw hr ⟨rfl, rfl, rfl, rfl, rfl⟩ ?_ fun _ => rfl
    exact reserve_balances hcb hhanded
  | clear => exact clear_transfers hw hr
  | setKeyHook hook => exact ⟨⟨rfl, rfl⟩, transfers_of_conveys rfl rfl (.of_eq rfl rfl)⟩
  | setValueHook hook => exact ⟨⟨rfl, rfl⟩, transfers_of_conveys rfl rfl (.of_eq rfl rfl)⟩
  | summary =>
    unfold handle serve
    refine transfers_of_idle hw hr ⟨rfl, rfl, rfl, rfl, rfl⟩ ?_ fun _ => rfl
    exact balances_of_keeps summary_regular summary_keeps summary_keeps
  | hash k =>
    unfold handle serve
    refine transfers_of_idle hw hr ⟨rfl, rfl, rfl, rfl, rfl⟩ ?_ fun _ => rfl
    exact balances_of_answers (hcb.hash k) (hhanded.hash k)
  | equal a b =>
    unfold handle serve
    refine transfers_of_idle hw hr ⟨rfl, rfl, rfl, rfl, rfl⟩ ?_ fun _ => rfl
    exact balances_of_answers (hcb.equals a b) (hhanded.equals a b)
  | probe i capacity =>
    unfold handle serve
    refine transfers_of_idle hw hr ⟨rfl, rfl, rfl, rfl, rfl⟩ ?_ fun _ => rfl
    exact balances_of_answers (hcb.probe i capacity) (hhanded.probe i capacity)
  | entries => exact answered_of_world_eq ⟨rfl, rfl, rfl, rfl, rfl⟩ rfl rfl
  | items =>
    refine transfers_of_idle hw hr ⟨rfl, rfl, rfl, rfl, rfl⟩ ?_ fun _ => rfl
    exact balances_of_keeps items_regular items_keeps items_keeps
  | walk part limit =>
    unfold handle serve
    refine transfers_of_idle hw hr ⟨rfl, rfl, rfl, rfl, rfl⟩ ?_ fun _ => rfl
    exact balances_of_keeps walk_regular World.walk_keeps World.walk_keeps
  | updateWalk part limit f =>
    exact updateWalk_transfers.imp (fun _ _ h => h) (fun _ _ h => h.elim)
  | snapshot part positions =>
    refine transfers_of_idle hw hr ⟨rfl, rfl, rfl, rfl, rfl⟩ (balances_of_keeps ?_ ?_ ?_)
      fun _ => rfl
    · exact inspectSnapshot_regular
    · exact inspectSnapshot_keeps fun _ _ => rfl
    · exact inspectSnapshot_keeps fun _ _ => rfl
  | cursor r => exact answered_of_world_eq ⟨rfl, rfl, rfl, rfl, rfl⟩ rfl rfl
  | advance r =>
    rw [ends_of_eq (handle_advance hw.bounded.capacity_lt)]
    exact answered_of_world_eq ⟨rfl, rfl, rfl, rfl, rfl⟩ rfl rfl
  | copyCursor r source => exact answered_of_world_eq ⟨rfl, rfl, rfl, rfl, rfl⟩ rfl rfl
  | sameCursor r₁ r₂ => exact answered_of_world_eq ⟨rfl, rfl, rfl, rfl, rfl⟩ rfl rfl
  | look r => exact answered_of_world_eq ⟨rfl, rfl, rfl, rfl, rfl⟩ rfl rfl
  | updateAt c f => exact updateAt_transfers.imp (fun _ _ h => h) (fun _ _ h => h.elim)
  | eraseAt c => exact eraseAt_transfers hw hr
  | takeAt c =>
    exact transfers_of_balances hw hr rfl rfl rfl Cursor.take_balances fun _ _ _ h => ⟨h.2, h.1⟩
  | sweep stride =>
    have hsweep : Sheds s (World.sweep stride : Act (World K V (Journal K V)) (List K)) :=
      Sheds.get fun _ => Cursor.sweep_sheds
    exact transfers_of_balances hw hr rfl rfl rfl hsweep fun _ _ _ h => ⟨h, trivial⟩

end Session

end OpenAddressing
