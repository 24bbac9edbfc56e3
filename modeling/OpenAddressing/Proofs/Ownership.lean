import OpenAddressing.Proofs.Transfers
import Mathlib.Data.Multiset.Filter

/-!
# Every key and value leaves the map exactly once

The balances of the requests add up over a run. What was put in is followed through the
updates in place that it goes through (`Became`), and an `Account` says what has become of
it: it is in the map, was on its way to the hooks, was handed back, or is lost.

* At any time, whatever has stopped, the keys that the hooks have been handed, the keys
  handed back and the keys in the map are no more than the keys put in; the same holds of
  the values as the updates have left them.
* If nothing stops and both hooks are there throughout, then at the end of the map every
  pair that was put in has gone to the hooks, key before value, or has been handed back,
  and it has done so once.

Hooks are taken to write down what they are handed before they do anything else. They may
give up at any call.
-/

namespace OpenAddressing

open Act World

variable {K V : Type} {s : Strategy K}

/-- The pair may have become the other one: the key is the same, and updates by the
requests lead from the one value to the other. -/
def Became (rs : List (Request K V)) (p q : K × V) : Prop :=
  p.1 = q.1 ∧ Relation.ReflTransGen (fun a b => ∃ r ∈ rs, b = r.rewrite a) p.2 q.2

namespace Became

variable {rs rs' : List (Request K V)} {r : Request K V} {p q : K × V}

theorem refl (p : K × V) : Became rs p p := ⟨rfl, .refl⟩

theorem rewrite (h : r ∈ rs) (p : K × V) : Became rs p (Prod.map id r.rewrite p) :=
  ⟨rfl, .single ⟨r, h, rfl⟩⟩

theorem mono (h : Became rs p q) (hsub : ∀ r ∈ rs, r ∈ rs') : Became rs' p q := by
  refine ⟨h.1, Relation.ReflTransGen.mono ?_ _ _ h.2⟩
  rintro a b ⟨r, hr, rfl⟩
  exact ⟨r, hsub r hr, rfl⟩

instance : IsTrans (K × V) (Became rs) where
  trans _ _ _ h h' := ⟨h.1.trans h'.1, h.2.trans h'.2⟩

/-- Without updates in place nothing becomes anything else. -/
theorem eq_of_rewrite (hrs : ∀ r ∈ rs, r.rewrite = id) (h : Became rs p q) : p = q := by
  refine Prod.ext h.1 ?_
  refine h.2.head_induction_on rfl ?_
  rintro a b ⟨r, hr, rfl⟩ _ hb
  rw [← hb, hrs r hr]
  rfl

theorem rel_refl (rs : List (Request K V)) (m : Multiset (K × V)) :
    Multiset.Rel (Became rs) m m :=
  Multiset.rel_refl_of_refl_on fun p _ => refl p

theorem rel_eq {m m' : Multiset (K × V)} (hrs : ∀ r ∈ rs, r.rewrite = id)
    (h : Multiset.Rel (Became rs) m m') : m = m' :=
  Multiset.rel_eq.mp (h.mono fun _ _ _ _ h => h.eq_of_rewrite hrs)

theorem map_fst {m m' : Multiset (K × V)} (h : Multiset.Rel (Became rs) m m') :
    m.map Prod.fst = m'.map Prod.fst :=
  Multiset.rel_eq.mp (Multiset.rel_map.mpr (h.mono fun _ _ _ _ h => h.1))

theorem rel_rewrite (h : r ∈ rs) (ps : List (K × V)) :
    Multiset.Rel (Became rs) ↑ps ↑(ps.map (Prod.map id r.rewrite)) := by
  rw [← Multiset.map_coe, Multiset.rel_map_right]
  exact Multiset.rel_refl_of_refl_on fun p _ => rewrite h p

end Became

/-- What a pair is for two hooks: the key, then the value. -/
def bothShares (p : K × V) : List (K ⊕ V) := [.inl p.1, .inr p.2]

/-- The keys among what the hooks have been handed. -/
def keysOf (news : List (K ⊕ V)) : Multiset K := ↑(news.filterMap Sum.getLeft?)

/-- The values among what the hooks have been handed. -/
def valuesOf (news : List (K ⊕ V)) : Multiset V := ↑(news.filterMap Sum.getRight?)

section

variable {news : List (K ⊕ V)} {released : List (K × V)}

theorem keysOf_le (h : news.Sublist (released.flatMap bothShares)) :
    keysOf news ≤ (↑released : Multiset (K × V)).map Prod.fst := by
  have hkeys : (released.flatMap bothShares).filterMap Sum.getLeft? = released.map Prod.fst := by
    rw [List.filterMap_flatMap]; exact List.map_eq_flatMap.symm
  rw [Multiset.map_coe, ← hkeys]
  exact Multiset.coe_le.mpr (h.filterMap _).subperm

theorem valuesOf_le (h : news.Sublist (released.flatMap bothShares)) :
    valuesOf news ≤ (↑released : Multiset (K × V)).map Prod.snd := by
  have hvalues : (released.flatMap bothShares).filterMap Sum.getRight? = released.map Prod.snd := by
    rw [List.filterMap_flatMap]; exact List.map_eq_flatMap.symm
  rw [Multiset.map_coe, ← hvalues]
  exact Multiset.coe_le.mpr (h.filterMap _).subperm

theorem part_le {β : Type} {part : K × V → β} {m : Multiset β}
    {pairs released returned lost : Multiset (K × V)} (h : m ≤ released.map part) :
    m + returned.map part + pairs.map part ≤ (pairs + released + returned + lost).map part := by
  have hsum : (pairs + released + returned + lost).map part =
      released.map part + returned.map part + pairs.map part + lost.map part := by
    simp only [Multiset.map_add]; abel
  rw [hsum]
  refine le_trans ?_ (Multiset.le_add_right _ _)
  gcongr

end

namespace World

variable {w w' w'' : World K V (Journal K V)} {released released' : List (K × V)}
  {news : List (K ⊕ V)}

/-- Both hooks are there. -/
def Hooked (w : World K V (Journal K V)) : Prop := w.keyHook.isSome ∧ w.valueHook.isSome

theorem Hooked.shares_eq (h : w.Hooked) : w.shares = bothShares := by
  obtain ⟨hook, hk⟩ := Option.isSome_iff_exists.mp h.1
  obtain ⟨hook', hv⟩ := Option.isSome_iff_exists.mp h.2
  funext p
  unfold shares
  rw [hk, hv]
  rfl

/-- Whichever hooks are there, they are handed a part of every pair, in this order. -/
theorem flatMap_shares_sublist :
    (released.flatMap w.shares).Sublist (released.flatMap bothShares) := by
  induction released with
  | nil => exact List.Sublist.slnil
  | cons p released ih =>
    rw [List.flatMap_cons, List.flatMap_cons]
    refine List.Sublist.append ?_ ih
    unfold shares bothShares
    cases w.keyHook <;> cases w.valueHook <;> simp

/-- What becomes of the pairs `given` in the course of some requests: `released` was on its
way to the hooks, which have been handed `news`, and `lost` went nowhere. -/
structure Account (rs : List (Request K V)) (given returned lost : Multiset (K × V))
    (released : List (K × V)) (news : List (K ⊕ V)) (w w' : World K V (Journal K V)) : Prop where
  became : Multiset.Rel (Became rs) (w.table.pairs + given)
    (w'.table.pairs + ↑released + returned + lost)
  handed_eq : w'.handed = w.handed ++ news
  news_sublist : news.Sublist (released.flatMap bothShares)

variable {rs rs' : List (Request K V)} {news' : List (K ⊕ V)}
  {given given' returned returned' lost lost' : Multiset (K × V)}

theorem Account.refl (w : World K V (Journal K V)) : Account rs 0 0 0 [] [] w w where
  became := by
    rw [Multiset.coe_nil, add_zero, add_zero, add_zero]
    exact Became.rel_refl _ _
  handed_eq := (List.append_nil _).symm
  news_sublist := List.Sublist.slnil

theorem Account.mono (h : Account rs given returned lost released news w w')
    (hsub : ∀ r ∈ rs, r ∈ rs') : Account rs' given returned lost released news w w' where
  became := h.became.mono fun _ _ _ _ hb => hb.mono hsub
  handed_eq := h.handed_eq
  news_sublist := h.news_sublist

theorem Account.trans (h : Account rs given returned lost released news w w')
    (h' : Account rs given' returned' lost' released' news' w' w'') :
    Account rs (given + given') (returned + returned') (lost + lost') (released ++ released')
      (news ++ news') w w'' where
  became := by
    -- what is out of the map after the first part stays as it is in the second
    have hfirst := h.became.add (Became.rel_refl rs given')
    have hsecond := h'.became.add (Became.rel_refl rs (↑released + returned + lost))
    have hmiddle : w'.table.pairs + ↑released + returned + lost + given' =
        w'.table.pairs + given' + (↑released + returned + lost) := by abel
    rw [hmiddle, add_assoc] at hfirst
    refine Eq.subst (motive := Multiset.Rel _ _) ?_ (hfirst.trans _ hsecond)
    rw [← Multiset.coe_add]
    abel
  handed_eq := by rw [h'.handed_eq, h.handed_eq, List.append_assoc]
  news_sublist := by
    rw [List.flatMap_append]
    exact h.news_sublist.append h'.news_sublist

/-- From an empty map on, what the hooks have been handed, what was handed back and what is
in the map are parts of one sum. -/
theorem Account.handed_le (h : Account rs given returned lost released news w w')
    (hhanded : w.handed = []) :
    let current := w'.table.pairs + ↑released + returned + lost
    keysOf w'.handed + returned.map Prod.fst + w'.table.pairs.map Prod.fst ≤
      current.map Prod.fst ∧
    valuesOf w'.handed + returned.map Prod.snd + w'.table.pairs.map Prod.snd ≤
      current.map Prod.snd := by
  rw [h.handed_eq, hhanded, List.nil_append]
  exact ⟨part_le (keysOf_le h.news_sublist), part_le (valuesOf_le h.news_sublist)⟩

end World

namespace Session

variable {session session' : Session K V} {r : Request K V} {rs : List (Request K V)}

/-- The pairs that a list of requests puts in. -/
def givenBy (s : Strategy K) : List (Request K V) → Session K V → Multiset (K × V)
  | [], _ => 0
  | r :: rs, session => ↑(r.given s session) + givenBy s rs (step s r session).2

/-- The pairs that were handed back to the caller. -/
def returnedBy (replies : List (Except Fault (Reply K V))) : List (K × V) :=
  replies.flatMap fun
    | .ok reply => reply.returned
    | .error _ => []

theorem returnedBy_cons {reply : Except Fault (Reply K V)}
    {replies : List (Except Fault (Reply K V))} :
    returnedBy (reply :: replies) = returnedBy [reply] ++ returnedBy replies := by
  unfold returnedBy; rw [List.flatMap_cons, List.flatMap_singleton]

/-! ## One request -/

/-- After an answered request nothing is lost, and the hooks have been handed all that was
on its way to them. -/
theorem account_of_transfers {reply : Reply K V} (h : Transfers s r session reply session') :
    ∃ released, Account [r] ↑(r.given s session) ↑reply.returned 0 released
      (released.flatMap session.world.shares) session.world session'.world := by
  obtain ⟨touched, released, still, _, hbefore, hafter, hhanded⟩ := h
  refine ⟨released, ?_, hhanded, flatMap_shares_sublist⟩
  rw [add_zero, ← hafter, hbefore]
  have htouched := Became.rel_rewrite (List.mem_singleton_self r) touched
  exact (htouched.add (Became.rel_refl _ still)).add (Became.rel_refl _ _)

theorem account_of_leaks (h : LeaksSome ↑(r.given s session) session.world session'.world) :
    ∃ lost released news, Account [r] ↑(r.given s session) 0 lost released news session.world
      session'.world := by
  obtain ⟨lost, released, news, hleaks⟩ := h
  refine ⟨lost, released, news, ?_, hleaks.handed_eq,
    hleaks.news_prefix.sublist.trans flatMap_shares_sublist⟩
  rw [add_zero, ← hleaks.balance]
  exact Became.rel_refl _ _

theorem recording_of_rehooks (h : Rehooks r session session') (hr : session.world.Recording)
    (hrecords : r.Records) : session'.world.Recording := by
  refine ⟨?_, ?_⟩
  · rw [h.keyHook]
    cases r with
    | setKeyHook hook? => exact hrecords
    | _ => exact hr.keys
  · rw [h.valueHook]
    cases r with
    | setValueHook hook? => exact hrecords
    | _ => exact hr.values

theorem hooked_of_rehooks (h : Rehooks r session session') (hh : session.world.Hooked)
    (hleaves : r.LeavesHooks) : session'.world.Hooked := by
  refine ⟨?_, ?_⟩
  · rw [h.keyHook]
    cases r with
    | setKeyHook hook? => exact hleaves
    | _ => exact hh.1
  · rw [h.valueHook]
    cases r with
    | setValueHook hook? => exact hleaves
    | _ => exact hh.2

theorem transfers_of_step {reply : Reply K V} (hw : session.world.AtRest)
    (hr : session.world.Recording) (hstep : step s r session = (.ok reply, session')) :
    Transfers s r session reply session' := by
  rcases step_cases (handle_transfers (s := s) (r := r) hw hr) with
    ⟨reply', session'', hstep', _, htransfers⟩ | ⟨f, session'', hstep', _⟩
  · rw [hstep] at hstep'
    obtain ⟨hreply, rfl⟩ := Prod.mk.inj hstep'
    exact (Except.ok.inj hreply) ▸ htransfers
  · rw [hstep] at hstep'
    exact absurd (congrArg Prod.fst hstep') (by simp)

/-- The account of one request, answered or not. -/
theorem step_account (hw : session.world.AtRest) (hr : session.world.Recording) :
    Rehooks r session (step s r session).2 ∧ ∃ lost released news,
      Account [r] ↑(r.given s session) ↑(returnedBy [(step s r session).1]) lost released news
        session.world (step s r session).2.world ∧
      ((step s r session).1.isOk → lost = 0 ∧ news = released.flatMap session.world.shares) := by
  rcases step_cases (handle_transfers (s := s) (r := r) hw hr) with
    ⟨reply, session', hstep, hrehooks, htransfers⟩ | ⟨f, session', hstep, hrehooks, hleaks⟩
  · rw [hstep]
    obtain ⟨released, haccount⟩ := account_of_transfers htransfers
    have hreturned : returnedBy [.ok reply] = reply.returned := List.append_nil _
    rw [hreturned]
    exact ⟨hrehooks, 0, released, _, haccount, fun _ => ⟨rfl, rfl⟩⟩
  · rw [hstep]
    obtain ⟨lost, released, news, haccount⟩ := account_of_leaks hleaks
    refine ⟨hrehooks, lost, released, news, haccount, fun h => absurd h ?_⟩
    simp [Except.isOk, Except.toBool]

/-! ## Runs -/

/-- The account of a run: what its requests come to, one after the other. -/
theorem run_account (h : Reachable s session) (hr : session.world.Recording)
    (hrs : ∀ r ∈ rs, r.Records) :
    (run s rs session).2.world.Recording ∧ ∃ lost released news,
      Account rs (givenBy s rs session) ↑(returnedBy (run s rs session).1) lost released news
        session.world (run s rs session).2.world ∧
      ((∀ reply ∈ (run s rs session).1, reply.isOk) → lost = 0 ∧
        (session.world.Hooked → (∀ r ∈ rs, r.LeavesHooks) →
          (run s rs session).2.world.Hooked ∧ news = released.flatMap bothShares)) := by
  induction rs generalizing session with
  | nil => exact ⟨hr, 0, [], [], .refl _, fun _ => ⟨rfl, fun hh _ => ⟨hh, rfl⟩⟩⟩
  | cons r rs ih =>
    obtain ⟨hrehooks, lost, released, news, haccount, hfull⟩ :=
      step_account (s := s) (r := r) h.atRest hr
    have hr' := recording_of_rehooks hrehooks hr (hrs r List.mem_cons_self)
    obtain ⟨hlast, lost', released', news', haccount', hfull'⟩ :=
      ih (h.step r) hr' fun r' hr' => hrs r' (List.mem_cons_of_mem _ hr')
    have hone : Account (r :: rs) _ _ _ _ _ _ _ := haccount.mono (by simp)
    have hrest := haccount'.mono fun r' hr' => List.mem_cons_of_mem r hr'
    have hreturned : returnedBy (run s (r :: rs) session).1 =
        returnedBy [(step s r session).1] ++ returnedBy (run s rs (step s r session).2).1 :=
      returnedBy_cons
    refine ⟨hlast, lost + lost', released ++ released', news ++ news', ?_, fun hok => ?_⟩
    · rw [hreturned, ← Multiset.coe_add]
      exact hone.trans hrest
    · obtain ⟨rfl, hnews⟩ := hfull (hok _ List.mem_cons_self)
      obtain ⟨rfl, hnews'⟩ := hfull' fun reply hreply => hok reply (List.mem_cons_of_mem _ hreply)
      refine ⟨rfl, fun hh hleaves => ?_⟩
      have hh' := hooked_of_rehooks hrehooks hh (hleaves r List.mem_cons_self)
      obtain ⟨hhooked, rfl⟩ := hnews' hh' fun r' hr' => hleaves r' (List.mem_cons_of_mem _ hr')
      exact ⟨hhooked, by rw [hnews, hh.shares_eq, List.flatMap_append]⟩

/-- The account of the end of the map, after which nothing is in it. -/
theorem finish_account (hw : session.world.AtRest) (hr : session.world.Recording) :
    (finish session).2.table.pairs = 0 ∧ ∃ lost released news,
      Account [] 0 0 lost released news session.world (finish session).2 ∧
      ((finish session).1.isOk → lost = 0 ∧
        released = session.world.table.entries.map Entry.pair ∧
        news = released.flatMap session.world.shares) := by
  have hends := dispose_conveys hw.bounded.capacity_lt hr
  unfold finish
  unfold Act.Ends at hends
  cases hrun : dispose session.world with
  | ok _ w =>
    rw [hrun] at hends
    obtain ⟨hconveys, hnone⟩ := hends
    refine ⟨hnone, 0, _, _, ⟨?_, hconveys.handed_eq, flatMap_shares_sublist⟩,
      fun _ => ⟨rfl, rfl, rfl⟩⟩
    rw [hconveys.balance, add_zero, add_zero]
    exact Became.rel_refl _ _
  | error f w =>
    rw [hrun] at hends
    obtain ⟨⟨lost, released, news, hleaks⟩, hnone⟩ := hends
    refine ⟨hnone, lost, released, news, ⟨?_, hleaks.handed_eq,
      hleaks.news_prefix.sublist.trans flatMap_shares_sublist⟩,
      fun h => absurd h (by simp [Except.isOk, Except.toBool])⟩
    rw [hleaks.balance, add_zero]
    exact Became.rel_refl _ _

/-! ## From a new map to its end -/

/-- Nothing is in a new map, and nothing has been handed over. -/
theorem start_empty {capacity : Nat} {keyHook : Option (Hook (Journal K V) K)}
    {valueHook : Option (Hook (Journal K V) V)}
    (h : Session.start s capacity keyHook valueHook = .ok session) :
    session.world.table.pairs = 0 ∧ session.world.handed = [] := by
  refine ⟨(start_grown h).2.pairs_eq, ?_⟩
  unfold Session.start create at h
  have hkeeps : Keeps handed (rehash (V := V) s.callbacks capacity) :=
    rehash_keeps handed_ofClient callbacks_keep_handed
  replace hkeeps := hkeeps { keyHook, valueHook, client := [] }
  unfold Act.Ends at hkeeps
  split at h
  · rename_i w hrun
    rw [hrun] at hkeeps
    have hw : { world := w } = session := by simpa [Except.map] using h
    rw [← hw]
    exact hkeeps
  · exact absurd h (by simp [Except.map])

/-- Take any run of a new map whose hooks write down what they are handed. A request that
is answered after it transfers pairs as it should.

Whatever was stopped in the run, and whether the map then comes to its end or not, and that
with a fault or not: the keys handed to the hooks, handed back and in the map are among the
keys put in, each as often at most, and the same goes for the values as the updates in place
have left them.

If nothing was stopped and both hooks were there throughout, then by the end of the map each
pair put in has been handed to the hooks or handed back, as the updates have left it. The
hooks have had the pairs one by one, key before value, and at the end those still in the map
in bucket order. -/
theorem released_once {capacity : Nat} {keyHook : Option (Hook (Journal K V) K)}
    {valueHook : Option (Hook (Journal K V) V)} {session₀ : Session K V}
    (hstart : Session.start s capacity keyHook valueHook = .ok session₀)
    (hkey : ∀ hook, keyHook = some hook → hook.Records .inl)
    (hvalue : ∀ hook, valueHook = some hook → hook.Records .inr)
    (hrs : ∀ r ∈ rs, r.Records) :
    let replies := (run s rs session₀).1
    let session := (run s rs session₀).2
    let given := givenBy s rs session₀
    let returned : Multiset (K × V) := ↑(returnedBy replies)
    (∀ r reply session', step s r session = (.ok reply, session') →
      Transfers s r session reply session') ∧
    (∃ current, Multiset.Rel (Became rs) given current ∧
      ∀ w ∈ [session.world, (finish session).2],
        keysOf w.handed + returned.map Prod.fst + w.table.pairs.map Prod.fst ≤
          given.map Prod.fst ∧
        valuesOf w.handed + returned.map Prod.snd + w.table.pairs.map Prod.snd ≤
          current.map Prod.snd) ∧
    ((∀ reply ∈ replies, reply.isOk) → (finish session).1.isOk →
      keyHook.isSome → valueHook.isSome → (∀ r ∈ rs, r.LeavesHooks) →
      ∃ earlier, let released := earlier ++ session.world.table.entries.map Entry.pair
        (finish session).2.handed = released.flatMap bothShares ∧
          Multiset.Rel (Became rs) given (↑released + returned)) := by
  intro replies session given returned
  have hrest := (start_grown hstart).1
  have hr₀ : session₀.world.Recording := Recording.of_sameRest ⟨hkey, hvalue⟩ hrest
  obtain ⟨hnone, hhanded₀⟩ := start_empty hstart
  have hreach := Reachable.start hstart
  have hw : session.world.AtRest := (hreach.run rs).atRest
  obtain ⟨hr, lost, released, news, haccount, hfull⟩ := run_account hreach hr₀ hrs
  obtain ⟨hleft, lost', released', news', haccount', hfull'⟩ := finish_account hw hr
  have hhanded : session.world.handed = news := by
    rw [haccount.handed_eq, hhanded₀, List.nil_append]
  have hbecame := haccount.became
  rw [hnone, zero_add] at hbecame
  -- the end of the map rewrites nothing
  have hend : session.world.table.pairs = ↑released' + lost' := by
    have heq := Became.rel_eq (by simp) haccount'.became
    rwa [hleft, add_zero, add_zero, zero_add] at heq
  refine ⟨fun r reply session' => transfers_of_step hw hr, ⟨_, hbecame, ?_⟩, ?_⟩
  · -- what was in the map goes the same ways when the map comes to its end
    have hcurrent : (finish session).2.table.pairs + ↑(released ++ released') + returned +
        (lost + lost') = session.world.table.pairs + ↑released + returned + lost := by
      rw [hleft, hend, ← Multiset.coe_add]; abel
    have hall := haccount.trans (haccount'.mono (by simp))
    rw [add_zero, add_zero] at hall
    obtain ⟨hkeys, hvalues⟩ := hall.handed_le hhanded₀
    rw [Became.map_fst hbecame]
    simp only [List.forall_mem_cons, List.not_mem_nil, false_imp_iff, implies_true, and_true]
    exact ⟨haccount.handed_le hhanded₀, hkeys.trans_eq (congrArg _ hcurrent),
      hvalues.trans_eq (congrArg _ hcurrent)⟩
  · intro hok hfinish hk hv hleaves
    have hh₀ : session₀.world.Hooked := ⟨hrest.keyHook ▸ hk, hrest.valueHook ▸ hv⟩
    obtain ⟨rfl, hnews⟩ := hfull hok
    obtain ⟨hh, rfl⟩ := hnews hh₀ hleaves
    obtain ⟨rfl, rfl, rfl⟩ := hfull' hfinish
    refine ⟨released, ?_, ?_⟩
    · rw [haccount'.handed_eq, hhanded, hh.shares_eq, List.flatMap_append]
    · rw [hend, add_zero, add_zero] at hbecame
      rw [← Multiset.coe_add, add_comm (released : Multiset (K × V))]
      exact hbecame

/-- The key hook gives up on the first of two entries, and the clear is repeated with
another hook: the value 10 is lost, and every other key and value is handed over once. A
run without faults hands over and hands back all that it was given. -/
theorem released_once_interrupted :
    let s : Strategy Nat := { hash := fun k => k.toUInt64, equals := fun a b => a == b }
    let keys : Hook (Journal Nat Nat) Nat := Hook.recordKey "keys"
    let values : Hook (Journal Nat Nat) Nat := Hook.recordValue "values"
    let blank (keyHook : Hook (Journal Nat Nat) Nat) : Session Nat Nat :=
      { world := { table := .blank 8, keyHook := some keyHook, valueHook := some values,
                   heap := ⟨1, 0⟩, client := [] } }
    let stopped : List (Request Nat Nat) :=
      [.insert 1 10, .insert 2 20, .clear, .setKeyHook (some keys), .clear, .insert 1 11, .take 1]
    let full : List (Request Nat Nat) :=
      [.insert 3 30, .insert 1 10, .insert 2 20, .insert 1 11, .take 2]
    let world := (run s stopped (blank (keys.failing "no"))).2.world
    let replies := (run s stopped (blank (keys.failing "no"))).1
    let session' := (run s full (blank keys)).2
    let replies' := (run s full (blank keys)).1
    (replies.map Except.isOk = [true, true, false, true, false, true, true] ∧
      world.handed = [.inl 1, .inl 2, .inr 20] ∧ returnedBy replies = [(1, 11)] ∧
      keysOf world.handed + (returnedBy replies : Multiset (Nat × Nat)).map Prod.fst +
        world.table.pairs.map Prod.fst ≤
        (givenBy s stopped (blank (keys.failing "no"))).map Prod.fst) ∧
    ((finish session').2.handed = [.inl 1, .inr 10, .inl 1, .inr 11, .inl 3, .inr 30] ∧
      ∃ released : List (Nat × Nat), (finish session').2.handed = released.flatMap bothShares ∧
        givenBy s full (blank keys) = ↑released + ↑(returnedBy replies')) := by
  intro s keys values blank stopped full world replies session' replies'
  have hkeys : keys.Records .inl := Hook.recordKey_records
  have hvalues : values.Records .inr := Hook.recordValue_records
  have hone : ∀ {part : Nat → Nat ⊕ Nat} {hook : Hook (Journal Nat Nat) Nat},
      hook.Records part → ∀ hook', some hook = some hook' → hook'.Records part := by
    rintro part hook h _ ⟨rfl⟩
    exact h
  have hstopped : ∀ r ∈ stopped, r.Records := by
    simp only [stopped, List.forall_mem_cons, Request.Records, List.not_mem_nil]
    exact ⟨trivial, trivial, trivial, hone hkeys, trivial, trivial, trivial, by simp⟩
  have hfull : ∀ r ∈ full, r.Records := by
    simp only [full, List.forall_mem_cons, Request.Records, List.not_mem_nil]
    exact ⟨trivial, trivial, trivial, trivial, trivial, by simp⟩
  refine ⟨⟨?_, by decide +kernel, by decide +kernel, ?_⟩, by decide +kernel, ?_⟩
  · decide +kernel
  · have hstart : Session.start s 8 (some (keys.failing "no")) (some values) =
        .ok (blank (keys.failing "no")) := rfl
    obtain ⟨_, ⟨_, _, hle⟩, _⟩ := released_once hstart (hone hkeys.failing) (hone hvalues) hstopped
    exact (hle world List.mem_cons_self).1
  · have hstart : Session.start s 8 (some keys) (some values) = .ok (blank keys) := rfl
    obtain ⟨_, _, hall⟩ := released_once hstart (hone hkeys) (hone hvalues) hfull
    obtain ⟨earlier, hhanded, hbecame⟩ := hall (by decide +kernel) (by decide +kernel) rfl rfl
      (by simp [full, Request.LeavesHooks])
    exact ⟨_, hhanded, Became.rel_eq (by simp [full, Request.rewrite]) hbecame⟩

end Session

end OpenAddressing
