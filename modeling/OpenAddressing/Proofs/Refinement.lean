import OpenAddressing.Proofs.Reference
import OpenAddressing.Proofs.Sessions

/-!
# The map refines the list of pairs

`Represents` ties a world to a list of pairs: the entries are these pairs in some order,
and the table is sound. Every call that returns answers as the list does and leaves a
world that represents the list after the call. A call that is stopped is not followed any
further here, so nothing has to be known of the probe function.

All calls but the rebuilding ones begin with a search, and what a search says is where the
two sides meet (`Represents.search_cases`): it comes to the one pair that matches, or no
pair matches.
-/

namespace OpenAddressing

open Act World

/-- The entries of a sound table are the pairs of a list. -/
structure Represents {K V τ : Type} (s : Strategy K) (w : World K V τ) (m : List (K × V)) :
    Prop where
  atRest : w.AtRest
  sound : Table.Sound s w.table
  perm : (w.table.entries.map Entry.pair).Perm m

namespace Represents

variable {K V τ : Type} {cb : Callbacks K V τ} {s : Strategy K} {w w' : World K V τ}
  {m m' : List (K × V)} {k : K} {v : V} {i : Nat} {i? : Option Nat} {e : Entry K V}

theorem distinct (h : Represents s w m) (hlaw : s.Lawful) : Reference.Distinct s m := by
  have hpairs : Reference.Distinct s (w.table.entries.map Entry.pair) :=
    List.pairwise_map.mpr (h.sound.distinct hlaw)
  exact hpairs.perm hlaw h.perm

theorem move (h : Represents s w m) (hrest : w.SameRest w')
    (hsteps : Table.Steps s w.table w'.table)
    (hperm : (w'.table.entries.map Entry.pair).Perm m') : Represents s w' m' where
  atRest := ⟨hsteps.bounded h.atRest.bounded, hrest.probing.trans h.atRest.probing_eq⟩
  sound := hsteps.sound h.sound
  perm := hperm

theorem still (h : Represents s w m) (hw : w.SameButClient w') : Represents s w' m := by
  refine h.move hw.sameRest (by rw [hw.table_eq]) ?_
  rw [hw.table_eq]
  exact h.perm

/-- Moving the entries does not change the pairs. -/
theorem grow (h : Represents s w m) (hrest : w.SameRest w')
    (hgrown : Table.Grown s w.table w'.table) : Represents s w' m :=
  h.move hrest hgrown.steps ((hgrown.entries_perm.map _).trans h.perm)

theorem forall_pairs (h : Represents s w m)
    (hne : ∀ e ∈ w.table.entries, s.equals k e.key = false) :
    ∀ p ∈ m, s.equals k p.1 = false := by
  intro p hp
  obtain ⟨e, he, rfl⟩ := List.mem_map.mp (h.perm.mem_iff.mpr hp)
  exact hne e he

/-- The pairs around one of them. -/
theorem perm_cons (h : Represents s w m) (he : w.table.entryAt? i = some e) :
    m.Perm (e.pair :: (w.table.buryAt i).entries.map Entry.pair) :=
  h.perm.symm.trans ((Table.entries_buryAt he).map Entry.pair)

/-- What a search says of the bucket it finds is true of the pairs. -/
theorem search_cases (h : Represents s w m) (hlaw : s.Lawful)
    (hfind : w.table.plainFind s k = .ok i?) :
    (i? = none ∧ ∀ p ∈ m, s.equals k p.1 = false) ∨
      ∃ i e, i? = some i ∧ w.table.entryAt? i = some e ∧ s.equals k e.key = true := by
  cases i? with
  | none => exact Or.inl ⟨rfl, h.forall_pairs (h.sound.not_equals_of_plainFind hlaw hfind)⟩
  | some i =>
    obtain ⟨e, he, _, hkey⟩ := Table.entry_of_plainFind hfind
    exact Or.inr ⟨i, e, rfl, he, hkey⟩

theorem find?_eq (h : Represents s w m) (hlaw : s.Lawful) (he : w.table.entryAt? i = some e)
    (hkey : s.equals k e.key = true) : Reference.find? s k m = some e.pair :=
  Reference.find?_of_perm_cons hlaw (h.distinct hlaw) (h.perm_cons he) hkey

/-! ## Lookups -/

theorem getEntry?_ends (h : Represents s w m) (hlaw : s.Lawful) (hcb : cb.Plain s) :
    (World.getEntry? cb k).Ends w
      (fun r w' => r = Reference.find? s k m ∧ Represents s w' m) fun _ _ => True := by
  refine (World.getEntry?_ends hcb).imp (fun r w' hr => ?_) (fun _ _ _ => trivial)
  obtain ⟨⟨i?, hfind, rfl⟩, hw⟩ := hr
  refine ⟨?_, h.still hw⟩
  rcases h.search_cases hlaw hfind with ⟨rfl, hne⟩ | ⟨i, e, rfl, he, hkey⟩
  · rw [Reference.find?_of_forall hne]
    rfl
  · rw [h.find?_eq hlaw he hkey, Option.bind_some, he]
    rfl

theorem contains_ends (h : Represents s w m) (hlaw : s.Lawful) (hcb : cb.Plain s) :
    (contains cb k).Ends w
      (fun b w' => b = (Reference.find? s k m).isSome ∧ Represents s w' m) fun _ _ => True := by
  unfold contains
  rw [ends_bind]
  refine (locate_ends hcb).imp (fun i? w' hr => ?_) (fun _ _ _ => trivial)
  obtain ⟨hfind, hw⟩ := hr
  refine ⟨?_, h.still hw⟩
  rcases h.search_cases hlaw hfind with ⟨rfl, hne⟩ | ⟨i, e, rfl, he, hkey⟩
  · rw [Reference.find?_of_forall hne]
    rfl
  · rw [h.find?_eq hlaw he hkey]
    rfl

theorem answer_ends (h : Represents s w m) (hlaw : s.Lawful) (hcb : cb.Plain s) {l : Lookup K} :
    (answer cb l).Ends w (fun a w' => a = Reference.answer s m l ∧ Represents s w' m)
      fun _ _ => True := by
  cases l with
  | get k =>
    refine ends_bind.mpr (ends_bind.mpr ?_)
    refine (h.getEntry?_ends hlaw hcb).imp (fun r w' hr => ?_) (fun _ _ _ => trivial)
    obtain ⟨rfl, hw'⟩ := hr
    exact ⟨rfl, hw'⟩
  | getEntry k =>
    refine ends_bind.mpr ?_
    refine (h.getEntry?_ends hlaw hcb).imp (fun r w' hr => ?_) (fun _ _ _ => trivial)
    obtain ⟨rfl, hw'⟩ := hr
    exact ⟨rfl, hw'⟩
  | contains k =>
    refine ends_bind.mpr ?_
    refine (h.contains_ends hlaw hcb).imp (fun b w' hr => ?_) (fun _ _ _ => trivial)
    obtain ⟨rfl, hw'⟩ := hr
    exact ⟨rfl, hw'⟩

/-! ## Insertions -/

/-- A pair that is stored takes the place of the one that matches. -/
theorem stored_perm (h : Represents s w m) (hlaw : s.Lawful) {r : Option (Entry K V)}
    {t : Table K V} (hstored : w.table.Stored s k v r t) :
    (t.entries.map Entry.pair).Perm (Reference.insert s k v m) := by
  unfold Reference.insert
  cases hstored with
  | @fill i reused hslot =>
    have hne := h.forall_pairs (h.sound.not_equals_of_vacant hlaw hslot)
    have hfree := (Table.plainAcquire_vacant hslot).1
    have hentries := Table.entries_fillAt (e := ⟨s.hash k, k, v⟩) hfree
    rw [Reference.erase_of_forall hne]
    exact (hentries.map Entry.pair).trans (List.Perm.cons (k, v) h.perm)
  | @replace i old hslot hold =>
    -- the pair that is replaced is the only one that the insertion erases from the list
    obtain ⟨old', hold', _, hkey⟩ := Table.plainAcquire_occupied hslot
    rw [hold] at hold'
    have hoo : old = old' := Option.some.inj hold'
    subst hoo
    have herase := Reference.erase_of_perm_cons hlaw (h.distinct hlaw) (h.perm_cons hold) hkey
    have hentries := Table.entries_setFull hold ⟨s.hash k, k, v⟩
    exact (hentries.map Entry.pair).trans (List.Perm.cons (k, v) herase.symm)

theorem insert_ends (h : Represents s w m) (hlaw : s.Lawful) (hcb : cb.Plain s) :
    (insert cb k v).Ends w (fun _ w' => Represents s w' (Reference.insert s k v m))
      fun _ _ => True := by
  refine (World.insert_ends hcb h.atRest).imp (fun _ w' hr => ?_) (fun _ _ _ => trivial)
  obtain ⟨hrest, t, r, hgrown, hroom, hstored⟩ := hr
  -- room is made first, and the pair is stored in the table that this leaves
  have hgrow : Represents s { w with table := t } m := h.grow ⟨rfl, rfl, rfl⟩ hgrown
  refine h.move hrest (hgrown.steps.trans (.single (hstored.change hroom))) ?_
  exact hgrow.stored_perm hlaw hstored

theorem insertAll_ends (h : Represents s w m) (hlaw : s.Lawful) (hcb : cb.Plain s)
    {items : List (K × V)} :
    (insertAll cb items).Ends w (fun _ w' => Represents s w' (Reference.insertAll s items m))
      fun _ _ => True := by
  refine ends_forM (I := fun pre w' => Represents s w' (Reference.insertAll s pre m)) h ?_
  intro pre p post w' _ hw'
  refine (hw'.insert_ends hlaw hcb).imp (fun _ w'' hw'' => ?_) (fun _ _ _ => trivial)
  unfold Reference.insertAll at hw'' ⊢
  rw [List.foldl_append]
  exact hw''

/-! ## Removals -/

theorem removed_cases (h : Represents s w m) (hlaw : s.Lawful) {r : Option (Entry K V)}
    {t : Table K V} (hfind : w.table.plainFind s k = .ok i?) (hremoved : w.table.Removed i? r t) :
    r.map Entry.pair = Reference.find? s k m ∧
      (t.entries.map Entry.pair).Perm (Reference.erase s k m) := by
  rcases h.search_cases hlaw hfind with ⟨rfl, hne⟩ | ⟨i, e, rfl, he, hkey⟩
  · cases hremoved
    rw [Reference.find?_of_forall hne, Reference.erase_of_forall hne]
    exact ⟨rfl, h.perm⟩
  · cases hremoved with
    | entry he' =>
      rw [he'] at he
      have hee : _ = e := Option.some.inj he
      subst hee
      refine ⟨(h.find?_eq hlaw he' hkey).symm, ?_⟩
      exact (Reference.erase_of_perm_cons hlaw (h.distinct hlaw) (h.perm_cons he') hkey).symm

theorem erase_ends (h : Represents s w m) (hlaw : s.Lawful) (hcb : cb.Plain s) :
    (erase cb k).Ends w
      (fun b w' => b = (Reference.find? s k m).isSome ∧ Represents s w' (Reference.erase s k m))
      fun _ _ => True := by
  refine (World.erase_ends hcb h.atRest).imp (fun b w' hr => ?_) (fun _ _ _ => trivial)
  obtain ⟨hrest, i?, r, hfind, hremoved, rfl⟩ := hr
  obtain ⟨hr, hperm⟩ := h.removed_cases hlaw hfind hremoved
  refine ⟨?_, h.move hrest hremoved.steps hperm⟩
  rw [← hr, Option.isSome_map]

theorem take_ends (h : Represents s w m) (hlaw : s.Lawful) (hcb : cb.Plain s) :
    (take cb k).Ends w
      (fun p w' => p = Reference.find? s k m ∧ Represents s w' (Reference.erase s k m))
      fun _ _ => True := by
  refine (World.take_ends hcb h.atRest.bounded).imp (fun p w' hr => ?_) (fun _ _ _ => trivial)
  obtain ⟨hrest, i?, r, hfind, hremoved, rfl⟩ := hr
  obtain ⟨hr, hperm⟩ := h.removed_cases hlaw hfind hremoved
  exact ⟨hr, h.move hrest hremoved.steps hperm⟩

/-! ## Changes in place -/

theorem update_ends (h : Represents s w m) (hlaw : s.Lawful) (hcb : cb.Plain s) {f : V → V} :
    (update cb k f).Ends w
      (fun v? w' => v? = (Reference.find? s k m).map (fun p => f p.2) ∧
        Represents s w' (Reference.update s k f m))
      fun _ _ => True := by
  refine (World.update_ends hcb).imp (fun v? w' hr => ?_) (fun _ _ _ => trivial)
  obtain ⟨hrest, i?, hfind, hupdated⟩ := hr
  have hmove : (w'.table.entries.map Entry.pair).Perm (Reference.update s k f m) →
      Represents s w' (Reference.update s k f m) := h.move hrest hupdated.steps
  rcases h.search_cases hlaw hfind with ⟨rfl, hne⟩ | ⟨i, e, rfl, he, hkey⟩
  · rw [Reference.update_of_forall hne] at hmove ⊢
    rw [Reference.find?_of_forall hne]
    generalize ht : w'.table = t at hupdated
    cases hupdated
    exact ⟨rfl, hmove (by rw [ht]; exact h.perm)⟩
  · generalize ht : w'.table = t at hupdated
    cases hupdated with
    | entry he' =>
      rw [he'] at he
      have hee : _ = e := Option.some.inj he
      subst hee
      rw [h.find?_eq hlaw he' hkey]
      refine ⟨rfl, hmove ?_⟩
      have hupdate := Reference.update_of_perm_cons (f := f) hlaw (h.distinct hlaw)
        (h.perm_cons he') hkey
      rw [ht]
      exact ((Table.entries_setFull he' _).map Entry.pair).trans hupdate.symm

/-! ## Rebuilds and clearing -/

theorem rehash_ends (h : Represents s w m) (hcb : cb.Plain s) {request : Nat} :
    (rehash cb request).Ends w (fun _ w' => Represents s w' m) fun _ _ => True :=
  (rehash_grown hcb request).imp (fun _ _ hr => h.grow hr.1 hr.2) (fun _ _ _ => trivial)

theorem reserve_ends (h : Represents s w m) (hcb : cb.Plain s) {extra : Nat} :
    (reserve cb extra).Ends w (fun _ w' => Represents s w' m) fun _ _ => True :=
  (reserve_grown hcb h.atRest.bounded).imp (fun _ _ hr => h.grow hr.1 hr.2) (fun _ _ _ => trivial)

theorem clear_ends (h : Represents s w m) :
    (clear : Act (World K V τ) Unit).Ends w (fun _ w' => Represents s w' []) fun _ _ => True := by
  refine (World.clear_ends h.atRest.bounded.capacity_lt).imp (fun _ w' hr => ?_)
    (fun _ _ _ => trivial)
  obtain ⟨hrest, ht⟩ := hr
  refine ⟨⟨?_, hrest.probing.trans h.atRest.probing_eq⟩, ?_, ?_⟩
  · rw [ht]; exact .blank h.atRest.bounded.capacity_lt
  · rw [ht]; exact .blank
  · rw [ht, Table.entries_blank]; exact .refl _

/-! ## Sessions -/

section

variable {session : Session K V} {r : Request K V} {reply : Reply K V}

theorem reply_ends {α : Type} {act : Act (World K V (Journal K V)) α} {g : α → Reply K V} {a : α}
    (h : act.Ends session.world (fun a' w' => a' = a ∧ Represents s w' m) fun _ _ => True) :
    (Session.onWorld (act >>= fun a => pure (g a))).Ends session
      (fun reply session' => reply = g a ∧ Represents s session'.world m) fun _ _ => True := by
  rw [Session.ends_onWorld, ends_bind]
  exact h.imp (fun _ _ hr => ⟨by rw [hr.1], hr.2⟩) (fun _ _ _ => trivial)

theorem done_ends {act : Act (World K V (Journal K V)) Unit}
    (h : act.Ends session.world (fun _ w' => Represents s w' m) fun _ _ => True) :
    (Session.onWorld (act >>= fun _ => pure (Reply.done : Reply K V))).Ends session
      (fun reply session' => reply = Reply.done ∧ Represents s session'.world m)
      fun _ _ => True := by
  rw [Session.ends_onWorld, ends_bind]
  exact h.imp (fun _ _ hr => ⟨rfl, hr⟩) (fun _ _ _ => trivial)

/-- A request that is answered is answered as the list of pairs answers it. -/
theorem handle_ends (h : Represents s session.world m) (hlaw : s.Lawful)
    (hspec : Reference.step s r m = some (reply, m')) :
    (Session.handle s r).Ends session
      (fun reply' session' => reply' = reply ∧ Represents s session'.world m')
      fun _ _ => True := by
  have hcb : (s.callbacks : Callbacks K V (Journal K V)).Plain s := s.callbacks_plain
  cases r with
  | lookup l => cases hspec; exact reply_ends (h.answer_ends hlaw hcb)
  | update k f => cases hspec; exact reply_ends (h.update_ends hlaw hcb)
  | insert k v => cases hspec; exact done_ends (h.insert_ends hlaw hcb)
  | insertAll items => cases hspec; exact done_ends (h.insertAll_ends hlaw hcb)
  | erase k => cases hspec; exact reply_ends (h.erase_ends hlaw hcb)
  | take k => cases hspec; exact reply_ends (h.take_ends hlaw hcb)
  | rehash capacity => cases hspec; exact done_ends (h.rehash_ends hcb)
  | reserve extra => cases hspec; exact done_ends (h.reserve_ends hcb)
  | clear => cases hspec; exact done_ends h.clear_ends
  -- the list has no answer to the other requests
  | _ => exact absurd hspec (by simp [Reference.step])

/-- As long as no request is stopped, a run is answered as the list answers it. -/
theorem run_eq (h : Represents s session.world m) (hlaw : s.Lawful) {rs : List (Request K V)}
    {replies : List (Reply K V)} (hspec : Reference.run s rs m = some (replies, m'))
    (hok : ∀ f, .error f ∉ (Session.run s rs session).1) :
    (Session.run s rs session).1 = replies.map .ok ∧
      Represents s (Session.run s rs session).2.world m' := by
  induction rs generalizing session m replies with
  | nil =>
    rw [Reference.run, Option.some.injEq, Prod.mk.injEq] at hspec
    obtain ⟨rfl, rfl⟩ := hspec
    exact ⟨rfl, h⟩
  | cons r rs ih =>
    rw [Reference.run] at hspec
    obtain ⟨⟨reply, m₁⟩, hstep, hspec⟩ := Option.bind_eq_some_iff.mp hspec
    obtain ⟨⟨replies', m₂⟩, hrun, hspec⟩ := Option.bind_eq_some_iff.mp hspec
    have hpair : (reply :: replies', m₂) = (replies, m') := Option.some.inj hspec
    obtain ⟨rfl, rfl⟩ := Prod.mk.inj hpair
    show (Session.step s r session).1 :: (Session.run s rs (Session.step s r session).2).1 = _ ∧
      Represents s (Session.run s rs (Session.step s r session).2).2.world _
    replace hok : ∀ f, .error f ∉
      (Session.step s r session).1 :: (Session.run s rs (Session.step s r session).2).1 := hok
    -- the first request is answered, since no request of the run is stopped
    rcases Session.step_cases (h.handle_ends hlaw hstep) with
      ⟨reply', session', hs, rfl, hrep⟩ | ⟨f, session', hs, _⟩
    · rw [hs] at hok ⊢
      obtain ⟨hreplies, hrep'⟩ := ih hrep hrun fun f hf => hok f (List.mem_cons_of_mem _ hf)
      refine ⟨?_, hrep'⟩
      rw [hreplies]
      rfl
    · rw [hs] at hok
      exact absurd List.mem_cons_self (hok f)

theorem of_start {capacity : Nat} {keyHook : Option (Hook (Journal K V) K)}
    {valueHook : Option (Hook (Journal K V) V)}
    (h : Session.start s capacity keyHook valueHook = .ok session) :
    Represents s session.world [] := by
  obtain ⟨hrest, hgrown⟩ := Session.start_grown h
  have hempty : Represents s
      ({ keyHook, valueHook, client := [] } : World K V (Journal K V)) [] := by
    refine ⟨⟨Table.Bounded.blank (c := 0) (by decide), rfl⟩, Table.Sound.blank (c := 0), ?_⟩
    exact List.Perm.refl []
  exact hempty.grow hrest hgrown

theorem live_eq (h : Represents s w m) : w.table.live = m.length := by
  rw [h.sound.exact.live_eq, ← Table.length_entries, ← h.perm.length_eq, List.length_map]

theorem exists_items (h : Represents s w m) : ∃ items, w.table.collect = .ok items ∧ items.Perm m :=
  ⟨_, h.sound.exact.collect_eq, h.perm⟩

/-- A lookup that returns comes back empty exactly if no key that is stored is equal. -/
theorem get_eq_none_iff (h : Represents s session.world m) (hlaw : s.Lawful) {v? : Option V}
    {items : List (K × V)} (hitems : items.Perm m)
    (hget : (Session.step s (.lookup (.get k)) session).1 = .ok (.answer (.value v?))) :
    v? = none ↔ ∀ p ∈ items, s.equals k p.1 = false := by
  have hspec : Reference.step s (.lookup (.get k)) m =
    some (.answer (.value ((Reference.find? s k m).map Prod.snd)), m) := rfl
  rcases Session.step_cases (h.handle_ends hlaw hspec) with
    ⟨reply, session', hs, rfl, _⟩ | ⟨f, session', hs, _⟩
  · rw [hs] at hget
    have hv : (Reference.find? s k m).map Prod.snd = v? :=
      Answer.value.inj (Reply.answer.inj (Except.ok.inj hget))
    rw [← hv, Option.map_eq_none_iff]
    unfold Reference.find?
    rw [List.find?_eq_none]
    constructor
    · intro hnone p hp
      exact Bool.eq_false_iff.mpr (hnone p (hitems.mem_iff.mp hp))
    · intro hne p hp
      exact Bool.eq_false_iff.mp (hne p (hitems.mem_iff.mpr hp))
  · rw [hs] at hget
    exact absurd hget (by simp)

end

end Represents

namespace Session

variable {K V : Type} {s : Strategy K}

/-- The map is the list of pairs, as long as nothing stops: every run of the calls that the
list can answer, from a new map of any capacity, is answered in the same way; the map
counts as many entries as the list has pairs, a walk visits these pairs in some order, and
a lookup comes back empty exactly if no equal key is stored. The probe function is
arbitrary. Since the run is arbitrary, all this is so after each of its calls. -/
theorem run_refines (hlaw : s.Lawful) {capacity : Nat}
    {keyHook : Option (Hook (Journal K V) K)} {valueHook : Option (Hook (Journal K V) V)}
    {session₀ : Session K V} (hstart : start s capacity keyHook valueHook = .ok session₀)
    {rs : List (Request K V)} {replies : List (Reply K V)} {m : List (K × V)}
    (hspec : Reference.run s rs [] = some (replies, m))
    (hok : ∀ f, .error f ∉ (run s rs session₀).1) :
    (run s rs session₀).1 = replies.map .ok ∧
      (run s rs session₀).2.world.table.live = m.length ∧
      ∃ items, (run s rs session₀).2.world.table.collect = .ok items ∧ items.Perm m ∧
        ∀ k v?, (step s (.lookup (.get k)) (run s rs session₀).2).1 =
            .ok (.answer (.value v?)) →
          (v? = none ↔ ∀ p ∈ items, s.equals k p.1 = false) := by
  obtain ⟨hreplies, hrep⟩ := (Represents.of_start hstart).run_eq hlaw hspec hok
  obtain ⟨items, hitems, hperm⟩ := hrep.exists_items
  exact ⟨hreplies, hrep.live_eq, items, hitems, hperm, fun k v? => hrep.get_eq_none_iff hlaw hperm⟩

/-- A run with a probe function that knows only the first bucket, and with all keys in one
chain: a replaced key and value, a tombstone in the chain, and a lookup past it. -/
theorem run_refines_toZero :
    let s : Strategy (Nat × Nat) :=
      { hash := fun _ => 1, equals := fun a b => a.1 == b.1, probe? := some Probe.toZero }
    let session₀ : Session (Nat × Nat) Nat :=
      { world := { table := .blank 4, heap := ⟨1, 0⟩, client := [] } }
    let rs : List (Request (Nat × Nat) Nat) :=
      [.insert (1, 0) 10, .insert (2, 0) 20, .insert (2, 7) 21, .erase (1, 5),
        .lookup (.getEntry (2, 9)), .lookup (.get (1, 0)), .rehash 0, .take (2, 1)]
    let replies : List (Reply (Nat × Nat) Nat) :=
      [.done, .done, .done, .flag true, .answer (.entry (some ((2, 7), 21))),
        .answer (.value none), .done, .pair (some ((2, 7), 21))]
    start s 4 none none = .ok session₀ ∧ Reference.run s rs [] = some (replies, []) ∧
      (run s rs session₀).1 = replies.map .ok ∧
      (run s rs session₀).2.world.table.collect = .ok [] := by
  intro s session₀ rs replies
  have hlaw : s.Lawful := by
    refine ⟨⟨fun _ => ?_, fun h => ?_, fun h h' => ?_⟩, fun _ _ _ => rfl⟩
    · simp [s]
    · simp only [s, beq_iff_eq] at h ⊢
      exact h.symm
    · simp only [s, beq_iff_eq] at h h' ⊢
      exact h.trans h'
  have hstart : start s 4 none none = .ok session₀ := rfl
  have hspec : Reference.run s rs [] = some (replies, []) := rfl
  have hokay : (run s rs session₀).1.all Except.isOk = true := by decide +kernel
  have hok : ∀ f, .error f ∉ (run s rs session₀).1 := by
    intro f hf
    exact absurd (List.all_eq_true.mp hokay _ hf) (by simp [Except.isOk, Except.toBool])
  obtain ⟨hreplies, _, items, hitems, hperm, _⟩ := run_refines hlaw hstart hspec hok
  rw [List.perm_nil.mp hperm] at hitems
  exact ⟨hstart, hspec, hreplies, hitems⟩

end Session

end OpenAddressing
