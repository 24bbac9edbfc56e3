import OpenAddressing.Proofs.Deliveries

/-!
# The balance of each call

For every call that puts a pair in or takes one out: what it conveys when it returns, and
what it leaks when it stops. A call of one entry first settles the table and then hands
over at most that entry (`releaseRemoved_conveys`). Calls of many entries are sequences of
these, and their balances add up (`Sheds.bind`, `insertAll_balances`). Clearing hands the
entries over in bucket order (`clear_conveys`).
-/

namespace OpenAddressing

open Act

namespace Table

variable {K V : Type} {s : Strategy K} {k : K} {v : V} {t t' : Table K V}
  {r : Option (Entry K V)} {i? : Option Nat}

/-- The entry that gives way to a key has an equal key. -/
theorem Stored.equals (h : Stored s k v t r t') : ∀ e ∈ r, s.equals k e.key = true := by
  intro e he
  cases h with
  | fill _ => exact absurd he (by simp)
  | replace hslot hold =>
    obtain ⟨e', he', _, hkey⟩ := plainAcquire_occupied hslot
    rw [hold, he] at he'
    exact Option.some.inj he' ▸ hkey

/-- The entry that is removed for a key has an equal key. -/
theorem Removed.equals (h : Removed t i? r t') (hfind : t.plainFind s k = .ok i?) :
    ∀ e ∈ r, s.equals k e.key = true := by
  intro e he
  cases h with
  | nothing => exact absurd he (by simp)
  | entry hi =>
    obtain ⟨e', he', _, hkey⟩ := entry_of_plainFind hfind
    rw [hi, he] at he'
    exact Option.some.inj he' ▸ hkey

end Table

namespace World

variable {K V α β : Type} {s : Strategy K} {w w₁ : World K V (Journal K V)} {k : K} {v : V}
  {cb : Callbacks K V (Journal K V)} {given returned : Multiset (K × V)}
  {r : Option (Entry K V)}

/-- The act leaks something or nothing of what was given. -/
def LeaksSome (given : Multiset (K × V)) (w w' : World K V (Journal K V)) : Prop :=
  ∃ lost released news, Leaks given lost released news w w'

/-- From a world at rest with hooks that record, the act evolves the world and balances. If
it returns, then `P` holds of its answer, of what it released and of what it handed back. -/
def Balances (s : Strategy K) (given : Multiset (K × V))
    (P : α → List (K × V) → Multiset (K × V) → Prop)
    (act : Act (World K V (Journal K V)) α) : Prop :=
  ∀ w, w.AtRest → w.Recording → act.Ends w
    (fun a w' => Evolves s w w' ∧ ∃ released returned, P a released returned ∧
      Conveys given returned released w w')
    fun _ w' => Evolves s w w' ∧ LeaksSome given w w'

/-- Nothing is put in and nothing handed back; entries may go to the hooks. -/
def Sheds (s : Strategy K) (act : Act (World K V (Journal K V)) α) : Prop :=
  Balances s 0 (fun _ _ returned => returned = 0) act

theorem Balances.of_regular {P : α → List (K × V) → Multiset (K × V) → Prop}
    {act : Act (World K V (Journal K V)) α} (hreg : Regular s act)
    (h : ∀ w, w.AtRest → w.Recording → act.Ends w
      (fun a w' => ∃ released returned, P a released returned ∧
        Conveys given returned released w w')
      fun _ w' => LeaksSome given w w') : Balances s given P act := by
  intro w hw hr
  exact ((hreg w hw).and (h w hw hr)).imp (fun _ _ h => h) (fun _ _ h => ⟨h.1.1, h.2⟩)

theorem Balances.imp {P P' : α → List (K × V) → Multiset (K × V) → Prop}
    {act : Act (World K V (Journal K V)) α} (h : Balances s given P act)
    (hP : ∀ a released returned, P a released returned → P' a released returned) :
    Balances s given P' act := by
  intro w hw hr
  refine (h w hw hr).imp (fun a w' h' => ?_) (fun _ _ h' => h')
  obtain ⟨hevolves, released, returned, hp, hconveys⟩ := h'
  exact ⟨hevolves, released, returned, hP _ _ _ hp, hconveys⟩

/-- A call that stops where it has changed no pair and called no hook. -/
theorem leaksSome_of_pairs (hb : ∃ lost, w.table.pairs = w₁.table.pairs + lost)
    (hh : w₁.handed = w.handed) : LeaksSome given w w₁ := by
  obtain ⟨lost, hb⟩ := hb
  exact ⟨lost + given, [], [], .of_balance (by rw [hb, add_assoc]) hh⟩

theorem leaksSome_of_same (ht : w₁.table = w.table) (hh : w₁.handed = w.handed) :
    LeaksSome given w w₁ := leaksSome_of_pairs ⟨0, by rw [ht, add_zero]⟩ hh

/-! ## One entry -/

/-- The table has settled, and the entry that has left it goes to the hooks. -/
theorem releaseRemoved_conveys (hr : w.Recording) (hrest : w.SameRest w₁)
    (hh : w₁.handed = w.handed)
    (hb : w.table.pairs + given = w₁.table.pairs + ↑(r.toList.map Entry.pair)) :
    (releaseRemoved r).Ends w₁
      (fun b w' => b = r.isSome ∧ Conveys given 0 (r.toList.map Entry.pair) w w')
      fun _ w' => LeaksSome given w w' := by
  have hbalance : ∀ w' : World K V (Journal K V), w₁.SameButClient w' →
      w.table.pairs + given = w'.table.pairs + ↑(r.toList.map Entry.pair) + 0 := by
    intro w' hw'
    rw [hw'.table_eq, hb, add_zero]
  refine (releaseRemoved_hands (hr.of_sameRest hrest)).imp (fun b w' h => ?_) (fun _ w' h => ?_)
  · obtain ⟨hsome, hw', hnews⟩ := h
    rw [hrest.shares_eq, hh] at hnews
    exact ⟨hsome, hbalance w' hw', hnews⟩
  · obtain ⟨hw', news, hprefix, hnews⟩ := h
    rw [hrest.shares_eq] at hprefix
    rw [hh] at hnews
    exact ⟨0, _, news, hbalance w' hw', hnews, hprefix⟩

/-- There is at most one pair, and its key is equal. -/
def OfKey (s : Strategy K) (k : K) (ps : List (K × V)) : Prop :=
  ps.length ≤ 1 ∧ ∀ p ∈ ps, s.equals k p.1 = true

theorem ofKey_of_option (h : ∀ e ∈ r, s.equals k e.key = true) :
    OfKey s k (r.toList.map Entry.pair) := by
  cases r with
  | none => exact ⟨Nat.zero_le _, fun p hp => absurd hp List.not_mem_nil⟩
  | some e =>
    refine ⟨Nat.le_refl _, fun p hp => ?_⟩
    have hpe : p = e.pair := List.mem_singleton.mp hp
    rw [hpe]
    exact h e rfl

/-- An insertion releases the pair that it replaces, if there is one. -/
theorem insert_balances (hcb : cb.Plain s) (hkeeps : cb.Keeps handed) :
    Balances s {(k, v)} (fun _ released returned => returned = 0 ∧ OfKey s k released)
      (insert cb k v) := by
  refine .of_regular (insert_regular hcb) fun w hw hr => insert_of_slot hcb.follows hw ?_
  have hslot := (insertSlot_keeps (k := k) (v := v) handed_ofClient hkeeps).guarded
    handed_ofClient.ignoresMark
  refine ((guardedSlot_ends hcb hw).and (hslot w)).imp (fun r w₁ h => ?_) (fun f w₁ h => ?_)
  · obtain ⟨⟨hrest, t, hgrown, _, hstored⟩, hh⟩ := h
    have hb := hstored.pairs_eq
    rw [hgrown.pairs_eq] at hb
    refine (releaseRemoved_conveys hr hrest hh hb).imp (fun _ w' h => ?_) (fun _ _ h => h)
    exact ⟨_, 0, ⟨rfl, ofKey_of_option hstored.equals⟩, h.2⟩
  · -- what a stopped rebuild has not moved is lost, and the new pair is too
    exact leaksSome_of_pairs h.1.2.pairs_le h.2

/-- An erasure releases the pair that it removes. -/
theorem erase_balances (hcb : cb.Plain s) (hkeeps : cb.Keeps handed) :
    Balances s 0 (fun b released returned => returned = 0 ∧ OfKey s k released ∧
      released.length = b.toNat) (erase cb k : Act (World K V (Journal K V)) Bool) := by
  refine .of_regular (erase_regular hcb) fun w hw hr => ?_
  unfold erase
  rw [ends_bind]
  have hremove := remove_keeps (k := k) handed_ofClient hkeeps w
  refine ((remove_ends hcb hw.bounded).and hremove).imp (fun r w₁ h => ?_) (fun f w₁ h => ?_)
  · obtain ⟨⟨hrest, i?, hfind, hremoved⟩, hh⟩ := h
    have hb : w.table.pairs + 0 = w₁.table.pairs + ↑(r.toList.map Entry.pair) := by
      rw [add_zero]; exact hremoved.pairs_eq
    refine (releaseRemoved_conveys hr hrest hh hb).imp (fun b w' h => ?_) (fun _ _ h => h)
    refine ⟨_, 0, ⟨rfl, ofKey_of_option (hremoved.equals hfind), ?_⟩, h.2⟩
    rw [h.1]
    cases r <;> rfl
  · exact leaksSome_of_same h.1.2.table_eq h.2

theorem take_balances (hcb : cb.Plain s) (hkeeps : cb.Keeps handed) :
    Balances s 0 (fun p released returned => released = [] ∧ returned = ↑p.toList)
      (take cb k) := by
  refine .of_regular (take_regular hcb) fun w hw _ => ?_
  have hremove : Keeps handed (take cb k) :=
    (remove_keeps handed_ofClient hkeeps).bind fun _ => keeps_pure
  refine ((take_ends hcb hw.bounded).and (hremove w)).imp (fun p w' h => ?_) (fun f w' h => ?_)
  · obtain ⟨⟨_, i?, r, _, hremoved, rfl⟩, hh⟩ := h
    refine ⟨[], _, ⟨rfl, rfl⟩, ?_, by rw [hh]; exact (List.append_nil _).symm⟩
    rw [Multiset.coe_nil, add_zero, add_zero, hremoved.pairs_eq]
    cases r <;> rfl
  · exact leaksSome_of_same h.1.2.table_eq h.2

/-! ## Rebuilds -/

/-- A rebuild calls no hook. -/
theorem conveys_of_grown {act : Act (World K V (Journal K V)) Unit} (hkeeps : Keeps handed act)
    (h : act.Ends w (fun _ w' => w.SameRest w' ∧ Table.Grown s w.table w'.table)
      fun f w' => w.SameRest w' ∧ Table.Halted s w.table w'.table f) :
    act.Ends w (fun _ w' => Conveys 0 0 [] w w') fun _ w' => LeaksSome 0 w w' := by
  refine (h.and (hkeeps w)).imp (fun _ w' h' => ?_) (fun f w' h' => ?_)
  · exact .of_eq h'.1.2.pairs_eq h'.2
  · exact leaksSome_of_pairs h'.1.2.pairs_le h'.2

theorem rehash_balances (hcb : cb.Plain s) (hkeeps : cb.Keeps handed) {request : Nat} :
    Balances s 0 (fun _ released returned => released = [] ∧ returned = 0)
      (rehash cb request) := by
  refine .of_regular (rehash_regular hcb) fun w _ _ => ?_
  have hconveys := conveys_of_grown (rehash_keeps handed_ofClient hkeeps)
    (rehash_grown hcb request (w := w))
  exact hconveys.imp (fun _ _ h => ⟨[], 0, ⟨rfl, rfl⟩, h⟩) (fun _ _ h => h)

theorem reserve_balances (hcb : cb.Plain s) (hkeeps : cb.Keeps handed) {extra : Nat} :
    Balances s 0 (fun _ released returned => released = [] ∧ returned = 0)
      (reserve cb extra) := by
  refine .of_regular (reserve_regular hcb) fun w hw _ => ?_
  have hkeeps' : Keeps handed (reserve cb extra) := reserve_keeps handed_ofClient hkeeps
  have hconveys := conveys_of_grown hkeeps' (reserve_grown hcb hw.bounded)
  exact hconveys.imp (fun _ _ h => ⟨[], 0, ⟨rfl, rfl⟩, h⟩) (fun _ _ h => h)

/-- What leaves the table and the hooks alone leaves everything where it is. -/
theorem balances_of_keeps {act : Act (World K V (Journal K V)) α} (hreg : Regular s act)
    (htable : Keeps (fun w => w.table) act) (hhanded : Keeps handed act) :
    Balances s 0 (fun _ released returned => released = [] ∧ returned = 0) act := by
  refine .of_regular hreg fun w _ _ => ((htable w).and (hhanded w)).imp ?_ ?_
  · exact fun _ w' h => ⟨[], 0, ⟨rfl, rfl⟩, .of_eq (congrArg Table.pairs h.1) h.2⟩
  · exact fun _ w' h => leaksSome_of_same h.1 h.2

/-- The same of an act that comes to an answer and changes nothing but the client. -/
theorem balances_of_answers {act : Act (World K V (Journal K V)) α} {a : Except Fault α}
    (h : ∀ w, Answers act w a) (hhanded : Keeps handed act) :
    Balances s 0 (fun _ released returned => released = [] ∧ returned = 0) act := by
  intro w _ _
  refine ((h w).and (hhanded w)).imp (fun _ w' h => ?_) (fun _ w' h => ?_)
  · have ht := h.1.2.table_eq
    exact ⟨h.1.2.evolves, [], 0, ⟨rfl, rfl⟩, .of_eq (congrArg Table.pairs ht) h.2⟩
  · exact ⟨h.1.2.evolves, leaksSome_of_same h.1.2.table_eq h.2⟩

/-! ## Sequences of calls -/

theorem sheds_pure {a : α} : Sheds s (pure a : Act (World K V (Journal K V)) α) :=
  fun w _ _ => ⟨.refl w, [], 0, rfl, .of_eq rfl rfl⟩

theorem sheds_lift {r : Except Fault α} : Sheds s (lift r : Act (World K V (Journal K V)) α) := by
  cases r with
  | ok a => exact sheds_pure
  | error f => exact fun w _ _ => ⟨.refl w, leaksSome_of_same rfl rfl⟩

theorem Sheds.bind {x : Act (World K V (Journal K V)) β}
    {g : β → Act (World K V (Journal K V)) α} (hx : Sheds s x) (hg : ∀ b, Sheds s (g b)) :
    Sheds s (x >>= g) := by
  intro w hw hr
  rw [ends_bind]
  refine (hx w hw hr).imp (fun b w₁ h => ?_) (fun _ _ h => h)
  obtain ⟨hevolves, released, returned, rfl, hconveys⟩ := h
  have hrest := hevolves.toSameRest
  refine (hg b w₁ (hevolves.atRest hw) (hr.of_sameRest hrest)).imp (fun a w₂ h => ?_)
    (fun f w₂ h => ?_)
  · obtain ⟨hevolves', released', returned', rfl, hconveys'⟩ := h
    exact ⟨hevolves.trans hevolves', _, _, rfl, hconveys.trans hconveys' hrest⟩
  · obtain ⟨hevolves', lost, released', news, hleaks⟩ := h
    exact ⟨hevolves.trans hevolves', _, _, _, hconveys.leaks hleaks hrest⟩

theorem Sheds.get {g : World K V (Journal K V) → Act (World K V (Journal K V)) α}
    (hg : ∀ w, Sheds s (g w)) : Sheds s (get >>= g) := by
  intro w hw hr
  rw [ends_bind, ends_get]
  exact hg w w hw hr

theorem Sheds.onlyIf {p : Prop} [Decidable p] {act : Act (World K V (Journal K V)) Unit}
    (h : Sheds s act) : Sheds s (Act.onlyIf p act) :=
  Act.onlyIf_of h sheds_pure

theorem Sheds.discard {act : Act (World K V (Journal K V)) α} (h : Sheds s act) :
    Sheds s (Functor.discard act) := by
  intro w hw hr
  rw [ends_discard]
  exact h w hw hr

theorem Sheds.mapM {xs : List β} {g : β → Act (World K V (Journal K V)) α}
    (hg : ∀ b, Sheds s (g b)) : Sheds s (xs.mapM g) := by
  induction xs with
  | nil => rw [List.mapM_nil]; exact sheds_pure
  | cons x xs ih =>
    rw [List.mapM_cons]
    exact (hg x).bind fun _ => ih.bind fun _ => sheds_pure

/-- The items that an insertion of many takes: up to the first at which it stops. -/
def accepted (cb : Callbacks K V (Journal K V)) : List (K × V) → World K V (Journal K V) →
    List (K × V)
  | [], _ => []
  | (k, v) :: items, w =>
      (k, v) :: match insert cb k v w with
        | .ok _ w' => accepted cb items w'
        | .error _ _ => []

theorem insertAll_balances (hcb : cb.Plain s) (hkeeps : cb.Keeps handed) {items : List (K × V)}
    (hw : w.AtRest) (hr : w.Recording) :
    (insertAll cb items).Ends w
      (fun _ w' => Evolves s w w' ∧ accepted cb items w = items ∧
        ∃ released, Conveys ↑items 0 released w w')
      fun _ w' => Evolves s w w' ∧ LeaksSome ↑(accepted cb items w) w w' := by
  induction items generalizing w with
  | nil => exact ⟨.refl w, rfl, [], .of_eq rfl rfl⟩
  | cons item items ih =>
    obtain ⟨k, v⟩ := item
    show (insert cb k v >>= fun _ => insertAll cb items).Ends w _ _
    rw [ends_bind]
    refine (insert_balances hcb hkeeps w hw hr).with_run.imp (fun _ w₁ h => ?_)
      (fun f w₁ h => ?_)
    · obtain ⟨hrun, hevolves, released, returned, ⟨rfl, _⟩, hconveys⟩ := h
      have hrest := hevolves.toSameRest
      have htaken : accepted cb ((k, v) :: items) w = (k, v) :: accepted cb items w₁ := by
        rw [accepted, hrun]
      have hcons : ∀ rest : List (K × V),
          (↑((k, v) :: rest) : Multiset (K × V)) = {(k, v)} + ↑rest := fun rest => by
        rw [← Multiset.cons_coe, Multiset.singleton_add]
      rw [htaken]
      refine (ih (hevolves.atRest hw) (hr.of_sameRest hrest)).imp (fun _ w₂ h => ?_)
        (fun f w₂ h => ?_)
      · obtain ⟨hevolves', htaken', released', hconveys'⟩ := h
        refine ⟨hevolves.trans hevolves', by rw [htaken'], released ++ released', ?_⟩
        rw [hcons]
        exact hconveys.trans hconveys' hrest
      · obtain ⟨hevolves', lost, released', news, hleaks⟩ := h
        have hboth := hconveys.leaks hleaks hrest
        rw [← hcons] at hboth
        exact ⟨hevolves.trans hevolves', _, _, _, hboth⟩
    · obtain ⟨hrun, hevolves, hleaks⟩ := h
      have htaken : accepted cb ((k, v) :: items) w = [(k, v)] := by
        rw [accepted, hrun]
      rw [htaken]
      exact ⟨hevolves, hleaks⟩

/-! ## Clearing -/

/-- While the table is emptied, the entries are handed over in bucket order. If a hook gives
up, it does so on the last of those that have gone. -/
theorem vacate_hands (hlim : w.table.capacity < Table.capacityLimit) (hr : w.Recording) :
    (vacate w.table.capacity 0 0 : Act (World K V (Journal K V)) Nat).Ends w
      (fun _ w' => w'.table = w.table.vacated w.table.capacity ∧
        w'.handed = w.handed ++ (w.table.entries.map Entry.pair).flatMap w.shares)
      fun _ w' => ∃ gone n news, w.table.entries = gone ++ w.table.entriesFrom n ∧
        w'.table = w.table.vacated n ∧ news <+: (gone.map Entry.pair).flatMap w.shares ∧
        w'.handed = w.handed ++ news := by
  have hvacate := vacate_ends (w := w)
    (I := fun gone w' => w.SameRest w' ∧
      w'.handed = w.handed ++ (gone.map Entry.pair).flatMap w.shares)
    (E := fun gone e f w' => ∃ news,
      news <+: ((gone ++ [e]).map Entry.pair).flatMap w.shares ∧ w'.handed = w.handed ++ news)
    (fun _ _ _ h => ⟨⟨h.1.keyHook, h.1.valueHook, h.1.probing⟩, h.2⟩) ?_ hlim
    ⟨.refl w, (List.append_nil _).symm⟩
  · refine hvacate.imp (fun _ w' h => ⟨h.1, h.2.1.2⟩) (fun f w' h => ?_)
    obtain ⟨gone, m, e, _, hsplit, ht, news, hprefix, hh⟩ := h
    exact ⟨gone ++ [e], m + 1, news, by rw [hsplit, List.append_assoc]; rfl, ht, hprefix, hh⟩
  · -- one entry more goes to the hooks
    intro gone e w₁ h
    obtain ⟨hrest, hh⟩ := h
    have hsnoc : ((gone ++ [e]).map Entry.pair).flatMap w.shares =
        (gone.map Entry.pair).flatMap w.shares ++ w.shares e.pair := by
      simp
    refine (release_hands (hr.of_sameRest hrest)).imp (fun _ w₂ h => ?_) (fun _ w₂ h => ?_)
    · obtain ⟨hsame, hh'⟩ := h
      rw [hrest.shares_eq, hh] at hh'
      exact ⟨hrest.trans hsame.sameRest, by rw [hh', hsnoc, List.append_assoc]⟩
    · obtain ⟨_, news, hprefix, hh'⟩ := h
      rw [hrest.shares_eq] at hprefix
      refine ⟨(gone.map Entry.pair).flatMap w.shares ++ news, ?_, ?_⟩
      · rw [hsnoc]; exact (List.prefix_append_right_inj _).mpr hprefix
      · rw [hh', hh, List.append_assoc]

/-- Clearing hands the entries over in bucket order, and keeps to itself what is left if a
hook gives up. -/
theorem clear_conveys (hlim : w.table.capacity < Table.capacityLimit) (hr : w.Recording) :
    (clear : Act (World K V (Journal K V)) Unit).Ends w
      (fun _ w' => Conveys 0 0 (w.table.entries.map Entry.pair) w w')
      fun _ w' => LeaksSome 0 w w' := by
  unfold clear
  rw [ends_bind, ends_get, ends_bind]
  refine (vacate_hands hlim hr).imp (fun total w₁ h => ?_) (fun f w₁ h => ?_)
  · obtain ⟨ht, hh⟩ := h
    have hempty : w₁.table.pairs = 0 := by
      unfold Table.pairs
      rw [ht, Table.entries_vacated, Table.entriesFrom_of_le (Nat.le_refl _)]
      rfl
    have hpairs : w.table.pairs + 0 = 0 + ↑(w.table.entries.map Entry.pair) + 0 := by
      rw [add_zero, add_zero, zero_add]; rfl
    simp only [ends_bind, ends_get, ends_require, ends_onTable, ends_modify]
    refine ⟨fun _ => ⟨?_, hh⟩, fun _ => ⟨0, _, _, ?_, hh, List.prefix_refl _⟩⟩
    · rw [ht]
      show w.table.pairs + 0 = Table.pairs
        { w.table.vacated w.table.capacity with live := 0, tombs := 0 } + _ + 0
      rw [Table.vacated_capacity, Table.pairs_blank]
      exact hpairs
    · rw [hempty]; exact hpairs
  · obtain ⟨gone, n, news, hsplit, ht, hprefix, hh⟩ := h
    refine ⟨0, gone.map Entry.pair, news, ?_, hh, hprefix⟩
    have hall : w.table.pairs = ↑(gone.map Entry.pair) + w₁.table.pairs := by
      unfold Table.pairs
      rw [ht, Table.entries_vacated, hsplit, Multiset.coe_add, ← List.map_append]
    rw [add_zero, add_zero, hall, add_comm]

/-- At the end of the map nothing is left in it. -/
theorem dispose_conveys (hlim : w.table.capacity < Table.capacityLimit) (hr : w.Recording) :
    (dispose : Act (World K V (Journal K V)) Unit).Ends w
      (fun _ w' => Conveys 0 0 (w.table.entries.map Entry.pair) w w' ∧ w'.table.pairs = 0)
      fun _ w' => LeaksSome 0 w w' ∧ w'.table.pairs = 0 := by
  unfold dispose
  rw [ends_andFinally]
  have hnone : Table.pairs ({} : Table K V) = 0 := rfl
  refine ((clear_conveys hlim hr).and (clear_stops hlim)).imp (fun _ w' h => ?_)
    (fun _ w' h => ?_)
  · obtain ⟨hconveys, _, ht, _⟩ := h
    refine ⟨⟨?_, hconveys.handed_eq⟩, hnone⟩
    have hb := hconveys.balance
    rw [ht, Table.pairs_blank] at hb
    exact hb
  · obtain ⟨⟨lost, released, news, hleaks⟩, _⟩ := h
    refine ⟨⟨w'.table.pairs + lost, released, news, ?_, hleaks.handed_eq, hleaks.news_prefix⟩,
      hnone⟩
    rw [hleaks.balance]
    show _ = (0 : Multiset (K × V)) + ↑released + (w'.table.pairs + lost)
    abel

end World

/-! ## Cursors -/

namespace Cursor

open World

variable {K V : Type} {s : Strategy K} {c : Cursor}

/-- Removal at an index takes out the entry there, if there is one. -/
theorem removeAt_pairs {i : Nat} {w : World K V (Journal K V)} (hw : w.AtRest) :
    (removeAt i).Ends w
      (fun r w' => (w.SameRest w' ∧ w'.handed = w.handed) ∧ r = w.table.entryAt? i ∧
        w.table.pairs = w'.table.pairs + ↑(r.toList.map Entry.pair))
      fun _ _ => False := by
  refine ((removeAt_ends hw.bounded).and (removeAt_keeps handed_ofClient.ignoresTable w)).imp
    (fun r w' h => ?_) (fun _ _ h => h.1)
  obtain ⟨⟨hrest, hcases⟩, hh⟩ := h
  refine ⟨⟨hrest, hh⟩, ?_⟩
  rcases hcases with ⟨hnone, rfl, ht⟩ | hremoved
  · exact ⟨hnone.symm, by rw [ht]; exact (add_zero _).symm⟩
  · refine ⟨?_, hremoved.pairs_eq⟩
    generalize w'.table = t at hremoved
    cases hremoved with
    | entry he => exact he.symm

/-- Erasing under a cursor releases the entry there, if there is one. -/
theorem erase_conveys {w : World K V (Journal K V)} (hw : w.AtRest) (hr : w.Recording) :
    (c.erase : Act (World K V (Journal K V)) Bool).Ends w
      (fun _ w' => Conveys 0 0 ((w.table.entryAt? c.index).map Entry.pair).toList w w')
      fun _ w' => LeaksSome 0 w w' := by
  unfold Cursor.erase
  rw [ends_bind]
  refine (removeAt_pairs hw).imp (fun r w₁ h => ?_) (fun _ _ h => h.elim)
  obtain ⟨⟨hrest, hh⟩, hr?, hb⟩ := h
  rw [← hr?, Option.toList_map]
  refine (releaseRemoved_conveys hr hrest hh (by rw [add_zero]; exact hb)).imp ?_ ?_
  · exact fun _ _ h => h.2
  · exact fun _ _ h => h

theorem erase_sheds : Sheds s (c.erase : Act (World K V (Journal K V)) Bool) :=
  .of_regular erase_regular fun _ hw hr =>
    (erase_conveys hw hr).imp (fun _ _ h => ⟨_, 0, rfl, h⟩) (fun _ _ h => h)

theorem take_balances :
    Balances s 0 (fun p released returned => released = [] ∧ returned = ↑p.toList)
      (c.take : Act (World K V (Journal K V)) (Option (K × V))) := by
  refine .of_regular take_regular fun w hw _ => ?_
  unfold Cursor.take
  rw [ends_bind]
  refine (removeAt_pairs hw).imp (fun r w₁ h => ?_) (fun _ _ h => h.elim)
  obtain ⟨⟨_, hh⟩, _, hb⟩ := h
  refine ⟨[], _, ⟨rfl, rfl⟩, ?_, by rw [hh]; exact (List.append_nil _).symm⟩
  rw [Multiset.coe_nil, add_zero, add_zero, hb]
  cases r <;> rfl

theorem sweep_sheds {stride n visited : Nat} :
    Sheds s (sweep stride n visited c : Act (World K V (Journal K V)) (List K)) := by
  induction n generalizing visited c with
  | zero => exact sheds_pure
  | succ n ih =>
    rw [sweep]
    refine Sheds.get fun w => ?_
    dsimp only
    split
    · exact sheds_pure
    · refine (Sheds.onlyIf erase_sheds.discard).bind fun _ => ?_
      exact Sheds.get fun _ => sheds_lift.bind fun _ => ih.bind fun _ => sheds_pure

end Cursor

end OpenAddressing
