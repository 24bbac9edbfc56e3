import OpenAddressing.Proofs.Calls
import OpenAddressing.Proofs.Clearing
import OpenAddressing.Proofs.Frames
import Mathlib.Algebra.Order.Group.Multiset
import Mathlib.Tactic.Abel

/-!
# What leaves the map, and where to

Hooks that write down what they are handed make the journal a record of all that has left
the map by a release. The hooks may give up whenever they like, so long as they write down
first.

`Conveys` balances a call that returns: the pairs that were in the table and those put in
are the pairs that are in the table now, those released and those handed back; and the
hooks have been handed the released ones, one after the other and each key before its
value. `Leaks` balances a call that stops. Some pairs may then be lost, which is to say
that they are dropped without a hook, and the hooks have been handed no more than a first
part of what was released. In neither case does anything appear twice.

The balance is one of multisets of pairs, for where the pairs are in the table does not
matter here.
-/

namespace OpenAddressing

open Act

section

variable {K V : Type}

/-- What a hook was handed, if the event is a call of a hook. -/
def Event.handed? : Event K V → Option (K ⊕ V)
  | .keyReleased _ k => some (.inl k)
  | .valueReleased _ v => some (.inr v)
  | _ => none

/-- What the hooks have been handed, in order. -/
def Journal.handed (j : Journal K V) : List (K ⊕ V) := j.reverse.filterMap Event.handed?

theorem Journal.handed_cons {e : Event K V} {j : Journal K V} :
    Journal.handed (e :: j) = j.handed ++ e.handed?.toList := by
  unfold Journal.handed
  rw [List.reverse_cons, List.filterMap_append]
  cases he : e.handed? <;> simp [he]

/-- The hook writes down what it is handed before it returns or gives up. -/
def Hook.Records {α : Type} (part : α → K ⊕ V) (hook : Hook (Journal K V) α) : Prop :=
  ∀ a j, (hook a).Ends j (fun _ j' => Journal.handed j' = j.handed ++ [part a])
    fun _ j' => Journal.handed j' = j.handed ++ [part a]

theorem Hook.recordKey_records {label : String} :
    (Hook.recordKey label : Hook (Journal K V) K).Records .inl := by
  intro k j
  exact Journal.handed_cons

theorem Hook.recordValue_records {label : String} :
    (Hook.recordValue label : Hook (Journal K V) V).Records .inr := by
  intro v j
  exact Journal.handed_cons

theorem Hook.Records.failing {α : Type} {part : α → K ⊕ V} {hook : Hook (Journal K V) α}
    (h : hook.Records part) {message : String} : (hook.failing message).Records part := by
  intro a j
  unfold Hook.failing
  rw [ends_bind]
  exact (h a j).imp (fun _ _ h' => h') (fun _ _ h' => h')

end

/-! ## Pairs in a table -/

namespace Table

variable {K V : Type} {s : Strategy K} {k : K} {v : V} {t t' : Table K V} {f : Fault}
  {r : Option (Entry K V)} {i? : Option Nat}

/-- The pairs in the table. -/
def pairs (t : Table K V) : Multiset (K × V) := t.entries.map Entry.pair

theorem pairs_of_perm {es : List (Entry K V)} (h : t.entries.Perm es) :
    t.pairs = es.map Entry.pair := Multiset.coe_eq_coe.mpr (h.map _)

@[simp] theorem pairs_blank {c : Nat} : (blank c : Table K V).pairs = 0 := by
  unfold pairs; rw [entries_blank]; rfl

theorem Grown.pairs_eq (h : Grown s t t') : t'.pairs = t.pairs := pairs_of_perm h.entries_perm

theorem Stored.pairs_eq (h : Stored s k v t r t') :
    t.pairs + {(k, v)} = t'.pairs + ↑(r.toList.map Entry.pair) := by
  cases h with
  | @fill i reused hslot =>
    have hvacant := (plainAcquire_vacant hslot).1
    have hnew := pairs_of_perm (entries_fillAt (e := ⟨s.hash k, k, v⟩) hvacant)
    rw [hnew, List.map_cons, ← Multiset.cons_coe, ← Multiset.singleton_add, add_comm]
    exact (add_zero _).symm
  | @replace i old hslot hold =>
    have hbefore := pairs_of_perm (entries_buryAt hold)
    have hafter := pairs_of_perm (entries_setFull hold ⟨s.hash k, k, v⟩)
    rw [hbefore, hafter, List.map_cons, List.map_cons, ← Multiset.cons_coe, ← Multiset.cons_coe,
      ← Multiset.singleton_add, ← Multiset.singleton_add]
    show {old.pair} + _ + {(k, v)} = {(k, v)} + _ + {old.pair}
    abel

theorem Removed.pairs_eq (h : Removed t i? r t') :
    t.pairs = t'.pairs + ↑(r.toList.map Entry.pair) := by
  cases h with
  | nothing => exact (add_zero _).symm
  | @entry i e he =>
    rw [pairs_of_perm (entries_buryAt he), List.map_cons, ← Multiset.cons_coe,
      ← Multiset.singleton_add, add_comm]
    rfl

/-- What a stopped rebuild has not moved is lost. -/
theorem Halted.pairs_le (h : Halted s t t' f) : ∃ lost, t.pairs = t'.pairs + lost := by
  cases h with
  | capacity ht => exact ⟨0, by rw [ht, add_zero]⟩
  | rebuild _ _ hstop =>
    cases hstop with
    | overflow _ ht => exact ⟨0, by rw [ht, add_zero]⟩
    | @stuck _ pre post e _ hentries hp _ =>
      refine ⟨((e :: post).map Entry.pair : List (K × V)), ?_⟩
      rw [pairs_of_perm hp.entries_perm]
      unfold pairs
      rw [hentries, List.map_append, Multiset.coe_add]
    | miscount _ hp _ => exact ⟨0, by rw [pairs_of_perm hp.entries_perm, add_zero]; rfl⟩

theorem SlotStop.pairs_le (h : SlotStop s k t t' f) : ∃ lost, t.pairs = t'.pairs + lost := by
  cases h with
  | room hhalted => exact hhalted.pairs_le
  | search hgrown _ _ => exact ⟨0, by rw [hgrown.pairs_eq, add_zero]⟩

end Table

namespace World

variable {K V α β : Type} {s : Strategy K} {w w' w'' : World K V (Journal K V)}

/-- What the hooks have been handed, in order. -/
def handed (w : World K V (Journal K V)) : List (K ⊕ V) := w.client.handed

/-- Both hooks, if they are there, write down what they are handed. -/
structure Recording (w : World K V (Journal K V)) : Prop where
  keys : ∀ hook, w.keyHook = some hook → hook.Records .inl
  values : ∀ hook, w.valueHook = some hook → hook.Records .inr

/-- What there is of a pair for the hooks: the key, then the value. -/
def shares (w : World K V (Journal K V)) (p : K × V) : List (K ⊕ V) :=
  (w.keyHook.map fun _ => .inl p.1).toList ++ (w.valueHook.map fun _ => .inr p.2).toList

theorem Recording.of_sameRest (h : w.Recording) (hrest : w.SameRest w') : w'.Recording where
  keys := by rw [hrest.keyHook]; exact h.keys
  values := by rw [hrest.valueHook]; exact h.values

theorem SameRest.shares_eq (h : w.SameRest w') : w'.shares = w.shares := by
  funext p
  unfold shares
  rw [h.keyHook, h.valueHook]

theorem handed_ofClient : OfClient (handed : World K V (Journal K V) → _) := by
  intro w w' h
  unfold handed
  rw [h]

theorem unseen_of_handed? {e : Event K V} (h : e.handed? = none) :
    e.Unseen (World.handed : World K V (Journal K V) → _) := by
  intro w
  refine Journal.handed_cons.trans ?_
  rw [h]
  exact List.append_nil _

theorem callback_unseen {e : Event K V} (h : e.callback?.isSome) :
    e.Unseen (World.handed : World K V (Journal K V) → _) := by
  cases e with
  | hashed k => exact unseen_of_handed? rfl
  | compared a b => exact unseen_of_handed? rfl
  | probed i c => exact unseen_of_handed? rfl
  | keyReleased _ k => exact absurd h (by simp [Event.callback?])
  | valueReleased _ v => exact absurd h (by simp [Event.callback?])
  | returned n => exact absurd h (by simp [Event.callback?])

/-- Looking things up hands nothing over. -/
theorem callbacks_keep_handed :
    (s.callbacks : Callbacks K V (Journal K V)).Keeps World.handed :=
  Strategy.callbacks_keeps fun _ => callback_unseen

/-! ## Balances -/

/-- With `given` put in, `released` has gone to the hooks and `returned` to the caller. -/
structure Conveys (given returned : Multiset (K × V)) (released : List (K × V))
    (w w' : World K V (Journal K V)) : Prop where
  balance : w.table.pairs + given = w'.table.pairs + ↑released + returned
  handed_eq : w'.handed = w.handed ++ released.flatMap w.shares

/-- With `given` put in, `released` was on its way to the hooks, which have been handed
`news`, and `lost` went nowhere. -/
structure Leaks (given lost : Multiset (K × V)) (released : List (K × V)) (news : List (K ⊕ V))
    (w w' : World K V (Journal K V)) : Prop where
  balance : w.table.pairs + given = w'.table.pairs + ↑released + lost
  handed_eq : w'.handed = w.handed ++ news
  news_prefix : news <+: released.flatMap w.shares

variable {given given' returned returned' lost : Multiset (K × V)}
  {released released' : List (K × V)} {news : List (K ⊕ V)}

/-- Nothing that counts has changed. -/
theorem Conveys.of_eq (ht : w'.table.pairs = w.table.pairs) (hh : w'.handed = w.handed) :
    Conveys 0 0 [] w w' where
  balance := by rw [ht, Multiset.coe_nil, add_zero, add_zero]
  handed_eq := by rw [hh]; exact (List.append_nil _).symm

/-- What a stopped call loses without calling a hook. -/
theorem Leaks.of_balance (hb : w.table.pairs + given = w'.table.pairs + lost)
    (hh : w'.handed = w.handed) : Leaks given lost [] [] w w' where
  balance := by rw [hb]; exact congrArg (· + lost) (add_zero _).symm
  handed_eq := by rw [hh, List.append_nil]
  news_prefix := List.prefix_refl _

theorem Conveys.trans (h : Conveys given returned released w w')
    (h' : Conveys given' returned' released' w' w'') (hrest : w.SameRest w') :
    Conveys (given + given') (returned + returned') (released ++ released') w w'' where
  balance := by
    calc w.table.pairs + (given + given')
        = (w.table.pairs + given) + given' := (add_assoc _ _ _).symm
      _ = (w'.table.pairs + given') + (released + returned) := by rw [h.balance]; abel
      _ = w''.table.pairs + ↑(released ++ released') + (returned + returned') := by
        rw [h'.balance, ← Multiset.coe_add]; abel
  handed_eq := by
    rw [h'.handed_eq, h.handed_eq, hrest.shares_eq, List.flatMap_append, List.append_assoc]

/-- What had been handed back is lost if the call around it stops. -/
theorem Conveys.leaks (h : Conveys given returned released w w')
    (h' : Leaks given' lost released' news w' w'') (hrest : w.SameRest w') :
    Leaks (given + given') (returned + lost) (released ++ released')
      (released.flatMap w.shares ++ news) w w'' where
  balance := by
    calc w.table.pairs + (given + given')
        = (w.table.pairs + given) + given' := (add_assoc _ _ _).symm
      _ = (w'.table.pairs + given') + (released + returned) := by rw [h.balance]; abel
      _ = w''.table.pairs + ↑(released ++ released') + (returned + lost) := by
        rw [h'.balance, ← Multiset.coe_add]; abel
  handed_eq := by
    rw [h'.handed_eq, h.handed_eq, List.append_assoc]
  news_prefix := by
    rw [List.flatMap_append]
    have hnews := h'.news_prefix
    rw [hrest.shares_eq] at hnews
    exact (List.prefix_append_right_inj _).mpr hnews

/-! ## Releases -/

theorem handOver_hands {hook? : Option (Hook (Journal K V) α)} {part : α → K ⊕ V} {a : α}
    (h : ∀ hook, hook? = some hook → hook.Records part) :
    (handOver hook? a).Ends w
      (fun _ w' => w'.handed = w.handed ++ (hook?.map fun _ => part a).toList)
      fun _ w' => w'.handed = w.handed ++ (hook?.map fun _ => part a).toList := by
  unfold handOver
  cases hook? with
  | none => exact (List.append_nil _).symm
  | some hook =>
    rw [ends_onClient, ends_asClient]
    exact h hook rfl a w.client

/-- The hooks are handed the key and then the value, unless the first gives up. -/
theorem release_hands {e : Entry K V} (hw : w.Recording) :
    (release e).Ends w
      (fun _ w' => w.SameButClient w' ∧ w'.handed = w.handed ++ w.shares e.pair)
      fun _ w' => w.SameButClient w' ∧
        ∃ news, news <+: w.shares e.pair ∧ w'.handed = w.handed ++ news := by
  have hkeys : (release e).Ends w (fun _ w' => w'.handed = w.handed ++ w.shares e.pair)
      fun _ w' => ∃ news, news <+: w.shares e.pair ∧ w'.handed = w.handed ++ news := by
    unfold release
    rw [ends_bind, ends_get, ends_bind]
    refine (handOver_hands hw.keys).imp (fun _ w' h => ?_) (fun _ w' h => ?_)
    · have hboth : ∀ w'' : World K V (Journal K V),
          w''.handed = w'.handed ++ (w.valueHook.map fun _ => Sum.inr e.value).toList →
          w''.handed = w.handed ++ w.shares e.pair := by
        intro w'' h'
        rw [h', h, List.append_assoc]
        rfl
      refine (handOver_hands hw.values).imp (fun _ w'' h' => hboth w'' h') (fun _ w'' h' => ?_)
      exact ⟨_, List.prefix_refl _, hboth w'' h'⟩
    · exact ⟨_, List.prefix_append _ _, h⟩
  exact (release_ends.and hkeys).imp (fun _ _ h => h) (fun _ _ h => ⟨h.1.1, h.2⟩)

theorem releaseRemoved_hands {r : Option (Entry K V)} (hw : w.Recording) :
    (releaseRemoved r).Ends w
      (fun b w' => b = r.isSome ∧ w.SameButClient w' ∧
        w'.handed = w.handed ++ (r.toList.map Entry.pair).flatMap w.shares)
      fun _ w' => w.SameButClient w' ∧ ∃ news,
        news <+: (r.toList.map Entry.pair).flatMap w.shares ∧ w'.handed = w.handed ++ news := by
  unfold releaseRemoved
  cases r with
  | none => exact ⟨rfl, .refl w, (List.append_nil _).symm⟩
  | some e =>
    have hone : ([e].map Entry.pair).flatMap w.shares = w.shares e.pair := by simp
    dsimp only
    rw [ends_bind, Option.toList_some, hone]
    exact (release_hands hw).imp (fun _ w' h => ⟨rfl, h⟩) (fun _ _ h => h)

end World

end OpenAddressing
