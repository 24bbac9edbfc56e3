import OpenAddressing.Session.Basic
import OpenAddressing.Proofs.Acts
import OpenAddressing.Proofs.Search

/-!
# What calls leave alone

An act *keeps* an observation of the world if this comes out the same before and after it,
whether the act returns or stops. Nothing is said of when it stops, and nothing has to be
known of the world it starts in.

Lookups touch nothing but the client and the mark of a running search, so they keep what
their callbacks keep (`answer_keeps`). The other calls here work on the table and the heap
as well. What they do to the client they do by their callbacks, so an observation of the
client alone is kept by all of them if the callbacks keep it. `release` is not among them:
it is the one call that hands anything to the hooks.
-/

namespace OpenAddressing

open Act

namespace World

variable {K V τ α β γ : Type} {obs : World K V τ → γ}

/-- Whether it returns or stops, the act leaves what is observed as it was. -/
def Keeps (obs : World K V τ → γ) (act : Act (World K V τ) α) : Prop :=
  ∀ w, act.Ends w (fun _ w' => obs w' = obs w) fun _ w' => obs w' = obs w

/-- The mark of a running search is not observed. -/
def IgnoresMark (obs : World K V τ → γ) : Prop :=
  ∀ (w : World K V τ) b, obs { w with probing := b } = obs w

/-- Nothing but the client is observed. -/
def OfClient (obs : World K V τ → γ) : Prop :=
  ∀ w w' : World K V τ, w'.client = w.client → obs w' = obs w

/-- The table is not observed. -/
def IgnoresTable (obs : World K V τ → γ) : Prop :=
  ∀ (w : World K V τ) t, obs { w with table := t } = obs w

theorem OfClient.ignoresMark (h : OfClient obs) : IgnoresMark obs := fun w _ => h w _ rfl

theorem OfClient.ignoresTable (h : OfClient obs) : IgnoresTable obs := fun w _ => h w _ rfl

theorem keeps_pure {a : α} : Keeps obs (pure a) := fun _ => rfl

theorem keeps_throw {f : Fault} : Keeps obs (throw f : Act (World K V τ) α) := fun _ => rfl

theorem keeps_lift {r : Except Fault α} : Keeps obs (lift r) := by
  cases r with
  | ok a => exact keeps_pure
  | error f => exact keeps_throw

theorem keeps_require {p : Prop} [Decidable p] {f : Fault} : Keeps obs (require p f) := by
  unfold require
  split
  · exact keeps_pure
  · exact keeps_throw

theorem Keeps.bind {x : Act (World K V τ) β} {g : β → Act (World K V τ) α} (hx : Keeps obs x)
    (hg : ∀ b, Keeps obs (g b)) : Keeps obs (x >>= g) := by
  intro w
  rw [ends_bind]
  refine (hx w).imp (fun b w' h => ?_) (fun _ _ h => h)
  exact (hg b w').imp (fun _ _ h' => h'.trans h) (fun _ _ h' => h'.trans h)

theorem Keeps.get {g : World K V τ → Act (World K V τ) α} (hg : ∀ w, Keeps obs (g w)) :
    Keeps obs (get >>= g) := by
  intro w
  rw [ends_bind, ends_get]
  exact hg w w

theorem keeps_modify {g : World K V τ → World K V τ} (hg : ∀ w, obs (g w) = obs w) :
    Keeps obs (modify g : Act (World K V τ) PUnit) := by
  intro w
  rw [ends_modify]
  exact hg w

theorem Keeps.andFinally {act : Act (World K V τ) α} {g : World K V τ → World K V τ}
    (h : Keeps obs act) (hg : ∀ w, obs (g w) = obs w) : Keeps obs (act.andFinally g) := by
  intro w
  rw [ends_andFinally]
  exact (h w).imp (fun _ _ h' => (hg _).trans h') (fun _ _ h' => (hg _).trans h')

theorem Keeps.onlyIf {p : Prop} [Decidable p] {act : Act (World K V τ) Unit}
    (h : Keeps obs act) : Keeps obs (Act.onlyIf p act) :=
  Act.onlyIf_of h keeps_pure

theorem Keeps.discard {act : Act (World K V τ) α} (h : Keeps obs act) :
    Keeps obs (Functor.discard act) := by
  intro w
  rw [ends_discard]
  exact h w

theorem Keeps.attempt {act : Act (World K V τ) α} (h : Keeps obs act) : Keeps obs act.attempt := by
  intro w
  rw [ends_attempt]
  exact h w

theorem Keeps.forM {xs : List β} {g : β → Act (World K V τ) PUnit}
    (hg : ∀ b, Keeps obs (g b)) : Keeps obs (xs.forM g) := by
  induction xs with
  | nil => exact keeps_pure
  | cons x xs ih => exact (hg x).bind fun _ => ih

theorem Keeps.mapM {xs : List β} {g : β → Act (World K V τ) α}
    (hg : ∀ b, Keeps obs (g b)) : Keeps obs (xs.mapM g) := by
  induction xs with
  | nil => rw [List.mapM_nil]; exact keeps_pure
  | cons x xs ih =>
    rw [List.mapM_cons]
    exact (hg x).bind fun _ => ih.bind fun _ => keeps_pure

theorem keeps_onTable (hobs : IgnoresTable obs) {act : Act (Table K V) α} :
    Keeps obs (onTable act) := by
  intro w
  rw [ends_onTable]
  unfold Ends
  cases act w.table with
  | ok a t => exact hobs w t
  | error f t => exact hobs w t

theorem Keeps.guarded (hobs : IgnoresMark obs) {act : Act (World K V τ) α} (h : Keeps obs act) :
    Keeps obs (guarded act) := by
  intro w
  rw [ends_guarded]
  refine ⟨fun _ => rfl, fun _ => (h _).imp (fun _ w' h' => ?_) (fun _ w' h' => ?_)⟩
  · rw [hobs w' false, h', hobs w true]
  · rw [hobs w' false, h', hobs w true]

end World

open World

section

variable {K V τ γ : Type} {obs : World K V τ → γ} {cb : Callbacks K V τ}

/-- Callbacks that leave what is observed as it was. -/
structure Callbacks.Keeps (obs : World K V τ → γ) (cb : Callbacks K V τ) : Prop where
  hash : ∀ k, World.Keeps obs (cb.hash k)
  equals : ∀ a b, World.Keeps obs (cb.equals a b)
  probe : ∀ i capacity, World.Keeps obs (cb.probe i capacity)

namespace Seek

variable {acc : K → Act (World K V τ) Bool} {hash : UInt64} {buckets : Array (Bucket K V)}

theorem step_keeps (hcb : cb.Keeps obs) {i capacity : Nat} :
    World.Keeps obs (step cb.probe i capacity) := by
  refine (hcb.probe i capacity).bind fun next => ?_
  split
  · exact keeps_pure
  · exact keeps_throw

theorem walk_keeps (hcb : cb.Keeps obs) (hacc : ∀ k, World.Keeps obs (acc k)) {n i : Nat}
    {tomb : Option Nat} : World.Keeps obs (walk cb.probe acc hash buckets n i tomb) := by
  induction n generalizing i tomb with
  | zero => exact keeps_pure
  | succ n ih =>
    rw [walk]
    cases buckets[i]? with
    | none => exact keeps_throw
    | some b =>
      cases b with
      | empty => exact keeps_pure
      | tombstone => exact (step_keeps hcb).bind fun _ => ih
      | full e =>
        refine World.Keeps.bind ?_ fun fit => ?_
        · unfold fits
          split
          · exact hacc e.key
          · exact keeps_pure
        · cases fit with
          | true => exact keeps_pure
          | false => exact (step_keeps hcb).bind fun _ => ih

theorem acquire_keeps (hcb : cb.Keeps obs) (hacc : ∀ k, World.Keeps obs (acc k)) :
    World.Keeps obs (acquire cb.probe acc hash buckets) :=
  keeps_require.bind fun _ => (walk_keeps hcb hacc).bind fun _ => keeps_lift

end Seek

namespace World

variable {k : K} {v : V}

/-! ## Lookups -/

theorem locate_keeps (hobs : IgnoresMark obs) (hcb : cb.Keeps obs) : Keeps obs (locate cb k) := by
  refine Keeps.guarded hobs (Keeps.get fun w => ?_)
  split
  · exact keeps_pure
  · refine (hcb.hash k).bind fun hash => ?_
    rw [Seek.find_eq]
    exact (Seek.walk_keeps hcb (hcb.equals k)).bind fun _ => keeps_pure

theorem getEntry?_keeps (hobs : IgnoresMark obs) (hcb : cb.Keeps obs) :
    Keeps obs (World.getEntry? cb k) := by
  refine (locate_keeps hobs hcb).bind fun i? => ?_
  cases i? with
  | none => exact keeps_pure
  | some i => exact Keeps.get fun _ => keeps_lift.bind fun _ => keeps_pure

theorem get?_keeps (hobs : IgnoresMark obs) (hcb : cb.Keeps obs) : Keeps obs (get? cb k) :=
  (getEntry?_keeps hobs hcb).bind fun _ => keeps_pure

theorem contains_keeps (hobs : IgnoresMark obs) (hcb : cb.Keeps obs) : Keeps obs (contains cb k) :=
  (locate_keeps hobs hcb).bind fun _ => keeps_pure

theorem answer_keeps (hobs : IgnoresMark obs) (hcb : cb.Keeps obs) {l : Lookup K} :
    Keeps obs (answer cb l) := by
  cases l with
  | get k => exact (get?_keeps hobs hcb).bind fun _ => keeps_pure
  | getEntry k => exact (getEntry?_keeps hobs hcb).bind fun _ => keeps_pure
  | contains k => exact (contains_keeps hobs hcb).bind fun _ => keeps_pure

theorem items_keeps : Keeps obs (items : Act (World K V τ) (List (K × V))) :=
  Keeps.get fun _ => keeps_lift

theorem inquire_keeps (hobs : IgnoresMark obs) (hcb : cb.Keeps obs) {q : Inquiry K} :
    Keeps obs (inquire cb q) := by
  cases q with
  | lookup l => exact (answer_keeps hobs hcb).discard.bind fun _ => keeps_pure
  | size => exact Keeps.get fun _ => keeps_pure
  | walked => exact items_keeps.bind fun _ => keeps_pure

theorem summary_keeps : Keeps obs (summary : Act (World K V τ) Summary) :=
  Keeps.get fun _ => keeps_lift.bind fun _ => keeps_pure

theorem walk_keeps {part : Part} {limit : Option Nat} :
    Keeps obs (walk part limit : Act (World K V τ) (WalkReport K V)) :=
  Keeps.get fun _ => keeps_lift.bind fun _ => keeps_lift.bind fun _ => keeps_pure

/-- A snapshot takes a block from the heap and gives it back. -/
theorem inspectSnapshot_keeps (hheap : ∀ (w : World K V τ) h, obs { w with heap := h } = obs w)
    {part : Part} {positions : List Nat} :
    Keeps obs
      (inspectSnapshot part positions : Act (World K V τ) (Option (SnapshotReport K V))) := by
  refine Keeps.bind (Keeps.get fun w => ?_) fun shot => ?_
  · dsimp only
    split
    · exact keeps_pure
    · refine keeps_lift.discard.bind fun _ => Keeps.bind (keeps_modify ?_) fun _ => ?_
      · exact fun w => hheap w _
      · split
        · exact keeps_pure
        · exact Keeps.bind (keeps_modify fun w => hheap w _) fun _ => keeps_throw
  · cases shot with
    | none => exact keeps_pure
    | some shot =>
      refine Keeps.get fun _ => Keeps.bind ?_ fun _ => keeps_lift.bind fun _ => keeps_pure
      exact keeps_modify fun w => hheap w _

/-! ## Calls that work on the table -/

theorem update_keeps (hobs : OfClient obs) (hcb : cb.Keeps obs) {f : V → V} :
    Keeps obs (update cb k f) := by
  refine (locate_keeps hobs.ignoresMark hcb).bind fun i? => ?_
  cases i? with
  | none => exact keeps_pure
  | some i =>
    exact Keeps.get fun _ => keeps_lift.discard.bind fun _ => keeps_onTable hobs.ignoresTable

theorem place_keeps (hobs : IgnoresTable obs) (hcb : cb.Keeps obs) {e : Entry K V} :
    Keeps obs (place cb e) := by
  refine Keeps.get fun w => (Seek.acquire_keeps hcb fun _ => keeps_pure).bind fun slot => ?_
  cases slot with
  | occupied i => exact keeps_throw
  | vacant i reused =>
    exact keeps_lift.discard.bind fun _ => keeps_lift.bind fun _ => keeps_onTable hobs

theorem rehash_keeps (hobs : OfClient obs) (hcb : cb.Keeps obs) {request : Nat} :
    Keeps obs (rehash cb request) := by
  refine Keeps.get fun w => ?_
  split
  · exact keeps_pure
  · unfold rebuild
    refine keeps_require.bind fun _ => Keeps.get fun _ => ?_
    refine Keeps.bind (keeps_modify ?_) fun _ => Keeps.bind (Keeps.andFinally ?_ ?_) fun _ => ?_
    · exact fun w => hobs w _ rfl
    · exact Keeps.forM fun _ => place_keeps hobs.ignoresTable hcb
    · exact fun w => hobs w _ rfl
    · exact Keeps.get fun _ => keeps_require

theorem reserve_keeps (hobs : OfClient obs) (hcb : cb.Keeps obs) {extra : Nat} :
    Keeps obs (reserve cb extra) := by
  unfold reserve
  split
  · exact keeps_pure
  · refine Keeps.get fun w => keeps_lift.bind fun wanted => ?_
    split
    · exact rehash_keeps hobs hcb
    · refine keeps_lift.bind fun roomy => ?_
      split
      · exact rehash_keeps hobs hcb
      · exact keeps_pure

theorem makeRoom_keeps (hobs : OfClient obs) (hcb : cb.Keeps obs) : Keeps obs (makeRoom cb) := by
  refine Keeps.get fun w => ?_
  dsimp only
  split
  · exact rehash_keeps hobs hcb
  · refine keeps_lift.bind fun roomy => ?_
    split
    · split
      · exact rehash_keeps hobs hcb
      · exact keeps_throw
    · exact keeps_pure

theorem insertSlot_keeps (hobs : OfClient obs) (hcb : cb.Keeps obs) :
    Keeps obs (insertSlot cb k v) := by
  refine (makeRoom_keeps hobs hcb).bind fun _ => (hcb.hash k).bind fun hash => Keeps.get fun w => ?_
  refine (Seek.acquire_keeps hcb (hcb.equals k)).bind fun slot => ?_
  cases slot with
  | occupied i => exact (keeps_onTable hobs.ignoresTable).bind fun _ => keeps_pure
  | vacant i reused => exact (keeps_onTable hobs.ignoresTable).bind fun _ => keeps_pure

theorem removeAt_keeps (hobs : IgnoresTable obs) {i : Nat} :
    Keeps obs (removeAt i : Act (World K V τ) (Option (Entry K V))) := keeps_onTable hobs

theorem remove_keeps (hobs : OfClient obs) (hcb : cb.Keeps obs) : Keeps obs (remove cb k) := by
  refine (locate_keeps hobs.ignoresMark hcb).bind fun i? => ?_
  cases i? with
  | none => exact keeps_pure
  | some i => exact removeAt_keeps hobs.ignoresTable

end World

end

/-! ## Callbacks that keep a journal -/

section

variable {K V γ : Type} {obs : World K V (Journal K V) → γ} {s : Strategy K}

/-- Writing the event down does not change what is observed. -/
def Event.Unseen (obs : World K V (Journal K V) → γ) (e : Event K V) : Prop :=
  ∀ w : World K V (Journal K V), obs { w with client := e :: w.client } = obs w

theorem Event.Unseen.note_keeps {e : Event K V} (h : e.Unseen obs) :
    World.Keeps obs (onClient (Journal.note e)) := by
  intro w
  rw [ends_onClient]
  exact h w

/-- Callbacks that write their calls down keep an observation if the calls go unseen and if
it is kept by what they do besides. -/
theorem Strategy.interrupted_keeps (hcalls : ∀ e : Event K V, e.callback?.isSome → e.Unseen obs)
    {interrupt : Callback → Act (World K V (Journal K V)) Unit}
    (h : ∀ c, World.Keeps obs (interrupt c)) : (s.interrupted interrupt).Keeps obs where
  hash := fun k => (hcalls (.hashed k) rfl).note_keeps.bind fun _ =>
    (h .hash).bind fun _ => keeps_pure
  equals := fun a b => (hcalls (.compared a b) rfl).note_keeps.bind fun _ =>
    (h .equals).bind fun _ => keeps_pure
  probe := fun i capacity => by
    unfold Strategy.interrupted
    dsimp only
    split
    · exact keeps_lift
    · exact (hcalls (.probed i capacity) rfl).note_keeps.bind fun _ =>
        (h .probe).bind fun _ => keeps_lift

theorem Strategy.callbacks_keeps (hcalls : ∀ e : Event K V, e.callback?.isSome → e.Unseen obs) :
    (s.callbacks : Callbacks K V (Journal K V)).Keeps obs :=
  Strategy.interrupted_keeps hcalls fun _ => keeps_pure

theorem World.answerNested_keeps (hobs : IgnoresMark obs)
    (hcalls : ∀ e : Event K V, e.callback?.isSome → e.Unseen obs)
    (hreturned : ∀ n, (.returned n : Event K V).Unseen obs) {l : Lookup K} {via : Callback}
    {inquiry : Inquiry K} :
    World.Keeps obs (answerNested s .none l via inquiry) := by
  refine Keeps.get fun w => ?_
  have hreentering : (s.reentering .none via (inquire s.callbacks inquiry)
      w.client.length).Keeps obs := by
    refine Strategy.interrupted_keeps hcalls fun c => keeps_pure.bind fun _ =>
      Keeps.get fun _ => Keeps.onlyIf ?_
    exact (inquire_keeps hobs (Strategy.callbacks_keeps hcalls)).bind fun n =>
      (hreturned n).note_keeps
  exact (answer_keeps hobs hreentering).attempt.bind fun _ => Keeps.get fun _ => keeps_pure

end

end OpenAddressing
