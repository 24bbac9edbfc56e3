import OpenAddressing.Proofs.Frames
import OpenAddressing.Proofs.Sessions

/-!
# Calls that call no hook

An act is *hookless* if it comes to the same whatever hooks the map has: the same answer
or the same fault, with the same table, the same heap and the same client. Such an act has
not called a hook, for it could not have told one that raises a fault from one that does
nothing.

Everything but `release` is hookless: searches, rebuilds, and what an insertion and a
removal do before they hand over what has left the table.
-/

namespace OpenAddressing

open Act

namespace World

variable {K V τ α β : Type} {w w' : World K V τ}

/-- The world with other hooks. -/
def withHooks (keyHook : Option (Hook τ K)) (valueHook : Option (Hook τ V))
    (w : World K V τ) : World K V τ :=
  { w with keyHook, valueHook }

/-- The act comes to the same whatever the hooks are. -/
def Hookless (act : Act (World K V τ) α) : Prop :=
  ∀ keyHook valueHook w, act.Ends w
    (fun a w' => act (w.withHooks keyHook valueHook) = .ok a (w'.withHooks keyHook valueHook))
    fun f w' => act (w.withHooks keyHook valueHook) = .error f (w'.withHooks keyHook valueHook)

theorem Hookless.of_ok {act : Act (World K V τ) α} {a : α} (h : Hookless act)
    (keyHook : Option (Hook τ K)) (valueHook : Option (Hook τ V)) (hrun : act w = .ok a w') :
    act (w.withHooks keyHook valueHook) = .ok a (w'.withHooks keyHook valueHook) :=
  (h keyHook valueHook w).of_ok hrun

theorem Hookless.of_error {act : Act (World K V τ) α} {f : Fault} (h : Hookless act)
    (keyHook : Option (Hook τ K)) (valueHook : Option (Hook τ V)) (hrun : act w = .error f w') :
    act (w.withHooks keyHook valueHook) = .error f (w'.withHooks keyHook valueHook) :=
  (h keyHook valueHook w).of_error hrun

theorem hookless_pure {a : α} : Hookless (pure a : Act (World K V τ) α) := fun _ _ _ => rfl

theorem hookless_throw {f : Fault} : Hookless (throw f : Act (World K V τ) α) := fun _ _ _ => rfl

theorem hookless_lift {r : Except Fault α} : Hookless (lift r : Act (World K V τ) α) := by
  cases r with
  | ok a => exact hookless_pure
  | error f => exact hookless_throw

theorem hookless_require {p : Prop} [Decidable p] {f : Fault} :
    Hookless (require p f : Act (World K V τ) Unit) := by
  unfold require
  split
  · exact hookless_pure
  · exact hookless_throw

theorem Hookless.bind {x : Act (World K V τ) β} {g : β → Act (World K V τ) α}
    (hx : Hookless x) (hg : ∀ b, Hookless (g b)) : Hookless (x >>= g) := by
  intro keyHook valueHook w
  rw [ends_bind]
  refine (hx keyHook valueHook w).imp (fun b w₁ h => ?_) (fun f w₁ h => bind_of_error h)
  refine (hg b keyHook valueHook w₁).imp (fun a w₂ h' => ?_) (fun f w₂ h' => ?_)
  · exact (bind_of_ok h).trans h'
  · exact (bind_of_ok h).trans h'

/-- What is read of the world, the hooks are no part of. -/
theorem Hookless.get {g : World K V τ → Act (World K V τ) α}
    (hread : ∀ keyHook valueHook w, g (w.withHooks keyHook valueHook) = g w)
    (hg : ∀ w, Hookless (g w)) : Hookless (get >>= g) := by
  intro keyHook valueHook w
  rw [ends_bind, ends_get]
  refine (hg w keyHook valueHook w).imp (fun _ _ h => ?_) (fun _ _ h => ?_)
  · rw [get_bind, hread, h]
  · rw [get_bind, hread, h]

theorem hookless_modify {g : World K V τ → World K V τ}
    (hg : ∀ keyHook valueHook w,
      g (w.withHooks keyHook valueHook) = (g w).withHooks keyHook valueHook) :
    Hookless (modify g : Act (World K V τ) PUnit) := by
  intro keyHook valueHook w
  rw [ends_modify, ← hg]
  rfl

theorem Hookless.andFinally {act : Act (World K V τ) α} {g : World K V τ → World K V τ}
    (h : Hookless act) (hg : ∀ keyHook valueHook w,
      g (w.withHooks keyHook valueHook) = (g w).withHooks keyHook valueHook) :
    Hookless (act.andFinally g) := by
  intro keyHook valueHook w
  rw [ends_andFinally]
  refine (h keyHook valueHook w).imp (fun _ _ h' => ?_) (fun _ _ h' => ?_)
  · unfold Act.andFinally
    rw [h', ← hg]
  · unfold Act.andFinally
    rw [h', ← hg]

theorem Hookless.discard {act : Act (World K V τ) α} (h : Hookless act) :
    Hookless (Functor.discard act) :=
  h.bind fun _ => hookless_pure

theorem Hookless.forM {xs : List β} {g : β → Act (World K V τ) PUnit}
    (hg : ∀ b, Hookless (g b)) : Hookless (xs.forM g) := by
  induction xs with
  | nil => exact hookless_pure
  | cons x xs ih => exact (hg x).bind fun _ => ih

theorem hookless_onTable {act : Act (Table K V) α} :
    Hookless (onTable act : Act (World K V τ) α) := by
  intro keyHook valueHook w
  rw [ends_onTable]
  unfold Ends withHooks onTable
  dsimp only
  cases act w.table <;> rfl

theorem hookless_onClient {act : Act τ α} : Hookless (onClient act : Act (World K V τ) α) := by
  intro keyHook valueHook w
  rw [ends_onClient]
  unfold Ends withHooks onClient
  dsimp only
  cases act w.client <;> rfl

theorem guarded_of_ok {act : Act (World K V τ) α} {a : α} (hp : w.probing = false)
    (h : act { w with probing := true } = .ok a w') :
    guarded act w = .ok a { w' with probing := false } := by
  unfold guarded Act.andFinally
  rw [hp, h]
  rfl

theorem guarded_of_error {act : Act (World K V τ) α} {f : Fault} (hp : w.probing = false)
    (h : act { w with probing := true } = .error f w') :
    guarded act w = .error f { w' with probing := false } := by
  unfold guarded Act.andFinally
  rw [hp, h]
  rfl

theorem Hookless.guarded {act : Act (World K V τ) α} (h : Hookless act) :
    Hookless (guarded act) := by
  intro keyHook valueHook w
  rw [ends_guarded]
  refine ⟨fun hp => ?_, fun hp => ?_⟩
  · unfold World.guarded withHooks
    rw [if_pos hp]
  · refine (h keyHook valueHook { w with probing := true }).imp (fun _ w' h' => ?_)
      (fun _ w' h' => ?_)
    · exact guarded_of_ok (w := w.withHooks keyHook valueHook) hp h'
    · exact guarded_of_error (w := w.withHooks keyHook valueHook) hp h'

end World

open World

/-- Callbacks that do not look at the hooks. -/
structure Callbacks.Hookless {K V τ : Type} (cb : Callbacks K V τ) : Prop where
  hash : ∀ k, World.Hookless (cb.hash k)
  equals : ∀ a b, World.Hookless (cb.equals a b)
  probe : ∀ i capacity, World.Hookless (cb.probe i capacity)

theorem Strategy.callbacks_hookless {K V : Type} {s : Strategy K} :
    (s.callbacks : Callbacks K V (Journal K V)).Hookless where
  hash := fun _ => hookless_onClient.bind fun _ => hookless_pure.bind fun _ => hookless_pure
  equals := fun _ _ => hookless_onClient.bind fun _ => hookless_pure.bind fun _ => hookless_pure
  probe := fun i capacity => by
    unfold Strategy.callbacks Strategy.interrupted
    dsimp only
    split
    · exact hookless_lift
    · exact hookless_onClient.bind fun _ => hookless_pure.bind fun _ => hookless_lift

section

variable {K V τ : Type} {cb : Callbacks K V τ} {k : K} {v : V}

namespace Seek

variable {acc : K → Act (World K V τ) Bool} {hash : UInt64} {buckets : Array (Bucket K V)}

theorem step_hookless (hcb : cb.Hookless) {i capacity : Nat} :
    World.Hookless (step cb.probe i capacity) := by
  refine (hcb.probe i capacity).bind fun next => ?_
  split
  · exact hookless_pure
  · exact hookless_throw

theorem walk_hookless (hcb : cb.Hookless) (hacc : ∀ k, World.Hookless (acc k)) {n i : Nat}
    {tomb : Option Nat} : World.Hookless (walk cb.probe acc hash buckets n i tomb) := by
  induction n generalizing i tomb with
  | zero => exact hookless_pure
  | succ n ih =>
    rw [walk]
    cases buckets[i]? with
    | none => exact hookless_throw
    | some b =>
      cases b with
      | empty => exact hookless_pure
      | tombstone => exact (step_hookless hcb).bind fun _ => ih
      | full e =>
        refine World.Hookless.bind ?_ fun fit => ?_
        · unfold fits
          split
          · exact hacc e.key
          · exact hookless_pure
        · cases fit with
          | true => exact hookless_pure
          | false => exact (step_hookless hcb).bind fun _ => ih

theorem acquire_hookless (hcb : cb.Hookless) (hacc : ∀ k, World.Hookless (acc k)) :
    World.Hookless (acquire cb.probe acc hash buckets) :=
  hookless_require.bind fun _ => (walk_hookless hcb hacc).bind fun _ => hookless_lift

end Seek

namespace World

theorem locate_hookless (hcb : cb.Hookless) : Hookless (locate cb k) := by
  refine Hookless.guarded (Hookless.get (fun _ _ _ => rfl) fun w => ?_)
  split
  · exact hookless_pure
  · refine (hcb.hash k).bind fun hash => ?_
    rw [Seek.find_eq]
    exact (Seek.walk_hookless hcb (hcb.equals k)).bind fun _ => hookless_pure

theorem removeAt_hookless {i : Nat} :
    Hookless (removeAt i : Act (World K V τ) (Option (Entry K V))) := hookless_onTable

theorem remove_hookless (hcb : cb.Hookless) : Hookless (remove cb k) := by
  refine (locate_hookless hcb).bind fun i? => ?_
  cases i? with
  | none => exact hookless_pure
  | some i => exact removeAt_hookless

theorem place_hookless (hcb : cb.Hookless) {e : Entry K V} : Hookless (place cb e) := by
  refine Hookless.get (fun _ _ _ => rfl) fun w => ?_
  refine (Seek.acquire_hookless hcb fun _ => hookless_pure).bind fun slot => ?_
  cases slot with
  | occupied i => exact hookless_throw
  | vacant i reused =>
    exact hookless_lift.discard.bind fun _ => hookless_lift.bind fun _ => hookless_onTable

theorem rehash_hookless (hcb : cb.Hookless) {request : Nat} : Hookless (rehash cb request) := by
  refine Hookless.get (fun _ _ _ => rfl) fun w => ?_
  split
  · exact hookless_pure
  · unfold rebuild
    refine hookless_require.bind fun _ => Hookless.get (fun _ _ _ => rfl) fun _ => ?_
    refine (hookless_modify fun _ _ _ => rfl).bind fun _ => Hookless.bind ?_ fun _ => ?_
    · exact (Hookless.forM fun _ => place_hookless hcb).andFinally fun _ _ _ => rfl
    · exact Hookless.get (fun _ _ _ => rfl) fun _ => hookless_require

theorem reserve_hookless (hcb : cb.Hookless) {extra : Nat} : Hookless (reserve cb extra) := by
  unfold reserve
  split
  · exact hookless_pure
  · refine Hookless.get (fun _ _ _ => rfl) fun w => hookless_lift.bind fun wanted => ?_
    split
    · exact rehash_hookless hcb
    · refine hookless_lift.bind fun roomy => ?_
      split
      · exact rehash_hookless hcb
      · exact hookless_pure

theorem makeRoom_hookless (hcb : cb.Hookless) : Hookless (makeRoom cb) := by
  refine Hookless.get (fun _ _ _ => rfl) fun w => ?_
  dsimp only
  split
  · exact rehash_hookless hcb
  · refine hookless_lift.bind fun roomy => ?_
    split
    · split
      · exact rehash_hookless hcb
      · exact hookless_throw
    · exact hookless_pure

/-- The pair is stored before a hook is called. -/
theorem insertSlot_hookless (hcb : cb.Hookless) : Hookless (insertSlot cb k v) := by
  refine (makeRoom_hookless hcb).bind fun _ => (hcb.hash k).bind fun hash => ?_
  refine Hookless.get (fun _ _ _ => rfl) fun w => ?_
  refine (Seek.acquire_hookless hcb (hcb.equals k)).bind fun slot => ?_
  cases slot with
  | occupied i => exact hookless_onTable.bind fun _ => hookless_pure
  | vacant i reused => exact hookless_onTable.bind fun _ => hookless_pure

end World

end

namespace Session

variable {K V α : Type} {s : Strategy K} {session : Session K V}

/-- The session with other hooks: what it is after they have been set. -/
def withHooks (keyHook : Option (Hook (Journal K V) K)) (valueHook : Option (Hook (Journal K V) V))
    (session : Session K V) : Session K V :=
  { session with world := session.world.withHooks keyHook valueHook }

theorem run_setHooks (keyHook : Option (Hook (Journal K V) K))
    (valueHook : Option (Hook (Journal K V) V)) :
    (run s [.setKeyHook keyHook, .setValueHook valueHook] session).2 =
      session.withHooks keyHook valueHook := rfl

end Session

end OpenAddressing
