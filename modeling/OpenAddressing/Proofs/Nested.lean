import OpenAddressing.Session.Basic
import OpenAddressing.Proofs.Evolution
import OpenAddressing.Proofs.Walks

/-!
# Lookups from inside a callback

A callback that calls the map is not plain: it may stop, and what it answers may depend
on more than its arguments. What is left is that it changes nothing but the client. An
act is *calm* on a table if it leaves the table, the hooks and the mark of a running
search as they are, and stops only for a reason that a lookup in this table can have
(`LookupStop`). That a callback gives up, with a fault in `E`, is one of these reasons.

Lookups with calm callbacks are calm, whatever the callbacks answer. This gives the
lookups by a callback, whose own callbacks call nothing, and from these the lookup that
the callback interrupts.
-/

namespace OpenAddressing

open Act

/-- The reasons for which a lookup in a table stops: another lookup is running, a callback
gives up, or there is no next bucket. -/
def LookupStop {K V : Type} (E : Fault → Prop) (s : Strategy K) (t : Table K V) (f : Fault) :
    Prop :=
  f = .reentrant ∨ E f ∨ ∃ i < t.capacity, Seek.plainStep s.probe i t.capacity = .error f

theorem LookupStop.of_probe {K V : Type} {E : Fault → Prop} {s : Strategy K} {t : Table K V}
    {f : Fault} {i : Nat} (hi : i < t.capacity) (h : s.probe i t.capacity = .error f) :
    LookupStop E s t f :=
  Or.inr (Or.inr ⟨i, hi, Seek.plainStep_eq_error_iff.mpr (Or.inl h)⟩)

namespace World

variable {K V τ α β : Type} {E : Fault → Prop} {s : Strategy K} {t : Table K V}

/-- Nothing happens to the table, the hooks and the mark. -/
def Still (w w' : World K V τ) : Prop := w.SameRest w' ∧ w'.table = w.table

theorem Still.refl (w : World K V τ) : w.Still w := ⟨.refl w, rfl⟩

theorem Still.trans {w w' w'' : World K V τ} (h : w.Still w') (h' : w'.Still w'') : w.Still w'' :=
  ⟨h.1.trans h'.1, h'.2.trans h.2⟩

theorem SameButClient.still {w w' : World K V τ} (h : w.SameButClient w') : w.Still w' :=
  ⟨h.sameRest, h.table_eq⟩

/-- On the table `t` the act changes nothing that matters, and answers with `P`. -/
def Calm (E : Fault → Prop) (s : Strategy K) (t : Table K V) (P : α → Prop)
    (act : Act (World K V τ) α) : Prop :=
  ∀ w : World K V τ, w.table = t →
    act.Ends w (fun a w' => P a ∧ w.Still w') fun f w' => LookupStop E s t f ∧ w.Still w'

variable {P : α → Prop} {R : β → Prop}

theorem calm_pure {a : α} (ha : P a) : Calm E s t P (pure a : Act (World K V τ) α) :=
  fun w _ => ⟨ha, .refl w⟩

theorem calm_lift_ok {a : α} (ha : P a) : Calm E s t P (lift (.ok a) : Act (World K V τ) α) :=
  fun w _ => ⟨ha, .refl w⟩

theorem Calm.bind {x : Act (World K V τ) β} {g : β → Act (World K V τ) α} (hx : Calm E s t R x)
    (hg : ∀ b, R b → Calm E s t P (g b)) : Calm E s t P (x >>= g) := by
  intro w hw
  rw [ends_bind]
  refine (hx w hw).imp (fun b w' h => ?_) (fun _ _ h => h)
  obtain ⟨hb, hstill⟩ := h
  refine (hg b hb w' (hstill.2.trans hw)).imp (fun _ _ h' => ?_) (fun _ _ h' => ?_)
  · exact ⟨h'.1, hstill.trans h'.2⟩
  · exact ⟨h'.1, hstill.trans h'.2⟩

/-- What is read is a world with this table. -/
theorem Calm.get {g : World K V τ → Act (World K V τ) α}
    (hg : ∀ w, w.table = t → Calm E s t P (g w)) : Calm E s t P (get >>= g) := by
  intro w hw
  rw [ends_bind, ends_get]
  exact hg w hw w hw

theorem Calm.onlyIf {p : Prop} [Decidable p] {act : Act (World K V τ) Unit}
    (h : Calm E s t (fun _ => True) act) : Calm E s t (fun _ => True) (Act.onlyIf p act) :=
  Act.onlyIf_of h (calm_pure trivial)

theorem calm_note {K V : Type} {s : Strategy K} {t : Table K V} {e : Event K V} :
    Calm E s t (fun _ => True) (onClient (Journal.note e)) := by
  intro w _
  rw [ends_onClient]
  exact ⟨trivial, ⟨rfl, rfl, rfl⟩, rfl⟩

/-- The guard puts the mark back to what it was. -/
theorem Calm.guarded {act : Act (World K V τ) α} (h : Calm E s t P act) :
    Calm E s t P (World.guarded act) := by
  intro w hw
  rw [ends_guarded]
  refine ⟨fun _ => ⟨Or.inl rfl, .refl w⟩, fun hp => ?_⟩
  have hback : ∀ w' : World K V τ, ({ w with probing := true } : World K V τ).Still w' →
      w.Still { w' with probing := false } :=
    fun w' hw' => ⟨⟨hw'.1.keyHook, hw'.1.valueHook, hp.symm⟩, hw'.2⟩
  refine (h { w with probing := true } hw).imp (fun _ w' h' => ?_) (fun _ w' h' => ?_)
  · exact ⟨h'.1, hback w' h'.2⟩
  · exact ⟨h'.1, hback w' h'.2⟩

end World

open World

/-- Callbacks that are calm on a table. -/
structure Callbacks.Calm {K V τ : Type} (E : Fault → Prop) (cb : Callbacks K V τ)
    (s : Strategy K) (t : Table K V) : Prop where
  hash : ∀ k, World.Calm E s t (fun _ => True) (cb.hash k)
  equals : ∀ a b, World.Calm E s t (fun _ => True) (cb.equals a b)
  /-- Whatever happens on the way, the answer is the one of the strategy. -/
  probe : ∀ i < t.capacity,
    World.Calm E s t (fun next => s.probe i t.capacity = .ok next) (cb.probe i t.capacity)

section

variable {K V τ : Type} {E : Fault → Prop} {cb : Callbacks K V τ} {s : Strategy K}
  {t : Table K V}

namespace Seek

variable {acc : K → Act (World K V τ) Bool} {hash : UInt64}

theorem fits_calm (hacc : ∀ k, World.Calm E s t (fun _ => True) (acc k)) {e : Entry K V} :
    World.Calm E s t (fun _ => True) (fits acc hash e) := by
  unfold fits
  split
  · exact hacc e.key
  · exact calm_pure trivial

theorem step_calm (hcb : cb.Calm E s t) {i : Nat} (hi : i < t.capacity) :
    World.Calm E s t (fun next => next < t.capacity) (step cb.probe i t.capacity) := by
  refine (hcb.probe i hi).bind fun next hnext => ?_
  split
  · rename_i hlt
    exact calm_pure hlt
  · rename_i hge
    have hout : plainStep s.probe i t.capacity = .error (.probeOutOfRange next t.capacity) :=
      plainStep_eq_error_iff.mpr (Or.inr ⟨next, hnext, Nat.le_of_not_lt hge, rfl⟩)
    exact fun w _ => ⟨Or.inr (Or.inr ⟨i, hi, hout⟩), .refl w⟩

/-- A walk stays in the table, and so does what it ends with. -/
theorem walk_calm (hcb : cb.Calm E s t) (hacc : ∀ k, World.Calm E s t (fun _ => True) (acc k))
    {n i : Nat} {tomb : Option Nat} (hi : i < t.capacity) :
    World.Calm E s t (fun landing => ∀ x, landing = .hit x → x < t.capacity)
      (walk cb.probe acc hash t.buckets n i tomb) := by
  -- callbacks may answer differently each time, so nothing is said of where it ends
  induction n generalizing i tomb with
  | zero => exact calm_pure fun x hx => absurd hx (by simp)
  | succ n ih =>
    obtain ⟨b, hb⟩ := Table.exists_bucket hi
    rw [walk, hb]
    cases b with
    | empty => exact calm_pure fun x hx => absurd hx (by simp)
    | tombstone => exact (step_calm hcb hi).bind fun next hnext => ih hnext
    | full e =>
      refine (fits_calm hacc).bind fun fit _ => ?_
      cases fit with
      | true =>
        refine calm_pure fun x hx => ?_
        have hix : i = x := by simpa using hx
        exact hix ▸ hi
      | false => exact (step_calm hcb hi).bind fun next hnext => ih hnext

end Seek

namespace World

variable {k : K}

theorem findKey_calm (hcb : cb.Calm E s t) :
    Calm E s t (fun i? => ∀ i, i? = some i → i < t.capacity) (findKey cb k) := by
  refine Calm.get fun w hw => ?_
  rw [hw]
  split
  · exact calm_pure fun i hi => absurd hi (by simp)
  · rename_i hpos
    refine (hcb.hash k).bind fun hash _ => ?_
    have hhome : Probe.home hash t.capacity < t.capacity := Probe.home_lt (by omega)
    rw [Seek.find_eq]
    refine (Seek.walk_calm hcb (hcb.equals k) hhome).bind fun landing hl => ?_
    refine calm_pure fun i hi => ?_
    cases landing with
    | hit x =>
      have hxi : x = i := Option.some.inj hi
      exact hl i (by rw [hxi])
    | gap x tomb => exact absurd hi (by simp [Landing.found?])
    | lap tomb => exact absurd hi (by simp [Landing.found?])

theorem locate_calm (hcb : cb.Calm E s t) :
    Calm E s t (fun i? => ∀ i, i? = some i → i < t.capacity) (locate cb k) :=
  (findKey_calm hcb).guarded

theorem getEntry?_calm (hcb : cb.Calm E s t) :
    Calm E s t (fun _ => True) (World.getEntry? cb k) := by
  refine (locate_calm hcb).bind fun i? hi? => ?_
  cases i? with
  | none => exact calm_pure trivial
  | some i =>
    refine Calm.get fun w hw => ?_
    obtain ⟨b, hb⟩ := Table.exists_bucket (hi? i rfl)
    rw [hw, Table.bucketAt_of_getElem? hb]
    exact (calm_lift_ok trivial).bind (R := fun _ => True) fun _ _ => calm_pure trivial

theorem answer_calm (hcb : cb.Calm E s t) {l : Lookup K} :
    Calm E s t (fun _ => True) (answer cb l) := by
  cases l with
  | get k =>
    refine Calm.bind (R := fun _ => True) ?_ fun _ _ => calm_pure trivial
    exact (getEntry?_calm hcb).bind fun _ _ => calm_pure trivial
  | getEntry k => exact (getEntry?_calm hcb).bind fun _ _ => calm_pure trivial
  | contains k =>
    refine Calm.bind (R := fun _ => True) ?_ fun _ _ => calm_pure trivial
    exact (locate_calm hcb).bind fun _ _ => calm_pure trivial

theorem items_calm : Calm E s t (fun _ => True) (items : Act (World K V τ) (List (K × V))) := by
  refine Calm.get fun w _ => ?_
  rw [Table.collect_eq]
  exact calm_lift_ok trivial

theorem inquire_calm (hcb : cb.Calm E s t) {q : Inquiry K} :
    Calm E s t (fun _ => True) (inquire cb q) := by
  cases q with
  | lookup l =>
    refine Calm.bind (R := fun _ => True) ?_ fun _ _ => calm_pure trivial
    intro w hw
    rw [ends_discard]
    exact answer_calm hcb w hw
  | size => exact Calm.get fun _ _ => calm_pure trivial
  | walked => exact items_calm.bind fun _ _ => calm_pure trivial

end World

end

/-! ## A callback that makes an inquiry -/

section

variable {K V : Type} {E : Fault → Prop} {s : Strategy K} {t : Table K V}
  {interrupt : Interrupt K V}

theorem Strategy.interrupted_calm (h : ∀ c, World.Calm E s t (fun _ => True) (interrupt c)) :
    (s.interrupted interrupt).Calm E s t where
  hash := fun k => calm_note.bind fun _ _ => (h .hash).bind fun _ _ => calm_pure trivial
  equals := fun a b => calm_note.bind fun _ _ => (h .equals).bind fun _ _ => calm_pure trivial
  probe := by
    have hlift : ∀ i < t.capacity, World.Calm E s t (fun next => s.probe i t.capacity = .ok next)
        (lift (s.probe i t.capacity) : Act (World K V (Journal K V)) Nat) := by
      intro i hi w _
      rw [ends_lift]
      exact ⟨fun next h => ⟨h, .refl w⟩, fun f h => ⟨.of_probe hi h, .refl w⟩⟩
    intro i hi
    unfold Strategy.interrupted
    dsimp only
    cases s.probe? with
    | none => exact hlift i hi
    | some _ => exact calm_note.bind fun _ _ => (h .probe).bind fun _ _ => hlift i hi

theorem Strategy.reentering_calm {via : Callback} {inner : Act (World K V (Journal K V)) Nat}
    {start : Nat} (hinterrupt : ∀ c, World.Calm E s t (fun _ => True) (interrupt c))
    (hinner : World.Calm E s t (fun _ => True) inner) :
    (s.reentering interrupt via inner start).Calm E s t := by
  refine Strategy.interrupted_calm fun c => (hinterrupt c).bind fun _ _ => Calm.get fun _ _ =>
    Calm.onlyIf ?_
  exact hinner.bind fun _ _ => calm_note

/-- A lookup that is interrupted by an inquiry leaves the map alone, and if it is stopped
then for a reason that lookups can have. -/
theorem World.answerNested_ends {l : Lookup K} {via : Callback} {inquiry : Inquiry K}
    {w : World K V (Journal K V)}
    (h : ∀ c, World.Calm E s w.table (fun _ => True) (interrupt c)) :
    (answerNested s interrupt l via inquiry).Ends w
      (fun r w' => (∀ f, r.1 = .error f → LookupStop E s w.table f) ∧ w.Still w')
      fun _ _ => False := by
  unfold answerNested
  rw [ends_bind, ends_get, ends_bind, ends_attempt]
  -- the callbacks of the inquiry itself do not call the map, so the nesting ends with it
  have hinner : Calm E s w.table (fun _ => True) (inquire (s.interrupted interrupt) inquiry) :=
    inquire_calm (s.interrupted_calm h)
  refine (answer_calm (s.reentering_calm h hinner) w rfl).imp (fun a w' h => ?_) (fun f w' h => ?_)
  · exact ⟨fun f hf => absurd hf (by simp), h.2⟩
  · refine ⟨fun f' hf => ?_, h.2⟩
    have hff : f = f' := Except.error.inj hf
    exact hff ▸ h.1

/-- Without an interruption by the client, too, nothing but the client changes. -/
theorem World.answerNested_still {l : Lookup K} {via : Callback} {inquiry : Inquiry K}
    {w : World K V (Journal K V)} :
    (answerNested s .none l via inquiry).Ends w (fun _ w' => w.Still w') fun _ _ => False :=
  (answerNested_ends (E := fun _ => False) fun _ => calm_pure trivial).imp (fun _ _ h => h.2)
    (fun _ _ h => h)

end

end OpenAddressing
