import OpenAddressing.World

/-!
# Reasoning about acts

An act has two exits, and both leave a state behind. `Act.Ends` says what holds at
each of them: `Q` of the answer and its state, `E` of the fault and its state. A fault
is never waved through: what a stopped call leaves is as much a state of the map as
what a finished one leaves.

There is one rule for each way to build an act. The rules are equivalences, so
`simp only` can push `Ends` inwards; a call that has a statement of its own is then
replaced by that statement with `Ends.imp`.
-/

namespace OpenAddressing

/-- The fault was raised by code that the map was handed. -/
def Fault.isClient : Fault → Bool
  | .client _ => true
  | _ => false

namespace Act

variable {σ α β : Type}

/-- Started in `s`, the act either answers with `Q` or stops with `E`. -/
def Ends (act : Act σ α) (s : σ) (Q : α → σ → Prop) (E : Fault → σ → Prop) : Prop :=
  match act s with
  | .ok a s' => Q a s'
  | .error f s' => E f s'

theorem get_bind {g : σ → Act σ α} {s : σ} : (get >>= g : Act σ α) s = g s s := rfl

theorem bind_of_ok {x : Act σ β} {g : β → Act σ α} {s s' : σ} {b : β} (h : x s = .ok b s') :
    (x >>= g : Act σ α) s = g b s' := by
  show EStateM.bind x g s = _
  unfold EStateM.bind
  rw [h]

theorem bind_of_error {x : Act σ β} {g : β → Act σ α} {s s' : σ} {f : Fault}
    (h : x s = .error f s') : (x >>= g : Act σ α) s = .error f s' := by
  show EStateM.bind x g s = _
  unfold EStateM.bind
  rw [h]

theorem bind_of_eq {x y : Act σ β} {g : β → Act σ α} {a b : σ} (h : x a = y b) :
    (x >>= g : Act σ α) a = (y >>= g : Act σ α) b := by
  show EStateM.bind x g a = EStateM.bind y g b
  unfold EStateM.bind
  rw [h]

theorem ends_of_eq {x y : Act σ α} {a b : σ} {Q : α → σ → Prop} {E : Fault → σ → Prop}
    (h : x a = y b) : x.Ends a Q E ↔ y.Ends b Q E := by
  unfold Ends
  rw [h]

theorem Ends.imp {act : Act σ α} {s : σ} {Q Q' : α → σ → Prop} {E E' : Fault → σ → Prop}
    (h : act.Ends s Q E) (hQ : ∀ a s', Q a s' → Q' a s') (hE : ∀ f s', E f s' → E' f s') :
    act.Ends s Q' E' := by
  unfold Ends at h ⊢
  split at h
  · exact hQ _ _ h
  · exact hE _ _ h

theorem Ends.and {act : Act σ α} {s : σ} {Q Q' : α → σ → Prop} {E E' : Fault → σ → Prop}
    (h : act.Ends s Q E) (h' : act.Ends s Q' E') :
    act.Ends s (fun a s' => Q a s' ∧ Q' a s') fun f s' => E f s' ∧ E' f s' := by
  unfold Ends at h h' ⊢
  cases hrun : act s with
  | ok a s' => rw [hrun] at h h'; exact ⟨h, h'⟩
  | error f s' => rw [hrun] at h h'; exact ⟨h, h'⟩

/-- What the run comes to may be mentioned in the statement about it. -/
theorem Ends.with_run {act : Act σ α} {s : σ} {Q : α → σ → Prop} {E : Fault → σ → Prop}
    (h : act.Ends s Q E) :
    act.Ends s (fun a s' => act s = .ok a s' ∧ Q a s')
      fun f s' => act s = .error f s' ∧ E f s' := by
  unfold Ends at h ⊢
  split at h
  · rename_i hrun; exact ⟨hrun, h⟩
  · rename_i hrun; exact ⟨hrun, h⟩

theorem Ends.of_ok {act : Act σ α} {s s' : σ} {a : α} {Q : α → σ → Prop}
    {E : Fault → σ → Prop} (h : act.Ends s Q E) (hrun : act s = .ok a s') : Q a s' := by
  unfold Ends at h; rw [hrun] at h; exact h

theorem Ends.of_error {act : Act σ α} {s s' : σ} {f : Fault} {Q : α → σ → Prop}
    {E : Fault → σ → Prop} (h : act.Ends s Q E) (hrun : act s = .error f s') : E f s' := by
  unfold Ends at h; rw [hrun] at h; exact h

variable {s : σ} {Q : α → σ → Prop} {E : Fault → σ → Prop}

@[simp] theorem ends_pure {a : α} : (pure a : Act σ α).Ends s Q E ↔ Q a s := Iff.rfl

@[simp] theorem ends_throw {f : Fault} : (throw f : Act σ α).Ends s Q E ↔ E f s := Iff.rfl

@[simp] theorem ends_bind {x : Act σ β} {f : β → Act σ α} :
    (x >>= f).Ends s Q E ↔ x.Ends s (fun b s' => (f b).Ends s' Q E) E := by
  unfold Ends
  show (match EStateM.bind x f s with | .ok a s' => Q a s' | .error e s' => E e s') ↔ _
  unfold EStateM.bind
  cases x s <;> rfl

@[simp] theorem ends_map {x : Act σ β} {f : β → α} :
    (f <$> x).Ends s Q E ↔ x.Ends s (fun b s' => Q (f b) s') E := by
  unfold Ends
  show (match EStateM.map f x s with | .ok a s' => Q a s' | .error e s' => E e s') ↔ _
  unfold EStateM.map
  cases x s <;> rfl

@[simp] theorem ends_get {Q : σ → σ → Prop} : (get : Act σ σ).Ends s Q E ↔ Q s s := Iff.rfl

@[simp] theorem ends_modify {f : σ → σ} {Q : PUnit → σ → Prop} :
    (modify f : Act σ PUnit).Ends s Q E ↔ Q ⟨⟩ (f s) := Iff.rfl

theorem ends_lift {r : Except Fault α} :
    (lift r : Act σ α).Ends s Q E ↔ (∀ a, r = .ok a → Q a s) ∧ ∀ f, r = .error f → E f s := by
  cases r <;> simp [Ends, lift]

theorem lift_of_ok {r : Except Fault α} {a : α} (h : r = .ok a) :
    (lift r : Act σ α) s = .ok a s := by
  rw [h]
  rfl

@[simp] theorem ends_lift_ok {a : α} : (lift (.ok a) : Act σ α).Ends s Q E ↔ Q a s := Iff.rfl

@[simp] theorem ends_require {p : Prop} [Decidable p] {f : Fault} {Q : Unit → σ → Prop} :
    (require p f : Act σ Unit).Ends s Q E ↔ (p → Q () s) ∧ (¬ p → E f s) := by
  unfold require
  split
  · rename_i hp; simp [hp]
  · rename_i hp; simp [hp]

@[simp] theorem ends_andFinally {act : Act σ α} {g : σ → σ} :
    (act.andFinally g).Ends s Q E ↔ act.Ends s (fun a s' => Q a (g s')) fun f s' => E f (g s') := by
  unfold Ends andFinally
  cases act s <;> rfl

@[simp] theorem ends_asClient {act : Act σ α} :
    act.asClient.Ends s Q E ↔ act.Ends s Q fun f s' => E f.asClient s' := by
  unfold Ends asClient
  cases act s <;> rfl

theorem isClient_of_asClient {act : Act σ α} {s' : σ} {f : Fault}
    (h : act.asClient s = .error f s') : f.isClient = true := by
  unfold asClient at h
  split at h
  · exact absurd h (by simp)
  · rw [← (EStateM.Result.error.inj h).1]
    rfl

@[simp] theorem ends_attempt {act : Act σ α} {Q : Except Fault α → σ → Prop} :
    act.attempt.Ends s Q E ↔
      act.Ends s (fun a s' => Q (.ok a) s') fun f s' => Q (.error f) s' := by
  unfold Ends attempt
  cases act s <;> rfl

@[simp] theorem ends_discard {act : Act σ α} {Q : PUnit → σ → Prop} :
    (discard act).Ends s Q E ↔ act.Ends s (fun _ s' => Q ⟨⟩ s') E := by
  unfold discard
  exact ends_map

/-- What holds of an act, and of doing nothing, holds of the act under a condition. -/
theorem onlyIf_of {P : Act σ Unit → Prop} {p : Prop} [Decidable p] {act : Act σ Unit}
    (h : P act) (hpure : P (pure ())) : P (onlyIf p act) := by
  unfold onlyIf
  split
  · exact h
  · exact hpure

/-- A loop over a list, with an invariant of the items that are done. -/
theorem ends_forM {xs : List β} {body : β → Act σ PUnit} {I : List β → σ → Prop}
    (h0 : I [] s)
    (hbody : ∀ pre x post s', xs = pre ++ x :: post → I pre s' →
      (body x).Ends s' (fun _ s'' => I (pre ++ [x]) s'') E) :
    (xs.forM body).Ends s (fun _ s' => I xs s') E := by
  -- the induction is on what is still to come, for any part that is already done
  suffices h : ∀ post pre s', xs = pre ++ post → I pre s' →
      (post.forM body).Ends s' (fun _ s'' => I xs s'') E from h xs [] s rfl h0
  intro post
  induction post with
  | nil =>
    intro pre s' hxs hI
    rw [List.append_nil] at hxs
    subst hxs
    exact hI
  | cons x post ih =>
    intro pre s' hxs hI
    show ((body x >>= fun _ => post.forM body) : Act σ PUnit).Ends s' _ _
    rw [ends_bind]
    refine (hbody pre x post s' hxs hI).imp (fun _ s'' hI' => ?_) (fun _ _ he => he)
    exact ih (pre ++ [x]) s'' (by rw [hxs]; simp) hI'

end Act

namespace World

open Act

variable {K V τ α : Type} {w : World K V τ} {Q : α → World K V τ → Prop}
  {E : Fault → World K V τ → Prop}

@[simp] theorem ends_onTable {act : Act (Table K V) α} :
    (onTable act).Ends w Q E ↔
      act.Ends w.table (fun a t => Q a { w with table := t }) fun f t =>
        E f { w with table := t } := by
  obtain ⟨⟨table, keyHook, valueHook, probing⟩, heap, client⟩ := w
  unfold Ends onTable
  dsimp only
  cases act table <;> rfl

@[simp] theorem ends_onClient {act : Act τ α} :
    (onClient act).Ends w Q E ↔
      act.Ends w.client (fun a c => Q a { w with client := c }) fun f c =>
        E f { w with client := c } := by
  obtain ⟨map, heap, client⟩ := w
  unfold Ends onClient
  dsimp only
  cases act client <;> rfl

theorem ends_guarded {act : Act (World K V τ) α} :
    (guarded act).Ends w Q E ↔
      (w.probing = true → E .reentrant w) ∧
      (w.probing = false → act.Ends { w with probing := true }
        (fun a w' => Q a { w' with probing := false })
        fun f w' => E f { w' with probing := false }) := by
  unfold Ends guarded andFinally
  cases hp : w.probing
  · simp only [Bool.false_eq_true, if_false, false_imp_iff, true_and, true_imp_iff]
    cases act { w with probing := true } <;> rfl
  · simp

end World

end OpenAddressing
