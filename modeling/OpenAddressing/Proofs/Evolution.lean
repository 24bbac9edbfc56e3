import OpenAddressing.Proofs.Changes

/-!
# How calls end

`Evolves` relates the world before a call to the world after it: the table has gone
through a sequence of changes, and the hooks and the mark of a running search are what
they were. `Cause` lists the reasons for which a call can stop. A call is *regular* if
it evolves the world whether it returns or stops, and stops for one of these reasons
only; arithmetic that overflows, indexes out of bounds and failed assertions are not
among them.

Regularity assumes no more than a world at rest: no search is running, and the counters
are bounded. So it covers the calls after an interrupted clear too. It is closed under
sequencing (`Regular.bind`): a call is regular if its parts are.
-/

namespace OpenAddressing.World

open Act

variable {K V τ α β : Type} {s : Strategy K} {w w' w'' : World K V τ} {f : Fault}

/-- The hooks and the mark of a running search are the same. -/
structure SameRest (w w' : World K V τ) : Prop where
  keyHook : w'.keyHook = w.keyHook
  valueHook : w'.valueHook = w.valueHook
  probing : w'.probing = w.probing

theorem SameRest.refl (w : World K V τ) : w.SameRest w := ⟨rfl, rfl, rfl⟩

theorem SameRest.trans (h : w.SameRest w') (h' : w'.SameRest w'') : w.SameRest w'' :=
  ⟨h'.keyHook.trans h.keyHook, h'.valueHook.trans h.valueHook, h'.probing.trans h.probing⟩

theorem SameButClient.sameRest (h : w.SameButClient w') : w.SameRest w' := by
  obtain ⟨c, rfl⟩ := h; exact ⟨rfl, rfl, rfl⟩

/-- One of the hooks gives up, and this is the fault that the map passes on. -/
def HookRaises (w : World K V τ) (f : Fault) : Prop :=
  (∃ hook, w.keyHook = some hook ∧ ∃ k c c', (hook k).asClient c = .error f c') ∨
    ∃ hook, w.valueHook = some hook ∧ ∃ v c c', (hook v).asClient c = .error f c'

theorem HookRaises.isClient (h : w.HookRaises f) : f.isClient = true := by
  rcases h with ⟨_, _, _, _, _, hrun⟩ | ⟨_, _, _, _, _, hrun⟩
  · exact isClient_of_asClient hrun
  · exact isClient_of_asClient hrun

theorem HookRaises.of_sameRest (h : w.SameRest w') (hf : w'.HookRaises f) : w.HookRaises f := by
  unfold HookRaises at hf ⊢
  rw [h.keyHook, h.valueHook] at hf
  exact hf

theorem not_hookRaises_of_none (hkey : w.keyHook = none) (hvalue : w.valueHook = none) :
    ¬ w.HookRaises f := by
  rintro (⟨hook, hhook, _⟩ | ⟨hook, hhook, _⟩)
  · rw [hkey] at hhook; exact absurd hhook (by simp)
  · rw [hvalue] at hhook; exact absurd hhook (by simp)

/-- The table has gone through changes, and the rest is the same. -/
structure Evolves (s : Strategy K) (w w' : World K V τ) : Prop extends SameRest w w' where
  steps : Table.Steps s w.table w'.table

theorem Evolves.of_table_eq (h : w.SameRest w') (ht : w'.table = w.table) : Evolves s w w' :=
  ⟨h, by rw [ht]⟩

theorem Evolves.of_change (h : w.SameRest w') (ht : Table.Change s w.table w'.table) :
    Evolves s w w' :=
  ⟨h, .single ht⟩

theorem Evolves.refl (w : World K V τ) : Evolves s w w := .of_table_eq (.refl w) rfl

theorem Evolves.trans (h : Evolves s w w') (h' : Evolves s w' w'') : Evolves s w w'' :=
  ⟨h.toSameRest.trans h'.toSameRest, h.steps.trans h'.steps⟩

theorem SameButClient.evolves (h : w.SameButClient w') : Evolves s w w' :=
  .of_table_eq h.sameRest h.table_eq

/-- No call is under way, and the counters are bounded. -/
structure AtRest (w : World K V τ) : Prop where
  bounded : w.table.Bounded
  probing_eq : w.probing = false

theorem Evolves.atRest (h : Evolves s w w') (hw : w.AtRest) : w'.AtRest :=
  ⟨h.steps.bounded hw.bounded, h.probing.trans hw.probing_eq⟩

/-- The reasons for which a call that starts at rest in `w` stops in `w'`. -/
inductive Cause (s : Strategy K) (w w' : World K V τ) : Fault → Prop where
  /-- Too many buckets were asked for. -/
  | capacity : Cause s w w' .capacityOverflow
  /-- A hook gave up. -/
  | hook {f : Fault} : w.HookRaises f → Cause s w w' f
  /-- A search in the buckets that are left does not come to a slot. -/
  | search {f : Fault} (accepts : K → Bool) (hash : UInt64) : w'.table.capacity ≠ 0 →
      Seek.plainAcquire s.probe accepts hash w'.table.buckets = .error f → Cause s w w' f
  /-- The counters were not exact, and a rebuild saw it. -/
  | rebuildMiscount {moved counted : Nat} : ¬ w.table.Exact →
      Cause s w w' (.rebuildMiscount moved counted)
  /-- The counters were not exact, and a snapshot saw it. -/
  | snapshotMiscount {collected counted : Nat} : ¬ w.table.Exact →
      Cause s w w' (.snapshotMiscount collected counted)

theorem Cause.of_evolves (h : Evolves s w w') (hf : Cause s w' w'' f) : Cause s w w'' f := by
  cases hf with
  | capacity => exact .capacity
  | hook hf => exact .hook (hf.of_sameRest h.toSameRest)
  | search accepts hash hpos hrun => exact .search accepts hash hpos hrun
  | rebuildMiscount hne => exact .rebuildMiscount fun he => hne (h.steps.exact he)
  | snapshotMiscount hne => exact .snapshotMiscount fun he => hne (h.steps.exact he)

/-- From a world at rest, the act evolves it, and stops only for a cause. -/
def Regular (s : Strategy K) (act : Act (World K V τ) α) : Prop :=
  ∀ w, w.AtRest →
    act.Ends w (fun _ w' => Evolves s w w') fun f w' => Evolves s w w' ∧ Cause s w w' f

theorem regular_pure {a : α} : Regular s (pure a : Act (World K V τ) α) :=
  fun w _ => .refl w

/-- A computation that comes to an answer is regular. -/
theorem regular_lift {r : Except Fault α} {a : α} (h : r = .ok a) :
    Regular s (lift r : Act (World K V τ) α) := by
  rw [h]
  exact regular_pure

theorem Regular.bind {x : Act (World K V τ) β} {g : β → Act (World K V τ) α}
    (hx : Regular s x) (hg : ∀ b, Regular s (g b)) : Regular s (x >>= g) := by
  intro w hw
  rw [ends_bind]
  refine (hx w hw).imp (fun b w' h => ?_) (fun _ _ h => h)
  refine (hg b w' (h.atRest hw)).imp (fun _ _ h' => ?_) (fun _ _ h' => ?_)
  · exact h.trans h'
  · exact ⟨h.trans h'.1, h'.2.of_evolves h⟩

/-- Reading the world is regular, and what is read is at rest. -/
theorem Regular.get {g : World K V τ → Act (World K V τ) α}
    (hg : ∀ w : World K V τ, w.AtRest → Regular s (g w)) : Regular s (get >>= g) := by
  intro w hw
  rw [ends_bind, ends_get]
  exact hg w hw w hw

theorem Regular.onlyIf {p : Prop} [Decidable p] {act : Act (World K V τ) Unit}
    (h : Regular s act) : Regular s (Act.onlyIf p act) :=
  Act.onlyIf_of h regular_pure

theorem Regular.discard {act : Act (World K V τ) α} (h : Regular s act) :
    Regular s (Functor.discard act) := by
  intro w hw
  rw [ends_discard]
  exact h w hw

/-- An act that comes to an answer and changes nothing but the client is regular. -/
theorem regular_of_answers {act : Act (World K V τ) α} {a : α}
    (h : ∀ w, Answers act w (.ok a)) : Regular s act := by
  intro w _
  refine (h w).imp (fun _ _ h' => h'.2.evolves) (fun _ _ h' => ?_)
  exact absurd h'.1 (by simp)

theorem Regular.forM {xs : List β} {g : β → Act (World K V τ) PUnit}
    (hg : ∀ b, Regular s (g b)) : Regular s (xs.forM g) := by
  induction xs with
  | nil => exact regular_pure
  | cons x xs ih => exact (hg x).bind fun _ => ih

theorem Regular.mapM {xs : List β} {g : β → Act (World K V τ) α}
    (hg : ∀ b, Regular s (g b)) : Regular s (xs.mapM g) := by
  induction xs with
  | nil => rw [List.mapM_nil]; exact regular_pure
  | cons x xs ih =>
    rw [List.mapM_cons]
    exact (hg x).bind fun _ => ih.bind fun _ => regular_pure

/-! ## Hooks -/

theorem handOver_ends (hook? : Option (Hook τ α)) (a : α) {E : Fault → Prop}
    (hE : ∀ hook, hook? = some hook → ∀ c f c', (hook a).asClient c = .error f c' → E f) :
    (handOver hook? a : Act (World K V τ) Unit).Ends w (fun _ w' => w.SameButClient w')
      fun f w' => w.SameButClient w' ∧ E f := by
  unfold handOver
  cases hook? with
  | none => exact SameButClient.refl w
  | some hook =>
    rw [ends_onClient]
    unfold Act.Ends
    split
    · rename_i c' _; exact ⟨c', rfl⟩
    · rename_i f c' hrun; exact ⟨⟨c', rfl⟩, hE hook rfl _ _ _ hrun⟩

/-- Releasing an entry calls the hooks and changes nothing but the client. -/
theorem release_ends {e : Entry K V} :
    (release e).Ends w (fun _ w' => w.SameButClient w') fun f w' =>
      w.SameButClient w' ∧ w.HookRaises f := by
  unfold release
  rw [ends_bind, ends_get, ends_bind]
  have hkey := handOver_ends w.keyHook e.key (w := w) (E := w.HookRaises)
    fun hook hh c f c' hrun => Or.inl ⟨hook, hh, _, c, c', hrun⟩
  refine hkey.imp (fun _ w' h => ?_) (fun _ _ h => h)
  have hvalue := handOver_ends w.valueHook e.value (w := w') (E := w.HookRaises)
    fun hook hh c f c' hrun => Or.inr ⟨hook, hh, _, c, c', hrun⟩
  exact hvalue.imp (fun _ _ h' => h.trans h') (fun _ _ h' => ⟨h.trans h'.1, h'.2⟩)

theorem release_regular {e : Entry K V} : Regular s (release e : Act (World K V τ) Unit) := by
  intro w _
  exact release_ends.imp (fun _ _ h => h.evolves) (fun _ _ h => ⟨h.1.evolves, .hook h.2⟩)

/-! ## Lookups -/

variable {cb : Callbacks K V τ} {k : K}

theorem LookupFault.cause (h : LookupFault s k w f) (hp : w.probing = false)
    (hw : w'.table = w.table) : Cause s w w' f := by
  rcases h with hrun | ⟨_, hp'⟩
  · -- a lookup and an insertion search alike, and differ only in what they do with a landing
    unfold Table.plainFind at hrun
    split at hrun
    · exact absurd hrun (by simp)
    · rename_i hpos
      rw [← hw] at hpos hrun
      refine .search (s.equals k) (s.hash k) hpos (bind_eq_error_iff.mpr (Or.inl ?_))
      rcases bind_eq_error_iff.mp hrun with hl | ⟨landing, _, hfound⟩
      · exact hl
      · exact absurd hfound (by simp [pure, Except.pure])
  · rw [hp] at hp'; exact absurd hp' (by simp)

theorem locate_regular (hcb : cb.Plain s) : Regular s (locate cb k) := by
  intro w hw
  exact (locate_ends hcb).imp (fun _ _ h => h.2.evolves)
    (fun _ _ h => ⟨h.2.evolves, h.1.cause hw.probing_eq h.2.table_eq⟩)

theorem getEntry?_regular (hcb : cb.Plain s) : Regular s (World.getEntry? cb k) := by
  intro w hw
  exact (getEntry?_ends hcb).imp (fun _ _ h => h.2.evolves)
    (fun _ _ h => ⟨h.2.evolves, h.1.cause hw.probing_eq h.2.table_eq⟩)

end OpenAddressing.World
