import OpenAddressing.Update
import OpenAddressing.Proofs.Rebuilds
import OpenAddressing.Proofs.Walks

/-!
# What clearing comes to

Clearing is the one call whose work is not done when the hooks run: it empties a bucket,
hands the entry over, and goes on to the next bucket. If a hook gives up on the way, the
buckets so far are empty and the counters still count what was in them. That is the
table `vacated n`, with `n` the number of buckets that have been emptied.

So an interrupted clear leaves the counters wrong, and only too high: `Bounded` survives
it, `Exact` does not. All other invariants of a table are therefore statements about
worlds in which no clear has been stopped by a hook (`ClearStopped`).
-/

namespace OpenAddressing

open Act

namespace Table

variable {K V : Type} {t : Table K V} {i : Nat}

theorem vacate_ends :
    (vacate i).Ends t (fun e? t' => e? = t.entryAt? i ∧ t' = t.setBucket i .empty)
      fun _ _ => False := by
  unfold vacate
  simp only [ends_bind, ends_get, ends_modify, ends_pure]
  exact ⟨trivial, trivial⟩

theorem entryAt?_vacated_self : (t.vacated i).entryAt? i = t.entryAt? i := by
  unfold entryAt?
  rw [getElem?_vacated]
  cases t.buckets[i]? with
  | none => rfl
  | some b => simp

theorem entryAt?_vacated {n : Nat} :
    (t.vacated n).entryAt? i = if i < n then none else t.entryAt? i := by
  unfold entryAt?
  rw [getElem?_vacated]
  split
  · cases t.buckets[i]? <;> rfl
  · rw [Option.map_id']

theorem entriesFrom_of_entryAt? (hi : i < t.capacity) :
    t.entriesFrom i = (t.entryAt? i).toList ++ t.entriesFrom (i + 1) := by
  obtain ⟨b, hb⟩ := exists_bucket hi
  rw [entriesFrom_of_getElem? hb, entryAt?_of_getElem? hb]

theorem entriesFrom_vacated {n m : Nat} (hm : t.capacity ≤ i + m) :
    (t.vacated n).entriesFrom i = t.entriesFrom (max i n) := by
  -- the induction is on the number of buckets from `i` on
  induction m generalizing i with
  | zero =>
    rw [entriesFrom_of_le (by rw [capacity_vacated]; omega), entriesFrom_of_le (by omega)]
  | succ m ih =>
    rcases Nat.lt_or_ge i t.capacity with hi | hi
    · rw [entriesFrom_of_entryAt? (by rw [capacity_vacated]; exact hi), entryAt?_vacated,
        ih (by omega)]
      split
      · rw [show max (i + 1) n = max i n by omega]; rfl
      · rw [show max (i + 1) n = i + 1 by omega, show max i n = i by omega,
          entriesFrom_of_entryAt? hi]
    · rw [entriesFrom_of_le (by rw [capacity_vacated]; exact hi), entriesFrom_of_le (by omega)]

/-- What is left after the first buckets have been emptied is what comes after them. -/
theorem entries_vacated {n : Nat} : (t.vacated n).entries = t.entriesFrom n := by
  rw [← entriesFrom_zero, entriesFrom_vacated (m := t.capacity) (by omega), Nat.zero_max]

end Table

namespace World

variable {K V τ : Type} {w : World K V τ} {t : Table K V}

/-- A hook gives up while the map is cleared. -/
def ClearStopped (w : World K V τ) : Prop :=
  ∃ f w', vacate w.table.capacity 0 0 w = .error f w'

/-- Emptying a table as a loop over its entries: `I` holds of the entries released so far
and says nothing of the table, and `E` says how the release of one more may stop. -/
theorem vacate_loop {I : List (Entry K V) → World K V τ → Prop}
    {E : List (Entry K V) → Entry K V → Fault → World K V τ → Prop}
    (hframe : ∀ pre w t, I pre w → I pre { w with table := t })
    (hrelease : ∀ pre e w, I pre w →
      (release e).Ends w (fun _ w' => I (pre ++ [e]) w') (E pre e))
    {n i : Nat} {pre : List (Entry K V)} (hlim : t.capacity < Table.capacityLimit)
    (hn : t.capacity = i + n) (ht : w.table = t.vacated i)
    (hpre : t.entries = pre ++ t.entriesFrom i) (hI : I pre w) :
    (vacate n i pre.length).Ends w
      (fun total w' => w'.table = t.vacated t.capacity ∧ I t.entries w' ∧
        total = t.entries.length)
      fun f w' => ∃ pre m e, t.entryAt? m = some e ∧
        t.entries = pre ++ e :: t.entriesFrom (m + 1) ∧ w'.table = t.vacated (m + 1) ∧
        E pre e f w' := by
  induction n generalizing i w pre with
  | zero =>
    have hi : t.capacity = i := by omega
    rw [Table.entriesFrom_of_le (by omega), List.append_nil] at hpre
    exact ⟨by rw [hi]; exact ht, hpre ▸ hI, by rw [hpre]⟩
  | succ n ih =>
    have hhead := Table.entriesFrom_of_entryAt? (t := t) (i := i) (by omega)
    rw [vacate, ends_bind, ends_onTable]
    refine Table.vacate_ends.imp (fun e? t' h => ?_) (fun _ _ h => h.elim)
    -- the bucket is emptied first, so the hooks run on a table that is one further
    obtain ⟨he, ht'⟩ := h
    rw [ht, Table.entryAt?_vacated_self] at he
    rw [ht, Table.setBucket_vacated] at ht'
    subst ht'
    rw [← he] at hhead
    cases e? with
    | none =>
      rw [hhead] at hpre
      exact ih (by omega) rfl hpre (hframe _ _ _ hI)
    | some e =>
      rw [hhead] at hpre
      replace hpre : t.entries = pre ++ e :: t.entriesFrom (i + 1) := hpre
      dsimp only
      rw [ends_bind]
      have hkeeps := release_ends (w := { w with table := t.vacated (i + 1) }) (e := e)
      refine ((hrelease pre e _ (hframe _ _ _ hI)).and hkeeps).imp (fun _ w' h => ?_)
        (fun f w' h => ?_)
      · have hcount : pre.length + 1 < Word.limit := by
          have hlength := congrArg List.length hpre
          rw [Table.length_entries, List.length_append, List.length_cons] at hlength
          have hfull := t.fullCount_le_capacity
          have hlimit := Table.limit_eq
          omega
        rw [ends_bind, Word.add_of_lt hcount, ends_lift_ok]
        have hnext : (pre ++ [e]).length = pre.length + 1 := by simp
        rw [← hnext]
        exact ih (by omega) h.2.table_eq (by rw [hpre]; simp) h.1
      · exact ⟨pre, i, e, he.symm, hpre, h.2.1.table_eq, h.1⟩

/-- Emptying a whole table. -/
theorem vacate_ends {I : List (Entry K V) → World K V τ → Prop}
    {E : List (Entry K V) → Entry K V → Fault → World K V τ → Prop}
    (hframe : ∀ pre w t, I pre w → I pre { w with table := t })
    (hrelease : ∀ pre e w, I pre w →
      (release e).Ends w (fun _ w' => I (pre ++ [e]) w') (E pre e))
    (hlim : w.table.capacity < Table.capacityLimit) (hI : I [] w) :
    (vacate w.table.capacity 0 0).Ends w
      (fun total w' => w'.table = w.table.vacated w.table.capacity ∧ I w.table.entries w' ∧
        total = w.table.entries.length)
      fun f w' => ∃ pre m e, w.table.entryAt? m = some e ∧
        w.table.entries = pre ++ e :: w.table.entriesFrom (m + 1) ∧
        w'.table = w.table.vacated (m + 1) ∧ E pre e f w' := by
  have hnone : w.table.entries = [] ++ w.table.entriesFrom 0 := rfl
  exact vacate_loop hframe hrelease hlim (Nat.zero_add _).symm Table.vacated_zero.symm hnone hI

/-- The ways in which clearing stops: a hook gives up on an entry, and the buckets up to it
are empty; or all buckets are, and the entries in them were not as many as the table had
counted. -/
inductive ClearStop (w w' : World K V τ) : Fault → Prop where
  | hook {f : Fault} {m : Nat} {e : Entry K V} : w.ClearStopped → w.HookRaises f →
      w.table.entryAt? m = some e → w'.table = w.table.vacated (m + 1) → ClearStop w w' f
  | miscount : w.table.entries.length ≠ w.table.live →
      w'.table = w.table.vacated w.table.capacity →
      ClearStop w w' (.clearMiscount w.table.entries.length w.table.live)

theorem clear_stops (hlim : w.table.capacity < Table.capacityLimit) :
    (clear : Act (World K V τ) Unit).Ends w
      (fun _ w' => w.SameRest w' ∧ w'.table = .blank w.table.capacity ∧
        w.table.entries.length = w.table.live)
      fun f w' => w.SameRest w' ∧ ClearStop w w' f := by
  unfold clear
  rw [ends_bind, ends_get, ends_bind]
  have hvacate := vacate_ends (w := w) (I := fun _ w' => w.SameRest w')
    (E := fun _ _ f w' => w.SameRest w' ∧ w.HookRaises f)
    (fun _ _ _ h => ⟨h.keyHook, h.valueHook, h.probing⟩)
    (fun _ e w' h => release_ends.imp (fun _ _ h' => h.trans h'.sameRest)
      (fun _ _ h' => ⟨h.trans h'.1.sameRest, h'.2.of_sameRest h⟩)) hlim (.refl w)
  refine hvacate.with_run.imp (fun total w' h => ?_) (fun f w' h => ?_)
  · obtain ⟨_, ht, hrest, htotal⟩ := h
    have hlive : w'.table.live = w.table.live := by rw [ht]; rfl
    -- the count that the loop comes to is the number of entries there were
    simp only [ends_bind, ends_get, ends_require, ends_onTable, ends_modify]
    rw [htotal, hlive]
    refine ⟨fun heq => ⟨⟨hrest.keyHook, hrest.valueHook, hrest.probing⟩, ?_, heq⟩,
      fun hne => ⟨hrest, .miscount hne ht⟩⟩
    rw [ht]; exact Table.vacated_capacity
  · obtain ⟨hrun, pre, m, e, he, _, ht, hrest, hraises⟩ := h
    exact ⟨hrest, .hook ⟨f, w', hrun⟩ hraises he ht⟩

/-- Clearing makes the table as good as new. If it stops, then because of a hook, or
because the counters had been wrong before. -/
theorem clear_ends (hlim : w.table.capacity < Table.capacityLimit) :
    (clear : Act (World K V τ) Unit).Ends w
      (fun _ w' => w.SameRest w' ∧ w'.table = .blank w.table.capacity)
      fun f w' => w.SameRest w' ∧ (∃ m, w'.table = w.table.vacated m) ∧
        ((w.ClearStopped ∧ w.HookRaises f) ∨
          (¬ w.table.Exact ∧ ∃ released counted, f = .clearMiscount released counted)) := by
  refine (clear_stops hlim).imp (fun _ w' h => ⟨h.1, h.2.1⟩) (fun f w' h => ?_)
  obtain ⟨hrest, hstop⟩ := h
  cases hstop with
  | hook hstopped hraises _ ht => exact ⟨hrest, ⟨_, ht⟩, Or.inl ⟨hstopped, hraises⟩⟩
  | miscount hne ht =>
    refine ⟨hrest, ⟨_, ht⟩, Or.inr ⟨fun hexact => hne ?_, _, _, rfl⟩⟩
    rw [Table.length_entries]
    exact hexact.live_eq.symm

end World

end OpenAddressing
