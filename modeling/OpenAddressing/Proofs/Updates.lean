import OpenAddressing.Cursor
import OpenAddressing.Proofs.Rebuilds

/-!
# What insertions and removals come to

Each operation on a bucket is first followed on the table (`fill_ends`, `replace_ends`,
`bury_ends`, `updateAt_ends`): with bounded counters, and a slot that a search has
given out, none of their checks fails. `Stored`, `Removed` and `Updated` say what the
table is afterwards, together with what the call answers.

An insertion that returns is a `Grown` and then a `Stored`; whatever else can happen
to a call here is a `Cause`, unless a callback gives up.
-/

namespace OpenAddressing

open Act

namespace Table

variable {K V : Type} {s : Strategy K} {k : K} {v : V} {t t' : Table K V} {i : Nat}
  {e : Entry K V} {r : Option (Entry K V)}

/-- A pair has been stored in its slot, and `r` is the entry that was there. -/
inductive Stored (s : Strategy K) (k : K) (v : V) (t : Table K V) :
    Option (Entry K V) → Table K V → Prop where
  | fill {i : Nat} {reused : Bool} :
      Seek.plainAcquire s.probe (s.equals k) (s.hash k) t.buckets = .ok (.vacant i reused) →
      Stored s k v t none (t.fillAt i reused ⟨s.hash k, k, v⟩)
  | replace {i : Nat} {old : Entry K V} :
      Seek.plainAcquire s.probe (s.equals k) (s.hash k) t.buckets = .ok (.occupied i) →
      t.entryAt? i = some old → Stored s k v t (some old) (t.setBucket i (.full ⟨s.hash k, k, v⟩))

/-- The entry in a bucket, if one was found, has been taken out and is `r`. -/
inductive Removed (t : Table K V) : Option Nat → Option (Entry K V) → Table K V → Prop where
  | nothing : Removed t none none t
  | entry {i : Nat} {e : Entry K V} : t.entryAt? i = some e →
      Removed t (some i) (some e) (t.buryAt i)

/-- The value in a bucket, if one was found, has been changed to `r`. -/
inductive Updated (f : V → V) (t : Table K V) : Option Nat → Option V → Table K V → Prop where
  | nothing : Updated f t none none t
  | entry {i : Nat} {e : Entry K V} : t.entryAt? i = some e →
      Updated f t (some i) (some (f e.value)) (t.setBucket i (.full (e.mapValue f)))

/-- The ways in which an insertion stops before it stores anything: there is no room, or in
a table that has room the search does not come to a slot. -/
inductive SlotStop (s : Strategy K) (k : K) (t t' : Table K V) (f : Fault) : Prop where
  | room : Halted s t t' f → SlotStop s k t t' f
  | search : Grown s t t' → t'.Roomy →
      Seek.plainAcquire s.probe (s.equals k) (s.hash k) t'.buckets = .error f →
      SlotStop s k t t' f

theorem Stored.change (h : Stored s k v t r t') (hroom : t.Roomy) : Change s t t' := by
  cases h with
  | fill hslot => exact .fill hslot hroom
  | replace hslot _ => exact .replace hslot

theorem Stored.capacity_eq (h : Stored s k v t r t') : t'.capacity = t.capacity := by
  cases h with
  | fill _ => exact capacity_fillAt
  | replace _ _ => exact capacity_setBucket

theorem Removed.steps {i? : Option Nat} (h : Removed t i? r t') : Steps s t t' := by
  cases h with
  | nothing => exact .refl
  | entry he => exact .single (.bury he)

theorem Updated.steps {f : V → V} {i? : Option Nat} {v? : Option V} (h : Updated f t i? v? t') :
    Steps s t t' := by
  cases h with
  | nothing => exact .refl
  | entry he => exact .single (.update he)

/-! ## Single buckets -/

theorem Bounded.add_live (h : t.Bounded) : Word.add t.live 1 = .ok (t.live + 1) := by
  have hlt := h.counters_lt
  have hlimit := limit_eq
  exact Word.add_of_lt (by omega)

theorem Bounded.add_tombs (h : t.Bounded) : Word.add t.tombs 1 = .ok (t.tombs + 1) := by
  have hlt := h.counters_lt
  have hlimit := limit_eq
  exact Word.add_of_lt (by omega)

theorem fill_ends {reused : Bool} (h : t.Bounded)
    (hi : t.buckets[i]? = some (if reused then .tombstone else .empty)) :
    (fill i reused e).Ends t (fun _ t' => t' = t.fillAt i reused e) fun _ _ => False := by
  unfold fill
  rw [ends_bind, ends_get]
  cases reused with
  | false =>
    simp only [ends_bind, bucketAt_of_getElem? hi, ends_lift_ok, Bool.false_eq_true, if_false,
      h.add_live, ends_modify]
    rfl
  | true =>
    have htombs : Word.sub t.tombs 1 = .ok (t.tombs - 1) :=
      Word.sub_of_le (Nat.lt_of_lt_of_le (tombCount_pos hi) h.tombs_le)
    simp only [ends_bind, bucketAt_of_getElem? hi, ends_lift_ok, if_true, htombs, h.add_live,
      ends_modify]
    rfl

theorem replace_ends {old : Entry K V} (hi : t.entryAt? i = some old) :
    (replace i e).Ends t (fun r t' => r = old ∧ t' = t.setBucket i (.full e)) fun _ _ => False := by
  unfold replace
  simp only [ends_bind, ends_get, bucketAt_of_getElem? (entryAt?_eq_some_iff.mp hi), ends_lift_ok,
    ends_modify, ends_pure]
  exact ⟨trivial, trivial⟩

theorem bury_ends (h : t.Bounded) :
    (bury i).Ends t
      (fun r t' => (t.entryAt? i = none ∧ r = none ∧ t' = t) ∨ Removed t (some i) r t')
      fun _ _ => False := by
  unfold bury
  rw [ends_bind, ends_get]
  cases hi : t.entryAt? i with
  | none => exact Or.inl ⟨rfl, rfl, rfl⟩
  | some e =>
    have hlive : Word.sub t.live 1 = .ok (t.live - 1) :=
      Word.sub_of_le (Nat.lt_of_lt_of_le (fullCount_pos hi) h.full_le)
    simp only [ends_bind, hlive, h.add_tombs, ends_lift_ok, ends_modify, ends_pure]
    exact Or.inr (.entry hi)

theorem updateAt_ends {f : V → V} :
    (updateAt i f).Ends t
      (fun r t' => (t.entryAt? i = none ∧ r = none ∧ t' = t) ∨ Updated f t (some i) r t')
      fun _ _ => False := by
  unfold updateAt
  rw [ends_bind, ends_get]
  cases hi : t.entryAt? i with
  | none => exact Or.inl ⟨rfl, rfl, rfl⟩
  | some e =>
    simp only [ends_bind, ends_modify, ends_pure]
    exact Or.inr (.entry hi)

theorem bury_eq (h : t.Bounded) (he : t.entryAt? i = some e) :
    bury i t = .ok (some e) (t.buryAt i) := by
  have hends := bury_ends h (i := i)
  cases hrun : bury i t with
  | error f t' => exact (hends.of_error hrun).elim
  | ok r t' =>
    rcases hends.of_ok hrun with ⟨hnone, _⟩ | hremoved
    · rw [he] at hnone
      exact absurd hnone (by simp)
    · cases hremoved with
      | entry he' =>
        rw [he] at he'
        rw [Option.some.inj he']

theorem bury_of_none (h : t.entryAt? i = none) : bury i t = .ok none t := by
  unfold bury
  rw [get_bind, h]
  rfl

theorem updateAt_eq {f : V → V} (he : t.entryAt? i = some e) :
    updateAt i f t = .ok (some (f e.value)) (t.setBucket i (.full (e.mapValue f))) := by
  unfold updateAt
  rw [get_bind, he]
  rfl

theorem updateAt_of_none {f : V → V} (h : t.entryAt? i = none) : updateAt i f t = .ok none t := by
  unfold updateAt
  rw [get_bind, h]
  rfl

end Table

namespace World

variable {K V τ : Type} {G : Fault → Prop} {cb : Callbacks K V τ} {s : Strategy K}
  {w : World K V τ} {k : K} {v : V} {i : Nat}

theorem sameRest_withTable {w' : World K V τ} {t : Table K V} (h : w.SameRest w') :
    w.SameRest { w' with table := t } :=
  ⟨h.keyHook, h.valueHook, h.probing⟩

/-! ## Insertions -/

theorem evolves_of_slotStop {w' : World K V τ} {f : Fault}
    (h : Table.SlotStop s k w.table w'.table f) (hrest : w.SameRest w') :
    Evolves s w w' ∧ Cause s w w' f := by
  cases h with
  | room hhalted => exact evolves_of_halted hhalted hrest
  | search hgrown hroom hrun =>
    refine ⟨evolves_of_grown hrest hgrown, .search (s.equals k) (s.hash k) ?_ hrun⟩
    unfold Table.Roomy at hroom; omega

/-- Once there is room, the pair is stored in the slot that a search finds. `J` is what is
known of the world by then, `E` says how the search may stop, and `G` how a callback may give
up. -/
theorem insertSlot_of_room (hcb : cb.Follows G s) {J : World K V τ → Prop}
    {E : Fault → World K V τ → Prop}
    (hroom : (makeRoom cb).Ends w (fun _ w₁ => J w₁ ∧ w₁.table.Bounded ∧ w₁.table.Roomy) E)
    (hstuck : ∀ f w₁ w', J w₁ → w₁.table.Roomy → w₁.SameButClient w' →
      Seek.plainAcquire s.probe (s.equals k) (s.hash k) w₁.table.buckets = .error f ∨ G f →
      E f w') :
    (insertSlot cb k v).Ends w
      (fun r w' => ∃ w₁, J w₁ ∧ w₁.table.Roomy ∧ w₁.SameRest w' ∧ w'.heap = w₁.heap ∧
        w₁.table.Stored s k v r w'.table) E := by
  unfold insertSlot
  rw [ends_bind]
  refine hroom.imp (fun _ w₁ h => ?_) (fun _ _ h => h)
  -- from here on the table is the one that has room
  obtain ⟨hJ, hbounded, hroom⟩ := h
  have hpos : w₁.table.capacity ≠ 0 := by
    unfold Table.Roomy at hroom; omega
  rw [ends_bind]
  refine (hcb.hash k w₁).imp (fun hash w₂ h => ?_)
    (fun f w₂ h => hstuck f w₁ w₂ hJ hroom h.2 (Or.inr (h.1.resolve_left (by simp))))
  obtain ⟨hhash, hw₂⟩ := h
  have hhash' : s.hash k = hash := Except.ok.inj hhash
  subst hhash'
  rw [ends_bind, ends_get, ends_bind, hw₂.table_eq]
  have hacquire : Follows G (Seek.acquire cb.probe (cb.equals k) (s.hash k) w₁.table.buckets) w₂
      (Seek.plainAcquire s.probe (s.equals k) (s.hash k) w₁.table.buckets) :=
    Seek.acquire_follows hcb (hcb.equals k) hpos
  refine hacquire.imp (fun slot w₃ h => ?_) (fun f w₃ h => ?_)
  · obtain ⟨hslot, hw₃⟩ := h
    have hsame := hw₂.trans hw₃
    have hrest := hsame.sameRest
    cases slot with
    | occupied i =>
      obtain ⟨old, hold, _⟩ := Table.plainAcquire_occupied hslot
      dsimp only
      rw [ends_bind, ends_onTable, hsame.table_eq]
      refine (Table.replace_ends hold).imp (fun r t' h => ?_) (fun _ _ h => h.elim)
      obtain ⟨rfl, rfl⟩ := h
      exact ⟨w₁, hJ, hroom, sameRest_withTable hrest, hsame.heap_eq, .replace hslot hold⟩
    | vacant i reused =>
      dsimp only
      rw [ends_bind, ends_onTable, hsame.table_eq]
      refine (Table.fill_ends hbounded (Table.plainAcquire_vacant hslot).1).imp
        (fun _ t' h => ?_) (fun _ _ h => h.elim)
      subst h
      exact ⟨w₁, hJ, hroom, sameRest_withTable hrest, hsame.heap_eq, .fill hslot⟩
  · exact hstuck f w₁ w₃ hJ hroom (hw₂.trans h.2) h.1

theorem insertSlot_follows (hcb : cb.Follows G s) (hw : w.table.Bounded) :
    (insertSlot cb k v).Ends w
      (fun r w' => w.SameRest w' ∧ ∃ t, Table.Grown s w.table t ∧ t.Roomy ∧
        t.Stored s k v r w'.table)
      fun f w' => w.SameRest w' ∧
        (Table.SlotStop s k w.table w'.table f ∨ G f ∧ Table.Steps s w.table w'.table) := by
  refine (insertSlot_of_room hcb (J := fun w₁ => w.SameRest w₁ ∧ Table.Grown s w.table w₁.table)
    (E := fun f w' => w.SameRest w' ∧
      (Table.SlotStop s k w.table w'.table f ∨ G f ∧ Table.Steps s w.table w'.table)) ?_ ?_).imp
    ?_ ?_
  · refine (makeRoom_follows hcb hw).imp (fun _ w₁ h => ?_)
      (fun _ _ h => ⟨h.1, h.2.imp_left .room⟩)
    obtain ⟨hrest, hgrown, hroom⟩ := h
    exact ⟨⟨hrest, hgrown⟩, hgrown.steps.bounded hw, hroom⟩
  · rintro f w₁ w' ⟨hrest, hgrown⟩ hroom hsame hstop
    rw [← hsame.table_eq] at hgrown hroom hstop
    exact ⟨hrest.trans hsame.sameRest,
      hstop.imp (fun hrun => .search hgrown hroom hrun) fun hG => ⟨hG, hgrown.steps⟩⟩
  · rintro r w' ⟨w₁, hJ, hroom, hrest, _, hstored⟩
    exact ⟨hJ.1.trans hrest, w₁.table, hJ.2, hroom, hstored⟩
  · exact fun _ _ h => h

/-- The mark that the guard sets changes nothing for the insertion. -/
theorem guardedSlot_follows (hcb : cb.Follows G s) (hw : w.AtRest) :
    (guarded (insertSlot cb k v)).Ends w
      (fun r w' => w.SameRest w' ∧ ∃ t, Table.Grown s w.table t ∧ t.Roomy ∧
        t.Stored s k v r w'.table)
      fun f w' => w.SameRest w' ∧
        (Table.SlotStop s k w.table w'.table f ∨ G f ∧ Table.Steps s w.table w'.table) := by
  rw [ends_guarded]
  refine ⟨fun hp => ?_, fun hp => ?_⟩
  · rw [hw.probing_eq] at hp; exact absurd hp (by simp)
  · refine (insertSlot_follows (w := { w with probing := true }) hcb hw.bounded).imp
      (fun r w₁ h => ?_) (fun f w₁ h => ?_)
    · exact ⟨⟨h.1.keyHook, h.1.valueHook, hp.symm⟩, h.2⟩
    · exact ⟨⟨h.1.keyHook, h.1.valueHook, hp.symm⟩, h.2⟩

theorem guardedSlot_ends (hcb : cb.Plain s) (hw : w.AtRest) :
    (guarded (insertSlot cb k v)).Ends w
      (fun r w' => w.SameRest w' ∧ ∃ t, Table.Grown s w.table t ∧ t.Roomy ∧
        t.Stored s k v r w'.table)
      fun f w' => w.SameRest w' ∧ Table.SlotStop s k w.table w'.table f :=
  (guardedSlot_follows hcb.follows hw).imp (fun _ _ h => h)
    (fun _ _ h => ⟨h.1, h.2.resolve_right And.left⟩)

/-- Once the pair is stored the load is fine, and all that is left is to release the entry
that it replaced. -/
theorem insert_of_slot (hcb : cb.Follows G s) (hw : w.AtRest) {Q : Unit → World K V τ → Prop}
    {E : Fault → World K V τ → Prop}
    (h : (guarded (insertSlot cb k v)).Ends w
      (fun r w' => (releaseRemoved r).Ends w' (fun _ w'' => Q () w'') E) E) :
    (insert cb k v).Ends w Q E := by
  unfold insert
  rw [ends_bind]
  refine (h.and (guardedSlot_follows hcb hw)).imp (fun r w₁ h => ?_) (fun _ _ h => h.1)
  obtain ⟨hrelease, _, t, hgrown, hroom, hstored⟩ := h
  have hsteps : Table.Steps s w.table w₁.table :=
    hgrown.steps.trans (.single (hstored.change hroom))
  have hbounded : w₁.table.Bounded := hsteps.bounded hw.bounded
  have hload := hbounded.load
  have hcap : w₁.table.capacity ≠ 0 := by
    rw [hstored.capacity_eq]; unfold Table.Roomy at hroom; omega
  have hlt := hbounded.counters_lt
  rw [ends_bind, ends_get, ends_bind, Table.hasRoomFor_eq hbounded (by omega), ends_lift_ok,
    ends_bind, ends_require]
  refine ⟨fun _ => ?_, fun hload' => ?_⟩
  · cases r with
    | none => exact hrelease
    | some old =>
      unfold releaseRemoved at hrelease
      rw [ends_bind] at hrelease
      exact hrelease
  · -- the load is below its maximum in every table with buckets
    exfalso
    simp only [decide_eq_true_eq] at hload'
    omega

/-- An insertion into a map at rest makes room, puts the pair into its slot, and releases what
has been there. `J` is what is known once there is room. -/
theorem insert_of_room (hcb : cb.Plain s) (hw : w.AtRest) {J Q : World K V τ → Prop}
    {E : Fault → World K V τ → Prop}
    (hroom : (makeRoom cb).Ends { w with probing := true }
      (fun _ w₁ => J w₁ ∧ w₁.table.Bounded ∧ w₁.table.Roomy)
      fun f w₁ => E f { w₁ with probing := false })
    (hstuck : ∀ f w₁ w₂, J w₁ → w₁.SameButClient w₂ →
      Seek.plainAcquire s.probe (s.equals k) (s.hash k) w₁.table.buckets = .error f →
      E f { w₂ with probing := false })
    (hstored : ∀ r w₁ w₂, J w₁ → w₁.table.Roomy → w₁.SameRest w₂ → w₂.heap = w₁.heap →
      w₁.table.Stored s k v r w₂.table →
      (releaseRemoved r).Ends { w₂ with probing := false } (fun _ w' => Q w') E) :
    (insert cb k v).Ends w (fun _ w' => Q w') E := by
  refine insert_of_slot hcb.follows hw ?_
  rw [ends_guarded]
  refine ⟨fun hp => ?_, fun _ => ?_⟩
  · rw [hw.probing_eq] at hp; exact absurd hp (by simp)
  · refine (insertSlot_of_room hcb.follows hroom fun f w₁ w₂ hJ _ hsame h =>
      hstuck f w₁ w₂ hJ hsame (h.resolve_right id)).imp (fun r w₂ h => ?_) (fun _ _ h => h)
    obtain ⟨w₁, hJ, hroomy, hrest, hheap, hput⟩ := h
    exact hstored r w₁ w₂ hJ hroomy hrest hheap hput

/-! ## Releases -/

theorem releaseRemoved_ends {r : Option (Entry K V)} :
    (releaseRemoved r).Ends w (fun b w' => b = r.isSome ∧ w.SameButClient w') fun f w' =>
      w.SameButClient w' ∧ w.HookRaises f := by
  unfold releaseRemoved
  cases r with
  | none => exact ⟨rfl, .refl w⟩
  | some e =>
    dsimp only
    rw [ends_bind]
    exact release_ends.imp (fun _ w' h => ⟨rfl, h⟩) (fun _ _ h => h)

/-- The ways in which an insertion stops: no slot is found, or the pair is stored and a
hook gives up on the entry that it replaced. -/
inductive InsertStop (s : Strategy K) (k : K) (v : V) (w w' : World K V τ) (f : Fault) :
    Prop where
  | slot : Table.SlotStop s k w.table w'.table f → InsertStop s k v w w' f
  | hook {t : Table K V} {r : Option (Entry K V)} : Table.Grown s w.table t → t.Roomy →
      t.Stored s k v r w'.table → w.HookRaises f → InsertStop s k v w w' f

theorem InsertStop.evolves {w' : World K V τ} {f : Fault} (h : InsertStop s k v w w' f)
    (hrest : w.SameRest w') : Evolves s w w' ∧ Cause s w w' f := by
  cases h with
  | slot hslot => exact evolves_of_slotStop hslot hrest
  | hook hgrown hroom hstored hraises =>
    exact ⟨⟨hrest, hgrown.steps.trans (.single (hstored.change hroom))⟩, .hook hraises⟩

/-- An insertion that returns has made room and stored the pair. -/
theorem insert_ends (hcb : cb.Plain s) (hw : w.AtRest) :
    (insert cb k v).Ends w
      (fun _ w' => w.SameRest w' ∧ ∃ t r, Table.Grown s w.table t ∧ t.Roomy ∧
        t.Stored s k v r w'.table)
      fun f w' => w.SameRest w' ∧ InsertStop s k v w w' f := by
  refine insert_of_slot hcb.follows hw
    ((guardedSlot_ends hcb hw).imp (fun r w₁ h => ?_) fun f w' h => ?_)
  · obtain ⟨hrest, t, hgrown, hroom, hstored⟩ := h
    -- the pair is stored by now, so a hook that gives up does not undo it
    refine releaseRemoved_ends.imp (fun _ w' h => ?_) (fun f w' h => ?_)
    · refine ⟨hrest.trans h.2.sameRest, t, r, hgrown, hroom, ?_⟩
      rw [h.2.table_eq]
      exact hstored
    · refine ⟨hrest.trans h.1.sameRest, .hook (r := r) hgrown hroom ?_ (h.2.of_sameRest hrest)⟩
      rw [h.1.table_eq]
      exact hstored
  · exact ⟨h.1, .slot h.2⟩

/-! ## Removals -/

theorem removeAt_ends (hw : w.table.Bounded) :
    (removeAt i).Ends w
      (fun r w' => w.SameRest w' ∧
        ((w.table.entryAt? i = none ∧ r = none ∧ w'.table = w.table) ∨
          w.table.Removed (some i) r w'.table))
      fun _ _ => False := by
  unfold removeAt
  rw [ends_onTable]
  refine (Table.bury_ends hw).imp (fun r t' h => ?_) (fun _ _ h => h)
  exact ⟨sameRest_withTable (.refl w), h⟩

/-- A removal that returns has taken out the entry that a lookup finds. -/
theorem remove_ends (hcb : cb.Plain s) (hw : w.table.Bounded) :
    (remove cb k).Ends w
      (fun r w' => w.SameRest w' ∧ ∃ i?, w.table.plainFind s k = .ok i? ∧
        w.table.Removed i? r w'.table)
      fun f w' => LookupFault s k w f ∧ w.SameButClient w' := by
  unfold remove
  rw [ends_bind]
  refine (locate_ends hcb).imp (fun i? w₁ h => ?_) (fun _ _ h => h)
  obtain ⟨hfind, hw₁⟩ := h
  cases i? with
  | none =>
    refine ⟨hw₁.sameRest, none, hfind, ?_⟩
    rw [hw₁.table_eq]
    exact .nothing
  | some i =>
    obtain ⟨e, he, _⟩ := Table.entry_of_plainFind hfind
    have hbounded : w₁.table.Bounded := hw₁.table_eq ▸ hw
    refine (removeAt_ends hbounded).imp (fun r w₂ h => ?_) (fun _ _ h => h.elim)
    rw [hw₁.table_eq] at h
    -- a bucket that a lookup has found cannot be free
    obtain ⟨hrest, ⟨hnone, _⟩ | hremoved⟩ := h
    · rw [he] at hnone; exact absurd hnone (by simp)
    · exact ⟨hw₁.sameRest.trans hrest, some i, hfind, hremoved⟩

/-- An erasure that returns has removed an entry and says so. -/
theorem erase_ends (hcb : cb.Plain s) (hw : w.AtRest) :
    (erase cb k).Ends w
      (fun b w' => w.SameRest w' ∧ ∃ i? r, w.table.plainFind s k = .ok i? ∧
        w.table.Removed i? r w'.table ∧ b = r.isSome)
      fun f w' => Evolves s w w' ∧ Cause s w w' f := by
  unfold erase
  rw [ends_bind]
  refine (remove_ends hcb hw.bounded).imp (fun r w₁ h => ?_) (fun f w₁ h => ?_)
  · obtain ⟨hrest, i?, hfind, hremoved⟩ := h
    have hevolves : Evolves s w w₁ := ⟨hrest, hremoved.steps⟩
    -- the entry is out of the table before the hooks see it
    refine releaseRemoved_ends.imp (fun b w₂ h => ?_) (fun f w₂ h => ?_)
    · obtain ⟨hb, hw₂⟩ := h
      refine ⟨hrest.trans hw₂.sameRest, i?, r, hfind, ?_, hb⟩
      rw [hw₂.table_eq]
      exact hremoved
    · exact ⟨hevolves.trans h.1.evolves, (Cause.hook h.2).of_evolves hevolves⟩
  · exact ⟨h.2.evolves, h.1.cause hw.probing_eq h.2.table_eq⟩

/-- The entry that a call takes is not shown to the hooks. -/
theorem take_ends (hcb : cb.Plain s) (hw : w.table.Bounded) :
    (take cb k).Ends w
      (fun p w' => w.SameRest w' ∧ ∃ i? r, w.table.plainFind s k = .ok i? ∧
        w.table.Removed i? r w'.table ∧ p = r.map Entry.pair)
      fun f w' => LookupFault s k w f ∧ w.SameButClient w' := by
  unfold take
  rw [ends_bind]
  refine (remove_ends hcb hw).imp (fun r w₁ h => ?_) (fun _ _ h => h)
  obtain ⟨hrest, i?, hfind, hremoved⟩ := h
  exact ⟨hrest, i?, r, hfind, hremoved, rfl⟩

/-! ## Changes in place -/

/-- An update that returns has changed the value of the entry that a lookup finds. -/
theorem update_ends (hcb : cb.Plain s) {f : V → V} :
    (update cb k f).Ends w
      (fun v? w' => w.SameRest w' ∧ ∃ i?, w.table.plainFind s k = .ok i? ∧
        w.table.Updated f i? v? w'.table)
      fun f w' => LookupFault s k w f ∧ w.SameButClient w' := by
  unfold update
  rw [ends_bind]
  refine (locate_ends hcb).imp (fun i? w₁ h => ?_) (fun _ _ h => h)
  obtain ⟨hfind, hw₁⟩ := h
  cases i? with
  | none =>
    refine ⟨hw₁.sameRest, none, hfind, ?_⟩
    rw [hw₁.table_eq]
    exact .nothing
  | some i =>
    obtain ⟨e, he, _⟩ := Table.entry_of_plainFind hfind
    have hbucket := Table.bucketAt_of_getElem? (Table.entryAt?_eq_some_iff.mp he)
    simp only [ends_bind, ends_get, ends_discard, hw₁.table_eq, hbucket, ends_lift_ok,
      ends_onTable]
    refine Table.updateAt_ends.imp (fun v? t' h => ?_) (fun _ _ h => h.elim)
    rcases h with ⟨hnone, _⟩ | hupdated
    · rw [he] at hnone; exact absurd hnone (by simp)
    · exact ⟨sameRest_withTable hw₁.sameRest, some i, hfind, hupdated⟩

end World

end OpenAddressing
