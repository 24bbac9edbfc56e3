import OpenAddressing.Proofs.Sessions
import OpenAddressing.Proofs.Targets

/-!
# Where entries stay

Unless the array is rebuilt, an entry stays in its bucket for as long as it is in the map.
A request either takes nothing out, and then every entry stays where it is or gives way to
one with an equal key (`Table.Retains`); or it puts nothing in, and then every bucket stays
as it is or becomes free (`Table.Drains`). No request does both, so that a bucket is never
emptied and filled again by one request.

A rebuild takes a new block from the heap, and this is how it is told apart from all other
requests but snapshots: `Session.Rebuilds`.
-/

namespace OpenAddressing

open Act

/-- The entry may have become the other one in its bucket: the hash is the same, and the key
is the same or has given way to an equal one, time and again. -/
def Entry.Renewed {K V : Type} (s : Strategy K) : Entry K V → Entry K V → Prop :=
  Relation.ReflTransGen fun a b =>
    b.hash = a.hash ∧ (b.key = a.key ∨ s.equals b.key a.key = true)

namespace Table

variable {K V : Type} {s : Strategy K} {t t' t'' : Table K V} {i : Nat} {e : Entry K V}

/-- Nothing has left the table. -/
structure Retains (s : Strategy K) (t t' : Table K V) : Prop where
  capacity_eq : t'.capacity = t.capacity
  stays : ∀ i e, t.entryAt? i = some e → ∃ e', t'.entryAt? i = some e' ∧ e.Renewed s e'

/-- Nothing has come into the table. -/
structure Drains (t t' : Table K V) : Prop where
  capacity_eq : t'.capacity = t.capacity
  leaves : ∀ i, t'.entryAt? i = t.entryAt? i ∨ t'.entryAt? i = none

/-- Entries stay where they are: nothing has left, or nothing has come. -/
inductive Kept (s : Strategy K) (t t' : Table K V) : Prop where
  | retains : Retains s t t' → Kept s t t'
  | drains : Drains t t' → Kept s t t'

theorem Retains.refl (t : Table K V) : Retains s t t := ⟨rfl, fun _ e he => ⟨e, he, .refl⟩⟩

theorem Retains.trans (h : Retains s t t') (h' : Retains s t' t'') : Retains s t t'' where
  capacity_eq := h'.capacity_eq.trans h.capacity_eq
  stays := by
    intro i e he
    obtain ⟨e', he', hrenewed⟩ := h.stays i e he
    obtain ⟨e'', he'', hrenewed'⟩ := h'.stays i e' he'
    exact ⟨e'', he'', hrenewed.trans hrenewed'⟩

theorem Drains.refl (t : Table K V) : Drains t t := ⟨rfl, fun _ => Or.inl rfl⟩

theorem Drains.of_eq (h : t' = t) : Drains t t' := h ▸ .refl t'

theorem Drains.trans (h : Drains t t') (h' : Drains t' t'') : Drains t t'' where
  capacity_eq := h'.capacity_eq.trans h.capacity_eq
  leaves := by
    intro i
    rcases h'.leaves i with heq | hnone
    · rw [heq]; exact h.leaves i
    · exact Or.inr hnone

theorem Kept.of_eq (h : t' = t) : Kept s t t' := h ▸ .retains (.refl t')

theorem Kept.capacity_eq (h : Kept s t t') : t'.capacity = t.capacity := by
  cases h with
  | retains h => exact h.capacity_eq
  | drains h => exact h.capacity_eq

/-- An entry that has not left the table is where it was. -/
theorem Kept.renewed (h : Kept s t t') (he : t.entryAt? i = some e)
    (hfull : t'.entryAt? i ≠ none) : ∃ e', t'.entryAt? i = some e' ∧ e.Renewed s e' := by
  cases h with
  | retains h => exact h.stays i e he
  | drains h =>
    have hsame := (h.leaves i).resolve_right hfull
    exact ⟨e, hsame.trans he, .refl⟩

/-- Another entry in the place of one, and no other change. -/
theorem retains_setBucket {e' : Entry K V} (he : t.entryAt? i = some e) (h : e.Renewed s e') :
    Retains s t (t.setBucket i (.full e')) where
  capacity_eq := capacity_setBucket
  stays := by
    intro j a ha
    rw [entryAt?_setBucket (lt_capacity_of_entryAt? he)]
    by_cases hij : i = j
    · subst hij
      have hae : e = a := Option.some.inj (he.symm.trans ha)
      subst hae
      exact ⟨e', if_pos rfl, h⟩
    · exact ⟨a, (if_neg hij).trans ha, .refl⟩

theorem drains_setBucket {b : Bucket K V} (hi : i < t.capacity) (hb : b.entry? = none) :
    Drains t (t.setBucket i b) where
  capacity_eq := capacity_setBucket
  leaves := by
    intro j
    rw [entryAt?_setBucket hi]
    split
    · exact Or.inr hb
    · exact Or.inl rfl

theorem drains_vacated {n : Nat} : Drains t (t.vacated n) where
  capacity_eq := capacity_vacated
  leaves := by
    intro i
    rw [entryAt?_vacated]
    split
    · exact Or.inr rfl
    · exact Or.inl rfl

theorem drains_blank : Drains t (blank t.capacity) where
  capacity_eq := capacity_blank
  leaves := fun _ => Or.inr entryAt?_blank

theorem Stored.retains {k : K} {v : V} {r : Option (Entry K V)} (h : Stored s k v t r t') :
    Retains s t t' := by
  cases h with
  | @fill i reused hslot =>
    -- the bucket was free, so the entries are all in other ones
    have hfree := (plainAcquire_vacant hslot).1
    refine ⟨capacity_fillAt, fun j a ha => ⟨a, ?_, .refl⟩⟩
    have hij : i ≠ j := by
      rintro rfl
      rw [entryAt?_of_getElem? hfree] at ha
      cases reused <;> exact absurd ha (by simp)
    show (t.setBucket i _).entryAt? j = some a
    rw [entryAt?_setBucket (lt_capacity_of_getElem? hfree), if_neg hij, ha]
  | @replace i old hslot hold =>
    obtain ⟨e, he, hhash, hkey⟩ := plainAcquire_occupied hslot
    have hoe : old = e := Option.some.inj (hold.symm.trans he)
    subst hoe
    exact retains_setBucket hold (.single ⟨hhash.symm, Or.inr hkey⟩)

theorem Removed.drains {i? : Option Nat} {r : Option (Entry K V)} (h : Removed t i? r t') :
    Drains t t' := by
  cases h with
  | nothing => exact .refl t
  | @entry i e he =>
    have h : Drains t (t.setBucket i .tombstone) :=
      drains_setBucket (lt_capacity_of_entryAt? he) rfl
    exact ⟨h.capacity_eq, h.leaves⟩

theorem Updated.retains {f : V → V} {i? : Option Nat} {v? : Option V}
    (h : Updated f t i? v? t') : Retains s t t' := by
  cases h with
  | nothing => exact .refl t
  | entry he => exact retains_setBucket he (.single ⟨rfl, Or.inl rfl⟩)

theorem updateAt_retains {f : V → V} :
    (updateAt i f).Ends t (fun _ t' => Retains s t t') fun _ _ => False := by
  refine updateAt_ends.imp (fun v? t' h => ?_) (fun _ _ h => h)
  rcases h with ⟨_, _, rfl⟩ | hupdated
  · exact .refl t'
  · exact hupdated.retains

theorem updateAll_retains {f : V → V} {is : List Nat} :
    (updateAll f is).Ends t (fun _ t' => Retains s t t') fun _ _ => False := by
  unfold updateAll
  refine ends_forM (I := fun _ t' => Retains s t t') (.refl t) fun _ _ _ t' _ h => ?_
  rw [ends_discard]
  exact updateAt_retains.imp (fun _ _ h' => h.trans h') (fun _ _ h' => h')

end Table

namespace World

variable {K V τ α β : Type} {cb : Callbacks K V τ} {s : Strategy K} {w w' w'' : World K V τ}
  {k : K} {v : V}

/-! ## Removals -/

/-- From a world at rest, the act evolves it and puts nothing into the table. -/
def Depletes (s : Strategy K) (act : Act (World K V τ) α) : Prop :=
  ∀ w, w.AtRest → act.Ends w (fun _ w' => Evolves s w w' ∧ Table.Drains w.table w'.table)
    fun _ w' => Evolves s w w' ∧ Table.Drains w.table w'.table

theorem Depletes.of_regular {act : Act (World K V τ) α} (hreg : Regular s act)
    (h : ∀ w, w.AtRest → act.Ends w (fun _ w' => Table.Drains w.table w'.table)
      fun _ w' => Table.Drains w.table w'.table) : Depletes s act := by
  intro w hw
  exact ((hreg w hw).and (h w hw)).imp (fun _ _ h => h) (fun _ _ h => ⟨h.1.1, h.2⟩)

theorem depletes_pure {a : α} : Depletes s (pure a : Act (World K V τ) α) :=
  fun w _ => ⟨.refl w, .refl w.table⟩

theorem depletes_lift {r : Except Fault α} : Depletes s (lift r : Act (World K V τ) α) := by
  cases r with
  | ok a => exact depletes_pure
  | error f => exact fun w _ => ⟨.refl w, .refl w.table⟩

theorem Depletes.bind {x : Act (World K V τ) β} {g : β → Act (World K V τ) α}
    (hx : Depletes s x) (hg : ∀ b, Depletes s (g b)) : Depletes s (x >>= g) := by
  intro w hw
  rw [ends_bind]
  refine (hx w hw).imp (fun b w' h => ?_) (fun _ _ h => h)
  refine (hg b w' (h.1.atRest hw)).imp (fun _ _ h' => ?_) (fun _ _ h' => ?_)
  · exact ⟨h.1.trans h'.1, h.2.trans h'.2⟩
  · exact ⟨h.1.trans h'.1, h.2.trans h'.2⟩

theorem Depletes.get {g : World K V τ → Act (World K V τ) α} (hg : ∀ w, Depletes s (g w)) :
    Depletes s (get >>= g) := by
  intro w hw
  rw [ends_bind, ends_get]
  exact hg w w hw

theorem Depletes.onlyIf {p : Prop} [Decidable p] {act : Act (World K V τ) Unit}
    (h : Depletes s act) : Depletes s (Act.onlyIf p act) :=
  Act.onlyIf_of h depletes_pure

theorem Depletes.discard {act : Act (World K V τ) α} (h : Depletes s act) :
    Depletes s (Functor.discard act) := by
  intro w hw
  rw [ends_discard]
  exact h w hw

theorem Depletes.mapM {xs : List β} {g : β → Act (World K V τ) α}
    (hg : ∀ b, Depletes s (g b)) : Depletes s (xs.mapM g) := by
  induction xs with
  | nil => rw [List.mapM_nil]; exact depletes_pure
  | cons x xs ih =>
    rw [List.mapM_cons]
    exact (hg x).bind fun _ => ih.bind fun _ => depletes_pure

theorem remove_depletes (hcb : cb.Plain s) : Depletes s (remove cb k) := by
  intro w hw
  refine (remove_ends hcb hw.bounded).imp (fun r w' h => ?_) (fun f w' h => ?_)
  · obtain ⟨hrest, i?, _, hremoved⟩ := h
    exact ⟨⟨hrest, hremoved.steps⟩, hremoved.drains⟩
  · exact ⟨h.2.evolves, .of_eq h.2.table_eq⟩

theorem removeAt_depletes {i : Nat} :
    Depletes s (removeAt i : Act (World K V τ) (Option (Entry K V))) := by
  refine .of_regular removeAt_regular fun w hw => ?_
  refine (removeAt_ends hw.bounded).imp (fun r w' h => ?_) (fun _ _ h => h.elim)
  rcases h.2 with ⟨_, _, ht⟩ | hremoved
  · exact .of_eq ht
  · exact hremoved.drains

theorem releaseRemoved_depletes {r : Option (Entry K V)} :
    Depletes s (releaseRemoved r : Act (World K V τ) Bool) := by
  intro w _
  refine releaseRemoved_ends.imp (fun _ w' h => ?_) (fun _ w' h => ?_)
  · exact ⟨h.2.evolves, .of_eq h.2.table_eq⟩
  · exact ⟨h.1.evolves, .of_eq h.1.table_eq⟩

theorem erase_depletes (hcb : cb.Plain s) : Depletes s (erase cb k) :=
  (remove_depletes hcb).bind fun _ => releaseRemoved_depletes

theorem take_depletes (hcb : cb.Plain s) : Depletes s (take cb k) :=
  (remove_depletes hcb).bind fun _ => depletes_pure

/-! ## Rebuilds -/

/-- Nothing has happened to the table and the heap, or a block has been taken. -/
def Settled (w w' : World K V τ) : Prop :=
  (w'.table = w.table ∧ w'.heap = w.heap) ∨ w.heap.allocated < w'.heap.allocated

theorem Settled.refl (w : World K V τ) : w.Settled w := Or.inl ⟨rfl, rfl⟩

/-- A demand is met by a rebuild, or nothing happens. -/
theorem meet_settles (hkeeps : cb.Keeps fun w => w.heap) (hw : w.table.Bounded) (d : Demand) :
    (meet cb d).Ends w (fun _ w' => w.Settled w') fun _ w' => w.Settled w' := by
  have htaken : ∀ w' : World K V τ,
      w'.heap = w.heap.allocate.freeBuckets w.table.capacity → w.Settled w' := by
    intro w' hheap
    refine Or.inr ?_
    rw [hheap, Heap.allocated_freeBuckets]
    exact Nat.lt_succ_self _
  unfold Ends
  rw [meet_eq hw]
  cases w.table.target d with
  | none => exact .refl w
  | some c =>
    rcases Nat.lt_or_ge c cb.limit.capacity with hlim | hge
    · exact (rebuild_heap hkeeps hlim).imp (fun _ w' h => htaken w' h) (fun _ w' h => htaken w' h)
    · have hrun : rebuildAt cb (some c) w = .error .capacityOverflow w := rebuild_of_limit_le hge
      rw [hrun]
      exact .refl w

/-! ## Insertions -/

/-- No block is given back, and if none has been taken then nothing has left the table. -/
structure Anchored (s : Strategy K) (w w' : World K V τ) : Prop where
  allocated_le : w.heap.allocated ≤ w'.heap.allocated
  retains : w'.heap.allocated = w.heap.allocated → Table.Retains s w.table w'.table

theorem Anchored.refl (w : World K V τ) : w.Anchored s w := ⟨Nat.le_refl _, fun _ => .refl _⟩

theorem Anchored.trans (h : w.Anchored s w') (h' : w'.Anchored s w'') : w.Anchored s w'' where
  allocated_le := Nat.le_trans h.allocated_le h'.allocated_le
  retains := by
    intro heq
    have hle := h.allocated_le
    have hle' := h'.allocated_le
    exact (h.retains (by omega)).trans (h'.retains (by omega))

theorem Settled.anchored (h : w.Settled w') : w.Anchored s w' := by
  rcases h with ⟨ht, hheap⟩ | hlt
  · refine ⟨by rw [hheap], fun _ => ?_⟩
    rw [ht]
    exact .refl _
  · exact ⟨by omega, fun heq => by omega⟩

theorem SameButClient.anchored (h : w.SameButClient w') : w.Anchored s w' :=
  Settled.anchored (Or.inl ⟨h.table_eq, h.heap_eq⟩)

/-- The mark of a running search does not matter. -/
theorem Anchored.unmark (h : World.Anchored s { w with probing := true } w') :
    w.Anchored s { w' with probing := false } := ⟨h.allocated_le, h.retains⟩

theorem Stored.anchored {r : Option (Entry K V)} (h : w.table.Stored s k v r w'.table)
    (hheap : w'.heap = w.heap) : w.Anchored s w' :=
  ⟨by rw [hheap], fun _ => h.retains⟩

/-- An insertion settles, and if it returns then it has stored its pair after that. -/
theorem insert_settles (hcb : cb.Plain s) (hkeeps : cb.Keeps fun w => w.heap) (hw : w.AtRest) :
    (insert cb k v).Ends w
      (fun _ w' => ∃ w₁ r, w.Settled w₁ ∧ w₁.table.Roomy ∧ w₁.table.Stored s k v r w'.table ∧
        w'.heap = w₁.heap)
      fun _ w' => w.Anchored s w' := by
  let w₀ : World K V τ := { w with probing := true }
  refine insert_of_room hcb hw (J := fun w₁ => w₀.Settled w₁) ?_ ?_ ?_
  · have hsettles : (makeRoom cb).Ends w₀ (fun _ w₁ => w₀.Settled w₁) fun _ w₁ => w₀.Settled w₁ :=
      meet_settles (w := w₀) hkeeps hw.bounded .insertion
    have hends := hsettles.and (makeRoom_ends hcb (w := w₀) hw.bounded)
    refine hends.imp (fun _ w₁ h => ?_) (fun _ w₁ h => h.1.anchored.unmark)
    obtain ⟨hsettled, _, hgrown, hroom⟩ := h
    exact ⟨hsettled, hgrown.steps.bounded hw.bounded, hroom⟩
  · intro f w₁ w₂ hsettled hsame _
    exact (hsettled.anchored.trans hsame.anchored).unmark
  · intro r w₁ w₂ hsettled hroomy _ hheap hstored
    have hback := (hsettled.anchored.trans (Stored.anchored hstored hheap)).unmark
    refine releaseRemoved_ends.imp (fun _ w₃ h => ?_) (fun _ _ h => hback.trans h.1.anchored)
    refine ⟨w₁, r, hsettled, hroomy, ?_, ?_⟩
    · rw [h.2.table_eq]
      exact hstored
    · rw [h.2.heap_eq]
      exact hheap

theorem insert_anchored (hcb : cb.Plain s) (hkeeps : cb.Keeps fun w => w.heap) (hw : w.AtRest) :
    (insert cb k v).Ends w (fun _ w' => w.Anchored s w') fun _ w' => w.Anchored s w' := by
  refine (insert_settles hcb hkeeps hw).imp (fun _ w' h => ?_) (fun _ _ h => h)
  obtain ⟨w₁, r, hsettled, _, hstored, hheap⟩ := h
  exact hsettled.anchored.trans (Stored.anchored hstored hheap)

theorem insertAll_anchored (hcb : cb.Plain s) (hkeeps : cb.Keeps fun w => w.heap)
    {items : List (K × V)} (hw : w.AtRest) :
    (insertAll cb items).Ends w (fun _ w' => w.Anchored s w') fun _ w' => w.Anchored s w' := by
  have hloop : (insertAll cb items).Ends w (fun _ w' => w'.AtRest ∧ w.Anchored s w')
      fun _ w' => w.Anchored s w' := by
    refine ends_forM (I := fun _ w' => w'.AtRest ∧ w.Anchored s w') ⟨hw, .refl w⟩ ?_
    rintro pre ⟨k, v⟩ post w₁ _ ⟨hw₁, hanchored⟩
    refine ((insert_regular hcb (k := k) (v := v) w₁ hw₁).and
      (insert_anchored hcb hkeeps hw₁)).imp (fun _ w₂ h => ?_) (fun _ w₂ h => ?_)
    · exact ⟨h.1.atRest hw₁, hanchored.trans h.2⟩
    · exact hanchored.trans h.2
  exact hloop.imp (fun _ _ h => h.2) (fun _ _ h => h)

/-! ## Updates in place -/

theorem update_kept (hcb : cb.Plain s) {f : V → V} :
    (update cb k f).Ends w (fun _ w' => Table.Kept s w.table w'.table)
      fun _ w' => Table.Kept s w.table w'.table := by
  refine (update_ends hcb).imp (fun v? w' h => ?_) (fun _ w' h => ?_)
  · obtain ⟨_, i?, _, hupdated⟩ := h
    exact .retains hupdated.retains
  · exact .of_eq h.2.table_eq

end World

namespace Cursor

open World

variable {K V τ : Type} {s : Strategy K} {c : Cursor}

theorem erase_depletes : Depletes s (c.erase : Act (World K V τ) Bool) :=
  removeAt_depletes.bind fun _ => releaseRemoved_depletes

theorem take_depletes : Depletes s (c.take : Act (World K V τ) (Option (K × V))) :=
  removeAt_depletes.bind fun _ => depletes_pure

theorem sweep_depletes {stride n visited : Nat} :
    Depletes s (sweep stride n visited c : Act (World K V τ) (List K)) := by
  induction n generalizing visited c with
  | zero => exact depletes_pure
  | succ n ih =>
    rw [sweep]
    refine Depletes.get fun w => ?_
    dsimp only
    split
    · exact depletes_pure
    · refine (Depletes.onlyIf erase_depletes.discard).bind fun _ => ?_
      exact Depletes.get fun _ => depletes_lift.bind fun _ => ih.bind fun _ => depletes_pure

end Cursor

/-! ## Requests -/

/-- The request is for a snapshot. -/
def Request.isSnapshot {K V : Type} : Request K V → Bool
  | .snapshot _ _ => true
  | _ => false

namespace Session

open World

variable {K V α : Type} {s : Strategy K} {session session' : Session K V} {r : Request K V}

/-- The request takes a new array for the buckets. A snapshot takes a block, too, but not
for buckets. -/
def Rebuilds (s : Strategy K) (r : Request K V) (session : Session K V) : Prop :=
  r.isSnapshot = false ∧
    (step s r session).2.world.heap.allocated ≠ session.world.heap.allocated

instance : Decidable (Rebuilds s r session) := by
  unfold Rebuilds; infer_instance

/-- Unless an array has been taken, the entries are where they were. -/
def Stays (s : Strategy K) (r : Request K V) (session session' : Session K V) : Prop :=
  (r.isSnapshot = false → session'.world.heap.allocated = session.world.heap.allocated) →
    Table.Kept s session.world.table session'.world.table

theorem stays_of_kept {act : Act (World K V (Journal K V)) α} {g : α → Reply K V}
    (h : act.Ends session.world (fun _ w => Table.Kept s session.world.table w.table)
      fun _ w => Table.Kept s session.world.table w.table) :
    (onWorld (act >>= fun a => pure (g a))).Ends session
      (fun _ session' => Stays s r session session')
      fun _ session' => Stays s r session session' := by
  rw [ends_onWorld, ends_bind]
  exact h.imp (fun _ _ h _ => h) (fun _ _ h _ => h)

theorem stays_of_keeps {act : Act (World K V (Journal K V)) α} {g : α → Reply K V}
    (h : Keeps (fun w => w.table) act) :
    (onWorld (act >>= fun a => pure (g a))).Ends session
      (fun _ session' => Stays s r session session')
      fun _ session' => Stays s r session session' := by
  exact stays_of_kept ((h session.world).imp (fun _ _ ht => .of_eq ht) (fun _ _ ht => .of_eq ht))

theorem stays_of_depletes {act : Act (World K V (Journal K V)) α} {g : α → Reply K V}
    (hw : session.world.AtRest) (h : Depletes s act) :
    (onWorld (act >>= fun a => pure (g a))).Ends session
      (fun _ session' => Stays s r session session')
      fun _ session' => Stays s r session session' :=
  stays_of_kept ((h session.world hw).imp (fun _ _ h => .drains h.2) (fun _ _ h => .drains h.2))

theorem stays_of_anchored {act : Act (World K V (Journal K V)) α} {g : α → Reply K V}
    (hr : r.isSnapshot = false)
    (h : act.Ends session.world (fun _ w => session.world.Anchored s w)
      fun _ w => session.world.Anchored s w) :
    (onWorld (act >>= fun a => pure (g a))).Ends session
      (fun _ session' => Stays s r session session')
      fun _ session' => Stays s r session session' := by
  rw [ends_onWorld, ends_bind]
  exact h.imp (fun _ _ h hsame => .retains (h.retains (hsame hr)))
    (fun _ _ h hsame => .retains (h.retains (hsame hr)))

theorem stays_of_table_eq (h : session'.world.table = session.world.table) :
    Stays s r session session' := fun _ => .of_eq h

/-- Whatever comes of it, a request that does not take a new array leaves the entries where
they are. -/
theorem handle_stays (hw : session.world.AtRest) :
    (handle s r).Ends session (fun _ session' => Stays s r session session')
      fun _ session' => Stays s r session session' := by
  have hcb : (s.callbacks : Callbacks K V (Journal K V)).Plain s := s.callbacks_plain
  have htable : (s.callbacks : Callbacks K V (Journal K V)).Keeps fun w => w.table :=
    Strategy.callbacks_keeps fun _ _ _ => rfl
  have hheap : (s.callbacks : Callbacks K V (Journal K V)).Keeps fun w => w.heap :=
    Strategy.callbacks_keeps fun _ _ _ => rfl
  have hmark : IgnoresMark fun w : World K V (Journal K V) => w.table := fun _ _ => rfl
  cases r with
  | lookup l => exact stays_of_keeps (answer_keeps hmark htable)
  | nested l via inquiry =>
    refine ends_onWorld.mpr ?_
    rw [ends_bind]
    refine answerNested_still.imp (fun _ _ h => ?_) (fun _ _ h => h.elim)
    exact stays_of_table_eq h.2
  | getEach ks => exact stays_of_keeps (.mapM fun _ => get?_keeps hmark htable)
  | containsEach ks => exact stays_of_keeps (.mapM fun _ => contains_keeps hmark htable)
  | update k f => exact stays_of_kept (World.update_kept hcb)
  | insert k v => exact stays_of_anchored rfl (insert_anchored hcb hheap hw)
  | insertAll ps => exact stays_of_anchored rfl (insertAll_anchored hcb hheap hw)
  | erase k => exact stays_of_depletes hw (World.erase_depletes hcb)
  | eraseEach ks => exact stays_of_depletes hw (.mapM fun _ => World.erase_depletes hcb)
  | take k => exact stays_of_depletes hw (World.take_depletes hcb)
  | rehash capacity =>
    refine stays_of_anchored rfl ((meet_settles hheap hw.bounded (.rehash capacity)).imp ?_ ?_)
    · exact fun _ _ h => h.anchored
    · exact fun _ _ h => h.anchored
  | reserve extra =>
    refine stays_of_anchored rfl ((meet_settles hheap hw.bounded (.reserve extra)).imp ?_ ?_)
    · exact fun _ _ h => h.anchored
    · exact fun _ _ h => h.anchored
  | clear =>
    refine ends_onWorld.mpr ?_
    rw [ends_bind]
    refine (clear_ends hw.bounded.capacity_lt).imp (fun _ w h _ => ?_) (fun _ w h _ => ?_)
    · exact .drains (h.2 ▸ Table.drains_blank)
    · obtain ⟨m, hm⟩ := h.2.1
      exact .drains (hm ▸ Table.drains_vacated)
  | setKeyHook hook => exact stays_of_table_eq rfl
  | setValueHook hook => exact stays_of_table_eq rfl
  | summary => exact stays_of_keeps summary_keeps
  | hash k =>
    unfold handle serve
    exact stays_of_keeps (htable.hash k)
  | equal a b =>
    unfold handle serve
    exact stays_of_keeps (htable.equals a b)
  | probe i capacity =>
    unfold handle serve
    exact stays_of_keeps (htable.probe i capacity)
  | entries => exact stays_of_table_eq rfl
  | items => exact stays_of_keeps items_keeps
  | walk part limit => exact stays_of_keeps walk_keeps
  | updateWalk part limit f =>
    refine ends_onWorld.mpr ?_
    unfold World.updateWalk
    simp only [ends_bind, ends_get, Walk.visit_eq, ends_lift_ok, ends_onTable]
    refine (Table.updateAll_retains (s := s)).imp (fun _ _ h => ?_) (fun _ _ h => h.elim)
    rw [Walk.collect_eq, ends_lift_ok]
    exact fun _ => .retains h
  | snapshot part positions => exact stays_of_keeps (inspectSnapshot_keeps fun _ _ => rfl)
  | cursor c => exact stays_of_table_eq rfl
  | advance c =>
    rw [ends_of_eq (handle_advance hw.bounded.capacity_lt)]
    exact stays_of_table_eq rfl
  | copyCursor c source => exact stays_of_table_eq rfl
  | sameCursor c₁ c₂ => exact stays_of_table_eq rfl
  | look c => exact stays_of_table_eq rfl
  | updateAt c f =>
    refine ends_onWorld.mpr ?_
    unfold Cursor.update
    rw [ends_bind, ends_onTable]
    exact Table.updateAt_retains.imp (fun _ _ h _ => .retains h) (fun _ _ h => h.elim)
  | eraseAt c => exact stays_of_depletes hw Cursor.erase_depletes
  | takeAt c => exact stays_of_depletes hw Cursor.take_depletes
  | sweep stride => exact stays_of_depletes hw (Depletes.get fun _ => Cursor.sweep_depletes)

/-- A request that does not rebuild leaves the entries where they are. -/
theorem kept_of_step (hw : session.world.AtRest) (h : ¬ Rebuilds s r session) :
    Table.Kept s session.world.table (step s r session).2.world.table := by
  have hstays : Stays s r session (step s r session).2 := by
    rcases step_cases (handle_stays (s := s) (r := r) hw) with
      ⟨_, _, hstep, hstays⟩ | ⟨_, _, hstep, hstays⟩
    · rw [hstep]; exact hstays
    · rw [hstep]; exact hstays
  refine hstays fun hsnapshot => ?_
  by_contra hne
  exact h ⟨hsnapshot, hne⟩

end Session

end OpenAddressing
