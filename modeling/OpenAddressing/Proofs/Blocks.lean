import OpenAddressing.Proofs.Growth
import OpenAddressing.Proofs.Snapshots

/-!
# The blocks that a map takes

An array of buckets is one block of the heap, and so is a snapshot for as long as it is held.
What the heap has given out beyond the array is the *surplus* of a world. A rebuild has two
arrays for a while, but it gives the old one back on every exit; so no request changes the
surplus, wherever it stops, and what is given back follows from what is taken
(`World.Takes`).

What a request takes is read off the counters before it: one block if it needs one
(`Request.needsBlock`), unless that would be for too many buckets (`Request.Excessive`), and
then nothing happens at all. Requests that bind a list of pairs are spelled out as the
insertions that they make, as in `OpenAddressing.Proofs.Growth`.

A session knows snapshots only for the time of a request. `Session.Holding` lets them be held
from one request to the next, and released in any order.
-/

namespace OpenAddressing

open Act World

namespace Table

variable {K V : Type} {s : Strategy K} {t t' : Table K V} {d : Demand} {limit : BucketLimit}

/-- The blocks of the array: one, unless there are no buckets. -/
def blocks (t : Table K V) : Nat := if t.capacity = 0 then 0 else 1

theorem blocks_congr (h : t'.capacity = t.capacity) : t'.blocks = t.blocks := by
  unfold blocks
  rw [h]

theorem blocks_of_pos (h : 0 < t.capacity) : t.blocks = 1 := if_neg (by omega)

/-- The blocks that are taken for a demand. -/
def demanded (t : Table K V) (limit : BucketLimit) (d : Demand) : Nat :=
  match t.target d with
  | some c => if c < limit.capacity then 1 else 0
  | none => 0

theorem demanded_of_none (h : t.target d = none) : t.demanded limit d = 0 := by
  unfold demanded
  rw [h]

theorem demanded_of_some {c : Nat} (h : t.target d = some c) :
    t.demanded limit d = if c < limit.capacity then 1 else 0 := by
  unfold demanded
  rw [h]

theorem isSome_target_insertion : (t.target .insertion).isSome ↔
    t.capacity = 0 ∨ 3 * t.capacity ≤ 4 * (t.live + t.tombs + 1) := by
  rw [target_insertion]
  by_cases h0 : t.capacity = 0
  · rw [if_pos h0]
    exact iff_of_true rfl (Or.inl h0)
  · rw [if_neg h0]
    rw [Option.isSome_ite']
    omega

theorem isSome_target_rehash {request : Nat} : (t.target (.rehash request)).isSome ↔
    t.capacity < request ∨ (request = 0 ∧ 0 < t.capacity) := by
  show (World.rehashTarget t.capacity request).isSome ↔ _
  unfold World.rehashTarget
  by_cases hrequest : request = 0
  · rw [if_pos hrequest]
    rw [Option.isSome_ite']
    omega
  · rw [if_neg hrequest]
    rw [Option.isSome_ite']
    omega

theorem isSome_target_reserve {extra : Nat} : (t.target (.reserve extra)).isSome ↔
    0 < extra ∧
      (t.capacity < t.reserved extra ∨ 3 * t.capacity ≤ 4 * (t.live + t.tombs + extra)) := by
  rw [target_reserve]
  by_cases hextra : extra = 0
  · rw [if_pos hextra]
    exact iff_of_false (by simp) (by omega)
  · rw [if_neg hextra]
    by_cases hgrow : t.capacity < t.reserved extra
    · rw [if_pos hgrow]
      exact iff_of_true rfl (by omega)
    · rw [if_neg hgrow]
      rw [Option.isSome_ite']
      omega

/-- A move into a new array that stops leaves the new array. -/
theorem RebuildStop.capacity_eq {c : Nat} {f : Fault} (h : RebuildStop s c t t' f)
    (hc : c < s.limit.capacity) : t'.capacity = c := by
  cases h with
  | overflow hge _ => omega
  | stuck _ _ hpacked _ => exact hpacked.capacity_eq
  | miscount _ hpacked _ => exact hpacked.capacity_eq

end Table

namespace World

variable {K V τ : Type} {cb : Callbacks K V τ} {s : Strategy K} {w w' w'' : World K V τ}
  {d : Demand} {f : Fault} {k : K} {v : V} {part : Part} {m n : Nat}

/-- The blocks in use beside the one for the buckets. -/
def surplus (w : World K V τ) : Int := w.heap.allocated - w.heap.freed - w.table.blocks

/-- `n` blocks have been taken, and as many given back as are not in use any more. -/
structure Takes (n : Nat) (w w' : World K V τ) : Prop where
  allocated_eq : w'.heap.allocated = w.heap.allocated + n
  surplus_eq : w'.surplus = w.surplus

theorem Takes.refl (w : World K V τ) : w.Takes 0 w := ⟨rfl, rfl⟩

theorem Takes.trans (h : w.Takes m w') (h' : w'.Takes n w'') : w.Takes (m + n) w'' where
  allocated_eq := by rw [h'.allocated_eq, h.allocated_eq, Nat.add_assoc]
  surplus_eq := h'.surplus_eq.trans h.surplus_eq

/-- With the same array and the same heap, nothing has been taken. -/
theorem takes_of_heap_eq (hcap : w'.table.capacity = w.table.capacity)
    (hheap : w'.heap = w.heap) : w.Takes 0 w' := by
  refine ⟨by rw [hheap, Nat.add_zero], ?_⟩
  unfold surplus
  rw [hheap, Table.blocks_congr hcap]

theorem Spends.takes (h : w.Spends m w') : w.Takes 0 w' := takes_of_heap_eq h.capacity_eq h.heap_eq

theorem SameButClient.takes (h : w.SameButClient w') : w.Takes 0 w' := h.spends.takes

/-- A new array for the old one. -/
theorem takes_of_renewed (hcap : 0 < w'.table.capacity)
    (hheap : w'.heap = w.heap.allocate.freeBuckets w.table.capacity) : w.Takes 1 w' := by
  refine ⟨by rw [hheap, Heap.allocated_freeBuckets]; rfl, ?_⟩
  unfold surplus
  rw [hheap, Heap.allocated_freeBuckets, Table.blocks_of_pos hcap]
  unfold Heap.freeBuckets Table.blocks
  split
  · show ((w.heap.allocated + 1 : Nat) : Int) - w.heap.freed - 1 = _
    omega
  · show ((w.heap.allocated + 1 : Nat) : Int) - (w.heap.freed + 1 : Nat) - 1 = _
    omega

/-- No array for the old one. -/
theorem takes_of_emptied :
    w.Takes 0 { w with table := {}, heap := w.heap.freeBuckets w.table.capacity } := by
  refine ⟨Heap.allocated_freeBuckets, ?_⟩
  unfold surplus
  rw [Heap.allocated_freeBuckets]
  unfold Heap.freeBuckets Table.blocks
  split
  · rfl
  · show (w.heap.allocated : Int) - (w.heap.freed + 1 : Nat) - 0 = _
    omega

/-! ## Calls -/

theorem Met.takes (h : Met s d w w') : w.Takes (w.table.demanded s.limit d) w' := by
  cases h with
  | asIs htarget hsame =>
    rw [Table.demanded_of_none htarget, hsame]
    exact .refl w
  | rebuilt htarget hc _ hpacked _ hheap =>
    rw [Table.demanded_of_some htarget, if_pos hc]
    refine takes_of_renewed ?_ hheap
    rw [hpacked.capacity_eq]
    exact (Table.le_target htarget).2

theorem Unmet.takes (h : Unmet s d w w' f) : w.Takes (w.table.demanded s.limit d) w' := by
  cases h with
  | refused htarget hge hsame =>
    rw [Table.demanded_of_some htarget, if_neg (by omega), hsame]
    exact .refl w
  | stopped htarget hc _ hstop hheap =>
    rw [Table.demanded_of_some htarget, if_pos hc]
    refine takes_of_renewed ?_ hheap
    rw [hstop.capacity_eq hc]
    exact (Table.le_target htarget).2

/-- An insertion takes what its demand for room does, and nothing after that. -/
theorem insert_takes (hcb : cb.Plain s) (hkeeps : cb.Keeps fun w => w.heap) (hw : w.AtRest) :
    (insert cb k v).Ends w (fun _ w' => w.Takes (w.table.demanded s.limit .insertion) w')
      fun _ w' => w.Takes (w.table.demanded s.limit .insertion) w' := by
  let w₀ : World K V τ := { w with probing := true }
  -- the mark of the running search is no part of the account
  have hunmark : ∀ {n : Nat} {w₁ : World K V τ}, w₀.Takes n w₁ →
      w.Takes n { w₁ with probing := false } := fun h => ⟨h.allocated_eq, h.surplus_eq⟩
  refine insert_of_room hcb hw
    (J := fun w₁ => w₀.Takes (w.table.demanded s.limit .insertion) w₁) ?_ ?_ ?_
  · have hmeet : (makeRoom cb).Ends w₀ (fun _ w₁ => Met s .insertion w₀ w₁)
        fun f w₁ => Unmet s .insertion w₀ w₁ f :=
      meet_ends (w := w₀) hcb hkeeps hw.bounded .insertion
    refine (hmeet.and (makeRoom_ends hcb (w := w₀) hw.bounded)).imp (fun _ w₁ h => ?_)
      (fun _ _ h => hunmark h.1.takes)
    obtain ⟨hmet, _, hgrown, hroomy⟩ := h
    exact ⟨hmet.takes, hgrown.steps.bounded hw.bounded, hroomy⟩
  · intro f w₁ w₂ htakes hsame _
    exact hunmark (htakes.trans hsame.takes)
  · intro r w₁ w₂ htakes _ _ hheap hstored
    have hback := hunmark (htakes.trans (takes_of_heap_eq hstored.capacity_eq hheap))
    exact releaseRemoved_ends.imp (fun _ _ h => hback.trans h.2.takes)
      (fun _ _ h => hback.trans h.1.takes)

/-- A snapshot is one block more, unless it is given up for a wrong count. -/
theorem snapshot_takes (hb : w.table.Bounded) : (snapshot part).Ends w
    (fun shot? w' => w'.table = w.table ∧
      w'.heap.allocated = w.heap.allocated + w.table.blocks ∧
      w'.surplus = w.surplus + shot?.toList.length)
    fun f w' => w'.table = w.table ∧ w.Takes w.table.blocks w' ∧ f ≠ .capacityOverflow := by
  unfold Act.Ends
  rcases snapshot_cases part hb with ⟨h0, hrun⟩ | ⟨hpos, _, hrun⟩ | ⟨hpos, _, hrun⟩
  · have hblocks : w.table.blocks = 0 := if_pos h0
    rw [hrun, hblocks]
    exact ⟨rfl, rfl, (Int.add_zero _).symm⟩
  · have hblocks : w.table.blocks = 1 := if_neg hpos
    rw [hrun, hblocks]
    refine ⟨rfl, rfl, ?_⟩
    unfold surplus
    show ((w.heap.allocated + 1 : Nat) : Int) - w.heap.freed - w.table.blocks =
      (w.heap.allocated : Int) - w.heap.freed - w.table.blocks + (1 : Nat)
    omega
  · have hblocks : w.table.blocks = 1 := if_neg hpos
    rw [hrun, hblocks]
    refine ⟨rfl, ⟨rfl, ?_⟩, by simp⟩
    unfold surplus
    show ((w.heap.allocated + 1 : Nat) : Int) - (w.heap.freed + 1 : Nat) - w.table.blocks = _
    omega

theorem releaseSnapshot_surplus :
    (releaseSnapshot : Act (World K V τ) Unit).Ends w
      (fun _ w' => w'.table = w.table ∧ w'.probing = w.probing ∧
        w'.heap.allocated = w.heap.allocated ∧ w'.surplus = w.surplus - 1) fun _ _ => False := by
  unfold releaseSnapshot
  rw [ends_modify]
  refine ⟨rfl, rfl, rfl, ?_⟩
  unfold surplus
  show (w.heap.allocated : Int) - (w.heap.freed + 1 : Nat) - w.table.blocks = _
  omega

/-- A snapshot that is only looked at goes back at once. -/
theorem inspectSnapshot_takes (hb : w.table.Bounded) {positions : List Nat} :
    (inspectSnapshot part positions).Ends w (fun _ w' => w.Takes w.table.blocks w')
      fun f w' => w.Takes w.table.blocks w' ∧ f ≠ .capacityOverflow := by
  unfold inspectSnapshot
  rw [ends_bind]
  refine (snapshot_takes hb).imp (fun shot? w₁ h => ?_) (fun _ _ h => h.2)
  obtain ⟨_, hallocated, hsurplus⟩ := h
  cases shot? with
  | none => exact ⟨hallocated, hsurplus.trans (Int.add_zero _)⟩
  | some shot =>
    simp only [ends_bind, ends_get]
    refine releaseSnapshot_surplus.imp (fun _ w₂ h => ?_) (fun _ _ h => h.elim)
    obtain ⟨_, _, hallocated', hsurplus'⟩ := h
    rw [shot.report_eq, ends_lift_ok, ends_pure]
    refine ⟨hallocated'.trans hallocated, ?_⟩
    rw [hsurplus', hsurplus]
    show w.surplus + (1 : Nat) - 1 = w.surplus
    omega

end World

/-! ## Requests -/

namespace Request

variable {K V : Type} {t : Table K V} {r : Request K V} {d : Demand} {limit : BucketLimit}

/-- The request is for a block: for an array of more buckets, or of as many again, or for a
snapshot. -/
def needsBlock (t : Table K V) : Request K V → Bool
  | .insert _ _ => decide (t.capacity = 0 ∨ 3 * t.capacity ≤ 4 * (t.live + t.tombs + 1))
  | .rehash request => decide (t.capacity < request ∨ (request = 0 ∧ 0 < t.capacity))
  | .reserve extra => decide (0 < extra ∧
      (t.capacity < t.reserved extra ∨ 3 * t.capacity ≤ 4 * (t.live + t.tombs + extra)))
  | .snapshot _ _ => decide (0 < t.capacity)
  | _ => false

/-- The request is for more buckets than there can be. -/
def Excessive (limit : BucketLimit) (t : Table K V) (r : Request K V) : Prop :=
  ∃ c ∈ r.demand?.bind t.target, limit.capacity ≤ c

instance : Decidable (r.Excessive limit t) := by
  unfold Excessive
  infer_instance

/-- The number of blocks that a single call takes. -/
def blocks (limit : BucketLimit) (t : Table K V) (r : Request K V) : Nat :=
  if r.needsBlock t ∧ ¬ r.Excessive limit t then 1 else 0

theorem blocks_of_not_needsBlock (h : r.needsBlock t = false) : r.blocks limit t = 0 := by
  refine if_neg fun hboth => ?_
  rw [h] at hboth
  exact absurd hboth.1 (by simp)

theorem excessive_iff (hr : r.demand? = some d) :
    r.Excessive limit t ↔ ∃ c ∈ t.target d, limit.capacity ≤ c := by
  unfold Excessive
  rw [hr, Option.bind_some]

/-- A demand needs a block where it leads to a rebuild. -/
theorem needsBlock_iff (hr : r.demand? = some d) : r.needsBlock t ↔ (t.target d).isSome := by
  cases r with
  | insert k v =>
    obtain rfl : Demand.insertion = d := Option.some.inj hr
    exact decide_eq_true_iff.trans Table.isSome_target_insertion.symm
  | rehash request =>
    obtain rfl : Demand.rehash request = d := Option.some.inj hr
    exact decide_eq_true_iff.trans Table.isSome_target_rehash.symm
  | reserve extra =>
    obtain rfl : Demand.reserve extra = d := Option.some.inj hr
    exact decide_eq_true_iff.trans Table.isSome_target_reserve.symm
  | _ => exact absurd hr (by simp [demand?])

theorem blocks_of_demand (hr : r.demand? = some d) : r.blocks limit t = t.demanded limit d := by
  unfold blocks
  simp only [needsBlock_iff hr, excessive_iff hr]
  cases htarget : t.target d with
  | none =>
    rw [Table.demanded_of_none htarget]
    exact if_neg (by simp)
  | some c =>
    rw [Table.demanded_of_some htarget]
    by_cases hc : c < limit.capacity
    · rw [if_pos hc]
      refine if_pos ⟨rfl, ?_⟩
      rintro ⟨c', hc', hge⟩
      obtain rfl := Option.some.inj hc'
      omega
    · rw [if_neg hc]
      exact if_neg fun h => h.2 ⟨c, rfl, by omega⟩

theorem blocks_snapshot {part : Part} {positions : List Nat} :
    (.snapshot part positions : Request K V).blocks limit t = t.blocks := by
  have hexcessive : ¬ (.snapshot part positions : Request K V).Excessive limit t :=
    fun ⟨_, hc, _⟩ => absurd hc (by simp [demand?])
  unfold Table.blocks
  by_cases h0 : t.capacity = 0
  · rw [if_pos h0]
    exact blocks_of_not_needsBlock (decide_eq_false (by omega))
  · rw [if_neg h0]
    exact if_pos ⟨decide_eq_true (Nat.pos_of_ne_zero h0), hexcessive⟩

end Request

namespace Session

variable {K V : Type} {s : Strategy K} {session : Session K V} {r : Request K V}
  {rs : List (Request K V)} {shots : List (Snapshot (View K V))}

theorem takes_of_ends {α : Type} {act : Act (World K V (Journal K V)) α} {g : α → Reply K V}
    {n : Nat} (hr : handle s r session = onWorld (act >>= fun a => pure (g a)) session)
    (h : act.Ends session.world (fun _ w => session.world.Takes n w)
      fun _ w => session.world.Takes n w) :
    session.world.Takes n (step s r session).2.world := by
  cases hrun : act session.world with
  | ok a w =>
    rw [step_of_ok hr hrun]
    exact h.of_ok hrun
  | error f w =>
    rw [step_of_error hr hrun]
    exact h.of_error hrun

theorem Spends.takes {session' : Session K V} (h : Spends r session session')
    (hr : r.isSnapshot = false) : session.world.Takes 0 session'.world :=
  takes_of_heap_eq h.capacity_eq (h.heap_eq hr)

theorem step_takes (hw : session.world.AtRest)
    (hr : r.insertions = if r.isInsert then 1 else 0) :
    session.world.Takes (r.blocks s.limit session.world.table) (step s r session).2.world := by
  have hcb : (s.callbacks : Callbacks K V (Journal K V)).Plain s := s.callbacks_plain
  have hkeeps : (s.callbacks : Callbacks K V (Journal K V)).Keeps fun w => w.heap :=
    Strategy.callbacks_keeps fun _ _ _ => rfl
  have hmeet : ∀ d, (meet s.callbacks d).Ends session.world
      (fun _ w => session.world.Takes (session.world.table.demanded s.limit d) w)
      fun _ w => session.world.Takes (session.world.table.demanded s.limit d) w := fun d =>
    (meet_ends hcb hkeeps hw.bounded d).imp (fun _ _ h => h.takes) (fun _ _ h => h.takes)
  cases r with
  | insert k v =>
    rw [Request.blocks_of_demand rfl]
    exact takes_of_ends (g := fun _ => .done) rfl (insert_takes hcb hkeeps hw)
  | rehash capacity =>
    rw [Request.blocks_of_demand rfl]
    exact takes_of_ends (g := fun _ => .done) rfl (hmeet (.rehash capacity))
  | reserve extra =>
    rw [Request.blocks_of_demand rfl]
    exact takes_of_ends (g := fun _ => .done) rfl (hmeet (.reserve extra))
  | snapshot part positions =>
    rw [Request.blocks_snapshot]
    exact takes_of_ends rfl
      ((inspectSnapshot_takes hw.bounded).imp (fun _ _ h => h) (fun _ _ h => h.1))
  | _ =>
    -- all others get along with the array there is
    rw [Request.blocks_of_not_needsBlock rfl]
    exact (step_spends hw rfl (Or.inl hr)).takes rfl

theorem run_takes (hw : session.world.AtRest)
    (hrs : ∀ r ∈ rs, r.insertions = if r.isInsert then 1 else 0) :
    session.world.Takes
      ((trace s rs session).map fun m => m.2.blocks s.limit m.1.world.table).sum
      (run s rs session).2.world := by
  induction rs generalizing session with
  | nil => exact .refl _
  | cons r rs ih =>
    obtain ⟨hr, hrest⟩ := List.forall_mem_cons.mp hrs
    exact (step_takes (s := s) hw hr).trans (ih (atRest_step hw r) hrest)

/-- Binding a list of pairs takes what the insertions take that it comes to. -/
theorem insertAll_takes (hw : session.world.AtRest) (items : List (K × V)) :
    session.world.Takes
      ((trace s (insertsOf s items session) session).map fun m =>
        m.2.blocks s.limit m.1.world.table).sum
      (step s (.insertAll items) session).2.world := by
  rw [← run_insertsOf]
  exact run_takes hw fun r hr => (single_of_mem_insertsOf hr session).2

/-- An excessive request is refused, and nothing has happened. -/
theorem step_of_excessive (hw : session.world.AtRest)
    (h : r.Excessive s.limit session.world.table) :
    step s r session = (.error .capacityOverflow, session) := by
  cases hr : r.demand? with
  | none =>
    obtain ⟨c, hc, _⟩ := h
    rw [hr] at hc
    exact absurd hc (by simp)
  | some d =>
    obtain ⟨c, htarget, hge⟩ := (Request.excessive_iff hr).mp h
    have hrefused : meet s.callbacks d (session.demanding d) =
        .error .capacityOverflow (session.demanding d) := by
      rw [meet_eq (w := session.demanding d) hw.bounded,
        show (session.demanding d).table.target d = some c from htarget]
      exact rebuild_of_limit_le hge
    rw [step_of_unmet hr hw.probing_eq hrefused rfl]
    show (_, (⟨{ session.world with probing := false }, session.cursors⟩ : Session K V)) = _
    rw [← hw.probing_eq]

/-- A request that needs a block is refused for its capacity only if it is excessive. -/
theorem excessive_of_step (hw : session.world.AtRest) (hneeds : r.needsBlock session.world.table)
    (hstep : (step s r session).1 = .error .capacityOverflow) :
    r.Excessive s.limit session.world.table := by
  cases hr : r.demand? with
  | some d =>
    have hrefused := demand_refused hw hr (Prod.ext hstep rfl)
    exact (Request.excessive_iff hr).mpr hrefused.1
  | none =>
    cases r with
    | snapshot part positions =>
      let inspect : Act (World K V (Journal K V)) _ := inspectSnapshot part positions
      cases hrun : inspect session.world with
      | ok a w =>
        rw [step_of_ok (r := .snapshot part positions) rfl hrun] at hstep
        exact absurd hstep (by simp)
      | error f w =>
        rw [step_of_error (r := .snapshot part positions) (g := .snapshot) rfl hrun] at hstep
        exact absurd (Except.error.inj hstep)
          ((inspectSnapshot_takes hw.bounded).of_error hrun).2
    | insert _ _ => exact absurd hr (by simp [Request.demand?])
    | rehash _ => exact absurd hr (by simp [Request.demand?])
    | reserve _ => exact absurd hr (by simp [Request.demand?])
    | _ => exact absurd hneeds (by simp [Request.needsBlock])

/-! ## Snapshots that are held -/

/-- The sessions that some run comes to, with the snapshots that are held by then. They may
be given back in any order. -/
inductive Holding (s : Strategy K) : List (Snapshot (View K V)) → Session K V → Prop where
  | start {capacity : Nat} {keyHook : Option (Hook (Journal K V) K)}
      {valueHook : Option (Hook (Journal K V) V)} {session : Session K V} :
      Session.start s capacity keyHook valueHook = .ok session → Holding s [] session
  | step {shots : List (Snapshot (View K V))} {session : Session K V} (r : Request K V) :
      Holding s shots session → Holding s shots (Session.step s r session).2
  | taken {shots : List (Snapshot (View K V))} {session : Session K V} {part : Part}
      {shot? : Option (Snapshot (View K V))} {w : World K V (Journal K V)} :
      Holding s shots session → snapshot part session.world = .ok shot? w →
      Holding s (shot?.toList ++ shots) ⟨w, session.cursors⟩
  | missed {shots : List (Snapshot (View K V))} {session : Session K V} {part : Part}
      {f : Fault} {w : World K V (Journal K V)} :
      Holding s shots session → snapshot part session.world = .error f w →
      Holding s shots ⟨w, session.cursors⟩
  | released {pre post : List (Snapshot (View K V))} {shot : Snapshot (View K V)}
      {session : Session K V} {w : World K V (Journal K V)} :
      Holding s (pre ++ shot :: post) session → releaseSnapshot session.world = .ok () w →
      Holding s (pre ++ post) ⟨w, session.cursors⟩

theorem Reachable.holding (h : Reachable s session) : Holding s [] session := by
  induction h with
  | start hstart => exact .start hstart
  | step r _ ih => exact ih.step r

theorem Holding.atRest (h : Holding s shots session) : session.world.AtRest := by
  induction h with
  | start hstart => exact atRest_of_start hstart
  | step r _ ih => exact atRest_step ih r
  | taken _ hshot ih => exact ((snapshot_regular (s := s) _ ih).of_ok hshot).atRest ih
  | missed _ hshot ih => exact ((snapshot_regular (s := s) _ ih).of_error hshot).1.atRest ih
  | released _ hrelease ih =>
    obtain ⟨htable, hprobing, _⟩ := releaseSnapshot_surplus.of_ok hrelease
    refine ⟨?_, hprobing.trans ih.probing_eq⟩
    exact htable ▸ ih.bounded

/-- What the heap has given out beyond the array is what is held. -/
theorem Holding.surplus_eq (h : Holding s shots session) :
    session.world.surplus = shots.length := by
  induction h with
  | start hstart => exact (start_met hstart).takes.surplus_eq
  | @step shots session r hhold ih =>
    refine Eq.trans ?_ ih
    -- only binding a list can take more than one block
    by_cases hr : ∃ items, r = .insertAll items
    · obtain ⟨items, rfl⟩ := hr
      exact (insertAll_takes hhold.atRest items).surplus_eq
    · refine (step_takes hhold.atRest ?_).surplus_eq
      cases r with
      | insertAll items => exact absurd ⟨items, rfl⟩ hr
      | _ => rfl
  | taken hhold hshot ih =>
    obtain ⟨_, _, hsurplus⟩ := (snapshot_takes hhold.atRest.bounded).of_ok hshot
    refine hsurplus.trans ?_
    rw [ih, List.length_append]
    omega
  | missed hhold hshot ih =>
    obtain ⟨_, htakes, _⟩ := (snapshot_takes hhold.atRest.bounded).of_error hshot
    exact htakes.surplus_eq.trans ih
  | released _ hrelease ih =>
    obtain ⟨_, _, _, hsurplus⟩ := releaseSnapshot_surplus.of_ok hrelease
    refine hsurplus.trans ?_
    rw [ih]
    simp only [List.length_append, List.length_cons]
    omega

/-- The end of the map gives the array back, also if a hook gives up. -/
theorem finish_takes (hw : session.world.AtRest) :
    session.world.Takes 0 (finish session).2 ∧ (finish session).2.table.blocks = 0 := by
  have hends : (dispose : Act (World K V (Journal K V)) Unit).Ends session.world
      (fun _ w => session.world.Takes 0 w ∧ w.table.blocks = 0)
      fun _ w => session.world.Takes 0 w ∧ w.table.blocks = 0 := by
    unfold dispose
    rw [ends_andFinally]
    exact (clear_spends hw.bounded.capacity_lt).imp
      (fun _ _ h => ⟨h.takes.trans takes_of_emptied, rfl⟩)
      (fun _ _ h => ⟨h.takes.trans takes_of_emptied, rfl⟩)
  unfold finish
  cases hrun : dispose session.world with
  | ok _ w => exact hends.of_ok hrun
  | error _ w => exact hends.of_error hrun

/-- The heap of a map, at every point of a run in which snapshots may be held, and whatever
requests have been stopped by then:

* The blocks in use are the array, if there is one, and the snapshots that are held. After
  the end of the map only these are left, also if a hook gives up.
* A request that would lead to too many buckets is refused, and nothing has happened. With
  this exception a request that needs a block takes one, whether or not it is stopped later,
  and every other request takes none. Binding a list takes what the insertions take that
  have been made.
* A snapshot that is kept takes one block from a map that has an array, and so does one that
  is given up because the counters were wrong. -/
theorem heap_account (h : Holding s shots session) :
    let t := session.world.table
    let heap := session.world.heap
    (heap.allocated = heap.freed + (if t.capacity = 0 then 0 else 1) + shots.length ∧
      (finish session).2.heap.allocated = heap.allocated ∧
      (finish session).2.heap.allocated = (finish session).2.heap.freed + shots.length) ∧
    (∀ r : Request K V,
      (r.Excessive s.limit t → step s r session = (.error .capacityOverflow, session)) ∧
      (r.needsBlock t → (step s r session).1 = .error .capacityOverflow →
        r.Excessive s.limit t) ∧
      ((∀ items, r ≠ .insertAll items) →
        (step s r session).2.world.heap.allocated =
          heap.allocated + if r.needsBlock t ∧ ¬ r.Excessive s.limit t then 1 else 0)) ∧
    (∀ items : List (K × V), (step s (.insertAll items) session).2.world.heap.allocated =
      heap.allocated + ((trace s (insertsOf s items session) session).map fun m =>
        if m.2.needsBlock m.1.world.table ∧ ¬ m.2.Excessive s.limit m.1.world.table then 1
        else 0).sum) ∧
    ∀ part, (snapshot part).Ends session.world
      (fun _ w => w.heap.allocated = heap.allocated + if t.capacity = 0 then 0 else 1)
      fun f w => w.heap.allocated = heap.allocated + (if t.capacity = 0 then 0 else 1) ∧
        f ≠ .capacityOverflow := by
  intro t heap
  have hw := h.atRest
  have hsurplus := h.surplus_eq
  unfold surplus at hsurplus
  obtain ⟨hfinish, hblocks⟩ := finish_takes hw
  have hleft : (finish session).2.surplus = shots.length := hfinish.surplus_eq.trans h.surplus_eq
  unfold surplus at hleft
  rw [hblocks] at hleft
  refine ⟨⟨?_, hfinish.allocated_eq, by omega⟩, fun r => ⟨step_of_excessive hw,
    excessive_of_step hw, fun hr => ?_⟩, fun items => ?_, fun part => ?_⟩
  · show session.world.heap.allocated =
      session.world.heap.freed + session.world.table.blocks + shots.length
    omega
  · refine (step_takes hw ?_).allocated_eq
    cases r with
    | insertAll items => exact absurd rfl (hr items)
    | _ => rfl
  · exact (insertAll_takes hw items).allocated_eq
  · exact (snapshot_takes hw.bounded).imp (fun _ _ h => h.2.1)
      (fun _ _ h => ⟨h.2.1.allocated_eq, h.2.2⟩)

/-- The stuck probe function stops a rebuild on the way. Then a snapshot is held, or the map
comes to its end, where the key hook gives up. -/
theorem heap_account_stopped :
    let s : Strategy Nat :=
      { hash := fun k => k.toUInt64, equals := fun a b => a == b, probe? := some Probe.stuck }
    let hook : Hook (Journal Nat Nat) Nat := Hook.failing (Hook.recordKey "keys") "no"
    let session₀ : Session Nat Nat :=
      { world := { table := .blank 6, keyHook := some hook, heap := ⟨1, 0⟩, client := [] } }
    let session := (run s [.insert 1 10, .insert 9 90, .rehash 8] session₀).2
    let shot : Snapshot (View Nat Nat) := .ofItems [.key 1]
    let holding : Session Nat Nat :=
      ⟨{ session.world with heap := session.world.heap.allocate }, session.cursors⟩
    Session.start s 6 (some hook) none = .ok session₀ ∧
      session.world.table.entries = [⟨1, 1, 10⟩] ∧ session.world.heap.allocated = 2 ∧
      Holding s [shot] holding ∧ holding.world.heap.allocated = holding.world.heap.freed + 1 + 1 ∧
      (finish session).1.isOk = false ∧
      (finish session).2.heap.allocated = (finish session).2.heap.freed := by
  intro s hook session₀ session shot holding
  have hstart : Session.start s 6 (some hook) none = .ok session₀ := rfl
  have hintact : Intact s session := (Intact.start hstart).run _ (by simp)
  have hpos : session.world.table.capacity ≠ 0 := by decide +kernel
  have hitems : session.world.table.toList.map Part.key.view = [.key 1] := by decide +kernel
  have hshot : snapshot .key session.world = .ok (some shot) holding.world := by
    rw [snapshot_of_exact hintact.reachable.atRest.bounded hintact.sound.exact hpos, hitems]
  have hholding : Holding s [shot] holding := hintact.reachable.holding.taken hshot
  obtain ⟨⟨haccount, _⟩, _⟩ := heap_account hholding
  obtain ⟨⟨_, _, hleft⟩, _⟩ := heap_account hintact.reachable.holding
  have hpos' : holding.world.table.capacity ≠ 0 := by decide +kernel
  rw [if_neg hpos'] at haccount
  rw [List.length_nil, Nat.add_zero] at hleft
  exact ⟨hstart, by decide +kernel, by decide +kernel, hholding, haccount, by decide +kernel, hleft⟩

end Session

end OpenAddressing
