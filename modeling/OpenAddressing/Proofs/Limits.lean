import OpenAddressing.Proofs.Covering
import Mathlib.Algebra.Ring.Nat

/-!
# The checks that never fail

A map guards itself with three kinds of checks. *Internal* ones watch over machine
arithmetic, bucket indexes and what an operation expects to find in a bucket. *Count
checks* compare the counters with what a loop over the buckets has come to. The others
refuse a request: for too many buckets, for a probe function that leads nowhere, for a
lookup from inside a lookup.

The load bound is below three quarters of fewer than `2 ^ 61` buckets, and so every sum
and product that a map makes of its counters and its capacity fits a word. That bound
holds in every served session, whatever has given up before: a hook in the middle of a
clear, the hash or the equality in the middle of an insertion, the probe function in the
middle of a rebuild. Hence no internal check ever fails (`Session.checks_hold`). The count
checks need the counters to be exact, and an interrupted clear is the one thing after which
they are not.

A fault in the name of the client says nothing of the map's own arithmetic, so it has to be
known where it can come from. A search only calls the probe function at the buckets of its
table (`Table.ProbeStops`); beside it there are the hooks, and the callbacks that give up.
-/

namespace OpenAddressing

open Act World

/-- The fault is an overflow, an index out of bounds or a failed assertion about a bucket. -/
def Fault.isInternal : Fault → Bool
  | .addOverflow | .subOverflow | .mulOverflow | .remByZero => true
  | .indexOutOfBounds _ _ => true
  | .unallocated | .overloaded | .wrongBucket _ | .duplicateEntry => true
  | _ => false

/-- The fault is that a loop over the buckets has not come to what the counters say. -/
def Fault.isMiscount : Fault → Bool
  | .clearMiscount _ _ | .rebuildMiscount _ _ | .snapshotMiscount _ _ => true
  | _ => false

namespace Table

variable {K V : Type} {s : Strategy K} {t : Table K V} {f : Fault}

/-- The probe function stops at a bucket of the table. -/
def ProbeStops (s : Strategy K) (t : Table K V) (f : Fault) : Prop :=
  ∃ i < t.capacity, s.probe i t.capacity = .error f

/-- Inside a table the probe function of the map does not stop. The client's may, and then
the fault is the client's. -/
theorem ProbeStops.isClient (h : t.ProbeStops s f) (hlim : t.capacity < capacityLimit) :
    f.isClient = true := by
  obtain ⟨i, hi, hstop⟩ := h
  unfold Strategy.probe at hstop
  cases hs : s.probe? with
  | none =>
    rw [hs] at hstop
    dsimp only at hstop
    rw [Probe.linear_eq hi (Nat.lt_trans hlim (by decide))] at hstop
    exact absurd hstop (by simp)
  | some p =>
    rw [hs] at hstop
    obtain ⟨g, _, rfl⟩ := mapError_eq_error_iff.mp hstop
    rfl

theorem plainStep_stops {i : Nat} (hi : i < t.capacity)
    (h : Seek.plainStep s.probe i t.capacity = .error f) :
    f.isProbing = true ∨ t.ProbeStops s f := by
  rcases Seek.plainStep_eq_error_iff.mp h with hstop | ⟨_, _, _, rfl⟩
  · exact Or.inr ⟨i, hi, hstop⟩
  · exact Or.inl rfl

/-- A search stops because there is no slot, or because of the probe function. -/
theorem plainAcquire_stops {accepts : K → Bool} {hash : UInt64} (hpos : t.capacity ≠ 0)
    (h : Seek.plainAcquire s.probe accepts hash t.buckets = .error f) :
    f.isProbing = true ∨ t.ProbeStops s f := by
  have hhome : Probe.home hash t.capacity < t.capacity := Probe.home_lt (by omega)
  rcases bind_eq_error_iff.mp h with hl | ⟨landing, hl, h⟩
  · obtain ⟨x, hx, hstep⟩ := Seek.exists_plainStep_error hhome hl
    exact plainStep_stops hx hstep
  · rw [(Landing.slot_eq_error_iff.mp h).2]
    exact Or.inl rfl

theorem isClient_of_plainAcquire {accepts : K → Bool} {hash : UInt64}
    (hlim : t.capacity < capacityLimit) (hpos : t.capacity ≠ 0)
    (h : Seek.plainAcquire s.probe accepts hash t.buckets = .error f) :
    f.isProbing = true ∨ f.isClient = true :=
  (plainAcquire_stops hpos h).imp_right fun hstop => hstop.isClient hlim

/-- A rebuild that has begun stops because of a search, or because of a wrong count. -/
theorem RebuildStop.isClient {t' : Table K V} {c : Nat} (h : RebuildStop s c t t' f)
    (hpos : 0 < c) (hc : c < s.limit.capacity) :
    f.isProbing = true ∨ f.isClient = true ∨ f.isMiscount = true := by
  have hlim := s.limit.capacity_le
  cases h with
  | overflow hge _ => omega
  | stuck _ _ hpacked hrun =>
    have hcap := hpacked.capacity_eq
    exact (isClient_of_plainAcquire (t := t') (by omega) (by omega) hrun).imp_right Or.inl
  | miscount _ _ _ => exact Or.inr (Or.inr rfl)

end Table

/-- A fault that may come out of a call on a map at rest: it is no internal one, a miscount only
if the counters are wrong, and not for a search that is running. -/
structure Excused {K V τ : Type} (w : World K V τ) (f : Fault) : Prop where
  internal : f.isInternal = false
  counted : f.isMiscount = true → ¬ w.table.Exact
  unguarded : f ≠ .reentrant

section

variable {K V τ : Type} {s : Strategy K} {w w' : World K V τ} {f : Fault}

theorem Excused.of_not_isMiscount (hinternal : f.isInternal = false)
    (hcounted : f.isMiscount = false) (hunguarded : f ≠ .reentrant) : Excused w f :=
  ⟨hinternal, fun h => absurd (hcounted.symm.trans h) (by simp), hunguarded⟩

theorem Excused.of_isClient (h : f.isClient = true) : Excused w f := by
  cases f with
  | client _ => exact .of_not_isMiscount rfl rfl (by simp)
  | _ => exact absurd h (by simp [Fault.isClient])

theorem Excused.of_isProbing (h : f.isProbing = true ∨ f.isClient = true) : Excused w f := by
  rcases h with hprobing | hclient
  · cases f with
    | probeExhausted _ => exact .of_not_isMiscount rfl rfl (by simp)
    | probeOutOfRange _ _ => exact .of_not_isMiscount rfl rfl (by simp)
    | _ => exact absurd hprobing (by simp [Fault.isProbing])
  · exact .of_isClient hclient

theorem World.Cause.excused (hlim : w'.table.capacity < Table.capacityLimit)
    (h : Cause s w w' f) : Excused w f := by
  cases h with
  | capacity => exact .of_not_isMiscount rfl rfl (by simp)
  | hook hraises => exact .of_isClient hraises.isClient
  | search accepts hash hpos hrun =>
    exact .of_isProbing (Table.isClient_of_plainAcquire hlim hpos hrun)
  | rebuildMiscount hne => exact ⟨rfl, fun _ => hne, by simp⟩
  | snapshotMiscount hne => exact ⟨rfl, fun _ => hne, by simp⟩

theorem World.ClearStop.excused (h : w.ClearStop w' f) : Excused w f := by
  cases h with
  | hook _ hraises _ _ => exact .of_isClient hraises.isClient
  | miscount hne _ =>
    refine ⟨rfl, fun _ hexact => hne ?_, by simp⟩
    rw [Table.length_entries]
    exact hexact.live_eq.symm

/-- The lookup around an inquiry may meet the guard, but no other check. -/
theorem LookupStop.excused {E : Fault → Prop} (hE : ∀ f, E f → f.isClient = true)
    (hlim : w.table.capacity < Table.capacityLimit) (h : LookupStop E s w.table f) :
    f = .reentrant ∨ Excused w f := by
  rcases h with rfl | hgives | ⟨i, hi, hstep⟩
  · exact Or.inl rfl
  · exact Or.inr (.of_isClient (hE f hgives))
  · refine Or.inr (.of_isProbing ((Table.plainStep_stops hi hstep).imp_right fun hstop => ?_))
    exact hstop.isClient hlim

end

namespace Session

variable {K V : Type} {s : Strategy K} {session : Session K V} {r : Request K V}
  {act : Callback → Act (Journal K V) Unit} {t : Table K V} {f : Fault}

/-- The end of a call on the map that meets a fault, with the table that it leaves. The call
is a request, during which the client runs `act` at each call of a callback, or the lookup
around an inquiry, or the end of the map. -/
inductive Meets (s : Strategy K) (act : Callback → Act (Journal K V) Unit)
    (session : Session K V) (f : Fault) : Table K V → Prop where
  | request {r : Request K V} : (∀ i c, r ≠ .probe i c) →
      (tryStep s act r session).1 = .error f →
      Meets s act session f (tryStep s act r session).2.world.table
  | nested {l : Lookup K} {via : Callback} {inquiry : Inquiry K} {inner : InquiryResult} :
      (tryStep s act (.nested l via inquiry) session).1 = .ok (.nested (.error f) inner) →
      Meets s act session f (tryStep s act (.nested l via inquiry) session).2.world.table
  | finish : (finish session).1 = .error f → Meets s act session f (finish session).2.table

/-- Code that the map was handed has given up with the fault, in a call that has left the
table `t`: a hook, a callback at some call of it, or the probe function at a bucket of the
table. -/
inductive ClientRaises (s : Strategy K) (act : Callback → Act (Journal K V) Unit)
    (session : Session K V) (t : Table K V) (f : Fault) : Prop where
  | hook : session.world.HookRaises f → ClientRaises s act session t f
  | callback : GivesUp act f → ClientRaises s act session t f
  | probe : t.ProbeStops s f → ClientRaises s act session t f

/-- A request that is stopped has an excuse, unless it was to call the probe function. -/
theorem Served.excused (h : Served s session) (hr : ∀ i c, r ≠ .probe i c)
    (hf : (tryStep s act r session).1 = .error f) : Excused session.world f := by
  rcases h.causes hr hf with hcause | hstop | hgives
  · exact hcause.excused (h.step act r).atRest.bounded.capacity_lt
  · exact hstop.excused
  · exact .of_isClient hgives.isClient

theorem Served.excused_of_finish (h : Served s session) (hf : (finish session).1 = .error f) :
    Excused session.world f := by
  obtain ⟨_, hstop⟩ := finish_stops h.atRest hf
  exact hstop.excused

/-- No call meets an internal fault, and a miscount is found only where there is one. -/
theorem Served.checks (h : Served s session) (hf : Meets s act session f t) :
    f.isInternal = false ∧ (f.isMiscount = true → ¬ session.world.table.Exact) := by
  cases hf with
  | request hr hf =>
    have hexcused := h.excused hr hf
    exact ⟨hexcused.internal, hexcused.counted⟩
  | nested hf =>
    have hlim := h.atRest.bounded.capacity_lt
    rcases (nested_stops hf).1.excused (fun _ h => h.isClient) hlim with rfl | hexcused
    · exact ⟨rfl, fun h => absurd h (by simp [Fault.isMiscount])⟩
    · exact ⟨hexcused.internal, hexcused.counted⟩
  | finish hf =>
    have hexcused := h.excused_of_finish hf
    exact ⟨hexcused.internal, hexcused.counted⟩

theorem clientRaises_of_clearStop {w' : World K V (Journal K V)}
    (h : session.world.ClearStop w' f) (hclient : f.isClient = true) :
    ClientRaises s act session t f := by
  cases h with
  | hook _ hraises _ _ => exact .hook hraises
  | miscount _ _ => exact absurd hclient (by simp [Fault.isClient])

theorem clientRaises_of_cause {session' : Session K V}
    (h : Cause s session.world session'.world f) (hclient : f.isClient = true) :
    ClientRaises s act session session'.world.table f := by
  cases h with
  | hook hraises => exact .hook hraises
  | search accepts hash hpos hrun =>
    -- that the lap is over or that the probe function leaves the table is no fault of a client
    rcases Table.plainAcquire_stops hpos hrun with hprobing | hstop
    · exact absurd hprobing (by simp [Fault.isProbing_of_isClient hclient])
    · exact .probe hstop
  | _ => exact absurd hclient (by simp [Fault.isClient])

/-- A fault in the name of the client is the client's. -/
theorem Served.clientRaises (h : Served s session) (hf : Meets s act session f t)
    (hclient : f.isClient = true) : ClientRaises s act session t f := by
  cases hf with
  | request hr hf =>
    rcases h.causes hr hf with hcause | hstop | hgives
    · exact clientRaises_of_cause hcause hclient
    · exact clientRaises_of_clearStop hstop hclient
    · exact .callback hgives
  | nested hf =>
    obtain ⟨hstop, htable⟩ := nested_stops hf
    rw [htable]
    rcases hstop with rfl | hgives | ⟨i, hi, hstep⟩
    · exact absurd hclient (by simp [Fault.isClient])
    · exact .callback hgives
    · rcases Table.plainStep_stops hi hstep with hprobing | hstop
      · exact absurd hprobing (by simp [Fault.isProbing_of_isClient hclient])
      · exact .probe hstop
  | finish hf =>
    obtain ⟨_, hstop⟩ := finish_stops h.atRest hf
    exact clientRaises_of_clearStop hstop hclient

/-- The client may give up at any call of a callback or a hook, in any request of a run. Even
so, in every session that is come to, the counters bound what is there and the load is below
its maximum, with fewer than `2 ^ 61` buckets, so that also the doubled capacity fits a word.
No request, no lookup that a callback interrupts and not the end of the map ever meets an
internal fault, and a fault in the name of the client is raised by a hook of the session, by
the callback that has given up, or by the probe function inside the table. The count checks
fail only after a hook has given up during a clear. Calling the probe function by hand is the
one request that is not a call of the map. -/
theorem checks_hold (s : Strategy K) :
    (∀ capacity keyHook valueHook f,
      (Session.start s capacity keyHook valueHook : Except Fault (Session K V)) = .error f →
        f = .capacityOverflow) ∧
    ∀ session : Session K V, Served s session →
      let t := session.world.table
      ((t.capacity = 0 ∧ t.live = 0 ∧ t.tombs = 0) ∨
        (4 * (t.live + t.tombs) < 3 * t.capacity ∧ t.capacity < 2 ^ 61)) ∧
      (t.fullCount ≤ t.live ∧ t.tombCount ≤ t.tombs) ∧
      2 * t.capacity < Word.limit ∧
      ∀ act f t', Meets s act session f t' →
        f.isInternal = false ∧ (f.isMiscount = true → ¬ Whole s session) ∧
          (f.isClient = true → ClientRaises s act session t' f) := by
  refine ⟨fun c kh vh f hf => start_error hf, fun session h => ?_⟩
  have hbounded := h.atRest.bounded
  have hcap := hbounded.capacity_lt
  have hlimit := Table.limit_eq
  have hpow : Table.capacityLimit = 2 ^ 61 := by decide
  refine ⟨?_, ⟨hbounded.full_le, hbounded.tombs_le⟩, by omega, fun act f t' hf => ?_⟩
  · rcases hbounded.load with hzero | hload
    · exact Or.inl hzero
    · exact Or.inr ⟨hload, hpow ▸ hcap⟩
  · obtain ⟨hinternal, hcounted⟩ := h.checks hf
    exact ⟨hinternal, fun hmiscount hwhole => hcounted hmiscount hwhole.sound.exact,
      h.clientRaises hf⟩

/-- The hash gives up in the middle of an insertion. Later the key hook gives up on the first
of two entries, and is taken away. At its end the map releases one entry where it still counts
two. -/
theorem checks_hold_interrupted :
    let s : Strategy Nat := { hash := fun k => k.toUInt64, equals := fun a b => a == b }
    let hook : Hook (Journal Nat Nat) Nat := Hook.failing (Hook.recordKey "keys") "no"
    let act : Callback → Act (Journal Nat Nat) Unit := fun c => require (c ≠ .hash) (.client "no")
    let session₀ : Session Nat Nat :=
      { world := { table := .blank 4, keyHook := some hook, heap := ⟨1, 0⟩, client := [] } }
    let session₁ := (tryStep s act (.insert 3 30) session₀).2
    let session₂ := (run s [.insert 1 10, .insert 2 20, .clear, .setKeyHook none] session₁).2
    Session.start s 4 (some hook) none = .ok session₀ ∧
      (tryStep s act (.insert 3 30) session₀).1 = .error (.client "no") ∧
      session₂.world.table.buckets = #[.empty, .empty, .full ⟨2, 2, 20⟩, .empty] ∧
      (finish session₂).1 = .error (.clearMiscount 1 2) ∧ ¬ Whole s session₂ := by
  intro s hook act session₀ session₁ session₂
  have hstart : Session.start s 4 (some hook) none = .ok session₀ := rfl
  have hfinish : (finish session₂).1 = .error (.clearMiscount 1 2) := by decide +kernel
  have hserved : Served s session₂ := ((Served.start hstart).step act _).run _
  obtain ⟨_, _, _, hfaults⟩ := (checks_hold s).2 session₂ hserved
  exact ⟨hstart, rfl, by decide +kernel, hfinish, (hfaults act _ _ (.finish hfinish)).2.1 rfl⟩

end Session

end OpenAddressing
