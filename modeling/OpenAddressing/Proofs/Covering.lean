import OpenAddressing.Proofs.Served

/-!
# Probe functions that cover the table

If a lap from any bucket visits every bucket, a search can only fail to find a slot in a
table without empty buckets. The load bound keeps an empty bucket in every allocated
table, and it holds in every served session, whatever faults there have been: so with a
covering probe function no search of the map ever fails.

The argument is the same for an insertion, a lookup and the moves of a rebuild, because
`Cause.search` speaks of the table as the fault leaves it, and this is the table of a
session that is itself served.
-/

namespace OpenAddressing

open Act World

/-- The fault is that a search has found no bucket. -/
def Fault.isProbing : Fault → Bool
  | .probeExhausted _ => true
  | .probeOutOfRange _ _ => true
  | _ => false

theorem Fault.isProbing_of_isClient {f : Fault} (h : f.isClient = true) : f.isProbing = false := by
  cases f with
  | client _ => rfl
  | _ => exact absurd h (by simp [Fault.isClient])

namespace Table

variable {K V : Type} {t : Table K V} {p : Probe} {accepts : K → Bool} {hash : UInt64} {f : Fault}

/-- With a covering probe function, one empty bucket is enough. -/
theorem plainAcquire_ne_error (hcov : p.Covers t.capacity) {i : Nat}
    (hi : t.buckets[i]? = some .empty) : Seek.plainAcquire p accepts hash t.buckets ≠ .error f := by
  intro h
  have hlt : i < t.capacity := lt_capacity_of_getElem? hi
  have hpos : 0 < t.capacity := by omega
  obtain ⟨j, _, hj⟩ := hcov.visits (Probe.home hash t.capacity) (Probe.home_lt hpos) i hlt
  exact ne_empty_of_plainAcquire_error hcov.inRange hpos h hj hi

end Table

namespace Session

variable {K V : Type} {s : Strategy K} {session session' : Session K V} {f : Fault}
  {act : Callback → Act (Journal K V) Unit}

theorem Served.exists_empty (h : Served s session) (hpos : 0 < session.world.table.capacity) :
    ∃ i : Nat, session.world.table.buckets[i]? = some .empty :=
  h.atRest.bounded.exists_empty hpos

/-- A map without entries has nothing to search for when it is made. -/
theorem start_error {capacity : Nat} {keyHook : Option (Hook (Journal K V) K)}
    {valueHook : Option (Hook (Journal K V) V)}
    (h : Session.start s capacity keyHook valueHook = .error f) : f = .capacityOverflow := by
  let w₀ : World K V (Journal K V) := { keyHook, valueHook, client := [] }
  have hcreate : ∃ w, rehash s.callbacks capacity w₀ = .error f w := by
    unfold Session.start create at h
    split at h
    · exact absurd h (by simp [Except.map])
    · rename_i fault w hrun
      have hff : fault = f := by simpa [Except.map] using h
      exact ⟨w, hff ▸ hrun⟩
  obtain ⟨w, hrun⟩ := hcreate
  cases htarget : rehashTarget w₀.table.capacity capacity with
  | none => rw [rehash_of_none htarget] at hrun; exact absurd hrun (by simp)
  | some c =>
    rw [rehash_of_some htarget] at hrun
    obtain ⟨_, hpos⟩ := rehashTarget_eq_some htarget
    have hentries : w₀.table.entries = [] := rfl
    obtain ⟨_, hstop⟩ := (rebuild_ends s.callbacks_plain hpos).of_error hrun
    cases hstop with
    | overflow _ _ => rfl
    | stuck _ hxs _ _ => rw [hentries] at hxs; exact absurd hxs.symm (by simp)
    | miscount _ _ hne => exact absurd rfl hne

/-- No cause is a search that fails. -/
theorem not_isProbing_of_cause (hs : ∀ c, 1 ≤ c → c < s.limit.capacity → s.probe.Covers c)
    (h : Served s session') (hf : Cause s session.world session'.world f) :
    f.isProbing = false := by
  cases hf with
  | capacity => rfl
  | hook hraises => exact Fault.isProbing_of_isClient hraises.isClient
  | search accepts hash hpos hrun =>
    -- the search was in the table that the fault has left, and this one is served
    have hcap : 0 < session'.world.table.capacity := Nat.pos_of_ne_zero hpos
    have hlim := h.capacity_lt
    obtain ⟨i, hi⟩ := h.exists_empty hcap
    exact absurd hrun (Table.plainAcquire_ne_error (hs _ hcap hlim) hi)
  | rebuildMiscount _ => rfl
  | snapshotMiscount _ => rfl

theorem not_isProbing_of_step (hs : ∀ c, 1 ≤ c → c < s.limit.capacity → s.probe.Covers c)
    (h : Served s session) {r : Request K V} (hr : ∀ i c, r ≠ .probe i c)
    (hf : (tryStep s act r session).1 = .error f) :
    f.isProbing = false := by
  rcases h.causes hr hf with hcause | hstop | hgives
  · exact not_isProbing_of_cause hs (h.step act r) hcause
  · cases hstop with
    | hook _ hraises _ _ => exact Fault.isProbing_of_isClient hraises.isClient
    | miscount _ _ => rfl
  · exact Fault.isProbing_of_isClient hgives.isClient

/-- Neither is the lookup stopped that a callback interrupts. -/
theorem not_isProbing_of_nested (hs : ∀ c, 1 ≤ c → c < s.limit.capacity → s.probe.Covers c)
    (h : Served s session) {l : Lookup K} {via : Callback} {inquiry : Inquiry K}
    {inner : InquiryResult}
    (hf : (tryStep s act (.nested l via inquiry) session).1 = .ok (.nested (.error f) inner)) :
    f.isProbing = false := by
  rcases (nested_stops hf).1 with rfl | hgives | ⟨i, hi, hplain⟩
  · rfl
  · exact Fault.isProbing_of_isClient hgives.isClient
  · have hcov := hs session.world.table.capacity (by omega) h.capacity_lt
    exact absurd hplain (Seek.plainStep_ne_error hcov.inRange hi)

/-- Linear probing covers every table that fits a machine word. With any probe function
that covers all tables of admissible capacity, and with any hash, equality and hooks, an
allocated table has an empty bucket in every session that is come to, whatever the client
has given up, and no request is ever stopped by a search without a bucket: not when the map
is made, not in a request that searches or rebuilds, and not in a lookup that a callback
interrupts. Calling the probe function by hand is the one request that is not a call of the
map. -/
theorem covering_never_exhausts :
    (∀ c, 1 ≤ c → c < Word.limit → Probe.linear.Covers c) ∧
    ∀ {K V : Type} (s : Strategy K), (∀ c, 1 ≤ c → c < s.limit.capacity → s.probe.Covers c) →
      (∀ capacity keyHook valueHook f,
        (Session.start s capacity keyHook valueHook : Except Fault (Session K V)) = .error f →
          f.isProbing = false) ∧
      ∀ session : Session K V, Served s session →
        (0 < session.world.table.capacity →
          ∃ i : Nat, session.world.table.buckets[i]? = some .empty) ∧
        (∀ act r f, (∀ i c, r ≠ .probe i c) → (tryStep s act r session).1 = .error f →
          f.isProbing = false) ∧
        ∀ act l via inquiry f inner,
          (tryStep s act (.nested l via inquiry) session).1 = .ok (.nested (.error f) inner) →
            f.isProbing = false := by
  refine ⟨fun c _ hc => Probe.linear_covers hc, fun s hs => ⟨fun c kh vh f hf => ?_, ?_⟩⟩
  · rw [start_error hf]
    rfl
  · intro session h
    refine ⟨h.exists_empty, fun act r f hr hf => ?_, fun act l via inquiry f inner hf => ?_⟩
    · exact not_isProbing_of_step hs h hr hf
    · exact not_isProbing_of_nested hs h hf

/-- A map that starts with one bucket and is probed linearly. -/
theorem covering_never_exhausts_linear :
    let s : Strategy Nat := { hash := fun k => k.toUInt64, equals := fun a b => a == b }
    let session₀ : Session Nat Nat :=
      { world := { table := .blank 1, heap := ⟨1, 0⟩, client := [] } }
    let session := (run s [.insert 1 10, .insert 3 30, .erase 1] session₀).2
    Session.start s 1 none none = .ok session₀ ∧
      session.world.table.buckets = #[.empty, .tombstone, .empty, .full ⟨3, 3, 30⟩] ∧
      (∃ i : Nat, session.world.table.buckets[i]? = some .empty) ∧
      ∀ act r f, (∀ i c, r ≠ .probe i c) → (tryStep s act r session).1 = .error f →
        f.isProbing = false := by
  intro s session₀ session
  have hstart : Session.start s 1 none none = .ok session₀ := rfl
  have hcovers : ∀ c, 1 ≤ c → c < s.limit.capacity → s.probe.Covers c :=
    fun c _ hc => Probe.linear_covers (Nat.lt_trans hc (by decide))
  obtain ⟨hempty, hsteps, _⟩ :=
    (covering_never_exhausts.2 s hcovers).2 session ((Served.start hstart).run _)
  exact ⟨hstart, by decide +kernel, hempty (by decide +kernel), hsteps⟩

end Session

end OpenAddressing
