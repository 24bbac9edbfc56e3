import OpenAddressing.Proofs.Atomicity
import OpenAddressing.Proofs.Loads

/-!
# How far a table grows

Growth is decided on the load, entries and tombstones together, and only an insertion
raises the load, by one at most. Whatever becomes of an insertion, a growth that stopped on
the way included, the load that it leaves counts no more insertions than were made. So when
the capacity is doubled at `c` buckets, at least three quarters of `c` insertions have come
before (`Scaled.step`), and what has been removed or overwritten since does not matter.

The insertions are counted one by one. A request that binds a list of pairs is spelled out
first as the insertions that it makes, up to the one that is stopped if there is one
(`run_spelled`).
-/

namespace OpenAddressing

open Act World

/-- The request binds one key. -/
def Request.isInsert {K V : Type} : Request K V → Bool
  | .insert _ _ => true
  | _ => false

/-- The request does not ask for more buckets than there are. -/
def Request.Sparing {K V : Type} (t : Table K V) : Request K V → Prop
  | .rehash capacity => capacity ≤ t.capacity
  | .reserve _ => False
  | _ => True

instance {K V : Type} {t : Table K V} {r : Request K V} : Decidable (r.Sparing t) := by
  unfold Request.Sparing
  split <;> infer_instance

namespace World

variable {K V τ : Type} {s : Strategy K} {w w' : World K V τ} {d : Demand} {f : Fault}

/-- No more is counted than before, in an array of the old size or of the size demanded. -/
structure Resized (d : Demand) (w w' : World K V τ) : Prop where
  capacity_cases : w'.table.capacity = w.table.capacity ∨
    w.table.target d = some w'.table.capacity
  load_le : w'.table.load ≤ w.table.load

theorem Resized.of_packed {c : Nat} {es : List (Entry K V)} (htarget : w.table.target d = some c)
    (h : Table.Packed s.probe c es w'.table) (hle : es.length ≤ w.table.live) :
    Resized d w w' := by
  refine ⟨Or.inr (by rw [h.capacity_eq]; exact htarget), ?_⟩
  unfold Table.load
  rw [h.live_eq, h.tombs_eq]
  omega

theorem Met.resized (h : Met s d w w') : Resized d w w' := by
  cases h with
  | asIs _ hw => rw [hw]; exact ⟨Or.inl rfl, Nat.le_refl _⟩
  | rebuilt htarget _ _ hpacked hcount _ => exact .of_packed htarget hpacked (Nat.le_of_eq hcount)

/-- A rebuild that stops has moved some of the entries, and no more are counted. -/
theorem Unmet.resized (h : Unmet s d w w' f) (hw : w.table.Bounded) : Resized d w w' := by
  have hentries : w.table.entries.length ≤ w.table.live := by
    rw [Table.length_entries]
    exact hw.full_le
  cases h with
  | refused _ _ hsame => rw [hsame]; exact ⟨Or.inl rfl, Nat.le_refl _⟩
  | stopped htarget hc _ hstop _ =>
    cases hstop with
    | overflow hge _ => omega
    | stuck _ hsplit hpacked _ =>
      rw [hsplit, List.length_append] at hentries
      exact .of_packed htarget hpacked (by omega)
    | miscount _ hpacked _ => exact .of_packed htarget hpacked hentries

end World

namespace Session

variable {K V : Type} {s : Strategy K} {session session' : Session K V} {r : Request K V}
  {rs : List (Request K V)} {d : Demand} {c₀ n : Nat}

/-! ## One call -/

/-- A request that makes a demand ends in the array it has or in the one demanded. -/
theorem step_resized (hw : session.world.AtRest) (hr : r.demand? = some d) :
    let t := session.world.table
    let t' := (step s r session).2.world.table
    (t'.capacity = t.capacity ∨ t.target d = some t'.capacity) ∧
      t'.load ≤ t.load + r.insertions := by
  intro t t'
  have hmeet := meet_demanding (s := s) hw d
  cases hrun : meet s.callbacks d (session.demanding d) with
  | ok _ w =>
    have hresized := (hmeet.of_ok hrun).resized
    rcases step_of_met hr hw hrun with htable | ⟨k, v, old, rfl, hstored⟩
    · have ht' : t' = w.table := htable
      rw [ht']
      exact ⟨hresized.capacity_cases, Nat.le_add_right_of_le hresized.load_le⟩
    · have hcap : t'.capacity = w.table.capacity := hstored.capacity_eq
      have hload : t'.load ≤ w.table.load + 1 := hstored.load_le
      rw [hcap]
      exact ⟨hresized.capacity_cases,
        Nat.le_trans hload (Nat.add_le_add_right hresized.load_le 1)⟩
  | error f w =>
    have hunmet := hmeet.of_error hrun
    have hresized := hunmet.resized hw.bounded
    have ht' : t' = w.table := by
      rw [show t' = (step s r session).2.world.table from rfl,
        step_of_unmet hr hw.probing_eq hrun hunmet.sameRest.probing]
    rw [ht']
    exact ⟨hresized.capacity_cases, Nat.le_add_right_of_le hresized.load_le⟩

/-- A sparing request that binds no key gets along with the buckets there are. -/
theorem step_sparing (hw : session.world.AtRest) (hr : r.Sparing session.world.table)
    (hins : r.insertions = 0) :
    let t := session.world.table
    let t' := (step s r session).2.world.table
    t'.capacity = t.capacity ∧ t'.load ≤ t.load := by
  intro t t'
  cases hresizes : r.resizes with
  | false =>
    have hspends : Spends r session (step s r session).2 := step_spends hw hresizes (Or.inl hins)
    have hload := hspends.load_le
    rw [hins] at hload
    exact ⟨hspends.capacity_eq, hload⟩
  | true =>
    cases r with
    | rehash capacity =>
      obtain ⟨hcap, hload⟩ := step_resized (s := s) hw (r := .rehash capacity) rfl
      refine ⟨?_, hload⟩
      rcases hcap with hcap | htarget
      · exact hcap
      · -- a rehash that is not for more buckets is for as many as there are
        replace hr : capacity ≤ t.capacity := hr
        replace htarget : rehashTarget t.capacity capacity = some t'.capacity := htarget
        unfold rehashTarget at htarget
        split at htarget
        · split at htarget
          · exact absurd htarget (by simp)
          · exact (Option.some.inj htarget).symm
        · exact absurd htarget (by simp)
    | reserve extra => exact hr.elim
    | _ => exact absurd hresizes (by simp [Request.resizes])

/-- An insertion keeps the array, takes the first one, or has found no room and takes one of
twice the size. -/
theorem step_insert_capacity (hw : session.world.AtRest) (k : K) (v : V) :
    let t := session.world.table
    let t' := (step s (.insert k v) session).2.world.table
    (t'.capacity = t.capacity ∨ (t.capacity = 0 ∧ t'.capacity = 256) ∨
      (t.capacity ≠ 0 ∧ t'.capacity = 2 * t.capacity ∧ ¬ t.Roomy)) ∧
    t'.load ≤ t.load + 1 := by
  intro t t'
  obtain ⟨hcap, hload⟩ := step_resized (s := s) hw (r := .insert k v) rfl
  refine ⟨hcap.imp_right fun htarget => ?_, hload⟩
  obtain ⟨hfull, hc⟩ := Table.target_insertion_eq_some htarget
  by_cases h0 : t.capacity = 0
  · exact Or.inl ⟨h0, hc.trans (if_pos h0)⟩
  · exact Or.inr ⟨h0, hc.trans (if_neg h0), hfull⟩

/-! ## Insertions one by one -/

/-- The insertions that binding the pairs comes to. -/
def insertsOf (s : Strategy K) : List (K × V) → Session K V → List (Request K V)
  | [], _ => []
  | (k, v) :: items, session =>
      .insert k v ::
        if (step s (.insert k v) session).1.isOk then
          insertsOf s items (step s (.insert k v) session).2
        else []

/-- The request, or the insertions that it comes to. -/
def spelled (s : Strategy K) : Request K V → Session K V → List (Request K V)
  | .insertAll items, session => insertsOf s items session
  | r, _ => [r]

/-- The run with each insertion spelled out. -/
def spell (s : Strategy K) : List (Request K V) → Session K V → List (Request K V)
  | [], _ => []
  | r :: rs, session => spelled s r session ++ spell s rs (step s r session).2

theorem run_append (rs rs' : List (Request K V)) (session : Session K V) :
    (run s (rs ++ rs') session).2 = (run s rs' (run s rs session).2).2 := by
  induction rs generalizing session with
  | nil => rfl
  | cons r rs ih => exact ih (step s r session).2

theorem trace_append (rs rs' : List (Request K V)) (session : Session K V) :
    trace s (rs ++ rs') session = trace s rs session ++ trace s rs' (run s rs session).2 := by
  induction rs generalizing session with
  | nil => rfl
  | cons r rs ih => exact congrArg ((session, r) :: ·) (ih (step s r session).2)

theorem Reachable.of_mem_trace (h : Reachable s session) {m : Session K V × Request K V}
    (hm : m ∈ trace s rs session) : Reachable s m.1 := by
  induction rs generalizing session with
  | nil => exact absurd hm List.not_mem_nil
  | cons r rs ih =>
    rcases List.mem_cons.mp hm with rfl | hm
    · exact h
    · exact ih (h.step r) hm

/-- The first pair is bound, and if that is not stopped then so are the others. -/
theorem step_insertAll_cons (s : Strategy K) (k : K) (v : V) (items : List (K × V))
    (session : Session K V) :
    step s (.insertAll ((k, v) :: items)) session =
      match step s (.insert k v) session with
      | (.ok _, session') => step s (.insertAll items) session'
      | (.error f, session') => (.error f, session') := by
  cases hrun : insert s.callbacks k v session.world with
  | ok u w =>
    have hall : insertAll s.callbacks ((k, v) :: items) session.world =
        insertAll s.callbacks items w := bind_of_ok hrun
    rw [step_of_ok (r := .insert k v) (g := fun _ => .done) rfl hrun]
    exact step_congr rfl rfl (bind_of_eq hall)
  | error f w =>
    have hall : insertAll s.callbacks ((k, v) :: items) session.world = .error f w :=
      bind_of_error hrun
    rw [step_of_error (r := .insert k v) (g := fun _ => .done) rfl hrun]
    exact step_of_error (g := fun _ => .done) rfl hall

theorem run_insertsOf (s : Strategy K) (items : List (K × V)) (session : Session K V) :
    (run s (insertsOf s items session) session).2 = (step s (.insertAll items) session).2 := by
  induction items generalizing session with
  | nil => rfl
  | cons item items ih =>
    obtain ⟨k, v⟩ := item
    rw [insertsOf, step_insertAll_cons]
    show (run s _ (step s (.insert k v) session).2).2 = _
    cases step s (.insert k v) session with
    | mk reply session' =>
      cases reply with
      | ok reply => exact ih session'
      | error f => rfl

/-- A request and the insertions it comes to lead to the same session. -/
theorem run_spelled (s : Strategy K) (r : Request K V) (session : Session K V) :
    (run s (spelled s r session) session).2 = (step s r session).2 := by
  cases r with
  | insertAll items => exact run_insertsOf s items session
  | _ => rfl

theorem run_spell (s : Strategy K) (rs : List (Request K V)) (session : Session K V) :
    (run s (spell s rs session) session).2 = (run s rs session).2 := by
  induction rs generalizing session with
  | nil => rfl
  | cons r rs ih =>
    rw [spell, run_append, run_spelled]
    exact ih (step s r session).2

/-- The request is for no more buckets than there are, and binds one key at most. -/
def Single (m : Session K V × Request K V) : Prop :=
  m.2.Sparing m.1.world.table ∧ m.2.insertions = if m.2.isInsert then 1 else 0

theorem single_of_mem_insertsOf {items : List (K × V)} (hr : r ∈ insertsOf s items session)
    (session' : Session K V) : Single (session', r) := by
  induction items generalizing session with
  | nil => exact absurd hr List.not_mem_nil
  | cons item items ih =>
    obtain ⟨k, v⟩ := item
    rcases List.mem_cons.mp hr with rfl | hr
    · exact ⟨trivial, rfl⟩
    · split at hr
      · exact ih hr
      · exact absurd hr List.not_mem_nil

theorem mem_of_mem_trace {m : Session K V × Request K V} (hm : m ∈ trace s rs session) :
    m.2 ∈ rs := by
  induction rs generalizing session with
  | nil => exact absurd hm List.not_mem_nil
  | cons r rs ih =>
    rcases List.mem_cons.mp hm with rfl | hm
    · exact List.mem_cons_self
    · exact List.mem_cons_of_mem r (ih hm)

theorem single_of_spelled (hr : r.Sparing session.world.table) {m : Session K V × Request K V}
    (hm : m ∈ trace s (spelled s r session) session) : Single m := by
  cases r with
  | insertAll items => exact single_of_mem_insertsOf (mem_of_mem_trace hm) m.1
  | _ =>
    obtain rfl := List.mem_singleton.mp hm
    exact ⟨hr, rfl⟩

theorem single_of_spell (hrs : ∀ m ∈ trace s rs session, m.2.Sparing m.1.world.table) :
    ∀ m ∈ trace s (spell s rs session) session, Single m := by
  induction rs generalizing session with
  | nil => exact fun m hm => absurd hm List.not_mem_nil
  | cons r rs ih =>
    obtain ⟨hr, hrest⟩ := List.forall_mem_cons.mp hrs
    intro m hm
    rw [spell, trace_append, run_spelled] at hm
    rcases List.mem_append.mp hm with hm | hm
    · exact single_of_spelled hr hm
    · exact ih hrest m hm

/-! ## The capacity over a run -/

/-- The capacity of the first array. -/
def base (c₀ : Nat) : Nat := if c₀ = 0 then 256 else c₀

theorem base_cases (c₀ : Nat) : (c₀ = 0 ∧ base c₀ = 256) ∨ (c₀ ≠ 0 ∧ base c₀ = c₀) := by
  by_cases h0 : c₀ = 0
  · exact Or.inl ⟨h0, if_pos h0⟩
  · exact Or.inr ⟨h0, if_neg h0⟩

/-- What is true of a map made with `c₀` buckets after `n` insertions. -/
structure Scaled (c₀ n : Nat) (session : Session K V) : Prop where
  capacity_eq : (session.world.table.capacity = 0 ∧ c₀ = 0) ∨
    ∃ j, session.world.table.capacity = base c₀ * 2 ^ j
  load_le : session.world.table.load ≤ n
  capacity_le : session.world.table.capacity ≤ base c₀ ∨ 3 * session.world.table.capacity ≤ 8 * n

/-- In an array of the same size nothing is lost by counting more insertions. -/
theorem Scaled.of_capacity_eq {m : Nat} (h : Scaled c₀ n session)
    (hcap : session'.world.table.capacity = session.world.table.capacity)
    (hload : session'.world.table.load ≤ m) (hle : n ≤ m) : Scaled c₀ m session' := by
  refine ⟨by rw [hcap]; exact h.capacity_eq, hload, ?_⟩
  rw [hcap]
  rcases h.capacity_le with hbase | hins
  · exact Or.inl hbase
  · exact Or.inr (by omega)

/-- A new session is what a demand for its buckets makes of a table without any. -/
theorem start_met {keyHook : Option (Hook (Journal K V) K)}
    {valueHook : Option (Hook (Journal K V) V)}
    (h : Session.start s c₀ keyHook valueHook = .ok session) :
    Met s (.rehash c₀) { keyHook, valueHook, client := [] } session.world := by
  let w₀ : World K V (Journal K V) := { keyHook, valueHook, client := [] }
  have hbounded : w₀.table.Bounded := Table.Bounded.blank (c := 0) (by decide)
  have hmeet : (meet s.callbacks (.rehash c₀)).Ends w₀
      (fun _ w => Met s (.rehash c₀) w₀ w) fun f w => Unmet s (.rehash c₀) w₀ w f :=
    meet_ends s.callbacks_plain (Strategy.callbacks_keeps fun _ _ _ => rfl) hbounded (.rehash c₀)
  unfold Session.start create at h
  split at h
  · rename_i u w hrun
    have hw : { world := w } = session := by simpa [Except.map] using h
    rw [← hw]
    exact hmeet.of_ok (a := u) hrun
  · exact absurd h (by simp [Except.map])

/-- A new table has the buckets it was to have. -/
theorem capacity_of_start {keyHook : Option (Hook (Journal K V) K)}
    {valueHook : Option (Hook (Journal K V) V)}
    (h : Session.start s c₀ keyHook valueHook = .ok session) :
    session.world.table.capacity = c₀ := by
  cases start_met h with
  | asIs htarget hsame =>
    replace htarget : rehashTarget 0 c₀ = none := htarget
    unfold rehashTarget at htarget
    split at htarget
    · rename_i h0
      rw [hsame, h0]
      rfl
    · rw [if_neg (by omega)] at htarget
      exact absurd htarget (by simp)
  | rebuilt htarget _ _ hpacked _ _ =>
    replace htarget : rehashTarget 0 c₀ = some _ := htarget
    unfold rehashTarget at htarget
    split at htarget
    · exact absurd htarget (by simp)
    · rw [if_neg (by omega)] at htarget
      exact hpacked.capacity_eq.trans (Option.some.inj htarget).symm

theorem scaled_start {keyHook : Option (Hook (Journal K V) K)}
    {valueHook : Option (Hook (Journal K V) V)}
    (h : Session.start s c₀ keyHook valueHook = .ok session) : Scaled c₀ 0 session := by
  have hcap := capacity_of_start h
  have hload : session.world.table.load ≤ 0 := (start_met h).resized.load_le
  rcases base_cases c₀ with ⟨h0, _⟩ | ⟨_, hbase⟩
  · exact ⟨Or.inl ⟨hcap.trans h0, h0⟩, hload, Or.inl (by rw [hcap, h0]; exact Nat.zero_le _)⟩
  · refine ⟨Or.inr ⟨0, ?_⟩, hload, Or.inl ?_⟩
    · rw [hcap, hbase, Nat.pow_zero, Nat.mul_one]
    · rw [hcap, hbase]

/-- Only a map that is made without an array is ever without one. -/
theorem Scaled.base_eq (h : Scaled c₀ n session) (h0 : session.world.table.capacity = 0) :
    base c₀ = 256 := by
  rcases base_cases c₀ with ⟨_, hbase⟩ | ⟨hpos, hbase⟩
  · exact hbase
  · rcases h.capacity_eq with ⟨_, hc₀⟩ | ⟨j, hj⟩
    · exact absurd hc₀ hpos
    · rw [hbase] at hj
      exact absurd (hj.symm.trans h0) (Nat.mul_ne_zero hpos (Nat.two_pow_pos j).ne')

/-- An array is doubled only after enough insertions. -/
theorem Scaled.step (h : Scaled c₀ n session) (hw : session.world.AtRest)
    (hr : Single (session, r)) :
    Scaled c₀ (n + if r.isInsert then 1 else 0) (step s r session).2 := by
  obtain ⟨hsparing, hins⟩ := hr
  have hload := h.load_le
  cases hinsert : r.isInsert with
  | false =>
    replace hins : r.insertions = 0 := by rw [hins, hinsert]; rfl
    obtain ⟨hcap, hload'⟩ := step_sparing (s := s) hw hsparing hins
    exact h.of_capacity_eq hcap (Nat.le_trans hload' hload) (Nat.le_refl _)
  | true =>
    cases r with
    | insert k v =>
      obtain ⟨hcap, hload'⟩ := step_insert_capacity (s := s) hw k v
      replace hload' := Nat.le_trans hload' (Nat.add_le_add_right hload 1)
      rw [if_pos rfl]
      rcases hcap with hcap | ⟨h0, hcap⟩ | ⟨h0, hcap, hfull⟩
      · exact h.of_capacity_eq hcap hload' (Nat.le_succ n)
      · have hbase := h.base_eq h0
        refine ⟨Or.inr ⟨0, ?_⟩, hload', Or.inl ?_⟩
        · rw [hcap, hbase, Nat.pow_zero, Nat.mul_one]
        · rw [hcap, hbase]
      · refine ⟨Or.inr ?_, hload', Or.inr ?_⟩
        · rcases h.capacity_eq with ⟨hc, _⟩ | ⟨j, hj⟩
          · exact absurd hc h0
          · refine ⟨j + 1, ?_⟩
            rw [hcap, hj, Nat.pow_succ, Nat.mul_comm (2 ^ j), Nat.mul_left_comm]
        · -- three quarters of the buckets are counted as taken, each by an insertion
          unfold Table.Roomy at hfull
          unfold Table.load at hload
          rw [hcap]
          omega
    | _ => exact absurd hinsert (by simp [Request.isInsert])

theorem Scaled.run (h : Scaled c₀ n session) (hreach : Reachable s session)
    (hrs : ∀ m ∈ trace s rs session, Single m) :
    Scaled c₀ (n + rs.countP Request.isInsert) (run s rs session).2 := by
  induction rs generalizing session n with
  | nil => exact h
  | cons r rs ih =>
    obtain ⟨hr, hrest⟩ := List.forall_mem_cons.mp hrs
    have hnext := ih (h.step (s := s) hreach.atRest hr) (hreach.step r) hrest
    rw [List.countP_cons, Nat.add_comm (rs.countP _), ← Nat.add_assoc]
    exact hnext

/-- Take any run of a map made with `c₀` buckets in which no request asks for more buckets
than there are, and spell it out insertion by insertion.

After each of these calls, whatever has been stopped so far, the capacity is that of the
first array (`c₀`, or 256 if `c₀` is zero) times a power of two, unless there is no array
yet; and it is not larger than that of the first array, or at most 8/3 of the number of
insertions made so far. An insertion keeps the capacity, doubles it, or makes the first
array; no other call changes it. -/
theorem capacity_growth {keyHook : Option (Hook (Journal K V) K)}
    {valueHook : Option (Hook (Journal K V) V)} {session₀ : Session K V}
    (hstart : Session.start s c₀ keyHook valueHook = .ok session₀)
    (hrs : ∀ m ∈ trace s rs session₀, m.2.Sparing m.1.world.table) :
    let calls := spell s rs session₀
    let b := if c₀ = 0 then 256 else c₀
    (Session.run s calls session₀).2 = (Session.run s rs session₀).2 ∧
    (∀ pre, pre <+: calls →
      let c := (Session.run s pre session₀).2.world.table.capacity
      ((c = 0 ∧ c₀ = 0) ∨ ∃ j, c = b * 2 ^ j) ∧
        (c ≤ b ∨ 3 * c ≤ 8 * pre.countP Request.isInsert)) ∧
    ∀ m ∈ trace s calls session₀,
      let c := m.1.world.table.capacity
      let c' := (Session.step s m.2 m.1).2.world.table.capacity
      c ≤ c' ∧ (m.2.isInsert = false → c' = c) ∧
        (m.2.isInsert = true → c' = c ∨ c' = 2 * c ∨ (c = 0 ∧ c' = 256)) := by
  intro calls b
  have hreach : Reachable s session₀ := .start hstart
  have hcalls : ∀ m ∈ trace s calls session₀, Single m := single_of_spell hrs
  refine ⟨run_spell s rs session₀, fun pre hpre => ?_, fun m hm => ?_⟩
  · obtain ⟨post, hpost⟩ := hpre
    have hsingle : ∀ m ∈ trace s pre session₀, Single m := by
      intro m hm
      refine hcalls m ?_
      rw [← hpost, trace_append]
      exact List.mem_append_left _ hm
    have hscaled := (scaled_start hstart).run hreach hsingle
    rw [Nat.zero_add] at hscaled
    exact ⟨hscaled.capacity_eq, hscaled.capacity_le⟩
  · have hw : m.1.world.AtRest := (hreach.of_mem_trace hm).atRest
    obtain ⟨hsparing, hins⟩ := hcalls m hm
    obtain ⟨session, r⟩ := m
    dsimp only at hw hsparing hins ⊢
    cases hinsert : r.isInsert with
    | false =>
      replace hins : r.insertions = 0 := by rw [hins, hinsert]; rfl
      obtain ⟨hcap, _⟩ := step_sparing (s := s) hw hsparing hins
      exact ⟨Nat.le_of_eq hcap.symm, fun _ => hcap, fun h => absurd h (by simp)⟩
    | true =>
      cases r with
      | insert k v =>
        obtain ⟨hcap, _⟩ := step_insert_capacity (s := s) hw k v
        refine ⟨?_, fun h => absurd h (by simp), fun _ => ?_⟩
        · rcases hcap with hcap | ⟨h0, hcap⟩ | ⟨_, hcap, _⟩ <;> omega
        · rcases hcap with hcap | hcap | ⟨_, hcap, _⟩
          · exact Or.inl hcap
          · exact Or.inr (Or.inr hcap)
          · exact Or.inr (Or.inl hcap)
      | _ => exact absurd hinsert (by simp [Request.isInsert])

/-- The bound is reached: the third insertion doubles an array of four buckets, although one
of the first two entries has been taken out again. -/
theorem capacity_growth_tombstone :
    let s : Strategy Nat := { hash := fun k => k.toUInt64, equals := fun a b => a == b }
    let rs : List (Request Nat Nat) := [.insertAll [(1, 10), (2, 20)], .erase 1, .insert 3 30]
    let session₀ : Session Nat Nat :=
      { world := { table := .blank 4, heap := ⟨1, 0⟩, client := [] } }
    let c := (Session.run s rs session₀).2.world.table.capacity
    Session.start s 4 none none = .ok session₀ ∧
      (∀ m ∈ trace s rs session₀, m.2.Sparing m.1.world.table) ∧
      (spell s rs session₀).countP Request.isInsert = 3 ∧ c = 8 ∧ 3 * c ≤ 8 * 3 := by
  intro s rs session₀ c
  have hstart : Session.start s 4 none none = .ok session₀ := rfl
  have hrs : ∀ m ∈ trace s rs session₀, m.2.Sparing m.1.world.table := by decide +kernel
  have hcount : (spell s rs session₀).countP Request.isInsert = 3 := by decide +kernel
  have hc : c = 8 := by decide +kernel
  obtain ⟨hsame, hgrowth, _⟩ := capacity_growth hstart hrs
  obtain ⟨_, hbound⟩ := hgrowth (spell s rs session₀) (List.prefix_refl _)
  rw [hsame, hcount] at hbound
  refine ⟨hstart, hrs, hcount, hc, hbound.resolve_left ?_⟩
  show ¬ c ≤ 4
  omega

end Session

end OpenAddressing
