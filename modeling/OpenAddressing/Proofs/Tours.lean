import OpenAddressing.Proofs.Places

/-!
# Cursor walks under mutation

A cursor walk is a loop: as long as the cursor is valid, some requests are made and the
cursor moves on (`tour`). The requests of a round may remove and insert as they please, so
long as they take no new array. By `kept_of_step` no entry moves then, and this carries all
that is said here: the cursor goes up, meets every entry that stays in the map the whole
time, and meets it once.

If nothing is removed but the entry under the cursor, then what is ahead of the cursor is
what was there at the beginning, so that the walk visits what an iteration would have
shown (`tour_weeding`).
-/

namespace OpenAddressing

open Act World

deriving instance DecidableEq for Table

namespace Table

variable {K V : Type} {t t' : Table K V} {i : Nat}

/-- What a walk finds from a bucket on is in the buckets from there on. -/
theorem entriesFrom_congr (hcap : t'.capacity = t.capacity)
    (h : ∀ x, i ≤ x → t'.entryAt? x = t.entryAt? x) : t'.entriesFrom i = t.entriesFrom i := by
  obtain ⟨n, hn⟩ : ∃ n, t.capacity ≤ i + n := ⟨t.capacity, Nat.le_add_left _ _⟩
  induction n generalizing i with
  | zero => rw [entriesFrom_of_le (by omega), entriesFrom_of_le (by omega)]
  | succ n ih =>
    rcases Nat.lt_or_ge i t.capacity with hi | hi
    · rw [entriesFrom_of_entryAt? hi, entriesFrom_of_entryAt? (by omega), h i (Nat.le_refl i),
        ih (fun x hx => h x (by omega)) (by omega)]
    · rw [entriesFrom_of_le (by omega), entriesFrom_of_le hi]

/-- The bucket is free, and what is in the others is what was there. -/
structure FreedAt (i : Nat) (t t' : Table K V) : Prop where
  capacity_eq : t'.capacity = t.capacity
  entryAt?_eq : ∀ j, t'.entryAt? j = if i = j then none else t.entryAt? j

theorem FreedAt.of_free (h : t.entryAt? i = none) : FreedAt i t t := by
  refine ⟨rfl, fun j => ?_⟩
  split
  · rename_i hj; rw [← hj, h]
  · rfl

theorem Removed.freedAt {r : Option (Entry K V)} (h : Removed t (some i) r t') :
    FreedAt i t t' := by
  cases h with
  | entry he =>
    refine ⟨capacity_buryAt, fun j => ?_⟩
    exact entryAt?_setBucket (b := .tombstone) (lt_capacity_of_entryAt? he)

end Table

/-- The request writes the cursor register. -/
def Request.writes {K V : Type} (c : Nat) : Request K V → Bool
  | .cursor r | .advance r | .copyCursor r _ => r = c
  | _ => false

/-- The request removes the entry under the cursor in the register, by this cursor or by
another one in the same place. -/
def Request.removesUnder {K V : Type} (session : Session K V) (c : Nat) : Request K V → Bool
  | .eraseAt r | .takeAt r => session.cursors r = session.cursors c
  | _ => false

namespace Session

variable {K V α : Type} {s : Strategy K} {session session' : Session K V} {r : Request K V}
  {rs body : List (Request K V)} {bodies : List (List (Request K V))} {c i : Nat} {e : Entry K V}

/-- The requests of a run, each with the session that it meets. -/
def trace (s : Strategy K) : List (Request K V) → Session K V →
    List (Session K V × Request K V)
  | [], _ => []
  | r :: rs, session => (session, r) :: trace s rs (step s r session).2

/-- One round of a walk: the session in which the cursor arrives, and the requests made
before it moves on. -/
structure Visit (K V : Type) where
  found : Session K V
  body : List (Request K V)

namespace Visit

/-- The bucket that is visited. -/
def index (c : Nat) (v : Visit K V) : Nat := (v.found.cursors c).index

/-- The entry that the cursor finds there. -/
def entry? (c : Nat) (v : Visit K V) : Option (Entry K V) :=
  v.found.world.table.entryAt? (v.index c)

/-- The session in which the cursor moves on. -/
def left (s : Strategy K) (v : Visit K V) : Session K V := (run s v.body v.found).2

/-- The entry under the cursor is removed. -/
def removes (s : Strategy K) (c : Nat) (v : Visit K V) : Bool :=
  (trace s v.body v.found).any fun m => m.2.removesUnder m.1 c

end Visit

/-- The rounds of a walk, and the session after the last one. -/
structure Tour (K V : Type) where
  visits : List (Visit K V)
  last : Session K V

/-- The cursor in the register lies in the table. -/
def Valid (c : Nat) (session : Session K V) : Prop :=
  (session.cursors c).index < session.world.table.capacity

instance : Decidable (Valid c session) := Nat.decLt _ _

/-- The session after one round. -/
def round (s : Strategy K) (c : Nat) (body : List (Request K V)) (session : Session K V) :
    Session K V :=
  (step s (.advance c) (run s body session).2).2

/-- Walks the cursor on: as long as it is valid and there are requests for another round. -/
def tour (s : Strategy K) (c : Nat) : List (List (Request K V)) → Session K V → Tour K V
  | [], session => ⟨[], session⟩
  | body :: bodies, session =>
      if Valid c session then
        let rest := tour s c bodies (round s c body session)
        ⟨⟨session, body⟩ :: rest.visits, rest.last⟩
      else ⟨[], session⟩

/-- The requests that may be made on the way: they leave the cursor alone and take no new
array. -/
def Gentle (s : Strategy K) (c : Nat) (m : Session K V × Request K V) : Prop :=
  m.2.writes c = false ∧ ¬ Rebuilds s m.2 m.1

instance {m : Session K V × Request K V} : Decidable (Gentle s c m) := by
  unfold Gentle; infer_instance

/-- The request changes no table, or removes the entry under the cursor. -/
def Weeds (s : Strategy K) (c : Nat) (m : Session K V × Request K V) : Prop :=
  (step s m.2 m.1).2.world.table = m.1.world.table ∨ m.2.removesUnder m.1 c = true

instance [DecidableEq K] [DecidableEq V] {m : Session K V × Request K V} :
    Decidable (Weeds s c m) := by
  unfold Weeds; infer_instance

/-! ## One request -/

theorem onWorld_cursors {act : Act (World K V (Journal K V)) α} :
    (onWorld act).Ends session (fun _ session' => session'.cursors = session.cursors)
      fun _ session' => session'.cursors = session.cursors := by
  rw [ends_onWorld]
  unfold Act.Ends
  split <;> rfl

theorem handle_cursors (hr : r.writes c = false) :
    (handle s r).Ends session (fun _ session' => session'.cursors c = session.cursors c)
      fun _ session' => session'.cursors c = session.cursors c := by
  have hworld : ∀ {α : Type} {act : Act (World K V (Journal K V)) α},
      (onWorld act).Ends session (fun _ session' => session'.cursors c = session.cursors c)
        fun _ session' => session'.cursors c = session.cursors c :=
    onWorld_cursors.imp (fun _ _ h => congrFun h c) (fun _ _ h => congrFun h c)
  have hwrite : ∀ {r : Nat} {k : Cursor}, decide (r = c) = false →
      (writeCursor r k).Ends session (fun _ session' => session'.cursors c = session.cursors c)
        fun _ session' => session'.cursors c = session.cursors c :=
    fun h => if_neg fun hcr => by simp [hcr] at h
  cases r with
  | cursor r => exact hwrite hr
  | advance r =>
    rw [ends_of_eq handle_advance_eq, ends_bind, ends_lift]
    exact ⟨fun _ _ => hwrite hr, fun _ _ => rfl⟩
  | copyCursor r source => exact hwrite hr
  | entries => rfl
  | sameCursor r₁ r₂ => rfl
  | look r => rfl
  | _ =>
    unfold handle serve
    exact hworld

theorem step_cursors (hr : r.writes c = false) :
    (step s r session).2.cursors c = session.cursors c := by
  have h : (handle s r).Ends session (fun _ session' => session'.cursors c = session.cursors c)
      fun _ session' => session'.cursors c = session.cursors c := handle_cursors hr
  rcases step_cases h with ⟨_, _, hstep, h⟩ | ⟨_, _, hstep, h⟩
  · rw [hstep]; exact h
  · rw [hstep]; exact h

/-! ## One round -/

/-- The cursor is on an entry, or just past the end. -/
structure Seated (c : Nat) (session : Session K V) : Prop where
  index_le : (session.cursors c).index ≤ session.world.table.capacity
  isSome : Valid c session → (session.world.table.entryAt? (session.cursors c).index).isSome

theorem seat_cases (t : Table K V) (hi : i ≤ t.capacity) :
    let j := (Cursor.seat t i).index
    (i ≤ j ∧ j ≤ t.capacity) ∧ (j < t.capacity → (t.entryAt? j).isSome) ∧
      (∀ x, i ≤ x → x < j → t.entryAt? x = none) ∧ t.entriesFrom i = t.entriesFrom j := by
  unfold Cursor.seat
  rcases t.nextEntry?_cases i with ⟨hnone, hnil⟩ | ⟨j, e, hsome, hj, hcons⟩
  · have hfree : ∀ x, i ≤ x → t.entryAt? x = none := by
      rcases t.nextEntry?_first i with ⟨_, hfree⟩ | ⟨j, e, hsome, _⟩
      · exact hfree
      · rw [hnone] at hsome; exact absurd hsome (by simp)
    rw [hnone]
    refine ⟨⟨hi, Nat.le_refl _⟩, fun h => absurd h (Nat.lt_irrefl _), fun x hx _ => hfree x hx, ?_⟩
    rw [hnil]
    exact (Table.entriesFrom_of_le (Nat.le_refl _)).symm
  · have hlt := Table.lt_capacity_of_entryAt? hj
    have hfirst : i ≤ j ∧ ∀ x, i ≤ x → x < j → t.entryAt? x = none := by
      rcases t.nextEntry?_first i with ⟨hnone, _⟩ | ⟨j', e', hsome', hij, _, hfree⟩
      · rw [hnone] at hsome; exact absurd hsome (by simp)
      · obtain ⟨hjj, _⟩ := Prod.mk.inj (Option.some.inj (hsome.symm.trans hsome'))
        exact hjj ▸ ⟨hij, hfree⟩
    rw [hsome]
    refine ⟨⟨hfirst.1, Nat.le_of_lt hlt⟩, fun _ => by rw [hj]; rfl, hfirst.2, ?_⟩
    rw [hcons, Table.entriesFrom_of_entryAt? hlt, hj]
    rfl

/-- Requests that take no new array leave the cursor alone and the entries where they are. -/
theorem run_gentle (h : Reachable s session) (hg : ∀ m ∈ trace s rs session, Gentle s c m) :
    (run s rs session).2.cursors c = session.cursors c ∧
      (run s rs session).2.world.table.capacity = session.world.table.capacity ∧
      ∀ m ∈ trace s rs session,
        Table.Kept s m.1.world.table (step s m.2 m.1).2.world.table := by
  induction rs generalizing session with
  | nil => exact ⟨rfl, rfl, fun m hm => absurd hm List.not_mem_nil⟩
  | cons r rs ih =>
    obtain ⟨⟨hwrites, hrebuilds⟩, hrest⟩ := List.forall_mem_cons.mp hg
    have hkept := kept_of_step h.atRest hrebuilds
    obtain ⟨hcursor, hcap, htrace⟩ := ih (h.step r) hrest
    exact ⟨hcursor.trans (step_cursors hwrites), hcap.trans hkept.capacity_eq,
      List.forall_mem_cons.mpr ⟨hkept, htrace⟩⟩

/-- An entry that is in the map all the time stays in its bucket. -/
theorem run_renewed (h : Reachable s session) (hg : ∀ m ∈ trace s rs session, Gentle s c m)
    (he : session.world.table.entryAt? i = some e)
    (hfull : ∀ m ∈ trace s rs session, m.1.world.table.entryAt? i ≠ none)
    (hlast : (run s rs session).2.world.table.entryAt? i ≠ none) :
    ∃ e', (run s rs session).2.world.table.entryAt? i = some e' ∧ e.Renewed s e' := by
  induction rs generalizing session e with
  | nil => exact ⟨e, he, .refl⟩
  | cons r rs ih =>
    obtain ⟨⟨_, hrebuilds⟩, hrest⟩ := List.forall_mem_cons.mp hg
    obtain ⟨_, hfull'⟩ := List.forall_mem_cons.mp hfull
    have hnext : (step s r session).2.world.table.entryAt? i ≠ none := by
      cases rs with
      | nil => exact hlast
      | cons r' rs => exact hfull' ((step s r session).2, r') List.mem_cons_self
    obtain ⟨e₁, he₁, hrenewed⟩ := (kept_of_step h.atRest hrebuilds).renewed he hnext
    obtain ⟨e₂, he₂, hrenewed'⟩ := ih (h.step r) hrest he₁ hfull' hlast
    exact ⟨e₂, he₂, hrenewed.trans hrenewed'⟩

/-- In one round the cursor moves on to the next entry, as the table is by then. -/
structure Round (s : Strategy K) (c : Nat) (body : List (Request K V))
    (session session' : Session K V) : Prop where
  reachable : Reachable s session'
  world_eq : session'.world = (run s body session).2.world
  capacity_eq : session'.world.table.capacity = session.world.table.capacity
  index_lt : (session.cursors c).index < (session'.cursors c).index
  seated : Seated c session'
  skipped : ∀ x, (session.cursors c).index < x → x < (session'.cursors c).index →
    session'.world.table.entryAt? x = none
  entriesFrom_eq : session'.world.table.entriesFrom ((session.cursors c).index + 1) =
    session'.world.table.entriesFrom (session'.cursors c).index

theorem round_spec (h : Reachable s session) (hv : Valid c session)
    (hg : ∀ m ∈ trace s body session, Gentle s c m) :
    Round s c body session (round s c body session) := by
  obtain ⟨hcursor, hcap, _⟩ := run_gentle h hg
  have hreach := h.run body
  generalize hleft : (run s body session).2 = left at hcursor hcap hreach
  have hworld : (round s c body session).world = left.world := by
    unfold round
    rw [hleft]
    exact advance_world
  have hindex : (round s c body session).cursors c =
      Cursor.seat left.world.table ((session.cursors c).index + 1) := by
    unfold round
    rw [hleft]
    have hlt : (session.cursors c).index < session.world.table.capacity := hv
    unfold step
    rw [handle_advance hreach.atRest.bounded.capacity_lt, hcursor, hcap, if_pos hlt]
    exact if_pos rfl
  have hlt : (session.cursors c).index + 1 ≤ left.world.table.capacity := by
    rw [hcap]; exact hv
  obtain ⟨⟨hle, hle'⟩, hfull, hskipped, hfrom⟩ := seat_cases left.world.table hlt
  rw [← hindex] at hle hle' hfull hskipped hfrom
  refine ⟨(hleft ▸ hreach).step _, by rw [hworld, hleft], by rw [hworld, hcap], hle, ⟨?_, ?_⟩,
    ?_, ?_⟩
  · rw [hworld]; exact hle'
  · unfold Valid; rw [hworld]; exact hfull
  · rw [hworld]; exact fun x hx hx' => hskipped x hx hx'
  · rw [hworld]; exact hfrom

/-! ## Walks -/

theorem tour_cons (hv : Valid c session) :
    tour s c (body :: bodies) session =
      ⟨⟨session, body⟩ :: (tour s c bodies (round s c body session)).visits,
        (tour s c bodies (round s c body session)).last⟩ := by
  rw [tour, if_pos hv]

theorem tour_of_not_valid (hv : ¬ Valid c session) : tour s c bodies session = ⟨[], session⟩ := by
  cases bodies with
  | nil => rfl
  | cons body bodies => rw [tour, if_neg hv]

/-- All requests made in the rounds of the walk are of one kind. -/
def Tour.All (s : Strategy K) (P : Session K V × Request K V → Prop) (walk : Tour K V) : Prop :=
  ∀ v ∈ walk.visits, ∀ m ∈ trace s v.body v.found, P m

instance {P : Session K V × Request K V → Prop} [DecidablePred P] {walk : Tour K V} :
    Decidable (walk.All s P) := by
  unfold Tour.All; infer_instance

theorem Tour.all_cons {P : Session K V × Request K V → Prop} {visits : List (Visit K V)}
    {last : Session K V} {v : Visit K V} :
    Tour.All s P ⟨v :: visits, last⟩ ↔
      (∀ m ∈ trace s v.body v.found, P m) ∧ Tour.All s P ⟨visits, last⟩ :=
  List.forall_mem_cons

/-- The bucket is full in every session of the walk. -/
def Tour.Holds (s : Strategy K) (i : Nat) (walk : Tour K V) : Prop :=
  ∀ v ∈ walk.visits, (∀ m ∈ trace s v.body v.found, m.1.world.table.entryAt? i ≠ none) ∧
    (v.left s).world.table.entryAt? i ≠ none

instance [DecidableEq K] [DecidableEq V] {walk : Tour K V} : Decidable (walk.Holds s i) := by
  unfold Tour.Holds; infer_instance

/-- The course of a walk: where the cursor stops, and how far it comes. -/
structure Course (s : Strategy K) (c : Nat) (bodies : List (List (Request K V)))
    (session : Session K V) (walk : Tour K V) : Prop where
  seated : Seated c walk.last
  capacity_eq : walk.last.world.table.capacity = session.world.table.capacity
  found : ∀ v ∈ walk.visits, (session.cursors c).index ≤ v.index c ∧
    v.index c < session.world.table.capacity ∧ (v.entry? c).isSome
  ascends : (walk.visits.map (Visit.index c)).Pairwise (· < ·)
  kept : walk.All s fun m => Table.Kept s m.1.world.table (step s m.2 m.1).2.world.table
  far : (session.cursors c).index + walk.visits.length ≤ (walk.last.cursors c).index
  length_eq : Valid c walk.last → walk.visits.length = bodies.length

theorem tour_course (h : Reachable s session) (hs : Seated c session)
    (hg : (tour s c bodies session).All s (Gentle s c)) :
    Course s c bodies session (tour s c bodies session) := by
  induction bodies generalizing session with
  | nil =>
    have hnone : ∀ {P : Visit K V → Prop}, ∀ v ∈ ([] : List (Visit K V)), P v :=
      fun v hv => absurd hv List.not_mem_nil
    exact ⟨hs, rfl, hnone, .nil, hnone, Nat.le_refl _, fun _ => rfl⟩
  | cons body bodies ih =>
    by_cases hv : Valid c session
    · rw [tour_cons hv] at hg ⊢
      obtain ⟨hbody, hrest⟩ := Tour.all_cons.mp hg
      have hround : Round s c body session _ := round_spec h hv hbody
      have hcourse := ih hround.reachable hround.seated hrest
      have hlt := hround.index_lt
      have hcap := hround.capacity_eq
      refine ⟨hcourse.seated, hcourse.capacity_eq.trans hcap, ?_, ?_, ?_, ?_, ?_⟩
      · refine List.forall_mem_cons.mpr ⟨⟨Nat.le_refl _, hv, hs.isSome hv⟩, fun v hmem => ?_⟩
        obtain ⟨hle, hcap', hfull⟩ := hcourse.found v hmem
        exact ⟨by omega, by omega, hfull⟩
      · refine List.pairwise_cons.mpr ⟨fun x hx => ?_, hcourse.ascends⟩
        obtain ⟨v, hmem, rfl⟩ := List.mem_map.mp hx
        exact Nat.lt_of_lt_of_le hlt (hcourse.found v hmem).1
      · exact Tour.all_cons.mpr ⟨(run_gentle h hbody).2.2, hcourse.kept⟩
      · have hfar := hcourse.far
        rw [List.length_cons]
        dsimp only at hfar ⊢
        omega
      · intro hlast
        rw [List.length_cons, List.length_cons, hcourse.length_eq hlast]
    · rw [tour_of_not_valid hv]
      exact ⟨hs, rfl, fun v hmem => absurd hmem List.not_mem_nil, .nil,
        fun v hmem => absurd hmem List.not_mem_nil, Nat.le_refl _, fun hlast => absurd hlast hv⟩

/-- The walk meets an entry that stays in the map. -/
theorem tour_meets (h : Reachable s session) (hs : Seated c session)
    (hg : (tour s c bodies session).All s (Gentle s c))
    (hended : ¬ Valid c (tour s c bodies session).last)
    (hi : (session.cursors c).index ≤ i) (he : session.world.table.entryAt? i = some e)
    (hholds : (tour s c bodies session).Holds s i) :
    ∃ v ∈ (tour s c bodies session).visits, v.index c = i ∧
      ∃ e', v.entry? c = some e' ∧ e.Renewed s e' := by
  have hlt := Table.lt_capacity_of_entryAt? he
  have hv : Valid c session := Nat.lt_of_le_of_lt hi hlt
  induction bodies generalizing session e with
  | nil => exact absurd hv hended
  | cons body bodies ih =>
    rw [tour_cons hv] at hg hended hholds ⊢
    obtain ⟨hbody, hrest⟩ := Tour.all_cons.mp hg
    obtain ⟨⟨hfull, hleft⟩, hholds'⟩ := List.forall_mem_cons.mp hholds
    rcases Nat.eq_or_lt_of_le hi with heq | hlt'
    · refine ⟨⟨session, body⟩, List.mem_cons_self, heq, e, ?_, .refl⟩
      unfold Visit.entry?
      rw [← he, ← heq]
      rfl
    · have hround : Round s c body session _ := round_spec h hv hbody
      obtain ⟨e₁, he₁, hrenewed⟩ := run_renewed h hbody he hfull hleft
      rw [← hround.world_eq] at he₁
      -- the next entry is at `i` or before it
      have hi' : ((round s c body session).cursors c).index ≤ i := by
        by_contra hgt
        have hnone := hround.skipped i hlt' (by omega)
        rw [he₁] at hnone
        exact absurd hnone (by simp)
      have hlt₁ := Table.lt_capacity_of_entryAt? he₁
      obtain ⟨v, hmem, hindex, e', he', hrenewed'⟩ := ih hround.reachable hround.seated hrest hended
        hi' he₁ hholds' hlt₁ (Nat.lt_of_le_of_lt hi' hlt₁)
      exact ⟨v, List.mem_cons_of_mem _ hmem, hindex, e', he', hrenewed.trans hrenewed'⟩

/-! ## Removing nothing but the entry under the cursor -/

theorem step_frees (hw : session.world.AtRest) (hr : r.removesUnder session c = true) :
    Table.FreedAt (session.cursors c).index session.world.table
      (step s r session).2.world.table := by
  have hremove : ∀ {i : Nat}, (removeAt i).Ends session.world
      (fun _ w => Table.FreedAt i session.world.table w.table) fun _ _ => False := by
    intro i
    refine (removeAt_ends hw.bounded).imp (fun _ w h => ?_) (fun _ _ h => h)
    rcases h.2 with ⟨hnone, _, ht⟩ | hremoved
    · rw [ht]; exact .of_free hnone
    · exact hremoved.freedAt
  have hends : (handle s r).Ends session
      (fun _ session' => Table.FreedAt (session.cursors c).index session.world.table
        session'.world.table)
      fun _ session' => Table.FreedAt (session.cursors c).index session.world.table
        session'.world.table := by
    cases r with
    | eraseAt c' =>
      have hc : session.cursors c' = session.cursors c := of_decide_eq_true hr
      rw [← hc]
      refine ends_onWorld.mpr ?_
      unfold Cursor.erase
      simp only [ends_bind]
      refine hremove.imp (fun _ w h => ?_) (fun _ _ h => h.elim)
      -- the hooks see a table from which the entry is gone
      refine releaseRemoved_ends.imp (fun _ w' h' => ?_) (fun _ w' h' => ?_)
      · show Table.FreedAt _ _ w'.table
        rw [h'.2.table_eq]; exact h
      · show Table.FreedAt _ _ w'.table
        rw [h'.1.table_eq]; exact h
    | takeAt c' =>
      have hc : session.cursors c' = session.cursors c := of_decide_eq_true hr
      rw [← hc]
      refine ends_onWorld.mpr ?_
      unfold Cursor.take
      simp only [ends_bind]
      exact hremove.imp (fun _ _ h => h) (fun _ _ h => h.elim)
    | _ => exact absurd hr (by simp [Request.removesUnder])
  rcases step_cases hends with ⟨_, _, hstep, h⟩ | ⟨_, _, hstep, h⟩
  · rw [hstep]; exact h
  · rw [hstep]; exact h

/-- The bucket under the cursor may be free in the end, and nothing else changes. -/
theorem run_weeds (h : Reachable s session) (hg : ∀ m ∈ trace s rs session, Gentle s c m)
    (hweeds : ∀ m ∈ trace s rs session, Weeds s c m) (j : Nat) :
    (run s rs session).2.world.table.entryAt? j =
      if (session.cursors c).index = j ∧
        (trace s rs session).any (fun m => m.2.removesUnder m.1 c) = true
      then none else session.world.table.entryAt? j := by
  induction rs generalizing session with
  | nil => simp [trace, run]
  | cons r rs ih =>
    obtain ⟨⟨hwrites, _⟩, hrest⟩ := List.forall_mem_cons.mp hg
    obtain ⟨hweed, hweeds'⟩ := List.forall_mem_cons.mp hweeds
    have hnext := ih (h.step r) hrest hweeds'
    rw [step_cursors hwrites] at hnext
    show (run s rs (step s r session).2).2.world.table.entryAt? j = _
    rw [hnext, trace, List.any_cons]
    cases hremoves : r.removesUnder session c with
    | true =>
      rw [(step_frees h.atRest hremoves).entryAt?_eq, ← ite_or]
      simp only [Bool.true_or, and_true]
      by_cases hj : (session.cursors c).index = j
      · rw [if_pos (.inr hj), if_pos hj]
      · rw [if_neg fun hor => hj (hor.elim And.left id), if_neg hj]
    | false =>
      have ht : (step s r session).2.world.table = session.world.table :=
        hweed.resolve_right (by simp [hremoves])
      rw [ht, Bool.false_or]

/-- The walk visits what is there at the beginning, and leaves what it has not removed. -/
theorem tour_weeding (h : Reachable s session) (hs : Seated c session)
    (hg : (tour s c bodies session).All s (Gentle s c))
    (hweeds : (tour s c bodies session).All s (Weeds s c))
    (hended : ¬ Valid c (tour s c bodies session).last) :
    (tour s c bodies session).visits.map (fun v => (v.entry? c).map Entry.pair) =
      (session.world.table.entriesFrom (session.cursors c).index).map (fun e => some e.pair) ∧
    ∀ j, (tour s c bodies session).last.world.table.entryAt? j =
      if ∃ v ∈ (tour s c bodies session).visits, v.index c = j ∧ v.removes s c = true
      then none else session.world.table.entryAt? j := by
  induction bodies generalizing session with
  | nil =>
    have hv : ¬ Valid c session := hended
    rw [tour_of_not_valid hv, Table.entriesFrom_of_le (Nat.le_of_not_lt hv)]
    exact ⟨rfl, fun j => by simp⟩
  | cons body bodies ih =>
    by_cases hv : Valid c session
    · rw [tour_cons hv] at hg hweeds hended ⊢
      obtain ⟨hbody, hrest⟩ := Tour.all_cons.mp hg
      obtain ⟨hweed, hweeds'⟩ := Tour.all_cons.mp hweeds
      have hround : Round s c body session _ := round_spec h hv hbody
      have hleft : ∀ j, (round s c body session).world.table.entryAt? j =
          if (session.cursors c).index = j ∧ Visit.removes s c ⟨session, body⟩ = true
          then none else session.world.table.entryAt? j := fun j => by
        rw [hround.world_eq]; exact run_weeds h hbody hweed j
      obtain ⟨hvisits, hlast⟩ := ih hround.reachable hround.seated hrest hweeds' hended
      refine ⟨?_, fun j => ?_⟩
      · -- ahead of the cursor nothing has changed in this round
        have hahead : (round s c body session).world.table.entriesFrom
            ((session.cursors c).index + 1) =
              session.world.table.entriesFrom ((session.cursors c).index + 1) := by
          refine Table.entriesFrom_congr hround.capacity_eq fun x hx => ?_
          rw [hleft, if_neg (by omega)]
        obtain ⟨e, he⟩ := Option.isSome_iff_exists.mp (hs.isSome hv)
        have hentry : Visit.entry? c ⟨session, body⟩ = some e := he
        rw [List.map_cons, hvisits, ← hround.entriesFrom_eq, hahead, hentry,
          Table.entriesFrom_of_entryAt? hv, he]
        rfl
      · rw [hlast, hleft, ← ite_or]
        refine if_congr ?_ rfl rfl
        simp only [List.mem_cons, exists_eq_or_imp]
        exact or_comm
    · rw [tour_of_not_valid hv, Table.entriesFrom_of_le (Nat.le_of_not_lt hv)]
      exact ⟨rfl, fun j => by simp⟩

/-! ## From the first entry to the end -/

/-- Take any cursor walk from the first entry on, with requests between the steps that take
no new array. The cursor goes up from bucket to bucket, is on an entry wherever it comes to
rest in the table, and passes the end after as many rounds as there are buckets, if not
before. The requests leave the entries in their buckets, so that an entry that stays in the
map all the time is met, and once only.

If they remove nothing but the entry under the cursor, and change nothing else, then the
walk visits what an iteration shows at its beginning, and what it has not removed is where
it was. -/
theorem cursor_walk (h : Reachable s session) (hexact : session.world.table.Exact)
    (hg : (tour s c bodies (step s (.cursor c) session).2).All s (Gentle s c)) :
    let t := session.world.table
    let walk := tour s c bodies (step s (.cursor c) session).2
    let indexes := walk.visits.map (Visit.index c)
    (indexes.Pairwise (· < ·) ∧ walk.visits.length ≤ t.capacity ∧
      (t.capacity ≤ bodies.length → ¬ Valid c walk.last)) ∧
    ((∀ v ∈ walk.visits, (v.entry? c).isSome) ∧
      (Valid c walk.last →
        (walk.last.world.table.entryAt? (walk.last.cursors c).index).isSome)) ∧
    walk.All s (fun m => Table.Kept s m.1.world.table (step s m.2 m.1).2.world.table) ∧
    (¬ Valid c walk.last →
      (∀ i e, t.entryAt? i = some e → walk.Holds s i → indexes.count i = 1 ∧
        ∃ v ∈ walk.visits, v.index c = i ∧ ∃ e', v.entry? c = some e' ∧ e.Renewed s e') ∧
      (walk.All s (Weeds s c) →
        (∃ items, t.collect = .ok items ∧
          walk.visits.map (fun v => (v.entry? c).map Entry.pair) = items.map some) ∧
        ∀ i, walk.last.world.table.entryAt? i =
          if ∃ v ∈ walk.visits, v.index c = i ∧ v.removes s c = true then none
          else t.entryAt? i)) := by
  intro t walk indexes
  have hreach : Reachable s (step s (.cursor c) session).2 := h.step _
  have hfirst : (step s (.cursor c) session).2.cursors c = Cursor.seat t 0 := if_pos rfl
  obtain ⟨⟨_, hle⟩, hfull, hskipped, hfrom⟩ := seat_cases t (Nat.zero_le _)
  rw [← hfirst] at hle hfull hskipped hfrom
  have hs : Seated c (step s (.cursor c) session).2 := ⟨hle, hfull⟩
  have hcourse : Course s c bodies (step s (.cursor c) session).2 walk := tour_course hreach hs hg
  have hfar := hcourse.far
  have hcap : walk.last.world.table.capacity = t.capacity := hcourse.capacity_eq
  have hlast := hcap ▸ hcourse.seated.index_le
  refine ⟨⟨hcourse.ascends, Nat.le_trans (Nat.le_trans (Nat.le_add_left _ _) hfar) hlast, ?_⟩,
    ⟨fun v hv => (hcourse.found v hv).2.2, hcourse.seated.isSome⟩, hcourse.kept, fun hended =>
    ⟨fun i e he hholds => ?_, fun hweeds => ?_⟩⟩
  · intro hlong hvalid
    have hlength := hcourse.length_eq hvalid
    have hin : (walk.last.cursors c).index < t.capacity := hcap ▸ hvalid
    omega
  · have hi : ((step s (.cursor c) session).2.cursors c).index ≤ i := by
      by_contra hgt
      have hnone := hskipped i (Nat.zero_le _) (by omega)
      rw [he] at hnone
      exact absurd hnone (by simp)
    obtain ⟨v, hmem, hindex, hfound⟩ := tour_meets hreach hs hg hended hi he hholds
    refine ⟨List.count_eq_one_of_mem ?_ (hindex ▸ List.mem_map_of_mem hmem), v, hmem, hindex,
      hfound⟩
    exact hcourse.ascends.imp fun hlt => Nat.ne_of_lt hlt
  · obtain ⟨hvisits, hleft⟩ := tour_weeding hreach hs hg hweeds hended
    refine ⟨⟨_, hexact.collect_eq, ?_⟩, hleft⟩
    rw [hvisits, List.map_map]
    exact congrArg _ hfrom.symm

/-- A walk over three entries, one of them in the first bucket and one in the last. The
first and the last are removed under the cursor, one by another cursor in the same place;
the walk visits all three. In the other walk the last entry is removed ahead of the cursor,
the first one behind it, and its place is taken again. -/
theorem cursor_walk_edges :
    let s : Strategy Nat := { hash := fun k => k.toUInt64, equals := fun a b => a == b }
    let session₀ : Session Nat Nat :=
      { world := { table := .blank 8, heap := ⟨1, 0⟩, client := [] } }
    let session := (run s [.insert 7 70, .insert 0 1, .insert 3 30] session₀).2
    let weeding : List (List (Request Nat Nat)) :=
      [[.lookup (.get 7), .eraseAt 0], [], [.copyCursor 1 0, .takeAt 1], []]
    let changing : List (List (Request Nat Nat)) :=
      [[.insert 3 31, .erase 7], [.take 0, .insert 8 80], [.clear]]
    let visits := (tour s 0 weeding (step s (.cursor 0) session).2).visits
    let left := (tour s 0 weeding (step s (.cursor 0) session).2).last.world.table
    let indexes := (tour s 0 changing (step s (.cursor 0) session).2).visits.map (Visit.index 0)
    (visits.map (fun v => (v.entry? 0).map Entry.pair) =
        [some (0, 1), some (3, 30), some (7, 70)] ∧
      left.entryAt? 0 = none ∧ left.entryAt? 3 = some ⟨3, 3, 30⟩ ∧ left.entryAt? 7 = none) ∧
    (indexes = [0, 3] ∧ indexes.Pairwise (· < ·)) := by
  intro s session₀ session weeding changing visits left indexes
  have hstart : Session.start s 8 none none = .ok session₀ := rfl
  have hintact : Intact s session := (Intact.start hstart).run _ (by simp)
  have hexact := hintact.sound.exact
  have hlist : session.world.table.collect = .ok [(0, 1), (3, 30), (7, 70)] := by decide +kernel
  refine ⟨?_, by decide +kernel, ?_⟩
  · have hgentle : (tour s 0 weeding (step s (.cursor 0) session).2).All s (Gentle s 0) := by
      decide +kernel
    obtain ⟨_, _, _, hended⟩ := cursor_walk hintact.reachable hexact hgentle
    obtain ⟨_, hweeded⟩ := hended (by decide +kernel)
    obtain ⟨⟨items, hitems, hvisits⟩, hleft⟩ := hweeded (by decide +kernel)
    rw [hlist] at hitems
    rw [← Except.ok.inj hitems] at hvisits
    refine ⟨hvisits, (hleft 0).trans ?_, (hleft 3).trans ?_, (hleft 7).trans ?_⟩
    · decide +kernel
    · decide +kernel
    · decide +kernel
  · have hgentle : (tour s 0 changing (step s (.cursor 0) session).2).All s (Gentle s 0) := by
      decide +kernel
    obtain ⟨⟨hascends, _⟩, _⟩ := cursor_walk hintact.reachable hexact hgentle
    exact hascends

end Session

end OpenAddressing
