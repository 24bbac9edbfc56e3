import OpenAddressing.Proofs.Sessions

/-!
# What an interrupted clear leaves behind

A hook that gives up while the map is cleared finds the table half way between two
states: the buckets up to the entry it was handed are empty, those behind are as they
were, and the counters still count all that was there before the clear began. Nothing
puts this right again before the next rebuild (`Session.interrupted_clear`):

* The map counts more entries than it has, and a walk ends short of its own count.
* A later clear, or the end of the map, releases what is left and then stops with a
  miscount, even if no hook gives up any more.
* An entry that is left is found only if none of the emptied buckets lies on its path;
  a search for one behind such a bucket ends there and finds nothing. Tombstones that
  have been emptied cut paths in the same way as entries.
-/

namespace OpenAddressing

open Act World

namespace Table

variable {K V : Type} {s : Strategy K} {p : Probe} {t : Table K V} {hash : UInt64}
  {n i : Nat} {e : Entry K V}

/-- With the first `n` buckets emptied, a search reaches what it reached before exactly if
its path does not touch them. -/
theorem reaches_vacated_iff (h : t.Reaches p hash i) :
    (t.vacated n).Reaches p hash i ↔
      ∃ j < t.capacity, p.nth? t.capacity (Probe.home hash t.capacity) j = some i ∧
        ∀ a < j, ∀ x, p.nth? t.capacity (Probe.home hash t.capacity) a = some x → n ≤ x := by
  have hcap : (t.vacated n).capacity = t.capacity := capacity_vacated
  have hsize : (t.vacated n).buckets.size = t.buckets.size := hcap
  unfold Reaches at h ⊢
  rw [hcap]
  constructor
  · rintro ⟨j, hj, hi, hpath⟩
    rw [hsize] at hi hpath
    refine ⟨j, hj, hi, fun a ha x hx => ?_⟩
    -- an emptied bucket would have ended the search
    have hlt : x < t.capacity := Probe.nth?_lt (Probe.home_lt (by omega)) hx
    obtain ⟨b, hb⟩ := exists_bucket hlt
    have hne := hpath a ha x hx
    rw [getElem?_vacated, hb] at hne
    by_contra hxn
    exact hne (by simp [show x < n by omega])
  · rintro ⟨j, hj, hi, hpath⟩
    obtain ⟨j₀, hj₀, hi₀, hpath₀⟩ := h
    -- the shorter of the two ways to the bucket
    refine ⟨min j j₀, by omega, ?_, fun a ha x hx => ?_⟩
    · rw [hsize]
      rcases Nat.le_total j j₀ with hle | hle
      · rw [Nat.min_eq_left hle]; exact hi
      · rw [Nat.min_eq_right hle]; exact hi₀
    · rw [hsize] at hx
      have hn : n ≤ x := hpath a (by omega) x hx
      have hne : t.buckets[x]? ≠ some .empty := hpath₀ a (by omega) x hx
      rw [getElem?_vacated]
      cases hb : t.buckets[x]? with
      | none => simp
      | some b =>
        rw [hb] at hne
        simpa [show ¬ x < n by omega] using hne

/-- When the buckets up to an entry have been emptied, a walk shows what is left, and that
is less than the map still counts. -/
theorem Exact.toList_vacated (h : t.Exact) (he : t.entryAt? i = some e) :
    let left := t.vacated (i + 1)
    left.toList = (t.entriesFrom (i + 1)).map Entry.pair ∧
      left.toList.length = left.fullCount ∧ left.fullCount < t.live := by
  intro left
  have hfull : left.fullCount = (t.entriesFrom (i + 1)).length := by
    rw [← length_entries, entries_vacated]
  have hfewer : left.fullCount < t.live := by
    have hsplit : t.entriesFrom i = e :: t.entriesFrom (i + 1) := by
      rw [entriesFrom_of_entryAt? (lt_capacity_of_entryAt? he), he]; rfl
    have hle : (t.vacated i).fullCount ≤ t.fullCount := fullCount_vacated_le
    rw [← length_entries, entries_vacated, hsplit, List.length_cons] at hle
    have hlive := h.live_eq
    omega
  have hlist : left.toList = (t.entriesFrom (i + 1)).map Entry.pair := by
    rw [Table.toList_eq, List.take_of_length_le]
    · rw [entries_vacated]
    · have hlive : left.live = t.live := rfl
      rw [length_entries]
      omega
  exact ⟨hlist, by rw [hlist, List.length_map, hfull], hfewer⟩

/-- After the first `n` buckets have been emptied, an entry behind them is found by a
search for its key if the search still reaches it, and else nothing is found. -/
theorem Sound.plainFind_vacated (h : Sound s t) (hlaw : s.Lawful)
    (hrange : s.probe.InRange t.capacity) (he : t.entryAt? i = some e) (hi : n ≤ i) :
    ((t.vacated n).Reaches s.probe e.hash i → (t.vacated n).plainFind s e.key = .ok (some i)) ∧
      (¬ (t.vacated n).Reaches s.probe e.hash i →
        (t.vacated n).plainFind s e.key = .ok none) := by
  have hcap : (t.vacated n).capacity = t.capacity := capacity_vacated
  have hpos : 0 < t.capacity := Nat.lt_of_le_of_lt (Nat.zero_le _) (lt_capacity_of_entryAt? he)
  have hhash : e.hash = s.hash e.key := h.hashed e (mem_entries_iff.mpr ⟨i, he⟩)
  have he' : (t.vacated n).entryAt? i = some e := by
    rw [entryAt?_vacated, if_neg (by omega)]; exact he
  -- the search ends by itself, and an entry that it ends at has an equal key
  obtain ⟨landing, hl⟩ : ∃ landing, Seek.plainSeek s.probe (s.equals e.key) (s.hash e.key)
      (t.vacated n).buckets = .ok landing := by
    have hrange' : s.probe.InRange (t.vacated n).capacity := hcap.symm ▸ hrange
    exact Seek.exists_landing hrange' (Probe.home_lt (Nat.lt_of_lt_of_eq hpos hcap.symm))
  have hfind : (t.vacated n).plainFind s e.key = .ok landing.found? :=
    plainFind_of_plainSeek (by omega) hl
  have hhit : ∀ x, landing = .hit x → x = i ∧ (t.vacated n).Reaches s.probe e.hash i := by
    intro x hx
    subst hx
    obtain ⟨⟨a, ha, _, hkey⟩, hreach⟩ := plainSeek_hit hl
    rw [entryAt?_vacated] at ha
    split at ha
    · exact absurd ha (by simp)
    · obtain rfl := h.eq_of_equals hlaw he ha hkey
      exact ⟨rfl, hhash ▸ hreach⟩
  refine ⟨fun hreach => ?_, fun hreach => ?_⟩
  · have hfit : Seek.Fits (s.equals e.key) (s.hash e.key) e := ⟨hhash, hlaw.equiv.refl e.key⟩
    obtain ⟨x, hx⟩ := exists_plainSeek_hit he' (hhash ▸ hreach) hfit
    rw [hl] at hx
    have hx' : landing = .hit x := Except.ok.inj hx
    rw [hfind, hx', (hhit x hx').1]
    rfl
  · rw [hfind]
    cases landing with
    | hit x => exact absurd (hhit x rfl).2 hreach
    | gap x tomb => rfl
    | lap tomb => rfl

end Table

namespace Session

variable {K V : Type} {s : Strategy K} {session session' : Session K V} {f : Fault} {k : K}

/-- The answer to a lookup is the value in the bucket that the search finds. -/
theorem step_get {i? : Option Nat} (hp : session.world.probing = false)
    (hfind : session.world.table.plainFind s k = .ok i?) :
    (step s (.lookup (.get k)) session).1 =
      .ok (.answer (.value ((i?.bind session.world.table.entryAt?).map Entry.value))) := by
  have hends : (handle s (.lookup (.get k))).Ends session
      (fun reply _ => reply =
        .answer (.value ((i?.bind session.world.table.entryAt?).map Entry.value)))
      fun _ _ => False := by
    refine ends_onWorld.mpr ?_
    unfold World.answer World.get?
    simp only [ends_bind]
    refine (getEntry?_ends s.callbacks_plain).imp (fun r w h => ?_) (fun f w h => ?_)
    · obtain ⟨⟨j?, hj?, rfl⟩, _⟩ := h
      rw [hfind] at hj?
      have hij : i? = j? := Except.ok.inj hj?
      subst hij
      simp only [ends_pure, Option.map_map]
      rfl
    · rcases h.1 with herr | ⟨_, hp'⟩
      · rw [hfind] at herr; exact absurd herr (by simp)
      · rw [hp] at hp'; exact absurd hp' (by simp)
  rcases step_cases hends with ⟨reply, _, hstep, hreply⟩ | ⟨_, _, _, hfalse⟩
  · rw [hstep, hreply]
  · exact hfalse.elim

/-- If the counters are wrong and no hook gives up, clearing stops with a miscount, and so
does the end of the map. -/
theorem miscount_of_clear (hw : session.world.AtRest)
    (hne : session.world.table.fullCount ≠ session.world.table.live)
    (hhooks : ∀ f, ¬ session.world.HookRaises f) :
    let fault := Fault.clearMiscount session.world.table.fullCount session.world.table.live
    (step s (.clear : Request K V) session).1 = .error fault ∧
      (finish session).1 = .error fault := by
  intro fault
  have hstop : ∀ f w', session.world.ClearStop w' f → f = fault := by
    intro f w' h
    cases h with
    | hook _ hraises _ _ => exact absurd hraises (hhooks f)
    | miscount _ _ => rw [Table.length_entries]
  refine ⟨?_, ?_⟩
  · rcases clear_step (s := s) hw with ⟨session', _, hlength⟩ | ⟨f, session', hstep, _, h⟩
    · rw [Table.length_entries] at hlength; exact absurd hlength hne
    · rw [hstep, hstop f _ h]
  · have hends : (dispose : Act (World K V (Journal K V)) Unit).Ends session.world
        (fun _ _ => False) fun f _ => f = fault := by
      unfold dispose
      rw [ends_andFinally]
      refine (clear_stops hw.bounded.capacity_lt).imp (fun _ _ h => ?_) fun f w' h => hstop f w' h.2
      have hlength := h.2.2
      rw [Table.length_entries] at hlength
      exact hne hlength
    unfold finish
    unfold Ends at hends
    cases hrun : dispose session.world with
    | ok _ w => rw [hrun] at hends; exact hends.elim
    | error f w => rw [hrun] at hends; rw [hends]

/-- A clear that a hook interrupts in an intact session stops at the entry `e` of a bucket
`m`. The buckets up to `m` are empty and the others are untouched. The counters are those
from before: the map counts more entries than a walk finds, and a later clear or the end
of the map stops with a miscount, whichever hooks are registered by then. An entry that is
left is found if no emptied bucket lies on its path, and otherwise it is not. -/
theorem interrupted_clear (h : Intact s session)
    (hstep : step s (.clear : Request K V) session = (.error f, session')) :
    let t := session.world.table
    let t' := session'.world.table
    session.world.HookRaises f ∧ ∃ m e,
      let left := (t.entriesFrom (m + 1)).map Entry.pair
      t.entryAt? m = some e ∧
      (∀ i : Nat, t'.buckets[i]? = t.buckets[i]?.map fun b => if i ≤ m then .empty else b) ∧
      (t'.live = t.live ∧ t'.tombs = t.tombs) ∧
      t'.collect = .ok left ∧ left.length < t'.live ∧
      (∀ kh vh, let later := (run s [.setKeyHook kh, .setValueHook vh] session').2
        (∀ f, ¬ later.world.HookRaises f) →
          let fault := Fault.clearMiscount left.length t'.live
          (step s (.clear : Request K V) later).1 = .error fault ∧
            (finish later).1 = .error fault) ∧
      (s.Lawful → s.probe.InRange t.capacity → ∀ i e, m < i → t.entryAt? i = some e →
        let path := s.probe.nth? t.capacity (Probe.home e.hash t.capacity)
        let found := ∃ j < t.capacity, path j = some i ∧ ∀ a < j, ∀ x, path a = some x → m < x
        let reply := (step s (.lookup (.get e.key)) session').1
        (found → reply = .ok (.answer (.value (some e.value)))) ∧
          (¬ found → reply = .ok (.answer (.value none)))) := by
  intro t t'
  have hsound : Table.Sound s t := h.sound
  have hrest := h.reachable.atRest
  rcases clear_step (s := s) hrest with ⟨_, hstep', _⟩ | ⟨g, session₁, hstep', hsame, hstop⟩
  · rw [hstep] at hstep'; exact absurd (congrArg Prod.fst hstep') (by simp)
  rw [hstep] at hstep'
  obtain ⟨hfg, rfl⟩ := Prod.mk.inj hstep'
  have hfg' : f = g := Except.error.inj hfg
  subst hfg'
  cases hstop with
  | miscount hne _ =>
    -- the counters are exact in an intact session
    rw [Table.length_entries] at hne
    exact absurd hsound.exact.live_eq.symm hne
  | @hook _ m e _ hraises he ht =>
    replace ht : t' = t.vacated (m + 1) := ht
    obtain ⟨hlist, hlength, hfewer⟩ := hsound.exact.toList_vacated he
    rw [← ht] at hlist hlength hfewer
    have hlive' : t'.live = t.live := by rw [ht]; rfl
    have hp' : session'.world.probing = false := hsame.probing.trans hrest.probing_eq
    rw [hlist] at hlength
    refine ⟨hraises, m, e, he, fun i => ?_, ⟨hlive', by rw [ht]; rfl⟩,
      by rw [Table.collect_eq, hlist], by omega, ?_, ?_⟩
    · rw [ht, Table.getElem?_vacated]
      simp only [Nat.lt_succ_iff]
    · intro kh vh later hhooks
      have hbounded : t'.Bounded := ht ▸ hrest.bounded.vacated
      have hne : t'.fullCount ≠ t'.live := by omega
      rw [hlength]
      have hlater : later.world.AtRest := ⟨hbounded, hp'⟩
      exact miscount_of_clear hlater hne hhooks
    · intro hlaw hrange i a hi ha path found reply
      have hreach : t.Reaches s.probe a.hash i := hsound.reached i a ha
      have hfound : (t.vacated (m + 1)).Reaches s.probe a.hash i ↔ found :=
        Table.reaches_vacated_iff hreach
      obtain ⟨hyes, hno⟩ := hsound.plainFind_vacated hlaw hrange ha (n := m + 1) hi
      rw [hfound, ← ht] at hyes hno
      have ha' : t'.entryAt? i = some a := by
        rw [ht, Table.entryAt?_vacated, if_neg (by omega)]; exact ha
      refine ⟨fun hf => ?_, fun hf => ?_⟩
      · have hget := step_get hp' (hyes hf)
        rw [Option.bind_some, ha'] at hget
        exact hget
      · exact step_get hp' (hno hf)

/-- Three keys share their home, the last bucket, so that their chain runs around the end
of the table. The clear is interrupted at the second of them, in bucket 0, and cuts off
the third, in bucket 1: a walk shows its pair, and a search for its key finds nothing. The
map counts three entries where there are two, and cannot be cleared any more. -/
theorem interrupted_clear_wrapped :
    let s : Strategy Nat := { hash := fun k => k.toUInt64, equals := fun a b => a == b }
    let hook : Hook (Journal Nat Nat) Nat := Hook.failing (Hook.recordKey "keys") "no"
    let session₀ : Session Nat Nat :=
      { world := { table := .blank 8, keyHook := some hook, heap := ⟨1, 0⟩, client := [] } }
    let session := (run s [.insert 7 70, .insert 15 150, .insert 23 230] session₀).2
    let session' := (step s .clear session).2
    let later := (run s [.setKeyHook none, .setValueHook none] session').2
    Session.start s 8 (some hook) none = .ok session₀ ∧ s.Lawful ∧
      session'.world.table.live = 3 ∧
      session'.world.table.collect = .ok [(23, 230), (7, 70)] ∧
      (step s (.lookup (.get 23)) session').1 = .ok (.answer (.value none)) ∧
      (step s (.lookup (.get 7)) session').1 = .ok (.answer (.value (some 70))) ∧
      (step s .clear later).1 = .error (.clearMiscount 2 3) ∧
      (finish later).1 = .error (.clearMiscount 2 3) := by
  intro s hook session₀ session session' later
  have hstart : Session.start s 8 (some hook) none = .ok session₀ := rfl
  have hlaw : s.Lawful := by
    refine ⟨⟨fun a => beq_self_eq_true a, fun h => ?_, fun h h' => ?_⟩, fun a b h => ?_⟩
    · rw [eq_of_beq h]; exact beq_self_eq_true _
    · rw [eq_of_beq h]; exact h'
    · rw [eq_of_beq h]
  have hintact : Intact s session := (Intact.start hstart).run _ (by simp)
  have hlive : session'.world.table.live = 3 := by decide +kernel
  have hlist : session'.world.table.collect = .ok [(23, 230), (7, 70)] := by decide +kernel
  obtain ⟨f, hstep⟩ : ∃ f, step s .clear session = (.error f, session') :=
    exists_fault (by decide +kernel)
  obtain ⟨_, m, e, _, hbuckets, _, hleft, _, hlater, hfound⟩ := interrupted_clear hintact hstep
  -- bucket 1 is the first that is left
  have hm : m = 0 := by
    have hleft : session'.world.table.buckets[1]? = session.world.table.buckets[1]? := by
      decide +kernel
    have hfull : session.world.table.buckets[1]? = some (.full ⟨23, 23, 230⟩) := by
      decide +kernel
    have h1 := hbuckets 1
    rw [hleft, hfull] at h1
    by_contra hne
    simp [show 1 ≤ m by omega] at h1
  subst hm
  have hrange : s.probe.InRange session.world.table.capacity :=
    (Probe.linear_covers (by decide +kernel)).inRange
  have hcut := hfound hlaw hrange 1 ⟨23, 23, 230⟩ (by decide) (by decide +kernel)
  have hkept := hfound hlaw hrange 7 ⟨7, 7, 70⟩ (by decide) (by decide +kernel)
  obtain ⟨hclear, hfinish⟩ := hlater none none fun f =>
    not_hookRaises_of_none (Option.isNone_iff_eq_none.mp (by decide +kernel))
      (Option.isNone_iff_eq_none.mp (by decide +kernel))
  rw [← Except.ok.inj (hlist.symm.trans hleft), hlive] at hclear hfinish
  refine ⟨hstart, hlaw, hlive, hlist, hcut.2 ?_, hkept.1 ?_, hclear, hfinish⟩
  · -- the path of the third key goes through bucket 0
    rintro ⟨j, _, hj, hpath⟩
    have h0 : Probe.nth? s.probe session.world.table.capacity
        (Probe.home 23 session.world.table.capacity) 0 = some 7 := by decide +kernel
    have h1 : Probe.nth? s.probe session.world.table.capacity
        (Probe.home 23 session.world.table.capacity) 1 = some 0 := by decide +kernel
    rcases Nat.lt_or_ge 1 j with hlt | hge
    · exact absurd (hpath 1 hlt 0 h1) (by decide)
    · rcases Nat.le_one_iff_eq_zero_or_eq_one.mp hge with rfl | rfl
      · exact absurd (h0.symm.trans hj) (by decide)
      · exact absurd (h1.symm.trans hj) (by decide)
  · exact ⟨0, by decide +kernel, by decide +kernel, fun a ha => absurd ha (by omega)⟩

end Session

end OpenAddressing
