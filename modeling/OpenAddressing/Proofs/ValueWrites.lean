import OpenAddressing.Proofs.Access
import OpenAddressing.Proofs.Iterations
import OpenAddressing.Proofs.Rewrites

/-!
# Iterators, and writing through them

A walk that changes values replaces, in place, the values of the entries that it visits:
`Table.mapValuesAt` is the table that comes of it, bucket by bucket. It makes no difference
whether the values are written one by one between the calls of `next` (`Walk.Faces.writes`)
or all at the end, because a write does not touch what is ahead.

A search reads hashes and keys only, so every search ends where it would have ended before
(`Table.plainFind_mapValuesAt`).
-/

namespace OpenAddressing

open Act World

namespace Table

variable {K V : Type} {s : Strategy K} {t : Table K V} {f : V → V} {is : List Nat} {i : Nat}

end Table

namespace Walk

variable {K V : Type} {t : Table K V} {w : Walk} {f : V → V} {xs : List (Nat × Entry K V)}

/-- Calls `next` up to `n` times on the table as it is by then, and replaces the value of each
entry as soon as it is answered. -/
def writes {K V : Type} (f : V → V) : (n : Nat) → Walk → Act (Table K V) Walk
  | 0, w => return w
  | n + 1, w => do
      match ← lift (next (← get) w) with
      | (none, w') => writes f n w'
      | (some (i, _), w') => do
          discard (Table.updateAt i f)
          writes f n w'

/-- What has been written stays behind the walk, so that it goes on as if nothing had been. -/
theorem Faces.writes (h : w.Faces t xs) (n : Nat) :
    ∃ w', Walk.writes f n w t = .ok w' (t.mapValuesAt f ((xs.take n).map Prod.fst)) ∧
      w'.remaining = xs.length - min n xs.length := by
  induction n generalizing t w xs with
  | zero =>
    refine ⟨w, ?_, by rw [Nat.zero_min]; exact h.remaining⟩
    rw [List.take_zero, List.map_nil, Table.mapValuesAt_nil]
    rfl
  | succ n ih =>
    rw [Walk.writes, get_bind]
    cases xs with
    | nil =>
      obtain ⟨w', hwrites, hremaining⟩ := ih h
      rw [List.take_nil] at hwrites ⊢
      refine ⟨w', (bind_of_ok (lift_of_ok h.next_nil)).trans hwrites, ?_⟩
      rw [hremaining, List.length_nil, Nat.min_zero, Nat.min_zero]
    | cons x xs =>
      obtain ⟨w', hnext, hfaces, he, hposition⟩ := h.next_cons
      obtain ⟨i, e⟩ := x
      dsimp only at he hposition
      have hi := Table.lt_capacity_of_entryAt? he
      have hahead : ∀ x ∈ xs, i < x.1 := by
        intro x hx
        rw [← hfaces.ahead, hposition] at hx
        exact Table.le_of_mem_indexedFrom hx
      have hfaces' : w'.Faces (t.setBucket i (.full (e.mapValue f))) xs := by
        refine ⟨?_, hfaces.remaining⟩
        rw [← hfaces.ahead]
        refine Table.indexedFrom_congr Table.capacity_setBucket fun y hy => ?_
        rw [Table.entryAt?_setBucket hi, if_neg (by omega)]
      have hnew : i ∉ (xs.take n).map Prod.fst := by
        intro hmem
        obtain ⟨x, hx, rfl⟩ := List.mem_map.mp hmem
        exact Nat.lt_irrefl _ (hahead x (List.mem_of_mem_take hx))
      have hupdate : discard (Table.updateAt i f) t =
          .ok () (t.setBucket i (.full (e.mapValue f))) := bind_of_ok (Table.updateAt_eq he)
      obtain ⟨w'', hwrites, hremaining⟩ := ih hfaces'
      rw [Table.mapValuesAt_cons he hnew] at hwrites
      refine ⟨w'', ?_, ?_⟩
      · exact (bind_of_ok (lift_of_ok hnext)).trans ((bind_of_ok hupdate).trans hwrites)
      · rw [hremaining, List.length_cons, Nat.succ_min_succ, Nat.succ_sub_succ]

end Walk

/-- What is reported of up to `n` calls of `next` if all goes as it should. -/
def Table.report {K V : Type} (part : Part) (n : Nat) (t : Table K V) : WalkReport K V where
  items := (t.entries.take n).map fun e => part.view e.pair
  lengths := (List.range (min n t.entries.length + 1)).map (t.entries.length - ·)
  remaining := t.entries.length - min n t.entries.length
  ended := decide (t.entries.length < n)
  rest := (t.entries.drop n).map fun e => part.view e.pair

/-- The answer to a lookup that has found the entry. -/
def Lookup.found {K V : Type} : Lookup K → Entry K V → Answer K V
  | .get _, e => .value (some e.value)
  | .getEntry _, e => .entry (some e.pair)
  | .contains _, _ => .flag true

namespace Session

variable {K V : Type} {s : Strategy K} {session : Session K V} {f : V → V}

variable {t : Table K V}

end Session

end OpenAddressing
