import OpenAddressing.World

/-!
# Walks in bucket order

A walk visits the live entries in bucket order. It carries a count of the entries
still to come, which starts at what the table counts and is what the walk reports
as its length; it ends with the count or with the array, whichever comes first.

A walk only holds a position and the count. Reading walks and walks that change
values are the same walk: the latter write through the index they are given.
-/

namespace OpenAddressing

/-- A walk over a table, under way. -/
structure Walk where
  /-- The first bucket not looked at yet. -/
  position : Nat
  /-- The number of entries still to come. -/
  remaining : Nat
deriving DecidableEq, Repr

/-- What a walk shows of an entry. -/
inductive Part where
  | pair
  | key
  | value
deriving DecidableEq, Repr

/-- An entry as far as it is shown. -/
inductive View (K V : Type) where
  | pair (k : K) (v : V)
  | key (k : K)
  | value (v : V)
deriving DecidableEq, Repr

/-- Shows a part of a pair. -/
def Part.view {K V : Type} : Part → K × V → View K V
  | .pair, (k, v) => .pair k v
  | .key, (k, _) => .key k
  | .value, (_, v) => .value v

namespace Walk

variable {K V : Type}

/-- A walk over all that a table counts. -/
def start (t : Table K V) : Walk := ⟨0, t.live⟩

/-- The next entry with its index, if there is one, and the walk after it. -/
def next (t : Table K V) (w : Walk) : Except Fault (Option (Nat × K × V) × Walk) :=
  if w.remaining = 0 then .ok (none, w)
  else
    match t.nextEntry? w.position with
    | none => .ok (none, { w with position := t.capacity })
    | some (i, e) => do
        let remaining ← Word.sub w.remaining 1
        return (some (i, e.pair), ⟨i + 1, remaining⟩)

/-- What a stretch of a walk has seen. -/
structure Stretch (K V : Type) where
  /-- The entries visited, with their indexes. -/
  items : List (Nat × K × V)
  /-- The length that the walk reported before the first and after every entry. -/
  lengths : List Nat
  /-- The walk came to its end. -/
  ended : Bool
  /-- The walk as it was left. -/
  left : Walk

/-- Visits at most `n` entries. -/
def visit (t : Table K V) : (n : Nat) → Walk → Except Fault (Stretch K V)
  | 0, w => .ok ⟨[], [w.remaining], false, w⟩
  | n + 1, w => do
      match ← next t w with
      | (none, w') => return ⟨[], [w'.remaining], true, w'⟩
      | (some item, w') => do
          let rest ← visit t n w'
          return { rest with items := item :: rest.items, lengths := w.remaining :: rest.lengths }

/-- Visits every entry that is still to come. -/
def visitAll (t : Table K V) (w : Walk) : Except Fault (Stretch K V) :=
  visit t (w.remaining + 1) w

/-- The pairs that are still to come. -/
def collect (t : Table K V) (w : Walk) : Except Fault (List (K × V)) :=
  return (← visitAll t w).items.map Prod.snd

end Walk

/-- The pairs that a walk over the whole table visits. -/
def Table.collect {K V : Type} (t : Table K V) : Except Fault (List (K × V)) :=
  (Walk.start t).collect t

/-- Changes the values of the entries at some indexes in place. -/
def Table.updateAll {K V : Type} (f : V → V) (indexes : List Nat) : Act (Table K V) Unit :=
  indexes.forM fun i => discard (Table.updateAt i f)

end OpenAddressing
