import OpenAddressing.Session.Request

/-!
# Sessions

A session is a world and the cursors that a client keeps for it. `Session.serve`
answers one request with callbacks that may be interrupted, `Session.handle` does so
without interruptions, and `Session.run` answers a list of requests: a fault ends the
request it occurs in, and the next request finds what that fault left behind.

`Session.start` makes the map, which may fail for the capacity asked for, and
`Session.finish` disposes of it.
-/

namespace OpenAddressing

/-- A world, and the cursors kept for it in numbered registers. -/
structure Session (K V : Type) where
  world : World K V (Journal K V)
  cursors : Nat → Cursor := fun _ => ⟨0⟩

namespace World

variable {K V τ : Type}

/-- Answers a lookup. -/
def answer (cb : Callbacks K V τ) : Lookup K → Act (World K V τ) (Answer K V)
  | .get k => return .value (← get? cb k)
  | .getEntry k => return .entry (← getEntry? cb k)
  | .contains k => return .flag (← contains cb k)

/-- The pairs that a walk over the whole map visits. -/
def items : Act (World K V τ) (List (K × V)) := do Act.lift (← get).table.collect

/-- Answers an inquiry with a number; of a lookup it only matters that it returns. -/
def inquire (cb : Callbacks K V τ) : Inquiry K → Act (World K V τ) Nat
  | .lookup l => do discard (answer cb l); return 0
  | .size => return (← get).table.live
  | .walked => return (← items).length

/-- Answers a lookup while a callback makes an inquiry; at each call of a callback,
`interrupt` runs as well. -/
def answerNested (s : Strategy K) (interrupt : Interrupt K V) (l : Lookup K) (via : Callback)
    (inquiry : Inquiry K) :
    Act (World K V (Journal K V)) (Except Fault (Answer K V) × InquiryResult) := do
  let start := (← get).client.length
  let inner := inquire (s.interrupted interrupt) inquiry
  let outer ← (answer (s.reentering interrupt via inner start) l).attempt
  let events := (← get).client.since start
  let returned := events.findSome? fun
    | .returned n => some n
    | _ => none
  let result :=
    match returned with
    | some n => .returned n
    | none => if Journal.calls events via = 0 then .notCalled else .stopped
  return (outer, result)

/-- What the map says of itself. -/
def summary : Act (World K V τ) Summary := do
  let w ← get
  let loadFactor ← Act.lift w.table.loadFactor
  return {
    size := w.table.live
    capacity := w.table.capacity
    tombs := w.table.tombs
    loadFactor
    keyHook := w.keyHook.isSome
    valueHook := w.valueHook.isSome }

/-- Walks over some entries. -/
def walk (part : Part) (limit : Option Nat) : Act (World K V τ) (WalkReport K V) := do
  let t := (← get).table
  let begun := Walk.start t
  let stretch ← Act.lift (Walk.visit t (limit.getD (begun.remaining + 1)) begun)
  let rest ← Act.lift (stretch.left.collect t)
  return {
    items := stretch.items.map fun (_, e) => part.view e
    lengths := stretch.lengths
    remaining := stretch.left.remaining
    ended := stretch.ended
    rest := rest.map part.view }

/-- Walks over some entries and changes their values. -/
def updateWalk (part : Part) (limit : Option Nat) (f : V → V) :
    Act (World K V τ) (WalkReport K V) := do
  let t := (← get).table
  let begun := Walk.start t
  let stretch ← Act.lift (Walk.visit t (limit.getD (begun.remaining + 1)) begun)
  onTable (Table.updateAll f (stretch.items.map Prod.fst))
  let rest ← Act.lift (stretch.left.collect t)
  return {
    items := stretch.items.map fun (_, k, v) => part.view (k, f v)
    lengths := stretch.lengths
    remaining := stretch.left.remaining
    ended := stretch.ended
    rest := rest.map part.view }

/-- Takes a snapshot, looks at it and releases it. -/
def inspectSnapshot (part : Part) (positions : List Nat) :
    Act (World K V τ) (Option (SnapshotReport K V)) := do
  match ← snapshot part with
  | none => return none
  | some s =>
      let report := s.report positions (← get).heap
      releaseSnapshot
      return some (← Act.lift report)

end World

namespace Session

variable {K V α : Type}

/-- An act on the world of a session. -/
def onWorld (act : Act (World K V (Journal K V)) α) : Act (Session K V) α :=
  fun ⟨world, cursors⟩ =>
    match act world with
    | .ok a world => .ok a ⟨world, cursors⟩
    | .error e world => .error e ⟨world, cursors⟩

/-- The cursor in a register, and the table that it is read against. -/
def readCursor (r : Nat) : Act (Session K V) (Cursor × Table K V) := do
  let s ← get
  return (s.cursors r, s.world.table)

/-- Puts a cursor into a register and answers with its index. -/
def writeCursor (r : Nat) (c : Cursor) : Act (Session K V) (Reply K V) := do
  modify fun s => { s with cursors := fun r' => if r' = r then c else s.cursors r' }
  return .index c.index

/-- Answers a request; at each call of a callback, `interrupt` runs as well. -/
def serve (s : Strategy K) (interrupt : Interrupt K V) :
    Request K V → Act (Session K V) (Reply K V)
  | .lookup l => onWorld do return .answer (← World.answer (s.interrupted interrupt) l)
  | .nested l via inquiry => onWorld do
      let (outer, inner) ← World.answerNested s interrupt l via inquiry
      return .nested outer inner
  | .getEach ks => onWorld do return .values (← ks.mapM (World.get? (s.interrupted interrupt)))
  | .containsEach ks => onWorld do
      return .flags (← ks.mapM (World.contains (s.interrupted interrupt)))
  | .update k f => onWorld do return .value (← World.update (s.interrupted interrupt) k f)
  | .insert k v => onWorld do World.insert (s.interrupted interrupt) k v; return .done
  | .insertAll items => onWorld do World.insertAll (s.interrupted interrupt) items; return .done
  | .erase k => onWorld do return .flag (← World.erase (s.interrupted interrupt) k)
  | .eraseEach ks => onWorld do return .flags (← ks.mapM (World.erase (s.interrupted interrupt)))
  | .take k => onWorld do return .pair (← World.take (s.interrupted interrupt) k)
  | .rehash capacity => onWorld do World.rehash (s.interrupted interrupt) capacity; return .done
  | .reserve extra => onWorld do World.reserve (s.interrupted interrupt) extra; return .done
  | .clear => onWorld do World.clear; return .done
  | .setKeyHook hook => onWorld do
      modify fun w => { w with keyHook := hook }
      return .done
  | .setValueHook hook => onWorld do
      modify fun w => { w with valueHook := hook }
      return .done
  | .summary => onWorld do return .summary (← World.summary)
  | .hash k => onWorld do return .hash (← (s.interrupted interrupt).hash k)
  | .equal a b => onWorld do return .flag (← (s.interrupted interrupt).equals a b)
  | .probe i capacity => onWorld do return .index (← (s.interrupted interrupt).probe i capacity)
  | .entries => do
      let t := (← get).world.table
      return .entries (t.indexedEntries.map fun (i, e) => (i, e.pair))
  | .items => onWorld do return .items (← World.items)
  | .walk part limit => onWorld do return .walked (← World.walk part limit)
  | .updateWalk part limit f => onWorld do return .walked (← World.updateWalk part limit f)
  | .snapshot part positions => onWorld do
      return .snapshot (← World.inspectSnapshot part positions)
  | .cursor r => do writeCursor r (.first (← get).world.table)
  | .advance r => do
      let (c, t) ← readCursor r
      writeCursor r (← Act.lift (c.advance t))
  | .copyCursor r source => do
      let (c, _) ← readCursor source
      writeCursor r c
  | .sameCursor r₁ r₂ => do
      let (c₁, _) ← readCursor r₁
      let (c₂, _) ← readCursor r₂
      return .flag (c₁ = c₂)
  | .look r => do
      let (c, t) ← readCursor r
      return .seen c (c.isValid t) (c.key? t) (c.value? t)
  | .updateAt r f => do
      let (c, _) ← readCursor r
      onWorld do return .value (← c.update f)
  | .eraseAt r => do
      let (c, _) ← readCursor r
      onWorld do return .flag (← c.erase)
  | .takeAt r => do
      let (c, _) ← readCursor r
      onWorld do return .pair (← c.take)
  | .sweep stride => onWorld do return .keys (← World.sweep stride)

/-- Answers a request. -/
def handle (s : Strategy K) : Request K V → Act (Session K V) (Reply K V) := serve s .none

/-- The reply to a request, or its fault, and the session after it. -/
def step (s : Strategy K) (r : Request K V) (session : Session K V) :
    Except Fault (Reply K V) × Session K V :=
  match handle s r session with
  | .ok reply session' => (.ok reply, session')
  | .error fault session' => (.error fault, session')

/-- The replies to a list of requests, and the session after the last one. -/
def run (s : Strategy K) : List (Request K V) → Session K V →
    List (Except Fault (Reply K V)) × Session K V
  | [], session => ([], session)
  | r :: rs, session =>
      let (reply, session') := step s r session
      let (replies, session'') := run s rs session'
      (reply :: replies, session'')

/-- A session on a new map with `capacity` buckets; none are allocated for zero. -/
def start (s : Strategy K) (capacity : Nat) (keyHook : Option (Hook (Journal K V) K))
    (valueHook : Option (Hook (Journal K V) V)) : Except Fault (Session K V) :=
  (World.create s.callbacks capacity keyHook valueHook []).map fun w => { world := w }

/-- Disposes of the map: the fault that this meets, if any, and what is left. -/
def finish (session : Session K V) : Except Fault Unit × World K V (Journal K V) :=
  match World.dispose session.world with
  | .ok _ w => (.ok (), w)
  | .error fault w => (.error fault, w)

end Session

end OpenAddressing
