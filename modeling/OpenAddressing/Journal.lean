import OpenAddressing.World
import OpenAddressing.Probe

/-!
# Strategies and the journal

A *strategy* is a choice of hash, equality and probe function that have no memory:
plain functions. Its callbacks write down each call in a journal, which is the
client of the world, before they answer. Hooks that write into the same journal
make it a record of all that a map has called, in order.

More may happen when a callback is called, and it may end in a fault: this is an
`Interrupt`. The one that the client is free to choose acts on the journal alone. A
callback may also call the map itself. `Strategy.reentering` does so once, at the first
call of one of the three callbacks.
-/

namespace OpenAddressing

/-- One call of the client. -/
inductive Event (K V : Type) where
  | hashed (k : K)
  /-- The key that was looked up, then the stored one. -/
  | compared (a b : K)
  | probed (index capacity : Nat)
  /-- A hook, by its label, took over a key. -/
  | keyReleased (label : String) (k : K)
  /-- A hook, by its label, took over a value. -/
  | valueReleased (label : String) (v : V)
  /-- A call of the map from inside a callback came back with a number. -/
  | returned (answer : Nat)
deriving DecidableEq, Repr

/-- The callbacks that find the way through a table. -/
inductive Callback where
  | hash
  | equals
  | probe
deriving DecidableEq, Repr

/-- The callback that was called, if it was one. -/
def Event.callback? {K V : Type} : Event K V → Option Callback
  | .hashed _ => some .hash
  | .compared _ _ => some .equals
  | .probed _ _ => some .probe
  | _ => none

/-- The calls so far, the last one first. -/
abbrev Journal (K V : Type) := List (Event K V)

namespace Journal

variable {K V : Type}

/-- The calls after the first `n`, in the order in which they were made. -/
def since (j : Journal K V) (n : Nat) : List (Event K V) := (j.take (j.length - n)).reverse

/-- How often a callback was called. -/
def calls (events : List (Event K V)) (c : Callback) : Nat :=
  events.countP fun e => e.callback? = some c

/-- Writes a call down. -/
def note (e : Event K V) : Act (Journal K V) Unit := modify (e :: ·)

end Journal

/-- A hash, an equality and a probe function without memory, and the limit of the
allocator. -/
structure Strategy (K : Type) where
  hash : K → UInt64
  equals : K → K → Bool
  /-- A probe function of the client's; without one, the map probes linearly by
  itself, which calls nothing. -/
  probe? : Option Probe := none
  limit : BucketLimit := {}

/-- What else happens when a callback is called, after the call is written down and before
it is answered. -/
abbrev Interrupt (K V : Type) := Callback → Act (World K V (Journal K V)) Unit

/-- Nothing else happens. -/
abbrev Interrupt.none {K V : Type} : Interrupt K V := fun _ => pure ()

namespace Strategy

variable {K V : Type}

/-- The function that the strategy probes with. -/
def probe (s : Strategy K) : Probe :=
  match s.probe? with
  | none => Probe.linear
  | some p => fun i capacity => (p i capacity).mapError Fault.asClient

/-- The strategy as callbacks: each call is written down, then `interrupt` runs, then
the answer is given. -/
def interrupted (s : Strategy K) (interrupt : Interrupt K V) : Callbacks K V (Journal K V) where
  hash k := do
    World.onClient (Journal.note (.hashed k))
    interrupt .hash
    return s.hash k
  equals a b := do
    World.onClient (Journal.note (.compared a b))
    interrupt .equals
    return s.equals a b
  probe i capacity :=
    match s.probe? with
    | none => Act.lift (s.probe i capacity)
    | some _ => do
        World.onClient (Journal.note (.probed i capacity))
        interrupt .probe
        Act.lift (s.probe i capacity)
  limit := s.limit

/-- The strategy as callbacks that only write down each call. -/
def callbacks (s : Strategy K) : Callbacks K V (Journal K V) :=
  s.interrupted .none

/-- The interrupted strategy as callbacks that also call the map: when `via` is called for
the first time since the journal had `start` entries, `inner` runs, and what it comes
back with is written down. -/
def reentering (s : Strategy K) (interrupt : Interrupt K V) (via : Callback)
    (inner : Act (World K V (Journal K V)) Nat) (start : Nat) : Callbacks K V (Journal K V) :=
  s.interrupted fun c => do
    interrupt c
    let calls := Journal.calls ((← get).client.since start) c
    Act.onlyIf (c = via ∧ calls = 1) do
      let answer ← inner
      World.onClient (Journal.note (.returned answer))

end Strategy

namespace Hook

variable {K V : Type}

/-- Writes a key down and lets it go. -/
def recordKey (label : String) : Hook (Journal K V) K := fun k =>
  Journal.note (.keyReleased label k)

/-- Writes a value down and lets it go. -/
def recordValue (label : String) : Hook (Journal K V) V := fun v =>
  Journal.note (.valueReleased label v)

/-- Runs a hook and then gives up. -/
def failing {τ α : Type} (hook : Hook τ α) (message : String) : Hook τ α := fun a => do
  hook a
  throw (.client message)

end Hook

end OpenAddressing
