/-!
# Faults and acts

A call on a map either returns or stops with a *fault*. A fault does not undo
what the call has already done: the state stays as the fault left it, and the
next call starts from there. `Act` is the type of such calls; it is the only
notion of effect in this library.

Faults are named by their cause. Some of them guard against states that the
operations never reach, so that "never happens" is a statement about this type
and not a silence in the code.

Code that the map was handed may give up as well, a hook as much as the hash, the equality
or the probe function, and with any fault it likes. What the map passes on is only the text
(`Fault.asClient`), so every other fault of a call is one that the map itself has raised.
-/

namespace OpenAddressing

/-- The causes for which a call stops before it returns. -/
inductive Fault where
  /-- More buckets were asked for than an allocation can hold. -/
  | capacityOverflow
  /-- A full lap of `capacity` steps met no bucket that an entry could go to. -/
  | probeExhausted (capacity : Nat)
  /-- The probe function left the bucket array. -/
  | probeOutOfRange (index capacity : Nat)
  /-- A callback called a lookup of the very map that was running it. -/
  | reentrant
  /-- A sum does not fit a machine word. -/
  | addOverflow
  /-- A difference is negative. -/
  | subOverflow
  /-- A product does not fit a machine word. -/
  | mulOverflow
  /-- A remainder by zero was asked for. -/
  | remByZero
  /-- Clearing released another number of entries than the map had counted. -/
  | clearMiscount (released counted : Nat)
  /-- A rebuild moved another number of entries than the map had counted. -/
  | rebuildMiscount (moved counted : Nat)
  /-- A snapshot collected another number of items than the map had counted. -/
  | snapshotMiscount (collected counted : Nat)
  /-- A slot was asked of a table without buckets. -/
  | unallocated
  /-- An insertion left the table at or above its maximum load. -/
  | overloaded
  /-- A bucket index lies outside the array. -/
  | indexOutOfBounds (index size : Nat)
  /-- A bucket was not in the state that the operation on it needs. -/
  | wrongBucket (index : Nat)
  /-- A rebuild met an entry that matched one already moved. -/
  | duplicateEntry
  /-- Code that the map was handed gave up with a message of its own. -/
  | client (message : String)
deriving DecidableEq, Repr

/-- The text of a fault, as it is reported. -/
def Fault.message : Fault → String
  | .capacityOverflow => "capacity overflow"
  | .probeExhausted capacity =>
      s!"probe sequence exhausted {capacity} buckets without a free slot"
  | .probeOutOfRange index capacity =>
      s!"probe returned index {index} outside capacity {capacity}"
  | .reentrant => "reentrant call into OpenHashMap while it is probing"
  | .addOverflow => "attempt to add with overflow"
  | .subOverflow => "attempt to subtract with overflow"
  | .mulOverflow => "attempt to multiply with overflow"
  | .remByZero => "attempt to calculate the remainder with a divisor of zero"
  | .clearMiscount released counted =>
      miscount "clear released a different count" released counted
  | .rebuildMiscount moved counted =>
      miscount "rehash moved a different number of entries" moved counted
  | .snapshotMiscount collected counted =>
      miscount "snapshot length differs from map length" collected counted
  | .unallocated => "acquire on an unallocated table"
  | .overloaded => "load factor reached its maximum after set"
  | .indexOutOfBounds index size =>
      s!"index out of bounds: the len is {size} but the index is {index}"
  | .wrongBucket index => s!"bucket {index} is not in the expected state"
  | .duplicateEntry => "rehash matched an existing key"
  | .client message => message
where
  /-- The text for two counts that ought to agree. -/
  miscount (what : String) (left right : Nat) : String :=
    s!"assertion `left == right` failed: {what}\n  left: {left}\n right: {right}"

/-- The fault of a call that stops because code that the map was handed has given up. -/
def Fault.asClient (f : Fault) : Fault := .client f.message

/-- A call that reads and writes a state `σ` and may stop with a fault. -/
abbrev Act (σ : Type) := EStateM Fault σ

namespace Act

variable {σ α : Type}

/-- A computation without state, run as a call that leaves the state alone. -/
def lift (r : Except Fault α) : Act σ α := fun s =>
  match r with
  | .ok a => .ok a s
  | .error e => .error e s

/-- Stops with a fault unless a condition holds. -/
def require (p : Prop) [Decidable p] (fault : Fault) : Act σ Unit :=
  if p then pure () else throw fault

/-- Runs `act` if a condition holds. -/
def onlyIf (p : Prop) [Decidable p] (act : Act σ Unit) : Act σ Unit :=
  if p then act else pure ()

/-- Runs `act` and applies `f` to the state it leaves, whether it returned or not. -/
def andFinally (act : Act σ α) (f : σ → σ) : Act σ α := fun s =>
  match act s with
  | .ok a s' => .ok a (f s')
  | .error e s' => .error e (f s')

/-- Runs code that the map was handed: it may give up, but not in the name of the map. -/
def asClient (act : Act σ α) : Act σ α := fun s =>
  match act s with
  | .ok a s' => .ok a s'
  | .error e s' => .error e.asClient s'

/-- Runs `act` for its answer or its fault: neither stops the call around it. -/
def attempt (act : Act σ α) : Act σ (Except Fault α) := fun s =>
  match act s with
  | .ok a s' => .ok (.ok a) s'
  | .error e s' => .ok (.error e) s'

end Act

end OpenAddressing
