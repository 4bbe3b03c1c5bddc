/-!
# What can go wrong

The causes of failure of every operation, and their texts. An operation works on a state and returns
either a value or a cause; the state it leaves is part of the outcome in both cases, so what a
failed operation did to it can be told.
-/

namespace GatedNetwork

abbrev NeuronId := Nat
abbrev LinkId := Nat
abbrev EnsembleId := Nat
abbrev ProjectionId := Nat
/-- Index into the memory of a program. -/
abbrev Slot := Nat

/-- A place that an id names. -/
inductive Reference where
  | neuron (id : NeuronId)
  | link (id : LinkId)
  | ensemble (id : EnsembleId)
  | projection (id : ProjectionId)
  | slot (slot : Slot)
  /-- A network of a workspace; one that was taken apart is gone. -/
  | network (index : Nat)
deriving DecidableEq, Repr

/-- What the values counted by a size mismatch are. -/
inductive Sized where
  | input
  | target
  | output
  | oneToOneTarget
  | memoryBuffer
  | memoryImage
deriving DecidableEq, Repr

/-- Why a projection has no place to land. -/
inductive DestinationFault where
  | unknownTarget (id : EnsembleId)
  | unknownSource (id : EnsembleId)
  /-- The layer set is bound to another circuit. -/
  | foreignLayers
deriving DecidableEq, Repr

/-- Why a gate cannot be set. -/
inductive GateFault where
  | unknownGater (id : EnsembleId)
  | unknownProjection (id : ProjectionId)
  | sideSize (gaters side : Nat)
  | linkCount (gaters links : Nat)
deriving DecidableEq, Repr

/-- Why stored bytes cannot be read or written. -/
inductive StorageFault where
  /-- The bytes end inside a field of fixed size. -/
  | endOfBytes
  | compression
  | shortChunk
  | unexpectedSize
  | oversizedBlock
  | lengthMismatch
  | chunkTooLarge
  | badMagic
  | unsupportedVersion
  | missingChunk
  /-- The bytes of a memory are more than a word of 64 bits counts. -/
  | imageTooLarge
deriving DecidableEq, Repr

/-- Why a snapshot is refused. -/
inductive SnapshotFault where
  /-- A row of the connections names a neuron past the last one. -/
  | outside (row neurons : Nat)
  /-- The text is no snapshot document. -/
  | unreadable
deriving DecidableEq, Repr

/-- A cause of failure. -/
inductive Error where
  | unlinked (source target : Option NeuronId)
  | sizeMismatch (what : Sized) (expected got : Nat)
  | destination (fault : DestinationFault)
  | unknownEnsemble (id : EnsembleId)
  | gate (fault : GateFault)
  | snapshot (fault : SnapshotFault)
  | image (fault : StorageFault)
  /-- An id that the caller vouches for names nothing. No run goes on after this. -/
  | dangling (reference : Reference)
deriving DecidableEq, Repr

namespace Sized

def text : Sized → String
  | input => "input"
  | target => "target"
  | output => "output"
  | oneToOneTarget => "one-to-one projection target"
  | memoryBuffer => "memory buffer"
  | memoryImage => "memory image"

end Sized

namespace Reference

def text : Reference → String
  | neuron id => s!"unit {id}"
  | link id => s!"link {id}"
  | ensemble id => s!"ensemble {id}"
  | projection id => s!"link group {id}"
  | slot s => s!"slot {s}"
  | network i => s!"network {i}"

end Reference

namespace DestinationFault

def text : DestinationFault → String
  | unknownTarget id => s!"ensemble {id} does not belong to this circuit"
  | unknownSource id => s!"source ensemble {id} does not belong to this circuit"
  | foreignLayers => "layer set belongs to another circuit"

end DestinationFault

namespace GateFault

def text : GateFault → String
  | unknownGater id => s!"unknown gater ensemble {id}"
  | unknownProjection id => s!"unknown link group {id}"
  | sideSize gaters side => s!"gater has {gaters} units but the gated side has {side}"
  | linkCount gaters links => s!"gater has {gaters} units but the group has {links} links"

end GateFault

namespace StorageFault

def text : StorageFault → String
  | endOfBytes => "failed to fill whole buffer"
  | compression => "lz4 decompression failed"
  | shortChunk => "chunk shorter than its length prefix"
  | unexpectedSize => "chunk payload size does not match the expected size"
  | oversizedBlock => "compressed chunk larger than its payload allows"
  | lengthMismatch => "chunk length does not match header"
  | chunkTooLarge => "chunk too large"
  | badMagic => "bad magic"
  | unsupportedVersion => "unsupported version"
  | missingChunk => "missing MEMF chunk"
  | imageTooLarge => "memory image too large"

end StorageFault

namespace SnapshotFault

def text : SnapshotFault → String
  | outside row neurons => s!"connection {row} refers to a neuron outside 0..{neurons}"
  | unreadable => "malformed document"

end SnapshotFault

namespace Error

/-- An endpoint as an error names it. -/
def endpointText : Option NeuronId → String
  | none => "None"
  | some id => s!"Some({id})"

/-- The text of a failure. -/
def message : Error → String
  | unlinked source target =>
    "invalid connection: a link needs both endpoints (from: " ++ endpointText source ++ ", to: " ++
      endpointText target ++ ")"
  | sizeMismatch what expected got =>
    s!"{what.text} has {got} values but the ensemble has {expected} units"
  | destination fault => "invalid projection target: " ++ fault.text
  | unknownEnsemble id => s!"unknown ensemble {id}"
  | gate fault => "invalid gate: " ++ fault.text
  | snapshot fault => "snapshot: " ++ fault.text
  | image fault => "memory image: " ++ fault.text
  | dangling reference => reference.text ++ " does not exist"

end Error

/-- An operation on a state of type `σ`. Its outcome is a value or a cause of failure, and the state
it leaves either way. -/
abbrev Op (σ β : Type) := EStateM Error σ β

namespace Op

variable {σ β π : Type}

/-- An operation that first checks everything it needs and then acts without failing.

A failed check leaves the state as it was. -/
def checked (check : σ → Except Error π) (act : π → σ → β × σ) : Op σ β := fun s =>
  match check s with
  | .error e => .error e s
  | .ok plan =>
    let (b, s') := act plan s
    .ok b s'

/-- A value read off the state, or a cause of failure. -/
def read (f : σ → Except Error β) : Op σ β := checked f fun b s => (b, s)

theorem checked_error {check : σ → Except Error π} {act : π → σ → β × σ} {s : σ} {e : Error}
    (h : check s = .error e) : checked check act s = .error e s := by
  simp [checked, h]

theorem checked_ok {check : σ → Except Error π} {act : π → σ → β × σ} {s : σ} {plan : π}
    (h : check s = .ok plan) : checked check act s = .ok (act plan s).1 (act plan s).2 := by
  simp [checked, h]

end Op

/-- Fails with `e` unless `p` holds. -/
def require (p : Bool) (e : Error) : Except Error Unit := if p then .ok () else .error e

@[simp] theorem require_eq_ok_iff {p : Bool} {e : Error} {u : Unit} :
    require p e = .ok u ↔ p = true := by
  cases p <;> simp [require]

/-- Fails unless as many values are given as expected. -/
def checkLength (what : Sized) (expected got : Nat) : Except Error Unit :=
  require (expected == got) (.sizeMismatch what expected got)

@[simp] theorem checkLength_eq_ok_iff {what : Sized} {expected got : Nat} {u : Unit} :
    checkLength what expected got = .ok u ↔ expected = got := by
  simp [checkLength]

end GatedNetwork
