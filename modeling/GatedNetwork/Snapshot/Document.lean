import GatedNetwork.Decimal.Text
import GatedNetwork.Json.Document
import GatedNetwork.Snapshot.Basic

/-!
# Snapshots as documents

The JSON form of a snapshot. Writing is compact, with the fields of a record in a fixed order and
numbers as the shortest decimals that read back; a number that is not finite is written `null`.

Reading takes a record as an object or as the array of its fields. Unknown fields are skipped, a
field given twice is refused, and a missing one too unless it has a value of its own. Only a gater
and a transfer function may be `null`.

Records are written and read in any `NumberFormat`; `write` and `read` use the standard one.
-/

namespace GatedNetwork.Snapshot

open Json

/-! ## Numbers -/

/-- A way to write numbers and to read them. -/
structure NumberFormat where
  write : Double → String
  /-- The number that a document stands for. -/
  read? : Document → Option Double

/-- Numbers are written without an exponent from 0.00001 up to sixteen digits before the point. -/
def numberLayout : Decimal.Layout := ⟨-5, 15, true⟩

/-- Shortest decimals, read again through one scaled significand. -/
def NumberFormat.standard : NumberFormat where
  write x := if x.isFinite then x.text numberLayout else "null"
  read?
    | .number n => n.toDouble?
    | _ => none

variable (format : NumberFormat)

/-! ## Writing -/

/-- Text in quotes, for text without characters that need an escape. -/
def writeText (s : String) : String := "\"" ++ s ++ "\""

def writeLayer : Layer → String
  | .input => writeText "input"
  | .hidden i => toString i
  | .output => writeText "output"

/-- An object from its fields. -/
def writeObject (fields : List (String × String)) : String :=
  "\x7b" ++ ",".intercalate (fields.map fun (key, value) => writeText key ++ ":" ++ value) ++ "\x7d"

def writeArray (items : List String) : String := "[" ++ ",".intercalate items ++ "]"

def writeNeuron (row : NeuronRow Double) : String :=
  writeObject [
    ("state", format.write row.state),
    ("old", format.write row.previous),
    ("activation", format.write row.activation),
    ("bias", format.write row.bias),
    ("layer", writeLayer row.layer),
    ("transfer", writeText row.transfer.name)]

def writeConnection (row : ConnectionRow Double) : String :=
  writeObject [
    ("from", toString row.source),
    ("to", toString row.target),
    ("weight", format.write row.weight),
    ("gain", format.write row.gain),
    ("gater", match row.gater with
      | some g => toString g
      | none => "null")]

/-- A snapshot as text, with its numbers in `format`. -/
def writeBy (s : Snapshot Double) : String :=
  writeObject [
    ("neurons", writeArray (s.neurons.map (writeNeuron format))),
    ("connections", writeArray (s.connections.map (writeConnection format)))]

/-- A snapshot as text. -/
def write (s : Snapshot Double) : String := s.writeBy .standard

/-! ## Reading -/

/-- What can be read from a value. -/
abbrev Reader (β : Type) := Document → Option β

def readIndex : Reader Nat
  | .number n => n.toIndex?
  | _ => none

/-- An index, or `null` for none. -/
def readGater : Reader (Option Nat)
  | .null => some none
  | d => (readIndex d).map some

def readLayer : Reader Layer
  | .string (some s) => if s = "input" then some .input else if s = "output" then some .output else none
  | d => (readIndex d).map .hidden

/-- A transfer function by its name. `null` and unknown names stand for the logistic function. -/
def readTransfer : Reader Transfer
  | .null => some .logistic
  | .string (some s) => some ((Transfer.ofName? s).getD .logistic)
  | _ => none

/-- Reads every item of an array. -/
def readArray {β : Type} (read : Reader β) : Reader (List β)
  | .array items => items.mapM read
  | _ => none

/-- The values of the fields of a record, in the order of `names`; each name may have several
spellings.

An object gives each field at most once. An array gives the first fields and no more than there
are. -/
def fieldsOf (names : List (List String)) : Reader (List (Option Document))
  | .array items =>
    if items.length ≤ names.length then
      some (items.map some ++ List.replicate (names.length - items.length) none)
    else none
  | .object fields => do
    let keys ← fields.mapM (·.1)
    let named := keys.zip (fields.map (·.2))
    names.mapM fun spellings =>
      match named.filter fun f => spellings.contains f.1 with
      | [] => some none
      | [(_, d)] => some (some d)
      | _ => none
  | _ => none

def neuronFields : List (List String) :=
  [["state"], ["old"], ["activation"], ["bias"], ["layer"], ["transfer", "squash"]]

def readNeuron : Reader (NeuronRow Double) := fun d => do
  match ← fieldsOf neuronFields d with
  | [some state, some previous, some activation, some bias, some layer, some transfer] =>
    some
      { state := ← format.read? state
        previous := ← format.read? previous
        activation := ← format.read? activation
        bias := ← format.read? bias
        layer := ← readLayer layer
        transfer := ← readTransfer transfer }
  | _ => none

def connectionFields : List (List String) := [["from"], ["to"], ["weight"], ["gain"], ["gater"]]

/-- A connection. Without a gain it has gain 1, and without a gater it has none. -/
def readConnection : Reader (ConnectionRow Double) := fun d => do
  match ← fieldsOf connectionFields d with
  | [some source, some target, some weight, gain, gater] =>
    some
      { source := ← readIndex source
        target := ← readIndex target
        weight := ← format.read? weight
        gain := ← (gain.map format.read?).getD (some 1)
        gater := ← (gater.map readGater).getD (some none) }
  | _ => none

def snapshotFields : List (List String) := [["neurons"], ["connections"]]

/-- A snapshot from a document. -/
def ofDocument? : Reader (Snapshot Double) := fun d => do
  match ← fieldsOf snapshotFields d with
  | [some neurons, some connections] =>
    some
      { neurons := ← readArray (readNeuron format) neurons
        connections := ← readArray (readConnection format) connections }
  | _ => none

/-- A snapshot from text, with its numbers in `format`. -/
def readBy (text : String) : Except Error (Snapshot Double) :=
  match (parse? text).bind (ofDocument? format) with
  | some s => .ok s
  | none => .error (.snapshot .unreadable)

/-- A snapshot from text. -/
def read (text : String) : Except Error (Snapshot Double) := readBy .standard text

end GatedNetwork.Snapshot

namespace GatedNetwork.Network

/-- Restores and writes the snapshot of a network as text, with its numbers in `format`. -/
def toJsonBy (format : Snapshot.NumberFormat) : Op (Network Double) String := do
  return (← snapshot).writeBy format

/-- The network that a text describes, with its numbers in `format`, in a new circuit. -/
def ofJsonBy (format : Snapshot.NumberFormat) (text : String) (identity : Identity)
    (settings : Settings Double) : Except Error (Network Double) := do
  (← Snapshot.readBy format text).toNetwork identity settings

/-- Restores and writes the snapshot of a network as text. -/
def toJson : Op (Network Double) String := toJsonBy .standard

/-- The network that a text describes, in a new circuit. -/
def ofJson (text : String) (identity : Identity) (settings : Settings Double) :
    Except Error (Network Double) := ofJsonBy .standard text identity settings

end GatedNetwork.Network
