import GatedNetwork.Proofs.Json.Literal
import GatedNetwork.Proofs.Snapshot.Build
import GatedNetwork.Snapshot.Document

/-!
# Reading what was written

The text of a snapshot is parsed as the document of its rows. A row is read from its document if all its
numbers are finite. One that is not was written as `null`, which stands for no number, so the snapshot is
refused.

Numbers may come back as others. Everything else comes back as it was. This holds of every format whose
finite numbers are JSON numbers that are read again, and the standard format is one.

* `NumberFormat.Lawful`, `lawful_standard` — what is relied on in a format of numbers
* `parse?_writeBy` — the text of a snapshot as a document
* `readBy_writeBy` — what is read from it
-/

namespace GatedNetwork

variable {α β : Type}

/-! ## Rows with other numbers -/

/-- A row with every number replaced. -/
def NeuronRow.map (f : α → β) (r : NeuronRow α) : NeuronRow β where
  state := f r.state
  previous := f r.previous
  activation := f r.activation
  bias := f r.bias
  layer := r.layer
  transfer := r.transfer

/-- A row with both numbers replaced. -/
def ConnectionRow.map (f : α → β) (r : ConnectionRow α) : ConnectionRow β where
  source := r.source
  target := r.target
  weight := f r.weight
  gain := f r.gain
  gater := r.gater

/-- A snapshot with every number replaced. -/
def Snapshot.map (f : α → β) (s : Snapshot α) : Snapshot β where
  neurons := s.neurons.map (·.map f)
  connections := s.connections.map (·.map f)

/-- Are all numbers of a row finite? -/
def NeuronRow.isFinite (r : NeuronRow Double) : Bool :=
  r.state.isFinite && r.previous.isFinite && r.activation.isFinite && r.bias.isFinite

/-- Are both numbers of a row finite? -/
def ConnectionRow.isFinite (r : ConnectionRow Double) : Bool := r.weight.isFinite && r.gain.isFinite

/-- Are all numbers of a snapshot finite? -/
def Snapshot.isFinite (s : Snapshot Double) : Bool :=
  s.neurons.all (·.isFinite) && s.connections.all (·.isFinite)

namespace Snapshot

open Json

/-! ## Numbers -/

/-- What is relied on in a format: a finite number is written as a JSON number that is read as some
number, any other is written as `null`, and `null` is read as no number. -/
structure NumberFormat.Lawful (format : NumberFormat) : Prop where
  finite : ∀ {x : Double}, x.isFinite = true → ∃ n : Numeral, n.Proper ∧
    (format.write x).toList = n.text ∧ (format.read? (.number n)).isSome = true
  infinite : ∀ {x : Double}, x.isFinite = false → format.write x = "null"
  null : format.read? .null = none

theorem lawful_standard : NumberFormat.standard.Lawful where
  finite {x} hx := by
    refine ⟨x.literal numberLayout, Double.proper_literal _ x, ?_, ?_⟩
    · rw [show NumberFormat.standard.write x = x.text numberLayout from if_pos hx]
      exact Double.text_literal hx rfl
    · exact Double.isSome_toDouble?_literal hx (by decide)
  infinite hx := if_neg (Bool.not_eq_true _ ▸ hx)
  null := rfl

variable {format : NumberFormat}

/-! ## Documents -/

/-- What a number is written as. -/
def numberDocument (format : NumberFormat) (x : Double) : Document :=
  (parse? (format.write x)).getD .null

def indexDocument (i : Nat) : Document := .number (indexLiteral i)

def layerDocument : Layer → Document
  | .input => .string (some "input")
  | .hidden i => indexDocument i
  | .output => .string (some "output")

def gaterDocument : Option Nat → Document
  | some g => indexDocument g
  | none => .null

def neuronDocument (format : NumberFormat) (r : NeuronRow Double) : Document :=
  .object [
    (some "state", numberDocument format r.state),
    (some "old", numberDocument format r.previous),
    (some "activation", numberDocument format r.activation),
    (some "bias", numberDocument format r.bias),
    (some "layer", layerDocument r.layer),
    (some "transfer", .string (some r.transfer.name))]

def connectionDocument (format : NumberFormat) (r : ConnectionRow Double) : Document :=
  .object [
    (some "from", indexDocument r.source),
    (some "to", indexDocument r.target),
    (some "weight", numberDocument format r.weight),
    (some "gain", numberDocument format r.gain),
    (some "gater", gaterDocument r.gater)]

/-- The document of a snapshot. -/
def document (format : NumberFormat) (s : Snapshot Double) : Document :=
  .object [
    (some "neurons", .array (s.neurons.map (neuronDocument format))),
    (some "connections", .array (s.connections.map (connectionDocument format)))]

/-! ## From text to documents -/

theorem numberDocument_of_reads {x : Double} {d : Document} (h : Reads (format.write x) d) :
    numberDocument format x = d := by
  rw [numberDocument, parse?_of_reads h, Option.getD_some]

theorem reads_number (h : format.Lawful) (x : Double) :
    Reads (format.write x) (numberDocument format x) := by
  obtain ⟨d, hd⟩ : ∃ d, Reads (format.write x) d := by
    cases hx : x.isFinite with
    | true =>
      obtain ⟨n, hproper, htext, -⟩ := h.finite hx
      exact ⟨_, .number hproper htext⟩
    | false =>
      rw [h.infinite hx]
      exact ⟨_, .null⟩
  rwa [numberDocument_of_reads hd]

theorem reads_index (i : Nat) : Reads (toString i) (indexDocument i) :=
  .number (proper_indexLiteral i) (text_indexLiteral i)

theorem reads_layer (layer : Layer) : Reads (writeLayer layer) (layerDocument layer) := by
  cases layer with
  | input => exact .string (by decide)
  | hidden i => exact reads_index i
  | output => exact .string (by decide)

theorem reads_transfer (t : Transfer) : Reads (writeText t.name) (.string (some t.name)) := by
  refine .string ?_
  cases t <;> decide

theorem reads_neuron (h : format.Lawful) (r : NeuronRow Double) :
    Reads (writeNeuron format r) (neuronDocument format r) :=
  .object <|
    .cons (readsField (by decide) (reads_number h r.state)) <|
    .cons (readsField (by decide) (reads_number h r.previous)) <|
    .cons (readsField (by decide) (reads_number h r.activation)) <|
    .cons (readsField (by decide) (reads_number h r.bias)) <|
    .cons (readsField (by decide) (reads_layer r.layer)) <|
    .cons (readsField (by decide) (reads_transfer r.transfer)) .nil

theorem reads_connection (h : format.Lawful) (r : ConnectionRow Double) :
    Reads (writeConnection format r) (connectionDocument format r) := by
  have hgater : Reads (match r.gater with
      | some g => toString g
      | none => "null") (gaterDocument r.gater) := by
    cases r.gater with
    | some g => exact reads_index g
    | none => exact .null
  exact .object <|
    .cons (readsField (by decide) (reads_index r.source)) <|
    .cons (readsField (by decide) (reads_index r.target)) <|
    .cons (readsField (by decide) (reads_number h r.weight)) <|
    .cons (readsField (by decide) (reads_number h r.gain)) <|
    .cons (readsField (by decide) hgater) .nil

theorem reads_rows {ρ : Type} {write : ρ → String} {doc : ρ → Document}
    (h : ∀ r, Reads (write r) (doc r)) (rows : List ρ) :
    Reads (writeArray (rows.map write)) (.array (rows.map doc)) := by
  refine .array (List.forall₂_map_left_iff.mpr (List.forall₂_map_right_iff.mpr ?_))
  exact List.forall₂_same.mpr fun r _ => h r

/-- The text of a snapshot is its document. -/
theorem parse?_writeBy (h : format.Lawful) (s : Snapshot Double) :
    parse? (s.writeBy format) = some (s.document format) :=
  parse?_of_reads <| .object <|
    .cons (readsField (by decide) (reads_rows (reads_neuron h) s.neurons)) <|
    .cons (readsField (by decide) (reads_rows (reads_connection h) s.connections)) .nil

/-! ## From documents to rows -/

/-- The number that is read where a finite number was written. -/
def reread (format : NumberFormat) (x : Double) : Double :=
  (format.read? (numberDocument format x)).getD 0

theorem read?_numberDocument (h : format.Lawful) (x : Double) :
    format.read? (numberDocument format x) =
      if x.isFinite then some (reread format x) else none := by
  cases hx : x.isFinite with
  | true =>
    obtain ⟨n, hproper, htext, hsome⟩ := h.finite hx
    obtain ⟨y, hy⟩ := Option.isSome_iff_exists.mp hsome
    rw [if_pos rfl, reread, numberDocument_of_reads (.number hproper htext), hy, Option.getD_some]
  | false =>
    have hnull : Reads (format.write x) .null := h.infinite hx ▸ .null
    rw [numberDocument_of_reads hnull, h.null]
    rfl

theorem readIndex_document {i : Nat} (hi : i ≤ Numeral.maxSignificand) :
    readIndex (indexDocument i) = some i := toIndex?_indexLiteral hi

theorem readLayer_document {layer : Layer}
    (hlayer : ∀ i, layer = .hidden i → i ≤ Numeral.maxSignificand) :
    readLayer (layerDocument layer) = some layer := by
  cases layer with
  | input => rfl
  | hidden i =>
    show (readIndex (indexDocument i)).map Layer.hidden = _
    rw [readIndex_document (hlayer i rfl), Option.map_some]
  | output => rfl

theorem readGater_document {g : Option Nat} (hg : ∀ i, g = some i → i ≤ Numeral.maxSignificand) :
    readGater (gaterDocument g) = some g := by
  cases g with
  | some i =>
    show (readIndex (indexDocument i)).map some = _
    rw [readIndex_document (hg i rfl), Option.map_some]
  | none => rfl

theorem readTransfer_document (t : Transfer) :
    readTransfer (.string (some t.name)) = some t := by
  cases t <;> rfl

theorem readNeuron_document (h : format.Lawful) {r : NeuronRow Double}
    (hlayer : ∀ i, r.layer = .hidden i → i ≤ Numeral.maxSignificand) :
    readNeuron format (neuronDocument format r) =
      if r.isFinite then some (r.map (reread format)) else none := by
  have hfields : fieldsOf neuronFields (neuronDocument format r) =
      some [some (numberDocument format r.state), some (numberDocument format r.previous),
        some (numberDocument format r.activation), some (numberDocument format r.bias),
        some (layerDocument r.layer), some (.string (some r.transfer.name))] := rfl
  unfold readNeuron NeuronRow.isFinite
  rw [hfields, Option.bind_eq_bind, Option.bind_some]
  simp only [read?_numberDocument h, readLayer_document hlayer, readTransfer_document,
    Option.bind_eq_bind, Option.bind_some]
  cases r.state.isFinite <;> cases r.previous.isFinite <;> cases r.activation.isFinite <;>
    cases r.bias.isFinite <;> rfl

theorem readConnection_document (h : format.Lawful) {r : ConnectionRow Double}
    (hsource : r.source ≤ Numeral.maxSignificand) (htarget : r.target ≤ Numeral.maxSignificand)
    (hgater : ∀ g, r.gater = some g → g ≤ Numeral.maxSignificand) :
    readConnection format (connectionDocument format r) =
      if r.isFinite then some (r.map (reread format)) else none := by
  have hfields : fieldsOf connectionFields (connectionDocument format r) =
      some [some (indexDocument r.source), some (indexDocument r.target),
        some (numberDocument format r.weight), some (numberDocument format r.gain),
        some (gaterDocument r.gater)] := rfl
  unfold readConnection ConnectionRow.isFinite
  rw [hfields, Option.bind_eq_bind, Option.bind_some]
  simp only [read?_numberDocument h, readIndex_document hsource, readIndex_document htarget,
    readGater_document hgater, Option.bind_eq_bind, Option.bind_some, Option.map_some,
    Option.getD_some]
  cases r.weight.isFinite <;> cases r.gain.isFinite <;> rfl

/-- A list of rows is read if every row is. -/
theorem readArray_document {ρ σ : Type} {read : Reader σ} {doc : ρ → Document} {fine : ρ → Bool}
    {f : ρ → σ} {rows : List ρ}
    (h : ∀ r ∈ rows, read (doc r) = if fine r then some (f r) else none) :
    readArray read (.array (rows.map doc)) =
      if rows.all fine then some (rows.map f) else none := by
  show (rows.map doc).mapM read = _
  induction rows with
  | nil => rfl
  | cons r rows ih =>
    rw [List.map_cons, List.mapM_cons, h r List.mem_cons_self,
      ih fun r hr => h r (List.mem_cons_of_mem _ hr), List.all_cons]
    cases fine r <;> cases rows.all fine <;> rfl

/-- Snapshots whose indices fit in a machine word. -/
structure FitsWords (s : Snapshot Double) : Prop where
  neurons : s.neurons.length ≤ Numeral.maxSignificand + 1
  hidden : ∀ r ∈ s.neurons, ∀ i, r.layer = .hidden i → i ≤ Numeral.maxSignificand

/-- A snapshot is read from its own text if all its numbers are finite, and else it is refused. -/
theorem readBy_writeBy (h : format.Lawful) {s : Snapshot Double} (hwords : s.FitsWords)
    (hcheck : s.check = .ok ()) :
    readBy format (s.writeBy format) =
      if s.isFinite then .ok (s.map (reread format)) else .error (.snapshot .unreadable) := by
  have hneurons : readArray (readNeuron format) (.array (s.neurons.map (neuronDocument format))) =
      if s.neurons.all (·.isFinite) then some (s.neurons.map (·.map (reread format))) else none :=
    readArray_document fun r hr => readNeuron_document h (hwords.hidden r hr)
  have hconnections : readArray (readConnection format) (.array (s.connections.map (connectionDocument format))) =
      if s.connections.all (·.isFinite) then some (s.connections.map (·.map (reread format))) else none := by
    refine readArray_document fun r hr => ?_
    obtain ⟨hs, ht, hg⟩ := isInside_iff.mp (check_eq_ok_iff.mp hcheck r hr)
    have hle : ∀ i < s.neurons.length, i ≤ Numeral.maxSignificand := by
      intro i hi
      have hlen := hwords.neurons
      omega
    exact readConnection_document h (hle _ hs) (hle _ ht) fun g hgater => hle g (hg g hgater)
  have hfields : fieldsOf snapshotFields (s.document format) =
      some [some (.array (s.neurons.map (neuronDocument format))),
        some (.array (s.connections.map (connectionDocument format)))] := rfl
  have hdocument : ofDocument? format (s.document format) =
      if s.isFinite then some (s.map (reread format)) else none := by
    unfold ofDocument? isFinite
    rw [hfields, Option.bind_eq_bind, Option.bind_some]
    simp only [hneurons, hconnections, Option.bind_eq_bind]
    cases s.neurons.all (·.isFinite) <;> cases s.connections.all (·.isFinite) <;> rfl
  rw [readBy, parse?_writeBy h, Option.bind_some, hdocument]
  cases s.isFinite <;> rfl

end Snapshot

end GatedNetwork
