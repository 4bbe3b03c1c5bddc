import GatedNetwork.Proofs.Network.Valid

/-!
# What becomes of a network

Requests, projections and upkeep other than going on with a copy leave a network its layer set, and its
circuit the identity and all ensembles it has. None of this depends on the network being valid, so it
may be carried through any history.

* `Circuit.Descends` — one circuit is what became of another one
* `Network.Inherits` — so is one network, with the same layer set
* `keeps_request`, `keeps_project`, `keeps_upkeep`, `keeps_snapshot`, `keeps_takeApart`
-/

namespace GatedNetwork

variable {α : Type} [Arithmetic α]

namespace Circuit

/-- The second circuit is the first one at a later time. -/
structure Descends (c d : Circuit α) : Prop where
  identity : d.identity = c.identity
  grows : Grows c d

variable {c d e : Circuit α}

omit [Arithmetic α] in
theorem Descends.refl (c : Circuit α) : Descends c c := ⟨rfl, .refl c⟩

omit [Arithmetic α] in
/-- A descendant of a descendant is one. -/
theorem Descends.trans (h : Descends c d) (h' : Descends d e) : Descends c e :=
  ⟨h'.identity.trans h.identity, h.grows.trans h'.grows⟩

/-- A request to a circuit leaves a descendant of it. -/
theorem keeps_descends (c : Circuit α) (r : Request α) : Op.Keeps (Descends c) r.perform :=
  fun d h => h.trans ⟨identity_perform r d, grows_perform d r⟩

end Circuit

namespace Snapshot

/-! ## Imported circuits -/

theorem identity_addConnection (c : Circuit α) (row : ConnectionRow α) :
    (addConnection c row).identity = c.identity := by
  unfold addConnection
  cases row.gater with
  | none => exact Circuit.identity_connect c _ _ _
  | some g => exact (Circuit.identity_gateLink _ g _).trans (Circuit.identity_connect c _ _ _)

omit [Arithmetic α] in
theorem identity_wrapAll (c : Circuit α) (lists : List (List NeuronId)) :
    (wrapAll c lists).2.identity = c.identity := by
  induction lists generalizing c with
  | nil => rfl
  | cons us lists ih => exact ih (c.wrap us).2

/-- The circuit of a snapshot has the identity it was given. -/
theorem identity_build (s : Snapshot α) (identity : Identity) (settings : Settings α) :
    (s.build identity settings).1.identity = identity := by
  have hneurons : ∀ (rows : List (NeuronRow α)) (c : Circuit α),
      (rows.foldl addNeuron c).identity = c.identity := by
    intro rows
    induction rows with
    | nil => exact fun c => rfl
    | cons row rows ih => exact fun c => ih (addNeuron c row)
  have hconnections : ∀ (rows : List (ConnectionRow α)) (c : Circuit α),
      (rows.foldl addConnection c).identity = c.identity := by
    intro rows
    induction rows with
    | nil => exact fun c => rfl
    | cons row rows ih => exact fun c => (ih _).trans (identity_addConnection c row)
  rw [build_fst, hconnections]
  show (wrapAll _ _).2.identity = identity
  rw [identity_wrapAll]
  exact hneurons s.neurons _

end Snapshot

namespace Network

open Circuit

/-- A network with this layer set over a circuit with some property. -/
structure Inherits (layers : Layers) (P : Circuit α → Prop) (n : Network α) : Prop where
  layers : n.layers = layers
  circuit : P n.circuit

variable {layers : Layers} {P : Circuit α → Prop} {n : Network α}

/-! ## Parts of operations -/

omit [Arithmetic α] in
/-- What an operation keeps of every circuit, it keeps of the circuit of a network. -/
theorem keeps_onCircuit {β : Type} {op : Edit α β} (h : Op.Keeps P op) :
    Op.Keeps (Inherits layers P) (onCircuit op) := by
  intro n hn
  rw [final_onCircuit]
  exact ⟨hn.layers, h _ hn.circuit⟩

omit [Arithmetic α] in
/-- What is done to a live program shows in the mode only. -/
theorem keeps_onProgram {β : Type} (op : Op (Program α) β) :
    Op.Keeps (Inherits layers P) (onProgram op) := by
  intro n hn
  have hmode : ∃ mode, (onProgram op).final n = { n with mode } := by
    obtain ⟨c, layers, mode⟩ := n
    cases mode with
    | pending => exact ⟨_, rfl⟩
    | interpreted => exact ⟨_, rfl⟩
    | compiled p =>
      simp only [Op.final, onProgram]
      cases op p with
      | ok b p => exact ⟨_, rfl⟩
      | error e p => exact ⟨_, rfl⟩
  obtain ⟨mode, hfinal⟩ := hmode
  rw [hfinal]
  exact ⟨hn.layers, hn.circuit⟩

omit [Arithmetic α] in
theorem keeps_modify {f : Network α → Network α}
    (h : ∀ n : Network α, (f n).layers = n.layers ∧ (f n).circuit = n.circuit) :
    Op.Keeps (Inherits layers P) (modify f : Op (Network α) Unit) := by
  intro n hn
  show Inherits layers P (f n)
  exact ⟨(h n).1.trans hn.layers, (h n).2 ▸ hn.circuit⟩

omit [Arithmetic α] in
theorem keeps_get : Op.Keeps (Inherits layers P) (get : Op (Network α) (Network α)) :=
  fun _ hn => hn

omit [Arithmetic α] in
theorem keeps_pure {β : Type} (b : β) : Op.Keeps (Inherits layers P) (pure b) := fun _ hn => hn

variable (hP : ∀ r : Circuit.Request α, Op.Keeps P r.perform)

include hP

/-! ## Between the modes -/

/-- Restoring keeps what every request to a circuit keeps. -/
theorem keeps_restore : Op.Keeps (Inherits layers P) restore := by
  refine keeps_get.bind fun n => ?_
  cases n.mode with
  | compiled p => exact keeps_onCircuit (.of_map (hP (.restore p)))
  | pending => exact keeps_pure ()
  | interpreted => exact keeps_pure ()

omit [Arithmetic α] hP in
theorem keeps_discard : Op.Keeps (Inherits layers P) discard := by
  refine keeps_modify fun n => ?_
  cases n.mode <;> exact ⟨rfl, rfl⟩

theorem keeps_invalidate : Op.Keeps (Inherits layers P) invalidate :=
  (keeps_restore hP).bind fun _ => keeps_discard

theorem keeps_compile : Op.Keeps (Inherits layers P) compile := by
  refine (keeps_restore hP).bind fun _ n hn => ?_
  exact Op.checked_final hn fun _ _ => ⟨hn.layers, hn.circuit⟩

theorem keeps_prepare : Op.Keeps (Inherits layers P) prepare := by
  refine keeps_get.bind fun n => ?_
  cases n.mode with
  | pending => exact keeps_compile hP
  | compiled p => exact keeps_pure ()
  | interpreted => exact keeps_pure ()

theorem keeps_setOptimize (on : Bool) : Op.Keeps (Inherits layers P) (setOptimize on) :=
  (keeps_restore hP).bind fun _ => keeps_modify fun _ => ⟨rfl, rfl⟩

theorem keeps_edit {β : Type} {op : Edit α β} (h : Op.Keeps P op) :
    Op.Keeps (Inherits layers P) (edit op) :=
  (keeps_invalidate hP).bind fun _ => keeps_onCircuit h

/-! ## Passes -/

/-- Activating keeps what every request to a circuit keeps, in all modes. -/
theorem keeps_activate (input : List α) : Op.Keeps (Inherits layers P) (activate input) := by
  refine (Op.Keeps.read _).bind fun _ => (keeps_prepare hP).bind fun _ => ?_
  refine (keeps_onProgram _).bind fun output => ?_
  cases output with
  | some output => exact keeps_pure output
  | none => exact keeps_get.bind fun n => keeps_onCircuit (keeps_stepForward hP input n.layers)

/-- Training keeps what every request to a circuit keeps, in all modes. -/
theorem keeps_propagate (rate : α) (target : List α) :
    Op.Keeps (Inherits layers P) (propagate rate target) := by
  refine (Op.Keeps.read _).bind fun _ => (keeps_prepare hP).bind fun _ => ?_
  refine (keeps_onProgram _).bind fun done => ?_
  cases done with
  | some _ => exact keeps_pure ()
  | none => exact keeps_get.bind fun n => keeps_onCircuit (keeps_stepBackward hP rate target n.layers)

/-! ## Requests and upkeep -/

theorem keeps_project (destination : Destination) (topology : Option Topology)
    (weight : Option α) : Op.Keeps (Inherits layers P) (project destination topology weight) := by
  refine (Op.Keeps.read _).bind fun e => (keeps_invalidate hP).bind fun _ => ?_
  refine keeps_get.bind fun n => keeps_onCircuit ?_
  exact .of_map (hP (.project n.layers.output (.ensemble e) topology weight))

theorem keeps_snapshot : Op.Keeps (Inherits layers P) snapshot :=
  (keeps_restore hP).bind fun _ => .read _

/-- Requests to a network keep what every request to a circuit keeps, and the layers. -/
theorem keeps_request (r : Request α) : Op.Keeps (Inherits layers P) r.perform := by
  cases r <;> refine Op.Keeps.map ?_ _
  case activate input => exact keeps_activate hP input
  case propagate rate target => exact keeps_propagate hP rate target
  case project target topology weight => exact keeps_project hP _ topology weight
  case gate projection side =>
    refine (keeps_invalidate hP).bind fun _ => keeps_get.bind fun n => keeps_onCircuit ?_
    exact .of_map (hP (.gate n.layers.output projection side))
  case clear =>
    refine (keeps_restore hP).bind fun _ => keeps_get.bind fun n => ?_
    refine (keeps_onCircuit (.forM (fun e => ?_) _)).bind fun _ => keeps_discard
    exact .of_map (hP (.clearEnsemble e))
  case reset =>
    refine (keeps_restore hP).bind fun _ => keeps_get.bind fun n => ?_
    refine (keeps_onCircuit (.forM (fun e => ?_) _)).bind fun _ => keeps_discard
    exact .of_map (hP (.resetEnsemble e))
  case snapshot => exact keeps_snapshot hP
  case edit r => exact keeps_edit hP (hP r)

/-- Going on with a copy changes the identity, all other upkeep keeps it. -/
theorem keeps_upkeep {u : Upkeep} (hu : ∀ identity, u ≠ .copy identity) :
    Op.Keeps (Inherits layers P) u.perform := by
  cases u with
  | compile => exact keeps_compile hP
  | restore => exact keeps_restore hP
  | invalidate => exact keeps_invalidate hP
  | setOptimize on => exact keeps_setOptimize hP on
  | idle => exact keeps_edit hP fun _ hc => hc
  | copy identity => exact absurd rfl (hu identity)

theorem keeps_duplicate (identity : Identity) :
    Op.Keeps (Inherits layers P) (duplicate identity) :=
  (keeps_snapshot hP).bind fun _ => .read _

theorem keeps_takeApart : Op.Keeps (Inherits layers P) takeApart :=
  (keeps_restore hP).bind fun _ => keeps_get.bind fun n => keeps_pure (n.circuit, n.layers)

end Network

end GatedNetwork
