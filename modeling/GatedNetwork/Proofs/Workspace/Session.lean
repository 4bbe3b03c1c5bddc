import Mathlib.Data.List.Perm.Subperm
import Mathlib.Logic.Relation
import GatedNetwork.Proofs.Network.Lineage
import GatedNetwork.Workspace

/-!
# Sessions

A session is a workspace together with free circuits that were put aside, so that there may be any
number of these: a new circuit, a copy and the circuit of a network taken apart put the free circuit of
the workspace aside, and any circuit may be brought back. Everything that makes a circuit or a network
is an operation of the workspace. Between these, circuits and networks may be asked anything.

All that events do to the circuits at hand comes down to a few moves: `moves_event`. A circuit is
altered without losing its identity, is moved to another place, or comes new with an identity that no
circuit had before.
-/

namespace GatedNetwork

variable {α : Type} [Arithmetic α]

/-- A workspace, and free circuits put aside. -/
structure Session (α : Type) where
  workspace : Workspace α
  aside : List (Circuit α)

namespace Session

open Circuit Network

/-- A session with one free circuit, which is empty. -/
def start (settings : Settings α) : Session α := ⟨.start settings, []⟩

/-- The circuits of the networks that are not gone. -/
def inner (ns : Array (Option (Network α))) : List (Circuit α) :=
  ns.toList.filterMap (Option.map fun n => n.circuit)

/-- The circuits at hand: the free one, those put aside and those of the networks. -/
def circuits (s : Session α) : List (Circuit α) :=
  s.workspace.circuit :: (s.aside ++ inner s.workspace.networks)

/-! ## Events -/

/-- What may happen in a session. -/
inductive Event (α : Type) where
  | newCircuit (settings : Settings α)
  | copyCircuit
  | form (layers : Layers)
  | copyNetwork (i : Nat)
  | duplicate (i : Nat)
  | importSnapshot (s : Snapshot α) (settings : Settings α)
  | takeApart (i : Nat)
  /-- Takes a copy of the circuit of a network for the free circuit, which is put aside. -/
  | copyInner (i : Nat)
  /-- Takes a free circuit that was put aside for the one of the workspace. -/
  | bring (k : Nat)
  /-- Asks something of the free circuit. -/
  | perform (r : Circuit.Request α)
  | request (i : Nat) (r : Network.Request α)
  /-- Wires the output of a network to any destination. -/
  | project (i : Nat) (destination : Destination) (topology : Option Topology) (weight : Option α)
  /-- Upkeep, but for a copy that takes the place of its original. -/
  | upkeep (i : Nat) (u : Upkeep) (h : ∀ identity, u ≠ .copy identity)

/-- The session after an event, which may fail. -/
def Event.apply (s : Session α) : Event α → Session α
  | newCircuit settings =>
    ⟨(Workspace.newCircuit settings).final s.workspace, s.workspace.circuit :: s.aside⟩
  | copyCircuit => ⟨Workspace.copyCircuit.final s.workspace, s.workspace.circuit :: s.aside⟩
  | form layers => ⟨(Workspace.form layers).final s.workspace, s.aside⟩
  | copyNetwork i => ⟨(Workspace.copyNetwork i).final s.workspace, s.aside⟩
  | duplicate i => ⟨(Workspace.duplicate i).final s.workspace, s.aside⟩
  | importSnapshot t settings => ⟨(Workspace.importSnapshot t settings).final s.workspace, s.aside⟩
  | takeApart i =>
    match Workspace.takeApart i s.workspace with
    | .ok () w => ⟨w, s.workspace.circuit :: s.aside⟩
    | .error _ w => ⟨w, s.aside⟩
  | copyInner i =>
    match s.workspace.network? i with
    | some n =>
      ⟨{ s.workspace with
          next := s.workspace.next + 1
          circuit := n.circuit.copy s.workspace.next },
        s.workspace.circuit :: s.aside⟩
    | none => s
  | bring k =>
    match s.aside[k]? with
    | some c => ⟨{ s.workspace with circuit := c }, s.aside.set k s.workspace.circuit⟩
    | none => s
  | perform r => ⟨(Workspace.onCircuit r.perform).final s.workspace, s.aside⟩
  | request i r => ⟨(Workspace.onNetwork i r.perform).final s.workspace, s.aside⟩
  | project i destination topology weight =>
    ⟨(Workspace.onNetwork i (Network.project destination topology weight)).final s.workspace,
      s.aside⟩
  | upkeep i u _ => ⟨(Workspace.onNetwork i u.perform).final s.workspace, s.aside⟩

/-- The session after several events. -/
def run (s : Session α) (es : List (Event α)) : Session α := es.foldl Event.apply s

/-! ## Moves -/

/-- A network that owns its layer set and has its input. -/
structure Bound (n : Network α) : Prop where
  owner : n.layers.circuit = some n.circuit.identity
  input : n.circuit.hasEnsemble n.layers.input = true

/-- What a part of an event can do. -/
inductive Move : Session α → Session α → Prop where
  /-- An identity is used up. -/
  | tick {k c ns p as} : Move ⟨⟨k, c, ns, p⟩, as⟩ ⟨⟨k + 1, c, ns, p⟩, as⟩
  | alter {k c d ns p as} : Descends c d → Move ⟨⟨k, c, ns, p⟩, as⟩ ⟨⟨k, d, ns, p⟩, as⟩
  | alterNetwork {k c ns p as i n m} : ns[i]? = some (some n) → m.layers = n.layers →
      Descends n.circuit m.circuit →
      Move ⟨⟨k, c, ns, p⟩, as⟩ ⟨⟨k, c, ns.setIfInBounds i (some m), p⟩, as⟩
  /-- A circuit comes new, and the free one is put aside. -/
  | renew {k c d ns p as} : d.identity = k →
      Move ⟨⟨k, c, ns, p⟩, as⟩ ⟨⟨k + 1, d, ns, p⟩, c :: as⟩
  | drop {k c ns p a as} : Move ⟨⟨k, c, ns, p⟩, a :: as⟩ ⟨⟨k, c, ns, p⟩, as⟩
  /-- The circuit put aside last becomes the circuit of a network. -/
  | found {k c ns p a as n} : n.circuit = a → Bound n →
      Move ⟨⟨k, c, ns, p⟩, a :: as⟩ ⟨⟨k, c, ns.push (some n), p⟩, as⟩
  /-- A network comes with a new circuit. -/
  | adopt {k c ns p as n} : n.circuit.identity = k → Bound n →
      Move ⟨⟨k, c, ns, p⟩, as⟩ ⟨⟨k + 1, c, ns.push (some n), p⟩, as⟩
  /-- The circuit of a network is put aside, and the network is gone. -/
  | release {k c ns p q as i n} : ns[i]? = some (some n) →
      Move ⟨⟨k, c, ns, p⟩, as⟩ ⟨⟨k, c, ns.setIfInBounds i none, q⟩, n.circuit :: as⟩
  | bring {k c ns p a as j} : as[j]? = some a →
      Move ⟨⟨k, c, ns, p⟩, as⟩ ⟨⟨k, a, ns, p⟩, as.set j c⟩

/-- Several moves. -/
abbrev Moves (s t : Session α) : Prop := Relation.ReflTransGen Move s t

variable {s t : Session α} {w : Workspace α} {n : Network α} {i : Nat}

/-! ## What operations of a workspace come to -/

omit [Arithmetic α] in
theorem network?_eq_some : w.network? i = some n ↔ w.networks[i]? = some (some n) := by
  rw [Workspace.network?, Array.getD_eq_getD_getElem?]
  cases w.networks[i]? <;> simp

omit [Arithmetic α] in
theorem bound_create {c : Circuit α} {layers : Layers} (h : Network.create c layers = .ok n) :
    n.circuit = c ∧ Bound n := by
  obtain ⟨hensembles, rfl⟩ := create_eq_ok h
  exact ⟨rfl, rfl, hensembles _ (Runs.input_mem layers)⟩

omit [Arithmetic α] in
theorem onNetwork_of_none {β : Type} {op : Op (Network α) β} (h : w.network? i = none) :
    Workspace.onNetwork i op w = .error (.dangling (.network i)) w := by
  simp only [Workspace.onNetwork, h]

omit [Arithmetic α] in
theorem onNetwork_of_ok {β : Type} {op : Op (Network α) β} {b : β} {m : Network α}
    (h : w.network? i = some n) (hop : op n = .ok b m) :
    Workspace.onNetwork i op w =
      .ok b { w with networks := w.networks.setIfInBounds i (some m) } := by
  simp only [Workspace.onNetwork, h, hop]

omit [Arithmetic α] in
theorem onNetwork_of_error {β : Type} {op : Op (Network α) β} {e : Error} {m : Network α}
    (h : w.network? i = some n) (hop : op n = .error e m) :
    Workspace.onNetwork i op w =
      .error e { w with networks := w.networks.setIfInBounds i (some m) } := by
  simp only [Workspace.onNetwork, h, hop]

omit [Arithmetic α] in
theorem final_keep_of_ok {op : Op (Workspace α) (Network α)} {w' : Workspace α}
    (h : op w = .ok n w') :
    (op >>= Workspace.keep).final w = { w' with networks := w'.networks.push (some n) } :=
  Op.final_of_ok (Op.bind_of_ok h)

omit [Arithmetic α] in
theorem final_keep_of_error {op : Op (Workspace α) (Network α)} {w' : Workspace α} {e : Error}
    (h : op w = .error e w') : (op >>= Workspace.keep).final w = w' :=
  Op.final_of_error (Op.bind_of_error h)

omit [Arithmetic α] in
/-- An operation on a network that keeps its layer set and the lineage of its circuit. -/
theorem moves_onNetwork {β : Type} {op : Op (Network α) β}
    (hop : ∀ n : Network α, Op.Keeps (Inherits n.layers (Descends n.circuit)) op) (s : Session α)
    (i : Nat) : Moves s ⟨(Workspace.onNetwork i op).final s.workspace, s.aside⟩ := by
  obtain ⟨⟨k, c, ns, p⟩, as⟩ := s
  cases hn : Workspace.network? (⟨k, c, ns, p⟩ : Workspace α) i with
  | none =>
    rw [Op.final_of_error (onNetwork_of_none hn)]
  | some n =>
    obtain ⟨hlayers, hcircuit⟩ := hop n n ⟨rfl, .refl n.circuit⟩
    have hfinal : (Workspace.onNetwork i op).final ⟨k, c, ns, p⟩ =
        ⟨k, c, ns.setIfInBounds i (some (op.final n)), p⟩ := by
      cases hm : op n with
      | ok b m => rw [Op.final_of_ok (onNetwork_of_ok hn hm), Op.final_of_ok hm]
      | error e m => rw [Op.final_of_error (onNetwork_of_error hn hm), Op.final_of_error hm]
    rw [hfinal]
    exact .single (.alterNetwork (network?_eq_some.mp hn) hlayers hcircuit)

/-- The network of a snapshot has the identity it was given. -/
theorem bound_toNetwork {t : Snapshot α} {identity : Identity} {settings : Settings α}
    (h : t.toNetwork identity settings = .ok n) : n.circuit.identity = identity ∧ Bound n := by
  obtain ⟨hcircuit, hbound⟩ := bound_create (Snapshot.toNetwork_eq_ok_iff.mp h).2
  exact ⟨hcircuit ▸ Snapshot.identity_build t identity settings, hbound⟩

omit [Arithmetic α] in
theorem bound_copy (h : Bound n) (identity : Identity) : Bound (n.copy identity) := ⟨rfl, h.input⟩

omit [Arithmetic α] in
theorem moves_form (layers : Layers) (s : Session α) :
    Moves s ⟨(Workspace.form layers).final s.workspace, s.aside⟩ := by
  obtain ⟨⟨k, c, ns, p⟩, as⟩ := s
  have hrenew : Move ⟨⟨k, c, ns, p⟩, as⟩ ⟨⟨k + 1, .empty k c.settings, ns, p⟩, c :: as⟩ := .renew rfl
  have hform : (Workspace.form layers).final ⟨k, c, ns, p⟩ =
      ((Op.read fun _ => Network.create c layers) >>= Workspace.keep).final
        ⟨k + 1, .empty k c.settings, ns, p⟩ := rfl
  cases hn : Network.create c layers with
  | ok n =>
    rw [hform, final_keep_of_ok (Op.read_of_ok hn)]
    obtain ⟨hcircuit, hbound⟩ := bound_create hn
    exact (Relation.ReflTransGen.single hrenew).tail (.found hcircuit hbound)
  | error e =>
    rw [hform, final_keep_of_error (Op.read_of_error hn)]
    exact (Relation.ReflTransGen.single hrenew).tail .drop

omit [Arithmetic α] in
theorem moves_copyNetwork {s : Session α}
    (hs : ∀ i n, s.workspace.network? i = some n → Bound n) (i : Nat) :
    Moves s ⟨(Workspace.copyNetwork i).final s.workspace, s.aside⟩ := by
  obtain ⟨⟨k, c, ns, p⟩, as⟩ := s
  cases hn : Workspace.network? (⟨k, c, ns, p⟩ : Workspace α) i with
  | none =>
    have hread : Workspace.network i (⟨k, c, ns, p⟩ : Workspace α) =
        .error (.dangling (.network i)) _ := Op.read_of_error (by rw [hn])
    rw [Workspace.copyNetwork, Op.final_of_error (Op.bind_of_error hread)]
  | some n =>
    have hread : Workspace.network i (⟨k, c, ns, p⟩ : Workspace α) = .ok n _ :=
      Op.read_of_ok (by rw [hn])
    have hfinal : (Workspace.copyNetwork i).final ⟨k, c, ns, p⟩ =
        ⟨k + 1, c, ns.push (some (n.copy k)), p⟩ := Op.final_of_ok (Op.bind_of_ok hread)
    rw [hfinal]
    exact .single (.adopt rfl (bound_copy (hs i n hn) k))

theorem moves_importSnapshot (t : Snapshot α) (settings : Settings α) (s : Session α) :
    Moves s ⟨(Workspace.importSnapshot t settings).final s.workspace, s.aside⟩ := by
  obtain ⟨⟨k, c, ns, p⟩, as⟩ := s
  have himport : (Workspace.importSnapshot t settings).final ⟨k, c, ns, p⟩ =
      ((Op.read fun _ => t.toNetwork k settings) >>= Workspace.keep).final ⟨k + 1, c, ns, p⟩ := rfl
  cases hn : t.toNetwork k settings with
  | ok n =>
    rw [himport, final_keep_of_ok (Op.read_of_ok hn)]
    obtain ⟨hidentity, hbound⟩ := bound_toNetwork hn
    exact .single (.adopt hidentity hbound)
  | error e =>
    rw [himport, final_keep_of_error (Op.read_of_error hn)]
    exact .single .tick

/-- A duplicate is the network of a snapshot. -/
theorem duplicate_eq_ok {identity : Identity} {n m n' : Network α}
    (h : Network.duplicate identity n = .ok m n') :
    ∃ (t : Snapshot α) (settings : Settings α), t.toNetwork identity settings = .ok m := by
  unfold Network.duplicate at h
  cases hs : Network.snapshot n with
  | error e n₁ =>
    rw [Op.bind_of_error hs] at h
    cases h
  | ok t n₁ =>
    rw [Op.bind_of_ok hs] at h
    exact ⟨t, _, (Op.read_eq_ok h).1⟩

theorem moves_duplicate (i : Nat) (s : Session α) :
    Moves s ⟨(Workspace.duplicate i).final s.workspace, s.aside⟩ := by
  obtain ⟨⟨k, c, ns, p⟩, as⟩ := s
  have hduplicate : (Workspace.duplicate i).final ⟨k, c, ns, p⟩ =
      (Workspace.onNetwork i (Network.duplicate k) >>= Workspace.keep).final
        ⟨k + 1, c, ns, p⟩ := rfl
  rw [hduplicate]
  cases hn : Workspace.network? (⟨k + 1, c, ns, p⟩ : Workspace α) i with
  | none =>
    rw [final_keep_of_error (onNetwork_of_none hn)]
    exact .single .tick
  | some n =>
    have hkept := keeps_duplicate (keeps_descends n.circuit) k n ⟨rfl, .refl n.circuit⟩
    cases hd : Network.duplicate k n with
    | ok m n' =>
      rw [Op.final_of_ok hd] at hkept
      rw [final_keep_of_ok (onNetwork_of_ok hn hd)]
      obtain ⟨t, settings, ht⟩ := duplicate_eq_ok hd
      obtain ⟨hidentity, hbound⟩ := bound_toNetwork ht
      exact (Relation.ReflTransGen.single
        (.alterNetwork (network?_eq_some.mp hn) hkept.layers hkept.circuit)).tail
          (.adopt hidentity hbound)
    | error e n' =>
      rw [Op.final_of_error hd] at hkept
      rw [final_keep_of_error (onNetwork_of_error hn hd)]
      exact (Relation.ReflTransGen.single
        (.alterNetwork (network?_eq_some.mp hn) hkept.layers hkept.circuit)).tail .tick

omit [Arithmetic α] in
/-- What is taken apart is what the network is at that time. -/
theorem takeApart_eq_ok {n n' : Network α} {parts : Circuit α × Layers}
    (h : Network.takeApart n = .ok parts n') : parts.1 = n'.circuit := by
  unfold Network.takeApart at h
  cases hr : Network.restore n with
  | error e n₁ =>
    rw [Op.bind_of_error hr] at h
    cases h
  | ok _ n₁ =>
    rw [Op.bind_of_ok hr] at h
    cases h
    rfl

theorem moves_takeApart (i : Nat) (s : Session α) :
    Moves s ((Event.takeApart i).apply s) := by
  obtain ⟨⟨k, c, ns, p⟩, as⟩ := s
  simp only [Event.apply]
  cases hn : Workspace.network? (⟨k, c, ns, p⟩ : Workspace α) i with
  | none =>
    rw [Workspace.takeApart, Op.bind_of_error (onNetwork_of_none hn)]
  | some n =>
    have hkept := keeps_takeApart (keeps_descends n.circuit) n ⟨rfl, .refl n.circuit⟩
    cases hd : Network.takeApart n with
    | error e n' =>
      rw [Op.final_of_error hd] at hkept
      rw [Workspace.takeApart, Op.bind_of_error (onNetwork_of_error hn hd)]
      exact .single (.alterNetwork (network?_eq_some.mp hn) hkept.layers hkept.circuit)
    | ok parts n' =>
      obtain ⟨d, layers⟩ := parts
      rw [Op.final_of_ok hd] at hkept
      rw [Workspace.takeApart, Op.bind_of_ok (onNetwork_of_ok hn hd)]
      obtain rfl : d = n'.circuit := takeApart_eq_ok hd
      have hi : i < ns.size := (Array.getElem?_eq_some_iff.mp (network?_eq_some.mp hn)).1
      have hn' : (ns.setIfInBounds i (some n'))[i]? = some (some n') := by
        rw [Array.getElem?_setIfInBounds_self_of_lt hi]
      -- the network is altered, its circuit is put aside, and then that trades places with the free one
      exact ((Relation.ReflTransGen.single
        (.alterNetwork (network?_eq_some.mp hn) hkept.layers hkept.circuit)).tail
          (.release hn')).tail (.bring (List.getElem?_cons_zero))

/-- All that an event does is done by moves. -/
theorem moves_event (hs : ∀ i n, s.workspace.network? i = some n → Bound n) (e : Event α) :
    Moves s (e.apply s) := by
  cases e with
  | newCircuit settings => exact .single (.renew rfl)
  | copyCircuit => exact .single (.renew rfl)
  | form layers => exact moves_form layers s
  | copyNetwork i => exact moves_copyNetwork hs i
  | duplicate i => exact moves_duplicate i s
  | importSnapshot t settings => exact moves_importSnapshot t settings s
  | takeApart i => exact moves_takeApart i s
  | copyInner i =>
    simp only [Event.apply]
    cases s.workspace.network? i with
    | some n => exact .single (.renew rfl)
    | none => exact .refl
  | bring k =>
    simp only [Event.apply]
    cases hk : s.aside[k]? with
    | some c => exact .single (.bring hk)
    | none => exact .refl
  | perform r =>
    obtain ⟨⟨k, c, ns, p⟩, as⟩ := s
    have hfinal : (Workspace.onCircuit r.perform).final ⟨k, c, ns, p⟩ =
        ⟨k, r.perform.final c, ns, p⟩ := by
      cases hr : r.perform c <;> simp only [Op.final, Workspace.onCircuit, hr]
    simp only [Event.apply, hfinal]
    exact .single (.alter ⟨identity_perform r c, grows_perform c r⟩)
  | request i r => exact moves_onNetwork (fun n => keeps_request (keeps_descends n.circuit) r) s i
  | project i destination topology weight =>
    exact moves_onNetwork
      (fun n => keeps_project (keeps_descends n.circuit) destination topology weight) s i
  | upkeep i u hu =>
    exact moves_onNetwork (fun n => keeps_upkeep (keeps_descends n.circuit) hu) s i

end Session

end GatedNetwork
