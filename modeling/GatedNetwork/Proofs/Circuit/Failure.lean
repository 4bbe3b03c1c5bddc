import GatedNetwork.Proofs.Circuit.Request

/-!
# Why requests for projections and gates fail

Once both ends of a projection are found, the request can fail for the sizes of an assignment from one
neuron to one. A request for a gate can fail for reasons of its own. Beside that, either one can come
upon a neuron that does not exist.
-/

namespace GatedNetwork

variable {α : Type} [Arithmetic α]

namespace Error

/-- The sizes of a projection from one neuron to one do not match. -/
def IsOneToOne (e : Error) : Prop := ∃ here there, e = .sizeMismatch .oneToOneTarget here there

def IsGate (e : Error) : Prop := ∃ fault, e = .gate fault

def IsDangling (e : Error) : Prop := ∃ r, e = .dangling r

end Error

namespace Circuit

variable {c : Circuit α}

omit [Arithmetic α] in
theorem failsWith_requireNeurons {P : Error → Prop} (hP : ∀ u, P (.dangling (.neuron u)))
    (us : List NeuronId) : FailsWith P (c.requireNeurons us) :=
  .forM fun u _ => .require fun _ => hP u

theorem failsWith_planBetween {P : Error → Prop} (hP : ∀ u, P (.dangling (.neuron u)))
    (source target : EnsembleId) (topology : Topology) :
    FailsWith P (c.planBetween source target topology) := by
  unfold planBetween
  split
  · exact .ok _
  · refine FailsWith.bind ?_ fun _ _ => ?_
    · unfold requireSurvey
      split
      · exact .ok ()
      · exact failsWith_requireNeurons hP _
    · simp only
      split
      · exact .ok _
      · refine (failsWith_requireNeurons hP _).bind fun _ _ => ?_
        exact (failsWith_requireNeurons hP _).bind fun _ _ => .ok _

/-- Once both ends of a projection are found, a request for it can fail for its sizes and for neurons
that do not exist. -/
theorem failsWith_planProjection {source target : EnsembleId} (hs : c.hasEnsemble source = true)
    (ht : c.hasEnsemble target = true) (topology : Option Topology) :
    FailsWith (fun e => e.IsOneToOne ∨ e.IsDangling)
      (c.planProjection source (.ensemble target) topology) := by
  have hresolve : c.resolve (.ensemble target) = .ok target := resolve_eq_ok_iff.mpr ⟨rfl, ht⟩
  have hbetween : ∀ t, FailsWith (fun e => e.IsOneToOne ∨ e.IsDangling)
      (c.planBetween source target t) :=
    failsWith_planBetween (fun u => .inr ⟨_, rfl⟩) source target
  unfold planProjection
  refine FailsWith.bind (.require fun hno => absurd hs (by simp [hno])) fun _ _ => ?_
  refine FailsWith.bind (.of_eq_ok hresolve) fun t ht => ?_
  rw [hresolve] at ht
  cases ht
  generalize topology.getD (if source = target then .oneToOne else .allToAll) = t
  simp only
  split
  · refine FailsWith.bind (.require fun _ => .inl ⟨_, _, rfl⟩) fun _ _ => ?_
    exact hbetween t
  · exact hbetween t

theorem failsWith_gatePlan (gaters : List NeuronId) (p : Projection) (side : GateSide) :
    FailsWith Error.IsGate (c.gatePlan gaters p side) := by
  unfold gatePlan
  cases side <;> exact .bind (.require fun _ => ⟨_, rfl⟩) fun _ _ => .ok _

/-- A request to gate a projection fails for its own reasons or for gaters that do not exist. -/
theorem failsWith_planGating (gater : EnsembleId) (projection : ProjectionId) (side : GateSide) :
    FailsWith (fun e => e.IsGate ∨ e.IsDangling) (c.planGating gater projection side) := by
  refine FailsWith.bind (.require fun _ => .inl ⟨_, rfl⟩) fun _ _ => ?_
  refine FailsWith.bind (.require fun _ => .inl ⟨_, rfl⟩) fun _ _ => ?_
  refine FailsWith.bind ?_ fun _ _ => ?_
  · exact fun e he => .inl (failsWith_gatePlan _ _ _ e he)
  · refine FailsWith.bind ?_ fun _ _ => .ok _
    exact failsWith_requireNeurons (fun u => .inr ⟨_, rfl⟩) _

end Circuit

end GatedNetwork
