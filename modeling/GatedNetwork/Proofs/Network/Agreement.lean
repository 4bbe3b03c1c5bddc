import GatedNetwork.Proofs.Network.Reachable

/-!
# Answers in both modes

A program reads the outputs from its memory when the whole pass is over. Step by step, every output is
read as soon as it has fired. The two answers agree in the last place of every neuron, and so all over
if the output ensemble lists no neuron twice; nothing else about the ensembles of a layer set matters,
they may share neurons in any way. In an earlier place of a neuron the program already gives what the
neuron becomes later in the pass: `activate_echo`.
-/

namespace GatedNetwork

variable {α : Type} [Arithmetic α]

namespace Circuit

/-- The circuit in a forward pass, right after the output in place `j` has fired. -/
def passUpTo (c : Circuit α) (layers : Layers) (input : List α) (j : Nat) : Circuit α :=
  ((c.clampAll ((c.members layers.input).zip input)).stepAll (c.hiddenMembers layers)).stepAll
    ((c.members layers.output).take (j + 1))

end Circuit

namespace Network

open Circuit

variable {layers : Layers} {n : Network α} {d : Circuit α}

/-- A network without its program that is switched to running step by step. -/
theorem setOptimize_false_ok [NeutralOne α] (h : Shows layers n d) :
    setOptimize false n = .ok () ⟨d, layers, .interpreted⟩ := by
  rw [← h.layers_eq]
  exact Op.bind_of_ok (restore_ok h).1

/-- Every network within reach that runs compiled takes any input of the right length, and so it does
when it is switched to running step by step before. Both ways leave the same circuit to be restored.
Compiled, the answer is what the outputs end up with; step by step, it is what each of them had when it
fired in its place. Both agree in the last place of every neuron. -/
theorem activate_both_modes [NeutralOne α] (h : n.Reachable) (hmode : n.mode ≠ .interpreted)
    {input : List α} (hlen : n.inputSize = input.length) :
    ∃ xs n₁ n₂ ys n₃, activate input n = .ok xs n₁ ∧
      setOptimize false n = .ok () n₂ ∧ activate input n₂ = .ok ys n₃ ∧
      n₁.restored = n₃.restored ∧
      xs = (n.circuit.members n.layers.output).map (fun u => (n₁.restored.neuron u).activation) ∧
      ys.length = xs.length ∧
      (∀ (j : Nat) (u : NeuronId), (n.circuit.members n.layers.output)[j]? = some u →
        ys[j]? = some ((n.restored.passUpTo n.layers input j).neuron u).activation ∧
          (u ∉ (n.circuit.members n.layers.output).drop (j + 1) → ys[j]? = xs[j]?)) ∧
      ((n.circuit.members n.layers.output).Nodup → ys = xs) := by
  obtain ⟨layers, d, hshows, hd⟩ := shows_of_reachable h
  rw [hshows.inputSize] at hlen
  obtain ⟨n₁, hcompiled, hshows₁⟩ := activate_compiled hshows hd hmode hlen.symm
  have hstepped := activate_interpreted hd hlen.symm
  have hshows₃ : Shows layers _ (d.forwardPass layers input) := .interpreted _
  refine ⟨_, n₁, _, _, _, hcompiled, setOptimize_false_ok hshows, hstepped,
    hshows₁.restored.trans hshows₃.restored.symm, ?_⟩
  rw [hshows.layers_eq, hshows.restored, hshows₁.restored, ← hshows.sameWiring.members]
  refine ⟨rfl, by rw [length_activateAll, List.length_map], fun j u hj => ?_, ?_⟩
  · refine ⟨getElem?_activateAll _ hj, fun hlast => ?_⟩
    rw [getElem?_activateAll_last _ hj hlast, List.getElem?_map, hj]
    rfl
  · exact activateAll_fst _

/-- Two neurons, of which the second feeds itself, and an output that lists the second twice. -/
def echo : Circuit Int := performAll (.empty 0 ⟨7, 2, 1⟩)
  [.addEnsemble 1, .addEnsemble 1, .configure 1 (some .identity) (some 1), .connect 0 1 (some 2),
    .connect 1 1 (some 1), .wrap [1, 1]]

/-- A network over these whose hidden ensemble and whose output share a neuron. -/
theorem activate_both_modes_echo :
    ∃ n : Network Int, Network.create echo (.unbound 0 [1] 2) = .ok n ∧ n.Reachable ∧
      n.mode ≠ .interpreted ∧ n.inputSize = 1 ∧
      ∃ xs n₁ n₂ ys n₃, activate [3] n = .ok xs n₁ ∧
        setOptimize false n = .ok () n₂ ∧ activate [3] n₂ = .ok ys n₃ ∧
        n₁.restored = n₃.restored ∧ ys[1]? = xs[1]? := by
  have hreachable : Reachable ⟨echo, (Layers.unbound 0 [1] 2).bind echo.identity, .pending⟩ :=
    reachable_of_requests (by unfold Inhabits; decide +kernel) (by decide +kernel)
  refine ⟨_, rfl, hreachable, nofun, by decide +kernel, ?_⟩
  have hlen : Network.inputSize (⟨echo, (Layers.unbound 0 [1] 2).bind echo.identity, .pending⟩ :
      Network Int) = ([3] : List Int).length := by decide +kernel
  obtain ⟨xs, n₁, n₂, ys, n₃, hxs, hswitch, hys, hsame, -, -, hplaces, -⟩ :=
    activate_both_modes hreachable nofun hlen
  exact ⟨xs, n₁, n₂, ys, n₃, hxs, hswitch, hys, hsame,
    (hplaces 1 1 (by decide +kernel)).2 (by decide +kernel)⟩

/-- The first place of the second neuron is answered with its second activation by a program, and with
its first one step by step. -/
theorem activate_echo :
    ∃ n : Network Int, Network.create echo (.unbound 0 [] 2) = .ok n ∧ n.Reachable ∧
      (activate [3]).answer n = .ok [14, 14] ∧
      (do setOptimize false; activate [3] : Op (Network Int) (List Int)).answer n = .ok [7, 14] := by
  have hreachable : Reachable ⟨echo, (Layers.unbound 0 [] 2).bind echo.identity, .pending⟩ :=
    reachable_of_requests (by unfold Inhabits; decide +kernel) (by decide +kernel)
  exact ⟨_, rfl, hreachable, by decide +kernel, by decide +kernel⟩

end Network

end GatedNetwork
