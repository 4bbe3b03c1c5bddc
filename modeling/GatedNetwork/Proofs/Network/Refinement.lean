import GatedNetwork.Proofs.Circuit.Reachable
import GatedNetwork.Proofs.Network.Passes

/-!
# Compiled passes refine interpreted ones

A program may be given any memory of its size. Whatever it holds, writing it back before the passes
and taking them in the circuit leaves the same circuit as taking them with the program and writing the
memory back after: `restore_run_passes`. All of this succeeds.
-/

namespace GatedNetwork

variable {α : Type} [Arithmetic α]

namespace Circuit

variable {c : Circuit α} {layers : Layers} {m : Memory α}

/-- A layer set that is accepted for a sound circuit whose ensembles list existing neurons can be
compiled. Then, for any memory of the program's size and any passes with the right numbers of values:
the program takes the passes, its memory can be written back before and after, the circuit takes the
passes step by step, and both ways end in the same circuit. -/
theorem restore_run_passes [NeutralOne α] (h : c.Sound) {n : Network α}
    (hn : Network.create c layers = .ok n) :
    (c.Peopled → ∃ p, c.compile (c.placements layers) = .ok p) ∧
      ∀ p, c.compile (c.placements layers) = .ok p → ∀ m : Memory α, m.size = p.memory.size →
        ∀ qs : List (Pass α), (∀ q ∈ qs, q.Suits c layers) →
          ∃ p' before after, qs.forM Pass.run { p with memory := m } = .ok () p' ∧
            p'.restoreInto c = .ok () after ∧
            Program.restoreInto { p with memory := m } c = .ok () before ∧
            qs.forM (Pass.walk layers) before = .ok () after := by
  constructor
  · exact fun hp => ⟨_, h.compile (hp.inhabits layers)⟩
  · intro p hp m hsize qs hqs
    obtain ⟨rfl, hin⟩ := compile_eq_ok hp
    have hruns : c.Runs layers := ⟨h, (create_eq_ok hn).1, hin⟩
    have hsize' : m.size = (c.program layers).symbols.length := by
      rw [hsize]
      simp [program, lower]
    obtain ⟨m', hsize'', hrun, hwalk⟩ := run_passes hruns (Neutral.load c) hsize' hqs
    exact ⟨_, _, _, hrun, restoreInto_program hruns hsize'',
      restoreInto_program hruns hsize', hwalk⟩

/-- A ring of three neurons, of which the second is listed twice and gates its own loop; the third
gates the link into the second, which has a gain that is driven. -/
def layeredRing : Circuit Int := performAll ring [.wrap [0], .wrap [1, 1], .wrap [2]]

/-- A memory full of threes, a backward pass between two forward ones. -/
theorem restore_run_passes_layeredRing :
    ∃ n p, layeredRing.Sound ∧ Network.create layeredRing (.unbound 0 [1] 2) = .ok n ∧
      layeredRing.compile (layeredRing.placements (.unbound 0 [1] 2)) = .ok p ∧
      ∃ p' before after,
        [Pass.forward [5], .backward 2 [7], .forward [-1]].forM Pass.run
          { p with memory := Array.replicate p.memory.size 3 } = .ok () p' ∧
        p'.restoreInto layeredRing = .ok () after ∧
        Program.restoreInto { p with memory := Array.replicate p.memory.size 3 } layeredRing =
          .ok () before ∧
        [Pass.forward [5], .backward 2 [7], .forward [-1]].forM
          (Pass.walk (.unbound 0 [1] 2)) before = .ok () after := by
  have hsound : layeredRing.Sound :=
    (consistent_performAll (consistent_performAll (consistent_empty 0 ⟨7, 2, 1⟩) _) _).sound
  have hensembles : ∀ e ∈ (Layers.unbound 0 [1] 2).ensembles, layeredRing.hasEnsemble e = true := by
    decide +kernel
  have hinhabits : layeredRing.Inhabits (.unbound 0 [1] 2) := by
    unfold Inhabits
    decide +kernel
  obtain ⟨n, hn⟩ := create_ok hensembles
  have hp := hsound.compile hinhabits
  have hsuits : ∀ q ∈ [Pass.forward [5], .backward 2 [7], .forward [-1]],
      q.Suits layeredRing (.unbound 0 [1] 2) := by
    simp only [List.forall_mem_cons]
    exact ⟨by decide +kernel, by decide +kernel, by decide +kernel,
      fun _ hq => absurd hq List.not_mem_nil⟩
  exact ⟨n, _, hsound, hn, hp,
    (restore_run_passes hsound hn).2 _ hp _ (by simp) _ hsuits⟩

end Circuit

end GatedNetwork
