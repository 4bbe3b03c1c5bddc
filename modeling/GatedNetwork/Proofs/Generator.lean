import Mathlib.Data.FinEnum
import GatedNetwork.Arithmetic

/-!
# Orbits of the generator

Folding a shift of a word back into it loses nothing, so a step of the generator only renames the states.

* `IsShift.foldBack_injective` — a word can be told from the word with a shift of it folded back
* `scramble_bijective` — every state comes from exactly one state
* `state_after_ofSeed` — no seed leads to the zero state, however many words are drawn
* `after_inj` — generators in different states stay in different states
-/

namespace GatedNetwork

/-! ## Folding back a shift -/

section Fold

variable {w : Nat} {shift : Nat → BitVec w → BitVec w}

/-- Shifts of a word, in one direction: bits do not mix, distances add up, and a shift by the whole width
leaves nothing. -/
structure IsShift (shift : Nat → BitVec w → BitVec w) : Prop where
  xor : ∀ k x y, shift k (x ^^^ y) = shift k x ^^^ shift k y
  add : ∀ k x, shift k (shift k x) = shift (k + k) x
  out : ∀ k x, w ≤ k → shift k x = 0#w

theorem isShift_shiftLeft : IsShift fun k (x : BitVec w) => x <<< k where
  xor k x y := BitVec.shiftLeft_xor_distrib x y k
  add k x := (BitVec.shiftLeft_add x k k).symm
  out _ _ h := BitVec.shiftLeft_eq_zero h

theorem isShift_shiftRight : IsShift fun k (x : BitVec w) => x >>> k where
  xor k x y := BitVec.ushiftRight_xor_distrib x y k
  add k x := (BitVec.shiftRight_add x k k).symm
  out _ _ h := BitVec.ushiftRight_eq_zero h

/-- A word with a shift of it folded back by exclusive or. -/
def foldBack (shift : Nat → BitVec w → BitVec w) (k : Nat) (x : BitVec w) : BitVec w := x ^^^ shift k x

/-- What was shifted once is folded in twice and cancels, so two folds are one of twice the distance. -/
theorem IsShift.foldBack_foldBack (h : IsShift shift) (k : Nat) (x : BitVec w) :
    foldBack shift k (foldBack shift k x) = foldBack shift (k + k) x := by
  unfold foldBack
  rw [h.xor, h.add, BitVec.xor_assoc, ← BitVec.xor_assoc (shift k x), BitVec.xor_self,
    BitVec.zero_xor]

/-- Folding can be undone: repeated, it doubles the distance until the whole word is shifted out. -/
theorem IsShift.foldBack_injective (h : IsShift shift) {k : Nat} (hk : 0 < k) :
    Function.Injective (foldBack shift k) := by
  by_cases hout : w ≤ k
  · intro x y hxy
    unfold foldBack at hxy
    rwa [h.out k x hout, h.out k y hout, BitVec.xor_zero, BitVec.xor_zero] at hxy
  · have htwice : foldBack shift k ∘ foldBack shift k = foldBack shift (k + k) :=
      funext (h.foldBack_foldBack k)
    refine .of_comp (f := foldBack shift k) ?_
    rw [htwice]
    exact h.foldBack_injective (Nat.add_pos_left hk k)
termination_by w - k

end Fold

namespace Generator

/-! ## One step -/

theorem scramble_injective : Function.Injective scramble := by
  intro x y hxy
  have hbits := congrArg UInt64.toBitVec hxy
  refine UInt64.toBitVec_inj.mp (isShift_shiftRight.foldBack_injective (k := 12) (by decide) ?_)
  refine isShift_shiftLeft.foldBack_injective (k := 25) (by decide) ?_
  exact isShift_shiftRight.foldBack_injective (k := 27) (by decide) hbits

theorem scramble_bijective : Function.Bijective scramble :=
  scramble_injective.bijective_of_finite

/-- Only the zero state leads to the zero state. -/
theorem scramble_eq_zero_iff {x : UInt64} : scramble x = 0 ↔ x = 0 :=
  scramble_injective.eq_iff' (by decide)

theorem ofSeed_ne_zero (seed : UInt64) : (ofSeed seed).state ≠ 0 := by
  unfold ofSeed
  split
  · decide
  · assumption

theorem next_inj {g h : Generator} : g.next.2 = h.next.2 ↔ g = h := by
  obtain ⟨x⟩ := g
  obtain ⟨y⟩ := h
  show Generator.mk (scramble x) = Generator.mk (scramble y) ↔ Generator.mk x = Generator.mk y
  rw [Generator.mk.injEq, Generator.mk.injEq, scramble_injective.eq_iff]

/-! ## A run of draws -/

/-- The generator after `n` draws. -/
def after (g : Generator) : Nat → Generator
  | 0 => g
  | n + 1 => (g.after n).next.2

theorem state_after_ofSeed (seed : UInt64) (n : Nat) : ((ofSeed seed).after n).state ≠ 0 := by
  induction n with
  | zero => exact ofSeed_ne_zero seed
  | succ n ih => exact mt scramble_eq_zero_iff.mp ih

theorem after_inj {g h : Generator} (n : Nat) : g.after n = h.after n ↔ g = h := by
  induction n with
  | zero => rfl
  | succ n ih => exact next_inj.trans ih

end Generator

end GatedNetwork
