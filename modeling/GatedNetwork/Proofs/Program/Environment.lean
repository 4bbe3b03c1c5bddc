import Mathlib.Data.List.Basic
import Mathlib.Logic.Function.Basic
import GatedNetwork.Program.Lowering

/-!
# Code over symbols

What code does to numbers under symbols, without slots and without a memory that could be too small.
An environment gives every symbol a number; an instruction changes one or two of them.

* `run_of_not_mem_writes` — code leaves alone what it does not write
* `run_congr` — code depends on the symbols it names only
* `run_accumulates` — a row of accumulations into one place is a sum from the left
* `run_flatMap_of_independent` — blocks that do not touch each other's symbols can be run one by one
-/

namespace GatedNetwork

variable {α : Type} [Arithmetic α]

/-- A number under every symbol. -/
abbrev Environment (α : Type) := Symbol → α

namespace Instr

/-- The places an instruction writes. -/
def writes {σ : Type} : Instr σ α → List σ
  | const t _ => [t]
  | copy t _ => [t]
  | product t _ => [t]
  | accumulate t _ => [t]
  | sum t _ _ => [t]
  | difference t _ _ => [t]
  | transfer _ _ a d => [a, d]

end Instr

namespace Environment

variable {σ τ : Environment α} {s p : Symbol} {i : Instr Symbol α} {code : List (Instr Symbol α)}

/-- The product of factors from the left; 1 if there are none. -/
def product : List α → α
  | [] => 1
  | x :: xs => xs.foldl (· * ·) x

/-- What an instruction makes of an environment. -/
def exec (σ : Environment α) : Instr Symbol α → Environment α
  | .const t v => Function.update σ t v
  | .copy t s => Function.update σ t (σ s)
  | .product t fs => Function.update σ t (product (fs.map σ))
  | .accumulate t fs => Function.update σ t (σ t + product (fs.map σ))
  | .sum t l r => Function.update σ t (σ l + σ r)
  | .difference t l r => Function.update σ t (σ l - σ r)
  | .transfer k s a d =>
    Function.update (Function.update σ a (Arithmetic.squash k (σ s)).1) d
      (Arithmetic.squash k (σ s)).2

/-- What code makes of an environment. -/
def run (σ : Environment α) : List (Instr Symbol α) → Environment α
  | [] => σ
  | i :: code => run (exec σ i) code

@[simp] theorem run_nil : run σ [] = σ := rfl

@[simp] theorem run_cons : run σ (i :: code) = run (exec σ i) code := rfl

theorem run_append (code code' : List (Instr Symbol α)) :
    run σ (code ++ code') = run (run σ code) code' := by
  induction code generalizing σ with
  | nil => rfl
  | cons i code ih => exact ih

/-! ## What code leaves alone -/

theorem exec_of_not_mem_writes (h : s ∉ i.writes) : exec σ i s = σ s := by
  cases i with
  | transfer k a b d =>
    simp only [Instr.writes, List.mem_cons, List.not_mem_nil, or_false, not_or] at h
    rw [exec, Function.update_of_ne h.2, Function.update_of_ne h.1]
  | _ =>
    simp only [Instr.writes, List.mem_singleton] at h
    exact Function.update_of_ne h _ _

theorem run_of_not_mem_writes (h : ∀ i ∈ code, s ∉ i.writes) : run σ code s = σ s := by
  induction code generalizing σ with
  | nil => rfl
  | cons i code ih =>
    obtain ⟨hi, hcode⟩ := List.forall_mem_cons.mp h
    rw [run_cons, ih hcode, exec_of_not_mem_writes hi]

/-! ## What code depends on -/

/-- Environments that agree on all places of an instruction agree on them afterwards, and on what it
does not write. -/
theorem exec_congr {P : Symbol → Prop} (h : ∀ s, P s → σ s = τ s) (hi : ∀ s ∈ i.places, P s) :
    ∀ s, P s → exec σ i s = exec τ i s := by
  have hmap : ∀ fs : List Symbol, (∀ s ∈ fs, P s) → fs.map σ = fs.map τ :=
    fun fs hfs => List.map_congr_left fun s hs => h s (hfs s hs)
  intro s hs
  cases i <;> simp only [Instr.places, List.forall_mem_cons] at hi <;>
    simp only [exec, Function.update_apply] <;> grind

/-- Environments that agree on all places of some code, and maybe more, still do so afterwards. -/
theorem run_congr {P : Symbol → Prop} (h : ∀ s, P s → σ s = τ s)
    (hcode : ∀ s ∈ Circuit.mentions code, P s) : ∀ s, P s → run σ code s = run τ code s := by
  induction code generalizing σ τ with
  | nil => exact h
  | cons i code ih =>
    simp only [Circuit.mentions, List.flatMap_cons, List.mem_append] at hcode
    exact ih (exec_congr h fun s hs => hcode s (.inl hs)) fun s hs => hcode s (.inr hs)

/-! ## Sums -/

/-- Accumulating products into a place that is no factor sums them up from the left. -/
theorem run_accumulates {β : Type} {factors : β → List Symbol} {bs : List β}
    (h : ∀ b ∈ bs, p ∉ factors b) :
    run σ (bs.map fun b => .accumulate p (factors b)) =
      Function.update σ p
        (bs.foldl (fun sum b => sum + product ((factors b).map σ)) (σ p)) := by
  induction bs generalizing σ with
  | nil => exact (Function.update_eq_self p σ).symm
  | cons b bs ih =>
    obtain ⟨hb, hbs⟩ := List.forall_mem_cons.mp h
    have hsame : ∀ x, ∀ b ∈ bs, (factors b).map (Function.update σ p x) = (factors b).map σ := by
      intro x b hmem
      refine List.map_congr_left fun s hs => ?_
      refine Function.update_of_ne ?_ _ _
      rintro rfl
      exact hbs b hmem hs
    rw [List.map_cons, run_cons, ih hbs, exec, Function.update_idem, Function.update_self,
      List.foldl_cons]
    congr 1
    refine List.foldl_ext _ _ _ fun sum b hb => ?_
    rw [hsame _ b hb]

/-! ## Independent blocks -/

/-- A symbol that one block of a sequence writes has the value that this block alone gives it, if the
other blocks leave the symbols of this one alone. -/
theorem run_flatMap_of_independent {β : Type} {block : β → List (Instr Symbol α)} {bs : List β}
    {b : β} (hnodup : bs.Nodup) (hb : b ∈ bs)
    (h : ∀ a ∈ bs, a ≠ b → ∀ i ∈ block a, s ∉ i.writes ∧
      ∀ t ∈ Circuit.mentions (block b), t ∉ i.writes) :
    run σ (bs.flatMap block) s = run σ (block b) s := by
  induction bs generalizing σ with
  | nil => exact absurd hb List.not_mem_nil
  | cons a bs ih =>
    obtain ⟨ha, hbs⟩ := List.nodup_cons.mp hnodup
    rw [List.flatMap_cons, run_append]
    by_cases hab : a = b
    · subst hab
      refine run_of_not_mem_writes fun i hi => ?_
      obtain ⟨a', ha', hi⟩ := List.mem_flatMap.mp hi
      refine (h a' (List.mem_cons_of_mem _ ha') ?_ i hi).1
      exact fun he => ha (he ▸ ha')
    · have hmem := (List.mem_cons.mp hb).resolve_left (Ne.symm hab)
      have hother := h a List.mem_cons_self hab
      rw [ih hbs hmem fun a' ha' => h a' (List.mem_cons_of_mem _ ha')]
      refine run_congr (P := fun t => t = s ∨ t ∈ Circuit.mentions (block b)) ?_
        (fun t ht => .inr ht) s (.inl rfl)
      rintro t (rfl | ht)
      · exact run_of_not_mem_writes fun i hi => (hother i hi).1
      · exact run_of_not_mem_writes fun i hi => (hother i hi).2 t ht

end Environment

end GatedNetwork
