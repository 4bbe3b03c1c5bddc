import GatedNetwork.Arithmetic
import GatedNetwork.Error

/-!
# Instructions

A program is straight-line code: a list of assignments to places. The code is the same whether the
places are symbols, which say what a value means, or slots, which say where it lies in memory;
`Instr.map` goes from one to the other.

Code over slots is run on a memory with every access checked.
-/

namespace GatedNetwork

/-- One assignment over places of type `σ`. -/
inductive Instr (σ α : Type) where
  | const (target : σ) (value : α)
  | copy (target source : σ)
  /-- The product of the factors from the left; 1 if there are none. -/
  | product (target : σ) (factors : List σ)
  /-- Adds the product of the factors to the target. -/
  | accumulate (target : σ) (factors : List σ)
  | sum (target left right : σ)
  | difference (target left right : σ)
  | transfer (kind : Transfer) (state activation derivative : σ)
deriving DecidableEq

namespace Instr

variable {σ τ α : Type}

/-- The same instruction over other places. -/
def map (f : σ → τ) : Instr σ α → Instr τ α
  | const t v => const (f t) v
  | copy t s => copy (f t) (f s)
  | product t fs => product (f t) (fs.map f)
  | accumulate t fs => accumulate (f t) (fs.map f)
  | sum t l r => sum (f t) (f l) (f r)
  | difference t l r => difference (f t) (f l) (f r)
  | transfer k s a d => transfer k (f s) (f a) (f d)

/-- The places an instruction names, the target first and then the operands in order. -/
def places : Instr σ α → List σ
  | const t _ => [t]
  | copy t s => [t, s]
  | product t fs => t :: fs
  | accumulate t fs => t :: fs
  | sum t l r => [t, l, r]
  | difference t l r => [t, l, r]
  | transfer _ s a d => [s, a, d]

theorem places_map (f : σ → τ) (i : Instr σ α) : (i.map f).places = i.places.map f := by
  cases i <;> rfl

end Instr

/-- A memory: one number per slot. -/
abbrev Memory (α : Type) := Array α

namespace Memory

variable {α : Type}

/-- The number in a slot. -/
def get (m : Memory α) (s : Slot) : Except Error α :=
  if h : s < m.size then .ok m[s] else .error (.dangling (.slot s))

/-- Puts a number into a slot. -/
def put (m : Memory α) (s : Slot) (x : α) : Except Error (Memory α) :=
  if h : s < m.size then .ok (m.set s x) else .error (.dangling (.slot s))

/-- Puts numbers into slots, as long as there are both. -/
def putAll (m : Memory α) : List Slot → List α → Except Error (Memory α)
  | s :: ss, x :: xs => do (← m.put s x).putAll ss xs
  | _, _ => .ok m

variable [Arithmetic α]

/-- The product of numbers in slots, from the left. -/
def product (m : Memory α) : List Slot → Except Error α
  | [] => .ok 1
  | s :: ss => do ss.foldlM (fun acc s => return acc * (← m.get s)) (← m.get s)

/-- Runs one instruction. -/
def exec (m : Memory α) : Instr Slot α → Except Error (Memory α)
  | .const t v => m.put t v
  | .copy t s => do m.put t (← m.get s)
  | .product t fs => do m.put t (← m.product fs)
  | .accumulate t fs => do
    let p ← m.product fs
    m.put t ((← m.get t) + p)
  | .sum t l r => do m.put t ((← m.get l) + (← m.get r))
  | .difference t l r => do m.put t ((← m.get l) - (← m.get r))
  | .transfer k s a d => do
    let (y, dy) := Arithmetic.squash k (← m.get s)
    (← m.put a y).put d dy

/-- Runs code. -/
def run (m : Memory α) : List (Instr Slot α) → Except Error (Memory α)
  | [] => .ok m
  | i :: code => do (← m.exec i).run code

end Memory

end GatedNetwork
