/-!
# Sets of ids

Neurons and links are named by natural numbers in the order of their creation. A set of ids is kept
as the ascending list of its members, so two sets with the same members are equal, and going through
a set is going through it in the order of creation.
-/

namespace GatedNetwork

/-- A finite set of ids. -/
structure IdSet where
  toList : List Nat
  ascending : toList.Pairwise (· < ·)
deriving DecidableEq

namespace IdSet

instance : Membership Nat IdSet := ⟨fun s k => k ∈ s.toList⟩

instance (k : Nat) (s : IdSet) : Decidable (k ∈ s) := inferInstanceAs (Decidable (k ∈ s.toList))

@[simp] theorem mem_toList {s : IdSet} {k : Nat} : k ∈ s.toList ↔ k ∈ s := Iff.rfl

/-- The set without members. -/
def empty : IdSet := ⟨[], .nil⟩

instance : EmptyCollection IdSet := ⟨empty⟩

instance : Inhabited IdSet := ⟨empty⟩

def isEmpty (s : IdSet) : Bool := s.toList.isEmpty

/-- Puts `k` at its place in an ascending list, once. -/
def place (k : Nat) : List Nat → List Nat
  | [] => [k]
  | j :: js => if k < j then k :: j :: js else if k = j then j :: js else j :: place k js

theorem mem_place {k i : Nat} {js : List Nat} : i ∈ place k js ↔ i = k ∨ i ∈ js := by
  induction js with
  | nil => simp [place]
  | cons j js ih =>
    unfold place
    split
    · simp
    · split
      · next h => simp [h]
      · simp [ih, or_left_comm]

theorem place_ascending {k : Nat} {js : List Nat} (h : js.Pairwise (· < ·)) :
    (place k js).Pairwise (· < ·) := by
  induction js with
  | nil => simp [place]
  | cons j js ih =>
    obtain ⟨hj, hjs⟩ := List.pairwise_cons.1 h
    unfold place
    split
    · next hlt =>
      refine List.pairwise_cons.2 ⟨fun i hi => ?_, h⟩
      rcases List.mem_cons.1 hi with rfl | hi
      · exact hlt
      · exact Nat.lt_trans hlt (hj i hi)
    · split
      · exact h
      · next hlt hne =>
        refine List.pairwise_cons.2 ⟨fun i hi => ?_, ih hjs⟩
        rcases mem_place.1 hi with rfl | hi
        · omega
        · exact hj i hi

/-- The set with `k` added. -/
def insert (s : IdSet) (k : Nat) : IdSet := ⟨place k s.toList, place_ascending s.ascending⟩

@[simp] theorem mem_insert {s : IdSet} {k i : Nat} : i ∈ s.insert k ↔ i = k ∨ i ∈ s := mem_place

/-- The members that satisfy `p`. -/
def filter (p : Nat → Bool) (s : IdSet) : IdSet := ⟨s.toList.filter p, s.ascending.filter p⟩

@[simp] theorem mem_filter {s : IdSet} {p : Nat → Bool} {i : Nat} :
    i ∈ s.filter p ↔ i ∈ s ∧ p i = true := List.mem_filter

/-- The set with `k` removed. -/
def erase (s : IdSet) (k : Nat) : IdSet := s.filter (· != k)

@[simp] theorem mem_erase {s : IdSet} {k i : Nat} : i ∈ s.erase k ↔ i ∈ s ∧ i ≠ k := by
  simp [erase]

/-- The members of either set. -/
def union (s t : IdSet) : IdSet := t.toList.foldl insert s

theorem mem_foldl_insert {ks : List Nat} {s : IdSet} {i : Nat} :
    i ∈ ks.foldl insert s ↔ i ∈ s ∨ i ∈ ks := by
  induction ks generalizing s with
  | nil => simp
  | cons k ks ih => simp [ih, or_assoc, or_left_comm]

@[simp] theorem mem_union {s t : IdSet} {i : Nat} : i ∈ s.union t ↔ i ∈ s ∨ i ∈ t :=
  mem_foldl_insert

/-- Two ascending lists with the same members are equal. -/
theorem eq_of_mem_iff {xs ys : List Nat} (hx : xs.Pairwise (· < ·)) (hy : ys.Pairwise (· < ·))
    (h : ∀ i, i ∈ xs ↔ i ∈ ys) : xs = ys := by
  induction xs generalizing ys with
  | nil =>
    cases ys with
    | nil => rfl
    | cons y ys => exact absurd ((h y).2 List.mem_cons_self) List.not_mem_nil
  | cons x xs ih =>
    cases ys with
    | nil => exact absurd ((h x).1 List.mem_cons_self) List.not_mem_nil
    | cons y ys =>
      obtain ⟨hx0, hx1⟩ := List.pairwise_cons.1 hx
      obtain ⟨hy0, hy1⟩ := List.pairwise_cons.1 hy
      have hxy : x = y := by
        rcases List.mem_cons.1 ((h x).1 List.mem_cons_self) with e | m
        · exact e
        · rcases List.mem_cons.1 ((h y).2 List.mem_cons_self) with e | m'
          · exact e.symm
          · exact absurd (hx0 y m') (Nat.lt_asymm (hy0 x m))
      subst hxy
      congr 1
      refine ih hx1 hy1 fun i => ⟨fun hi => ?_, fun hi => ?_⟩
      · rcases List.mem_cons.1 ((h i).1 (List.mem_cons_of_mem _ hi)) with rfl | m
        · exact absurd (hx0 i hi) (Nat.lt_irrefl i)
        · exact m
      · rcases List.mem_cons.1 ((h i).2 (List.mem_cons_of_mem _ hi)) with rfl | m
        · exact absurd (hy0 i hi) (Nat.lt_irrefl i)
        · exact m

/-- Sets with the same members are equal. -/
@[ext] theorem ext {s t : IdSet} (h : ∀ i, i ∈ s ↔ i ∈ t) : s = t := by
  obtain ⟨xs, hx⟩ := s
  obtain ⟨ys, hy⟩ := t
  obtain rfl : xs = ys := eq_of_mem_iff hx hy h
  rfl

end IdSet

end GatedNetwork
