import GatedNetwork.Error

/-!
# Bytes

Stored data is a list of bytes. Numbers of fixed width are little-endian. Reading takes from the
front and answers what is left.
-/

namespace GatedNetwork

abbrev Bytes := List UInt8

namespace Bytes

/-- The lowest `width` bytes of `n`, the lowest first. -/
def ofNat : (width n : Nat) → Bytes
  | 0, _ => []
  | width + 1, n => UInt8.ofNat n :: ofNat width (n / 256)

/-- The number that bytes stand for, the lowest first. -/
def toNat : Bytes → Nat
  | [] => 0
  | b :: bs => b.toNat + 256 * toNat bs

@[simp] theorem length_ofNat (width n : Nat) : (ofNat width n).length = width := by
  induction width generalizing n with
  | zero => rfl
  | succ width ih => simp [ofNat, ih]

/-- A number below `256 ^ width` is read back from its bytes. -/
theorem toNat_ofNat {width n : Nat} (h : n < Nat.pow 256 width) : toNat (ofNat width n) = n := by
  induction width generalizing n with
  | zero =>
    have hzero : n = 0 := Nat.lt_one_iff.mp h
    simp [ofNat, toNat, hzero]
  | succ width ih =>
    have hdiv : n / 256 < Nat.pow 256 width := by
      refine Nat.div_lt_of_lt_mul ?_
      rw [Nat.mul_comm]
      exact h
    simp only [ofNat, toNat, ih hdiv, UInt8.toNat_ofNat']
    omega

/-- The bytes of a number are read back from it. -/
theorem ofNat_toNat (bs : Bytes) : ofNat bs.length (toNat bs) = bs := by
  induction bs with
  | nil => rfl
  | cons b bs ih =>
    have hb := b.toNat_lt
    have hdiv : (b.toNat + 256 * toNat bs) / 256 = toNat bs := by omega
    have hmod : UInt8.ofNat (b.toNat + 256 * toNat bs) = b := by
      apply UInt8.toNat_inj.1
      rw [UInt8.toNat_ofNat']
      omega
    simp only [List.length_cons, ofNat, toNat, hdiv, hmod, ih]

/-- The first `count` bytes and the rest, if there are that many. -/
def splitAt? : (count : Nat) → Bytes → Option (Bytes × Bytes)
  | 0, bs => some ([], bs)
  | _ + 1, [] => none
  | count + 1, b :: bs => (splitAt? count bs).map fun (front, rest) => (b :: front, rest)

theorem splitAt?_append (front rest : Bytes) :
    splitAt? front.length (front ++ rest) = some (front, rest) := by
  induction front with
  | nil => rfl
  | cons b front ih => simp [splitAt?, ih]

theorem splitAt?_eq_some {count : Nat} {bs front rest : Bytes}
    (h : splitAt? count bs = some (front, rest)) : bs = front ++ rest ∧ front.length = count := by
  induction count generalizing bs front with
  | zero =>
    obtain ⟨rfl, rfl⟩ : ([] : Bytes) = front ∧ bs = rest := by simpa [splitAt?] using h
    exact ⟨rfl, rfl⟩
  | succ count ih =>
    cases bs with
    | nil => simp [splitAt?] at h
    | cons b bs =>
      simp only [splitAt?, Option.map_eq_some_iff, Prod.mk.injEq, Prod.exists] at h
      obtain ⟨front', rest', hsplit, rfl, rfl⟩ := h
      obtain ⟨rfl, rfl⟩ := ih hsplit
      exact ⟨rfl, rfl⟩

/-- The first `count` bytes and the rest. -/
def take (count : Nat) (bs : Bytes) : Except StorageFault (Bytes × Bytes) :=
  match splitAt? count bs with
  | some r => .ok r
  | none => .error .endOfBytes

/-- A number of `width` bytes from the front, and the rest. -/
def takeNat (width : Nat) (bs : Bytes) : Except StorageFault (Nat × Bytes) := do
  let (front, rest) ← take width bs
  return (toNat front, rest)

theorem takeNat_ofNat_append {width n : Nat} (h : n < Nat.pow 256 width) (rest : Bytes) :
    takeNat width (ofNat width n ++ rest) = .ok (n, rest) := by
  have hsplit := splitAt?_append (ofNat width n) rest
  rw [length_ofNat] at hsplit
  simp [takeNat, take, hsplit, toNat_ofNat h, bind, Except.bind, pure, Except.pure]

end Bytes

end GatedNetwork
