import GatedNetwork.Storage.Bytes

/-!
# LZ4 blocks

A block is a list of sequences. A sequence is a run of literal bytes and then, but for the last one,
a copy of bytes that were put out before. A token gives the two lengths in four bits each; 15 means
that the following bytes add to the length, up to the first one that is not 255.

* `parse?` splits a block into its sequences.
* `expand?` carries out the sequences under a limit on the size of the result.
* `Reader` is what a stored memory is read with; `Reader.standard` splits blocks and carries them out.
* `store` makes a block of one literal run, which holds any bytes.
-/

namespace GatedNetwork.Lz4

/-- A copy of `length` bytes from `offset` bytes back. It may run into the bytes it puts out. -/
structure Copy where
  offset : Nat
  length : Nat
deriving DecidableEq, Repr

/-- Literal bytes, and a copy unless it is the last sequence of a block. -/
structure Sequence where
  literals : Bytes
  copy : Option Copy
deriving DecidableEq, Repr

/-! ## Parsing -/

/-- Adds bytes to a length up to the first that is not 255. -/
def extend? (length : Nat) : Bytes → Option (Nat × Bytes)
  | [] => none
  | b :: bs => if b = 255 then extend? (length + 255) bs else some (length + b.toNat, bs)

/-- The length that four bits of a token begin. -/
def length? (nibble : Nat) (bs : Bytes) : Option (Nat × Bytes) :=
  if nibble = 15 then extend? 15 bs else some (nibble, bs)

theorem extend?_length_le {n m : Nat} {bs rest : Bytes} (h : extend? n bs = some (m, rest)) :
    rest.length ≤ bs.length := by
  induction bs generalizing n with
  | nil => simp [extend?] at h
  | cons b bs ih =>
    unfold extend? at h
    split at h
    · exact Nat.le_succ_of_le (ih h)
    · obtain ⟨-, rfl⟩ : _ ∧ bs = rest := by simpa using h
      exact Nat.le_succ _

theorem length?_length_le {n m : Nat} {bs rest : Bytes} (h : length? n bs = some (m, rest)) :
    rest.length ≤ bs.length := by
  unfold length? at h
  split at h
  · exact extend?_length_le h
  · obtain ⟨-, rfl⟩ : _ ∧ bs = rest := by simpa using h
    exact Nat.le_refl _

theorem splitAt?_length_le {n : Nat} {bs front rest : Bytes}
    (h : Bytes.splitAt? n bs = some (front, rest)) : rest.length ≤ bs.length := by
  obtain ⟨rfl, -⟩ := Bytes.splitAt?_eq_some h
  simp

/-- The sequences of a block. A block ends after literals; in the last token the lower four bits mean
nothing. -/
def parse? : Bytes → Option (List Sequence)
  | [] => none
  | token :: bs =>
    match _h₁ : length? (token.toNat / 16) bs with
    | none => none
    | some (count, bs₁) =>
      match _h₂ : Bytes.splitAt? count bs₁ with
      | none => none
      | some (literals, []) => some [⟨literals, none⟩]
      -- half of an offset
      | some (_, [_]) => none
      | some (literals, low :: high :: bs₂) =>
        let offset := low.toNat + 256 * high.toNat
        if offset = 0 then none
        else
          match _h₃ : length? (token.toNat % 16) bs₂ with
          | none => none
          | some (length, bs₃) =>
            (parse? bs₃).map (⟨literals, some ⟨offset, length + 4⟩⟩ :: ·)
termination_by bs => bs.length
decreasing_by
  have := length?_length_le _h₁
  have := splitAt?_length_le _h₂
  have := length?_length_le _h₃
  simp only [List.length_cons] at *
  omega

/-! ## Expanding -/

/-- Puts out `length` more bytes, each the one `offset` bytes back. -/
def copyBack (out : Array UInt8) (offset : Nat) : (length : Nat) → Array UInt8
  | 0 => out
  | length + 1 => copyBack (out.push (out.getD (out.size - offset) 0)) offset length

/-- Carries out one sequence. The result may not exceed `limit` bytes, nor a copy reach back before
the first byte. -/
def Sequence.expand? (limit : Nat) (out : Array UInt8) (s : Sequence) : Option (Array UInt8) :=
  if limit < out.size + s.literals.length then none
  else
    let out := out ++ s.literals
    match s.copy with
    | none => some out
    | some c =>
      if out.size < c.offset || limit < out.size + c.length then none
      else some (copyBack out c.offset c.length)

/-- Carries out sequences from the first to the last. -/
def expand? (limit : Nat) (sequences : List Sequence) : Option (Array UInt8) :=
  sequences.foldlM (Sequence.expand? limit) #[]

/-! ## Readers of blocks -/

/-- The most bytes that a block of `size` bytes may have. -/
def maxBlock (size : Nat) : Nat := 20 + size * 110 / 100

/-- A way to read blocks. -/
structure Reader where
  /-- The bytes a block stands for, at most `limit` of them. -/
  read? : (limit : Nat) → (block : Bytes) → Option Bytes
  /-- The most bytes that a block of `size` bytes may have. -/
  maxBlock : (size : Nat) → Nat

namespace Reader

/-- Splits blocks and carries their sequences out. -/
def standard : Reader where
  read? limit block := ((parse? block).bind (expand? limit)).map (·.toList)
  maxBlock := Lz4.maxBlock

/-- The bytes a block stands for, or that it is none. -/
def decompress (reader : Reader) (limit : Nat) (block : Bytes) : Except StorageFault Bytes :=
  match reader.read? limit block with
  | some bytes => .ok bytes
  | none => .error .compression

end Reader

/-- The bytes a block stands for, at most `limit` of them. -/
def decompress (limit : Nat) (block : Bytes) : Except StorageFault Bytes :=
  Reader.standard.decompress limit block

/-! ## Storing -/

/-- The bytes that add up to a length, all 255 but the last. -/
def lengthBytes (n : Nat) : Bytes :=
  if n < 255 then [UInt8.ofNat n] else 255 :: lengthBytes (n - 255)

/-- A block of one literal run. -/
def store (payload : Bytes) : Bytes :=
  let n := payload.length
  if n < 15 then UInt8.ofNat (16 * n) :: payload
  else 240 :: (lengthBytes (n - 15) ++ payload)

end GatedNetwork.Lz4
