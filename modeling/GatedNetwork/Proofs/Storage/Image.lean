import Mathlib.Algebra.Group.Nat.Defs
import GatedNetwork.Proofs.Op
import GatedNetwork.Proofs.Storage.Lz4
import GatedNetwork.Storage.Image

/-!
# Reading stored memories

A reader takes a field from the front and answers what is left, so each is described by the bytes it
accepts: these bytes with any others behind them. The descriptions of the fields make up that of a
chunk, and those of header and chunk make up that of an image.

* `Chunk.takeBy_eq_ok_iff`: the bytes that are read as a chunk.
* `Program.loadImage_outcomes`: the bytes that a program loads its memory from, and what it is then.
* `Program.loadImage_imageBy`: what a program saves is loaded by every program with as many slots.
-/

namespace GatedNetwork

/-! ## Fields -/

namespace Bytes

theorem take_eq_ok_iff {count : Nat} {bs front rest : Bytes} :
    take count bs = .ok (front, rest) ↔ front.length = count ∧ bs = front ++ rest := by
  rw [take]
  constructor
  · intro h
    split at h
    · rename_i hsplit
      obtain rfl := Except.ok.inj h
      exact (splitAt?_eq_some hsplit).symm
    · cases h
  · rintro ⟨rfl, rfl⟩
    rw [splitAt?_append]

theorem toNat_lt (bs : Bytes) : toNat bs < Nat.pow 256 bs.length := by
  induction bs with
  | nil => exact Nat.one_pos
  | cons b bs ih =>
    have hb := b.toNat_lt
    have hpow : Nat.pow 256 (bs.length + 1) = Nat.pow 256 bs.length * 256 := rfl
    rw [toNat, List.length_cons, hpow]
    omega

theorem takeNat_eq_ok_iff {width n : Nat} {bs rest : Bytes} :
    takeNat width bs = .ok (n, rest) ↔ n < Nat.pow 256 width ∧ bs = ofNat width n ++ rest := by
  constructor
  · intro h
    obtain ⟨⟨front, rest'⟩, htake, hn⟩ := bind_eq_ok_iff.mp h
    obtain ⟨rfl, rfl⟩ := take_eq_ok_iff.mp htake
    obtain ⟨rfl, rfl⟩ := Prod.mk.inj (Except.ok.inj hn)
    exact ⟨toNat_lt front, by rw [ofNat_toNat]⟩
  · rintro ⟨hn, rfl⟩
    exact takeNat_ofNat_append hn rest

end Bytes

/-! ## Chunks -/

namespace Chunk

/-- `bytes` are a chunk: its fields, and a block that stands for its payload. -/
structure Frames (c : Chunk) (block bytes : Bytes) : Prop where
  tag_le : c.tag ≤ maxField
  length_le : 4 + block.length ≤ maxField
  size_le : c.payload.length ≤ maxField
  block_le : block.length ≤ Lz4.maxBlock c.payload.length
  expands : Lz4.Expands block c.payload
  bytes_eq : bytes = Bytes.ofNat 4 c.tag ++ (Bytes.ofNat 4 (4 + block.length) ++
    (Bytes.ofNat 4 c.payload.length ++ block))

theorem takeField_eq_ok_iff {n : Nat} {bs rest : Bytes} :
    Bytes.takeNat 4 bs = .ok (n, rest) ↔ n ≤ maxField ∧ bs = Bytes.ofNat 4 n ++ rest :=
  Bytes.takeNat_eq_ok_iff.trans (and_congr_left' Nat.lt_succ_iff)

theorem takeHeader_eq_ok_iff {tag length : Nat} {bs rest : Bytes} :
    takeHeader bs = .ok ((tag, length), rest) ↔ tag ≤ maxField ∧ length ≤ maxField ∧
      bs = Bytes.ofNat 4 tag ++ (Bytes.ofNat 4 length ++ rest) := by
  simp only [takeHeader, bind_eq_ok_iff, Prod.exists, takeField_eq_ok_iff]
  constructor
  · rintro ⟨_, _, ⟨htag, rfl⟩, _, _, ⟨hlength, rfl⟩, heq⟩
    obtain ⟨⟨rfl, rfl⟩, rfl⟩ : (_ = tag ∧ _ = length) ∧ _ = rest := by simpa using Except.ok.inj heq
    exact ⟨htag, hlength, rfl⟩
  · rintro ⟨htag, hlength, rfl⟩
    exact ⟨tag, _, ⟨htag, rfl⟩, length, rest, ⟨hlength, rfl⟩, rfl⟩

/-- The bytes that are read as a chunk. -/
theorem takeBy_eq_ok_iff {reader : Lz4.Reader} (hreader : reader.Lawful) {size : Nat} {c : Chunk}
    {bs rest : Bytes} :
    takeBy reader size bs = .ok (c, rest) ↔ c.payload.length = size ∧
      ∃ block bytes, bs = bytes ++ rest ∧ Frames c block bytes := by
  simp only [takeBy, bind_eq_ok_iff, Prod.exists, throw_bind_eq_ok_iff, takeHeader_eq_ok_iff,
    takeField_eq_ok_iff, Bytes.take_eq_ok_iff, hreader.decompress_eq_ok_iff, hreader.maxBlock_eq,
    Nat.not_lt, ne_eq, Decidable.not_not]
  constructor
  · rintro ⟨tag, length, _, ⟨htag, hlength, rfl⟩, hshort, _, _, ⟨hraw, rfl⟩, rfl, hblock, block,
      rest, ⟨hcount, rfl⟩, payload, ⟨hexpands, -⟩, rfl, heq⟩
    obtain ⟨rfl, rfl⟩ := Prod.mk.inj (Except.ok.inj heq)
    obtain rfl : length = 4 + block.length := by omega
    rw [Nat.add_sub_cancel_left] at hblock
    exact ⟨rfl, block, _, by simp only [List.append_assoc],
      ⟨htag, hlength, hraw, hblock, hexpands, rfl⟩⟩
  · rintro ⟨rfl, block, _, rfl, h⟩
    obtain ⟨tag, payload⟩ := c
    have hcount : block.length = 4 + block.length - 4 := (Nat.add_sub_cancel_left ..).symm
    refine ⟨tag, 4 + block.length, _, ⟨h.tag_le, h.length_le, ?_⟩, Nat.le_add_right 4 _, payload.length,
      block ++ rest, ⟨h.size_le, rfl⟩, rfl, hcount ▸ h.block_le, block, rest, ⟨hcount, rfl⟩, payload,
      ⟨h.expands, Nat.le_refl _⟩, rfl, rfl⟩
    rw [h.bytes_eq]
    simp only [List.append_assoc]

/-- The bytes that are written as a chunk. The length field stops at the greatest number it can hold. -/
theorem frame_eq_ok_iff {tag size : Nat} {block bytes : Bytes} :
    frame tag size block = .ok bytes ↔ size ≤ maxField ∧ block.length ≤ maxField ∧
      bytes = Bytes.ofNat 4 tag ++ (Bytes.ofNat 4 (min (4 + block.length) maxField) ++
        (Bytes.ofNat 4 size ++ block)) := by
  simp only [frame, Bool.or_eq_true, decide_eq_true_eq]
  constructor
  · intro h
    split at h
    · cases h
    rename_i hfits
    obtain rfl := Except.ok.inj h
    exact ⟨by omega, by omega, by simp only [List.append_assoc]⟩
  · rintro ⟨hsize, hblock, rfl⟩
    rw [if_neg (by omega)]
    simp only [List.append_assoc]

/-- A block of one literal run is no longer than a block may be. -/
theorem length_store_le (payload : Bytes) :
    (Lz4.store payload).length ≤ Lz4.maxBlock payload.length := by
  unfold Lz4.store Lz4.maxBlock
  by_cases hlt : payload.length < 15
  · rw [if_pos hlt, List.length_cons]
    omega
  · rw [if_neg hlt, List.length_cons, List.length_append, Lz4.length_lengthBytes]
    omega

end Chunk

/-! ## Numbers -/

namespace Image

theorem ofDoubles_cons (x : Double) (xs : List Double) :
    ofDoubles (x :: xs) = Bytes.ofNat 8 x.bits.toNat ++ ofDoubles xs := rfl

@[simp] theorem length_ofDoubles (xs : List Double) : (ofDoubles xs).length = 8 * xs.length := by
  induction xs with
  | nil => rfl
  | cons x xs ih =>
    rw [ofDoubles_cons, List.length_append, Bytes.length_ofNat, ih, List.length_cons]
    omega

@[simp] theorem length_payload (memory : Memory Double) :
    (payload memory).length = 8 * memory.size := by
  rw [payload, length_ofDoubles, Array.length_toList]

theorem takeDoubles_eq_ok_iff {count : Nat} {bs : Bytes} {xs : List Double} :
    takeDoubles count bs = .ok xs ↔ xs.length = count ∧ ∃ rest, bs = ofDoubles xs ++ rest := by
  induction count generalizing bs xs with
  | zero =>
    constructor
    · rintro ⟨⟩
      exact ⟨rfl, bs, rfl⟩
    · rintro ⟨hlength, -⟩
      rw [List.eq_nil_of_length_eq_zero hlength]
      rfl
  | succ count ih =>
    simp only [takeDoubles, bind_eq_ok_iff, Prod.exists, Bytes.takeNat_eq_ok_iff, ih]
    constructor
    · rintro ⟨word, _, ⟨hword, rfl⟩, xs, ⟨rfl, rest, rfl⟩, heq⟩
      obtain rfl := Except.ok.inj heq
      have hbits : (UInt64.ofNat word).toNat = word := UInt64.toNat_ofNat_of_lt' hword
      exact ⟨rfl, rest, by rw [ofDoubles_cons, hbits, List.append_assoc]⟩
    · rintro ⟨hlength, rest, rfl⟩
      cases xs with
      | nil => exact absurd hlength.symm (Nat.succ_ne_zero count)
      | cons x xs =>
        refine ⟨x.bits.toNat, ofDoubles xs ++ rest, ⟨x.bits.toNat_lt, ?_⟩, xs,
          ⟨Nat.succ_inj.mp hlength, rest, rfl⟩, ?_⟩
        · rw [ofDoubles_cons, List.append_assoc]
        · rw [UInt64.ofNat_toNat]
          rfl

/-! ## Images -/

/-- `image` holds `memory`: mark, version and number of slots, and one chunk with a block that stands
for the numbers, eight bytes each. -/
def IsImage (memory : Memory Double) (image : Bytes) : Prop :=
  ∃ block : Bytes,
    image = "GATENET1".toUTF8.toList ++ Bytes.ofNat 4 1 ++ Bytes.ofNat 8 memory.size ++
      "MEMF".toUTF8.toList ++ Bytes.ofNat 4 (4 + block.length) ++ Bytes.ofNat 4 (8 * memory.size) ++
      block ∧
    4 + block.length < 2 ^ 32 ∧ 8 * memory.size < 2 ^ 32 ∧
    block.length ≤ 20 + 8 * memory.size * 110 / 100 ∧ Lz4.Expands block (payload memory)

theorem ofNat_memoryTag : Bytes.ofNat 4 memoryTag = "MEMF".toUTF8.toList := by
  have hlength : "MEMF".toUTF8.toList.length = 4 := by decide +kernel
  have hback := Bytes.ofNat_toNat "MEMF".toUTF8.toList
  rwa [hlength] at hback

theorem isImage_iff {memory : Memory Double} {image : Bytes} :
    IsImage memory image ↔ ∃ block chunk, Chunk.Frames ⟨memoryTag, payload memory⟩ block chunk ∧
      image = header memory.size ++ chunk := by
  constructor
  · rintro ⟨block, rfl, hblock, hsize, hmax, hexpands⟩
    have htag : memoryTag ≤ Chunk.maxField := by decide +kernel
    refine ⟨block, _, ⟨htag, Nat.le_of_lt_succ hblock, ?_, ?_, hexpands, rfl⟩, ?_⟩
    · rw [length_payload]
      exact Nat.le_of_lt_succ hsize
    · rwa [length_payload]
    · simp only [header, ofNat_memoryTag, length_payload, List.append_assoc]
      rfl
  · rintro ⟨block, _, h, rfl⟩
    have hsize := h.size_le
    have hmax := h.block_le
    rw [length_payload] at hsize hmax
    refine ⟨block, ?_, Nat.lt_succ_of_le h.length_le, Nat.lt_succ_of_le hsize, hmax, h.expands⟩
    rw [h.bytes_eq]
    simp only [header, ofNat_memoryTag, length_payload, List.append_assoc]
    rfl

variable {reader : Lz4.Reader} {slots count : Nat} {memory memory' : Memory Double}
  {block image bs rest : Bytes}

theorem takeHeader_eq_ok_iff :
    takeHeader bs = .ok (count, rest) ↔ count < 2 ^ 64 ∧ bs = header count ++ rest := by
  simp only [takeHeader, bind_eq_ok_iff, Prod.exists, throw_bind_eq_ok_iff, Bytes.take_eq_ok_iff,
    Bytes.takeNat_eq_ok_iff, ne_eq, Decidable.not_not]
  constructor
  · rintro ⟨_, _, ⟨-, rfl⟩, rfl, _, _, ⟨-, rfl⟩, rfl, hcount, rfl⟩
    exact ⟨hcount, by simp only [header, List.append_assoc]⟩
  · rintro ⟨hcount, rfl⟩
    exact ⟨mark, _, ⟨rfl, by simp only [header, List.append_assoc]⟩, rfl, version, _,
      ⟨by decide, rfl⟩, rfl, hcount, rfl⟩

theorem takeMemoryBy_eq_ok_iff (hreader : reader.Lawful) :
    takeMemoryBy reader slots bs = .ok (memory, rest) ↔ memory.size = slots ∧ ∃ block chunk,
      bs = chunk ++ rest ∧ Chunk.Frames ⟨memoryTag, payload memory⟩ block chunk := by
  simp only [takeMemoryBy, bind_eq_ok_iff, Prod.exists, throw_bind_eq_ok_iff,
    Chunk.takeBy_eq_ok_iff hreader, takeDoubles_eq_ok_iff, ne_eq, Decidable.not_not]
  constructor
  · rintro ⟨-, ⟨tag, bytes⟩, _, ⟨hlength, block, chunk, rfl, h⟩, rfl, xs, ⟨rfl, more, rfl⟩, heq⟩
    obtain ⟨rfl, rfl⟩ := Prod.mk.inj (Except.ok.inj heq)
    have hmore : more = [] := by
      rw [List.length_append, length_ofDoubles] at hlength
      exact List.eq_nil_of_length_eq_zero (by omega)
    rw [hmore, List.append_nil] at h
    exact ⟨rfl, block, chunk, rfl, h⟩
  · rintro ⟨rfl, block, chunk, rfl, h⟩
    have hlength := (length_payload memory).trans (Nat.mul_comm 8 _)
    have hword := Nat.not_lt_of_le
      (Nat.le_trans (hlength ▸ h.size_le) (by decide : Chunk.maxField ≤ maxBytes))
    exact ⟨hword, _, rest, ⟨hlength, block, chunk, rfl, h⟩, rfl, memory.toList,
      ⟨Array.length_toList, [], (List.append_nil _).symm⟩, rfl⟩

/-- The bytes that are read as a memory. -/
theorem takeBy_eq_ok_iff (hreader : reader.Lawful) :
    takeBy reader slots bs = .ok (memory, rest) ↔ memory.size = slots ∧
      ∃ image, bs = image ++ rest ∧ IsImage memory image := by
  simp only [takeBy, bind_eq_ok_iff, Prod.exists, mapError_eq_ok_iff, takeHeader_eq_ok_iff,
    takeMemoryBy_eq_ok_iff hreader, checkLength_eq_ok_iff, isImage_iff]
  constructor
  · rintro ⟨_, _, ⟨-, rfl⟩, _, rfl, hsize, block, chunk, rfl, h⟩
    exact ⟨hsize, _, (List.append_assoc ..).symm, block, chunk, h, by rw [hsize]⟩
  · rintro ⟨rfl, _, rfl, block, chunk, h, rfl⟩
    have hsize := h.size_le
    rw [length_payload] at hsize
    have hcount : memory.size < 2 ^ 64 :=
      Nat.lt_of_le_of_lt (Nat.le_trans (Nat.le_mul_of_pos_left _ (by decide)) hsize) (by decide)
    exact ⟨memory.size, chunk ++ rest, ⟨hcount, List.append_assoc ..⟩, (), rfl, rfl, block, chunk, rfl,
      h⟩

theorem payload_inj (h : payload memory = payload memory') :
    memory = memory' := by
  have hread {m : Memory Double} : takeDoubles m.size (payload m) = .ok m.toList :=
    takeDoubles_eq_ok_iff.mpr ⟨Array.length_toList, [], (List.append_nil _).symm⟩
  have hsize : memory.size = memory'.size := by
    have hlength := congrArg List.length h
    rw [length_payload, length_payload] at hlength
    omega
  have heq := hread (m := memory)
  rw [h, hsize, hread] at heq
  exact (Array.toList_inj.mp (Except.ok.inj heq)).symm

/-! ## Writing -/

theorem frame_eq_ok_iff :
    frame memory block = .ok image ↔ 8 * memory.size ≤ Chunk.maxField ∧
      block.length ≤ Chunk.maxField ∧ image = header memory.size ++ (Bytes.ofNat 4 memoryTag ++
        (Bytes.ofNat 4 (min (4 + block.length) Chunk.maxField) ++
          (Bytes.ofNat 4 (8 * memory.size) ++ block))) := by
  simp only [frame, bind_eq_ok_iff, length_payload, Chunk.frame_eq_ok_iff]
  constructor
  · rintro ⟨chunk, ⟨hsize, hblock, rfl⟩, himage⟩
    obtain rfl := Except.ok.inj himage
    exact ⟨hsize, hblock, rfl⟩
  · rintro ⟨hsize, hblock, rfl⟩
    exact ⟨_, ⟨hsize, hblock, rfl⟩, rfl⟩

/-- A block that its length field can count makes an image. -/
theorem isImage_of_frame (hexpands : Lz4.Expands block (payload memory))
    (hmax : block.length ≤ Lz4.maxBlock (payload memory).length)
    (hcount : 4 + block.length ≤ Chunk.maxField) (h : frame memory block = .ok image) :
    IsImage memory image := by
  obtain ⟨hsize, -, rfl⟩ := frame_eq_ok_iff.mp h
  rw [← length_payload] at hsize
  have htag : memoryTag ≤ Chunk.maxField := by decide +kernel
  refine isImage_iff.mpr ⟨block, _, ⟨htag, hcount, hsize, hmax, hexpands, rfl⟩, ?_⟩
  rw [Nat.min_eq_left hcount, length_payload]

/-- What is read from an image that was written is what was written, also where the block is too long
for its length field. -/
theorem takeBy_frame (hreader : reader.Lawful) (hexpands : Lz4.Expands block (payload memory))
    (h : frame memory block = .ok image)
    (htake : takeBy reader memory.size image = .ok (memory', rest)) :
    memory' = memory ∧ rest = [] := by
  obtain ⟨hsize, _, himage, hheld⟩ := (takeBy_eq_ok_iff hreader).mp htake
  obtain ⟨block', chunk, hframes, rfl⟩ := isImage_iff.mp hheld
  obtain ⟨-, -, rfl⟩ := frame_eq_ok_iff.mp h
  rw [hframes.bytes_eq, hsize] at himage
  have hblock : block = block' ++ rest := by
    simp only [List.append_assoc] at himage
    obtain ⟨-, himage⟩ := List.append_inj (List.append_cancel_left himage) (by simp)
    obtain ⟨-, himage⟩ := List.append_inj himage (by simp)
    exact (List.append_inj himage (by simp)).2
  have hlengths : (payload memory').length = (payload memory).length := by
    rw [length_payload, length_payload, hsize]
  by_cases hrest : rest = []
  · rw [hrest, List.append_nil] at hblock
    rw [hblock] at hexpands
    exact ⟨payload_inj (hframes.expands.unique hexpands), hrest⟩
  · -- the field counts less than the block, but a block that stops short stands for less
    rw [hblock] at hexpands
    exact absurd hlengths (Nat.ne_of_lt (hframes.expands.length_lt_of_append hrest hexpands))

end Image

namespace Program

/-! ## Loading -/

variable {reader : Lz4.Reader} {p p' q : Program Double} {bs rest : Bytes}

theorem loadImageBy_of_takeBy {memory : Memory Double}
    (h : Image.takeBy reader p.memory.size bs = .ok (memory, rest)) :
    loadImageBy reader bs p = .ok rest { p with memory } :=
  Op.checked_of_ok (memory, rest) h

theorem loadImageBy_of_takeBy_error {e : Error}
    (h : Image.takeBy reader p.memory.size bs = .error e) :
    loadImageBy reader bs p = .error e p :=
  Op.checked_error h

theorem loadImageBy_ok_iff (hreader : reader.Lawful) :
    loadImageBy reader bs p = .ok rest p' ↔ ∃ image memory, bs = image ++ rest ∧
      memory.size = p.memory.size ∧ Image.IsImage memory image ∧ p' = { p with memory } := by
  constructor
  · intro h
    cases htake : Image.takeBy reader p.memory.size bs with
    | error e =>
      rw [loadImageBy_of_takeBy_error htake] at h
      cases h
    | ok plan =>
      rw [loadImageBy_of_takeBy htake] at h
      cases h
      obtain ⟨hsize, image, himage, hheld⟩ := (Image.takeBy_eq_ok_iff hreader).mp htake
      exact ⟨image, _, himage, hsize, hheld, rfl⟩
  · rintro ⟨image, memory, himage, hsize, hheld, rfl⟩
    exact loadImageBy_of_takeBy ((Image.takeBy_eq_ok_iff hreader).mpr ⟨hsize, image, himage, hheld⟩)

/-- **A program loads an image with as many slots as it has from the front of the bytes, leaves the
others, and takes nothing but the memory from it. Anything else fails and changes nothing.** -/
theorem loadImage_outcomes (hreader : reader.Lawful) (p : Program Double) (bs : Bytes) :
    (∀ rest p', loadImageBy reader bs p = .ok rest p' ↔ ∃ image memory, bs = image ++ rest ∧
      memory.size = p.memory.size ∧ Image.IsImage memory image ∧ p' = { p with memory }) ∧
    ∀ e p', loadImageBy reader bs p = .error e p' → p' = p := by
  refine ⟨fun rest p' => loadImageBy_ok_iff hreader, fun e p' h => ?_⟩
  cases htake : Image.takeBy reader p.memory.size bs with
  | error e' =>
    rw [loadImageBy_of_takeBy_error htake] at h
    cases h
    rfl
  | ok plan =>
    rw [loadImageBy_of_takeBy htake] at h
    cases h

/-- The program of one output neuron. -/
def lone : Program Double := ((Circuit.empty 0 ⟨0, 0, 0⟩).addNeuron.2).lower [⟨0, .output⟩]

/-- Eighty zero bytes: one that is written out, seventy-four that repeat it, and the last five. -/
def zeroBlock : Bytes := [0x1F, 0, 1, 0, 55, 0x50, 0, 0, 0, 0, 0]

/-- An image of ten zeros. -/
def zeroImage : Bytes :=
  "GATENET1".toUTF8.toList ++ Bytes.ofNat 4 1 ++ Bytes.ofNat 8 10 ++ "MEMF".toUTF8.toList ++
    Bytes.ofNat 4 15 ++ Bytes.ofNat 4 80 ++ zeroBlock

theorem expands_zeroBlock :
    Lz4.Expands zeroBlock (Image.payload (Array.replicate 10 0)) := by
  have hrepeats : Lz4.Repeats 1 ([] ++ [0]) (List.replicate 74 0) :=
    ⟨by decide, by decide, by decide +kernel⟩
  exact ⟨[⟨[0], some ⟨1, 74⟩⟩, ⟨[0, 0, 0, 0, 0], none⟩],
    Lz4.parse?_eq_some_iff.mp (by decide +kernel), .copy rfl hrepeats (.last .nil)⟩

theorem loadImage_zeroImage :
    Lz4.Reader.standard.Lawful ∧
      loadImage (zeroImage ++ [7]) lone = .ok [7] { lone with memory := Array.replicate 10 0 } ∧
      ∃ e, loadImage (List.take 8 zeroImage) lone = .error e lone := by
  obtain ⟨hloads, -⟩ := loadImage_outcomes Lz4.lawful_standard lone (zeroImage ++ [7])
  obtain ⟨-, hfails⟩ := loadImage_outcomes Lz4.lawful_standard lone (List.take 8 zeroImage)
  refine ⟨Lz4.lawful_standard, (hloads _ _).mpr ?_, ?_⟩
  · exact ⟨zeroImage, Array.replicate 10 0, rfl, by decide +kernel,
      ⟨zeroBlock, rfl, by decide, by decide, by decide, expands_zeroBlock⟩, rfl⟩
  · -- the mark alone, without the version behind it
    have hmark : Bytes.take Image.mark.length (List.take 8 zeroImage) = .ok (Image.mark, []) :=
      Bytes.take_eq_ok_iff.mpr ⟨rfl, by decide +kernel⟩
    have htake : Image.takeBy .standard lone.memory.size (List.take 8 zeroImage) =
        .error (.image .endOfBytes) := by
      rw [Image.takeBy, Image.takeHeader, hmark]
      simp only [bind, Except.bind, ne_eq, not_true_eq_false, if_false]
      rfl
    obtain ⟨e, p', herror⟩ : ∃ e p', loadImage (List.take 8 zeroImage) lone = .error e p' :=
      ⟨_, _, loadImageBy_of_takeBy_error htake⟩
    obtain rfl := hfails e p' herror
    exact ⟨e, herror⟩

/-! ## Saving -/

/-- The image of the memory of a program when its payload is compressed by `compress`. -/
def imageBy (compress : Bytes → Bytes) (p : Program Double) : Except StorageFault Bytes :=
  Image.frame p.memory (compress (Image.payload p.memory))

theorem image_eq_imageBy (p : Program Double) : p.image = p.imageBy Lz4.store := rfl

/-- **What a program saves is loaded by every program with as many slots, whatever blocks the
compressor makes.** -/
theorem loadImage_imageBy (hreader : reader.Lawful) {compress : Bytes → Bytes}
    (hexpands : ∀ bytes, Lz4.Expands (compress bytes) bytes)
    (hlength : ∀ bytes, (compress bytes).length ≤ Lz4.maxBlock bytes.length)
    (hsize : q.memory.size = p.memory.size)
    (hlt : (compress (Image.payload p.memory)).length < 2 ^ 32 - 4) {image : Bytes}
    (hsave : p.imageBy compress = .ok image) (rest : Bytes) :
    loadImageBy reader (image ++ rest) q = .ok rest { q with memory := p.memory } := by
  have hcount : 4 + (compress (Image.payload p.memory)).length ≤ Chunk.maxField := by
    rw [Chunk.maxField]
    omega
  have hheld := Image.isImage_of_frame (hexpands _) (hlength _) hcount hsave
  exact loadImageBy_of_takeBy
    ((Image.takeBy_eq_ok_iff hreader).mpr ⟨hsize.symm, image, rfl, hheld⟩)

/-- The same program with numbers whose bytes count from 0 to 79, so that nothing in them repeats. -/
def counted : Program Double :=
  { lone with
    memory := Array.ofFn fun k : Fin 10 => ⟨0x0706050403020100 + 0x0808080808080808 * k.val.toUInt64⟩ }

theorem loadImage_counted :
    Lz4.Reader.standard.Lawful ∧ counted.memory.size = 10 ∧ counted.memory ≠ lone.memory ∧
      ∃ image, counted.image = .ok image ∧
        loadImage (image ++ [1, 2]) lone = .ok [1, 2] counted := by
  have hsize : 8 * counted.memory.size ≤ Chunk.maxField := by decide +kernel
  have hblock : (Lz4.store (Image.payload counted.memory)).length ≤ Chunk.maxField := by
    decide +kernel
  have hsave := Image.frame_eq_ok_iff.mpr ⟨hsize, hblock, rfl⟩
  rw [image_eq_imageBy]
  exact ⟨Lz4.lawful_standard, rfl, by decide +kernel, _, hsave,
    loadImage_imageBy (p := counted) (q := lone) Lz4.lawful_standard Lz4.expands_store
      Chunk.length_store_le (by decide +kernel) (by decide +kernel) hsave [1, 2]⟩

end Program

end GatedNetwork
