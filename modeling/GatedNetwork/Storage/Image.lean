import GatedNetwork.Double
import GatedNetwork.Program.Basic
import GatedNetwork.Storage.Chunk

/-!
# Memory images

The memory of a program as bytes: a mark, a version, the number of slots and one chunk with the
numbers in order. An image fits a program with as many slots; one that does not fit, or is not
whole, changes nothing.
-/

namespace GatedNetwork.Image

/-- The first eight bytes of an image. -/
def mark : Bytes := "GATENET1".toUTF8.toList

def version : Nat := 1

/-- The tag of the chunk with the numbers. -/
def memoryTag : Nat := Bytes.toNat "MEMF".toUTF8.toList

/-- Numbers as bytes, eight each. -/
def ofDoubles (xs : List Double) : Bytes := xs.flatMap fun x => Bytes.ofNat 8 x.bits.toNat

/-- `count` numbers from the front. -/
def takeDoubles : (count : Nat) → Bytes → Except StorageFault (List Double)
  | 0, _ => .ok []
  | count + 1, bs => do
    let (word, bs) ← Bytes.takeNat 8 bs
    let xs ← takeDoubles count bs
    return ⟨UInt64.ofNat word⟩ :: xs

/-- The bytes in front of the chunk. -/
def header (slots : Nat) : Bytes := mark ++ Bytes.ofNat 4 version ++ Bytes.ofNat 8 slots

/-- The numbers of a memory as the payload of its image. -/
def payload (memory : Memory Double) : Bytes := ofDoubles memory.toList

/-- The image of a memory whose payload was compressed to `block`. -/
def frame (memory : Memory Double) (block : Bytes) : Except StorageFault Bytes := do
  let chunk ← Chunk.frame memoryTag (payload memory).length block
  return header memory.size ++ chunk

/-- The image of a memory. -/
def ofMemory (memory : Memory Double) : Except StorageFault Bytes :=
  frame memory (Lz4.store (payload memory))

/-- The number of slots that an image says it has, and the rest of it. -/
def takeHeader (bs : Bytes) : Except StorageFault (Nat × Bytes) := do
  let (front, bs) ← Bytes.take mark.length bs
  if front ≠ mark then throw .badMagic
  let (v, bs) ← Bytes.takeNat 4 bs
  if v ≠ version then throw .unsupportedVersion
  Bytes.takeNat 8 bs

/-- The most bytes that are counted. -/
def maxBytes : Nat := 0xFFFFFFFFFFFFFFFF

/-- `slots` numbers from the chunk, and the rest, when blocks are read by `reader`. -/
def takeMemoryBy (reader : Lz4.Reader) (slots : Nat) (bs : Bytes) :
    Except StorageFault (Memory Double × Bytes) := do
  if maxBytes < slots * 8 then throw .imageTooLarge
  let (chunk, rest) ← Chunk.takeBy reader (slots * 8) bs
  if chunk.tag ≠ memoryTag then throw .missingChunk
  let xs ← takeDoubles slots chunk.payload
  return (xs.toArray, rest)

/-- A memory of `slots` slots from the front of `bs`, and the rest. -/
def takeBy (reader : Lz4.Reader) (slots : Nat) (bs : Bytes) :
    Except Error (Memory Double × Bytes) := do
  let (count, bs) ← (takeHeader bs).mapError .image
  checkLength .memoryImage slots count
  (takeMemoryBy reader count bs).mapError .image

end GatedNetwork.Image

namespace GatedNetwork.Program

/-- The image of the memory of a program. -/
def image (p : Program Double) : Except StorageFault Bytes := Image.ofMemory p.memory

/-- Takes the memory from an image in front of `bs`, whose block is read by `reader`; the bytes after
the image. -/
def loadImageBy (reader : Lz4.Reader) (bs : Bytes) : Op (Program Double) Bytes :=
  Op.checked (fun p => Image.takeBy reader p.memory.size bs)
    fun (memory, rest) p => (rest, { p with memory })

/-- Takes the memory from an image in front of `bs`; the bytes after the image. -/
def loadImage (bs : Bytes) : Op (Program Double) Bytes := loadImageBy .standard bs

end GatedNetwork.Program
