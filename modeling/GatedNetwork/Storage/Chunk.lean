import GatedNetwork.Storage.Lz4

/-!
# Chunks

A chunk is a tag of four bytes, the number of bytes that follow, the size of the payload and the
payload as an LZ4 block; both numbers have four bytes. Reading checks both against the size the
payload has to have before it takes the block.
-/

namespace GatedNetwork

/-- A tag and the payload under it. -/
structure Chunk where
  /-- The four bytes of the tag as a number, the first byte the lowest. -/
  tag : Nat
  payload : Bytes
deriving DecidableEq, Repr

namespace Chunk

/-- The largest number that four bytes hold. -/
def maxField : Nat := 0xFFFFFFFF

/-- A tag and a length from the front. -/
def takeHeader (bs : Bytes) : Except StorageFault ((Nat × Nat) × Bytes) := do
  let (tag, bs) ← Bytes.takeNat 4 bs
  let (length, bs) ← Bytes.takeNat 4 bs
  return ((tag, length), bs)

/-- The bytes of a chunk whose payload of `size` bytes was compressed to `block`. The length field
stays at the largest number it can hold. -/
def frame (tag size : Nat) (block : Bytes) : Except StorageFault Bytes :=
  if maxField < size || maxField < block.length then .error .chunkTooLarge
  else
    .ok (Bytes.ofNat 4 tag ++ Bytes.ofNat 4 (min (4 + block.length) maxField) ++
      Bytes.ofNat 4 size ++ block)

/-- The bytes of a chunk. -/
def toBytes (c : Chunk) : Except StorageFault Bytes :=
  frame c.tag c.payload.length (Lz4.store c.payload)

/-- A chunk with a payload of exactly `size` bytes from the front, and the rest, when blocks are read by
`reader`. -/
def takeBy (reader : Lz4.Reader) (size : Nat) (bs : Bytes) : Except StorageFault (Chunk × Bytes) := do
  let ((tag, length), bs) ← takeHeader bs
  if length < 4 then throw .shortChunk
  let (raw, bs) ← Bytes.takeNat 4 bs
  if raw ≠ size then throw .unexpectedSize
  if reader.maxBlock size < length - 4 then throw .oversizedBlock
  let (block, bs) ← Bytes.take (length - 4) bs
  let payload ← reader.decompress raw block
  if payload.length ≠ raw then throw .lengthMismatch
  return ({ tag, payload }, bs)

/-- A chunk with a payload of exactly `size` bytes from the front, and the rest. -/
def take (size : Nat) (bs : Bytes) : Except StorageFault (Chunk × Bytes) := takeBy .standard size bs

end Chunk

end GatedNetwork
