import GatedNetwork.Proofs.Storage.Image

/-!
# Writing chunks and reading them back

The length field of a chunk counts four bytes more than its block has. Where this is more than four
bytes can hold, the chunk is written all the same, with the greatest number there is in the field.
Then a reader takes too few bytes for the block, and what is left of a block stands for less than the
payload.

* `Chunk.takeBy_frame`, `Chunk.takeBy_frame_overlong` — a chunk is read back if its length fits into the
  field, and refused otherwise
* `Chunk.frame_outcomes` — both, for every payload and every block of it
* `Lz4.length_of_ruler` — payloads that no block can shorten
* `Chunk.frame_ruler` — so for some payload no compressor makes a chunk that is read back
-/

namespace GatedNetwork

namespace Lz4

/-! ## Payloads without repetition

A copy repeats at least four bytes from at most 65535 bytes back. The bytes of a ruler come in threes:
in the two highest bits of each stands its place among the three, and below them a digit, to the base
64, of the number of the three. Four bytes in a row then tell where they stand, up to multiples of
786432.
-/

/-- The byte of a ruler at some place. -/
def rulerMark (p : Nat) : UInt8 := UInt8.ofNat (64 * (p % 3) + p / 3 / 64 ^ (p % 3) % 64)

/-- The first `n` bytes of a ruler. -/
def ruler (n : Nat) : Bytes := (List.range n).map rulerMark

@[simp] theorem length_ruler (n : Nat) : (ruler n).length = n := by
  rw [ruler, List.length_map, List.length_range]

theorem getElem?_ruler {n i : Nat} (hi : i < n) : (ruler n)[i]? = some (rulerMark i) := by
  rw [ruler, List.getElem?_map, List.getElem?_range hi]
  rfl

theorem toNat_rulerMark (p : Nat) : (rulerMark p).toNat = 64 * (p % 3) + p / 3 / 64 ^ (p % 3) % 64 := by
  rw [rulerMark, UInt8.toNat_ofNat']
  omega

theorem place_of_rulerMark {p q : Nat} (h : rulerMark p = rulerMark q) : p % 3 = q % 3 := by
  have hread := congrArg UInt8.toNat h
  rw [toNat_rulerMark, toNat_rulerMark] at hread
  omega

theorem digit_of_rulerMark {a b k : Nat} (hk : k < 3)
    (h : rulerMark (3 * a + k) = rulerMark (3 * b + k)) :
    a / 64 ^ k % 64 = b / 64 ^ k % 64 := by
  have hplace : ∀ m, (3 * m + k) % 3 = k := fun m => by omega
  have hnumber : ∀ m, (3 * m + k) / 3 = m := fun m => by omega
  have hread := congrArg UInt8.toNat h
  rw [toNat_rulerMark, toNat_rulerMark, hplace, hplace, hnumber, hnumber] at hread
  omega

/-- No four marks in a row come again within the reach of a copy. -/
theorem eq_of_rulerMark {p q : Nat} (hle : p ≤ q) (hnear : q ≤ p + 65535)
    (h : ∀ i < 4, rulerMark (p + i) = rulerMark (q + i)) : p = q := by
  have hplace := place_of_rulerMark (h 0 (by decide))
  obtain ⟨a, k, hk, rfl⟩ : ∃ a k, k < 3 ∧ p = 3 * a + k := ⟨p / 3, p % 3, by omega, by omega⟩
  obtain ⟨b, rfl⟩ : ∃ b, q = 3 * b + k := ⟨q / 3, by omega⟩
  -- three marks give three digits, those behind a full three the digits of the next number
  obtain rfl | rfl | rfl : k = 0 ∨ k = 1 ∨ k = 2 := by omega
  · have h₀ := digit_of_rulerMark (a := a) (b := b) (k := 0) (by decide) (h 0 (by decide))
    have h₁ := digit_of_rulerMark (a := a) (b := b) (k := 1) (by decide) (h 1 (by decide))
    have h₂ := digit_of_rulerMark (a := a) (b := b) (k := 2) (by decide) (h 2 (by decide))
    omega
  · have h₁ := digit_of_rulerMark (a := a) (b := b) (k := 1) (by decide) (h 0 (by decide))
    have h₂ := digit_of_rulerMark (a := a) (b := b) (k := 2) (by decide) (h 1 (by decide))
    have h₀ := digit_of_rulerMark (a := a + 1) (b := b + 1) (k := 0) (by decide) (h 2 (by decide))
    omega
  · have h₀ := digit_of_rulerMark (a := a + 1) (b := b + 1) (k := 0) (by decide) (h 1 (by decide))
    have h₁ := digit_of_rulerMark (a := a + 1) (b := b + 1) (k := 1) (by decide) (h 2 (by decide))
    have h₂ := digit_of_rulerMark (a := a + 1) (b := b + 1) (k := 2) (by decide) (h 3 (by decide))
    omega

/-! ## Blocks of such payloads -/

/-- What is put out stays in front. -/
theorem Produces.isPrefix {out result : Bytes} {sequences : List Sequence}
    (h : Produces out sequences result) : out <+: result := by
  induction h with
  | nil => exact List.prefix_rfl
  | last _ ih => exact (List.prefix_append _ _).trans ih
  | copy _ _ _ ih => exact ((List.prefix_append _ _).trans (List.prefix_append _ _)).trans ih

/-- In front of a ruler, nothing is a copy. -/
theorem not_repeats_ruler {n offset : Nat} {out copied : Bytes} (hoffset : offset ≤ 65535)
    (hfour : 4 ≤ copied.length) (hruler : out ++ copied <+: ruler n) :
    ¬ Repeats offset out copied := by
  intro hrepeats
  have hmark : ∀ i < (out ++ copied).length, (out ++ copied)[i]? = some (rulerMark i) := by
    intro i hi
    have hlt : i < n := by
      have hlength := hruler.length_le
      rw [length_ruler] at hlength
      exact Nat.lt_of_lt_of_le hi hlength
    obtain ⟨more, hmore⟩ := hruler
    rw [← getElem?_ruler hlt, ← hmore, List.getElem?_append_left hi]
  have hinside := hrepeats.inside
  have hwindow : ∀ i < 4, rulerMark (out.length - offset + i) = rulerMark (out.length + i) := by
    intro i hi
    have hsame := hrepeats.same i (by omega)
    have hhere : copied[i]? = (out ++ copied)[out.length + i]? := by
      rw [List.getElem?_append_right (Nat.le_add_right _ _), Nat.add_sub_cancel_left]
    have hback : out.length + i - offset = out.length - offset + i := by omega
    rw [hhere, hback, hmark _ (by rw [List.length_append]; omega),
      hmark _ (by rw [List.length_append]; omega)] at hsame
    exact (Option.some.inj hsame).symm
  have heq := eq_of_rulerMark (Nat.sub_le _ _) (by omega) hwindow
  have hpos := hrepeats.pos
  omega

theorem Counts.length_extra {nibble n : Nat} {extra : Bytes} (h : Counts nibble extra n)
    (hn : 15 ≤ n) : extra.length = (n - 15) / 255 + 1 := by
  cases h with
  | short hlt => omega
  | @long full last hlast =>
    have hne : last.toNat ≠ 255 := fun he => hlast (UInt8.toNat_inj.mp he)
    have hlt := last.toNat_lt
    rw [List.length_append, List.length_replicate, List.length_singleton]
    omega

/-- Every block of a ruler is one literal run, so all of them have one length. -/
theorem length_of_ruler {n : Nat} {block : Bytes} (hn : 15 ≤ n) (h : Expands block (ruler n)) :
    block.length = n + (n - 15) / 255 + 2 := by
  obtain ⟨sequences, hsplits, hproduces⟩ := h
  cases hsplits with
  | @last token extra literals hcounts =>
    cases hproduces with
    | last hproduces =>
      generalize hresult : ruler n = result at hproduces
      cases hproduces
      rw [List.nil_append] at hresult
      rw [← hresult, length_ruler] at hcounts
      rw [← hresult, List.length_cons, List.length_append, length_ruler, hcounts.length_extra hn]
      omega
  | @copy token low high extra literals extra' rest m sequences hcounts hcounts' hoffset hrest =>
    cases hproduces with
    | copy hcopied hrepeats hproduces =>
      have hlow := low.toNat_lt
      have hhigh := high.toNat_lt
      exact absurd hrepeats
        (not_repeats_ruler (by omega) (by omega) hproduces.isPrefix)

end Lz4

namespace Chunk

variable {reader : Lz4.Reader} {tag : Nat} {payload block bytes : Bytes}

/-! ## Chunks whose length fits -/

theorem takeHeader_frame {size : Nat} (htag : tag ≤ maxField)
    (hframe : frame tag size block = .ok bytes) (rest : Bytes) :
    takeHeader (bytes ++ rest) =
      .ok ((tag, min (4 + block.length) maxField), Bytes.ofNat 4 size ++ block ++ rest) := by
  obtain ⟨-, -, rfl⟩ := frame_eq_ok_iff.mp hframe
  exact takeHeader_eq_ok_iff.mpr ⟨htag, Nat.min_le_right _ _, by simp only [List.append_assoc]⟩

theorem takeBy_frame (hreader : reader.Lawful) (htag : tag ≤ maxField)
    (hexpands : Lz4.Expands block payload)
    (hmax : block.length ≤ Lz4.maxBlock payload.length)
    (hframe : frame tag payload.length block = .ok bytes) (hfits : 4 + block.length ≤ maxField)
    (rest : Bytes) : takeBy reader payload.length (bytes ++ rest) = .ok (⟨tag, payload⟩, rest) := by
  obtain ⟨hsize, -, hbytes⟩ := frame_eq_ok_iff.mp hframe
  rw [Nat.min_eq_left hfits] at hbytes
  exact (takeBy_eq_ok_iff hreader).mpr
    ⟨rfl, block, bytes, rfl, htag, hfits, hsize, hmax, hexpands, hbytes⟩

/-! ## Chunks whose length does not fit -/

/-- A number that a field holds is read from it. -/
theorem field_inj {m n : Nat} (hm : m ≤ maxField) (hn : n ≤ maxField)
    (h : Bytes.ofNat 4 m = Bytes.ofNat 4 n) : m = n := by
  have hread := congrArg Bytes.toNat h
  rwa [Bytes.toNat_ofNat (Nat.lt_succ_of_le hm), Bytes.toNat_ofNat (Nat.lt_succ_of_le hn)] at hread

/-- What is written with a length that does not fit is not read, whatever follows it. -/
theorem takeBy_frame_overlong (hreader : reader.Lawful) (hexpands : Lz4.Expands block payload)
    (hframe : frame tag payload.length block = .ok bytes) (hover : maxField < 4 + block.length)
    (rest : Bytes) : ∃ e, takeBy reader payload.length (bytes ++ rest) = .error e := by
  cases htake : takeBy reader payload.length (bytes ++ rest) with
  | error e => exact ⟨e, rfl⟩
  | ok read =>
    obtain ⟨c, left⟩ := read
    obtain ⟨hsize, block', chunk, happend, hframes⟩ := (takeBy_eq_ok_iff hreader).mp htake
    obtain ⟨-, -, rfl⟩ := frame_eq_ok_iff.mp hframe
    rw [hframes.bytes_eq, Nat.min_eq_right (Nat.le_of_lt hover)] at happend
    simp only [List.append_assoc] at happend
    obtain ⟨-, happend⟩ := List.append_inj happend (by simp)
    obtain ⟨hfield, happend⟩ := List.append_inj happend (by simp)
    obtain ⟨-, hblocks⟩ := List.append_inj happend (by simp)
    have hcount : maxField = 4 + block'.length :=
      field_inj (Nat.le_refl maxField) hframes.length_le hfield
    -- the reader takes a block that stops short, and that stands for less
    obtain ⟨more, hblock, -⟩ | ⟨more, hblock, -⟩ := List.append_eq_append_iff.mp hblocks
    · have hlength := congrArg List.length hblock
      rw [List.length_append] at hlength
      omega
    · have hmore : more ≠ [] := by
        rintro rfl
        rw [List.append_nil] at hblock
        rw [hblock] at hover
        omega
      rw [hblock] at hexpands
      exact absurd hsize (Nat.ne_of_lt (hframes.expands.length_lt_of_append hmore hexpands))

/-- For every payload and every block of it that is not too long: a chunk is written if both lengths fit
into four bytes. If there is room for four more in the length field, it counts exactly these bytes, and
with anything behind it the chunk is read back and nothing else. If there is none, the field holds the
greatest number, and the chunk is not read, whatever is behind it. -/
theorem frame_outcomes (hreader : reader.Lawful) (htag : tag ≤ maxField)
    (hexpands : Lz4.Expands block payload)
    (hmax : block.length ≤ Lz4.maxBlock payload.length) :
    ((∃ bytes, frame tag payload.length block = .ok bytes) ↔
      payload.length ≤ maxField ∧ block.length ≤ maxField) ∧
    ∀ bytes, frame tag payload.length block = .ok bytes →
      (4 + block.length ≤ maxField → ∀ rest,
        (∃ more, takeHeader (bytes ++ rest) = .ok ((tag, 4 + block.length), more)) ∧
        takeBy reader payload.length (bytes ++ rest) = .ok (⟨tag, payload⟩, rest)) ∧
      (maxField < 4 + block.length → ∀ rest,
        (∃ more, takeHeader (bytes ++ rest) = .ok ((tag, maxField), more)) ∧
        ∃ e, takeBy reader payload.length (bytes ++ rest) = .error e) := by
  refine ⟨?_, fun bytes hframe => ⟨fun hfits rest => ?_, fun hover rest => ?_⟩⟩
  · constructor
    · rintro ⟨bytes, hframe⟩
      obtain ⟨hsize, hblock, -⟩ := frame_eq_ok_iff.mp hframe
      exact ⟨hsize, hblock⟩
    · rintro ⟨hsize, hblock⟩
      exact ⟨_, frame_eq_ok_iff.mpr ⟨hsize, hblock, rfl⟩⟩
  · have hheader := takeHeader_frame htag hframe rest
    rw [Nat.min_eq_left hfits] at hheader
    exact ⟨⟨_, hheader⟩, takeBy_frame hreader htag hexpands hmax hframe hfits rest⟩
  · have hheader := takeHeader_frame htag hframe rest
    rw [Nat.min_eq_right (Nat.le_of_lt hover)] at hheader
    exact ⟨⟨_, hheader⟩, takeBy_frame_overlong hreader hexpands hframe hover rest⟩

/-- Eighty zero bytes in a block that copies most of them. -/
theorem frame_outcomes_zeroBlock :
    Lz4.Reader.standard.Lawful ∧ ∃ bytes, frame Image.memoryTag 80 Program.zeroBlock = .ok bytes ∧
      ∀ rest, take 80 (bytes ++ rest) =
        .ok (⟨Image.memoryTag, Image.payload (.replicate 10 0)⟩, rest) := by
  have hsize : (Image.payload (.replicate 10 0)).length = 80 := by
    rw [Image.length_payload, Array.size_replicate]
  have hlength : Program.zeroBlock.length = 11 := rfl
  have htag : Image.memoryTag ≤ maxField := by decide +kernel
  have hmax : Program.zeroBlock.length ≤ Lz4.maxBlock (Image.payload (.replicate 10 0)).length := by
    rw [hsize]
    decide
  obtain ⟨hok, hread⟩ := frame_outcomes Lz4.lawful_standard htag Program.expands_zeroBlock hmax
  rw [hsize] at hok hread
  obtain ⟨bytes, hbytes⟩ := hok.mpr ⟨by decide, by decide⟩
  exact ⟨Lz4.lawful_standard, bytes, hbytes,
    fun rest => ((hread bytes hbytes).1 (by decide) rest).2⟩

/-- A ruler of this many bytes has blocks of one length only, and four bytes more do not fit into the
field. Whatever a compressor makes of it, the chunk is written, the field holds one less than it
should, and no reader takes the chunk. -/
theorem frame_ruler :
    (∃ block, Lz4.Expands block (Lz4.ruler 4278190075)) ∧
      ∀ block, Lz4.Expands block (Lz4.ruler 4278190075) →
        block.length ≤ Lz4.maxBlock 4278190075 ∧ 4 + block.length = 2 ^ 32 ∧
        ∃ bytes, frame Image.memoryTag 4278190075 block = .ok bytes ∧
          (∃ more, takeHeader bytes = .ok ((Image.memoryTag, 2 ^ 32 - 1), more)) ∧
          ∀ (reader : Lz4.Reader), reader.Lawful → ∀ rest,
            ∃ e, takeBy reader 4278190075 (bytes ++ rest) = .error e := by
  refine ⟨⟨_, Lz4.expands_store _⟩, fun block hexpands => ?_⟩
  have hlength : block.length = 4294967292 := Lz4.length_of_ruler (by decide) hexpands
  have hmax : block.length ≤ Lz4.maxBlock 4278190075 := by
    rw [hlength]
    decide
  have hsize : 4278190075 ≤ maxField := by decide
  have hcount : block.length ≤ maxField := by
    rw [hlength]
    decide
  obtain ⟨bytes, hframe⟩ : ∃ bytes, frame Image.memoryTag 4278190075 block = .ok bytes :=
    ⟨_, frame_eq_ok_iff.mpr ⟨hsize, hcount, rfl⟩⟩
  have hover : maxField < 4 + block.length := by
    rw [hlength]
    decide
  have hheader := takeHeader_frame (by decide +kernel : Image.memoryTag ≤ maxField) hframe []
  rw [List.append_nil, Nat.min_eq_right (Nat.le_of_lt hover)] at hheader
  refine ⟨hmax, by omega, bytes, hframe, ⟨_, hheader⟩, fun reader hreader rest => ?_⟩
  have hrefused : frame Image.memoryTag (Lz4.ruler 4278190075).length block = .ok bytes →
      ∃ e, takeBy reader (Lz4.ruler 4278190075).length (bytes ++ rest) = .error e :=
    fun hruler => takeBy_frame_overlong hreader hexpands hruler hover rest
  rw [Lz4.length_ruler] at hrefused
  exact hrefused hframe

end Chunk

end GatedNetwork
