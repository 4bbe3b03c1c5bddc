import GatedNetwork.Storage.Lz4

/-!
# What LZ4 blocks stand for

`Expands` says which bytes a block stands for by how the block is made: a sequence is a token, the
literals it counts and, but for the last one, an offset and a copy that repeats what is `offset`
bytes back. Expanding a block answers exactly these bytes, if they stay within the limit.

* `lawful_standard`: a block expands to some bytes under a limit if and only if it stands for
  them and they are no more than the limit.
* `Expands.length_lt_of_append`: a block that goes on behind a block stands for more bytes.
* `expands_store`: a block of one literal run stands for its literals.
-/

namespace GatedNetwork.Lz4

/-! ## Lengths -/

/-- Four bits of a token and the bytes `extra` behind them stand for a length. -/
inductive Counts : (nibble : Nat) → (extra : Bytes) → (length : Nat) → Prop
  | short {nibble : Nat} : nibble < 15 → Counts nibble [] nibble
  | long (full : Nat) {last : UInt8} : last ≠ 255 →
      Counts 15 (List.replicate full 255 ++ [last]) (15 + 255 * full + last.toNat)

theorem extend?_eq_some_iff {k n : Nat} {bs rest : Bytes} :
    extend? k bs = some (n, rest) ↔ ∃ full last, last ≠ 255 ∧
      bs = List.replicate full 255 ++ last :: rest ∧ n = k + 255 * full + last.toNat := by
  induction bs generalizing k with
  | nil => simp [extend?]
  | cons b bs ih =>
    by_cases hb : b = 255
    · rw [extend?, if_pos hb, ih, hb]
      constructor
      · rintro ⟨full, last, hlast, rfl, rfl⟩
        exact ⟨full + 1, last, hlast, rfl, by omega⟩
      · rintro ⟨full, last, hlast, heq, rfl⟩
        cases full with
        | zero => exact absurd (List.cons.inj heq).1.symm hlast
        | succ full => exact ⟨full, last, hlast, (List.cons.inj heq).2, by omega⟩
    · rw [extend?, if_neg hb]
      constructor
      · rintro ⟨⟩
        exact ⟨0, b, hb, rfl, by omega⟩
      · rintro ⟨full, last, hlast, heq, rfl⟩
        cases full with
        | zero =>
          obtain ⟨rfl, rfl⟩ := List.cons.inj heq
          rfl
        | succ full => exact absurd (List.cons.inj heq).1 hb

theorem length?_eq_some_iff {nibble n : Nat} {bs rest : Bytes} (hnibble : nibble < 16) :
    length? nibble bs = some (n, rest) ↔ ∃ extra, bs = extra ++ rest ∧ Counts nibble extra n := by
  by_cases h : nibble = 15
  · subst h
    rw [length?, if_pos rfl, extend?_eq_some_iff]
    constructor
    · rintro ⟨full, last, hlast, rfl, rfl⟩
      exact ⟨List.replicate full 255 ++ [last], by simp, .long full hlast⟩
    · rintro ⟨_, rfl, hcounts⟩
      cases hcounts with
      | short hlt => exact absurd hlt (Nat.lt_irrefl 15)
      | long full hlast => exact ⟨full, _, hlast, by simp, rfl⟩
  · rw [length?, if_neg h]
    constructor
    · rintro ⟨⟩
      exact ⟨[], rfl, .short (by omega)⟩
    · rintro ⟨_, rfl, hcounts⟩
      cases hcounts with
      | short => rfl
      | long => exact absurd rfl h

theorem Counts.length?_append {nibble n : Nat} {extra : Bytes} (h : Counts nibble extra n)
    (rest : Bytes) : length? nibble (extra ++ rest) = some (n, rest) := by
  have hlt : nibble < 16 := by
    cases h with
    | short h => omega
    | long => omega
  exact (length?_eq_some_iff hlt).mpr ⟨extra, rfl, h⟩

/-- The bytes behind four bits end by themselves. -/
theorem Counts.unique {nibble n n' : Nat} {extra extra' rest rest' : Bytes}
    (h : Counts nibble extra n) (h' : Counts nibble extra' n')
    (heq : extra ++ rest = extra' ++ rest') : n = n' ∧ rest = rest' := by
  have hread := h.length?_append rest
  rw [heq, h'.length?_append] at hread
  simpa [eq_comm] using hread

/-! ## Copies -/

/-- The bytes `copied` behind `out` are each the one `offset` bytes back. -/
structure Repeats (offset : Nat) (out copied : Bytes) : Prop where
  pos : 0 < offset
  inside : offset ≤ out.length
  same : ∀ i < copied.length, copied[i]? = (out ++ copied)[out.length + i - offset]?

theorem repeats_nil {offset : Nat} {out : Bytes} (hpos : 0 < offset)
    (hinside : offset ≤ out.length) : Repeats offset out [] :=
  ⟨hpos, hinside, nofun⟩

theorem repeats_cons {offset : Nat} {out copied : Bytes} {b : UInt8} (hpos : 0 < offset)
    (hinside : offset ≤ out.length) :
    Repeats offset out (b :: copied) ↔
      out[out.length - offset]? = some b ∧ Repeats offset (out ++ [b]) copied := by
  have hfirst : (out ++ b :: copied)[out.length - offset]? = out[out.length - offset]? :=
    List.getElem?_append_left (by omega)
  have hnext : ∀ i, out.length + (i + 1) - offset = (out ++ [b]).length + i - offset := by
    intro i
    rw [List.length_append, List.length_singleton]
    omega
  constructor
  · intro h
    refine ⟨?_, hpos, ?_, fun i hi => ?_⟩
    · rw [← hfirst]
      exact (h.same 0 (Nat.succ_pos _)).symm
    · rw [List.length_append]
      omega
    · have hsame := h.same (i + 1) (Nat.succ_lt_succ hi)
      rw [hnext] at hsame
      simpa using hsame
  · rintro ⟨hb, h⟩
    refine ⟨hpos, hinside, fun i hi => ?_⟩
    cases i with
    | zero => exact (hfirst.trans hb).symm
    | succ i =>
      have hsame := h.same i (Nat.lt_of_succ_lt_succ hi)
      rw [hnext]
      simpa using hsame

/-- What is repeated decides the copy. -/
theorem Repeats.unique {offset : Nat} {out copied copied' : Bytes} (h : Repeats offset out copied)
    (h' : Repeats offset out copied') (hlength : copied.length = copied'.length) :
    copied = copied' := by
  induction copied generalizing out copied' with
  | nil => exact (List.eq_nil_of_length_eq_zero hlength.symm).symm
  | cons b copied ih =>
    cases copied' with
    | nil => exact absurd hlength (Nat.succ_ne_zero _)
    | cons b' copied' =>
      obtain ⟨hb, hcopied⟩ := (repeats_cons h.pos h.inside).mp h
      obtain ⟨hb', hcopied'⟩ := (repeats_cons h.pos h.inside).mp h'
      obtain rfl : b = b' := Option.some_inj.mp (hb.symm.trans hb')
      rw [ih hcopied hcopied' (Nat.succ_inj.mp hlength)]

/-- Copying back puts out bytes that repeat. -/
theorem exists_repeats {offset : Nat} {out : Array UInt8} (length : Nat) (hpos : 0 < offset)
    (hinside : offset ≤ out.size) :
    ∃ copied, copied.length = length ∧ Repeats offset out.toList copied ∧
      (copyBack out offset length).toList = out.toList ++ copied := by
  induction length generalizing out with
  | zero => exact ⟨[], rfl, repeats_nil hpos hinside, (List.append_nil _).symm⟩
  | succ length ih =>
    have hlt : out.size - offset < out.size := by omega
    have hgetD : out.getD (out.size - offset) 0 = out[out.size - offset] := by
      rw [Array.getD, dif_pos hlt]
      rfl
    have hpushed : offset ≤ (out.push out[out.size - offset]).size := by
      rw [Array.size_push]
      omega
    obtain ⟨copied, rfl, hrepeats, hcopy⟩ := ih hpushed
    rw [Array.toList_push] at hrepeats hcopy
    refine ⟨out[out.size - offset] :: copied, rfl, ?_, ?_⟩
    · refine (repeats_cons hpos hinside).mpr ⟨?_, hrepeats⟩
      rw [Array.length_toList, Array.getElem?_toList, Array.getElem?_eq_getElem hlt]
    · rw [copyBack, hgetD, hcopy, List.append_assoc, List.singleton_append]

theorem toList_copyBack {offset : Nat} {out : Array UInt8} {copied : Bytes}
    (h : Repeats offset out.toList copied) :
    (copyBack out offset copied.length).toList = out.toList ++ copied := by
  obtain ⟨copied', hlength, hrepeats, hcopy⟩ := exists_repeats copied.length h.pos h.inside
  rw [hcopy, hrepeats.unique h hlength]

/-! ## Splitting a block -/

/-- A block is made of sequences. It ends after literals; in its last token the lower four bits mean
nothing. -/
inductive Splits : (block : Bytes) → (sequences : List Sequence) → Prop
  | last {token : UInt8} {extra literals : Bytes} :
      Counts (token.toNat / 16) extra literals.length →
      Splits (token :: (extra ++ literals)) [⟨literals, none⟩]
  | copy {token low high : UInt8} {extra literals extra' rest : Bytes} {n : Nat}
      {sequences : List Sequence} :
      Counts (token.toNat / 16) extra literals.length → Counts (token.toNat % 16) extra' n →
      0 < low.toNat + 256 * high.toNat → Splits rest sequences →
      Splits (token :: (extra ++ (literals ++ low :: high :: (extra' ++ rest))))
        (⟨literals, some ⟨low.toNat + 256 * high.toNat, n + 4⟩⟩ :: sequences)

/-- The first step of a parser, without the facts that its termination rests on. -/
theorem parse?_cons (token : UInt8) (bs : Bytes) :
    parse? (token :: bs) =
      match length? (token.toNat / 16) bs with
      | none => none
      | some (count, bs₁) =>
        match Bytes.splitAt? count bs₁ with
        | none => none
        | some (literals, []) => some [⟨literals, none⟩]
        | some (_, [_]) => none
        | some (literals, low :: high :: bs₂) =>
          let offset := low.toNat + 256 * high.toNat
          if offset = 0 then none
          else
            match length? (token.toNat % 16) bs₂ with
            | none => none
            | some (length, bs₃) =>
              (parse? bs₃).map (⟨literals, some ⟨offset, length + 4⟩⟩ :: ·) := by
  rw [parse?]
  split
  · simp only [*]
  split <;> simp only [*]
  split
  · rfl
  split <;> simp only [*]

theorem splits_of_parse? {block : Bytes} {sequences : List Sequence}
    (h : parse? block = some sequences) : Splits block sequences := by
  induction hsize : block.length using Nat.strongRecOn generalizing block sequences with
  | ind size ih =>
  subst hsize
  cases block with
  | nil => simp [parse?] at h
  | cons token bs =>
    have hdiv : token.toNat / 16 < 16 := Nat.div_lt_of_lt_mul token.toNat_lt
    have hmod : token.toNat % 16 < 16 := Nat.mod_lt _ (by decide)
    rw [parse?_cons] at h
    split at h
    · cases h
    rename_i hcount
    obtain ⟨extra, rfl, hcounts⟩ := (length?_eq_some_iff hdiv).mp hcount
    split at h
    · cases h
    · rename_i literals hsplit
      obtain ⟨rfl, rfl⟩ := Bytes.splitAt?_eq_some hsplit
      obtain rfl := Option.some.inj h
      rw [List.append_nil]
      exact .last hcounts
    · cases h
    · rename_i literals low high bs₂ hsplit
      obtain ⟨rfl, rfl⟩ := Bytes.splitAt?_eq_some hsplit
      dsimp only at h
      split at h
      · cases h
      rename_i hoffset
      split at h
      · cases h
      rename_i n rest hcount'
      obtain ⟨extra', rfl, hcounts'⟩ := (length?_eq_some_iff hmod).mp hcount'
      obtain ⟨tail, htail, rfl⟩ := Option.map_eq_some_iff.mp h
      have hlt : rest.length <
          (token :: (extra ++ (literals ++ low :: high :: (extra' ++ rest)))).length := by
        simp only [List.length_cons, List.length_append]
        omega
      exact .copy hcounts hcounts' (Nat.pos_of_ne_zero hoffset) (ih _ hlt htail rfl)

theorem parse?_eq_some_iff {block : Bytes} {sequences : List Sequence} :
    parse? block = some sequences ↔ Splits block sequences := by
  refine ⟨splits_of_parse?, fun h => ?_⟩
  induction h with
  | @last token extra literals hcounts =>
    have hsplit := Bytes.splitAt?_append literals []
    rw [List.append_nil] at hsplit
    simp only [parse?_cons, hcounts.length?_append, hsplit]
  | copy hcounts hcounts' hoffset _ ih =>
    simp only [parse?_cons, hcounts.length?_append, Bytes.splitAt?_append, hcounts'.length?_append,
      if_neg (Nat.ne_of_gt hoffset), ih, Option.map_some]

/-! ## Carrying out the sequences -/

/-- After the bytes `out` the sequences put out all of `result`. -/
inductive Produces : (out : Bytes) → (sequences : List Sequence) → (result : Bytes) → Prop
  | nil {out : Bytes} : Produces out [] out
  | last {out literals result : Bytes} {sequences : List Sequence} :
      Produces (out ++ literals) sequences result →
      Produces out (⟨literals, none⟩ :: sequences) result
  | copy {out literals copied result : Bytes} {offset n : Nat} {sequences : List Sequence} :
      copied.length = n → Repeats offset (out ++ literals) copied →
      Produces (out ++ literals ++ copied) sequences result →
      Produces out (⟨literals, some ⟨offset, n⟩⟩ :: sequences) result

theorem Produces.length_le {out result : Bytes} {sequences : List Sequence}
    (h : Produces out sequences result) : out.length ≤ result.length := by
  induction h with
  | nil => exact Nat.le_refl _
  | last _ ih =>
    rw [List.length_append] at ih
    omega
  | copy _ _ _ ih =>
    rw [List.length_append, List.length_append] at ih
    omega

theorem expand?_literals {limit : Nat} {literals : Bytes} {out result : Array UInt8} :
    Sequence.expand? limit out ⟨literals, none⟩ = some result ↔
      result.toList = out.toList ++ literals ∧ result.size ≤ limit := by
  have hlist : (out ++ literals).toList = out.toList ++ literals := Array.toList_appendList
  have hsize : (out ++ literals).size = out.size + literals.length := by
    rw [← Array.length_toList, hlist, List.length_append, Array.length_toList]
  rw [Sequence.expand?, Option.ite_none_left_eq_some, Nat.not_lt]
  dsimp only
  rw [← hsize, Option.some_inj, ← Array.toList_appendList, Array.toList_inj]
  constructor
  · rintro ⟨hle, rfl⟩
    exact ⟨rfl, hle⟩
  · rintro ⟨rfl, hle⟩
    exact ⟨hle, rfl⟩

theorem expand?_copy {limit offset n : Nat} {literals : Bytes} {out result : Array UInt8}
    (hoffset : 0 < offset) :
    Sequence.expand? limit out ⟨literals, some ⟨offset, n⟩⟩ = some result ↔
      ∃ copied, copied.length = n ∧ Repeats offset (out.toList ++ literals) copied ∧
        result.toList = out.toList ++ literals ++ copied ∧ result.size ≤ limit := by
  have hlist : (out ++ literals).toList = out.toList ++ literals := Array.toList_appendList
  have hsize : (out ++ literals).size = out.size + literals.length := by
    rw [← Array.length_toList, hlist, List.length_append, Array.length_toList]
  rw [Sequence.expand?, Option.ite_none_left_eq_some, Nat.not_lt, ← hsize, ← hlist]
  generalize out ++ literals = out'
  simp only [Option.ite_none_left_eq_some, Bool.or_eq_true, decide_eq_true_eq, not_or, Nat.not_lt,
    Option.some_inj]
  constructor
  · rintro ⟨-, ⟨hinside, hle⟩, rfl⟩
    obtain ⟨copied, hlength, hrepeats, hcopy⟩ := exists_repeats n hoffset hinside
    refine ⟨copied, hlength, hrepeats, hcopy, ?_⟩
    rw [← Array.length_toList, hcopy, List.length_append, Array.length_toList, hlength]
    exact hle
  · rintro ⟨copied, rfl, hrepeats, hresult, hle⟩
    have hlength : result.size = out'.size + copied.length := by
      rw [← Array.length_toList, hresult, List.length_append, Array.length_toList]
    refine ⟨by omega, ⟨hrepeats.inside, by omega⟩, ?_⟩
    rw [← Array.toList_inj, toList_copyBack hrepeats, hresult]

/-- Sequences that do not copy from where they are put out as `Produces` says, under the limit. -/
theorem foldlM_expand?_eq_some_iff {limit : Nat} {sequences : List Sequence}
    {out result : Array UInt8} (hout : out.size ≤ limit)
    (hoffset : ∀ s ∈ sequences, ∀ c ∈ s.copy, 0 < c.offset) :
    sequences.foldlM (Sequence.expand? limit) out = some result ↔
      Produces out.toList sequences result.toList ∧ result.size ≤ limit := by
  induction sequences generalizing out with
  | nil =>
    constructor
    · rintro ⟨⟩
      exact ⟨.nil, hout⟩
    · rintro ⟨hproduces, -⟩
      generalize hresult : result.toList = bytes at hproduces
      cases hproduces
      exact congrArg some (Array.toList_inj.mp hresult.symm)
  | cons s sequences ih =>
    obtain ⟨hs, hsequences⟩ := List.forall_mem_cons.mp hoffset
    obtain ⟨literals, copy⟩ := s
    rw [List.foldlM_cons]
    -- the bytes only grow, so a result within the limit was within it at every step
    have hgrows {mid : List UInt8} (hproduces : Produces mid sequences result.toList)
        (hle : result.size ≤ limit) : mid.toArray.size ≤ limit := by
      have := hproduces.length_le
      rw [Array.length_toList] at this
      exact Nat.le_trans this hle
    constructor
    · intro hfold
      obtain ⟨mid, hmid, hrest⟩ := Option.bind_eq_some_iff.mp hfold
      cases copy with
      | none =>
        obtain ⟨hmid, hle⟩ := expand?_literals.mp hmid
        obtain ⟨hproduces, hle⟩ := (ih hle hsequences).mp hrest
        exact ⟨.last (hmid ▸ hproduces), hle⟩
      | some c =>
        obtain ⟨copied, hlength, hrepeats, hmid, hle⟩ := (expand?_copy (hs c rfl)).mp hmid
        obtain ⟨hproduces, hle⟩ := (ih hle hsequences).mp hrest
        exact ⟨.copy hlength hrepeats (hmid ▸ hproduces), hle⟩
    · rintro ⟨hproduces, hle⟩
      cases hproduces with
      | last hproduces =>
        have hmid := hgrows hproduces hle
        refine Option.bind_eq_some_iff.mpr ⟨_, expand?_literals.mpr ⟨rfl, hmid⟩, ?_⟩
        exact (ih hmid hsequences).mpr ⟨hproduces, hle⟩
      | copy hlength hrepeats hproduces =>
        have hmid := hgrows hproduces hle
        refine Option.bind_eq_some_iff.mpr
          ⟨_, (expand?_copy hrepeats.pos).mpr ⟨_, hlength, hrepeats, rfl, hmid⟩, ?_⟩
        exact (ih hmid hsequences).mpr ⟨hproduces, hle⟩

/-! ## Blocks -/

/-- The bytes a block stands for. -/
def Expands (block bytes : Bytes) : Prop :=
  ∃ sequences, Splits block sequences ∧ Produces [] sequences bytes

theorem Splits.offset_pos {block : Bytes} {sequences : List Sequence} (h : Splits block sequences) :
    ∀ s ∈ sequences, ∀ c ∈ s.copy, 0 < c.offset := by
  induction h with
  | last => simp
  | copy _ _ hoffset _ ih => simpa [hoffset] using ih

/-- What is relied on in a reader: it takes the blocks that expand within the limit and nothing else, and
its bound on their length is the one that writers keep to. -/
structure Reader.Lawful (reader : Reader) : Prop where
  read?_eq_some_iff : ∀ {limit : Nat} {block bytes : Bytes},
    reader.read? limit block = some bytes ↔ Expands block bytes ∧ bytes.length ≤ limit
  maxBlock_eq : ∀ size, reader.maxBlock size = 20 + size * 110 / 100

/-- **A block expands to the bytes it stands for, if they are within the limit, and anything else
fails.** -/
theorem lawful_standard : Reader.standard.Lawful where
  maxBlock_eq _ := rfl
  read?_eq_some_iff := by
    intro limit block bytes
    have hlist : Reader.standard.read? limit block = some bytes ↔
        (parse? block).bind (expand? limit) = some bytes.toArray := by
      rw [Reader.standard, Option.map_eq_some_iff]
      exact ⟨fun ⟨_, hout, h⟩ => by rw [hout, ← h], fun h => ⟨_, h, rfl⟩⟩
    rw [hlist, Option.bind_eq_some_iff]
    constructor
    · rintro ⟨sequences, hparse, hexpand⟩
      have hsplits := parse?_eq_some_iff.mp hparse
      obtain ⟨hproduces, hle⟩ :=
        (foldlM_expand?_eq_some_iff (Nat.zero_le _) hsplits.offset_pos).mp hexpand
      exact ⟨⟨sequences, hsplits, hproduces⟩, hle⟩
    · rintro ⟨⟨sequences, hsplits, hproduces⟩, hle⟩
      exact ⟨sequences, parse?_eq_some_iff.mpr hsplits,
        (foldlM_expand?_eq_some_iff (Nat.zero_le _) hsplits.offset_pos).mpr ⟨hproduces, hle⟩⟩

theorem Reader.Lawful.decompress_eq_ok_iff {reader : Reader} (h : reader.Lawful) {limit : Nat}
    {block bytes : Bytes} :
    reader.decompress limit block = .ok bytes ↔ Expands block bytes ∧ bytes.length ≤ limit := by
  rw [← h.read?_eq_some_iff, Reader.decompress]
  cases reader.read? limit block with
  | none => simp
  | some bytes' => simp

/-- A block stands for one list of bytes. -/
theorem Expands.unique {block bytes bytes' : Bytes} (h : Expands block bytes)
    (h' : Expands block bytes') : bytes = bytes' := by
  have hread := lawful_standard.read?_eq_some_iff.mpr ⟨h, Nat.le_max_left _ bytes'.length⟩
  rw [lawful_standard.read?_eq_some_iff.mpr ⟨h', Nat.le_max_right bytes.length _⟩] at hread
  exact (Option.some.inj hread).symm

/-- A block whose first literals are known ends behind them, or goes on with a copy. -/
theorem Splits.of_literals {token : UInt8} {extra literals tail : Bytes} {sequences : List Sequence}
    (hcounts : Counts (token.toNat / 16) extra literals.length)
    (h : Splits (token :: (extra ++ (literals ++ tail))) sequences) :
    (tail = [] ∧ sequences = [⟨literals, none⟩]) ∨
      ∃ low high extra' rest n sequences', tail = low :: high :: (extra' ++ rest) ∧
        Counts (token.toNat % 16) extra' n ∧ Splits rest sequences' ∧
        sequences = ⟨literals, some ⟨low.toNat + 256 * high.toNat, n + 4⟩⟩ :: sequences' := by
  generalize hblock : token :: (extra ++ (literals ++ tail)) = block at h
  cases h with
  | @last _ _ literals' hcounts' =>
    obtain ⟨rfl, htail⟩ := List.cons.inj hblock
    obtain ⟨hlength, hliterals⟩ := hcounts.unique hcounts' htail
    obtain ⟨rfl, hnil⟩ := List.append_inj (hliterals.trans (List.append_nil literals').symm) hlength
    exact .inl ⟨hnil, rfl⟩
  | copy hcounts' hcounts'' _ hrest =>
    obtain ⟨rfl, htail⟩ := List.cons.inj hblock
    obtain ⟨hlength, hliterals⟩ := hcounts.unique hcounts' htail
    obtain ⟨rfl, hcopy⟩ := List.append_inj hliterals hlength
    exact .inr ⟨_, _, _, _, _, _, hcopy, hcounts'', hrest, rfl⟩

/-- A block that goes on behind a block stands for more. -/
theorem Expands.length_lt_of_append {block more bytes bytes' : Bytes} (hmore : more ≠ [])
    (h : Expands block bytes) (h' : Expands (block ++ more) bytes') :
    bytes.length < bytes'.length := by
  obtain ⟨sequences, hsplits, hproduces⟩ := h
  obtain ⟨sequences', hsplits', hproduces'⟩ := h'
  generalize ([] : Bytes) = out at hproduces hproduces'
  -- the blocks split alike up to the last token of the shorter one, which begins a copy in the other
  induction hsplits generalizing out sequences' with
  | last hcounts =>
    rw [List.cons_append, List.append_assoc] at hsplits'
    obtain ⟨hnil, -⟩ | ⟨_, _, _, _, _, _, -, -, -, rfl⟩ := hsplits'.of_literals hcounts
    · exact absurd hnil hmore
    · cases hproduces with
      | last hproduces =>
        cases hproduces
        cases hproduces' with
        | copy hcopied _ hproduces' =>
          have hle := hproduces'.length_le
          rw [List.length_append, hcopied] at hle
          omega
  | copy hcounts hcounts₂ _ _ ih =>
    simp only [List.cons_append, List.append_assoc] at hsplits'
    obtain ⟨hnil, -⟩ | ⟨_, _, _, _, _, _, htail, hcounts₂', hsplits', rfl⟩ :=
      hsplits'.of_literals hcounts
    · cases hnil
    · obtain ⟨rfl, hhigh⟩ := List.cons.inj htail
      obtain ⟨rfl, hrest⟩ := List.cons.inj hhigh
      obtain ⟨rfl, rfl⟩ := hcounts₂.unique hcounts₂' hrest
      cases hproduces with
      | copy hcopied hrepeats hproduces =>
        cases hproduces' with
        | copy hcopied' hrepeats' hproduces' =>
          obtain rfl := hrepeats.unique hrepeats' (hcopied.trans hcopied'.symm)
          exact ih _ hsplits' _ hproduces hproduces'

/-! ## Storing -/

theorem extend?_lengthBytes (k n : Nat) (rest : Bytes) :
    extend? k (lengthBytes n ++ rest) = some (k + n, rest) := by
  induction n using lengthBytes.induct generalizing k with
  | case1 n hlt =>
    have htoNat : (UInt8.ofNat n).toNat = n := by
      rw [UInt8.toNat_ofNat']
      exact Nat.mod_eq_of_lt (by omega)
    have hne : UInt8.ofNat n ≠ 255 := by
      intro heq
      rw [heq] at htoNat
      exact absurd htoNat (Nat.ne_of_gt hlt)
    rw [lengthBytes, if_pos hlt, List.singleton_append, extend?, if_neg hne, htoNat]
  | case2 n hge ih =>
    have hadd : k + 255 + (n - 255) = k + n := by omega
    rw [lengthBytes, if_neg hge, List.cons_append, extend?, if_pos rfl, ih, hadd]

/-- A block of one literal run stands for its literals. -/
theorem expands_store (payload : Bytes) : Expands (store payload) payload := by
  refine ⟨[⟨payload, none⟩], parse?_eq_some_iff.mp ?_, .last .nil⟩
  have hsplit := Bytes.splitAt?_append payload []
  rw [List.append_nil] at hsplit
  unfold store
  by_cases hlt : payload.length < 15
  · have htoken : (UInt8.ofNat (16 * payload.length)).toNat / 16 = payload.length := by
      rw [UInt8.toNat_ofNat']
      omega
    simp only [if_pos hlt, parse?_cons, htoken, length?, if_neg (Nat.ne_of_lt hlt), hsplit]
  · have hadd : 15 + (payload.length - 15) = payload.length := by omega
    have htoken : (240 : UInt8).toNat / 16 = 15 := rfl
    simp only [if_neg hlt, parse?_cons, htoken, length?, if_pos, extend?_lengthBytes, hadd, hsplit]

theorem length_lengthBytes (n : Nat) : (lengthBytes n).length = n / 255 + 1 := by
  induction n using lengthBytes.induct with
  | case1 n hlt =>
    rw [lengthBytes, if_pos hlt, Nat.div_eq_of_lt hlt]
    rfl
  | case2 n hge ih =>
    rw [lengthBytes, if_neg hge, List.length_cons, ih]
    omega

end GatedNetwork.Lz4
