import GatedNetwork.IdSet

/-!
# Maps from ids

A finite map whose keys are ids, kept as the list of its entries with ascending keys. `find?` is the
view: the lemmas say what each operation does to it, and maps with the same `find?` are equal.
-/

namespace GatedNetwork

/-- A finite map from ids. -/
structure IdMap (β : Type) where
  entries : List (Nat × β)
  ascending : entries.Pairwise fun a b => a.1 < b.1
deriving DecidableEq

namespace IdMap

variable {β γ : Type}

/-- The map without entries. -/
def empty : IdMap β := ⟨[], .nil⟩

instance : EmptyCollection (IdMap β) := ⟨empty⟩

instance : Inhabited (IdMap β) := ⟨empty⟩

/-- The keys, as a set. -/
def keys (m : IdMap β) : IdSet := ⟨m.entries.map (·.1), List.pairwise_map.2 m.ascending⟩

/-- The value of the first entry with this key. -/
def lookup (k : Nat) : List (Nat × β) → Option β
  | [] => none
  | (j, v) :: rest => if j = k then some v else lookup k rest

/-- The value at `k`, if there is one. -/
def find? (m : IdMap β) (k : Nat) : Option β := lookup k m.entries

def contains (m : IdMap β) (k : Nat) : Bool := (m.find? k).isSome

theorem lookup_isSome {k : Nat} {es : List (Nat × β)} :
    (lookup k es).isSome = true ↔ k ∈ es.map (·.1) := by
  induction es with
  | nil => simp [lookup]
  | cons e es ih =>
    obtain ⟨j, v⟩ := e
    unfold lookup
    split
    · next h => simp [h]
    · next h => simp only [List.map_cons, List.mem_cons, ih, Ne.symm h, false_or]

theorem mem_keys {m : IdMap β} {k : Nat} : k ∈ m.keys ↔ m.contains k = true :=
  lookup_isSome.symm

@[simp] theorem find?_empty (k : Nat) : (∅ : IdMap β).find? k = none := rfl

/-- Puts an entry at its place among entries with ascending keys, instead of one with the same
key. -/
def place (k : Nat) (v : β) : List (Nat × β) → List (Nat × β)
  | [] => [(k, v)]
  | (j, w) :: rest =>
    if k < j then (k, v) :: (j, w) :: rest
    else if k = j then (k, v) :: rest
    else (j, w) :: place k v rest

theorem mem_keys_place {k i : Nat} {v : β} {es : List (Nat × β)} :
    i ∈ (place k v es).map (·.1) ↔ i = k ∨ i ∈ es.map (·.1) := by
  induction es with
  | nil => simp [place]
  | cons e es ih =>
    obtain ⟨j, w⟩ := e
    unfold place
    split
    · simp
    · split
      · next h => simp [h]
      · simp only [List.map_cons, List.mem_cons, ih]
        exact or_left_comm

theorem place_ascending {k : Nat} {v : β} {es : List (Nat × β)}
    (h : es.Pairwise fun a b => a.1 < b.1) : (place k v es).Pairwise fun a b => a.1 < b.1 := by
  induction es with
  | nil => simp [place]
  | cons e es ih =>
    obtain ⟨j, w⟩ := e
    obtain ⟨hj, hes⟩ := List.pairwise_cons.1 h
    unfold place
    split
    · next hlt =>
      refine List.pairwise_cons.2 ⟨fun i hi => ?_, h⟩
      rcases List.mem_cons.1 hi with rfl | hi
      · exact hlt
      · exact Nat.lt_trans hlt (hj i hi)
    · split
      · next heq => exact List.pairwise_cons.2 ⟨fun i hi => heq ▸ hj i hi, hes⟩
      · next hlt hne =>
        refine List.pairwise_cons.2 ⟨fun i hi => ?_, ih hes⟩
        rcases mem_keys_place.1 (List.mem_map_of_mem hi) with e | m
        · have e : i.1 = k := e
          show j < i.1
          omega
        · obtain ⟨p, hp, hpe⟩ := List.mem_map.1 m
          exact hpe ▸ hj p hp

theorem lookup_place {k i : Nat} {v : β} {es : List (Nat × β)}
    (h : es.Pairwise fun a b => a.1 < b.1) :
    lookup i (place k v es) = if i = k then some v else lookup i es := by
  induction es with
  | nil => simp [place, lookup, eq_comm]
  | cons e es ih =>
    obtain ⟨j, w⟩ := e
    obtain ⟨hj, hes⟩ := List.pairwise_cons.1 h
    unfold place
    split
    · simp only [lookup, eq_comm]
    · split
      · next heq =>
        subst heq
        simp only [lookup]
        by_cases hi : i = k
        · simp [hi]
        · simp [hi, Ne.symm hi]
      · next hlt hne =>
        simp only [lookup, ih hes]
        by_cases hi : j = i
        · subst hi; simp [Ne.symm hne]
        · simp [hi]

/-- The map with `v` at `k`. -/
def insert (m : IdMap β) (k : Nat) (v : β) : IdMap β :=
  ⟨place k v m.entries, place_ascending m.ascending⟩

@[simp] theorem find?_insert {m : IdMap β} {k i : Nat} {v : β} :
    (m.insert k v).find? i = if i = k then some v else m.find? i := lookup_place m.ascending

@[simp] theorem mem_keys_insert {m : IdMap β} {k i : Nat} {v : β} :
    i ∈ (m.insert k v).keys ↔ i = k ∨ i ∈ m.keys := mem_keys_place

/-- The map without an entry at `k`. -/
def erase (m : IdMap β) (k : Nat) : IdMap β :=
  ⟨m.entries.filter (·.1 != k), m.ascending.filter _⟩

theorem lookup_filter_ne {k i : Nat} {es : List (Nat × β)} :
    lookup i (es.filter (·.1 != k)) = if i = k then none else lookup i es := by
  induction es with
  | nil => simp [lookup]
  | cons e es ih =>
    obtain ⟨j, w⟩ := e
    by_cases hj : j = k
    · subst hj
      simp only [List.filter_cons, bne_self_eq_false, Bool.false_eq_true, if_false, ih, lookup]
      by_cases hi : i = j
      · simp [hi]
      · simp [hi, Ne.symm hi]
    · simp only [List.filter_cons, bne_iff_ne, ne_eq, hj, not_false_eq_true, if_true, lookup, ih]
      by_cases hi : j = i
      · subst hi; simp [hj]
      · simp [hi]

@[simp] theorem find?_erase {m : IdMap β} {k i : Nat} :
    (m.erase k).find? i = if i = k then none else m.find? i := lookup_filter_ne

@[simp] theorem mem_keys_erase {m : IdMap β} {k i : Nat} :
    i ∈ (m.erase k).keys ↔ i ∈ m.keys ∧ i ≠ k := by
  rw [mem_keys, mem_keys, contains, contains, find?_erase]
  split
  · next h => simp [h]
  · next h => simp [h]

/-- The map with every value replaced by a function of its key and itself. -/
def mapWithKey (f : Nat → β → γ) (m : IdMap β) : IdMap γ :=
  ⟨m.entries.map fun e => (e.1, f e.1 e.2), List.pairwise_map.2 m.ascending⟩

@[simp] theorem find?_mapWithKey {f : Nat → β → γ} {m : IdMap β} {i : Nat} :
    (m.mapWithKey f).find? i = (m.find? i).map (f i) := by
  show lookup i (m.entries.map _) = (lookup i m.entries).map _
  generalize m.entries = es
  induction es with
  | nil => rfl
  | cons e es ih =>
    obtain ⟨j, w⟩ := e
    by_cases hj : j = i
    · subst hj; simp [lookup]
    · simp [lookup, hj, ih]

@[simp] theorem keys_mapWithKey {f : Nat → β → γ} {m : IdMap β} :
    (m.mapWithKey f).keys = m.keys := by
  simp [keys, mapWithKey, Function.comp_def]

/-- The map with every value replaced by a function of itself. -/
def map (f : β → γ) (m : IdMap β) : IdMap γ := m.mapWithKey fun _ => f

@[simp] theorem find?_map {f : β → γ} {m : IdMap β} {i : Nat} :
    (m.map f).find? i = (m.find? i).map f := find?_mapWithKey

@[simp] theorem keys_map {f : β → γ} {m : IdMap β} : (m.map f).keys = m.keys := keys_mapWithKey

/-- The map with the value at `k` changed, if there is one. -/
def modify (m : IdMap β) (k : Nat) (f : β → β) : IdMap β :=
  m.mapWithKey fun j v => if j = k then f v else v

@[simp] theorem find?_modify {m : IdMap β} {k i : Nat} {f : β → β} :
    (m.modify k f).find? i = if i = k then (m.find? i).map f else m.find? i := by
  unfold modify
  rw [find?_mapWithKey]
  split
  · rfl
  · cases m.find? i <;> rfl

@[simp] theorem keys_modify {m : IdMap β} {k : Nat} {f : β → β} : (m.modify k f).keys = m.keys :=
  keys_mapWithKey

/-- The map with these keys and one value at all of them. -/
def ofKeys (s : IdSet) (v : β) : IdMap β :=
  ⟨s.toList.map (·, v), List.pairwise_map.2 s.ascending⟩

@[simp] theorem keys_ofKeys {s : IdSet} {v : β} : (ofKeys s v).keys = s := by
  simp [keys, ofKeys, Function.comp_def]

theorem lookup_map_const {ks : List Nat} {v : β} {i : Nat} :
    lookup i (ks.map (·, v)) = if i ∈ ks then some v else none := by
  induction ks with
  | nil => rfl
  | cons k ks ih =>
    by_cases h : k = i
    · simp [lookup, h]
    · simp [lookup, h, Ne.symm h, ih]

@[simp] theorem find?_ofKeys {s : IdSet} {v : β} {i : Nat} :
    (ofKeys s v).find? i = if i ∈ s then some v else none := lookup_map_const

/-- Entries with ascending keys are determined by what `lookup` finds. -/
theorem entries_eq_of_lookup {es fs : List (Nat × β)}
    (he : es.Pairwise fun a b => a.1 < b.1) (hf : fs.Pairwise fun a b => a.1 < b.1)
    (h : ∀ i, lookup i es = lookup i fs) : es = fs := by
  have hkeys : es.map (·.1) = fs.map (·.1) :=
    IdSet.eq_of_mem_iff (List.pairwise_map.2 he) (List.pairwise_map.2 hf) fun i => by
      rw [← lookup_isSome, ← lookup_isSome, h i]
  induction es generalizing fs with
  | nil => exact (List.map_eq_nil_iff.1 hkeys.symm).symm
  | cons e es ih =>
    cases fs with
    | nil => simp at hkeys
    | cons f fs =>
      obtain ⟨j, v⟩ := e
      obtain ⟨j', w⟩ := f
      simp only [List.map_cons, List.cons.injEq] at hkeys
      obtain ⟨rfl, hrest⟩ := hkeys
      have hv : v = w := by simpa [lookup] using h j
      subst hv
      obtain ⟨he0, he1⟩ := List.pairwise_cons.1 he
      obtain ⟨hf0, hf1⟩ := List.pairwise_cons.1 hf
      have hnone : ∀ gs : List (Nat × β), (∀ a ∈ gs, j < a.1) → lookup j gs = none := by
        intro gs hgs
        rw [← Option.not_isSome_iff_eq_none, lookup_isSome]
        intro hmem
        obtain ⟨p, hp, hpe⟩ := List.mem_map.1 hmem
        exact absurd (hgs p hp) (by omega)
      congr 1
      refine ih he1 hf1 (fun i => ?_) hrest
      by_cases hi : j = i
      · subst hi; rw [hnone es he0, hnone fs hf0]
      · have := h i
        simpa [lookup, hi] using this

/-- Maps with the same view are equal. -/
@[ext] theorem ext {m n : IdMap β} (h : ∀ i, m.find? i = n.find? i) : m = n := by
  obtain ⟨es, he⟩ := m
  obtain ⟨fs, hf⟩ := n
  obtain rfl : es = fs := entries_eq_of_lookup he hf h
  rfl

end IdMap

end GatedNetwork
