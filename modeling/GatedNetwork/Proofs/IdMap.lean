import GatedNetwork.IdMap

/-!
# More on sets and maps of ids

How the keys of a map move under each operation, and maps rebuilt value by value.
-/

namespace GatedNetwork

namespace IdSet

@[simp] theorem not_mem_empty (k : Nat) : k ∉ (∅ : IdSet) := List.not_mem_nil

theorem isEmpty_iff {s : IdSet} : s.isEmpty = true ↔ ∀ k, k ∉ s := by
  rw [isEmpty, List.isEmpty_iff, List.eq_nil_iff_forall_not_mem]
  rfl

theorem nodup (s : IdSet) : s.toList.Nodup :=
  s.ascending.imp fun h => Nat.ne_of_lt h

/-- An id above all members comes last. -/
theorem toList_insert {s : IdSet} {k : Nat} (h : ∀ i ∈ s, i < k) :
    (s.insert k).toList = s.toList ++ [k] := by
  refine eq_of_mem_iff (s.insert k).ascending ?_ fun i => ?_
  · rw [List.pairwise_append]
    refine ⟨s.ascending, List.pairwise_singleton _ _, fun i hi j hj => ?_⟩
    rw [List.mem_singleton.mp hj]
    exact h i hi
  · rw [mem_toList, mem_insert, List.mem_append, List.mem_singleton, or_comm, mem_toList]

end IdSet

namespace IdMap

variable {β γ δ : Type}

@[simp] theorem keys_empty : (∅ : IdMap β).keys = ∅ := rfl

@[simp] theorem keys_insert (m : IdMap β) (k : Nat) (v : β) :
    (m.insert k v).keys = m.keys.insert k := by
  ext i
  simp

@[simp] theorem keys_erase (m : IdMap β) (k : Nat) : (m.erase k).keys = m.keys.erase k := by
  ext i
  simp

theorem mem_keys_iff {m : IdMap β} {k : Nat} : k ∈ m.keys ↔ ∃ v, m.find? k = some v := by
  rw [mem_keys, contains, Option.isSome_iff_exists]

/-- An entry is found under its key. -/
theorem find?_of_mem_entries {m : IdMap β} {k : Nat} {v : β} (h : (k, v) ∈ m.entries) :
    m.find? k = some v := by
  obtain ⟨es, hes⟩ := m
  simp only [find?] at h ⊢
  induction es with
  | nil => exact absurd h List.not_mem_nil
  | cons e es ih =>
    obtain ⟨hlt, hes⟩ := List.pairwise_cons.mp hes
    rcases List.mem_cons.mp h with rfl | h
    · simp [lookup]
    · rw [lookup, if_neg (Nat.ne_of_lt (hlt _ h)), ih hes h]

theorem toList_keys (m : IdMap β) : m.keys.toList = m.entries.map (·.1) := rfl

theorem foldl_entries_mapWithKey {ε : Type} (m : IdMap β) (f : Nat → β → γ)
    (step : ε → Nat × γ → ε) (init : ε) :
    (m.mapWithKey f).entries.foldl step init =
      m.entries.foldl (fun acc e => step acc (e.1, f e.1 e.2)) init :=
  List.foldl_map

/-- Maps rebuilt from equal values at their keys are equal. -/
theorem mapWithKey_congr {m : IdMap β} {f g : Nat → β → γ}
    (h : ∀ k v, m.find? k = some v → f k v = g k v) : m.mapWithKey f = m.mapWithKey g := by
  ext k
  simp only [find?_mapWithKey]
  cases hk : m.find? k with
  | none => rfl
  | some v => simp [h k v hk]

theorem mapWithKey_eq_self {m : IdMap β} {f : Nat → β → β}
    (h : ∀ k v, m.find? k = some v → f k v = v) : m.mapWithKey f = m := by
  ext k
  rw [find?_mapWithKey]
  cases hk : m.find? k with
  | none => rfl
  | some v => rw [Option.map_some, h k v hk]

/-- A value that is changed in a rebuilt map can be changed while the map is rebuilt. -/
theorem modify_mapWithKey (m : IdMap β) (f : Nat → β → γ) (k : Nat) (g : γ → γ) :
    (m.mapWithKey f).modify k g = m.mapWithKey fun i v => if i = k then g (f i v) else f i v := by
  ext i
  simp only [find?_modify, find?_mapWithKey]
  by_cases hi : i = k
  · simp only [if_pos hi, Option.map_map, Function.comp_def]
  · simp only [if_neg hi]

/-- A map with all values replaced by one value depends on the keys only. -/
theorem map_const_mapWithKey (m : IdMap β) (f : Nat → β → γ) (d : δ) :
    (m.mapWithKey f).map (fun _ => d) = m.map fun _ => d := by
  ext i
  simp only [find?_map, find?_mapWithKey]
  cases m.find? i <;> rfl

theorem map_mapWithKey_of_eq (m : IdMap β) (f : Nat → β → γ) (g : γ → δ) (h : β → δ)
    (hfg : ∀ k v, g (f k v) = h v) : (m.mapWithKey f).map g = m.map h := by
  ext i
  simp only [find?_map, find?_mapWithKey]
  cases m.find? i with
  | none => rfl
  | some v => simp [hfg]

end IdMap

end GatedNetwork
