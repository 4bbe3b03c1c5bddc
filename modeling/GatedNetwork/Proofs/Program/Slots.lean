import GatedNetwork.Program.Basic
import GatedNetwork.Proofs.Op
import GatedNetwork.Proofs.Program.Environment

/-!
# Code over slots

A memory with a slot for each symbol of a list stands for an environment, `Memory.view`: the numbers
in the slots, and those of a given environment for all other symbols. Code whose symbols all have
slots runs on the memory without failing, and does to the view what `Environment.run` does.
-/

namespace GatedNetwork

variable {α : Type}

namespace Memory

/-- The environment a memory stands for: the numbers in the slots of `symbols`, and those of `base`
elsewhere. -/
def view (symbols : List Symbol) (base : Environment α) (m : Memory α) : Environment α :=
  fun s => m[symbols.idxOf s]?.getD (base s)

variable {symbols : List Symbol} {base : Environment α} {m : Memory α} {s : Symbol} {x : α}

theorem view_of_not_mem (hsize : m.size = symbols.length) (hs : s ∉ symbols) :
    m.view symbols base s = base s := by
  have hlen : m.size ≤ symbols.idxOf s :=
    Nat.le_of_eq (hsize.trans (List.idxOf_eq_length hs).symm)
  rw [view, Array.getElem?_eq_none hlen, Option.getD_none]

/-! ## Single slots -/

/-- What a memory shows does not change what shows beside it. -/
theorem view_view (m : Memory α) (symbols : List Symbol) (base : Environment α) :
    m.view symbols (m.view symbols base) = m.view symbols base := by
  funext s
  unfold view
  cases m[symbols.idxOf s]? <;> rfl

/-- A memory that was laid out from an environment shows it. -/
theorem view_map (symbols : List Symbol) (σ : Environment α) :
    Memory.view symbols σ (symbols.map σ).toArray = σ := by
  funext s
  unfold view
  rw [List.getElem?_toArray, List.getElem?_map]
  cases hs : symbols[symbols.idxOf s]? with
  | none => rfl
  | some t =>
    obtain ⟨hlt, hget⟩ := List.getElem?_eq_some_iff.mp hs
    rw [List.getElem_idxOf hlt] at hget
    rw [hget]
    rfl

theorem get_slot (base : Environment α) (hsize : m.size = symbols.length) (hs : s ∈ symbols) :
    m.get (symbols.idxOf s) = .ok (m.view symbols base s) := by
  have hlt : symbols.idxOf s < m.size := by
    rw [hsize]
    exact List.idxOf_lt_length_of_mem hs
  rw [get, dif_pos hlt, view, Array.getElem?_eq_getElem hlt, Option.getD_some]

/-- A symbol with a slot shows the number in it, whatever environment is beside the memory. -/
theorem view_of_mem (base base' : Environment α) (hsize : m.size = symbols.length)
    (hs : s ∈ symbols) : m.view symbols base s = m.view symbols base' s :=
  Except.ok.inj ((get_slot base hsize hs).symm.trans (get_slot base' hsize hs))

/-- Memories that show the same are the same. -/
theorem eq_of_view {base base' : Environment α} {m' : Memory α} (hnodup : symbols.Nodup)
    (hm : m.size = symbols.length) (hm' : m'.size = symbols.length)
    (h : ∀ s ∈ symbols, m.view symbols base s = m'.view symbols base' s) : m = m' := by
  refine Array.ext (hm.trans hm'.symm) fun i hi hi' => ?_
  have hlt : i < symbols.length := hm ▸ hi
  have hshown := h symbols[i] (List.getElem_mem hlt)
  rwa [view, view, hnodup.idxOf_getElem i hlt, Array.getElem?_eq_getElem hi,
    Array.getElem?_eq_getElem hi'] at hshown

/-- Different symbols have different slots, if the first has one at all. -/
theorem idxOf_ne {t : Symbol} (hs : s ∈ symbols) (hne : t ≠ s) :
    symbols.idxOf t ≠ symbols.idxOf s := by
  intro he
  -- equal positions are below the length, where both symbols can be read off the list
  have hlt := List.idxOf_lt_length_of_mem hs
  have hget := List.getElem_idxOf hlt
  have hlt' : symbols.idxOf t < symbols.length := he ▸ hlt
  have hget' := List.getElem_idxOf hlt'
  simp only [he] at hget'
  exact hne (hget'.symm.trans hget)

/-- Putting a number into the slot of a symbol changes the view at that symbol. -/
theorem put_slot (base : Environment α) (hsize : m.size = symbols.length) (hs : s ∈ symbols)
    (x : α) :
    ∃ m', m.put (symbols.idxOf s) x = .ok m' ∧ m'.size = symbols.length ∧
      m'.view symbols base = Function.update (m.view symbols base) s x := by
  have hlt : symbols.idxOf s < m.size := by
    rw [hsize]
    exact List.idxOf_lt_length_of_mem hs
  refine ⟨m.set (symbols.idxOf s) x, dif_pos hlt, by rw [Array.size_set, hsize], ?_⟩
  funext t
  by_cases ht : t = s
  · subst ht
    rw [Function.update_self, view, Array.getElem?_set_self hlt, Option.getD_some]
  · rw [Function.update_of_ne ht, view, view, Array.getElem?_set_ne hlt (idxOf_ne hs ht).symm]

/-! ## Several slots -/

theorem getAll_slots (base : Environment α) {ss : List Symbol} (hsize : m.size = symbols.length)
    (hss : ∀ s ∈ ss, s ∈ symbols) :
    (ss.map symbols.idxOf).mapM m.get = .ok (ss.map (m.view symbols base)) := by
  induction ss with
  | nil => rfl
  | cons s ss ih =>
    obtain ⟨hs, hss⟩ := List.forall_mem_cons.mp hss
    rw [List.map_cons, List.mapM_cons, get_slot base hsize hs, ih hss]
    rfl

/-- Numbers put under several symbols in turn. -/
def putEach (σ : Environment α) (values : List (Symbol × α)) : Environment α :=
  values.foldl (fun σ v => Function.update σ v.1 v.2) σ

theorem putEach_cons (σ : Environment α) (v : Symbol × α) (values : List (Symbol × α)) :
    putEach σ (v :: values) = putEach (Function.update σ v.1 v.2) values := rfl

/-- A symbol that nothing is put under keeps its number. -/
theorem putEach_of_not_mem (σ : Environment α) {ss : List Symbol} (hs : s ∉ ss) (xs : List α) :
    putEach σ (ss.zip xs) s = σ s := by
  induction ss generalizing σ xs with
  | nil => rfl
  | cons t ss ih =>
    obtain ⟨ht, hss⟩ := not_or.mp (List.mem_cons.not.mp hs)
    cases xs with
    | nil => rfl
    | cons x xs =>
      rw [List.zip_cons_cons, putEach_cons, ih _ hss, Function.update_of_ne ht]

theorem putAll_slots (base : Environment α) {ss : List Symbol} (hsize : m.size = symbols.length)
    (hss : ∀ s ∈ ss, s ∈ symbols) (xs : List α) :
    ∃ m', m.putAll (ss.map symbols.idxOf) xs = .ok m' ∧ m'.size = symbols.length ∧
      m'.view symbols base = putEach (m.view symbols base) (ss.zip xs) := by
  induction ss generalizing m xs with
  | nil => exact ⟨m, by simp [putAll], hsize, rfl⟩
  | cons s ss ih =>
    obtain ⟨hs, hss⟩ := List.forall_mem_cons.mp hss
    cases xs with
    | nil => exact ⟨m, by simp [putAll], hsize, rfl⟩
    | cons x xs =>
      obtain ⟨m', hput, hsize', hview⟩ := put_slot base hsize hs x
      obtain ⟨m'', hputs, hsize'', hviews⟩ := ih hsize' hss xs
      refine ⟨m'', ?_, hsize'', ?_⟩
      · rw [List.map_cons, putAll, hput]
        exact hputs
      · rw [hviews, hview]
        rfl

variable [Arithmetic α]

theorem product_slots (base : Environment α) {fs : List Symbol} (hsize : m.size = symbols.length)
    (hfs : ∀ s ∈ fs, s ∈ symbols) :
    m.product (fs.map symbols.idxOf) =
      .ok (Environment.product (fs.map (m.view symbols base))) := by
  have hfold : ∀ (fs : List Symbol) (acc : α), (∀ s ∈ fs, s ∈ symbols) →
      (fs.map symbols.idxOf).foldlM (fun acc s => return acc * (← m.get s)) acc =
        .ok ((fs.map (m.view symbols base)).foldl (· * ·) acc) := by
    intro fs
    induction fs with
    | nil => exact fun acc _ => rfl
    | cons f fs ih =>
      intro acc hfs
      obtain ⟨hf, hfs⟩ := List.forall_mem_cons.mp hfs
      rw [List.map_cons, List.foldlM_cons, get_slot base hsize hf]
      exact ih _ hfs
  cases fs with
  | nil => rfl
  | cons f fs =>
    obtain ⟨hf, hfs⟩ := List.forall_mem_cons.mp hfs
    rw [List.map_cons, product, get_slot base hsize hf]
    exact hfold fs _ hfs

/-! ## Code -/

/-- An instruction over slots does to the view what it does over symbols. -/
theorem exec_slots (base : Environment α) {i : Instr Symbol α} (hsize : m.size = symbols.length)
    (hi : ∀ s ∈ i.places, s ∈ symbols) :
    ∃ m', m.exec (i.map symbols.idxOf) = .ok m' ∧ m'.size = symbols.length ∧
      m'.view symbols base = Environment.exec (m.view symbols base) i := by
  cases i <;> simp only [Instr.places, List.forall_mem_cons] at hi <;>
    simp only [Instr.map, exec, Environment.exec]
  case const t v => exact put_slot base hsize hi.1 v
  case copy t s =>
    rw [get_slot base hsize hi.2.1]
    exact put_slot base hsize hi.1 _
  case product t fs =>
    rw [product_slots base hsize hi.2]
    exact put_slot base hsize hi.1 _
  case accumulate t fs =>
    rw [product_slots base hsize hi.2, get_slot base hsize hi.1]
    exact put_slot base hsize hi.1 _
  case sum t l r =>
    rw [get_slot base hsize hi.2.1, get_slot base hsize hi.2.2.1]
    exact put_slot base hsize hi.1 _
  case difference t l r =>
    rw [get_slot base hsize hi.2.1, get_slot base hsize hi.2.2.1]
    exact put_slot base hsize hi.1 _
  case transfer k s a d =>
    rw [get_slot base hsize hi.1]
    obtain ⟨m', hput, hsize', hview⟩ :=
      put_slot base hsize hi.2.1 (Arithmetic.squash k (m.view symbols base s)).1
    obtain ⟨m'', hput', hsize'', hview'⟩ :=
      put_slot base hsize' hi.2.2.1 (Arithmetic.squash k (m.view symbols base s)).2
    refine ⟨m'', ?_, hsize'', by rw [hview', hview]⟩
    -- activation and derivative go to two slots, one after the other
    show (m.put (symbols.idxOf a) _ >>= fun m => m.put (symbols.idxOf d) _) = _
    rw [hput]
    exact hput'

/-- Code over slots does to the view what it does over symbols. -/
theorem run_slots (base : Environment α) (code : List (Instr Symbol α))
    (hsize : m.size = symbols.length) (hcode : ∀ s ∈ Circuit.mentions code, s ∈ symbols) :
    ∃ m', m.run (code.map (·.map symbols.idxOf)) = .ok m' ∧ m'.size = symbols.length ∧
      m'.view symbols base = Environment.run (m.view symbols base) code := by
  induction code generalizing m with
  | nil => exact ⟨m, rfl, hsize, rfl⟩
  | cons i code ih =>
    simp only [Circuit.mentions, List.flatMap_cons, List.mem_append] at hcode
    obtain ⟨m', hexec, hsize', hview⟩ := exec_slots base hsize fun s hs => hcode s (.inl hs)
    obtain ⟨m'', hrun, hsize'', hviews⟩ := ih hsize' fun s hs => hcode s (.inr hs)
    refine ⟨m'', ?_, hsize'', by rw [hviews, hview, Environment.run_cons]⟩
    rw [List.map_cons, run, hexec]
    exact hrun

end Memory

end GatedNetwork
