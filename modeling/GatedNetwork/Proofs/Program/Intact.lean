import Mathlib.Data.List.GetD
import GatedNetwork.Proofs.Program.Tasks
import GatedNetwork.Storage.Image

/-!
# Programs that stay inside their memory

A program is intact if its symbols are listed once each, its memory has one slot for each of them, and
all slots it names are slots of the memory. Then its code never reads or writes outside, so running it
can only be refused for the number of values given, and nothing that may be asked of it makes it other
than intact.

* `Circuit.intact_lower` — compiling makes intact programs
* `Intact.activate_ok`, `Intact.propagate_ok` — an intact program runs
* `Intact.sameCode_performAll`, `Intact.performAll` — it stays intact under all requests
* `Intact.anchored_perform` — none of them meets a slot that is not there
-/

namespace GatedNetwork

variable {α : Type}

namespace Instr

variable {σ τ υ : Type}

theorem map_map (f : σ → τ) (g : τ → υ) (i : Instr σ α) : (i.map f).map g = i.map (g ∘ f) := by
  cases i <;> simp [Instr.map]

/-- Renaming the places of an instruction to themselves changes nothing. -/
theorem map_eq_self {f : σ → σ} {i : Instr σ α} (h : ∀ s ∈ i.places, f s = s) : i.map f = i := by
  have hfactors : ∀ fs : List σ, (∀ s ∈ fs, f s = s) → fs.map f = fs :=
    fun fs hfs => (List.map_congr_left hfs).trans (List.map_id fs)
  cases i <;> simp only [places, List.forall_mem_cons] at h <;> simp only [Instr.map]
  case const t v => rw [h.1]
  case copy t s => rw [h.1, h.2.1]
  case product t fs => rw [h.1, hfactors fs h.2]
  case accumulate t fs => rw [h.1, hfactors fs h.2]
  case sum t l r => rw [h.1, h.2.1, h.2.2.1]
  case difference t l r => rw [h.1, h.2.1, h.2.2.1]
  case transfer k s a d => rw [h.1, h.2.1, h.2.2.1]

end Instr

namespace NeuronCode

variable {σ τ : Type}

/-- The places that the code of a neuron names. -/
def places (b : NeuronCode σ α) : List σ :=
  b.activation.flatMap (·.places) ++ b.trace.flatMap (·.places) ++
    b.propagation.flatMap (·.places)

theorem places_map (f : σ → τ) (b : NeuronCode σ α) : (b.map f).places = b.places.map f := by
  simp [places, NeuronCode.map, List.flatMap_map, List.map_flatMap, Instr.places_map]

end NeuronCode

namespace Program

/-- Every slot a program names: that of the rate, those of inputs, outputs and targets, and those in
its code. -/
def slots (p : Program α) : List Slot :=
  p.rate :: (p.inputs ++ p.outputs ++ p.targets ++ p.code.flatMap fun b => b.2.places)

/-- A program with a slot for every symbol, that names no other slots. -/
structure Intact (p : Program α) : Prop where
  nodup : p.symbols.Nodup
  size : p.memory.size = p.symbols.length
  slots_lt : ∀ s ∈ p.slots, s < p.memory.size

namespace Intact

variable {p : Program α} {m : Memory α}

/-- A program stays intact with another memory of the same size. -/
theorem withMemory (h : p.Intact) (hm : m.size = p.memory.size) :
    Intact { p with memory := m } where
  nodup := h.nodup
  size := hm.trans h.size
  slots_lt := fun s hs => hm.symm ▸ h.slots_lt s hs

theorem rate_lt (h : p.Intact) : p.rate < p.memory.size := h.slots_lt _ List.mem_cons_self

theorem inputs_lt (h : p.Intact) : ∀ s ∈ p.inputs, s < p.memory.size := by
  intro s hs
  refine h.slots_lt s (List.mem_cons_of_mem _ ?_)
  simp [hs]

theorem outputs_lt (h : p.Intact) : ∀ s ∈ p.outputs, s < p.memory.size := by
  intro s hs
  refine h.slots_lt s (List.mem_cons_of_mem _ ?_)
  simp [hs]

theorem targets_lt (h : p.Intact) : ∀ s ∈ p.targets, s < p.memory.size := by
  intro s hs
  refine h.slots_lt s (List.mem_cons_of_mem _ ?_)
  simp [hs]

/-- Every block of code works on slots of the memory. -/
theorem code_lt (h : p.Intact) {b : Layer × NeuronCode Slot α} (hb : b ∈ p.code) :
    ∀ s ∈ b.2.places, s < p.memory.size := by
  intro s hs
  refine h.slots_lt s (List.mem_cons_of_mem _ ?_)
  exact List.mem_append_right _ (List.mem_flatMap.mpr ⟨b, hb, hs⟩)

/-- A forward pass works on slots of the memory. -/
theorem forward_lt (h : p.Intact) : ∀ i ∈ p.forward, ∀ s ∈ i.places, s < p.memory.size := by
  intro i hi s hs
  obtain ⟨b, hb, hi⟩ := List.mem_flatMap.mp hi
  refine h.code_lt hb s (List.mem_append_left _ (List.mem_append.mpr ?_))
  rcases List.mem_append.mp hi with hi | hi
  · exact .inl (List.mem_flatMap.mpr ⟨i, hi, hs⟩)
  · exact .inr (List.mem_flatMap.mpr ⟨i, hi, hs⟩)

/-- A backward pass works on slots of the memory. -/
theorem backward_lt (h : p.Intact) : ∀ i ∈ p.backward, ∀ s ∈ i.places, s < p.memory.size := by
  intro i hi s hs
  obtain ⟨b, hb, hi⟩ := List.mem_flatMap.mp hi
  refine h.code_lt (List.mem_reverse.mp hb) s (List.mem_append_right _ ?_)
  exact List.mem_flatMap.mpr ⟨i, hi, hs⟩

end Intact

/-! ## Memories with a slot for everything named -/

section Memory

variable {symbols : List Symbol} {m : Memory α}

/-- The symbol of a slot. -/
def nameOf (symbols : List Symbol) (s : Slot) : Symbol := symbols.getD s .rate

theorem nameOf_mem {s : Slot} (hs : s < symbols.length) : nameOf symbols s ∈ symbols := by
  rw [nameOf, List.getD_eq_getElem _ _ hs]
  exact List.getElem_mem hs

/-- If no symbol is listed twice, a slot is that of its symbol. -/
theorem idxOf_nameOf (hnodup : symbols.Nodup) {s : Slot} (hs : s < symbols.length) :
    symbols.idxOf (nameOf symbols s) = s := by
  rw [nameOf, List.getD_eq_getElem _ _ hs]
  exact hnodup.idxOf_getElem s hs

theorem mem_of_mem_map_nameOf {ss : List Slot} (hss : ∀ s ∈ ss, s < symbols.length) :
    ∀ t ∈ ss.map (nameOf symbols), t ∈ symbols := by
  intro t ht
  obtain ⟨s, hs, rfl⟩ := List.mem_map.mp ht
  exact nameOf_mem (hss s hs)

theorem map_idxOf_nameOf (hnodup : symbols.Nodup) {ss : List Slot}
    (hss : ∀ s ∈ ss, s < symbols.length) :
    (ss.map (nameOf symbols)).map symbols.idxOf = ss := by
  rw [List.map_map]
  exact (List.map_congr_left fun s hs => idxOf_nameOf hnodup (hss s hs)).trans (List.map_id ss)

variable [Arithmetic α]

/-- Values can be put into slots that exist. -/
theorem putAll_ok (hnodup : symbols.Nodup) (hsize : m.size = symbols.length) {ss : List Slot}
    (hss : ∀ s ∈ ss, s < symbols.length) (xs : List α) :
    ∃ m', m.putAll ss xs = .ok m' ∧ m'.size = symbols.length := by
  obtain ⟨m', hput, hsize', -⟩ :=
    Memory.putAll_slots (fun _ => 0) hsize (mem_of_mem_map_nameOf hss) xs
  rw [map_idxOf_nameOf hnodup hss] at hput
  exact ⟨m', hput, hsize'⟩

/-- Slots that exist can be read. -/
theorem getAll_ok (hnodup : symbols.Nodup) (hsize : m.size = symbols.length) {ss : List Slot}
    (hss : ∀ s ∈ ss, s < symbols.length) :
    ∃ xs, ss.mapM m.get = .ok xs ∧ xs.length = ss.length := by
  have hget := Memory.getAll_slots (fun _ => 0) hsize (mem_of_mem_map_nameOf hss)
  rw [map_idxOf_nameOf hnodup hss] at hget
  exact ⟨_, hget, by rw [List.length_map, List.length_map]⟩

/-- Code whose slots all lie in the memory is code over symbols, and runs. -/
theorem run_ok (hnodup : symbols.Nodup) (hsize : m.size = symbols.length)
    {code : List (Instr Slot α)} (hcode : ∀ i ∈ code, ∀ s ∈ i.places, s < symbols.length) :
    ∃ m', m.run code = .ok m' ∧ m'.size = symbols.length := by
  have hnames : ∀ s ∈ Circuit.mentions (code.map (·.map (nameOf symbols))), s ∈ symbols := by
    intro t ht
    rw [Circuit.mentions, List.flatMap_map] at ht
    obtain ⟨i, hi, ht⟩ := List.mem_flatMap.mp ht
    rw [Instr.places_map] at ht
    exact mem_of_mem_map_nameOf (hcode i hi) t ht
  have hback : (code.map (·.map (nameOf symbols))).map (·.map symbols.idxOf) = code := by
    rw [List.map_map]
    refine (List.map_congr_left fun i hi => ?_).trans (List.map_id code)
    refine (Instr.map_map _ _ i).trans (Instr.map_eq_self fun s hs => ?_)
    exact idxOf_nameOf hnodup (hcode i hi s hs)
  obtain ⟨m', hrun, hsize', -⟩ := Memory.run_slots (fun _ => 0) _ hsize hnames
  rw [hback] at hrun
  exact ⟨m', hrun, hsize'⟩

end Memory

/-! ## Running an intact program -/

variable [Arithmetic α] {p : Program α}

/-- The wrong number of values is refused at once. -/
theorem activate_error {input : List α} (hlen : input.length ≠ p.inputs.length) :
    Program.activate input p = .error (.sizeMismatch .input p.inputs.length input.length) p := by
  refine Op.checked_error ?_
  exact checkLength_bind_error hlen.symm _

/-- Targets of the wrong length are refused, and nothing is changed. -/
theorem propagate_error (rate : α) {target : List α} (hlen : target.length ≠ p.targets.length) :
    Program.propagate rate target p =
      .error (.sizeMismatch .target p.targets.length target.length) p := by
  refine Op.checked_error ?_
  exact checkLength_bind_error hlen.symm _

namespace Intact

/-- A forward run gives out as many numbers as there are outputs and keeps the size of the memory. -/
theorem activate_ok (h : p.Intact) {input : List α} (hlen : input.length = p.inputs.length) :
    ∃ outputs m, Program.activate input p = .ok outputs { p with memory := m } ∧
      m.size = p.memory.size ∧ outputs.length = p.outputs.length := by
  have hlt : ∀ s, s < p.memory.size → s < p.symbols.length := fun s hs => h.size ▸ hs
  obtain ⟨m₁, hput, hsize₁⟩ := putAll_ok h.nodup h.size (fun s hs => hlt s (h.inputs_lt s hs)) input
  obtain ⟨m₂, hrun, hsize₂⟩ := run_ok h.nodup hsize₁ fun i hi s hs => hlt s (h.forward_lt i hi s hs)
  obtain ⟨outputs, hget, hcount⟩ := getAll_ok h.nodup hsize₂ fun s hs => hlt s (h.outputs_lt s hs)
  refine ⟨outputs, m₂, Op.checked_of_ok (outputs, m₂) ?_, hsize₂.trans h.size.symm, hcount⟩
  refine bind_eq_ok_iff.mpr ⟨(), checkLength_eq_ok_iff.mpr hlen.symm, ?_⟩
  refine bind_eq_ok_iff.mpr ⟨m₁, hput, bind_eq_ok_iff.mpr ⟨m₂, hrun, ?_⟩⟩
  exact bind_eq_ok_iff.mpr ⟨outputs, hget, rfl⟩

/-- An intact program takes targets of the right length, and changes nothing but its memory. -/
theorem propagate_ok (h : p.Intact) (rate : α) {target : List α}
    (hlen : target.length = p.targets.length) :
    ∃ m, Program.propagate rate target p = .ok () { p with memory := m } ∧
      m.size = p.memory.size := by
  have hlt : ∀ s, s < p.memory.size → s < p.symbols.length := fun s hs => h.size ▸ hs
  have hsingle : ∀ s ∈ [p.rate], s < p.symbols.length :=
    fun s hs => List.mem_singleton.mp hs ▸ hlt _ h.rate_lt
  obtain ⟨m₁, hput₁, hsize₁⟩ := putAll_ok h.nodup h.size hsingle [rate]
  obtain ⟨m₂, hput₂, hsize₂⟩ :=
    putAll_ok h.nodup hsize₁ (fun s hs => hlt s (h.targets_lt s hs)) target
  obtain ⟨m₃, hrun, hsize₃⟩ := run_ok h.nodup hsize₂ fun i hi s hs => hlt s (h.backward_lt i hi s hs)
  have hrate : p.memory.put p.rate rate = .ok m₁ := by
    obtain ⟨m, hput, hrest⟩ := bind_eq_ok_iff.mp hput₁
    rw [Memory.putAll] at hrest
    · cases hrest
      exact hput
    · simp
  refine ⟨m₃, Op.checked_of_ok m₃ ?_, hsize₃.trans h.size.symm⟩
  refine bind_eq_ok_iff.mpr ⟨(), checkLength_eq_ok_iff.mpr hlen.symm, ?_⟩
  refine bind_eq_ok_iff.mpr ⟨m₁, hrate, bind_eq_ok_iff.mpr ⟨m₂, hput₂, hrun⟩⟩

end Intact

end Program

/-! ## Compiling makes intact programs -/

namespace Circuit

variable [Arithmetic α]

/-- Every slot of a lowered program is that of one of its symbols. -/
theorem exists_of_mem_slots {c : Circuit α} {ps : List Placement} {s : Slot}
    (hs : s ∈ (c.lower ps).slots) :
    ∃ t ∈ (c.lower ps).symbols, (c.lower ps).symbols.idxOf t = s := by
  -- what a task brings along is among the symbols
  have hmem : ∀ d ∈ Placement.duties 0 ps, ∀ t ∈ c.neuronSymbols d.1.neuron d.2,
      t ∈ (c.lower ps).symbols := fun d hd t ht => mem_symbolsOf.mpr (.inr ⟨d, hd, ht⟩)
  have hactivation : ∀ d ∈ Placement.duties 0 ps,
      .neuron d.1.neuron .activation ∈ (c.lower ps).symbols :=
    fun d hd => hmem d hd _ (activation_mem_neuronSymbols c _ _)
  simp only [Program.slots, List.mem_cons, List.mem_append] at hs
  rcases hs with rfl | ((hs | hs) | hs) | hs
  · exact ⟨.rate, mem_symbolsOf.mpr (.inl rfl), rfl⟩
  · obtain ⟨d, hd, rfl⟩ := List.mem_map.mp hs
    exact ⟨_, hactivation d (List.mem_filter.mp hd).1, rfl⟩
  · obtain ⟨d, hd, rfl⟩ := List.mem_map.mp hs
    exact ⟨_, hactivation d (List.mem_filter.mp hd).1, rfl⟩
  · obtain ⟨⟨q, duty⟩, hd, hs⟩ := List.mem_filterMap.mp hs
    cases duty with
    | output t =>
      cases hs
      exact ⟨.target t, hmem _ hd _ (target_mem_neuronSymbols c _ t), rfl⟩
    | input => cases hs
    | inner => cases hs
  · obtain ⟨b, hb, hs⟩ := List.mem_flatMap.mp hs
    obtain ⟨d, hd, rfl⟩ := List.mem_map.mp hb
    rw [NeuronCode.places_map] at hs
    obtain ⟨t, ht, rfl⟩ := List.mem_map.mp hs
    refine ⟨t, hmem d hd t (mem_neuronSymbols_of_mem_mentions ?_), rfl⟩
    simpa only [NeuronCode.places, mentions, List.mem_append, or_assoc] using ht

/-- A lowered program is intact, whatever it is lowered from. -/
theorem intact_lower (c : Circuit α) (ps : List Placement) : (c.lower ps).Intact := by
  have hsize : (c.lower ps).memory.size = (c.lower ps).symbols.length := by simp [lower]
  refine ⟨nodup_symbolsOf c _, hsize, fun s hs => ?_⟩
  obtain ⟨t, ht, rfl⟩ := exists_of_mem_slots hs
  rw [hsize]
  exact List.idxOf_lt_length_of_mem ht

end Circuit

/-! ## Memories from images -/

namespace Image

theorem length_of_takeDoubles {count : Nat} {bs : Bytes} {xs : List Double}
    (h : takeDoubles count bs = .ok xs) : xs.length = count := by
  induction count generalizing bs xs with
  | zero =>
    cases h
    rfl
  | succ count ih =>
    obtain ⟨_, -, h⟩ := bind_eq_ok_iff.mp h
    obtain ⟨ys, hys, h⟩ := bind_eq_ok_iff.mp h
    cases h
    rw [List.length_cons, ih hys]

theorem size_of_takeMemoryBy {reader : Lz4.Reader} {slots : Nat} {bs rest : Bytes} {m : Memory Double}
    (h : takeMemoryBy reader slots bs = .ok (m, rest)) : m.size = slots := by
  simp only [takeMemoryBy, bind_eq_ok_iff, Prod.exists, throw_bind_eq_ok_iff] at h
  obtain ⟨-, _, _, -, -, xs, hxs, h⟩ := h
  cases h
  rw [List.size_toArray, length_of_takeDoubles hxs]

/-- An image is taken only as a memory of the size asked for. -/
theorem size_of_takeBy {reader : Lz4.Reader} {slots : Nat} {bs rest : Bytes} {m : Memory Double}
    (h : takeBy reader slots bs = .ok (m, rest)) : m.size = slots := by
  obtain ⟨⟨count, bs'⟩, -, h⟩ := bind_eq_ok_iff.mp h
  obtain ⟨_, hcount, h⟩ := bind_eq_ok_iff.mp h
  rw [checkLength_eq_ok_iff.mp hcount]
  exact size_of_takeMemoryBy (mapError_eq_ok_iff.mp h)

/-- Images are refused for what they hold, never for a slot. -/
theorem resolved_takeBy (reader : Lz4.Reader) (slots : Nat) (bs : Bytes) :
    Resolved (takeBy reader slots bs) := by
  rintro e he r rfl
  revert he
  unfold takeBy
  cases takeHeader bs with
  | error e => simp [bind, Except.bind, mapError_error]
  | ok header =>
    by_cases hsize : slots = header.1
    · cases hmemory : takeMemoryBy reader header.1 header.2 <;>
        simp [bind, Except.bind, mapError_ok, mapError_error, checkLength, require, hsize, hmemory]
    · simp [bind, Except.bind, mapError_ok, checkLength, require, hsize]

end Image

namespace Program

/-! ## Requests to a program -/

/-- Something to ask of a program. -/
inductive Request where
  | activate (input : List Double)
  | propagate (rate : Double) (target : List Double)
  | replaceMemory (memory : Memory Double)
  | loadImage (reader : Lz4.Reader) (bytes : Bytes)
  | poke (s : Symbol) (x : Double)

/-- Performs a request; what it answers does not matter here. -/
def Request.perform : Request → Op (Program Double) Unit
  | activate input => (fun _ => ()) <$> Program.activate input
  | propagate rate target => Program.propagate rate target
  | replaceMemory memory => (fun _ => ()) <$> Program.replaceMemory memory
  | loadImage reader bytes => (fun _ => ()) <$> Program.loadImageBy reader bytes
  | poke s x => (fun _ => ()) <$> Program.poke s x

/-- The program after several requests, whether they succeed or fail. -/
def performAll (p : Program Double) (rs : List Request) : Program Double :=
  rs.foldl (fun p r => r.perform.final p) p

/-- The same program, with any numbers in its memory. -/
def SameCode (p q : Program Double) : Prop :=
  ∃ m, q = { p with memory := m } ∧ m.size = p.memory.size

namespace SameCode

variable {p q r : Program Double}

theorem refl (p : Program Double) : SameCode p p := ⟨p.memory, rfl, rfl⟩

theorem symm (h : SameCode p q) : SameCode q p := by
  obtain ⟨m, rfl, hm⟩ := h
  exact ⟨p.memory, rfl, hm.symm⟩

theorem trans (h : SameCode p q) (h' : SameCode q r) : SameCode p r := by
  obtain ⟨m, rfl, hm⟩ := h
  obtain ⟨m', rfl, hm'⟩ := h'
  exact ⟨m', rfl, hm'.trans hm⟩

theorem intact (h : SameCode p q) (hp : p.Intact) : q.Intact := by
  obtain ⟨m, rfl, hm⟩ := h
  exact hp.withMemory hm

end SameCode

namespace Intact

variable {p : Program Double}

/-- A request changes numbers only. -/
theorem sameCode_perform (h : p.Intact) (r : Request) : SameCode p (r.perform.final p) := by
  cases r with
  | activate input =>
    by_cases hlen : input.length = p.inputs.length
    · obtain ⟨outputs, m, hrun, hm, -⟩ := h.activate_ok hlen
      exact ⟨m, Op.final_of_ok (Op.map_of_ok hrun), hm⟩
    · have hrefused : (Request.activate input).perform.final p = p :=
        Op.final_of_error (Op.map_of_error (activate_error hlen))
      rw [hrefused]
      exact .refl p
  | propagate rate target =>
    by_cases hlen : target.length = p.targets.length
    · obtain ⟨m, hrun, hm⟩ := h.propagate_ok rate hlen
      exact ⟨m, Op.final_of_ok hrun, hm⟩
    · have hrefused : (Request.propagate rate target).perform.final p = p :=
        Op.final_of_error (propagate_error rate hlen)
      rw [hrefused]
      exact .refl p
  | replaceMemory memory =>
    simp only [Request.perform, Op.final_map]
    refine Op.checked_final (.refl p) fun _ hsize => ?_
    exact ⟨memory, rfl, (checkLength_eq_ok_iff.mp hsize).symm⟩
  | loadImage reader bytes =>
    simp only [Request.perform, Op.final_map]
    refine Op.checked_final (.refl p) fun plan hplan => ?_
    exact ⟨plan.1, rfl, Image.size_of_takeBy hplan⟩
  | poke s x =>
    simp only [Request.perform, Op.final_map]
    cases hslot : p.slot? s with
    | none =>
      have hmissed : Program.poke s x p = .ok false p := by
        rw [Program.poke, Op.modifyGet_apply, hslot]
      rw [Op.final_of_ok hmissed]
      exact .refl p
    | some i =>
      have hpoked : Program.poke s x p =
          .ok true { p with memory := p.memory.setIfInBounds i x } := by
        rw [Program.poke, Op.modifyGet_apply, hslot]
      exact ⟨_, Op.final_of_ok hpoked, Array.size_setIfInBounds⟩

/-- A request can be refused for how many values it gives or for what is wrong with an image, but it
never meets a slot that is not there. -/
theorem anchored_perform (h : p.Intact) (r : Request) : r.perform.Anchored p := by
  cases r with
  | activate input =>
    refine Op.Anchored.map ?_ _
    by_cases hlen : input.length = p.inputs.length
    · obtain ⟨outputs, m, hrun, -, -⟩ := h.activate_ok hlen
      exact .of_ok hrun
    · exact .of_error (activate_error hlen) (by simp)
  | propagate rate target =>
    by_cases hlen : target.length = p.targets.length
    · obtain ⟨m, hrun, -⟩ := h.propagate_ok rate hlen
      exact .of_ok hrun
    · exact .of_error (propagate_error rate hlen) (by simp)
  | replaceMemory memory =>
    refine Op.Anchored.map (.checked ?_) _
    exact .require fun _ => by simp
  | loadImage reader bytes =>
    refine Op.Anchored.map (.checked ?_) _
    exact Image.resolved_takeBy _ _ _
  | poke s x =>
    refine Op.Anchored.map ?_ _
    unfold Program.poke
    exact fun _ => nofun

/-- Whatever is asked of it, only its numbers change. -/
theorem sameCode_performAll (h : p.Intact) (rs : List Request) : SameCode p (p.performAll rs) := by
  induction rs generalizing p with
  | nil => exact .refl p
  | cons r rs ih =>
    have hstep := h.sameCode_perform r
    exact hstep.trans (ih (hstep.intact h))

/-- So an intact program stays intact. -/
theorem performAll (h : p.Intact) (rs : List Request) : (p.performAll rs).Intact :=
  (h.sameCode_performAll rs).intact h

end Intact

end Program

end GatedNetwork
