import GatedNetwork.Proofs.Network.Valid
import GatedNetwork.Proofs.Program.Layout
import GatedNetwork.Proofs.Storage.Image

/-!
# Handing over memory

Networks whose circuits have one outline, and whose layers list the same neurons, compile to programs
that differ in memory only. So the memory of one of them can be given to the other, directly or as an
image, and makes it the same program: from then on both networks have the same answers.

* `replaceMemory_ok`, `eq_of_loadImageBy`: a program that takes another's memory is that program.
* `Twins.passAnswers_eq`: networks that run one program answer alike.
* `recompile_program`: after passes, a program that is written back is compiled again as it was.
* `handover`: all of this for networks within reach.
-/

namespace GatedNetwork

variable {α : Type} [Arithmetic α]

/-! ## Passes as requests -/

namespace Pass

/-- Takes a pass with a network. -/
def request : Pass α → Network.Request α
  | forward input => .activate input
  | backward rate target => .propagate rate target

/-- Takes a pass with a program. -/
def programRequest : Pass Double → Program.Request
  | forward input => .activate input
  | backward rate target => .propagate rate target

end Pass

/-! ## Programs that differ in memory -/

namespace Program.SameCode

variable {p q r : Program Double}

theorem replaceMemory_ok (h : SameCode p q) :
    Program.replaceMemory q.memory p = .ok p.memory q := by
  obtain ⟨m, rfl, hm⟩ := h
  exact Op.checked_of_ok () (checkLength_eq_ok_iff.mpr hm.symm)

/-- What is loaded from an image of a memory is that memory, however the image was compressed. -/
theorem eq_of_loadImageBy (h : SameCode p q) {reader : Lz4.Reader} (hreader : reader.Lawful)
    {compress : Bytes → Bytes} (hexpands : ∀ bytes, Lz4.Expands (compress bytes) bytes)
    {image rest : Bytes} (hsave : q.imageBy compress = .ok image)
    (hload : Program.loadImageBy reader image p = .ok rest r) : r = q := by
  obtain ⟨m, rfl, hm⟩ := h
  obtain ⟨held, memory, himage, hsize, hheld, rfl⟩ := (loadImageBy_ok_iff hreader).mp hload
  have htake : Image.takeBy reader m.size image = .ok (memory, rest) :=
    (Image.takeBy_eq_ok_iff hreader).mpr ⟨hsize.trans hm.symm, held, himage, hheld⟩
  obtain ⟨rfl, -⟩ := Image.takeBy_frame hreader (hexpands _) hsave htake
  rfl

end Program.SameCode

namespace Circuit

open Program

variable {c d : Circuit Double} {layers : Layers} {m : Memory Double} {σ : Environment Double}

/-- Circuits with one outline compile to programs with the same code. -/
theorem SameLayout.sameCode (h : SameLayout c d) (ps : List Placement) :
    SameCode (c.lower ps) (d.lower ps) := by
  have hlower := h.lower ps
  refine ⟨_, hlower, ?_⟩
  rw [(intact_lower d ps).size, (intact_lower c ps).size, hlower]

/-- A pass keeps the gains that nobody drives, whether it succeeds or fails. -/
theorem steady_pass (h : c.Runs layers) (hsize : m.size = (c.program layers).symbols.length)
    (hm : c.Steady (m.view (c.program layers).symbols σ)) (q : Pass Double) :
    ∃ m' : Memory Double, m'.size = (c.program layers).symbols.length ∧
      q.programRequest.perform.final { c.program layers with memory := m } =
        { c.program layers with memory := m' } ∧
      c.Steady (m'.view (c.program layers).symbols σ) := by
  cases q with
  | forward input =>
    by_cases hlen : input.length = (c.members layers.input).length
    · obtain ⟨outputs, m', hsize', hrun, hm'⟩ :=
        steady_activate h.sound h.inhabits hsize hm hlen
      exact ⟨m', hsize', Op.final_of_ok (Op.map_of_ok hrun), hm'⟩
    · have hne : input.length ≠ (c.program layers).inputs.length := by
        rwa [inputs_program, List.length_map, List.length_map]
      exact ⟨m, hsize, Op.final_of_error (Op.map_of_error (Program.activate_error hne)), hm⟩
  | backward rate target =>
    by_cases hlen : target.length = (c.members layers.output).length
    · obtain ⟨m', hsize', hrun, hm'⟩ := steady_propagate hsize hm rate hlen
      exact ⟨m', hsize', Op.final_of_ok hrun, hm'⟩
    · have hne : target.length ≠ (c.program layers).targets.length := by
        rwa [targets_program, List.length_map, List.length_map, List.length_range]
      exact ⟨m, hsize, Op.final_of_error (Program.propagate_error rate hne), hm⟩

theorem steady_passes (h : c.Runs layers) (hsize : m.size = (c.program layers).symbols.length)
    (hm : c.Steady (m.view (c.program layers).symbols σ)) (qs : List (Pass Double)) :
    ∃ m' : Memory Double, m'.size = (c.program layers).symbols.length ∧
      Program.performAll { c.program layers with memory := m } (qs.map (·.programRequest)) =
        { c.program layers with memory := m' } ∧
      c.Steady (m'.view (c.program layers).symbols σ) := by
  induction qs generalizing m with
  | nil => exact ⟨m, hsize, rfl, hm⟩
  | cons q qs ih =>
    obtain ⟨m₁, hsize₁, hfinal, hm₁⟩ := steady_pass h hsize hm q
    obtain ⟨m₂, hsize₂, hall, hm₂⟩ := ih hsize₁ hm₁
    refine ⟨m₂, hsize₂, ?_, hm₂⟩
    rw [List.map_cons, Program.performAll, List.foldl_cons, hfinal]
    exact hall

/-- After any passes, a program can be written back to every circuit with the outline of its own, and
is compiled there again as it was. -/
theorem recompile_program (h : c.Runs layers) (hd : SameLayout c d) (qs : List (Pass Double)) :
    ∃ d' p, ((c.program layers).performAll (qs.map (·.programRequest))).restoreInto d = .ok () d' ∧
      d'.compile (c.placements layers) = .ok p ∧ SameCode (c.program layers) p := by
  have hsize : (c.program layers).memory.size = (c.program layers).symbols.length :=
    (intact_lower c _).size
  have hload : c.Steady d.load := (steady_load d).of_sameLayout hd.symm
  obtain ⟨m, hsize', hall, hm⟩ := steady_passes h hsize (steady_lower hload _) qs
  have hsame : SameLayout c (d.fill (m.view (c.program layers).symbols d.load)) :=
    hd.trans (hm.of_sameLayout hd).sameLayout_fill
  have hrestore := hd.restoreInto h.sound h.inhabits hsize'
  rw [← hall] at hrestore
  refine ⟨_, _, hrestore, ?_, hsame.sameCode (c.placements layers)⟩
  rw [hsame.compile, h.sound.compile h.inhabits]
  exact congrArg Except.ok (hsame.lower _).symm

end Circuit

namespace Network

open Circuit

variable {n n' : Network α} {p : Program α}

/-! ## Networks that run one program -/

/-- The answers of a network to passes in turn. -/
def passAnswers (n : Network α) (qs : List (Pass α)) :
    Except Error (List (Except Error (Answer α))) :=
  (run (qs.map fun q => .request q.request)).answer n

/-- Two networks that take as many inputs and targets and run one program. -/
structure Twins (n n' : Network α) : Prop where
  live : ∃ p, n.mode = .compiled p ∧ n'.mode = .compiled p
  inputSize : n.inputSize = n'.inputSize
  outputSize : n.outputSize = n'.outputSize

namespace Twins

omit [Arithmetic α] in
/-- What a request does to the live program, it does to that of a twin. -/
theorem alike_onProgram (h : Twins n n') {β : Type} (op : Op (Program α) β) :
    Op.Alike Twins (onProgram op n) (onProgram op n') := by
  obtain ⟨p, hn, hn'⟩ := h.live
  simp only [onProgram, hn, hn']
  cases op p with
  | ok b q => exact .ok _ ⟨⟨q, rfl, rfl⟩, h.inputSize, h.outputSize⟩
  | error e q => exact .error e ⟨⟨q, rfl, rfl⟩, h.inputSize, h.outputSize⟩

omit [Arithmetic α] in
theorem onProgram_ne_none (h : Twins n n') {β : Type} (op : Op (Program α) β) (s : Network α) :
    onProgram op n ≠ .ok none s := by
  obtain ⟨p, hn, -⟩ := h.live
  simp only [onProgram, hn]
  cases op p <;> simp

theorem alike_prepare (h : Twins n n') : Op.Alike Twins (prepare n) (prepare n') := by
  have hidle : ∀ {n : Network α} {p}, n.mode = .compiled p → prepare n = .ok () n := by
    rintro ⟨c, layers, mode⟩ p rfl
    rfl
  obtain ⟨p, hn, hn'⟩ := h.live
  rw [hidle hn, hidle hn']
  exact .ok () h

theorem alike_pass (h : Twins n n') (q : Pass α) :
    Op.Alike Twins (q.request.perform n) (q.request.perform n') := by
  cases q with
  | forward input =>
    refine Op.Alike.map ((Op.Alike.read h ?_).bind fun _ s t _ _ h => ?_) _
    · rw [h.inputSize]
    · refine h.alike_prepare.bind fun _ s t _ _ h => (h.alike_onProgram _).bind ?_
      rintro (_ | outputs) s' t' hs - h'
      · exact absurd hs (h.onProgram_ne_none _ _)
      · exact .ok outputs h'
  | backward rate target =>
    refine Op.Alike.map ((Op.Alike.read h ?_).bind fun _ s t _ _ h => ?_) _
    · rw [h.outputSize]
    · refine h.alike_prepare.bind fun _ s t _ _ h => (h.alike_onProgram _).bind ?_
      rintro (_ | ⟨⟩) s' t' hs - h'
      · exact absurd hs (h.onProgram_ne_none _ _)
      · exact .ok () h'

theorem alike_passes (h : Twins n n') (qs : List (Pass α)) :
    Op.Alike Twins (run (qs.map fun q => .request q.request) n)
      (run (qs.map fun q => .request q.request) n') := by
  induction qs generalizing n n' with
  | nil => exact .ok [] h
  | cons q qs ih =>
    refine (h.alike_pass q).observe.bind fun a s t _ _ h => ?_
    exact (ih h).bind fun as s t _ _ h => .ok (a :: as) h

/-- They have the same answers. -/
theorem passAnswers_eq (h : Twins n n') (qs : List (Pass α)) :
    n.passAnswers qs = n'.passAnswers qs :=
  (h.alike_passes qs).answer_eq

end Twins

/-! ## Networks with one outline -/

/-- The restored network, running a program. -/
def running (n : Network α) (p : Program α) : Network α := ⟨n.restored, n.layers, .compiled p⟩

omit [Arithmetic α] in
/-- What succeeds on the live program has a new one run. -/
theorem onProgram_running_eq_ok {β : Type} {op : Op (Program α) β} {x : Option β}
    (h : onProgram op (n.running p) = .ok x n') :
    ∃ b q, op p = .ok b q ∧ n' = n.running q := by
  simp only [onProgram, running] at h
  cases hop : op p with
  | ok b q =>
    rw [hop] at h
    cases h
    exact ⟨b, q, rfl, rfl⟩
  | error e q =>
    rw [hop] at h
    cases h

theorem Valid.placements_restored (h : n.Valid) :
    n.restored.placements n.layers = n.placements :=
  h.sameWiring_restored.placements n.layers

variable {a b : Network Double}

section Outline

variable (ha : a.Valid) (hb : b.Valid) (hplacements : b.placements = a.placements)
  (hlayout : a.restored.SameLayout b.restored)

include ha hb hplacements hlayout

/-- They are compiled to programs that differ in memory only. -/
theorem sameCode_programs :
    Program.SameCode (a.restored.program a.layers) (b.restored.program b.layers) := by
  rw [Circuit.program, Circuit.program, ha.placements_restored, hb.placements_restored, hplacements]
  exact hlayout.sameCode a.placements

/-- If they run the same program, they are twins. -/
theorem twins_running (p : Program Double) : Twins (b.running p) (a.running p) := by
  obtain ⟨m, hprogram, -⟩ := sameCode_programs ha hb hplacements hlayout
  have hserves := serves_program ha.hosts_restored.runs
  have hserves' := serves_program hb.hosts_restored.runs
  rw [hprogram] at hserves'
  exact ⟨⟨p, rfl, rfl⟩, hserves'.inputs.symm.trans hserves.inputs,
    hserves'.targets.symm.trans hserves.targets⟩

end Outline

/-- **Networks whose circuits have one outline, and whose layers list the same neurons, compile to the
same symbols, code and slots. Whatever was asked of the program of one, giving its memory to the program
of the other makes them one program, and both networks answer all passes alike from then on. After
passes, a program that is written back, to either circuit, is compiled again as it was.** -/
theorem handover (ha : a.Reachable) (hb : b.Reachable) (hplacements : b.placements = a.placements)
    (hlayout : a.restored.SameLayout b.restored) :
    ∃ p q, compile a = .ok () (a.running p) ∧ compile b = .ok () (b.running q) ∧
      Program.SameCode p q ∧
      (∀ rs rs' : List Program.Request,
        onProgram (Program.replaceMemory (p.performAll rs).memory) (b.running (q.performAll rs')) =
          .ok (some (q.performAll rs').memory) (b.running (p.performAll rs)) ∧
        (∀ (reader : Lz4.Reader) (compress : Bytes → Bytes) image rest b', reader.Lawful →
          (∀ bytes, Lz4.Expands (compress bytes) bytes) →
          (p.performAll rs).imageBy compress = .ok image →
          onProgram (Program.loadImageBy reader image) (b.running (q.performAll rs')) =
            .ok rest b' →
          b' = b.running (p.performAll rs)) ∧
        ∀ qs, (b.running (p.performAll rs)).passAnswers qs =
          (a.running (p.performAll rs)).passAnswers qs) ∧
      ∀ (qs : List (Pass Double)) (d : Circuit Double), a.restored.SameLayout d → ∃ d' r,
        (p.performAll (qs.map (·.programRequest))).restoreInto d = .ok () d' ∧
          d'.compile a.placements = .ok r ∧ Program.SameCode p r := by
  have hvalid := valid_of_reachable ha
  have hvalid' := valid_of_reachable hb
  have hcode := sameCode_programs hvalid hvalid' hplacements hlayout
  refine ⟨_, _, hvalid.compile_ok, hvalid'.compile_ok, hcode, fun rs rs' => ?_, fun qs d hd => ?_⟩
  · -- whatever was asked of them, both programs still have the code they were compiled to
    have hran : Program.SameCode ((b.restored.program b.layers).performAll rs')
        ((a.restored.program a.layers).performAll rs) :=
      (((intact_lower _ _).sameCode_performAll rs').symm.trans hcode.symm).trans
        ((intact_lower _ _).sameCode_performAll rs)
    refine ⟨onProgram_ok hran.replaceMemory_ok,
      fun reader compress image rest b' hreader hexpands hsave hload => ?_,
      (twins_running hvalid hvalid' hplacements hlayout _).passAnswers_eq⟩
    obtain ⟨rest, q, hloaded, rfl⟩ := onProgram_running_eq_ok hload
    rw [hran.eq_of_loadImageBy hreader hexpands hsave hloaded]
  · obtain ⟨d', r, hrestore, hcompile, hsame⟩ := recompile_program hvalid.hosts_restored.runs hd qs
    rw [hvalid.placements_restored] at hcompile
    exact ⟨d', r, hrestore, hcompile, hsame⟩

/-- Two neurons. The output gates the link between them, and its loop has a gain that nobody drives. -/
def coupled (identity : Identity) (settings : Settings Double) (weight gain : Double) :
    Network Double :=
  let c := (Circuit.empty identity settings).performAll
    [.addEnsemble 1, .addEnsemble 1, .connect 0 1 (some weight), .gateLink 1 2,
      .setNumber (.gain 1) gain]
  ⟨c, (Layers.unbound 0 [] 1).bind c.identity, .pending⟩

def lender : Network Double := coupled 0 ⟨7, .half, .tenth⟩ .half .two

def borrower : Network Double := coupled 1 ⟨11, .tenth, .half⟩ .two .half

/-- A run of the lender's program: one input, and one step of learning. -/
def lesson : List Program.Request := [.activate [.half], .propagate .tenth [.two]]

theorem handover_lender :
    lender.Reachable ∧ borrower.Reachable ∧ borrower.placements = lender.placements ∧
      lender.restored.SameLayout borrower.restored ∧ borrower.circuit.links ≠ lender.circuit.links ∧
      ∃ p q, compile lender = .ok () (lender.running p) ∧
        compile borrower = .ok () (borrower.running q) ∧ Program.SameCode p q ∧
        onProgram (Program.replaceMemory (p.performAll lesson).memory) (borrower.running q) =
          .ok (some q.memory) (borrower.running (p.performAll lesson)) ∧
        ∀ qs, (borrower.running (p.performAll lesson)).passAnswers qs =
          (lender.running (p.performAll lesson)).passAnswers qs := by
  have hlender : lender.Reachable := reachable_of_requests (by decide +kernel) (by decide +kernel)
  have hborrower : borrower.Reachable :=
    reachable_of_requests (by decide +kernel) (by decide +kernel)
  have hplacements : borrower.placements = lender.placements := by decide +kernel
  have hlayout : lender.restored.SameLayout borrower.restored := by decide +kernel
  obtain ⟨p, q, hp, hq, hcode, hgive, -⟩ := handover hlender hborrower hplacements hlayout
  obtain ⟨hreplace, -, hanswers⟩ := hgive lesson []
  exact ⟨hlender, hborrower, hplacements, hlayout, by decide +kernel, p, q, hp, hq, hcode, hreplace,
    hanswers⟩

end Network

end GatedNetwork
