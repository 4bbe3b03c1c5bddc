import GatedNetwork.Proofs.Network.Duplicate

/-!
# Imports have a normal form

Rows of a snapshot may name one pair of neurons several times, and any of them a loop: the last weight
and gain count, and the last gater that a row gives. Still the circuit that is built has one link for
each pair, and its first links are the loops of its neurons. So a snapshot of it has at most one row
for each pair, those of loops first and in order, and importing that once more changes nothing.

* `check_eq_error`: an import fails at the first row that names a neuron outside.
* `tidy_reimported`: the snapshot of what was built from rows in order is in normal form.
* `reimported_eq`: neither identity nor settings of an import show in a snapshot of it.
* `import_outcomes`: the three together.
-/

namespace GatedNetwork

variable {α : Type} [Arithmetic α]

/-- Does a row name a neuron that is not among the first `n`? -/
def ConnectionRow.NamesOutside (n : Nat) (row : ConnectionRow α) : Prop :=
  n ≤ row.source ∨ n ≤ row.target ∨ ∃ g, row.gater = some g ∧ n ≤ g

/-- A link as the row of a snapshot that lists all neurons. -/
def Link.row (k : Link α) : ConnectionRow α where
  source := k.source
  target := k.target
  weight := k.weight
  gain := k.gain
  gater := k.gater

namespace Circuit

variable {c : Circuit α} {ps : List Placement} {u v a b g : NeuronId} {l : LinkId}

/-! ## Other settings -/

/-- A circuit with all records of another one. -/
def rebase (c : Circuit α) (identity : Identity) (settings : Settings α) (generator : Generator) :
    Circuit α :=
  { c with identity, settings, generator }

section Rebase

variable (c : Circuit α) (i : Identity) (t : Settings α) (r : Generator)

/-- A weight that is given is not drawn. -/
theorem connect_rebase (a b : NeuronId) (w : α) :
    (c.rebase i t r).connect a b (some w) =
      ((c.connect a b (some w)).1, (c.connect a b (some w)).2.rebase i t r) := by
  have hlink : (c.rebase i t r).linkBetween? a b = c.linkBetween? a b := rfl
  unfold connect
  rw [hlink]
  split
  · rfl
  · cases c.linkBetween? a b <;> rfl

/-- Gating depends on no settings. -/
theorem gateLink_rebase (u : NeuronId) (l : LinkId) :
    (c.rebase i t r).gateLink u l = (c.gateLink u l).rebase i t r := by
  have hlink : (c.rebase i t r).link l = c.link l := rfl
  unfold gateLink
  rw [hlink]
  split
  · rfl
  · split <;> rfl

end Rebase

/-! ## Loops first -/

/-- The first links are the loops of the neurons, in order. -/
def LoopsFirst (c : Circuit α) : Prop := ∀ u < c.neurons.size, (c.neuron u).loop = u

theorem loop_modifyNeuron {f : Neuron α → Neuron α} (hf : ∀ n, (f n).loop = n.loop) :
    ((c.modifyNeuron u f).neuron v).loop = (c.neuron v).loop := by
  rcases neuron_modifyNeuron_cases c u f v with he | ⟨-, -, he⟩
  · rw [he]
  · rw [he, hf]

theorem loop_addLink (w : α) : ((c.addLink a b w).2.neuron u).loop = (c.neuron u).loop := by
  have hsource (d : Circuit α) (l : LinkId) :
      ((d.modifyNeuron a fun n => { n with projected := n.projected.insert l }).neuron u).loop =
        (d.neuron u).loop :=
    loop_modifyNeuron fun _ => rfl
  have htarget (d : Circuit α) (l : LinkId) :
      ((d.modifyNeuron b fun n =>
        { n with inputs := n.inputs.insert l, trace := n.trace.watch l }).neuron u).loop =
        (d.neuron u).loop :=
    loop_modifyNeuron fun _ => rfl
  exact (htarget _ _).trans (hsource _ _)

theorem loop_connect (w : α) : ((c.connect a b (some w)).2.neuron u).loop = (c.neuron u).loop := by
  by_cases hself : a = b
  · rw [hself, connect_loop]
    rfl
  · cases hlink : c.linkBetween? a b with
    | none =>
      rw [connect_new hself hlink]
      exact loop_addLink w
    | some l =>
      unfold connect
      rw [if_neg hself, hlink]
      rfl

theorem loop_gateLink : ((c.gateLink u l).neuron v).loop = (c.neuron v).loop := by
  obtain ⟨_, _, _, he⟩ := regated_gateLink c u l v
  rw [he]

namespace LoopsFirst

/-- Where loops come first, the link with the id of a neuron leads from it to itself. -/
theorem ends_eq (h : c.LoopsFirst) (hc : c.Sound) (hu : u < c.neurons.size) :
    (c.link u).source = u ∧ (c.link u).target = u := by
  have hsource := hc.loop_source u hu
  have htarget := hc.loop_target u hu
  rw [loopOf, h u hu] at hsource htarget
  exact ⟨hsource, htarget⟩

/-- All links behind the first ones join different neurons. -/
theorem source_ne_target (h : c.LoopsFirst) (hc : c.Sound) (hl : l < c.links.size)
    (hle : c.neurons.size ≤ l) : (c.link l).source ≠ (c.link l).target := by
  intro hself
  have ht := (hc.ends_lt l hl).2
  obtain ⟨hsource, htarget⟩ := h.ends_eq hc ht
  have hlink := hc.eq_of_ends l hl _ (h _ ht ▸ hc.loop_lt _ ht) (hself.trans hsource.symm)
    htarget.symm
  exact absurd ht (Nat.not_lt.mpr (hlink ▸ hle))

theorem size_le (h : c.LoopsFirst) (hc : c.Sound) : c.neurons.size ≤ c.links.size := by
  refine Nat.le_of_not_lt fun hlt => ?_
  have hloop := hc.loop_lt _ hlt
  rw [h _ hlt] at hloop
  exact Nat.lt_irrefl _ hloop

end LoopsFirst

/-! ## Snapshots that list all neurons -/

/-- Every link has its row as it is, save loops that count as absent. -/
theorem connections_of_range (h : c.Sound) (hps : ps.map (·.neuron) = List.range c.neurons.size) :
    (c.snapshot ps).connections = (c.links.toList.map Link.row).filter (!·.isAbsent) := by
  have hrow : ∀ l ∈ List.range c.links.size, connectionRow? ps (c.link l) =
      if (c.link l).row.isAbsent then none else some (c.link l).row := by
    intro l hl
    have hl := List.mem_range.mp hl
    have hinside : Snapshot.isInside c.neurons.size (c.link l).row = true :=
      Snapshot.isInside_iff.mpr ⟨(h.ends_lt l hl).1, (h.ends_lt l hl).2, h.gater_lt l hl⟩
    exact Snapshot.connectionRow?_link hps hinside
  rw [snapshot, links_toList, List.map_map, ← List.filterMap_eq_filter, List.filterMap_map,
    List.filterMap_map]
  refine List.filterMap_congr fun l hl => (hrow l hl).trans ?_
  simp only [Function.comp_apply, Option.guard]
  cases (c.link l).row.isAbsent <;> rfl

/-- The rows of loops come first, in the order of their neurons. -/
theorem LoopsFirst.connections (h : c.LoopsFirst) (hc : c.Sound)
    (hps : ps.map (·.neuron) = List.range c.neurons.size) :
    ∃ loops others, (c.snapshot ps).connections = loops ++ others ∧
      (∀ r ∈ loops, r.isLoop = true) ∧ loops.Pairwise (·.target < ·.target) ∧
      ∀ r ∈ others, r.isLoop = false := by
  obtain ⟨m, hm⟩ := Nat.exists_eq_add_of_le (h.size_le hc)
  refine ⟨((List.range c.neurons.size).map fun l => (c.link l).row).filter (!·.isAbsent),
    ((List.range m).map fun k => (c.link (c.neurons.size + k)).row).filter (!·.isAbsent),
    ?_, ?_, ?_, ?_⟩
  · rw [connections_of_range hc hps, links_toList, hm, List.range_add, List.map_append,
      List.map_append, List.filter_append, List.map_map, List.map_map, List.map_map]
    rfl
  · intro r hr
    obtain ⟨l, hl, rfl⟩ := List.mem_map.mp (List.mem_of_mem_filter hr)
    obtain ⟨hsource, htarget⟩ := h.ends_eq hc (List.mem_range.mp hl)
    simp [ConnectionRow.isLoop, Link.row, hsource, htarget]
  · refine List.Pairwise.filter _ (List.pairwise_map.mpr ?_)
    refine List.pairwise_lt_range.imp_of_mem fun {l k} hl hk hlt => ?_
    simp only [Link.row, (h.ends_eq hc (List.mem_range.mp hl)).2,
      (h.ends_eq hc (List.mem_range.mp hk)).2, hlt]
  · intro r hr
    obtain ⟨k, hk, rfl⟩ := List.mem_map.mp (List.mem_of_mem_filter hr)
    have hlt : c.neurons.size + k < c.links.size :=
      hm ▸ Nat.add_lt_add_left (List.mem_range.mp hk) _
    simpa [ConnectionRow.isLoop, Link.row] using h.source_ne_target hc hlt (Nat.le_add_right _ k)

end Circuit

namespace Snapshot

open Circuit

variable {s : Snapshot α} {c : Circuit α} {i o : Nat} {hidden : List Nat}

/-! ## Snapshots of what was built -/

/-- A snapshot of what is built from a snapshot. -/
def reimported (s : Snapshot α) (identity : Identity) (settings : Settings α) : Snapshot α :=
  (s.build identity settings).1.snapshot
    ((s.build identity settings).1.placements (s.build identity settings).2)

theorem loop_addConnection (row : ConnectionRow α) (u : NeuronId) :
    ((addConnection c row).neuron u).loop = (c.neuron u).loop := by
  rw [addConnection_eq]
  show ((gateRow _ _ _).neuron u).loop = _
  cases row.gater with
  | none => exact loop_connect row.weight
  | some g => exact loop_gateLink.trans (loop_connect row.weight)

theorem loop_addConnections (rows : List (ConnectionRow α)) (u : NeuronId) :
    ((rows.foldl addConnection c).neuron u).loop = (c.neuron u).loop := by
  induction rows generalizing c with
  | nil => rfl
  | cons row rows ih => rw [List.foldl_cons, ih, loop_addConnection]

/-- In a circuit built from a snapshot, the first links are the loops. -/
theorem loopsFirst_build (s : Snapshot α) (identity : Identity) (settings : Settings α) :
    (s.build identity settings).1.LoopsFirst := by
  intro u hu
  rw [size_neurons_build] at hu
  rw [build_fst, loop_addConnections]
  exact (depicts_bare s identity settings).loop u hu

omit [Arithmetic α] in
theorem hiddenIndices_eq {t : Snapshot α} (h : t.rowLayers = s.rowLayers) :
    t.hiddenIndices = s.hiddenIndices := by
  refine IdSet.ext fun i => ?_
  rw [mem_hiddenIndices, mem_hiddenIndices, h]

section Reimported

variable (identity : Identity) (settings : Settings α)

/-- A round trip lists the layers of the normal form. -/
theorem rowLayers_reimported (horder : s.InOrder i hidden o) :
    (s.reimported identity settings).rowLayers = s.normalized.rowLayers := by
  rw [reimported, placements_build horder]
  refine List.ext_getElem? fun j => ?_
  simp only [rowLayers, Circuit.snapshot, normalized, List.getElem?_map, List.getElem?_mapIdx,
    Option.map_map]
  rfl

/-- What comes back from a round trip can be imported. -/
theorem check_reimported (s : Snapshot α) : (s.reimported identity settings).check = .ok () :=
  check_snapshot _ _

/-- What comes back from a round trip lists no pair of neurons twice. -/
theorem ends_reimported (hcheck : s.check = .ok ()) :
    (s.reimported identity settings).connections.Pairwise fun r r' => ¬r.SameEnds r' :=
  pairwise_connections (consistent_build hcheck identity settings).sound

theorem inOrder_reimported (s : Snapshot α) :
    ∃ i hidden o, (s.reimported identity settings).InOrder i hidden o := by
  obtain ⟨hidden, -, horder⟩ :=
    inOrder_snapshot (s.build identity settings).1 (s.build identity settings).2
  exact ⟨_, hidden, _, horder⟩

/-- The snapshot of what was built from rows in order is tidy, whatever the connections were. -/
theorem tidy_reimported (horder : s.InOrder i hidden o) (hcheck : s.check = .ok ()) :
    (s.reimported identity settings).Tidy := by
  have hsound := (consistent_build hcheck identity settings).sound
  have hplaced := (placed_build horder identity settings).2.2.2
  rw [← placed_eq, ← size_neurons_build s identity settings] at hplaced
  obtain ⟨loops, others, hconnections, hloops, hascending, hothers⟩ :=
    (loopsFirst_build s identity settings).connections hsound hplaced
  rw [← reimported] at hconnections
  have hfilter : (loops ++ others).filter (·.isLoop) = loops := by
    rw [List.filter_append, List.filter_eq_self.mpr hloops, List.filter_eq_nil_iff.mpr,
      List.append_nil]
    exact fun r hr => by simp [hothers r hr]
  have hfilter' : (loops ++ others).filter (!·.isLoop) = others := by
    rw [List.filter_append, List.filter_eq_nil_iff.mpr, List.nil_append, List.filter_eq_self.mpr]
    · exact fun r hr => by simp [hothers r hr]
    · exact fun r hr => by simp [hloops r hr]
  refine ⟨?_, ?_, ?_, fun r hr => ?_⟩
  · rw [hiddenIndices_eq (rowLayers_reimported identity settings horder),
      toList_hiddenIndices_normalized, List.length_range]
  · rw [hconnections, hfilter, hfilter']
  · rwa [hconnections, hfilter]
  · rw [reimported, connections_of_range hsound hplaced] at hr
    simpa using (List.mem_filter.mp hr).2

end Reimported

/-! ## Imports under other settings -/

section Rebase

variable (c : Circuit α) (t : Settings α) (r : Generator)

omit [Arithmetic α] in
theorem modify_push {β : Type} (xs : Array β) (x : β) (f : β → β) :
    (xs.push x).modify xs.size f = xs.push (f x) := by
  refine Array.ext_getElem? fun i => ?_
  rw [Array.getElem?_modify, Array.getElem?_push, Array.getElem?_push]
  by_cases hi : i = xs.size
  · simp [hi]
  · simp [hi, Ne.symm hi]

/-- A neuron gets the bias of its row, whichever it drew before. -/
theorem addNeuron_rebase (i : Identity) (row : NeuronRow α) :
    ∃ r', addNeuron (c.rebase i t r) row = (addNeuron c row).rebase i t r' := by
  refine ⟨(c.rebase i t r).draw.2.generator, ?_⟩
  have hneurons (d : Circuit α) : (addNeuron d row).neurons = d.neurons.push
      { Neuron.fresh row.bias d.links.size with
        state := row.state
        previous := row.previous
        activation := row.activation
        transfer := row.transfer } := by
    show (d.neurons.push (.fresh d.draw.1 d.links.size)).modify d.neurons.size (fun n =>
      { n with
        state := row.state
        previous := row.previous
        activation := row.activation
        bias := row.bias
        transfer := row.transfer }) = _
    rw [modify_push]
    rfl
  have hrebase : (addNeuron (c.rebase i t r) row).neurons = (addNeuron c row).neurons := by
    rw [hneurons, hneurons]
    rfl
  calc addNeuron (c.rebase i t r) row
      = { addNeuron (c.rebase i t r) row with
          neurons := (addNeuron (c.rebase i t r) row).neurons } := rfl
    _ = (addNeuron c row).rebase i t (c.rebase i t r).draw.2.generator := by
      rw [hrebase]
      rfl

theorem addNeurons_rebase (i : Identity) (rows : List (NeuronRow α)) :
    ∃ r', rows.foldl addNeuron (c.rebase i t r) = (rows.foldl addNeuron c).rebase i t r' := by
  induction rows generalizing c r with
  | nil => exact ⟨r, rfl⟩
  | cons row rows ih =>
    obtain ⟨r', hrow⟩ := addNeuron_rebase c t r i row
    rw [List.foldl_cons, hrow]
    exact ih _ r'

omit [Arithmetic α] in
/-- Ensembles depend on no settings. -/
theorem wrapAll_rebase (i : Identity) (lists : List (List NeuronId)) :
    wrapAll (c.rebase i t r) lists = ((wrapAll c lists).1, (wrapAll c lists).2.rebase i t r) := by
  induction lists generalizing c with
  | nil => rfl
  | cons us lists ih =>
    have hwrap : (c.rebase i t r).wrap us = ((c.wrap us).1, (c.wrap us).2.rebase i t r) := rfl
    simp only [wrapAll, hwrap, ih]

theorem addConnection_rebase (i : Identity) (row : ConnectionRow α) :
    addConnection (c.rebase i t r) row = (addConnection c row).rebase i t r := by
  rw [addConnection_eq, addConnection_eq, connect_rebase]
  cases row.gater with
  | none => rfl
  | some g =>
    simp only [gateRow, gateLink_rebase]
    rfl

/-- Connections depend on no settings. -/
theorem addConnections_rebase (i : Identity) (rows : List (ConnectionRow α)) :
    rows.foldl addConnection (c.rebase i t r) = (rows.foldl addConnection c).rebase i t r := by
  induction rows generalizing c with
  | nil => rfl
  | cons row rows ih => rw [List.foldl_cons, addConnection_rebase, ih, List.foldl_cons]

end Rebase

/-- Circuits that are built from one snapshot have the same records. -/
theorem build_rebase (s : Snapshot α) (i i' : Identity) (t t' : Settings α) :
    ∃ r, s.build i' t' = ((s.build i t).1.rebase i' t' r, (s.build i t).2) := by
  have hempty : Circuit.empty i' t' = (Circuit.empty i t).rebase i' t' (.ofSeed t'.seed) := rfl
  obtain ⟨r, hrows⟩ := addNeurons_rebase (.empty i t) t' (.ofSeed t'.seed) i' s.neurons
  refine ⟨r, ?_⟩
  rw [← hempty] at hrows
  have hwrap (c : Circuit α) (us : List NeuronId) :
      (c.rebase i' t' r).wrap us = ((c.wrap us).1, (c.wrap us).2.rebase i' t' r) := rfl
  simp only [build, hrows, hwrap, wrapAll_rebase, addConnections_rebase]

/-- Neither identity nor settings of what was built show in a snapshot of it. -/
theorem reimported_eq (s : Snapshot α) (i i' : Identity) (t t' : Settings α) :
    s.reimported i' t' = s.reimported i t := by
  obtain ⟨r, hbuild⟩ := build_rebase s i i' t t'
  rw [reimported, hbuild]
  rfl

/-! ## Rows that name neurons outside -/

omit [Arithmetic α] in
/-- A row is inside unless it names a neuron outside. -/
theorem isInside_iff_not {n : Nat} {row : ConnectionRow α} :
    isInside n row = true ↔ ¬row.NamesOutside n := by
  rw [isInside_iff, ConnectionRow.NamesOutside]
  constructor
  · rintro ⟨hs, ht, hg⟩ (hout | hout | ⟨g, hgater, hout⟩)
    · exact Nat.not_le.mpr hs hout
    · exact Nat.not_le.mpr ht hout
    · exact Nat.not_le.mpr (hg g hgater) hout
  · intro h
    exact ⟨Nat.not_le.mp fun hout => h (.inl hout), Nat.not_le.mp fun hout => h (.inr (.inl hout)),
      fun g hgater => Nat.not_le.mp fun hout => h (.inr (.inr ⟨g, hgater, hout⟩))⟩

omit [Arithmetic α] in
/-- A check fails at the first row that names a neuron outside. -/
theorem check_eq_error {e : Error} (h : s.check = .error e) :
    ∃ k row, s.connections[k]? = some row ∧ row.NamesOutside s.neurons.length ∧
      (∀ j < k, ∀ row', s.connections[j]? = some row' → ¬row'.NamesOutside s.neurons.length) ∧
      e = .snapshot (.outside k s.neurons.length) := by
  unfold check at h
  split at h
  · next k hk =>
    obtain ⟨hlt, hrow, hfirst⟩ := List.findIdx?_eq_some_iff_getElem.mp hk
    cases h
    refine ⟨k, _, List.getElem?_eq_getElem hlt, ?_, fun j hj row' hrow' => ?_, rfl⟩
    · rw [Bool.not_eq_true', ← Bool.not_eq_true, isInside_iff_not, not_not] at hrow
      exact hrow
    · obtain ⟨hj', rfl⟩ := List.getElem?_eq_some_iff.mp hrow'
      exact isInside_iff_not.mp (by simpa using hfirst j hj)
  · cases h

/-- An import fails where its check does. -/
theorem toNetwork_eq_error_iff {e : Error} {identity : Identity} {settings : Settings α} :
    s.toNetwork identity settings = .error e ↔ s.check = .error e := by
  obtain ⟨m, hm⟩ := create_ok (hasEnsemble_build s identity settings)
  cases hcheck : s.check with
  | error e' => simp [toNetwork, hcheck, bind, Except.bind]
  | ok _ => simp [toNetwork_eq_ok_iff.mpr ⟨hcheck, hm⟩]

/-! ## The normal form of an import -/

/-- Imports a snapshot and takes a snapshot of what comes out. -/
def roundTrip (s : Snapshot α) (identity : Identity) (settings : Settings α) :
    Except Error (Snapshot α) := do
  let n ← s.toNetwork identity settings
  Network.snapshot.answer n

/-- A snapshot that passes the check survives a round trip. -/
theorem roundTrip_eq (hcheck : s.check = .ok ()) (identity : Identity) (settings : Settings α) :
    s.roundTrip identity settings = .ok (s.reimported identity settings) := by
  obtain ⟨n, hn⟩ := create_ok (hasEnsemble_build s identity settings)
  have himport := toNetwork_eq_ok_iff.mpr ⟨hcheck, hn⟩
  obtain ⟨hmode, hexported⟩ := Network.exported_create hn
  rw [reimported, ← hexported]
  exact bind_eq_ok_iff.mpr ⟨n, himport, Op.answer_of_ok
    ((Network.valid_imported himport).snapshot_of_not_compiled hmode)⟩

/-- What came back once comes back as it is. -/
theorem roundTrip_reimported [SoundZero α] (horder : s.InOrder i hidden o)
    (hcheck : s.check = .ok ()) (identity identity' : Identity) (settings settings' : Settings α) :
    (s.reimported identity settings).roundTrip identity' settings' =
      .ok (s.reimported identity settings) := by
  have htidy := tidy_reimported identity settings horder hcheck
  have hcheck' := s.check_reimported identity settings
  have hends := ends_reimported identity settings hcheck
  obtain ⟨_, _, _, horder'⟩ := s.inOrder_reimported identity settings
  rw [roundTrip_eq hcheck', reimported, snapshot_build horder' hcheck' hends,
    htidy.normalized_eq hcheck' hends]

/-- **An import fails at the first row that names a neuron outside, and only there. Rows in order come
back in a normal form that one more import does not change, under whatever settings the imports are
made.** -/
theorem import_outcomes [SoundZero α] (s : Snapshot α) :
    (∀ identity settings,
      ((∃ e, s.toNetwork identity settings = .error e) ↔
        ∃ row ∈ s.connections, row.NamesOutside s.neurons.length) ∧
      ∀ e, s.toNetwork identity settings = .error e →
        ∃ k row, s.connections[k]? = some row ∧ row.NamesOutside s.neurons.length ∧
          (∀ j < k, ∀ row', s.connections[j]? = some row' → ¬row'.NamesOutside s.neurons.length) ∧
          e = .snapshot (.outside k s.neurons.length)) ∧
    ∀ i hidden o, s.InOrder i hidden o →
      (∀ row ∈ s.connections, ¬row.NamesOutside s.neurons.length) →
      ∃ t, (∀ identity settings, s.roundTrip identity settings = .ok t) ∧
        ∀ identity settings, t.roundTrip identity settings = .ok t := by
  refine ⟨fun identity settings => ⟨⟨?_, ?_⟩, ?_⟩, fun i hidden o horder hinside => ?_⟩
  · rintro ⟨e, he⟩
    obtain ⟨k, row, hrow, houtside, -⟩ := check_eq_error (toNetwork_eq_error_iff.mp he)
    exact ⟨row, List.mem_of_getElem? hrow, houtside⟩
  · rintro ⟨row, hrow, houtside⟩
    cases hcheck : s.check with
    | error e => exact ⟨e, toNetwork_eq_error_iff.mpr hcheck⟩
    | ok _ => exact absurd houtside (isInside_iff_not.mp (check_eq_ok_iff.mp hcheck row hrow))
  · exact fun e he => check_eq_error (toNetwork_eq_error_iff.mp he)
  · have hcheck : s.check = .ok () :=
      check_eq_ok_iff.mpr fun row hrow => isInside_iff_not.mpr (hinside row hrow)
    refine ⟨s.reimported 0 ⟨0, 0, 0⟩, fun identity settings => ?_, ?_⟩
    · rw [roundTrip_eq hcheck, reimported_eq s 0 identity ⟨0, 0, 0⟩ settings]
    · exact fun identity settings => roundTrip_reimported horder hcheck _ _ _ _

/-- Rows with gaps between hidden layers, a pair that is named twice, loops in between, one of weight
zero and one that is named twice, and a link that changes its gater. -/
def tangled : Snapshot Double where
  neurons := [⟨0, 0, 1, 0, .input, .identity⟩, ⟨1, 0, 1, 1, .hidden 3, .logistic⟩,
    ⟨0, 1, 0, 1, .hidden 7, .tanh⟩, ⟨1, 1, 1, 0, .output, .identity⟩]
  connections := [⟨0, 1, 1, 1, some 2⟩, ⟨2, 2, 0, 1, none⟩, ⟨1, 3, 1, 0, none⟩, ⟨0, 1, 0, 1, none⟩,
    ⟨1, 1, 1, 1, some 0⟩, ⟨1, 3, 1, 1, some 0⟩, ⟨1, 3, 0, 1, some 2⟩, ⟨1, 1, 0, 0, none⟩]

/-- A row whose gater is not there. -/
def astray : Snapshot Double where
  neurons := tangled.neurons
  connections := [⟨0, 1, 1, 1, none⟩, ⟨1, 2, 1, 1, some 4⟩]

theorem roundTrip_tangled :
    (∃ t, (∀ identity settings, tangled.roundTrip identity settings = .ok t) ∧
      ∀ identity settings, t.roundTrip identity settings = .ok t) ∧
    ∃ e, astray.toNetwork 0 ⟨0, 0, 0⟩ = .error e := by
  have horder : tangled.InOrder 1 [3, 7] 1 := ⟨rfl, by decide⟩
  have hcheck : tangled.check = .ok () := rfl
  have hinside : ∀ row ∈ tangled.connections, ¬row.NamesOutside tangled.neurons.length :=
    fun row hrow => isInside_iff_not.mp (check_eq_ok_iff.mp hcheck row hrow)
  refine ⟨(import_outcomes tangled).2 1 [3, 7] 1 horder hinside, ?_⟩
  refine ((import_outcomes astray).1 0 ⟨0, 0, 0⟩).1.mpr ⟨⟨1, 2, 1, 1, some 4⟩, by simp [astray], ?_⟩
  exact .inr (.inr ⟨4, rfl, Nat.le_refl 4⟩)

end Snapshot

end GatedNetwork
