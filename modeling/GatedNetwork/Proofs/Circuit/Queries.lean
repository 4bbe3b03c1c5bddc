import GatedNetwork.Proofs.Circuit.Planning

/-!
# Queries read the table of links

A query goes through the links that a neuron lists, in the order of their creation. These lists mirror
the table of links, so every answer can be told from the table alone.

* `IsLink`, `Steers`, `Linked` — what the table says about two neurons
* `related_iff` — how two neurons are related
* `wired_iff` — how one list of neurons is wired to another
* `queries_agree` — both, and the link between two neurons, in every circuit within reach
-/

namespace GatedNetwork

/-! ## The first member -/

namespace IdSet

variable {s : IdSet} {p : Nat → Bool} {P : Nat → Prop} {k : Nat}

/-- What is found first in a set is the least member of its kind. -/
theorem least_of_find? (hP : ∀ i, i ∈ s ∧ p i = true ↔ P i) (hk : s.toList.find? p = some k) :
    P k ∧ ∀ i, P i → k ≤ i := by
  obtain ⟨hpk, before, after, hsplit, hbefore⟩ := List.find?_eq_some_iff_append.mp hk
  refine ⟨(hP k).mp ⟨List.mem_of_find?_eq_some hk, hpk⟩, fun i hi => ?_⟩
  obtain ⟨hmem, hpi⟩ := (hP i).mpr hi
  have hascending := s.ascending
  rw [← mem_toList, hsplit] at hmem
  rw [hsplit] at hascending
  -- no member of the kind comes before the one that is found, and later members are greater
  rcases List.mem_append.mp hmem with hi | hi
  · have hnot := hbefore i hi
    rw [hpi] at hnot
    cases hnot
  · rcases List.mem_cons.mp hi with rfl | hi
    · exact Nat.le_refl i
    · obtain ⟨-, htail, -⟩ := List.pairwise_append.mp hascending
      exact Nat.le_of_lt ((List.pairwise_cons.mp htail).1 i hi)

theorem none_of_find? (hP : ∀ i, i ∈ s ∧ p i = true ↔ P i) (hnone : s.toList.find? p = none)
    (i : Nat) : ¬ P i := by
  intro hi
  obtain ⟨hmem, hpi⟩ := (hP i).mpr hi
  exact List.find?_eq_none.mp hnone i hmem hpi

end IdSet

variable {α : Type} [Arithmetic α]

namespace Circuit

variable {c : Circuit α} {a b : NeuronId} {k l : LinkId}

/-! ## What the table of links says -/

theorem touches_iff : c.touches b l = true ↔ (c.link l).source = b ∨ (c.link l).target = b := by
  simp [touches]

/-- Does the link lead from `a` to `b`? -/
def IsLink (c : Circuit α) (a b : NeuronId) (l : LinkId) : Prop :=
  l < c.links.size ∧ c.ends l = (a, b)

/-- Does `a` gate the link, and does the link start or end at `b`? -/
def Steers (c : Circuit α) (a b : NeuronId) (l : LinkId) : Prop :=
  l < c.links.size ∧ (c.link l).gater = some a ∧ ((c.link l).source = b ∨ (c.link l).target = b)

/-- Does a link lead from `a` to `b`? From a neuron to itself, it has to have a weight other than
zero. -/
def Linked (c : Circuit α) (a b : NeuronId) : Prop :=
  ∃ l, c.IsLink a b l ∧ (a = b → Arithmetic.isZero (c.link l).weight = false)

/-- How two different neurons are related, and by which link: by the link from the second to the first,
else by the link from the first to the second, else by the least link at the second that the first one
gates. -/
inductive Related (c : Circuit α) (a b : NeuronId) : Option (Role × LinkId) → Prop
  | incoming {l : LinkId} : c.IsLink b a l → Related c a b (some (.incoming, l))
  | outgoing {l : LinkId} : (∀ k, ¬ c.IsLink b a k) → c.IsLink a b l →
      Related c a b (some (.outgoing, l))
  | gated {l : LinkId} : (∀ k, ¬ c.IsLink b a k) → (∀ k, ¬ c.IsLink a b k) → c.Steers a b l →
      (∀ k, c.Steers a b k → l ≤ k) → Related c a b (some (.gated, l))
  | unrelated : (∀ k, ¬ c.IsLink b a k) → (∀ k, ¬ c.IsLink a b k) → (∀ k, ¬ c.Steers a b k) →
      Related c a b none

/-- How one list of neurons is wired to another: all to all if every pair is linked, else one to one if
the lists have one length and neurons in the same places are linked, else not at all. -/
inductive Wired (c : Circuit α) (here there : List NeuronId) : Option Topology → Prop
  | allToAll : (∀ a ∈ here, ∀ b ∈ there, c.Linked a b) → Wired c here there (some .allToAll)
  | oneToOne : (¬ ∀ a ∈ here, ∀ b ∈ there, c.Linked a b) → here.Forall₂ c.Linked there →
      Wired c here there (some .oneToOne)
  | unwired : (¬ ∀ a ∈ here, ∀ b ∈ there, c.Linked a b) → ¬ here.Forall₂ c.Linked there →
      Wired c here there none

/-! ## Links between two neurons -/

/-- There is at most one link from one neuron to another. -/
theorem Sound.eq_of_isLink (h : c.Sound) (hk : c.IsLink a b k) (hl : c.IsLink a b l) : k = l :=
  h.eq_of_ends k hk.1 l hl.1
    ((congrArg Prod.fst hk.2).trans (congrArg Prod.fst hl.2).symm)
    ((congrArg Prod.snd hk.2).trans (congrArg Prod.snd hl.2).symm)

/-- Between different neurons, the link that is found is the link of the table. -/
theorem linkBetween?_eq_some_iff (h : c.Sound) (ha : a < c.neurons.size) (hne : a ≠ b) :
    c.linkBetween? a b = some l ↔ c.IsLink a b l := by
  constructor
  · exact lt_and_ends_of_linkBetween? h ha
  · intro hl
    cases hfound : c.linkBetween? a b with
    | none =>
      exact absurd (congrArg Prod.snd hl.2)
        (h.ne_of_linkBetween? hne ha hfound l hl.1 (congrArg Prod.fst hl.2))
    | some k => rw [h.eq_of_isLink (lt_and_ends_of_linkBetween? h ha hfound) hl]

theorem isSome_linkBetween?_iff (h : c.Sound) (ha : a < c.neurons.size) :
    (c.linkBetween? a b).isSome = true ↔ c.Linked a b := by
  by_cases hab : a = b
  · subst hab
    have hloop : c.IsLink a a (c.neuron a).loop :=
      ⟨h.loop_lt a ha, Prod.ext (h.loop_source a ha) (h.loop_target a ha)⟩
    have hself : (c.linkBetween? a a).isSome = true ↔
        Arithmetic.isZero (c.loopOf a).weight = false := by
      rw [linkBetween?, if_pos rfl, isSelfConnected]
      cases Arithmetic.isZero (c.loopOf a).weight <;> simp
    rw [hself]
    constructor
    · exact fun hw => ⟨_, hloop, fun _ => hw⟩
    · rintro ⟨l, hl, hw⟩
      rw [loopOf, ← h.eq_of_isLink hl hloop]
      exact hw rfl
  · rw [Option.isSome_iff_exists]
    refine exists_congr fun l => (linkBetween?_eq_some_iff h ha hab).trans ?_
    exact (and_iff_left fun he => absurd he hab).symm

/-! ## How two neurons are related -/

/-- Among the links into `a`, those that touch `b` come from there. -/
theorem mem_inputs_touches_iff (h : c.Sound) (ha : a < c.neurons.size) (hne : a ≠ b) (l : LinkId) :
    l ∈ (c.neuron a).inputs ∧ c.touches b l = true ↔ c.IsLink b a l := by
  rw [h.mem_inputs a ha, touches_iff, IsLink, ends, Prod.mk.injEq]
  constructor
  · rintro ⟨⟨hl, ht, -⟩, hs | hb⟩
    · exact ⟨hl, hs, ht⟩
    · exact absurd (ht.symm.trans hb) hne
  · rintro ⟨hl, hs, ht⟩
    exact ⟨⟨hl, ht, fun he => hne (he.symm.trans hs)⟩, .inl hs⟩

/-- Among the links out of `a`, those that touch `b` lead there. -/
theorem mem_projected_touches_iff (h : c.Sound) (ha : a < c.neurons.size) (hne : a ≠ b) (l : LinkId) :
    l ∈ (c.neuron a).projected ∧ c.touches b l = true ↔ c.IsLink a b l := by
  rw [h.mem_projected a ha, touches_iff, IsLink, ends, Prod.mk.injEq]
  constructor
  · rintro ⟨⟨hl, hs, -⟩, hb | ht⟩
    · exact absurd (hs.symm.trans hb) hne
    · exact ⟨hl, hs, ht⟩
  · rintro ⟨hl, hs, ht⟩
    exact ⟨⟨hl, hs, fun he => hne (he.symm.trans ht)⟩, .inr ht⟩

theorem mem_gated_touches_iff (h : c.Sound) (ha : a < c.neurons.size) (l : LinkId) :
    l ∈ (c.neuron a).gated ∧ c.touches b l = true ↔ c.Steers a b l := by
  rw [h.mem_gated a ha, touches_iff, Steers, and_assoc]

/-- The answer of the query is right. -/
theorem related_relation? (h : c.Sound) (ha : a < c.neurons.size) (hne : a ≠ b) :
    c.Related a b (c.relation? a b) := by
  have hincoming := mem_inputs_touches_iff h ha hne
  have houtgoing := mem_projected_touches_iff h ha hne
  have hgated := mem_gated_touches_iff (b := b) h ha
  simp only [relation?, if_neg hne]
  cases hin : (c.neuron a).inputs.toList.find? (c.touches b) with
  | some l => exact .incoming (IdSet.least_of_find? hincoming hin).1
  | none =>
    have hnoin := IdSet.none_of_find? hincoming hin
    cases hout : (c.neuron a).projected.toList.find? (c.touches b) with
    | some l => exact .outgoing hnoin (IdSet.least_of_find? houtgoing hout).1
    | none =>
      have hnoout := IdSet.none_of_find? houtgoing hout
      cases hgate : (c.neuron a).gated.toList.find? (c.touches b) with
      | some l =>
        obtain ⟨hl, hleast⟩ := IdSet.least_of_find? hgated hgate
        exact .gated hnoin hnoout hl hleast
      | none => exact .unrelated hnoin hnoout (IdSet.none_of_find? hgated hgate)

/-- The table of links leaves no choice. -/
theorem Related.unique (h : c.Sound) {r q : Option (Role × LinkId)} (hr : c.Related a b r)
    (hq : c.Related a b q) : r = q := by
  cases hr with
  | incoming hl =>
    cases hq with
    | incoming hk => rw [h.eq_of_isLink hl hk]
    | outgoing hno _ => exact absurd hl (hno _)
    | gated hno _ _ _ => exact absurd hl (hno _)
    | unrelated hno _ _ => exact absurd hl (hno _)
  | outgoing hno hl =>
    cases hq with
    | incoming hk => exact absurd hk (hno _)
    | outgoing _ hk => rw [h.eq_of_isLink hl hk]
    | gated _ hnot _ _ => exact absurd hl (hnot _)
    | unrelated _ hnot _ => exact absurd hl (hnot _)
  | gated hno hnot hl hleast =>
    cases hq with
    | incoming hk => exact absurd hk (hno _)
    | outgoing _ hk => exact absurd hk (hnot _)
    | gated _ _ hk hle => rw [Nat.le_antisymm (hleast _ hk) (hle _ hl)]
    | unrelated _ _ hnone => exact absurd hl (hnone _)
  | unrelated hno hnot hnone =>
    cases hq with
    | incoming hk => exact absurd hk (hno _)
    | outgoing _ hk => exact absurd hk (hnot _)
    | gated _ _ hk _ => exact absurd hk (hnone _)
    | unrelated _ _ _ => rfl

theorem related_iff (h : c.Sound) (ha : a < c.neurons.size) (hne : a ≠ b)
    (r : Option (Role × LinkId)) : c.relation? a b = r ↔ c.Related a b r := by
  constructor
  · rintro rfl
    exact related_relation? h ha hne
  · exact (related_relation? h ha hne).unique h

/-- A link that goes out of one neuron comes in at the other. -/
theorem relation?_symm (h : c.Sound) (ha : a < c.neurons.size) (hb : b < c.neurons.size) (hne : a ≠ b)
    (hout : c.relation? a b = some (.outgoing, l)) : c.relation? b a = some (.incoming, l) := by
  rw [related_iff h hb hne.symm]
  cases (related_iff h ha hne _).mp hout with
  | outgoing _ hl => exact .incoming hl

/-! ## How lists of neurons are wired -/

variable {here there : List NeuronId}

theorem allLinked_allToAll_iff (h : c.Sound) (hhere : ∀ u ∈ here, u < c.neurons.size) :
    c.allLinked (Topology.allToAll.pairs here there) = true ↔
      ∀ a ∈ here, ∀ b ∈ there, c.Linked a b := by
  rw [allLinked, List.all_eq_true]
  constructor
  · intro hall a ha b hb
    exact (isSome_linkBetween?_iff h (hhere a ha)).mp
      (hall (a, b) (Topology.mem_pairs_allToAll.mpr ⟨ha, hb⟩))
  · rintro hall ⟨a, b⟩ hp
    obtain ⟨ha, hb⟩ := Topology.mem_pairs_allToAll.mp hp
    exact (isSome_linkBetween?_iff h (hhere a ha)).mpr (hall a ha b hb)

theorem allLinked_oneToOne_iff (h : c.Sound) (hhere : ∀ u ∈ here, u < c.neurons.size) :
    (here.length == there.length && c.allLinked (Topology.oneToOne.pairs here there)) = true ↔
      here.Forall₂ c.Linked there := by
  rw [List.forall₂_iff_zip, Bool.and_eq_true, beq_iff_eq, allLinked, List.all_eq_true]
  refine and_congr_right fun _ => ⟨fun hall a b hp => ?_, ?_⟩
  · exact (isSome_linkBetween?_iff h (hhere a (List.of_mem_zip hp).1)).mp (hall (a, b) hp)
  · rintro hall ⟨a, b⟩ hp
    exact (isSome_linkBetween?_iff h (hhere a (List.of_mem_zip hp).1)).mpr (hall hp)

/-- The answer of the query is right. -/
theorem wired_wiring? (h : c.Sound) (hhere : ∀ u ∈ here, u < c.neurons.size) :
    c.Wired here there (c.wiring? here there) := by
  have hallIff : _ ↔ ∀ a ∈ here, ∀ b ∈ there, c.Linked a b := allLinked_allToAll_iff h hhere
  have honeIff : _ ↔ here.Forall₂ c.Linked there := allLinked_oneToOne_iff h hhere
  unfold wiring?
  split
  · next hall => exact .allToAll (hallIff.mp hall)
  · next hall =>
    split
    · next hone => exact .oneToOne (hall ∘ hallIff.mpr) (honeIff.mp hone)
    · next hone => exact .unwired (hall ∘ hallIff.mpr) (hone ∘ honeIff.mpr)

theorem Wired.unique {t t' : Option Topology} (ht : c.Wired here there t)
    (ht' : c.Wired here there t') : t = t' := by
  cases ht with
  | allToAll hall =>
    cases ht' with
    | allToAll _ => rfl
    | oneToOne hnot _ => exact absurd hall hnot
    | unwired hnot _ => exact absurd hall hnot
  | oneToOne hnot hone =>
    cases ht' with
    | allToAll hall => exact absurd hall hnot
    | oneToOne _ _ => rfl
    | unwired _ hno => exact absurd hone hno
  | unwired hnot hno =>
    cases ht' with
    | allToAll hall => exact absurd hall hnot
    | oneToOne _ hone => exact absurd hone hno
    | unwired _ _ => rfl

theorem wired_iff (h : c.Sound) (hhere : ∀ u ∈ here, u < c.neurons.size) (t : Option Topology) :
    c.wiring? here there = t ↔ c.Wired here there t := by
  constructor
  · rintro rfl
    exact wired_wiring? h hhere
  · exact (wired_wiring? h hhere).unique

/-! ## Queries of circuits within reach -/

theorem relation?_ok (ha : a < c.neurons.size) (b : NeuronId) :
    Edit.relation? a b c = .ok (c.relation? a b) c := by
  have hcheck : c.requireNeuron a = .ok () := requireNeuron_eq_ok_iff.mpr ha
  refine Op.read_of_ok ?_
  rw [hcheck]
  rfl

theorem linkBetween?_ok (ha : a < c.neurons.size) (b : NeuronId) :
    Edit.linkBetween? a b c = .ok (c.linkBetween? a b) c := by
  have hcheck : c.requireNeuron a = .ok () := requireNeuron_eq_ok_iff.mpr ha
  refine Op.read_of_ok ?_
  rw [hcheck]
  rfl

theorem wiring?_ok {x y : EnsembleId} (hx : x < c.ensembles.size) (hy : y < c.ensembles.size)
    (hmembers : ∀ u ∈ c.members x, u < c.neurons.size) :
    Edit.wiring? x y c = .ok (c.wiring? (c.members x) (c.members y)) c := by
  have hcheckx : c.requireEnsemble x = .ok () := requireEnsemble_eq_ok_iff.mpr hx
  have hchecky : c.requireEnsemble y = .ok () := requireEnsemble_eq_ok_iff.mpr hy
  refine Op.read_of_ok ?_
  rw [hcheckx, hchecky, requireSurvey_ok hmembers]
  rfl

/-- In a circuit within reach, all queries about connections succeed and tell what the table of links
says. The link between two neurons is the only one that leads from the first to the second, how they
are related is told by their links and then by the gates of the first, and how two ensembles are wired
is told pair by pair. -/
theorem queries_agree (h : c.Reachable) :
    (∀ a b, a < c.neurons.size → b < c.neurons.size → a ≠ b →
      (∃ p, Edit.linkBetween? a b c = .ok p c ∧ ∀ l, p = some l ↔ c.IsLink a b l) ∧
      (∀ k l, c.IsLink a b k → c.IsLink a b l → k = l) ∧
      (∃ r, Edit.relation? a b c = .ok r c ∧ ∀ q, r = q ↔ c.Related a b q) ∧
      ∀ l, Edit.relation? a b c = .ok (some (.outgoing, l)) c →
        Edit.relation? b a c = .ok (some (.incoming, l)) c) ∧
    ∀ x y, x < c.ensembles.size → y < c.ensembles.size →
      ∃ t, Edit.wiring? x y c = .ok t c ∧ ∀ q, t = q ↔ c.Wired (c.members x) (c.members y) q := by
  have hs : c.Sound := sound_of_reachable h
  have hmembers := (peopled_of_reachable h).members_lt
  refine ⟨fun a b ha hb hne => ⟨?_, fun k l => hs.eq_of_isLink, ?_, fun l hout => ?_⟩,
    fun x y hx hy => ?_⟩
  · exact ⟨_, linkBetween?_ok ha b, fun l => linkBetween?_eq_some_iff hs ha hne⟩
  · exact ⟨_, relation?_ok ha b, related_iff hs ha hne⟩
  · rw [relation?_ok ha b] at hout
    have hfound : c.relation? a b = some (.outgoing, l) := by
      injection hout
    rw [relation?_ok hb a, relation?_symm hs ha hb hne hfound]
  · exact ⟨_, wiring?_ok hx hy (hmembers x), wired_iff hs (hmembers x)⟩

/-- Two ensembles of two neurons wired one to one and with the loops of the first switched on. The first
neuron gates the link back into the second before it gates the earlier link out of it. -/
def facing : Circuit Int :=
  performAll (.empty 0 ⟨7, 2, 1⟩)
    [.addEnsemble 2, .addEnsemble 2, .connect 0 2 (some 1), .connect 1 3 (some 2),
      .connect 3 1 (some 3), .connect 0 0 none, .connect 1 1 none, .gateLink 0 6, .gateLink 0 5]

/-- The first neuron is related to the second by the least link it gates there, and the third to the
first by the link that comes from there. Through its loops, the first ensemble is wired to itself as it
is to the other. -/
theorem queries_agree_facing :
    facing.Reachable ∧ facing.Related 0 1 (some (.gated, 5)) ∧ facing.IsLink 0 2 4 ∧
      Edit.relation? 2 0 facing = .ok (some (.incoming, 4)) facing ∧
      facing.Wired [0, 1] [2, 3] (some .oneToOne) ∧ facing.Wired [0, 1] [0, 1] (some .oneToOne) ∧
      facing.Wired [2, 3] [0, 1] none := by
  have h : facing.Reachable :=
    reachable_performAll (.new 0 ⟨7, 2, 1⟩) (by simp [Request.Grounded])
  have hfour : facing.neurons.size = 4 := by decide +kernel
  have htwo : facing.ensembles.size = 2 := by decide +kernel
  obtain ⟨hpairs, hensembles⟩ := queries_agree h
  rw [hfour] at hpairs
  rw [htwo] at hensembles
  have hgated : Edit.relation? 0 1 facing = .ok (some (.gated, 5)) facing :=
    Op.read_of_ok (by decide +kernel)
  have hout : Edit.relation? 0 2 facing = .ok (some (.outgoing, 4)) facing :=
    Op.read_of_ok (by decide +kernel)
  have hlink : Edit.linkBetween? 0 2 facing = .ok (some 4) facing :=
    Op.read_of_ok (by decide +kernel)
  obtain ⟨-, -, ⟨r, hr, hrelated⟩, -⟩ := hpairs 0 1 (by decide) (by decide) (by decide)
  obtain ⟨⟨p, hp, hisLink⟩, -, -, hback⟩ := hpairs 0 2 (by decide) (by decide) (by decide)
  obtain rfl : some (.gated, 5) = r := by
    injection hgated.symm.trans hr
  obtain rfl : some 4 = p := by
    injection hlink.symm.trans hp
  have hwired : ∀ x y t, x < 2 → y < 2 → Edit.wiring? x y facing = .ok t facing →
      facing.Wired (facing.members x) (facing.members y) t := by
    intro x y t hx hy ht
    obtain ⟨t', ht', hiff⟩ := hensembles x y hx hy
    obtain rfl : t = t' := by
      injection ht.symm.trans ht'
    exact (hiff t).mp rfl
  exact ⟨h, (hrelated _).mp rfl, (hisLink 4).mp rfl, hback 4 hout,
    hwired 0 1 _ (by decide) (by decide) (Op.read_of_ok (by decide +kernel)),
    hwired 0 0 _ (by decide) (by decide) (Op.read_of_ok (by decide +kernel)),
    hwired 1 0 _ (by decide) (by decide) (Op.read_of_ok (by decide +kernel))⟩

end Circuit

end GatedNetwork
