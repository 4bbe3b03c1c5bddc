import GatedNetwork.Proofs.Workspace.Session

/-!
# Layer sets and their circuits

No circuit takes the layer set of another one, in whatever order circuits and networks are made,
copied, taken apart and changed. Two facts carry this through a session:

* `Apart` — the circuits at hand have different identities, all of them used up, and every network owns
  its layer set
* `Later` — a circuit at hand later is what became of a circuit at hand before, or has an identity that
  was not used up before; a network keeps its layer set

Both follow from what one move does to the circuits, `change_move`, and to the networks,
`network_move`.
-/

namespace GatedNetwork

variable {α : Type} [Arithmetic α]

/-! ## Taking and refusing a layer set -/

namespace Circuit

variable {c : Circuit α} {layers : Layers}

/-- No projection onto the layer set is made from any ensemble of the circuit, neither in the circuit
itself nor in any network over it, and nothing is changed by the attempt. -/
structure Refuses (c : Circuit α) (layers : Layers) : Prop where
  resolve : c.resolve (.layers layers) = .error (.destination .foreignLayers)
  project : ∀ source topology weight, Edit.project source (.layers layers) topology weight c =
    .error (.destination (if c.hasEnsemble source then .foreignLayers else .unknownSource source)) c
  network : ∀ n : Network α, n.circuit = c → ∀ topology weight,
    Network.project (.layers layers) topology weight n = .error (.destination .foreignLayers) n

/-- Projections onto the layer set are projections onto its input. -/
structure Takes (c : Circuit α) (layers : Layers) : Prop where
  resolve : c.resolve (.layers layers) = .ok layers.input
  project : ∀ source topology weight, Edit.project source (.layers layers) topology weight c =
    Edit.project source (.ensemble layers.input) topology weight c
  network : ∀ n : Network α, n.circuit = c → ∀ topology weight,
    Network.project (.layers layers) topology weight n =
      Network.project (.ensemble layers.input) topology weight n

theorem refuses_of_owner {owner : Identity} (howner : layers.circuit = some owner)
    (hne : owner ≠ c.identity) : c.Refuses layers := by
  have hresolve : c.resolve (.layers layers) = .error (.destination .foreignLayers) := by
    simp [Circuit.resolve, entrance, howner, require, hne, bind, Except.bind]
  refine ⟨hresolve, fun source topology weight => ?_, ?_⟩
  · refine Op.checked_error ?_
    unfold planProjection
    by_cases hsource : c.hasEnsemble source = true
    · simp [require, hsource, hresolve, bind, Except.bind]
    · simp [require, hsource, bind, Except.bind]
  · rintro n rfl topology weight
    exact Network.project_error hresolve topology weight

theorem takes_of_owner (howner : ∀ owner, layers.circuit = some owner → owner = c.identity)
    (hinput : c.hasEnsemble layers.input = true) : c.Takes layers := by
  have hentrance : c.entrance (.layers layers) = .ok layers.input := by
    cases hlayers : layers.circuit with
    | none => simp only [entrance, hlayers]; rfl
    | some owner => simp [entrance, hlayers, howner owner hlayers, require, bind, Except.bind]; rfl
  have hlayers : c.resolve (.layers layers) = .ok layers.input :=
    resolve_eq_ok_iff.mpr ⟨hentrance, hinput⟩
  have hensemble : c.resolve (.ensemble layers.input) = .ok layers.input :=
    resolve_eq_ok_iff.mpr ⟨rfl, hinput⟩
  refine ⟨hlayers, fun source topology weight => ?_, ?_⟩
  · have hplan : c.planProjection source (.layers layers) topology =
        c.planProjection source (.ensemble layers.input) topology := by
      unfold planProjection
      rw [hlayers, hensemble]
    simp only [Edit.project, Op.checked, hplan]
  · rintro n rfl topology weight
    have hproject : ∀ destination, n.circuit.resolve destination = .ok layers.input →
        Network.project destination topology weight n =
          (do
            Network.invalidate
            Network.onCircuit (Edit.project (← get).layers.output (.ensemble layers.input) topology
              weight) : Op (Network α) ProjectionId) n := by
      intro destination h
      have hread : Op.read (fun n : Network α => n.circuit.resolve destination) n =
          .ok layers.input n := Op.read_of_ok h
      exact Op.bind_of_ok hread
    rw [hproject _ hlayers, hproject _ hensemble]

end Circuit

namespace Session

open Circuit Network
open scoped List

variable {s t u : Session α}

/-! ## One move -/

/-- What a move does to the circuits at hand, in whatever order they stand. -/
inductive Change (s t : Session α) : Prop where
  | kept : s.workspace.next ≤ t.workspace.next → t.circuits <+~ s.circuits → Change s t
  | altered {c d : Circuit α} {rest : List (Circuit α)} : t.workspace.next = s.workspace.next →
      s.circuits ~ c :: rest → t.circuits ~ d :: rest → Descends c d → Change s t
  | added {d : Circuit α} : t.workspace.next = s.workspace.next + 1 →
      d.identity = s.workspace.next → t.circuits ~ d :: s.circuits → Change s t

omit [Arithmetic α] in
theorem inner_push (ns : Array (Option (Network α))) (n : Network α) :
    inner (ns.push (some n)) = inner ns ++ [n.circuit] := by
  simp [inner]

omit [Arithmetic α] in
/-- Setting one network leaves the circuits of the others. -/
theorem inner_setIfInBounds {ns : Array (Option (Network α))} {i : Nat} {n : Network α}
    (h : ns[i]? = some (some n)) :
    ∃ rest, inner ns ~ n.circuit :: rest ∧
      ∀ m, inner (ns.setIfInBounds i m) ~ (m.map (·.circuit)).toList ++ rest := by
  obtain ⟨hi, hn⟩ := Array.getElem?_eq_some_iff.mp h
  have hi' : i < ns.toList.length := by simpa using hi
  have hn' : ns.toList[i] = some n := by simpa using hn
  refine ⟨(ns.toList.eraseIdx i).filterMap (Option.map fun n => n.circuit), ?_, fun m => ?_⟩
  · have hns := (List.getElem_cons_eraseIdx_perm hi').symm.filterMap
      (Option.map fun n : Network α => n.circuit)
    rw [hn'] at hns
    exact hns
  · have hset := (List.set_perm_cons_eraseIdx hi' m).filterMap
      (Option.map fun n : Network α => n.circuit)
    unfold inner
    rw [Array.toList_setIfInBounds]
    cases m with
    | none => exact hset
    | some m => exact hset

omit [Arithmetic α] in
theorem change_move (h : Move s t) : Change s t := by
  cases h with
  | tick => exact .kept (Nat.le_succ _) (.refl _)
  | alter hcd => exact .altered rfl (.refl _) (.refl _) hcd
  | @alterNetwork k c ns p as i n m hn _ hcircuit =>
    obtain ⟨rest, hbefore, hafter⟩ := inner_setIfInBounds hn
    have hlist : ∀ {ms : Array (Option (Network α))} {d : Circuit α},
        inner ms ~ d :: rest → (⟨⟨k, c, ms, p⟩, as⟩ : Session α).circuits ~ d :: c :: (as ++ rest) := by
      intro ms d hms
      exact ((hms.append_left as).trans List.perm_middle).cons c |>.trans (.swap d c _)
    exact .altered rfl (hlist hbefore) (hlist (hafter (some m))) hcircuit
  | renew hd => exact .added rfl hd (.refl _)
  | drop => exact .kept (Nat.le_refl _) ((List.sublist_cons_self _ _).cons_cons _).subperm
  | @found k c ns p a as n ha _ =>
    refine .kept (Nat.le_refl _) (List.Perm.subperm ?_)
    have hlist : as ++ (inner ns ++ [a]) ~ a :: as ++ inner ns := by
      rw [← List.append_assoc]
      exact List.perm_append_singleton a _
    simp only [circuits, inner_push, ha]
    exact hlist.cons c
  | @adopt k c ns p as n hn _ =>
    refine .added rfl hn ?_
    simp only [circuits, inner_push]
    rw [← List.append_assoc]
    exact ((List.perm_append_singleton n.circuit _).cons c).trans (.swap _ _ _)
  | @release k c ns p q as i n hn =>
    obtain ⟨rest, hbefore, hafter⟩ := inner_setIfInBounds hn
    refine .kept (Nat.le_refl _) (List.Perm.subperm (List.Perm.cons c ?_))
    calc n.circuit :: as ++ inner (ns.setIfInBounds i none)
        ~ n.circuit :: as ++ rest := (hafter none).append_left _
      _ ~ as ++ n.circuit :: rest := List.perm_middle.symm
      _ ~ as ++ inner ns := (hbefore.append_left as).symm
  | @bring k c ns p a as j ha =>
    obtain ⟨hj, rfl⟩ := List.getElem?_eq_some_iff.mp ha
    refine .kept (Nat.le_refl _) (List.Perm.subperm ?_)
    have hbefore : as[j] :: as.eraseIdx j ~ as := List.getElem_cons_eraseIdx_perm hj
    have hafter : as.set j c ~ c :: as.eraseIdx j := List.set_perm_cons_eraseIdx hj c
    calc as[j] :: (as.set j c ++ inner ns)
        ~ as[j] :: (c :: as.eraseIdx j ++ inner ns) := (hafter.append_right _).cons _
      _ ~ c :: (as[j] :: as.eraseIdx j ++ inner ns) := .swap _ _ _
      _ ~ c :: (as ++ inner ns) := (hbefore.append_right _).cons c

omit [Arithmetic α] in
theorem entry_of_push {ns : Array (Option (Network α))} {n m : Network α} {i : Nat}
    (h : (ns.push (some n))[i]? = some (some m)) :
    ns[i]? = some (some m) ∨ (ns.size ≤ i ∧ m = n) := by
  rw [Array.getElem?_push] at h
  split at h
  · exact .inr ⟨by lia, by simpa using h.symm⟩
  · exact .inl h

omit [Arithmetic α] in
theorem entry_of_setIfInBounds {ns : Array (Option (Network α))} {entry : Option (Network α)}
    {m : Network α} {i j : Nat} (h : (ns.setIfInBounds j entry)[i]? = some (some m)) :
    ns[i]? = some (some m) ∨ (j = i ∧ entry = some m) := by
  rw [Array.getElem?_setIfInBounds] at h
  split at h
  · rename_i hji
    split at h
    · exact .inr ⟨hji, Option.some.inj h⟩
    · exact nomatch h
  · exact .inl h

omit [Arithmetic α] in
/-- What a move does to the networks: one may come behind the others, be changed or be gone. -/
theorem network_move (h : Move s t) {i : Nat} {m : Network α}
    (hm : t.workspace.network? i = some m) :
    (∃ n, s.workspace.network? i = some n ∧ m.layers = n.layers ∧ Descends n.circuit m.circuit) ∨
      (s.workspace.networks.size ≤ i ∧ Bound m) := by
  have hsame : s.workspace.network? i = some m →
      ∃ n, s.workspace.network? i = some n ∧ m.layers = n.layers ∧ Descends n.circuit m.circuit :=
    fun hm => ⟨m, hm, rfl, .refl _⟩
  cases h with
  | tick => exact .inl (hsame hm)
  | alter => exact .inl (hsame hm)
  | alterNetwork hn hlayers hcircuit =>
    rcases entry_of_setIfInBounds (network?_eq_some.mp hm) with hm | ⟨rfl, hentry⟩
    · exact .inl (hsame (network?_eq_some.mpr hm))
    · obtain rfl := Option.some.inj hentry
      exact .inl ⟨_, network?_eq_some.mpr hn, hlayers, hcircuit⟩
  | renew => exact .inl (hsame hm)
  | drop => exact .inl (hsame hm)
  | found _ hbound =>
    rcases entry_of_push (network?_eq_some.mp hm) with hm | ⟨hi, rfl⟩
    · exact .inl (hsame (network?_eq_some.mpr hm))
    · exact .inr ⟨hi, hbound⟩
  | adopt _ hbound =>
    rcases entry_of_push (network?_eq_some.mp hm) with hm | ⟨hi, rfl⟩
    · exact .inl (hsame (network?_eq_some.mpr hm))
    · exact .inr ⟨hi, hbound⟩
  | release =>
    rcases entry_of_setIfInBounds (network?_eq_some.mp hm) with hm | ⟨_, hentry⟩
    · exact .inl (hsame (network?_eq_some.mpr hm))
    · exact nomatch hentry
  | bring => exact .inl (hsame hm)

omit [Arithmetic α] in
theorem size_networks_move (h : Move s t) :
    s.workspace.networks.size ≤ t.workspace.networks.size := by
  cases h <;> simp

/-! ## Identities -/

/-- The circuits at hand have different identities, all of them used up, and every network owns its
layer set. -/
structure Apart (s : Session α) : Prop where
  distinct : (s.circuits.map (·.identity)).Nodup
  used : ∀ c ∈ s.circuits, c.identity < s.workspace.next
  bound : ∀ i n, s.workspace.network? i = some n → Bound n

omit [Arithmetic α] in
theorem apart_start (settings : Settings α) : Apart (start settings) where
  distinct := List.nodup_singleton _
  used := by
    intro c hc
    obtain rfl : c = .empty 0 settings := by simpa [circuits, inner, start, Workspace.start] using hc
    exact Nat.zero_lt_one
  bound := by
    intro i n hn
    simp [start, Workspace.start, Workspace.network?] at hn

omit [Arithmetic α] in
/-- A network goes on to own its layer set. -/
theorem Bound.descends {n m : Network α} (h : Bound n) (hlayers : m.layers = n.layers)
    (hcircuit : Descends n.circuit m.circuit) : Bound m where
  owner := by rw [hlayers, h.owner, hcircuit.identity]
  input := by
    rw [hlayers]
    exact hcircuit.grows.ensembles _ h.input

omit [Arithmetic α] in
theorem apart_move (hs : Apart s) (h : Move s t) : Apart t := by
  have hbound : ∀ i m, t.workspace.network? i = some m → Bound m := by
    intro i m hm
    rcases network_move h hm with ⟨n, hn, hlayers, hcircuit⟩ | ⟨_, hm⟩
    · exact (hs.bound i n hn).descends hlayers hcircuit
    · exact hm
  cases change_move h with
  | kept hnext hsub =>
    refine ⟨?_, fun c hc => Nat.lt_of_lt_of_le (hs.used c (hsub.subset hc)) hnext, hbound⟩
    obtain ⟨l, hperm, hl⟩ := hsub
    exact (hperm.map _).nodup_iff.mp ((hl.map _).nodup hs.distinct)
  | @altered c d rest hnext hbefore hafter hcd =>
    have hmap : (t.circuits.map (·.identity)) ~ s.circuits.map (·.identity) := by
      have hd := hafter.map (·.identity)
      rw [List.map_cons, hcd.identity, ← List.map_cons] at hd
      exact hd.trans (hbefore.map _).symm
    refine ⟨hmap.nodup_iff.mpr hs.distinct, fun e he => ?_, hbound⟩
    rw [hnext]
    obtain ⟨e', he', hidentity⟩ :=
      List.mem_map.mp (hmap.subset (List.mem_map_of_mem (f := fun e : Circuit α => e.identity) he))
    exact hidentity ▸ hs.used e' he'
  | @added d hnext hd hafter =>
    refine ⟨?_, fun e he => ?_, hbound⟩
    · rw [(hafter.map _).nodup_iff, List.map_cons, List.nodup_cons]
      refine ⟨fun hmem => ?_, hs.distinct⟩
      obtain ⟨e, he, hidentity⟩ := List.mem_map.mp hmem
      exact Nat.lt_irrefl _ (hidentity ▸ hd ▸ hs.used e he)
    · rw [hnext]
      rcases List.mem_cons.mp (hafter.subset he) with rfl | he
      · exact hd ▸ Nat.lt_succ_self _
      · exact Nat.lt_succ_of_lt (hs.used e he)

/-! ## What was before -/

/-- How a session may stand to the same session before. -/
structure Later (s t : Session α) : Prop where
  next : s.workspace.next ≤ t.workspace.next
  circuits : ∀ d ∈ t.circuits, (∃ c ∈ s.circuits, Descends c d) ∨ s.workspace.next ≤ d.identity
  size : s.workspace.networks.size ≤ t.workspace.networks.size
  networks : ∀ i m, t.workspace.network? i = some m →
    (∃ n, s.workspace.network? i = some n ∧ m.layers = n.layers ∧ Descends n.circuit m.circuit) ∨
      s.workspace.networks.size ≤ i

omit [Arithmetic α] in
theorem Later.refl (s : Session α) : Later s s where
  next := Nat.le_refl _
  circuits := fun d hd => .inl ⟨d, hd, .refl d⟩
  size := Nat.le_refl _
  networks := fun _ m hm => .inl ⟨m, hm, rfl, .refl _⟩

omit [Arithmetic α] in
theorem Later.trans (h : Later s t) (h' : Later t u) : Later s u where
  next := Nat.le_trans h.next h'.next
  circuits := by
    intro e he
    rcases h'.circuits e he with ⟨d, hd, hde⟩ | hnew
    · rcases h.circuits d hd with ⟨c, hc, hcd⟩ | hnew
      · exact .inl ⟨c, hc, hcd.trans hde⟩
      · exact .inr (hde.identity ▸ hnew)
    · exact .inr (Nat.le_trans h.next hnew)
  size := Nat.le_trans h.size h'.size
  networks := by
    intro i k hk
    rcases h'.networks i k hk with ⟨m, hm, hmk, hdescends⟩ | hnew
    · rcases h.networks i m hm with ⟨n, hn, hnm, hdescends'⟩ | hnew
      · exact .inl ⟨n, hn, hmk.trans hnm, hdescends'.trans hdescends⟩
      · exact .inr hnew
    · exact .inr (Nat.le_trans h.size hnew)

omit [Arithmetic α] in
theorem later_move (h : Move s t) : Later s t where
  next := by
    cases change_move h with
    | kept hnext _ => exact hnext
    | altered hnext => exact Nat.le_of_eq hnext.symm
    | added hnext => exact hnext ▸ Nat.le_succ _
  circuits := by
    intro e he
    cases change_move h with
    | kept _ hsub => exact .inl ⟨e, hsub.subset he, .refl e⟩
    | @altered c d rest _ hbefore hafter hcd =>
      rcases List.mem_cons.mp (hafter.subset he) with rfl | he
      · exact .inl ⟨c, hbefore.symm.subset List.mem_cons_self, hcd⟩
      · exact .inl ⟨e, hbefore.symm.subset (List.mem_cons_of_mem c he), .refl e⟩
    | added _ hd hafter =>
      rcases List.mem_cons.mp (hafter.subset he) with rfl | he
      · exact .inr (Nat.le_of_eq hd.symm)
      · exact .inl ⟨e, he, .refl e⟩
  size := size_networks_move h
  networks := fun _ _ hm => (network_move h hm).imp_right And.left

/-! ## Sessions of any length -/

omit [Arithmetic α] in
theorem apart_moves (hs : Apart s) (h : Moves s t) : Apart t ∧ Later s t := by
  induction h with
  | refl => exact ⟨hs, .refl s⟩
  | tail _ hstep ih => exact ⟨apart_move ih.1 hstep, ih.2.trans (later_move hstep)⟩

theorem apart_run (hs : Apart s) (es : List (Event α)) : Apart (s.run es) ∧ Later s (s.run es) := by
  induction es generalizing s with
  | nil => exact ⟨hs, .refl s⟩
  | cons e es ih =>
    obtain ⟨ht, hlater⟩ := apart_moves hs (moves_event hs.bound e)
    exact ⟨(ih ht).1, hlater.trans (ih ht).2⟩

/-! ## Layer sets -/

omit [Arithmetic α] in
theorem circuit_mem {i : Nat} {n : Network α} (hn : s.workspace.network? i = some n) :
    n.circuit ∈ s.circuits := by
  have hmem : some n ∈ s.workspace.networks.toList := by
    obtain ⟨hi, hn⟩ := Array.getElem?_eq_some_iff.mp (network?_eq_some.mp hn)
    exact hn ▸ Array.getElem_mem_toList hi
  have hinner : n.circuit ∈ inner s.workspace.networks :=
    List.mem_filterMap.mpr ⟨some n, hmem, rfl⟩
  exact List.mem_cons_of_mem _ (List.mem_append_right _ hinner)

omit [Arithmetic α] in
/-- Two networks have different identities. -/
theorem Apart.identity_ne (hs : Apart s) {i j : Nat} {n m : Network α} (hij : i ≠ j)
    (hn : s.workspace.network? i = some n) (hm : s.workspace.network? j = some m) :
    n.circuit.identity ≠ m.circuit.identity := by
  have hinner : (inner s.workspace.networks).Pairwise fun c d => c.identity ≠ d.identity :=
    (List.pairwise_append.mp (List.pairwise_cons.mp (List.pairwise_map.mp hs.distinct)).2).2.1
  have hpairs := List.pairwise_iff_getElem.mp (List.pairwise_filterMap.mp hinner)
  obtain ⟨hi, hn⟩ := Array.getElem?_eq_some_iff.mp (network?_eq_some.mp hn)
  obtain ⟨hj, hm⟩ := Array.getElem?_eq_some_iff.mp (network?_eq_some.mp hm)
  rcases Nat.lt_or_gt_of_ne hij with hlt | hlt
  · exact hpairs i j hi hj hlt n.circuit (by simp [hn]) m.circuit (by simp [hm])
  · exact (hpairs j i hj hi hlt m.circuit (by simp [hm]) n.circuit (by simp [hn])).symm

omit [Arithmetic α] in
/-- A circuit that has the identity of an earlier one is what became of it. -/
theorem Later.descends (h : Later s t) (hs : Apart s) {c d : Circuit α} (hc : c ∈ s.circuits)
    (hd : d ∈ t.circuits) (hidentity : d.identity = c.identity) : Descends c d := by
  rcases h.circuits d hd with ⟨e, he, hed⟩ | hnew
  · obtain rfl : e = c := List.inj_on_of_nodup_map hs.distinct he hc (hed.identity ▸ hidentity)
    exact hed
  · exact absurd (hidentity ▸ hs.used c hc) (Nat.not_lt.mpr hnew)

/-- Which layer sets the circuits of a session take, those from an earlier time of the same session
among them. -/
structure Guarded (s t : Session α) : Prop where
  /-- Different circuits have different identities. -/
  distinct : (t.circuits.map (·.identity)).Nodup
  /-- The layer set of a network is bound to its own circuit. -/
  bound : ∀ i n, t.workspace.network? i = some n → n.layers.circuit = some n.circuit.identity
  /-- A layer set bound to any other circuit is refused. -/
  refused : ∀ c ∈ t.circuits, ∀ (layers : Layers) owner, layers.circuit = some owner →
    owner ≠ c.identity → c.Refuses layers
  /-- The layer set of any other network is. -/
  others : ∀ i j n m, i ≠ j → t.workspace.network? i = some n → t.workspace.network? j = some m →
    n.circuit.Refuses m.layers
  /-- The layer set that a network had is taken by what became of its circuit, which need not be in the
  network any more, and by no other circuit. -/
  earlier : ∀ i n, s.workspace.network? i = some n → ∀ c ∈ t.circuits,
    (Descends n.circuit c ∧ c.Takes n.layers) ∨
      (c.identity ≠ n.circuit.identity ∧ c.Refuses n.layers)
  /-- A network takes the layer set that it had. -/
  own : ∀ i n m, s.workspace.network? i = some n → t.workspace.network? i = some m →
    m.layers = n.layers ∧ m.circuit.Takes n.layers
  /-- A layer set that is not bound is taken if its input is there. -/
  unbound : ∀ c ∈ t.circuits, ∀ layers : Layers, layers.circuit = none →
    c.hasEnsemble layers.input = true → c.Takes layers

theorem guarded_of_later (hs : Apart s) (ht : Apart t) (h : Later s t) : Guarded s t where
  distinct := ht.distinct
  bound := fun i n hn => (ht.bound i n hn).owner
  refused := fun c _ layers owner howner hne => refuses_of_owner howner hne
  others := fun i j n m hij hn hm =>
    refuses_of_owner (ht.bound j m hm).owner (ht.identity_ne hij.symm hm hn)
  earlier := by
    intro i n hn c hc
    have howner : n.layers.circuit = some n.circuit.identity := (hs.bound i n hn).owner
    by_cases hidentity : c.identity = n.circuit.identity
    · have hdescends := h.descends hs (circuit_mem hn) hc hidentity
      refine .inl ⟨hdescends, takes_of_owner (fun owner ho => ?_) ?_⟩
      · rw [howner, Option.some.injEq] at ho
        exact ho.symm.trans hidentity.symm
      · exact hdescends.grows.ensembles _ (hs.bound i n hn).input
    · exact .inr ⟨hidentity, refuses_of_owner howner (Ne.symm hidentity)⟩
  own := by
    intro i n m hn hm
    have hi : i < s.workspace.networks.size :=
      (Array.getElem?_eq_some_iff.mp (network?_eq_some.mp hn)).1
    rcases h.networks i m hm with ⟨n', hn', hlayers, _⟩ | hnew
    · obtain rfl : n = n' := Option.some.inj (hn.symm.trans hn')
      refine ⟨hlayers, hlayers ▸ takes_of_owner (fun owner ho => ?_) (ht.bound i m hm).input⟩
      rw [(ht.bound i m hm).owner, Option.some.injEq] at ho
      exact ho.symm
    · exact absurd hi (Nat.not_lt.mpr hnew)
  unbound := fun c _ layers hnone hinput => takes_of_owner (by simp [hnone]) hinput

/-- However a session goes on, no circuit takes the layer set of another one, and the circuit of a
network goes on to take the layer set of the network. -/
theorem guarded_run (settings : Settings α) (es fs : List (Event α)) :
    Guarded ((start settings).run es) ((start settings).run (es ++ fs)) := by
  have hs : Apart ((start settings).run es) := (apart_run (apart_start settings) es).1
  have hrun : (start settings).run (es ++ fs) = ((start settings).run es).run fs :=
    List.foldl_append
  obtain ⟨ht, hlater⟩ := apart_run hs fs
  rw [hrun]
  exact guarded_of_later hs ht hlater

end Session

end GatedNetwork
