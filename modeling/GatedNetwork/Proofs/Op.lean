import GatedNetwork.Error

/-!
# Outcomes of operations

An operation that checks first and then acts has two outcomes: it fails and leaves the state alone,
or it acts. The lemmas here take sequences of operations apart, so that later proofs speak of the
checks and of the acting parts alone.
-/

namespace GatedNetwork

/-! ## Checks in sequence -/

section Checks

variable {ε β γ : Type}

/-- A sequence succeeds if its first part does, and its second does with what the first one found. -/
theorem bind_eq_ok_iff {x : Except ε β} {f : β → Except ε γ} {b : γ} :
    (x >>= f) = .ok b ↔ ∃ a, x = .ok a ∧ f a = .ok b := by
  cases x with
  | error e => simp [bind, Except.bind]
  | ok a => simp [bind, Except.bind]

theorem mapError_ok {φ : Type} (f : ε → φ) (b : β) :
    (.ok b : Except ε β).mapError f = .ok b := rfl

theorem mapError_error {φ : Type} (f : ε → φ) (e : ε) :
    (.error e : Except ε β).mapError f = .error (f e) := rfl

theorem mapError_eq_ok_iff {φ : Type} {x : Except ε β} {f : ε → φ} {b : β} :
    x.mapError f = .ok b ↔ x = .ok b := by
  cases x with
  | error e => simp [mapError_error]
  | ok a => simp [mapError_ok]

/-- A check that throws lets the rest go on when it finds nothing. -/
theorem throw_bind_eq_ok_iff {p : Prop} [Decidable p] {e : ε} {f : Unit → Except ε β} {b : β} :
    (if p then throw e >>= f else f ()) = .ok b ↔ ¬ p ∧ f () = .ok b := by
  by_cases hp : p
  · rw [if_pos hp]
    exact ⟨nofun, fun h => absurd hp h.1⟩
  · rw [if_neg hp]
    exact ⟨fun h => ⟨hp, h⟩, fun h => h.2⟩

/-- A check of a whole list passes if it passes for every item. -/
theorem forM_eq_ok_iff {f : β → Except Error Unit} {xs : List β} :
    xs.forM f = .ok () ↔ ∀ x ∈ xs, f x = .ok () := by
  induction xs with
  | nil => exact ⟨fun _ _ hx => absurd hx List.not_mem_nil, fun _ => rfl⟩
  | cons x xs ih =>
    show (f x >>= fun _ => xs.forM f) = .ok () ↔ _
    rw [bind_eq_ok_iff, List.forall_mem_cons]
    constructor
    · rintro ⟨_, hx, hxs⟩
      exact ⟨hx, ih.mp hxs⟩
    · rintro ⟨hx, hxs⟩
      exact ⟨(), hx, ih.mpr hxs⟩

/-- A wrong number of values ends a sequence of checks. -/
theorem checkLength_bind_error {what : Sized} {expected got : Nat} (h : expected ≠ got)
    (f : Unit → Except Error β) :
    (checkLength what expected got >>= f) = .error (.sizeMismatch what expected got) := by
  simp [checkLength, require, h, bind, Except.bind]

/-- A check fails for causes of one kind only. -/
def FailsWith (P : Error → Prop) (x : Except Error β) : Prop := ∀ e, x = .error e → P e

namespace FailsWith

variable {P : Error → Prop} {x : Except Error β}

theorem ok (b : β) : FailsWith P (.ok b) := nofun

theorem of_eq_ok {b : β} (h : x = .ok b) : FailsWith P x := h ▸ ok b

theorem error {e : Error} (he : P e) : FailsWith P (.error e : Except Error β) := by
  rintro _ ⟨⟩
  exact he

/-- A sequence fails for causes of the kind if both parts do. -/
theorem bind {f : β → Except Error γ} (h : FailsWith P x)
    (hf : ∀ b, x = .ok b → FailsWith P (f b)) : FailsWith P (x >>= f) := by
  cases x with
  | error e => exact error (h e rfl)
  | ok b => exact hf b rfl

theorem require {p : Bool} {e : Error} (he : p = false → P e) : FailsWith P (require p e) := by
  cases p with
  | true => exact ok ()
  | false => exact error (he rfl)

/-- A check of a whole list fails for causes of the kind if it does so for every item. -/
theorem forM {f : β → Except Error Unit} {xs : List β} (h : ∀ x ∈ xs, FailsWith P (f x)) :
    FailsWith P (xs.forM f) := by
  induction xs with
  | nil => exact ok ()
  | cons x xs ih =>
    obtain ⟨hx, hxs⟩ := List.forall_mem_cons.mp h
    exact hx.bind fun _ _ => ih hxs

theorem mapM {f : β → Except Error γ} {xs : List β} (h : ∀ x ∈ xs, FailsWith P (f x)) :
    FailsWith P (xs.mapM f) := by
  induction xs with
  | nil => exact ok []
  | cons x xs ih =>
    obtain ⟨hx, hxs⟩ := List.forall_mem_cons.mp h
    rw [List.mapM_cons]
    exact hx.bind fun _ _ => (ih hxs).bind fun _ _ => ok _

end FailsWith

/-- No id was followed that names nothing. -/
def Resolved (x : Except Error β) : Prop := FailsWith (fun e => ∀ r, e ≠ .dangling r) x

end Checks

namespace Op

variable {σ β γ π : Type} {s s' : σ}

/-- The state an operation leaves, whatever it answers. -/
def final (op : Op σ β) (s : σ) : σ :=
  match op s with
  | .ok _ s' => s'
  | .error _ s' => s'

/-- The answer of an operation without the state it leaves. -/
def answer (op : Op σ β) (s : σ) : Except Error β :=
  match op s with
  | .ok b _ => .ok b
  | .error e _ => .error e

/-- An operation whose failure is an answer too. -/
def observe (op : Op σ β) : Op σ (Except Error β) := fun s => .ok (op.answer s) (op.final s)

theorem final_of_ok {op : Op σ β} {b : β} (h : op s = .ok b s') : op.final s = s' := by
  simp only [final, h]

theorem final_of_error {op : Op σ β} {e : Error} (h : op s = .error e s') : op.final s = s' := by
  simp only [final, h]

theorem answer_of_ok {op : Op σ β} {b : β} (h : op s = .ok b s') : op.answer s = .ok b := by
  simp only [answer, h]

theorem answer_of_error {op : Op σ β} {e : Error} (h : op s = .error e s') :
    op.answer s = .error e := by
  simp only [answer, h]

/-- An operation that answers without a failure succeeds. -/
theorem ok_of_answer {op : Op σ β} {b : β} (h : op.answer s = .ok b) :
    op s = .ok b (op.final s) := by
  unfold answer at h
  unfold final
  cases hop : op s with
  | ok b' s' =>
    rw [hop] at h
    cases h
    rfl
  | error e s' =>
    rw [hop] at h
    cases h

/-! ## Sequences -/

theorem modifyGet_apply (f : σ → β × σ) (s : σ) :
    (modifyGet f : Op σ β) s = .ok (f s).1 (f s).2 := rfl

theorem bind_of_ok {op : Op σ β} {f : β → Op σ γ} {b : β} (h : op s = .ok b s') :
    (op >>= f) s = f b s' := by
  show EStateM.bind op f s = _
  simp only [EStateM.bind, h]

/-- Where the first part fails, the second does not run. -/
theorem bind_of_error {op : Op σ β} {f : β → Op σ γ} {e : Error} (h : op s = .error e s') :
    (op >>= f) s = .error e s' := by
  show EStateM.bind op f s = _
  simp only [EStateM.bind, h]

theorem map_of_ok {op : Op σ β} {f : β → γ} {b : β} (h : op s = .ok b s') :
    (f <$> op) s = .ok (f b) s' := by
  show EStateM.map f op s = _
  simp only [EStateM.map, h]

theorem map_of_error {op : Op σ β} {f : β → γ} {e : Error} (h : op s = .error e s') :
    (f <$> op) s = .error e s' := by
  show EStateM.map f op s = _
  simp only [EStateM.map, h]

/-- The state does not depend on how the answer is worded. -/
@[simp] theorem final_map (op : Op σ β) (f : β → γ) : (f <$> op).final s = op.final s := by
  cases h : op s with
  | ok b s' => rw [final_of_ok h, final_of_ok (map_of_ok h)]
  | error e s' => rw [final_of_error h, final_of_error (map_of_error h)]

/-! ## Checked operations -/

variable {check : σ → Except Error π} {act : π → σ → β × σ}

/-- A check that answers `plan` makes the operation act on it. -/
theorem checked_of_ok (plan : π) (h : check s = .ok plan) :
    checked check act s = .ok (act plan s).1 (act plan s).2 :=
  checked_ok h

theorem read_of_ok {f : σ → Except Error β} {b : β} (h : f s = .ok b) : read f s = .ok b s :=
  checked_ok h

theorem read_of_error {f : σ → Except Error β} {e : Error} (h : f s = .error e) :
    read f s = .error e s :=
  checked_error h

/-- Reading leaves the state as it is. -/
theorem read_eq_ok {f : σ → Except Error β} {b : β} (h : read f s = .ok b s') :
    f s = .ok b ∧ s' = s := by
  cases hf : f s with
  | error e =>
    rw [read_of_error hf] at h
    cases h
  | ok a =>
    rw [read_of_ok hf] at h
    cases h
    exact ⟨rfl, rfl⟩

/-- A checked operation that succeeds has acted on what its check answered. -/
theorem checked_eq_ok {b : β} (h : checked check act s = .ok b s') :
    ∃ plan, check s = .ok plan ∧ act plan s = (b, s') := by
  cases hc : check s with
  | error e =>
    rw [checked_error hc] at h
    cases h
  | ok plan =>
    rw [checked_of_ok plan hc] at h
    cases h
    exact ⟨plan, rfl, rfl⟩

/-- What holds before a checked operation holds after it, if acting keeps it. -/
theorem checked_final {P : σ → Prop} (h : P s)
    (hact : ∀ plan, check s = .ok plan → P (act plan s).2) : P ((checked check act).final s) := by
  cases hc : check s with
  | error e =>
    rw [final_of_error (checked_error hc)]
    exact h
  | ok plan =>
    rw [final_of_ok (checked_ok hc)]
    exact hact plan hc

/-! ## What operations keep -/

/-- What holds before an operation holds after it, whether it succeeds or fails. -/
def Keeps (P : σ → Prop) (op : Op σ β) : Prop := ∀ s, P s → P (op.final s)

namespace Keeps

variable {P : σ → Prop} {op : Op σ β}

theorem map (h : Keeps P op) (f : β → γ) : Keeps P (f <$> op) := by
  intro s hs
  rw [final_map]
  exact h s hs

theorem of_map {f : β → γ} (h : Keeps P (f <$> op)) : Keeps P op := by
  intro s hs
  rw [← final_map op f]
  exact h s hs

theorem bind {f : β → Op σ γ} (h : Keeps P op) (hf : ∀ b, Keeps P (f b)) :
    Keeps P (op >>= f) := by
  intro s hs
  have hop := h s hs
  cases ho : op s with
  | ok b s' =>
    rw [final_of_ok ho] at hop
    have hbind := hf b s' hop
    unfold final at hbind ⊢
    rwa [bind_of_ok ho]
  | error e s' =>
    rw [final_of_error ho] at hop
    rwa [final_of_error (bind_of_error ho)]

theorem forM {ι : Type} {f : ι → Op σ Unit} (hf : ∀ i, Keeps P (f i)) (is : List ι) :
    Keeps P (is.forM f) := by
  induction is with
  | nil => exact fun _ hs => hs
  | cons i is ih => exact (hf i).bind fun _ => ih

theorem read (check : σ → Except Error β) : Keeps P (read check) :=
  fun _ hs => checked_final hs fun _ _ => hs

end Keeps

/-! ## Ids that are followed -/

/-- From this state the operation meets no id that names nothing. -/
def Anchored (op : Op σ β) (s : σ) : Prop := Resolved (op.answer s)

namespace Anchored

variable {op : Op σ β}

theorem of_ok {b : β} (h : op s = .ok b s') : op.Anchored s := by
  rw [Anchored, answer_of_ok h]
  exact .ok b

theorem of_error {e : Error} (h : op s = .error e s') (he : ∀ r, e ≠ .dangling r) :
    op.Anchored s := by
  rw [Anchored, answer_of_error h]
  exact .error he

theorem map (h : op.Anchored s) (f : β → γ) : (f <$> op).Anchored s := by
  cases ho : op s with
  | ok b s' => exact of_ok (map_of_ok ho)
  | error e s' => exact of_error (map_of_error ho) (h e (answer_of_error ho))

theorem bind {f : β → Op σ γ} (h : op.Anchored s)
    (hf : ∀ b s', op s = .ok b s' → (f b).Anchored s') : (op >>= f).Anchored s := by
  cases ho : op s with
  | ok b s' =>
    have hrest := hf b s' ho
    unfold Anchored answer at hrest ⊢
    rwa [bind_of_ok ho]
  | error e s' => exact of_error (bind_of_error ho) (h e (answer_of_error ho))

theorem checked {check : σ → Except Error π} {act : π → σ → β × σ} (h : Resolved (check s)) :
    (checked check act).Anchored s := by
  cases hc : check s with
  | error e => exact of_error (checked_error hc) (h e hc)
  | ok plan => exact of_ok (checked_ok hc)

theorem read {f : σ → Except Error β} (h : Resolved (f s)) : (Op.read f).Anchored s := checked h

end Anchored

/-! ## Outcomes that are alike -/

/-- Two outcomes with the same answer, in states that are related. -/
inductive Alike {τ : Type} (R : σ → τ → Prop) :
    EStateM.Result Error σ β → EStateM.Result Error τ β → Prop
  | ok (b : β) {s : σ} {t : τ} : R s t → Alike R (.ok b s) (.ok b t)
  | error (e : Error) {s : σ} {t : τ} : R s t → Alike R (.error e s) (.error e t)

namespace Alike

variable {τ υ : Type} {R : σ → τ → Prop} {t : τ} {op : Op σ β} {op' : Op τ β}

/-- Both succeed with one value or both fail for one cause. -/
theorem outcomes (h : Alike R (op s) (op' t)) :
    (∃ b s' t', op s = .ok b s' ∧ op' t = .ok b t' ∧ R s' t') ∨
      ∃ e s' t', op s = .error e s' ∧ op' t = .error e t' ∧ R s' t' := by
  generalize op s = x at h ⊢
  generalize op' t = y at h ⊢
  cases h with
  | ok b hR => exact .inl ⟨b, _, _, rfl, rfl, hR⟩
  | error e hR => exact .inr ⟨e, _, _, rfl, rfl, hR⟩

/-- Outcomes that are alike have one answer. -/
theorem answer_eq (h : Alike R (op s) (op' t)) : op.answer s = op'.answer t := by
  unfold answer
  rcases h.outcomes with ⟨b, _, _, hx, hy, -⟩ | ⟨e, _, _, hx, hy, -⟩
  · rw [hx, hy]
  · rw [hx, hy]

/-- Outcomes that are alike leave related states. -/
theorem final (h : Alike R (op s) (op' t)) : R (op.final s) (op'.final t) := by
  rcases h.outcomes with ⟨b, _, _, hx, hy, hR⟩ | ⟨e, _, _, hx, hy, hR⟩
  · rwa [final_of_ok hx, final_of_ok hy]
  · rwa [final_of_error hx, final_of_error hy]

theorem map (h : Alike R (op s) (op' t)) (f : β → γ) : Alike R ((f <$> op) s) ((f <$> op') t) := by
  rcases h.outcomes with ⟨b, _, _, hx, hy, hR⟩ | ⟨e, _, _, hx, hy, hR⟩
  · rw [map_of_ok hx, map_of_ok hy]
    exact .ok _ hR
  · rw [map_of_error hx, map_of_error hy]
    exact .error e hR

/-- Sequences that go on alike after a first part that is alike. -/
theorem bind {f : β → Op σ γ} {f' : β → Op τ γ} (h : Alike R (op s) (op' t))
    (hf : ∀ b s' t', op s = .ok b s' → op' t = .ok b t' → R s' t' →
      Alike R (f b s') (f' b t')) : Alike R ((op >>= f) s) ((op' >>= f') t) := by
  rcases h.outcomes with ⟨b, _, _, hx, hy, hR⟩ | ⟨e, _, _, hx, hy, hR⟩
  · rw [bind_of_ok hx, bind_of_ok hy]
    exact hf b _ _ hx hy hR
  · rw [bind_of_error hx, bind_of_error hy]
    exact .error e hR

theorem observe (h : Alike R (op s) (op' t)) : Alike R (op.observe s) (op'.observe t) := by
  rw [Op.observe, Op.observe, h.answer_eq]
  exact .ok _ h.final

theorem forM {ι : Type} {f : ι → Op σ Unit} {f' : ι → Op τ Unit}
    (hf : ∀ i s t, R s t → Alike R (f i s) (f' i t)) (is : List ι) (hR : R s t) :
    Alike R (is.forM f s) (is.forM f' t) := by
  induction is generalizing s t with
  | nil => exact .ok () hR
  | cons i is ih => exact (hf i s t hR).bind fun _ _ _ _ _ hR' => ih hR'

/-- Checks that agree, and actions that answer the same and keep the states related. -/
theorem checked {check : σ → Except Error π} {check' : τ → Except Error π}
    {act : π → σ → β × σ} {act' : π → τ → β × τ} (hR : R s t) (hcheck : check s = check' t)
    (hact : ∀ plan, check' t = .ok plan →
      (act plan s).1 = (act' plan t).1 ∧ R (act plan s).2 (act' plan t).2) :
    Alike R (checked check act s) (checked check' act' t) := by
  cases hc : check' t with
  | error e =>
    rw [checked_error (hcheck.trans hc), checked_error hc]
    exact .error e hR
  | ok plan =>
    obtain ⟨hanswer, hR'⟩ := hact plan hc
    rw [checked_ok (hcheck.trans hc), checked_ok hc, hanswer]
    exact .ok _ hR'

theorem read {check : σ → Except Error β} {check' : τ → Except Error β} (hR : R s t)
    (h : check s = check' t) : Alike R (Op.read check s) (Op.read check' t) :=
  checked hR h fun _ _ => ⟨rfl, hR⟩

theorem mono {S : σ → τ → Prop} {x : EStateM.Result Error σ β} {y : EStateM.Result Error τ β}
    (h : Alike R x y) (hRS : ∀ s t, R s t → S s t) : Alike S x y := by
  cases h with
  | ok b hR => exact .ok b (hRS _ _ hR)
  | error e hR => exact .error e (hRS _ _ hR)

end Alike

end Op

end GatedNetwork
