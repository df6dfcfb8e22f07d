import GroupedView.Bisect

/-!
# GroupedView.Proofs.Returns — what an effectful computation can answer

The functions that arrange a view run in a monad, so that each of their calls may answer
differently.  `MonadAttach.CanReturn x a` says that `a` is a possible answer of `x`; for a state
monad that is an answer from some state.  The lemmas here read such a fact backwards through the
constructions that the library uses: refusals, lifted effects, folds, and the search by halving.
-/

open MonadAttach (CanReturn)
open LawfulMonadAttach

namespace GroupedView

section

variable {m : Type → Type} [Monad m] [LawfulMonad m] [MonadAttach m] [LawfulMonadAttach m]
variable {α β ε : Type}

omit [MonadAttach m] [LawfulMonadAttach m] in
/-- After a refusal nothing more is done. -/
theorem throw_bind {e : ε} (f : α → ExceptT ε m β) : throw e >>= f = throw e :=
  ExceptT.ext (by rw [ExceptT.run_bind, ExceptT.run_throw, pure_bind]; rfl)

omit [MonadAttach m] [LawfulMonadAttach m] in
theorem lift_pure (a : α) : (ExceptT.lift (pure a) : ExceptT ε m α) = pure a :=
  ExceptT.ext (by rw [ExceptT.run_lift, map_pure, ExceptT.run_pure])

omit [MonadAttach m] [LawfulMonadAttach m] in
theorem lift_bind (x : m α) (f : α → m β) :
    (ExceptT.lift (x >>= f) : ExceptT ε m β) = ExceptT.lift x >>= fun a => ExceptT.lift (f a) := by
  refine ExceptT.ext ?_
  simp [ExceptT.run_bind, ExceptT.run_lift]

omit [MonadAttach m] [LawfulMonadAttach m] in
/-- A fold that is seen through a map is a fold of what is seen of its steps. -/
theorem map_foldlM {γ : Type} {f : β → α → m β} {g : β → γ} {step : γ → α → m γ}
    (hstep : ∀ s a, g <$> f s a = step (g s) a) (l : List α) (s : β) :
    g <$> l.foldlM f s = l.foldlM step (g s) := by
  induction l generalizing s with
  | nil => rw [List.foldlM_nil, List.foldlM_nil, map_pure]
  | cons a l ih =>
    rw [List.foldlM_cons, List.foldlM_cons, map_bind, ← hstep, bind_map_left]
    exact bind_congr ih

theorem not_canReturn_throw {e : ε} {a : α} : ¬ CanReturn (throw e : ExceptT ε m α) a := by
  intro h
  have h' : CanReturn (m := m) (pure (.error e)) (.ok a : Except ε α) := h
  cases eq_of_canReturn_pure h'

theorem canReturn_lift {x : m α} {a : α} (h : CanReturn (ExceptT.lift x : ExceptT ε m α) a) :
    CanReturn x a := by
  have h' : CanReturn (m := m) (Except.ok <$> x) (.ok a : Except ε α) := h
  obtain ⟨b, hb, he⟩ := canReturn_map_imp' h'
  cases he
  exact hb

theorem eq_ok_of_canReturn_mk {x : Except ε α} {a : α}
    (h : CanReturn (ExceptT.mk (pure x) : ExceptT ε m α) a) : x = .ok a :=
  eq_of_canReturn_pure (m := m) h

/-- Where each element has one possible answer, so has the list. -/
theorem eq_map_of_canReturn_mapM {f : α → m β} {g : α → β}
    (hg : ∀ a b, CanReturn (f a) b → b = g a) {l : List α} {bs : List β}
    (h : CanReturn (l.mapM f) bs) : bs = l.map g := by
  induction l generalizing bs with
  | nil =>
    rw [List.mapM_nil] at h
    exact (eq_of_canReturn_pure h).symm
  | cons a l ih =>
    rw [List.mapM_cons] at h
    obtain ⟨b, hb, h⟩ := canReturn_bind_imp' h
    obtain ⟨bs', hbs, h⟩ := canReturn_bind_imp' h
    rw [← eq_of_canReturn_pure h, List.map_cons, hg a b hb, ih hbs]

/-- What every step of a fold keeps holds of each of its answers. -/
theorem canReturn_foldlM {f : β → α → m β} {I : β → Prop}
    (step : ∀ s a s', I s → CanReturn (f s a) s' → I s') {l : List α} {s s' : β} (hs : I s)
    (h : CanReturn (l.foldlM f s) s') : I s' := by
  induction l generalizing s with
  | nil =>
    rw [List.foldlM_nil] at h
    cases eq_of_canReturn_pure h
    exact hs
  | cons a l ih =>
    rw [List.foldlM_cons] at h
    obtain ⟨t, ht, h⟩ := canReturn_bind_imp' h
    exact ih (step s a t hs ht) h

/-- A search ends at or beside a place by what its probe answered there. -/
theorem canReturn_bisect {n : Nat} {probe : Fin n → m Ordering} {s : Slot}
    (h : CanReturn (bisect probe) s) :
    (n = 0 ∧ s = .gap 0) ∨ ∃ i o, CanReturn (probe i) o ∧ s = .beside i o := by
  unfold bisect at h
  split at h
  · next hn => exact .inl ⟨hn, (eq_of_canReturn_pure h).symm⟩
  · obtain ⟨i, -, h⟩ := canReturn_bind_imp' h
    obtain ⟨o, ho, h⟩ := canReturn_bind_imp' h
    exact .inr ⟨i, o, ho, (eq_of_canReturn_pure h).symm⟩

end

/-- Without effects, what a computation comes to is what it can return. -/
theorem canReturn_of_eq_pure {α ε : Type} {x : ExceptT ε Id α} {a : α} (h : x = pure a) :
    CanReturn x a := by
  subst h
  exact rfl

/-- Without effects, a sequence is accepted if both of its parts are. -/
theorem bind_eq_pure_iff {α β ε : Type} {x : ExceptT ε Id α} {f : α → ExceptT ε Id β} {b : β} :
    x >>= f = pure b ↔ ∃ a, x = pure a ∧ f a = pure b := by
  constructor
  · intro h
    obtain ⟨a, ha, hb⟩ := canReturn_bind_imp' (canReturn_of_eq_pure h)
    exact ⟨a, ha, hb⟩
  · rintro ⟨a, rfl, h⟩
    rw [pure_bind, h]

/-- An outcome that is no refusal, read off with a default. -/
theorem eq_ok_getD_of_isOk {ε α : Type} {x : Except ε α} (h : x.isOk = true) (d : α) :
    x = .ok (x.toOption.getD d) := by
  cases x with
  | error e => cases h
  | ok a => rfl

end GroupedView
