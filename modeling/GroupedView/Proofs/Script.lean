import GroupedView.Script

/-!
# GroupedView.Proofs.Script — what a script goes through and can end in

`Script.Ends x a` says that the script `x` ends in the answer `a` for some outcomes of its actions.
These are the possible answers of the script as an effect (`MonadAttach.CanReturn`), and carrying
out a script ends in one of them (`Script.ends_run`).  On the way a script goes through its
`Script.moments`; what every action keeps holds at each of them (`Script.moments_invariant`).
-/

namespace GroupedView.Script

variable {σ V α β : Type}

/-- Whether a script can end in an answer. -/
def Ends : Script σ V α → α → Prop
  | done x, a => x = a
  | look next, a => ∃ s, (next s).Ends a
  | keep _ next, a => next.Ends a
  | askPhase next, a => ∃ p, (next p).Ends a
  | askProcess _ _ next, a => ∃ o, (next o).Ends a

/-- The script with each answer marked as one that it can end in. -/
def attach : (x : Script σ V α) → Script σ V { a // x.Ends a }
  | done x => done ⟨x, rfl⟩
  | look next => look fun s => (next s).attach.andThen fun a => done ⟨a.1, s, a.2⟩
  | keep s next => keep s (next.attach.andThen fun a => done ⟨a.1, a.2⟩)
  | askPhase next => askPhase fun p => (next p).attach.andThen fun a => done ⟨a.1, p, a.2⟩
  | askProcess records mapping next =>
    askProcess records mapping fun o => (next o).attach.andThen fun a => done ⟨a.1, o, a.2⟩

instance : MonadAttach (Script σ V) := ⟨Ends, attach⟩

theorem attach_andThen_val (x : Script σ V α) : x.attach.andThen (fun a => done a.1) = x := by
  induction x with
  | done x => rfl
  | look next ih => simp only [attach, andThen, andThen_assoc, ih]
  | keep s next ih => simp only [attach, andThen, andThen_assoc, ih]
  | askPhase next ih => simp only [attach, andThen, andThen_assoc, ih]
  | askProcess records mapping next ih => simp only [attach, andThen, andThen_assoc, ih]

theorem of_ends_val {P : α → Prop} (x : Script σ V { a // P a }) {a : α}
    (h : (x.andThen fun a => done a.1).Ends a) : P a := by
  induction x with
  | done x =>
    cases h
    exact x.2
  | look next ih =>
    obtain ⟨s, h⟩ := h
    exact ih s h
  | keep s next ih => exact ih h
  | askPhase next ih =>
    obtain ⟨p, h⟩ := h
    exact ih p h
  | askProcess records mapping next ih =>
    obtain ⟨o, h⟩ := h
    exact ih o h

instance : LawfulMonadAttach (Script σ V) where
  map_attach := attach_andThen_val _
  canReturn_map_imp := of_ends_val _

section Run

variable {τ : Type} [MonadStateOf σ (StateM τ)] {phase : StateM τ (Option Phase)}
  {process : List (Transaction V) → Mapping → StateM τ (Option Outcome)}

/-- Carrying out a script ends in one of its answers. -/
theorem ends_run (x : Script σ V α) (t : τ) : x.Ends ((x.run phase process).run t).1 := by
  induction x generalizing t with
  | done x => rfl
  | look next ih => exact ⟨_, ih _ _⟩
  | keep s next ih => exact ih _
  | askPhase next ih => exact ⟨_, ih _ _⟩
  | askProcess records mapping next ih => exact ⟨_, ih _ _⟩

variable (phase process) in
/-- The states that a script goes through while it is carried out: the one that each action is taken
in, and the one at the end. -/
def moments : Script σ V α → τ → List τ
  | done _, t => [t]
  | look next, t => t :: (next ((get : StateM τ σ).run t).1).moments ((get : StateM τ σ).run t).2
  | keep s next, t => t :: next.moments ((set s : StateM τ PUnit).run t).2
  | askPhase next, t => t :: (next (phase.run t).1).moments (phase.run t).2
  | askProcess records mapping next, t =>
    t :: (next ((process records mapping).run t).1).moments ((process records mapping).run t).2

theorem moments_ne_nil (x : Script σ V α) (t : τ) : x.moments phase process t ≠ [] := by
  cases x <;> exact List.cons_ne_nil _ _

/-- The last moment is the state that a script leaves. -/
theorem getLast?_moments (x : Script σ V α) (t : τ) :
    (x.moments phase process t).getLast? = some ((x.run phase process).run t).2 := by
  induction x generalizing t with
  | done x => rfl
  | look next ih =>
    rw [moments, List.getLast?_cons_of_ne_nil (moments_ne_nil _ _), ih]
    rfl
  | keep s next ih =>
    rw [moments, List.getLast?_cons_of_ne_nil (moments_ne_nil _ _), ih]
    rfl
  | askPhase next ih =>
    rw [moments, List.getLast?_cons_of_ne_nil (moments_ne_nil _ _), ih]
    rfl
  | askProcess records mapping next ih =>
    rw [moments, List.getLast?_cons_of_ne_nil (moments_ne_nil _ _), ih]
    rfl

/-- What every action keeps holds at each moment. -/
theorem moments_invariant {I : τ → Prop} (hget : ∀ t, I t → I ((get : StateM τ σ).run t).2)
    (hset : ∀ (s : σ) t, I t → I ((set s : StateM τ PUnit).run t).2)
    (hphase : ∀ t, I t → I (phase.run t).2)
    (hprocess : ∀ records mapping t, I t → I ((process records mapping).run t).2)
    (x : Script σ V α) {t : τ} (ht : I t) : ∀ u ∈ x.moments phase process t, I u := by
  induction x generalizing t with
  | done x => exact List.forall_mem_singleton.mpr ht
  | look next ih => exact List.forall_mem_cons.mpr ⟨ht, ih _ (hget t ht)⟩
  | keep s next ih => exact List.forall_mem_cons.mpr ⟨ht, ih (hset s t ht)⟩
  | askPhase next ih => exact List.forall_mem_cons.mpr ⟨ht, ih _ (hphase t ht)⟩
  | askProcess records mapping next ih =>
    exact List.forall_mem_cons.mpr ⟨ht, ih _ (hprocess records mapping t ht)⟩

/-- What every action keeps is kept by carrying out a script. -/
theorem run_invariant {I : τ → Prop} (hget : ∀ t, I t → I ((get : StateM τ σ).run t).2)
    (hset : ∀ (s : σ) t, I t → I ((set s : StateM τ PUnit).run t).2)
    (hphase : ∀ t, I t → I (phase.run t).2)
    (hprocess : ∀ records mapping t, I t → I ((process records mapping).run t).2)
    (x : Script σ V α) {t : τ} (ht : I t) : I ((x.run phase process).run t).2 :=
  moments_invariant hget hset hphase hprocess x ht _ (List.mem_of_getLast? (getLast?_moments x t))

end Run

end GroupedView.Script
