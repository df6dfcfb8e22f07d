import GroupedView.Proofs.Correspondence

/-!
# GroupedView.Proofs.Correspondence.Functions — functions that answer alike

Arrangements with the same options take part in a computation by calling their functions.  So it is
enough to relate these calls (`Correspondence.relates_of_functions`).  A search carries a flag along
with its probes; `Correspondence.RelState` relates the effects with such a flag.
-/

namespace GroupedView.Correspondence

variable {m n : Type → Type} [Monad m] [Monad n] [MonadAttach m] {R : Correspondence m n}

/-! ## Effects with a flag -/

section Flag

/-- Effects that are related for each value of their flag. -/
def RelState (R : Correspondence m n) {α : Type} (x : StateT Bool m α) (y : StateT Bool n α) :
    Prop :=
  ∀ flag, R.Rel (ExceptT.lift (x.run flag)) (ExceptT.lift (y.run flag))

variable {α β : Type} [LawfulMonad m] [LawfulMonad n]

theorem relState_pure (x : α) : R.RelState (pure x) (pure x) := by
  intro flag
  rw [StateT.run_pure, StateT.run_pure]
  exact R.rel_lift_pure _

theorem relState_bind {x : StateT Bool m α} {y : StateT Bool n α} {f : α → StateT Bool m β}
    {g : α → StateT Bool n β} (h : R.RelState x y) (hf : ∀ a, R.RelState (f a) (g a)) :
    R.RelState (x >>= f) (y >>= g) := by
  intro flag
  rw [StateT.run_bind, StateT.run_bind]
  exact R.rel_lift_bind (h flag) fun r => hf r.1 r.2

theorem relState_set (b : Bool) : R.RelState (set b) (set b) := by
  intro flag
  rw [StateT.run_set, StateT.run_set]
  exact R.rel_lift_pure _

theorem relState_liftM {x : m α} {y : n α} (h : R.Rel (ExceptT.lift x) (ExceptT.lift y)) :
    R.RelState (liftM x) (liftM y) := by
  intro flag
  rw [StateT.run_monadLift, StateT.run_monadLift]
  exact R.rel_lift_bind h fun a => R.rel_lift_pure _

end Flag

/-! ## Calls of the functions -/

section Functions

variable {V S : Type} {a : Arrangement m V S} {b : Arrangement n V S}
  (hoptions : a.options = b.options)
  (hgrouping : ∀ k value,
    R.Rel (ExceptT.lift (a.grouping k value)) (ExceptT.lift (b.grouping k value)))
  (hsortKey : ∀ k value,
    R.Rel (ExceptT.lift (a.sortKey k value)) (ExceptT.lift (b.sortKey k value)))
  (hcomparison : ∀ r s,
    R.Rel (ExceptT.lift (a.comparison r s)) (ExceptT.lift (b.comparison r s)))

/-- What is asked for twice when the options ask to verify is related if each call is. -/
theorem rel_twice {α : Type} {x : m α} {y : n α} (hx : R.Rel (ExceptT.lift x) (ExceptT.lift y))
    (verify : Bool) (differ : α → α → Bool) {e : ViewError} (he : e ≠ .reentrant) :
    R.Rel (do
        let first ← ExceptT.lift x
        if verify then
          let again ← ExceptT.lift x
          if differ again first then throw e
        return first)
      (do
        let first ← ExceptT.lift y
        if verify then
          let again ← ExceptT.lift y
          if differ again first then throw e
        return first) := by
  refine R.rel_bind hx fun first _ => ?_
  cases verify with
  | false => exact R.rel_pure first
  | true =>
    refine R.rel_bind hx fun again _ => ?_
    cases differ again first with
    | false => exact R.rel_pure first
    | true => exact R.rel_bind (R.rel_throw he) fun _ _ => R.rel_pure first

include hoptions hgrouping in
theorem rel_groupOf (k : ItemKey) (value : V) : R.Rel (a.groupOf k value) (b.groupOf k value) := by
  have h := rel_twice (hgrouping k value) b.options.verify (fun again first => again ≠ first)
    (e := .inconsistent k .grouping) nofun
  simp only [decide_eq_true_eq] at h
  unfold Arrangement.groupOf
  rw [hoptions]
  exact h

include hoptions hsortKey in
theorem rel_sortKeyOf [BEq S] (k : ItemKey) (value : V) :
    R.Rel (a.sortKeyOf k value) (b.sortKeyOf k value) := by
  unfold Arrangement.sortKeyOf
  rw [hoptions]
  exact rel_twice (hsortKey k value) b.options.verify (fun again first => again != first) nofun

variable [LawfulMonad m] [LawfulMonad n]

include hcomparison in
theorem rel_order (r s : Row S) :
    R.Rel (ExceptT.lift (a.order r s)) (ExceptT.lift (b.order r s)) := by
  unfold Arrangement.order
  exact R.rel_lift_bind (hcomparison r s) fun o => R.rel_lift_pure _

include hoptions hcomparison in
theorem relState_probe (r s : Row S) : R.RelState (a.probe r s) (b.probe r s) := by
  unfold Arrangement.probe
  refine relState_bind (relState_liftM (rel_order hcomparison r s)) fun forward => ?_
  rw [hoptions]
  cases b.options.verify with
  | false => exact relState_pure forward
  | true =>
    refine relState_bind (relState_liftM (rel_order hcomparison s r)) fun backward => ?_
    by_cases hback : backward ≠ forward.swap
    · simp only [if_pos hback]
      exact relState_bind (relState_set true) fun _ => relState_pure forward
    · simp only [if_neg hback]
      exact relState_pure forward

include hoptions hcomparison in
theorem relState_seek (rows : List (Row S)) (target : Row S) :
    R.RelState (a.seek rows target) (b.seek rows target) :=
  bisect_rel relState_pure relState_bind fun _ => relState_probe hoptions hcomparison _ _

include hoptions hcomparison in
theorem rel_search (rows : List (Row S)) (target : Row S) :
    R.Rel (a.search rows target) (b.search rows target) := by
  rw [Arrangement.search_eq, Arrangement.search_eq]
  refine R.rel_bind (relState_seek hoptions hcomparison rows target false) fun r _ => ?_
  obtain ⟨slot, asymmetric⟩ := r
  cases asymmetric with
  | false => exact R.rel_pure slot
  | true => exact R.rel_throw nofun

include hcomparison in
theorem rel_precedes (r s : Option (Row S)) :
    R.Rel (ExceptT.lift (a.precedes r s)) (ExceptT.lift (b.precedes r s)) := by
  unfold Arrangement.precedes
  cases r with
  | none => exact R.rel_lift_pure true
  | some r =>
    cases s with
    | none => exact R.rel_lift_pure true
    | some s => exact R.rel_lift_bind (rel_order hcomparison r s) fun o => R.rel_lift_pure _

include hoptions hcomparison in
theorem rel_positionOf (v : View S) (k : ItemKey) :
    R.Rel (ExceptT.lift (v.positionOf a k)) (ExceptT.lift (v.positionOf b k)) := by
  unfold View.positionOf
  cases v.placements[k]? with
  | none => exact R.rel_lift_pure none
  | some pl =>
    -- a search that is refused is gone on with, so that it is taken apart first
    simp only [Arrangement.run_search, bind_assoc, pure_bind]
    refine R.rel_lift_bind (relState_seek hoptions hcomparison _ _ false) fun r => ?_
    split
    · exact R.rel_lift_pure _
    · exact R.rel_lift_pure _

include hoptions hgrouping hsortKey hcomparison in
/-- Arrangements with the same options are related if their functions are. -/
theorem relates_of_functions [BEq S] : R.Relates a b where
  admits k := by rw [hoptions]
  groupOf := rel_groupOf hoptions hgrouping
  sortKeyOf := rel_sortKeyOf hoptions hsortKey
  search := rel_search hoptions hcomparison
  precedes := rel_precedes hcomparison
  positionOf v k _ := rel_positionOf hoptions hcomparison v k
  validate mapping isKnown := by
    rw [hoptions]
    refine R.rel_mk fun hrefused => ?_
    obtain ⟨g, -, he⟩ := Mapping.unknownGroup_of_validate hrefused
    cases he

end Functions

end GroupedView.Correspondence
