import GroupedView.Proofs.Batch.Fold

/-!
# GroupedView.Proofs.Refusals — what a view refuses a mutation for

A view refuses a mutation for something about its item, never for something about a mapping or
about the order of transactions.  `Concerns k x` says that whatever the computation `x` is refused
for is about the item `k`; it goes along with a sequence of effects (`concerns_bind`), whatever the
supplied functions answer.

* `View.concerns_apply`: each refusal of a mutation is about the item of the mutation.
* `View.item?_of_refused_compute`: each refusal of a batch is about an item of the batch.
-/

open MonadAttach (CanReturn)
open LawfulMonadAttach

namespace GroupedView

/-- The item that an error is about; errors in a mapping or in how a connection is driven are about
none. -/
def ViewError.item? : ViewError → Option ItemKey
  | duplicateKey k | missingKey k | inconsistent k _ | wrongSource k _ _
  | wrongTarget k _ _ => some k
  | unknownGroup _ | gap _ _ | reentrant => none

section Concerns

variable {m : Type → Type} [Monad m] [LawfulMonad m] [MonadAttach m] [LawfulMonadAttach m]
variable {α β : Type} {k : ItemKey}

/-- Whatever a computation can be refused for is about an item. -/
def Concerns (k : ItemKey) (x : Checked m α) : Prop :=
  ∀ e, CanReturn (m := m) x.run (.error e) → e.item? = some k

theorem concerns_pure (x : α) : Concerns k (pure x : Checked m α) := by
  intro e h
  cases eq_of_canReturn_pure (m := m) h

theorem concerns_throw {e : ViewError} (he : e.item? = some k) :
    Concerns k (throw e : Checked m α) := by
  intro e' h
  cases eq_of_canReturn_pure (m := m) h
  exact he

/-- A call of a supplied function is not refused. -/
theorem not_refused_lift {x : m α} {e : ViewError} :
    ¬ CanReturn (m := m) (ExceptT.lift x : Checked m α).run (.error e) := by
  intro h
  have h : CanReturn (m := m) (Except.ok <$> x) (.error e : Except ViewError α) := h
  obtain ⟨a, -, ha⟩ := canReturn_map_imp' h
  cases ha

theorem concerns_lift (x : m α) : Concerns k (ExceptT.lift x : Checked m α) :=
  fun _ h => absurd h not_refused_lift

/-- A sequence is refused by its first part, or by its second part after an answer of the first. -/
theorem refused_bind {x : Checked m α} {f : α → Checked m β} {e : ViewError}
    (h : CanReturn (m := m) (x >>= f).run (.error e)) :
    CanReturn (m := m) x.run (.error e) ∨
      ∃ a, CanReturn x a ∧ CanReturn (m := m) (f a).run (.error e) := by
  rw [ExceptT.run_bind] at h
  obtain ⟨r, hr, h⟩ := canReturn_bind_imp' h
  cases r with
  | ok a => exact .inr ⟨a, hr, h⟩
  | error e' =>
    cases eq_of_canReturn_pure h
    exact .inl hr

theorem concerns_bind {x : Checked m α} {f : α → Checked m β} (hx : Concerns k x)
    (hf : ∀ a, Concerns k (f a)) : Concerns k (x >>= f) := by
  intro e h
  rcases refused_bind h with hr | ⟨a, -, ha⟩
  · exact hx e hr
  · exact hf a e ha

/-- A fold is refused by one of its steps. -/
theorem refused_foldlM {f : β → α → Checked m β} {l : List α} {s : β} {e : ViewError}
    (h : CanReturn (m := m) (l.foldlM f s).run (.error e)) :
    ∃ a ∈ l, ∃ t, CanReturn (m := m) (f t a).run (.error e) := by
  induction l generalizing s with
  | nil => cases eq_of_canReturn_pure (m := m) h
  | cons a l ih =>
    rw [List.foldlM_cons] at h
    rcases refused_bind h with hr | ⟨t, -, ht⟩
    · exact ⟨a, List.mem_cons_self, s, hr⟩
    · obtain ⟨b, hb, hrefused⟩ := ih ht
      exact ⟨b, List.mem_cons_of_mem a hb, hrefused⟩

/-! ## Calls of the functions and searches -/

namespace Arrangement

variable {V S : Type} {a : Arrangement m V S} {value : V}

/-- What is asked for twice is refused for the item that it is asked about. -/
theorem concerns_twice (x : m α) (verify : Bool) (differ : α → α → Bool) (f : Callback) :
    Concerns k (do
      let first ← ExceptT.lift x
      if verify then
        let again ← ExceptT.lift x
        if differ again first then throw (.inconsistent k f)
      return first) := by
  refine concerns_bind (concerns_lift x) fun first => ?_
  cases verify with
  | false => exact concerns_pure first
  | true =>
    refine concerns_bind (concerns_lift x) fun again => ?_
    cases differ again first with
    | false => exact concerns_pure first
    | true => exact concerns_bind (concerns_throw rfl) fun _ => concerns_pure first

theorem concerns_groupOf : Concerns k (a.groupOf k value) := by
  have h := concerns_twice (k := k) (a.grouping k value) a.options.verify
    (fun again first => again ≠ first) .grouping
  simp only [decide_eq_true_eq] at h
  exact h

theorem concerns_sortKeyOf [BEq S] : Concerns k (a.sortKeyOf k value) :=
  concerns_twice (a.sortKey k value) a.options.verify (fun again first => again != first) .sortKey

theorem concerns_search {rows : List (Row S)} {target : Row S} :
    Concerns target.key (a.search rows target) := by
  rw [search_eq]
  refine concerns_bind (concerns_lift _) fun r => ?_
  split
  · exact concerns_throw rfl
  · exact concerns_pure _

theorem concerns_insertionIndex {rows : List (Row S)} {g : GroupId} {row : Row S}
    {hint : Option PositionHint} : Concerns row.key (a.insertionIndex rows g row hint) := by
  have hnone : Concerns row.key (a.insertionIndex rows g row none) := by
    rw [insertionIndex_none]
    refine concerns_bind concerns_search fun s => ?_
    cases s with
    | gap i => exact concerns_pure i
    | found i => exact concerns_throw rfl
  cases hint with
  | none => exact hnone
  | some hint =>
    rw [insertionIndex_some]
    refine concerns_bind (concerns_lift _) fun hinted => ?_
    cases hinted with
    | none => exact hnone
    | some i => exact concerns_pure i

end Arrangement

/-! ## Mutations and batches -/

namespace View

variable {V S : Type} {a : Arrangement m V S} {v : View S} {value : V}

theorem concerns_find {pl : Placement S} : Concerns k (v.find a k pl) := by
  unfold find
  refine concerns_bind Arrangement.concerns_search fun s => ?_
  cases s with
  | found i => exact concerns_pure _
  | gap i => exact concerns_throw rfl

theorem concerns_place {g : GroupId} {row : Row S} {hint : Option PositionHint} :
    Concerns row.key (v.place a g row hint) := by
  unfold place
  exact concerns_bind Arrangement.concerns_insertionIndex fun i => concerns_pure _

variable [BEq S]

theorem concerns_enter {hint : Option PositionHint} : Concerns k (v.enter a k value hint) := by
  unfold enter
  refine concerns_bind Arrangement.concerns_groupOf fun g => ?_
  cases g with
  | none => exact concerns_pure _
  | some g =>
    refine concerns_bind Arrangement.concerns_sortKeyOf fun s => ?_
    exact concerns_bind concerns_place fun _ => concerns_pure _

theorem concerns_insert {hint : Option PositionHint} : Concerns k (v.insert a k value hint) := by
  unfold insert
  split
  · exact concerns_throw rfl
  · exact concerns_enter

theorem concerns_updateRow {pl : Placement S} {layout : Bool} :
    Concerns k (v.updateRow a k value pl layout) := by
  unfold updateRow
  refine concerns_bind concerns_find fun old => ?_
  split
  · exact concerns_pure _
  · refine concerns_bind Arrangement.concerns_groupOf fun g => ?_
    cases g with
    | none => exact concerns_pure _
    | some g =>
      refine concerns_bind Arrangement.concerns_sortKeyOf fun s => ?_
      dsimp only
      split
      · exact concerns_pure _
      · exact concerns_bind concerns_place fun _ => concerns_pure _

theorem concerns_update {layout : Bool} : Concerns k (v.update a k value layout) := by
  unfold update
  split
  · exact concerns_updateRow
  · split
    · split
      · exact concerns_enter
      · exact concerns_pure _
    · exact concerns_throw rfl

omit [BEq S] in
theorem concerns_delete : Concerns k (v.delete a k) := by
  unfold delete
  split
  · exact concerns_bind concerns_find fun old => concerns_pure _
  · split
    · exact concerns_pure _
    · exact concerns_throw rfl

theorem concerns_move {source target : GroupId} :
    Concerns k (v.move a k value source target) := by
  unfold move
  split
  · exact concerns_throw rfl
  · split
    · exact concerns_throw rfl
    · refine concerns_bind Arrangement.concerns_groupOf fun g => ?_
      dsimp only
      split
      · exact concerns_throw rfl
      · refine concerns_bind Arrangement.concerns_sortKeyOf fun s => ?_
        refine concerns_bind concerns_find fun old => ?_
        exact concerns_bind concerns_place fun _ => concerns_pure _

/-- Whatever a mutation is refused for is about its item. -/
theorem concerns_apply (mu : Mutation V) : Concerns mu.key (v.apply a mu) := by
  unfold apply
  split
  · cases mu with
    | insert k value hint => exact concerns_insert
    | update k value layout => exact concerns_update
    | delete k => exact concerns_delete
    | move k value source target => exact concerns_move
  · exact concerns_pure _

theorem concerns_step {pre : View S} {f : Fold S} (mu : Mutation V) :
    Concerns mu.key (Fold.step a pre f mu) := by
  rw [Fold.step_eq]
  refine concerns_bind (concerns_apply mu) fun r => ?_
  unfold Fold.absorb
  split
  · exact concerns_pure _
  · split
    · exact concerns_bind (concerns_pure _) fun _ => concerns_pure _
    · refine concerns_bind (concerns_lift _) fun origin => ?_
      exact concerns_bind (concerns_pure _) fun _ => concerns_pure _

/-- **Whatever a batch is refused for is about an item of the batch**, whatever the supplied
functions answer. -/
theorem item?_of_refused_compute {pre : View S} {batch : List (Mutation V)} {e : ViewError}
    (h : CanReturn (m := m) (pre.compute a batch).run (.error e)) :
    ∃ mu ∈ batch, e.item? = some mu.key := by
  unfold compute at h
  rcases refused_bind h with hfold | ⟨f, -, hrest⟩
  · obtain ⟨mu, hmu, f, hstep⟩ := refused_foldlM hfold
    exact ⟨mu, hmu, concerns_step mu e hstep⟩
  · -- the net changes are read off without a refusal
    rcases refused_bind hrest with hchanges | ⟨changes, -, hdone⟩
    · exact absurd hchanges not_refused_lift
    · cases eq_of_canReturn_pure (m := m) hdone

end View

end Concerns

end GroupedView
