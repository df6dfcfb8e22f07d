import GroupedView.Proofs.Ledger

/-!
# GroupedView.Proofs.Ledger.Entrywise — a ledger keeps each item by itself

A ledger accepts a mutation by the entry of its item, and changes no other entry.  So the items of
a batch do not see each other.

* `Ledger.mem_used_applyAll`: a group is used after a batch if it was used before, or if some item
  stood in it at some time.
* `Ledger.AgreesOn.applyAll_filter`: the mutations of some items are accepted alone, and lead these
  items to the same entries.
* `Ledger.exists_applyAll_of_filter`: a batch is accepted if the mutations of each item are.
* `Ledger.exists_prefix_of_filter_eq`: two batches with the same mutations of some items lead these
  items through the same entries.
-/

open Std

namespace GroupedView.Ledger

variable {V S : Type} {b : Arrangement Id V S} {l l' l₁ l₁' : Ledger S} {mu : Mutation V}
  {batch batch' : List (Mutation V)} {k : ItemKey} {g : GroupId}

/-- An accepted mutation does nothing, strikes its item out, or writes down where it stands. -/
theorem cases_of_apply (h : l.apply b mu = .ok l₁) :
    l₁ = l ∨ l₁ = l.forget mu.key ∨ ∃ entry, l₁ = l.record mu.key entry := by
  unfold apply at h
  split at h
  · cases mu with
    | insert k value hint =>
      dsimp only at h
      split at h <;> cases h
      exact .inr (.inr ⟨_, rfl⟩)
    | update k value layout =>
      dsimp only at h
      split at h <;> cases h
      cases layout with
      | false => exact .inl rfl
      | true => exact .inr (.inr ⟨_, rfl⟩)
    | delete k =>
      dsimp only at h
      split at h <;> cases h
      exact .inr (.inl rfl)
    | move k value source target =>
      dsimp only at h
      split at h
      · cases h
      · split at h
        · cases h
        · split at h <;> cases h
          exact .inr (.inr ⟨_, rfl⟩)
  · cases h
    exact .inl rfl

theorem entries_apply_of_ne (h : l.apply b mu = .ok l₁) (hk : k ≠ mu.key) :
    l₁.entries[k]? = l.entries[k]? := by
  rcases cases_of_apply h with rfl | rfl | ⟨entry, rfl⟩
  · rfl
  · rw [entries_forget, if_neg hk]
  · rw [entries_record, if_neg hk]

/-- Whether a mutation is accepted and what becomes of its item depends on how the item stands. -/
theorem exists_apply_of_entry_eq (he : l.entries[mu.key]? = l'.entries[mu.key]?)
    (h : l.apply b mu = .ok l₁) :
    ∃ l₁', l'.apply b mu = .ok l₁' ∧ l₁.entries[mu.key]? = l₁'.entries[mu.key]? := by
  unfold apply at h ⊢
  split at h
  · next hadmits =>
    rw [if_pos hadmits]
    cases mu with
    | insert k value hint =>
      simp only [Mutation.key, ExtTreeMap.contains_eq_isSome_getElem?] at he h ⊢
      rw [he] at h
      split at h <;> cases h
      next hnew =>
        rw [if_neg hnew]
        exact ⟨_, rfl, by rw [entries_record_self, entries_record_self]⟩
    | update k value layout =>
      simp only [Mutation.key, ExtTreeMap.contains_eq_isSome_getElem?] at he h ⊢
      rw [he] at h
      split at h <;> cases h
      next hold =>
        rw [if_pos hold]
        cases layout with
        | false => exact ⟨_, rfl, he⟩
        | true => exact ⟨_, rfl, by simp⟩
    | delete k =>
      simp only [Mutation.key, ExtTreeMap.contains_eq_isSome_getElem?] at he h ⊢
      rw [he] at h
      split at h <;> cases h
      next hold =>
        rw [if_pos hold]
        exact ⟨_, rfl, by rw [entries_forget_self, entries_forget_self]⟩
    | move k value source target =>
      simp only [Mutation.key] at he h ⊢
      rw [he] at h
      split at h
      · cases h
      · split at h
        · cases h
        · next hsource =>
          split at h <;> cases h
          next htarget =>
            simp only [if_neg hsource, if_neg htarget]
            exact ⟨_, rfl, by rw [entries_record_self, entries_record_self]⟩
  · next hadmits =>
    cases h
    rw [if_neg hadmits]
    exact ⟨l', rfl, he⟩

/-- An item without mutations in a batch keeps its entry. -/
theorem entries_applyAll_of_forall_ne (h : l.applyAll b batch = .ok l₁)
    (hk : ∀ mu ∈ batch, k ≠ mu.key) : l₁.entries[k]? = l.entries[k]? := by
  induction batch generalizing l with
  | nil =>
    cases h
    rfl
  | cons mu batch ih =>
    obtain ⟨next, hmu, h⟩ := applyAll_cons_eq_ok.mp h
    obtain ⟨hne, hk⟩ := List.forall_mem_cons.mp hk
    rw [ih h hk, entries_apply_of_ne hmu hne]

/-- The groups that items stand in are used. -/
def Covers (l : Ledger S) : Prop :=
  ∀ (k : ItemKey) (pl : Placement S), l.entries[k]? = some (some pl) → pl.group ∈ l.used

/-- A mutation uses the group that its item then stands in, if any. -/
theorem mem_used_apply (hl : l.Covers) (h : l.apply b mu = .ok l₁) :
    g ∈ l₁.used ↔ g ∈ l.used ∨ ∃ pl, l₁.entries[mu.key]? = some (some pl) ∧ pl.group = g := by
  rcases cases_of_apply h with rfl | rfl | ⟨entry, rfl⟩
  · refine (or_iff_left_of_imp ?_).symm
    rintro ⟨pl, hk, rfl⟩
    exact hl _ _ hk
  · simp [forget]
  · rw [mem_used_record, entries_record_self, or_comm]
    simp

theorem Covers.apply (hl : l.Covers) (h : l.apply b mu = .ok l₁) : l₁.Covers := by
  intro k pl hk
  by_cases he : k = mu.key
  · subst he
    exact (mem_used_apply hl h).mpr (.inr ⟨pl, hk, rfl⟩)
  · rw [entries_apply_of_ne h he] at hk
    exact (mem_used_apply hl h).mpr (.inl (hl k pl hk))

/-- Each group that is used after a batch was used before it or had an item in it at some time. -/
theorem mem_used_applyAll (hl : l.Covers) (h : l.applyAll b batch = .ok l₁) :
    g ∈ l₁.used ↔ g ∈ l.used ∨ ∃ past, past <+: batch ∧ ∃ l', l.applyAll b past = .ok l' ∧
      ∃ (k : ItemKey) (pl : Placement S), l'.entries[k]? = some (some pl) ∧ pl.group = g := by
  induction batch generalizing l with
  | nil =>
    cases h
    refine (or_iff_left_of_imp ?_).symm
    rintro ⟨past, hpast, l', hl', k, pl, hk, rfl⟩
    rw [List.prefix_nil.mp hpast] at hl'
    cases hl'
    exact hl k pl hk
  | cons mu batch ih =>
    obtain ⟨next, hmu, h⟩ := applyAll_cons_eq_ok.mp h
    rw [ih (hl.apply hmu) h, mem_used_apply hl hmu]
    constructor
    · rintro ((hg | ⟨pl, hk, rfl⟩) | ⟨past, hpast, l', hl', hk⟩)
      · exact .inl hg
      · refine .inr ⟨[mu], List.prefix_append [mu] batch, next, ?_, mu.key, pl, hk, rfl⟩
        rw [applyAll_singleton, hmu]
      · refine .inr ⟨mu :: past, List.cons_prefix_cons.mpr ⟨rfl, hpast⟩, l', ?_, hk⟩
        exact applyAll_cons_eq_ok.mpr ⟨next, hmu, hl'⟩
    · rintro (hg | ⟨past, hpast, l', hl', k, pl, hk, rfl⟩)
      · exact .inl (.inl hg)
      · rcases List.prefix_cons_iff.mp hpast with rfl | ⟨rest, rfl, hrest⟩
        · cases hl'
          exact .inl (.inl (hl k pl hk))
        · obtain ⟨next', hmu', hl'⟩ := applyAll_cons_eq_ok.mp hl'
          rw [hmu] at hmu'
          cases hmu'
          exact .inr ⟨rest, hrest, l', hl', k, pl, hk, rfl⟩

/-- Two ledgers have the same entries of some items. -/
def AgreesOn (P : ItemKey → Bool) (l l' : Ledger S) : Prop :=
  ∀ k : ItemKey, P k = true → l.entries[k]? = l'.entries[k]?

variable {P : ItemKey → Bool}

/-- While the mutations of some items are applied, every other item keeps its entry. -/
theorem entries_eq_of_prefix_filter {past : List (Mutation V)}
    (hpast : past <+: batch.filter (P ·.key)) (h : l.applyAll b past = .ok l₁)
    (hk : ¬ P k = true) : l₁.entries[k]? = l.entries[k]? := by
  refine entries_applyAll_of_forall_ne h fun mu hmu he => hk ?_
  rw [he]
  exact (List.mem_filter.mp (hpast.subset hmu)).2

theorem AgreesOn.refl : l.AgreesOn P l := fun _ _ => rfl

theorem AgreesOn.apply (he : l.AgreesOn P l') (hP : P mu.key = true)
    (h : l.apply b mu = .ok l₁) : ∃ l₁', l'.apply b mu = .ok l₁' ∧ l₁.AgreesOn P l₁' := by
  obtain ⟨l₁', h', hself⟩ := exists_apply_of_entry_eq (he _ hP) h
  refine ⟨l₁', h', fun k hk => ?_⟩
  by_cases hkey : k = mu.key
  · rw [hkey]
    exact hself
  · rw [entries_apply_of_ne h hkey, entries_apply_of_ne h' hkey]
    exact he k hk

theorem AgreesOn.skip (he : l.AgreesOn P l') (hP : ¬ P mu.key = true)
    (h : l.apply b mu = .ok l₁) : l₁.AgreesOn P l' := by
  intro k hk
  rw [entries_apply_of_ne h fun hkey => hP (hkey ▸ hk)]
  exact he k hk

/-- The mutations of some items are accepted alone, and lead these items to the same entries. -/
theorem AgreesOn.applyAll_filter (he : l.AgreesOn P l') (h : l.applyAll b batch = .ok l₁) :
    ∃ l₁', l'.applyAll b (batch.filter (P ·.key)) = .ok l₁' ∧ l₁.AgreesOn P l₁' := by
  induction batch generalizing l l' with
  | nil =>
    cases h
    exact ⟨l', rfl, he⟩
  | cons mu batch ih =>
    obtain ⟨next, hmu, h⟩ := applyAll_cons_eq_ok.mp h
    rw [List.filter_cons]
    by_cases hP : P mu.key = true
    · obtain ⟨next', hmu', hnext⟩ := he.apply hP hmu
      obtain ⟨l₁', hl₁', hend⟩ := ih hnext h
      rw [if_pos hP]
      exact ⟨l₁', applyAll_cons_eq_ok.mpr ⟨next', hmu', hl₁'⟩, hend⟩
    · rw [if_neg hP]
      exact ih (he.skip hP hmu) h

/-- A batch is accepted if for each item the mutations of the item are accepted alone. -/
theorem exists_applyAll_of_filter
    (h : ∀ k, ∃ l', l.applyAll b (batch.filter (·.key = k)) = .ok l') :
    ∃ l₁, l.applyAll b batch = .ok l₁ := by
  induction batch generalizing l with
  | nil => exact ⟨l, rfl⟩
  | cons mu batch ih =>
    obtain ⟨l', hl'⟩ := h mu.key
    rw [List.filter_cons, if_pos (decide_eq_true rfl)] at hl'
    obtain ⟨next, hmu, hl'⟩ := applyAll_cons_eq_ok.mp hl'
    have hrest : ∀ k, ∃ l', next.applyAll b (batch.filter (·.key = k)) = .ok l' := by
      intro k
      by_cases hk : mu.key = k
      · subst hk
        exact ⟨l', hl'⟩
      · -- the mutations of the item do not see that one of another item came before them
        obtain ⟨w, hw⟩ := h k
        rw [List.filter_cons, if_neg (by simpa using hk)] at hw
        have hsame : l.AgreesOn (· = k) next := by
          intro k' hk'
          rw [of_decide_eq_true hk', entries_apply_of_ne hmu (Ne.symm hk)]
        obtain ⟨w', hw', -⟩ := hsame.applyAll_filter hw
        rw [List.filter_filter] at hw'
        exact ⟨w', by simpa using hw'⟩
    obtain ⟨l₁, hl₁⟩ := ih hrest
    exact ⟨l₁, applyAll_cons_eq_ok.mpr ⟨next, hmu, hl₁⟩⟩

/-- If two batches have the same mutations of some items, then whatever becomes of these items on
the way through one becomes of them on the way through the other. -/
theorem exists_prefix_of_filter_eq (hP : batch.filter (P ·.key) = batch'.filter (P ·.key))
    (h' : l.applyAll b batch' = .ok l') {past : List (Mutation V)} (hpast : past <+: batch)
    (h : l.applyAll b past = .ok l₁) :
    ∃ past' l₁', past' <+: batch' ∧ l.applyAll b past' = .ok l₁' ∧ l₁.AgreesOn P l₁' := by
  have hpart : past.filter (P ·.key) <+: batch'.filter (P ·.key) := hP ▸ hpast.filter _
  obtain ⟨past', hpast', hsame⟩ := List.prefix_filter_iff.mp hpart
  obtain ⟨w, hw, hagree⟩ := (AgreesOn.refl (P := P)).applyAll_filter h
  obtain ⟨rest, rfl⟩ := hpast'
  rw [applyAll_append] at h'
  cases hl : l.applyAll b past' with
  | error e => rw [hl] at h'; cases h'
  | ok l₁' =>
    obtain ⟨w', hw', hagree'⟩ := (AgreesOn.refl (P := P)).applyAll_filter hl
    rw [← hsame, hw] at hw'
    cases hw'
    exact ⟨past', l₁', List.prefix_append _ _, hl, fun k hk => (hagree k hk).trans
      (hagree' k hk).symm⟩

end GroupedView.Ledger
