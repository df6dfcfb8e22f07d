import GroupedView.Proofs.Arrangement
import GroupedView.View.Mutate

/-!
# GroupedView.Proofs.Ledger — the naive account of a view

A `Ledger` keeps for every present item where it stands by the latest answers of the functions, or
that it is kept out, and every group that was ever used.  `Ledger.apply` says what a mutation does
to it and when a mutation is refused; `Ledger.rows` reads off the rows of a group.
-/

open Std

namespace GroupedView

/-- Where each present item stands, and every group that was ever used. -/
structure Ledger (S : Type) where
  entries : ItemMap (Option (Placement S)) := ∅
  used : GroupSet := ∅

/-- Where an item stands by its value; an item without a group is kept out. -/
def Arrangement.entry {V S : Type} (b : Arrangement Id V S) (k : ItemKey) (value : V) :
    Option (Placement S) :=
  (b.grouping k value).run.map fun g => ⟨g, (b.sortKey k value).run⟩

section Entry

variable {V S : Type} {b : Arrangement Id V S} {k : ItemKey} {value : V}

theorem Arrangement.entry_of_none (h : (b.grouping k value).run = none) :
    b.entry k value = none := by rw [entry, h, Option.map_none]

theorem Arrangement.entry_of_some {g : GroupId} (h : (b.grouping k value).run = some g) :
    b.entry k value = some ⟨g, (b.sortKey k value).run⟩ := by rw [entry, h, Option.map_some]

variable [BEq S]

/-- The sort key of an item that has a group is equal to itself, if the options ask to verify. -/
def Arrangement.Trusted (b : Arrangement Id V S) (k : ItemKey) (value : V) : Prop :=
  b.options.verify = true → ∀ pl ∈ b.entry k value, (pl.sortKey == pl.sortKey) = true

theorem Arrangement.trusted [ReflBEq S] : b.Trusted k value := fun _ _ _ => BEq.rfl

theorem Arrangement.trusted_of_none (h : (b.grouping k value).run = none) : b.Trusted k value := by
  intro _ pl hpl
  rw [entry_of_none h] at hpl
  cases hpl

theorem Arrangement.trusted_iff_of_some {g : GroupId} (h : (b.grouping k value).run = some g) :
    b.Trusted k value ↔ (b.options.verify = true →
      ((b.sortKey k value).run == (b.sortKey k value).run) = true) := by
  rw [Trusted, entry_of_some h]
  simp

variable {m : Type → Type} [Monad m] [LawfulMonad m]

theorem Arrangement.sortKeyOf_of_trusted {g : GroupId} (hg : (b.grouping k value).run = some g)
    (h : b.Trusted k value) : (b.carry m).sortKeyOf k value = pure (b.sortKey k value).run := by
  have hcall : (b.carry m).sortKey k value = pure (b.sortKey k value).run := rfl
  have hverify : (b.carry m).options.verify = b.options.verify := rfl
  rw [trusted_iff_of_some hg] at h
  cases hv : b.options.verify with
  | false => simp [sortKeyOf, hcall, hverify, hv]
  | true => simp [sortKeyOf, hcall, hverify, hv, bne, h hv]

theorem Arrangement.sortKeyOf_of_not_trusted {g : GroupId}
    (hg : (b.grouping k value).run = some g) (h : ¬ b.Trusted k value) :
    (b.carry m).sortKeyOf k value = throw (.inconsistent k .sortKey) := by
  have hcall : (b.carry m).sortKey k value = pure (b.sortKey k value).run := rfl
  have hoptions : (b.carry m).options.verify = b.options.verify := rfl
  rw [trusted_iff_of_some hg, Classical.not_imp, Bool.not_eq_true] at h
  obtain ⟨hverify, hne⟩ := h
  simp [sortKeyOf, hcall, hoptions, hverify, bne, hne]

end Entry

namespace Ledger

variable {V S : Type}

/-- Write down where an item stands. -/
def record (l : Ledger S) (k : ItemKey) (entry : Option (Placement S)) : Ledger S where
  entries := l.entries.insert k entry
  used := entry.elim l.used fun pl => l.used.insert pl.group

/-- Strike an item out. -/
def forget (l : Ledger S) (k : ItemKey) : Ledger S := { l with entries := l.entries.erase k }

/-- What a mutation does.  An item is inserted once and has to be present for everything else; a
move has to start where the item stands and to end where its value belongs. -/
def apply (b : Arrangement Id V S) (l : Ledger S) (mu : Mutation V) :
    Except ViewError (Ledger S) :=
  if b.options.admits mu.key then
    match mu with
    | .insert k value _ =>
      if l.entries.contains k then .error (.duplicateKey k) else .ok (l.record k (b.entry k value))
    | .update k value layout =>
      if l.entries.contains k then .ok (if layout then l.record k (b.entry k value) else l)
      else .error (.missingKey k)
    | .delete k => if l.entries.contains k then .ok (l.forget k) else .error (.missingKey k)
    | .move k value source target =>
      match l.entries[k]?.join with
      | none => .error (.missingKey k)
      | some pl =>
        if pl.group ≠ source then .error (.wrongSource k source pl.group)
        else if (b.grouping k value).run ≠ some target then
          .error (.wrongTarget k target (b.grouping k value).run)
        else .ok (l.record k (b.entry k value))
  else .ok l

/-- Apply mutations one after the other. -/
def applyAll (b : Arrangement Id V S) (l : Ledger S) (mus : List (Mutation V)) :
    Except ViewError (Ledger S) := mus.foldlM (apply b) l

/-- The ledger of a list of items. -/
def seed (b : Arrangement Id V S) (items : List (ItemKey × V)) : Except ViewError (Ledger S) :=
  applyAll b {} (items.map fun (k, value) => .insert k value none)

/-- Apply a mutation unless it is refused. -/
def attempt (b : Arrangement Id V S) (l : Ledger S) (mu : Mutation V) : Ledger S :=
  (l.apply b mu).toOption.getD l

/-- Apply mutations one after the other; one that is refused changes nothing. -/
def attemptAll (b : Arrangement Id V S) (l : Ledger S) (mus : List (Mutation V)) : Ledger S :=
  mus.foldl (attempt b) l

/-- The items that stand in a group, as rows in order. -/
def rows (b : Arrangement Id V S) (l : Ledger S) (g : GroupId) : List (Row S) :=
  (l.entries.toList.filterMap fun (k, entry) =>
      (entry.filter (·.group = g)).map fun pl => ⟨k, pl.sortKey⟩).mergeSort
    fun r s => (b.cmp r s).isLE

/-- The number of items that stand in some group. -/
def size (l : Ledger S) : Nat := l.entries.toList.countP (·.2.isSome)

section Lemmas

variable {l : Ledger S} {k k' : ItemKey} {entry : Option (Placement S)} {g : GroupId}

theorem entries_record : (l.record k entry).entries[k']? =
    if k' = k then some entry else l.entries[k']? :=
  getElem?_map_insert

theorem entries_forget : (l.forget k).entries[k']? =
    if k' = k then none else l.entries[k']? :=
  getElem?_map_erase

@[simp] theorem entries_record_self : (l.record k entry).entries[k]? = some entry := by
  rw [entries_record, if_pos rfl]

@[simp] theorem entries_forget_self : (l.forget k).entries[k]? = none := by
  rw [entries_forget, if_pos rfl]

theorem record_forget : (l.forget k).record k entry = l.record k entry := by
  have hentries : (l.entries.erase k).insert k entry = l.entries.insert k entry := by
    refine ExtTreeMap.ext_getElem? fun k' => ?_
    rw [getElem?_map_insert, getElem?_map_insert, getElem?_map_erase]
    split <;> rfl
  rw [record, record, forget, hentries]

theorem record_self {pl : Placement S} (hk : l.entries[k]? = some (some pl))
    (hg : pl.group ∈ l.used) : l.record k (some pl) = l := by
  have hentries : l.entries.insert k (some pl) = l.entries := by
    refine ExtTreeMap.ext_getElem? fun k' => ?_
    rw [getElem?_map_insert]
    split
    · next he => rw [he, hk]
    · rfl
  have hused : l.used.insert pl.group = l.used := by
    refine ExtTreeSet.ext_mem fun g => ?_
    rw [mem_set_insert]
    exact ⟨fun h => h.elim (fun he => he ▸ hg) id, .inr⟩
  rw [record, hentries, Option.elim_some, hused]

theorem mem_used_record :
    g ∈ (l.record k entry).used ↔ (∃ pl, entry = some pl ∧ pl.group = g) ∨ g ∈ l.used := by
  cases entry with
  | none => simp [record]
  | some pl => simp [record, ExtTreeSet.mem_insert]

theorem mem_rows {b : Arrangement Id V S} {r : Row S} :
    r ∈ l.rows b g ↔ l.entries[r.key]? = some (some ⟨g, r.sortKey⟩) := by
  rw [rows, List.mem_mergeSort, List.mem_filterMap]
  constructor
  · rintro ⟨⟨k, entry⟩, hk, hr⟩
    obtain ⟨pl, hpl, rfl⟩ := Option.map_eq_some_iff.mp hr
    obtain ⟨rfl, hg⟩ := Option.filter_eq_some_iff.mp hpl
    rw [ExtTreeMap.mem_toList_iff_getElem?_eq_some] at hk
    rw [hk, ← of_decide_eq_true hg]
  · intro hr
    refine ⟨_, ExtTreeMap.mem_toList_iff_getElem?_eq_some.mpr hr, ?_⟩
    simp [Option.filter]

theorem rows_congr {b : Arrangement Id V S} {l' : Ledger S} (h : l.entries = l'.entries) :
    l.rows b g = l'.rows b g := by rw [rows, rows, h]

/-- The rows of a group go up. -/
theorem ascending_rows {b : Arrangement Id V S} (hb : b.Lawful) (l : Ledger S) (g : GroupId) :
    b.Ascending (l.rows b g) := by
  have := hb.transCmp
  refine pairwise_mergeSort_cmp b.cmp id (List.pairwise_filterMap.mpr ?_)
  have hkeys : l.entries.toList.Pairwise fun x y => ¬ compare x.1 y.1 = .eq :=
    ExtTreeMap.distinct_keys_toList
  refine hkeys.imp fun {x y} hxy r hr s hs he => hxy ?_
  obtain ⟨pl, -, rfl⟩ := Option.map_eq_some_iff.mp hr
  obtain ⟨pl', -, rfl⟩ := Option.map_eq_some_iff.mp hs
  exact LawfulEqOrd.compare_eq_iff_eq.mpr (Arrangement.key_eq_of_cmp_eq he)

theorem mem_entries_record : k' ∈ (l.record k entry).entries ↔ k' = k ∨ k' ∈ l.entries :=
  mem_map_insert

end Lemmas

/-! ## Runs and seeds -/

section Run

variable {b : Arrangement Id V S} {l : Ledger S} {mu : Mutation V} {mus : List (Mutation V)}

theorem applyAll_cons :
    l.applyAll b (mu :: mus) = (l.apply b mu).bind fun l => l.applyAll b mus := rfl

theorem applyAll_cons_eq_ok {l' : Ledger S} : l.applyAll b (mu :: mus) = .ok l' ↔
    ∃ next, l.apply b mu = .ok next ∧ next.applyAll b mus = .ok l' := by
  rw [applyAll_cons]
  cases l.apply b mu with
  | error e => exact iff_of_false (fun h => by cases h) fun ⟨_, h, _⟩ => by cases h
  | ok next => exact ⟨fun h => ⟨next, rfl, h⟩, fun ⟨_, he, h⟩ => by cases he; exact h⟩

theorem applyAll_append {mus' : List (Mutation V)} :
    l.applyAll b (mus ++ mus') = (l.applyAll b mus).bind fun l => l.applyAll b mus' :=
  List.foldlM_append

@[simp] theorem applyAll_singleton : l.applyAll b [mu] = l.apply b mu := by
  rw [applyAll_cons]
  cases l.apply b mu with
  | error e => rfl
  | ok l' => rfl

theorem apply_of_not_admits (h : ¬ b.options.admits mu.key = true) : l.apply b mu = .ok l :=
  if_neg h

theorem apply_insert {k : ItemKey} {value : V} {hint : Option PositionHint} :
    l.apply b (.insert k value hint) =
      if b.options.admits k then
        if l.entries.contains k then .error (.duplicateKey k)
        else .ok (l.record k (b.entry k value))
      else .ok l := rfl

theorem apply_update {k : ItemKey} {value : V} {layout : Bool} :
    l.apply b (.update k value layout) =
      if b.options.admits k then
        if l.entries.contains k then .ok (if layout then l.record k (b.entry k value) else l)
        else .error (.missingKey k)
      else .ok l := rfl

theorem apply_delete {k : ItemKey} : l.apply b (.delete k) =
    if b.options.admits k then
      if l.entries.contains k then .ok (l.forget k) else .error (.missingKey k)
    else .ok l := rfl

theorem apply_move {k : ItemKey} {value : V} {source target : GroupId} :
    l.apply b (.move k value source target) =
      if b.options.admits k then
        match l.entries[k]?.join with
        | none => .error (.missingKey k)
        | some pl =>
          if pl.group ≠ source then .error (.wrongSource k source pl.group)
          else if (b.grouping k value).run ≠ some target then
            .error (.wrongTarget k target (b.grouping k value).run)
          else .ok (l.record k (b.entry k value))
      else .ok l := rfl

/-- No mutation is refused because a function contradicts itself. -/
theorem apply_ne_inconsistent (k : ItemKey) (f : Callback) :
    l.apply b mu ≠ .error (.inconsistent k f) := by
  unfold apply
  split
  · cases mu with
    | insert | update | delete => dsimp only; split <;> rintro ⟨⟩
    | move =>
      dsimp only
      split
      · rintro ⟨⟩
      · split
        · rintro ⟨⟩
        · split <;> rintro ⟨⟩
  · rintro ⟨⟩

end Run

section Seed

variable {b : Arrangement Id V S} {l : Ledger S} {items : List (ItemKey × V)}

/-- The keys of a list of items that the options admit, in order. -/
def admitted (b : Arrangement Id V S) (items : List (ItemKey × V)) : List ItemKey :=
  (items.map Prod.fst).filter b.options.admits

theorem admitted_cons {k : ItemKey} {value : V} : admitted b ((k, value) :: items) =
    if b.options.admits k then k :: admitted b items else admitted b items :=
  List.filter_cons

theorem mem_admitted {k : ItemKey} :
    k ∈ admitted b items ↔ (∃ value, (k, value) ∈ items) ∧ b.options.admits k := by
  simp [admitted]

/-- Items of which none comes twice and none is there already can be inserted. -/
theorem applyAll_inserts (hnodup : (admitted b items).Nodup)
    (hnew : ∀ k ∈ admitted b items, k ∉ l.entries) :
    ∃ l', l.applyAll b (items.map fun (k, value) => .insert k value none) = .ok l' ∧
      (∀ (k : ItemKey) (entry : Option (Placement S)), l'.entries[k]? = some entry ↔
        l.entries[k]? = some entry ∨
          ∃ value, (k, value) ∈ items ∧ b.options.admits k ∧ b.entry k value = entry) ∧
      ∀ g, g ∈ l'.used ↔ g ∈ l.used ∨ ∃ k value pl, (k, value) ∈ items ∧ b.options.admits k ∧
        b.entry k value = some pl ∧ pl.group = g := by
  induction items generalizing l with
  | nil => exact ⟨l, rfl, fun k entry => by simp, fun g => by simp⟩
  | cons x items ih =>
    obtain ⟨k, value⟩ := x
    rw [List.map_cons, applyAll_cons, apply_insert]
    rw [admitted_cons] at hnodup hnew
    by_cases hadmits : b.options.admits k = true
    · rw [if_pos hadmits] at hnodup hnew ⊢
      obtain ⟨hk, hnodup⟩ := List.nodup_cons.mp hnodup
      obtain ⟨hfresh, hnew⟩ := List.forall_mem_cons.mp hnew
      have hfree : ¬ l.entries.contains k = true :=
        fun h => hfresh (ExtTreeMap.contains_iff_mem.mp h)
      rw [if_neg hfree]
      obtain ⟨l', hl', hentries, hused⟩ :=
        ih (l := l.record k (b.entry k value)) hnodup fun k' hk' => by
          rw [mem_entries_record]
          rintro (rfl | h)
          · exact hk hk'
          · exact hnew k' hk' h
      refine ⟨l', hl', fun k' entry => ?_, fun g => ?_⟩
      · rw [hentries, entries_record]
        by_cases he : k' = k
        · subst he
          have hnone : l.entries[k']? = none := ExtTreeMap.getElem?_eq_none hfresh
          have hlast : ∀ value', (k', value') ∉ items := fun value' h =>
            hk (mem_admitted.mpr ⟨⟨value', h⟩, hadmits⟩)
          simp [hnone, hlast, hadmits]
        · simp [he]
      · rw [hused, mem_used_record]
        grind
    · rw [if_neg hadmits] at hnodup hnew ⊢
      obtain ⟨l', hl', hentries, hused⟩ := ih hnodup hnew
      refine ⟨l', hl', fun k' entry => ?_, fun g => ?_⟩
      · rw [hentries]
        by_cases he : k' = k
        · subst he
          simp [hadmits]
        · simp [he]
      · rw [hused]
        grind

/-- Otherwise the insertion of an item that is there already is refused. -/
theorem applyAll_inserts_eq_error
    (h : ¬ ((admitted b items).Nodup ∧ ∀ k ∈ admitted b items, k ∉ l.entries)) :
    ∃ k ∈ admitted b items, (k ∈ l.entries ∨ 2 ≤ (admitted b items).count k) ∧
      l.applyAll b (items.map fun (k, value) => .insert k value none) =
        .error (.duplicateKey k) := by
  induction items generalizing l with
  | nil => exact absurd ⟨.nil, by simp [admitted]⟩ h
  | cons x items ih =>
    obtain ⟨k, value⟩ := x
    rw [List.map_cons, applyAll_cons, apply_insert]
    rw [admitted_cons] at h ⊢
    by_cases hadmits : b.options.admits k = true
    · rw [if_pos hadmits] at h
      simp only [if_pos hadmits]
      by_cases hk : l.entries.contains k = true
      · rw [if_pos hk]
        exact ⟨k, List.mem_cons_self, .inl (ExtTreeMap.contains_iff_mem.mp hk), rfl⟩
      · rw [if_neg hk]
        -- the clash is among the other items or of one of them with this one
        obtain ⟨k', hk', hclash, herror⟩ := ih (l := l.record k (b.entry k value)) fun hrest => by
          refine h ⟨List.nodup_cons.mpr ⟨fun hin => ?_, hrest.1⟩,
            List.forall_mem_cons.mpr ⟨fun hin => hk (ExtTreeMap.contains_iff_mem.mpr hin), ?_⟩⟩
          · exact hrest.2 k hin (mem_entries_record.mpr (.inl rfl))
          · exact fun k' hk' hin => hrest.2 k' hk' (mem_entries_record.mpr (.inr hin))
        refine ⟨k', List.mem_cons_of_mem _ hk', ?_, herror⟩
        rcases hclash with hin | htwice
        · rcases mem_entries_record.mp hin with rfl | hin
          · have hpos := List.count_pos_iff.mpr hk'
            exact .inr (by rw [List.count_cons_self]; omega)
          · exact .inl hin
        · exact .inr (Nat.le_trans htwice (List.count_le_count_cons))
    · rw [if_neg hadmits] at h
      simp only [if_neg hadmits]
      exact ih h

end Seed

end Ledger

end GroupedView
