import GroupedView.Proofs.Ledger
import GroupedView.Proofs.Store

/-!
# GroupedView.Proofs.Mirror — a ledger that keeps up with a store

`Ledger.Mirrors` says that a ledger has written down the present items of a store as far as the
options admit them.  The mutations that a transaction notes are accepted by a ledger that mirrors
the store before it, and lead to one that mirrors the store after it (`Mirrors.performAll`).

A writer that touches an item promises that its place stays the same.  `Store.Faithful` says that
this promise was kept; then each entry is the one that the present value calls for.
-/

open Std

namespace GroupedView

variable {V S : Type}

/-! ## Writers that keep their promise -/

section Faithful

variable (b : Arrangement Id V S)

/-- A touch gives a key a value that stands where the value stood that it replaces. -/
def Request.Faithful (items : ItemMap V) : Request V → Prop
  | .touch k value => ∀ old ∈ items[k]?, b.entry k value = b.entry k old
  | .set .. | .remove _ | .get _ | .contains _ | .size => True

/-- Each touch among the requests of a transaction is faithful. -/
def Draft.Faithful : Draft V → List (Request V) → Prop
  | _, [] => True
  | d, r :: rest => r.Faithful b d.items ∧ Draft.Faithful (d.perform r).2 rest

/-- Each touch of a history is faithful. -/
def Store.Faithful : Store V → List (List (Request V)) → Prop
  | _, [] => True
  | s, requests :: rest =>
    Draft.Faithful b ⟨s.items, []⟩ requests ∧ Store.Faithful (s.transact requests).2.2 rest

instance [DecidableEq S] (items : ItemMap V) : (r : Request V) → Decidable (r.Faithful b items)
  | .touch k value =>
    inferInstanceAs (Decidable (∀ old ∈ items[k]?, b.entry k value = b.entry k old))
  | .set .. | .remove _ | .get _ | .contains _ | .size => isTrue trivial

instance decidableFaithfulDraft [DecidableEq S] :
    (d : Draft V) → (requests : List (Request V)) → Decidable (d.Faithful b requests)
  | _, [] => isTrue trivial
  | d, _ :: rest => @instDecidableAnd _ _ _ (decidableFaithfulDraft (d.perform _).2 rest)

instance decidableFaithfulStore [DecidableEq S] :
    (s : Store V) → (history : List (List (Request V))) → Decidable (s.Faithful b history)
  | _, [] => isTrue trivial
  | s, requests :: rest =>
    @instDecidableAnd _ _ _ (decidableFaithfulStore (s.transact requests).2.2 rest)

variable {b}

theorem Store.faithful_concat {s : Store V} {history : List (List (Request V))}
    {requests : List (Request V)} : s.Faithful b (history ++ [requests]) ↔
      s.Faithful b history ∧ Draft.Faithful b ⟨(s.run history).items, []⟩ requests := by
  induction history generalizing s with
  | nil => simp [Store.Faithful, Store.run]
  | cons first rest ih =>
    rw [List.cons_append, Store.Faithful, Store.Faithful, ih, and_assoc]
    rfl

end Faithful

namespace Ledger

variable {b : Arrangement Id V S} {l l' : Ledger S} {items items' : ItemMap V}
  {faithful faithful' : Prop} {k : ItemKey} {value : V}

/-! ## Keeping up -/

/-- The ledger has the admitted items; if the writers were faithful, it has them where their values
belong. -/
structure Mirrors (b : Arrangement Id V S) (faithful : Prop) (l : Ledger S) (items : ItemMap V) :
    Prop where
  mem_entries_iff : ∀ k, k ∈ l.entries ↔ b.options.admits k = true ∧ k ∈ items
  entry_eq : faithful → ∀ (k : ItemKey) (value : V), b.options.admits k = true →
    items[k]? = some value → l.entries[k]? = some (b.entry k value)

namespace Mirrors

theorem mono (h : l.Mirrors b faithful items) (himp : faithful' → faithful) :
    l.Mirrors b faithful' items where
  mem_entries_iff := h.mem_entries_iff
  entry_eq hf := h.entry_eq (himp hf)

theorem contains_eq (h : l.Mirrors b faithful items) (hadmits : b.options.admits k = true) :
    l.entries.contains k = items.contains k := by
  rw [Bool.eq_iff_iff, ExtTreeMap.contains_iff_mem, ExtTreeMap.contains_iff_mem,
    h.mem_entries_iff]
  exact and_iff_right hadmits

/-- Items that are not admitted do not matter. -/
theorem congr (h : l.Mirrors b faithful items)
    (hitems : ∀ k : ItemKey, b.options.admits k = true → items'[k]? = items[k]?) :
    l.Mirrors b faithful items' where
  mem_entries_iff k := by
    rw [h.mem_entries_iff]
    refine and_congr_right fun hadmits => ?_
    rw [ExtTreeMap.mem_iff_isSome_getElem?, ExtTreeMap.mem_iff_isSome_getElem?, hitems k hadmits]
  entry_eq hf k value hadmits hk := h.entry_eq hf k value hadmits (hitems k hadmits ▸ hk)

theorem insert (h : l.Mirrors b faithful items) (hadmits : b.options.admits k = true) :
    (l.record k (b.entry k value)).Mirrors b faithful (items.insert k value) where
  mem_entries_iff k' := by
    rw [mem_entries_record, mem_map_insert, h.mem_entries_iff]
    grind
  entry_eq hf k' value' hadmits' hk' := by
    rw [getElem?_map_insert] at hk'
    rw [entries_record]
    split at hk'
    · next he =>
      cases hk'
      rw [if_pos he, he]
    · next he =>
      rw [if_neg he]
      exact h.entry_eq hf k' value' hadmits' hk'

/-- A faithful touch needs no entry. -/
theorem touch (h : l.Mirrors b faithful items) (hk : k ∈ items)
    (hsame : faithful → ∀ old ∈ items[k]?, b.entry k value = b.entry k old) :
    l.Mirrors b faithful (items.insert k value) where
  mem_entries_iff k' := by
    rw [mem_map_insert, h.mem_entries_iff]
    grind
  entry_eq hf k' value' hadmits' hk' := by
    rw [getElem?_map_insert] at hk'
    split at hk'
    · next he =>
      cases hk'
      obtain ⟨old, hold⟩ := mem_map_iff.mp hk
      rw [he] at hadmits' ⊢
      rw [hsame hf old hold]
      exact h.entry_eq hf k old hadmits' hold
    · exact h.entry_eq hf k' value' hadmits' hk'

theorem erase (h : l.Mirrors b faithful items) :
    (l.forget k).Mirrors b faithful (items.erase k) where
  mem_entries_iff k' := by
    rw [forget, ExtTreeMap.mem_erase, ExtTreeMap.mem_erase, h.mem_entries_iff]
    exact and_left_comm
  entry_eq hf k' value' hadmits' hk' := by
    rw [getElem?_map_erase] at hk'
    rw [entries_forget]
    split at hk'
    · cases hk'
    · next he =>
      rw [if_neg he]
      exact h.entry_eq hf k' value' hadmits' hk'

/-- Ledgers that mirror the same items after faithful writers have the same entries. -/
theorem entries_eq (h : l.Mirrors b faithful items) (h' : l'.Mirrors b faithful' items)
    (hf : faithful) (hf' : faithful') : l.entries = l'.entries := by
  refine ExtTreeMap.ext_getElem? fun k => ?_
  by_cases hk : b.options.admits k = true ∧ k ∈ items
  · obtain ⟨value, hvalue⟩ := mem_map_iff.mp hk.2
    rw [h.entry_eq hf k value hk.1 hvalue, h'.entry_eq hf' k value hk.1 hvalue]
  · rw [ExtTreeMap.getElem?_eq_none fun hin => hk ((h.mem_entries_iff k).mp hin),
      ExtTreeMap.getElem?_eq_none fun hin => hk ((h'.mem_entries_iff k).mp hin)]

/-- The ledger of all present items mirrors them, and has used the groups that they are in. -/
theorem of_seed (b : Arrangement Id V S) (items : ItemMap V) :
    ∃ l, Ledger.seed b items.toList = .ok l ∧ l.Mirrors b True items ∧
      ∀ g ∈ l.used, ∃ (k : ItemKey) (pl : Placement S),
        l.entries[k]? = some (some pl) ∧ pl.group = g := by
  have hnodup : (admitted b items.toList).Nodup := by
    rw [admitted, ExtTreeMap.map_fst_toList_eq_keys]
    exact ExtTreeMap.nodup_keys.filter _
  obtain ⟨l, hl, hentries, hused⟩ :=
    applyAll_inserts (l := ({} : Ledger S)) hnodup fun _ _ => ExtTreeMap.not_mem_empty
  have hentry : ∀ (k : ItemKey) (entry : Option (Placement S)), l.entries[k]? = some entry ↔
      ∃ value, items[k]? = some value ∧ b.options.admits k ∧ b.entry k value = entry := by
    intro k entry
    simp [hentries, ExtTreeMap.mem_toList_iff_getElem?_eq_some]
  refine ⟨l, hl, ⟨fun k => ?_, fun _ k value hadmits hk => ?_⟩, fun g hg => ?_⟩
  · rw [mem_map_iff, mem_map_iff]
    constructor
    · rintro ⟨entry, he⟩
      obtain ⟨value, hvalue, hadmits, -⟩ := (hentry k entry).mp he
      exact ⟨hadmits, value, hvalue⟩
    · rintro ⟨hadmits, value, hvalue⟩
      exact ⟨_, (hentry k _).mpr ⟨value, hvalue, hadmits, rfl⟩⟩
  · exact (hentry k _).mpr ⟨value, hk, hadmits, rfl⟩
  · rcases (hused g).mp hg with hg | ⟨k, value, pl, hk, hadmits, he, hgroup⟩
    · exact absurd hg ExtTreeSet.not_mem_empty
    · rw [ExtTreeMap.mem_toList_iff_getElem?_eq_some] at hk
      exact ⟨k, pl, (hentry k _).mpr ⟨value, hk, hadmits, he⟩, hgroup⟩

/-! ## Transactions -/

/-- What a request notes is accepted. -/
theorem perform {d : Draft V} (h : l.Mirrors b faithful d.items) {r : Request V}
    (hr : faithful → r.Faithful b d.items) :
    ∃ mus l', (d.perform r).2.mutations = d.mutations ++ mus ∧ l.applyAll b mus = .ok l' ∧
      l'.Mirrors b faithful (d.perform r).2.items := by
  cases r with
  | set k value hint =>
    refine ⟨[if d.items.contains k then .update k value true else .insert k value hint], ?_⟩
    rw [applyAll_singleton]
    by_cases hadmits : b.options.admits k = true
    · refine ⟨l.record k (b.entry k value), rfl, ?_, h.insert hadmits⟩
      have hcontains := h.contains_eq hadmits
      split
      · next hk => rw [apply_update, if_pos hadmits, if_pos (hcontains.trans hk), if_pos rfl]
      · next hk => rw [apply_insert, if_pos hadmits, if_neg fun hin => hk (hcontains ▸ hin)]
    · refine ⟨l, rfl, apply_of_not_admits ?_, h.congr fun k' hadmits' => ?_⟩
      · split <;> exact hadmits
      · have hne : k' ≠ k := fun he => hadmits (he ▸ hadmits')
        exact getElem?_map_insert.trans (if_neg hne)
  | touch k value =>
    by_cases hk : d.items.contains k = true
    · have hperform : (d.perform (.touch k value)).2 = d.put k value (.update k value false) := by
        rw [Draft.perform, if_pos hk]
      rw [hperform]
      refine ⟨[.update k value false], l, rfl, ?_,
        h.touch (ExtTreeMap.contains_iff_mem.mp hk) hr⟩
      rw [applyAll_singleton]
      by_cases hadmits : b.options.admits k = true
      · rw [apply_update, if_pos hadmits, if_pos ((h.contains_eq hadmits).trans hk)]
        rfl
      · exact apply_of_not_admits hadmits
    · have hperform : (d.perform (.touch k value)).2 = d := by rw [Draft.perform, if_neg hk]
      rw [hperform]
      exact ⟨[], l, (List.append_nil _).symm, rfl, h⟩
  | remove k =>
    by_cases hk : d.items.contains k = true
    · have hperform : (d.perform (.remove k)).2 = d.drop k := by rw [Draft.perform, if_pos hk]
      rw [hperform]
      refine ⟨[.delete k], ?_⟩
      rw [applyAll_singleton]
      by_cases hadmits : b.options.admits k = true
      · refine ⟨l.forget k, rfl, ?_, h.erase⟩
        rw [apply_delete, if_pos hadmits, if_pos ((h.contains_eq hadmits).trans hk)]
      · refine ⟨l, rfl, apply_of_not_admits hadmits, h.congr fun k' hadmits' => ?_⟩
        have hne : k' ≠ k := fun he => hadmits (he ▸ hadmits')
        exact getElem?_map_erase.trans (if_neg hne)
    · have hperform : (d.perform (.remove k)).2 = d := by rw [Draft.perform, if_neg hk]
      rw [hperform]
      exact ⟨[], l, (List.append_nil _).symm, rfl, h⟩
  | get | contains | size => exact ⟨[], l, (List.append_nil _).symm, rfl, h⟩

/-- What the requests of a transaction note is accepted. -/
theorem performAll {d : Draft V} (h : l.Mirrors b faithful d.items) {requests : List (Request V)}
    (hr : faithful → d.Faithful b requests) :
    ∃ mus l', (d.performAll requests).2.mutations = d.mutations ++ mus ∧
      l.applyAll b mus = .ok l' ∧ l'.Mirrors b faithful (d.performAll requests).2.items := by
  induction requests generalizing d l with
  | nil => exact ⟨[], l, (List.append_nil _).symm, rfl, h⟩
  | cons r rest ih =>
    obtain ⟨mus, l', hmus, hl', h'⟩ := h.perform fun hf => (hr hf).1
    obtain ⟨mus', l'', hmus', hl'', h''⟩ := ih h' fun hf => (hr hf).2
    refine ⟨mus ++ mus', l'', ?_, ?_, h''⟩
    · rw [← List.append_assoc, ← hmus]
      exact hmus'
    · rw [applyAll_append, hl']
      exact hl''

end Mirrors

end Ledger

end GroupedView
