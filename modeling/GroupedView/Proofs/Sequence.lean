import Mathlib.Data.List.InsertIdx
import Mathlib.Data.List.Nodup

/-!
# GroupedView.Proofs.Sequence — lists edited at an index

In a list whose elements are told apart by their images, taking away the element at an index is the
same as leaving out the elements with its image (`eraseIdx_eq_filter_of_map`).
-/

open Std

namespace GroupedView

variable {α β : Type}

/-- The element at an index is told from all others by its image under `f`. -/
theorem eraseIdx_eq_filter_of_map [DecidableEq β] {f : α → β} {l : List α} (hl : (l.map f).Nodup)
    {i : Nat} {x : α} (hx : l[i]? = some x) : l.eraseIdx i = l.filter (f · ≠ f x) := by
  induction l generalizing i with
  | nil => simp at hx
  | cons y l ih =>
    rw [List.map_cons, List.nodup_cons] at hl
    obtain ⟨hy, hl⟩ := hl
    cases i with
    | zero =>
      rw [List.getElem?_cons_zero] at hx
      cases hx
      rw [List.eraseIdx_cons_zero, List.filter_cons_of_neg (by simp)]
      refine (List.filter_eq_self.mpr fun z hz => ?_).symm
      have hne : f z ≠ f x := fun he => hy (he ▸ List.mem_map_of_mem hz)
      simpa using hne
    | succ i =>
      rw [List.getElem?_cons_succ] at hx
      have hne : f y ≠ f x := fun he =>
        hy (he ▸ List.mem_map_of_mem (List.mem_of_getElem? hx))
      rw [List.eraseIdx_cons_succ, ih hl hx, List.filter_cons_of_pos (by simpa using hne)]

theorem filter_insertIdx_of_neg {P : α → Bool} {x : α} (hx : P x = false) (l : List α) (i : Nat) :
    (l.insertIdx i x).filter P = l.filter P := by
  induction i generalizing l with
  | zero => rw [List.insertIdx_zero, List.filter_cons_of_neg (by simpa using hx)]
  | succ i ih =>
    cases l with
    | nil => rfl
    | cons y l => rw [List.insertIdx_succ_cons, List.filter_cons, List.filter_cons, ih]

theorem insertIdx_eraseIdx_of_getElem? {x : α} {l : List α} {i : Nat} (hx : l[i]? = some x) :
    (l.eraseIdx i).insertIdx i x = l := by
  obtain ⟨hi, rfl⟩ := List.getElem?_eq_some_iff.mp hx
  exact List.insertIdx_eraseIdx_getElem hi

theorem insertIdx_eq_take_append {x : α} {l : List α} {i : Nat} (hi : i ≤ l.length) :
    l.insertIdx i x = l.take i ++ x :: l.drop i := by
  induction i generalizing l with
  | zero => rfl
  | succ i ih =>
    cases l with
    | nil => exact absurd hi (Nat.not_succ_le_zero i)
    | cons y l =>
      rw [List.insertIdx_succ_cons, ih (Nat.le_of_succ_le_succ hi), List.take_succ_cons,
        List.drop_succ_cons, List.cons_append]

theorem filter_eraseIdx_of_neg {P : α → Bool} {x : α} {l : List α} {i : Nat} (hx : l[i]? = some x)
    (hP : P x = false) : (l.eraseIdx i).filter P = l.filter P := by
  rw [← filter_insertIdx_of_neg hP (l.eraseIdx i) i, insertIdx_eraseIdx_of_getElem? hx]

/-- What a list without repetitions has in common with a part of it is that part. -/
theorem filter_mem_of_sublist [DecidableEq α] {c l : List α} (h : c.Sublist l) (hl : l.Nodup) :
    l.filter (· ∈ c) = c := by
  have hsub : c.Sublist (l.filter (· ∈ c)) := by
    have hc := h.filter (· ∈ c)
    rwa [List.filter_eq_self.mpr fun x hx => decide_eq_true hx] at hc
  have hperm : (l.filter (· ∈ c)).Perm c := by
    refine (List.perm_ext_iff_of_nodup (hl.filter _) (hl.sublist h)).mpr fun x => ?_
    rw [List.mem_filter, decide_eq_true_eq]
    exact ⟨And.right, fun hx => ⟨h.mem hx, hx⟩⟩
  exact (hsub.eq_of_length hperm.length_eq.symm).symm

/-- Elements named with indices that go up stand in the list in that order. -/
theorem map_fst_sublist_drop {l : List α} {ps : List (α × Nat)} {n : Nat}
    (hup : ps.Pairwise fun x y => x.2 < y.2) (hl : ∀ p ∈ ps, l[p.2]? = some p.1)
    (hn : ∀ p ∈ ps, n ≤ p.2) : (ps.map Prod.fst).Sublist (l.drop n) := by
  induction ps generalizing n with
  | nil => exact List.nil_sublist _
  | cons p ps ih =>
    obtain ⟨hfirst, hup⟩ := List.pairwise_cons.mp hup
    have hrest := ih hup (fun q hq => hl q (List.mem_cons_of_mem p hq))
      (fun q hq => Nat.succ_le_of_lt (hfirst q hq))
    obtain ⟨hi, hp⟩ := List.getElem?_eq_some_iff.mp (hl p List.mem_cons_self)
    have hdrop : l.drop p.2 = p.1 :: l.drop (p.2 + 1) := by rw [List.drop_eq_getElem_cons hi, hp]
    refine List.Sublist.trans ?_ (List.drop_sublist_drop_left l (hn p List.mem_cons_self))
    rw [hdrop, List.map_cons]
    exact hrest.cons_cons _

theorem idxOf?_eq_some_iff_of_nodup [DecidableEq α] {l : List α} (hl : l.Nodup) {i : Nat} {x : α} :
    l.idxOf? x = some i ↔ l[i]? = some x := by
  rw [List.idxOf?_eq_some_iff, List.getElem?_eq_some_iff]
  constructor
  · rintro ⟨hi, hx, -⟩
    exact ⟨hi, by simpa using hx⟩
  · rintro ⟨hi, hx⟩
    refine ⟨hi, by simpa using hx, fun j hj he => ?_⟩
    have hji : j = i := (List.getElem_inj hl).mp (by rw [hx]; simpa using he)
    omega

/-- An element of a list without repetitions stands in it once. -/
theorem filterMap_eq_of_nodup [DecidableEq α] {l : List α} (hl : l.Nodup) (x : α) (y : β) :
    l.filterMap (fun z => if z = x then some y else none) = if x ∈ l then [y] else [] := by
  induction l with
  | nil => rfl
  | cons z l ih =>
    obtain ⟨hz, hl⟩ := List.nodup_cons.mp hl
    rw [List.filterMap_cons, ih hl]
    by_cases hzx : z = x
    · subst hzx
      rw [if_pos rfl, if_neg hz, if_pos List.mem_cons_self]
    · simp [hzx, Ne.symm hzx]

/-- Sorting elements none of which are level puts them in strict order. -/
theorem pairwise_not_le_mergeSort {le : α → α → Bool} {l : List α}
    (trans : ∀ a b c, le a b = true → le b c = true → le a c = true)
    (total : ∀ a b, (le a b || le b a) = true)
    (hl : l.Pairwise fun x y => ¬ (le x y = true ∧ le y x = true)) :
    (l.mergeSort le).Pairwise fun x y => le y x = false := by
  have hne : (l.mergeSort le).Pairwise fun x y => ¬ (le x y = true ∧ le y x = true) :=
    ((List.mergeSort_perm l le).pairwise_iff fun h he => h he.symm).mpr hl
  refine ((List.pairwise_mergeSort trans total l).and hne).imp fun ⟨hle, h⟩ => ?_
  exact Bool.eq_false_iff.mpr fun he => h ⟨hle, he⟩

/-- Sorting forgets the order of a list if elements that are level are equal. -/
theorem mergeSort_eq_of_perm {le : α → α → Bool} {l l' : List α}
    (trans : ∀ a b c, le a b = true → le b c = true → le a c = true)
    (total : ∀ a b, (le a b || le b a) = true)
    (antisymm : ∀ a ∈ l, ∀ b ∈ l, le a b = true → le b a = true → a = b) (h : l.Perm l') :
    l.mergeSort le = l'.mergeSort le := by
  have hsorted : (l.mergeSort le).Perm (l'.mergeSort le) :=
    ((List.mergeSort_perm l le).trans h).trans (List.mergeSort_perm l' le).symm
  refine hsorted.eq_of_pairwise (fun a b ha hb => ?_) (List.pairwise_mergeSort trans total l)
    (List.pairwise_mergeSort trans total l')
  exact antisymm a (List.mem_mergeSort.mp ha) b (h.mem_iff.mpr (List.mem_mergeSort.mp hb))

/-- Elements that a lawful comparison tells apart, sorted by it. -/
theorem pairwise_mergeSort_cmp (cmp : β → β → Ordering) [TransCmp cmp] (f : α → β) {l : List α}
    (hl : l.Pairwise fun x y => cmp (f x) (f y) ≠ .eq) :
    (l.mergeSort fun x y => (cmp (f x) (f y)).isLE).Pairwise
      fun x y => cmp (f x) (f y) = .lt := by
  have htotal : ∀ x y : α, ((cmp (f x) (f y)).isLE || (cmp (f y) (f x)).isLE) = true := by
    intro x y
    by_cases hle : (cmp (f x) (f y)).isLE = true
    · rw [hle, Bool.true_or]
    · rw [Ordering.isLE_of_eq_lt (OrientedCmp.lt_of_not_isLE hle), Bool.or_true]
  refine (pairwise_not_le_mergeSort (fun _ _ _ => TransCmp.isLE_trans) htotal ?_).imp fun hle => ?_
  · exact hl.imp fun hne ⟨hxy, hyx⟩ => hne (OrientedCmp.isLE_antisymm hxy hyx)
  · exact OrientedCmp.lt_of_not_isLE (Bool.eq_false_iff.mp hle)

/-- Different numbers, sorted. -/
theorem pairwise_lt_mergeSort {l : List Nat} (hl : l.Nodup) :
    (l.mergeSort fun i j => i ≤ j).Pairwise (· < ·) := by
  refine (pairwise_not_le_mergeSort (by grind) (by grind) (hl.imp ?_)).imp ?_
  · grind
  · grind

/-- Different numbers, sorted the other way round. -/
theorem pairwise_gt_mergeSort {l : List Nat} (hl : l.Nodup) :
    (l.mergeSort fun i j => j ≤ i).Pairwise (· > ·) := by
  refine (pairwise_not_le_mergeSort (by grind) (by grind) (hl.imp ?_)).imp ?_
  · grind
  · grind

end GroupedView
