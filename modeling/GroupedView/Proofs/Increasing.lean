import GroupedView.Increasing
import Mathlib.Data.List.Induction

/-!
# GroupedView.Proofs.Increasing — the marked values are a longest increasing subsequence

* `Rising xs chain top` says that a chain of positions of `xs`, the last one first, has values that
  go up and end at most at `top`.  Each pile carries such a chain for its top
  (`rising_of_mem_piles`), so the values that `longestIncreasing` marks go up strictly
  (`pairwise_marked`).
* `Fits ps u` says that the values `u` are, one by one, at least the tops of the first piles.  Each
  increasing subsequence fits (`fits_piles`), and the last pile has a chain with a position for each
  pile, so no increasing subsequence is longer than what is marked (`length_le_length_marked`).
-/

namespace GroupedView

/-- A chain of positions, the last one first, with values that go up to `top` at most. -/
structure Rising (xs : List Nat) (chain : List Nat) (top : Nat) : Prop where
  value_le : ∀ i ∈ chain, ∃ u ≤ top, xs[i]? = some u
  descends : chain.Pairwise fun i j => j < i ∧ ∃ u w, xs[j]? = some u ∧ xs[i]? = some w ∧ u < w

namespace Rising

variable {xs chain : List Nat} {top v : Nat}

theorem nil : Rising xs [] top := ⟨by simp, .nil⟩

/-- The positions are those of values. -/
theorem lt_length (h : Rising xs chain top) {i : Nat} (hi : i ∈ chain) : i < xs.length := by
  obtain ⟨u, -, hu⟩ := h.value_le i hi
  exact (List.getElem?_eq_some_iff.mp hu).1

theorem getElem?_concat_of_some {i u : Nat} (h : xs[i]? = some u) : (xs ++ [v])[i]? = some u := by
  rw [List.getElem?_append_left (List.getElem?_eq_some_iff.mp h).1, h]

/-- Later values change nothing. -/
theorem concat (h : Rising xs chain top) : Rising (xs ++ [v]) chain top where
  value_le i hi := by
    obtain ⟨u, hu, hx⟩ := h.value_le i hi
    exact ⟨u, hu, getElem?_concat_of_some hx⟩
  descends := by
    refine h.descends.imp fun ⟨hij, u, w, hu, hw, huw⟩ => ?_
    exact ⟨hij, u, w, getElem?_concat_of_some hu, getElem?_concat_of_some hw, huw⟩

/-- A larger value at the end prolongs a chain. -/
theorem cons (h : Rising xs chain top) (hv : chain ≠ [] → top < v) :
    Rising (xs ++ [v]) (xs.length :: chain) v where
  value_le i hi := by
    rcases List.mem_cons.mp hi with rfl | hi
    · exact ⟨v, Nat.le_refl v, List.getElem?_concat_length⟩
    · obtain ⟨u, hu, hx⟩ := h.concat.value_le i hi
      have hlt := hv (List.ne_nil_of_mem hi)
      exact ⟨u, by omega, hx⟩
  descends := by
    refine List.pairwise_cons.mpr ⟨fun j hj => ?_, h.concat.descends⟩
    obtain ⟨u, hu, hx⟩ := h.value_le j hj
    have hlt := hv (List.ne_nil_of_mem hj)
    refine ⟨(List.getElem?_eq_some_iff.mp hx).1, u, v, ?_, List.getElem?_concat_length, by omega⟩
    exact getElem?_concat_of_some hx

end Rising

variable {xs : List Nat}

theorem rising_of_mem_deal {v top : Nat} {below : List Nat} {ps : List Pile}
    (hbelow : Rising xs below top) (hv : below ≠ [] → top < v)
    (hps : ∀ p ∈ ps, Rising xs p.chain p.top) :
    ∀ p ∈ deal xs.length v below ps, Rising (xs ++ [v]) p.chain p.top := by
  induction ps generalizing below top with
  | nil =>
    intro p hp
    cases List.mem_singleton.mp hp
    exact hbelow.cons hv
  | cons q ps ih =>
    intro p hp
    have hq := hps q List.mem_cons_self
    have hrest : ∀ p ∈ ps, Rising xs p.chain p.top := fun p hp => hps p (List.mem_cons_of_mem q hp)
    rw [deal] at hp
    split at hp
    · next hlt =>
      rcases List.mem_cons.mp hp with rfl | hp
      · exact hq.concat
      · exact ih hq (fun _ => hlt) hrest p hp
    · rcases List.mem_cons.mp hp with rfl | hp
      · exact hbelow.cons hv
      · exact (hrest p hp).concat

/-- The chain of each pile goes up to its top. -/
theorem rising_of_mem_piles : ∀ p ∈ piles xs, Rising xs p.chain p.top := by
  induction xs using List.reverseRecOn with
  | nil => intro p hp; cases hp
  | append_singleton xs v ih =>
    rw [piles_concat]
    exact rising_of_mem_deal (.nil : Rising xs [] 0) (fun h => absurd rfl h) ih

theorem exists_rising_longestChain (xs : List Nat) : ∃ top, Rising xs (longestChain xs) top := by
  unfold longestChain
  cases hp : (piles xs).getLast? with
  | none => exact ⟨0, .nil⟩
  | some p => exact ⟨p.top, rising_of_mem_piles p (List.mem_of_getLast? hp)⟩

theorem lt_length_of_mem_longestChain {i : Nat} (hi : i ∈ longestChain xs) : i < xs.length := by
  obtain ⟨top, h⟩ := exists_rising_longestChain xs
  exact h.lt_length hi

/-- **The marked values go up.** -/
theorem lt_of_mem_longestChain {i j u w : Nat} (hi : i ∈ longestChain xs)
    (hj : j ∈ longestChain xs) (hij : i < j) (hu : xs[i]? = some u) (hw : xs[j]? = some w) :
    u < w := by
  obtain ⟨top, h⟩ := exists_rising_longestChain xs
  obtain ⟨a, ha, hai⟩ := List.getElem_of_mem hi
  obtain ⟨b, hb, hbj⟩ := List.getElem_of_mem hj
  have hdesc := List.pairwise_iff_getElem.mp h.descends
  -- the later position stands earlier in the chain
  rcases Nat.lt_trichotomy a b with hab | hab | hab
  · have hlt := (hdesc a b ha hb hab).1
    omega
  · subst hab
    omega
  · obtain ⟨-, u', w', hu', hw', hlt⟩ := hdesc b a hb ha hab
    rw [hai, hu] at hu'
    rw [hbj, hw] at hw'
    cases hu'
    cases hw'
    exact hlt

/-- Of a list of values with companions, those whose values are marked. -/
def marked {α : Type} (l : List (α × Nat)) : List (α × Nat) :=
  (l.zipIdx.filter fun (_, i) => (longestChain (l.map Prod.snd)).contains i).map Prod.fst

theorem zip_longestIncreasing {α : Type} (l : List (α × Nat)) :
    l.zip (longestIncreasing (l.map Prod.snd)) =
      l.zipIdx.map fun x => (x.1, (longestChain (l.map Prod.snd)).contains x.2) := by
  rw [longestIncreasing, List.length_map, List.zip_map_right, List.zipIdx_eq_zip_range',
    List.range_eq_range']
  rfl

theorem marked_sublist {α : Type} (l : List (α × Nat)) : (marked l).Sublist l := by
  have h := (List.filter_sublist (l := l.zipIdx)
    (p := fun (_, i) => (longestChain (l.map Prod.snd)).contains i)).map Prod.fst
  rwa [List.zipIdx_map_fst] at h

theorem pairwise_marked {α : Type} (l : List (α × Nat)) :
    (marked l).Pairwise fun x y => x.2 < y.2 := by
  have hidx : l.zipIdx.Pairwise fun x y => x.2 < y.2 := by
    rw [← List.pairwise_map, List.zipIdx_map_snd]
    exact List.pairwise_lt_range'
  rw [marked, List.pairwise_map]
  refine (hidx.filter _).imp_of_mem fun {x y} hx hy hxy => ?_
  obtain ⟨hx, hxi⟩ := List.mem_filter.mp hx
  obtain ⟨hy, hyi⟩ := List.mem_filter.mp hy
  rw [List.contains_iff_mem] at hxi hyi
  refine lt_of_mem_longestChain hxi hyi hxy ?_ ?_
  · rw [List.getElem?_map, List.mem_zipIdx_iff_getElem?.mp hx]
    rfl
  · rw [List.getElem?_map, List.mem_zipIdx_iff_getElem?.mp hy]
    rfl

/-! ## No increasing subsequence is longer -/

/-- One by one, the tops of the first piles are at most the values. -/
def Fits : List Pile → List Nat → Prop
  | _, [] => True
  | [], _ :: _ => False
  | p :: ps, x :: u => p.top ≤ x ∧ Fits ps u

@[simp] theorem fits_nil (ps : List Pile) : Fits ps [] := by cases ps <;> trivial

theorem Fits.length_le {ps : List Pile} {u : List Nat} (h : Fits ps u) : u.length ≤ ps.length := by
  induction ps generalizing u with
  | nil =>
    cases u with
    | nil => exact Nat.le_refl 0
    | cons x u => cases h
  | cons p ps ih =>
    cases u with
    | nil => exact Nat.zero_le _
    | cons x u => exact Nat.succ_le_succ (ih h.2)

/-- No top gets larger. -/
theorem fits_deal {ps : List Pile} {u : List Nat} (h : Fits ps u) (i v : Nat) (below : List Nat) :
    Fits (deal i v below ps) u := by
  induction ps generalizing u below with
  | nil =>
    cases u with
    | nil => trivial
    | cons x u => cases h
  | cons p ps ih =>
    cases u with
    | nil => exact fits_nil _
    | cons x u =>
      rw [deal]
      split
      · exact ⟨h.1, ih h.2 p.chain⟩
      · next hle => exact ⟨Nat.le_trans (Nat.le_of_not_lt hle) h.1, h.2⟩

/-- A value above all others is not laid before the place after them. -/
theorem fits_deal_concat {ps : List Pile} {u : List Nat} (h : Fits ps u) {v : Nat}
    (hv : ∀ x ∈ u, x < v) (i : Nat) (below : List Nat) :
    Fits (deal i v below ps) (u ++ [v]) := by
  induction ps generalizing u below with
  | nil =>
    cases u with
    | nil => exact ⟨Nat.le_refl v, trivial⟩
    | cons x u => cases h
  | cons p ps ih =>
    rw [deal]
    cases u with
    | nil =>
      split
      · next hlt => exact ⟨Nat.le_of_lt hlt, fits_nil _⟩
      · exact ⟨Nat.le_refl v, fits_nil _⟩
    | cons x u =>
      have hlt : p.top < v := Nat.lt_of_le_of_lt h.1 (hv x List.mem_cons_self)
      rw [if_pos hlt]
      exact ⟨h.1, ih h.2 (fun y hy => hv y (List.mem_cons_of_mem x hy)) p.chain⟩

/-- Each increasing subsequence has a pile for each of its values. -/
theorem fits_piles {u : List Nat} (hu : u.Sublist xs) (hup : u.Pairwise (· < ·)) :
    Fits (piles xs) u := by
  induction xs using List.reverseRecOn generalizing u with
  | nil =>
    cases List.sublist_nil.mp hu
    trivial
  | append_singleton xs v ih =>
    rw [piles_concat]
    obtain ⟨w, last, rfl, hw, hlast⟩ := List.sublist_append_iff.mp hu
    obtain ⟨hwup, -, hv⟩ := List.pairwise_append.mp hup
    rcases List.sublist_cons_iff.mp hlast with hnil | ⟨last, rfl, hnil⟩
    · rw [List.sublist_nil.mp hnil, List.append_nil]
      exact fits_deal (ih hw hwup) _ v []
    · rw [List.sublist_nil.mp hnil]
      exact fits_deal_concat (ih hw hwup) (fun x hx => hv x hx v List.mem_cons_self) _ []

theorem length_chain_of_deal {i v j : Nat} {below : List Nat} {ps : List Pile} {p : Pile}
    (hps : ∀ j p, ps[j]? = some p → p.chain.length = below.length + j + 1)
    (hp : (deal i v below ps)[j]? = some p) : p.chain.length = below.length + j + 1 := by
  induction ps generalizing below j with
  | nil =>
    obtain ⟨rfl, rfl⟩ : 0 = j ∧ (⟨v, i :: below⟩ : Pile) = p := by
      simpa [deal, List.getElem?_singleton, eq_comm] using hp
    rfl
  | cons q ps ih =>
    have hq : q.chain.length = below.length + 1 := hps 0 q rfl
    have hrest : ∀ j p, ps[j]? = some p → p.chain.length = below.length + 1 + j + 1 := by
      intro j p hp
      have hlength := hps (j + 1) p hp
      omega
    rw [deal] at hp
    cases j with
    | zero =>
      split at hp
      · cases hp
        exact hq
      · cases hp
        rfl
    | succ j =>
      split at hp
      · have hlength := ih (by rwa [hq]) hp
        omega
      · have hlength := hrest j p hp
        omega

/-- The chain of a pile has a position for each pile up to there. -/
theorem length_chain {j : Nat} {p : Pile} (hp : (piles xs)[j]? = some p) :
    p.chain.length = j + 1 := by
  induction xs using List.reverseRecOn generalizing j p with
  | nil => cases hp
  | append_singleton xs v ih =>
    rw [piles_concat] at hp
    have hlength : p.chain.length = ([] : List Nat).length + j + 1 :=
      length_chain_of_deal (fun j p hp => by simpa using ih hp) hp
    simpa using hlength

theorem length_longestChain (xs : List Nat) : (longestChain xs).length = (piles xs).length := by
  rw [longestChain]
  cases hp : (piles xs).getLast? with
  | none =>
    rw [List.getLast?_eq_none_iff.mp hp]
    rfl
  | some p =>
    rw [List.getLast?_eq_getElem?] at hp
    have hlength := length_chain hp
    have hlt := (List.getElem?_eq_some_iff.mp hp).1
    show p.chain.length = _
    omega

theorem length_marked {α : Type} (l : List (α × Nat)) :
    (marked l).length = (longestChain (l.map Prod.snd)).length := by
  obtain ⟨top, h⟩ := exists_rising_longestChain (l.map Prod.snd)
  have hnodup : (longestChain (l.map Prod.snd)).Nodup := h.descends.imp fun ⟨hlt, _⟩ => by omega
  have hperm : ((List.range l.length).filter ((longestChain (l.map Prod.snd)).contains ·)).Perm
      (longestChain (l.map Prod.snd)) := by
    refine (List.perm_ext_iff_of_nodup (List.nodup_range.filter _) hnodup).mpr fun i => ?_
    rw [List.mem_filter, List.contains_iff_mem, List.mem_range]
    refine and_iff_right_of_imp fun hi => ?_
    simpa using lt_length_of_mem_longestChain hi
  have hpositions : (l.zipIdx.filter
      fun (_, i) => (longestChain (l.map Prod.snd)).contains i).map Prod.snd =
      (List.range l.length).filter ((longestChain (l.map Prod.snd)).contains ·) := by
    rw [List.range_eq_range', ← List.zipIdx_map_snd, List.filter_map]
    rfl
  rw [← hperm.length_eq, ← hpositions, marked, List.length_map, List.length_map]

/-- **No increasing subsequence is longer than the marked one.** -/
theorem length_le_length_marked {α : Type} {l : List (α × Nat)} {u : List Nat}
    (hu : u.Sublist (l.map Prod.snd)) (hup : u.Pairwise (· < ·)) :
    u.length ≤ (marked l).length := by
  rw [length_marked, length_longestChain]
  exact (fits_piles hu hup).length_le

end GroupedView
