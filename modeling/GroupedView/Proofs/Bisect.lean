import GroupedView.Bisect
import Mathlib.Data.List.InsertIdx

/-!
# GroupedView.Proofs.Bisect — where a search among ordered places ends

`Falling c` says of the answers of a probe that they are first `.lt`, then at most once `.eq`, and
then `.gt`.  The search then ends at the place with the answer `.eq` (`bisect_eq_found`), and
without such a place in the gap after the places with the answer `.lt` (`bisect_eq_gap`,
`bisect_eq_gap_of_parted`).

Of places in no order this much is left: where a search ends in a gap, both neighbours of the gap
were probed, and the gap lies between their answers (`bisect_gap_between`).
-/

namespace GroupedView

variable {n : Nat} {c : Fin n → Ordering}

/-- Of two places, the earlier one lies before what is looked for or the later one after it. -/
def Falling (c : Fin n → Ordering) : Prop := ∀ i j, i < j → c i = .lt ∨ c j = .gt

/-- The place that is left in the end is the last one that does not lie after what is looked
for. -/
theorem narrow_last (hc : Falling c) (base size : Nat) (inside : base + size ≤ n)
    (nonempty : 0 < size) (hlow : base = 0 ∨ c ⟨base, by omega⟩ ≠ .gt)
    (hhigh : ∀ j : Fin n, base + size ≤ j → c j = .gt) :
    ((narrow (m := Id) c base size inside nonempty).run.val = 0 ∨
      c (narrow (m := Id) c base size inside nonempty).run ≠ .gt) ∧
    ∀ j, (narrow (m := Id) c base size inside nonempty).run < j → c j = .gt := by
  induction size using Nat.strongRecOn generalizing base with
  | ind size ih =>
    by_cases h : size = 1
    · subst h
      rw [narrow, dif_pos rfl]
      exact ⟨hlow, fun j hj => hhigh j hj⟩
    · have hhalf : 0 < size / 2 ∧ size / 2 < size := by omega
      rw [narrow, dif_neg h]
      simp only [bind]
      split
      · next hmid =>
        -- the places from the middle on lie after what is looked for
        refine ih (size - size / 2) (by omega) base _ _ hlow fun j hj => ?_
        rcases Nat.lt_or_ge (base + size / 2) j with hlt | hge
        · exact (hc _ j hlt).resolve_left fun he => absurd (he.symm.trans hmid) (by decide)
        · have hj' : j = ⟨base + size / 2, by omega⟩ := Fin.ext (by simp only; omega)
          rw [hj']
          exact hmid
      · next hmid =>
        exact ih (size - size / 2) (by omega) _ _ _ (.inr hmid) fun j hj => hhigh j (by omega)

/-- A search ends beside the last place that does not lie after what is looked for. -/
theorem bisect_eq_beside_last (hc : Falling c) (hn : 0 < n) :
    ∃ i : Fin n, (bisect (m := Id) c).run = .beside i (c i) ∧ (i.val = 0 ∨ c i ≠ .gt) ∧
      ∀ j, i < j → c j = .gt := by
  refine ⟨(narrow (m := Id) c 0 n (by omega) hn).run, ?_, ?_⟩
  · rw [bisect, dif_neg (by omega)]
    rfl
  · exact narrow_last hc 0 n (by omega) hn (.inl rfl) fun j hj => by omega

/-- A place with what is looked for is found. -/
theorem bisect_eq_found (hc : Falling c) {i : Fin n} (hi : c i = .eq) :
    (bisect (m := Id) c).run = .found i := by
  obtain ⟨k, hk, hfirst, hlast⟩ := bisect_eq_beside_last hc i.pos
  rcases Nat.lt_trichotomy i k with hik | hik | hki
  · -- a later place lies after what is looked for
    have hgt : c k = .gt :=
      (hc i k hik).resolve_left fun he => absurd (he.symm.trans hi) (by decide)
    rcases hfirst with hzero | hne
    · omega
    · exact absurd hgt hne
  · rw [hk, ← Fin.ext hik, hi]
    rfl
  · exact absurd ((hlast i hki).symm.trans hi) (by decide)

/-- A list of places is parted at the index where a search ends in a gap. -/
theorem bisect_eq_gap (hc : Falling c) (hne : ∀ i, c i ≠ .eq) :
    ∃ p ≤ n, (bisect (m := Id) c).run = .gap p ∧ (∀ i : Fin n, i < p → c i = .lt) ∧
      ∀ i : Fin n, p ≤ i → c i = .gt := by
  rcases Nat.eq_zero_or_pos n with rfl | hn
  · refine ⟨0, Nat.le_refl 0, ?_, fun i => i.elim0, fun i => i.elim0⟩
    rw [bisect, dif_pos rfl]
    rfl
  · obtain ⟨k, hk, hfirst, hlast⟩ := bisect_eq_beside_last hc hn
    cases hck : c k with
    | eq => exact absurd hck (hne k)
    | lt =>
      refine ⟨k + 1, k.isLt, by rw [hk, hck]; rfl, fun i hi => ?_, fun i hi => hlast i hi⟩
      rcases Nat.lt_or_ge i k with hlt | hge
      · exact (hc i k hlt).resolve_right fun he => absurd (he.symm.trans hck) (by decide)
      · have hik : i = k := Fin.ext (by omega)
        rw [hik, hck]
    | gt =>
      have hzero : k.val = 0 := hfirst.resolve_right fun h => h hck
      refine ⟨0, Nat.zero_le n, ?_, fun i hi => absurd hi (Nat.not_lt_zero i), fun i _ => ?_⟩
      · rw [hk, hck, hzero]
        rfl
      · rcases Nat.eq_zero_or_pos i with hi | hi
        · have hik : i = k := Fin.ext (by omega)
          rw [hik, hck]
        · exact hlast i (Fin.lt_def.mpr (by omega))

/-- Where the places before an index answer `.lt` and the others `.gt`, a search ends in the gap at
this index. -/
theorem bisect_eq_gap_of_parted {p : Nat} (hp : p ≤ n) (hlt : ∀ i : Fin n, i < p → c i = .lt)
    (hgt : ∀ i : Fin n, p ≤ i → c i = .gt) : (bisect (m := Id) c).run = .gap p := by
  have hc : Falling c := by
    intro i j hij
    rcases Nat.lt_or_ge i p with hi | hi
    · exact .inl (hlt i hi)
    · exact .inr (hgt j (by omega))
  have hne : ∀ i, c i ≠ .eq := by
    intro i
    rcases Nat.lt_or_ge i p with hi | hi
    · rw [hlt i hi]
      decide
    · rw [hgt i hi]
      decide
  obtain ⟨q, hq, hgap, hlt', hgt'⟩ := bisect_eq_gap hc hne
  rcases Nat.lt_trichotomy p q with hpq | rfl | hqp
  · -- the place at the index would answer both
    have hboth := (hlt' ⟨p, by omega⟩ hpq).symm.trans (hgt _ (Nat.le_refl p))
    exact absurd hboth (by decide)
  · exact hgap
  · have hboth := (hlt ⟨q, by omega⟩ hqp).symm.trans (hgt' _ (Nat.le_refl q))
    exact absurd hboth (by decide)

/-! ## Probes that may fail -/

section Failing

variable {p : Fin n → Option Ordering}

/-- The place that is left in the end is the first one or was found not to lie after what is looked
for, and the place behind it was found to lie after it.  Where the upper half of a window with an
odd number of places is given up, its first place stays in the window, the last one then. -/
theorem narrow_between {k : Fin n} (base size : Nat) (inside : base + size ≤ n)
    (nonempty : 0 < size) (h : narrow p base size inside nonempty = some k)
    (hlow : base = 0 ∨ ∃ o, p ⟨base, by omega⟩ = some o ∧ o ≠ .gt)
    (hhigh : (∀ hin : base + size < n, p ⟨base + size, hin⟩ = some .gt) ∨
      2 ≤ size ∧ p ⟨base + size - 1, by omega⟩ = some .gt) :
    (k.val = 0 ∨ ∃ o, p k = some o ∧ o ≠ .gt) ∧ ∀ hin : k + 1 < n, p ⟨k + 1, hin⟩ = some .gt := by
  induction size using Nat.strongRecOn generalizing base with
  | ind size ih =>
    rw [narrow] at h
    by_cases hone : size = 1
    · subst hone
      rw [dif_pos rfl] at h
      cases h
      exact ⟨hlow, hhigh.resolve_right fun hlast => by omega⟩
    · rw [dif_neg hone] at h
      obtain ⟨o, ho, h⟩ := Option.bind_eq_some_iff.mp h
      have hhalf : 0 < size / 2 ∧ size / 2 < size := by omega
      split at h
      · next hgt =>
        subst hgt
        refine ih _ (by omega) base _ _ h hlow ?_
        rcases Nat.mod_two_eq_zero_or_one size with heven | hodd
        · refine .inl fun hin => ?_
          have hmid : base + (size - size / 2) = base + size / 2 := by omega
          simpa only [hmid] using ho
        · refine .inr ⟨by omega, ?_⟩
          have hmid : base + (size - size / 2) - 1 = base + size / 2 := by omega
          simpa only [hmid] using ho
      · next hne =>
        refine ih _ (by omega) _ _ _ h (.inr ⟨o, ho, hne⟩) ?_
        have hend : base + size / 2 + (size - size / 2) = base + size := by omega
        rcases hhigh with hnext | ⟨-, hlast⟩
        · refine .inl fun hin => ?_
          simp only [hend]
          exact hnext _
        · -- the last place of the window is not the one in the middle, which lies elsewhere
          have hapart : base + size / 2 ≠ base + size - 1 := by
            intro he
            simp only [← he] at hlast
            rw [ho] at hlast
            exact hne (Option.some.inj hlast)
          refine .inr ⟨by omega, ?_⟩
          simp only [hend]
          exact hlast

/-- Whatever the answers are, a search that ends in a gap has probed the places on both sides of
it. -/
theorem bisect_gap_between {i : Nat} (h : bisect p = some (.gap i)) :
    i ≤ n ∧ (∀ hin : i - 1 < n, 0 < i → p ⟨i - 1, hin⟩ = some .lt) ∧
      ∀ hin : i < n, p ⟨i, hin⟩ = some .gt := by
  unfold bisect at h
  split at h
  · next hn =>
    cases h
    exact ⟨Nat.zero_le n, fun _ hpos => absurd hpos (Nat.lt_irrefl 0), fun hin => by omega⟩
  · obtain ⟨k, hk, h⟩ := Option.bind_eq_some_iff.mp h
    obtain ⟨o, ho, h⟩ := Option.bind_eq_some_iff.mp h
    obtain ⟨hfirst, hnext⟩ := narrow_between 0 n (by omega) (by omega) hk (.inl rfl)
      (.inl fun hin => by omega)
    cases o with
    | eq => cases h
    | lt =>
      cases h
      exact ⟨k.isLt, fun _ _ => ho, hnext⟩
    | gt =>
      cases h
      rcases hfirst with hzero | ⟨o, ho', hne⟩
      · exact ⟨Nat.le_of_lt k.isLt, fun _ hpos => by omega, fun _ => ho⟩
      · exact absurd (Option.some.inj (ho'.symm.trans ho)) hne

end Failing

end GroupedView
