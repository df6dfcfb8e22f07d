/-!
# GroupedView.Text.CodeRange — sets of code points as ranges
-/

namespace GroupedView.Text

/-- Ranges of code points, ends included. -/
abbrev CodeRanges := List (Nat × Nat)

namespace CodeRanges

/-- Whether the ranges go up, each one apart from the next. -/
def ascending : CodeRanges → Bool
  | [] => true
  | [r] => r.1 ≤ r.2
  | r :: s :: rest => r.1 ≤ r.2 && r.2 + 1 < s.1 && ascending (s :: rest)

/-- Whether a code point lies in one of the ranges; the ranges above it are left out. -/
def covers (n : Nat) : CodeRanges → Bool
  | [] => false
  | r :: rest => if n < r.1 then false else n ≤ r.2 || covers n rest

theorem ascending_of_cons {r : Nat × Nat} {rest : CodeRanges} (h : ascending (r :: rest) = true) :
    ascending rest = true := by
  cases rest with
  | nil => rfl
  | cons s rest =>
    rw [ascending, Bool.and_eq_true] at h
    exact h.2

theorem lt_first_of_ascending {r : Nat × Nat} {rest : CodeRanges} {n : Nat}
    (h : ascending (r :: rest) = true) (hn : n < r.1) : ∀ s ∈ r :: rest, n < s.1 := by
  induction rest generalizing r with
  | nil => simpa using hn
  | cons s rest ih =>
    intro x hx
    rcases List.mem_cons.mp hx with rfl | hx
    · exact hn
    · rw [ascending, Bool.and_eq_true, Bool.and_eq_true, decide_eq_true_iff,
        decide_eq_true_iff] at h
      obtain ⟨⟨hr, hs⟩, hrest⟩ := h
      exact ih hrest (by omega) x hx

/-- Looking up in ascending ranges misses none of them. -/
theorem covers_eq_any {n : Nat} {ranges : CodeRanges} (h : ascending ranges = true) :
    covers n ranges = ranges.any fun r => r.1 ≤ n && n ≤ r.2 := by
  induction ranges with
  | nil => rfl
  | cons r rest ih =>
    rw [covers]
    split
    · next hn =>
      symm
      rw [List.any_eq_false]
      intro s hs
      have hlt := lt_first_of_ascending h hn s hs
      simp [Nat.not_le.mpr hlt]
    · next hn =>
      rw [ih (ascending_of_cons h), List.any_cons, decide_eq_true (Nat.not_lt.mp hn),
        Bool.true_and]

end CodeRanges

end GroupedView.Text
