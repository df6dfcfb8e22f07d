/-!
# GroupedView.Bisect — searching a sorted list by halving

* `bisect probe` looks for a place among `n` places; `probe i` says how the content of place `i`
  compares with what is looked for.  The window is halved until one place is left, whatever the
  answers are, so the number of probes depends on `n` alone.
* `Slot` is the answer: the place found, or the gap where the content is to be inserted.
* `bisect_rel` says that searches are related whose probes are, and `bisect_pure` that probes
  without effects give a search without effects.
-/

namespace GroupedView

inductive Slot where
  | found (index : Nat)
  /-- Before the place `index`, which may be the end. -/
  | gap (index : Nat)
deriving DecidableEq, Repr

/-- The slot at or beside the place `i`, by how its content compares with what is looked for. -/
def Slot.beside (i : Nat) : Ordering → Slot
  | .eq => .found i
  | .gt => .gap i
  | .lt => .gap (i + 1)

section Search

variable {m : Type → Type} [Monad m] {n : Nat}

/-- Halve the window of `size` places that starts at `base` until one place is left.  The upper
part is kept unless its first place lies above what is looked for. -/
def narrow (probe : Fin n → m Ordering) (base size : Nat) (inside : base + size ≤ n)
    (nonempty : 0 < size) : m (Fin n) :=
  if h : size = 1 then pure ⟨base, by omega⟩
  else do
    let middle : Fin n := ⟨base + size / 2, by omega⟩
    let o ← probe middle
    if o = .gt then narrow probe base (size - size / 2) (by omega) (by omega)
    else narrow probe middle (size - size / 2) (by simp only [middle]; omega) (by omega)
termination_by size

/-- Search `n` places by halving, and probe the one that is left. -/
def bisect (probe : Fin n → m Ordering) : m Slot :=
  if h : n = 0 then pure (.gap 0)
  else do
    let i ← narrow probe 0 n (by omega) (by omega)
    let o ← probe i
    return .beside i o

end Search

section Related

variable {m l : Type → Type} [Monad m] [Monad l] {P : {α : Type} → m α → l α → Prop} {n : Nat}

theorem narrow_rel (hpure : ∀ {α : Type} (x : α), P (pure x) (pure x))
    (hbind : ∀ {α β : Type} {x : m α} {y : l α} {f : α → m β} {g : α → l β}, P x y →
      (∀ a, P (f a) (g a)) → P (x >>= f) (y >>= g))
    {p : Fin n → m Ordering} {q : Fin n → l Ordering} (h : ∀ i, P (p i) (q i)) (base size : Nat)
    (inside : base + size ≤ n) (nonempty : 0 < size) :
    P (narrow p base size inside nonempty) (narrow q base size inside nonempty) := by
  induction size using Nat.strongRecOn generalizing base with
  | ind size ih =>
    rw [narrow.eq_def p, narrow.eq_def q]
    by_cases hone : size = 1
    · rw [dif_pos hone, dif_pos hone]
      exact hpure _
    · rw [dif_neg hone, dif_neg hone]
      refine hbind (h _) fun o => ?_
      by_cases ho : o = .gt
      · rw [if_pos ho, if_pos ho]
        exact ih _ (by omega) _ _ _
      · rw [if_neg ho, if_neg ho]
        exact ih _ (by omega) _ _ _

/-- A relation that goes along with a sequence of effects relates searches whose probes are
related. -/
theorem bisect_rel (hpure : ∀ {α : Type} (x : α), P (pure x) (pure x))
    (hbind : ∀ {α β : Type} {x : m α} {y : l α} {f : α → m β} {g : α → l β}, P x y →
      (∀ a, P (f a) (g a)) → P (x >>= f) (y >>= g))
    {p : Fin n → m Ordering} {q : Fin n → l Ordering} (h : ∀ i, P (p i) (q i)) :
    P (bisect p) (bisect q) := by
  unfold bisect
  by_cases hn : n = 0
  · rw [dif_pos hn, dif_pos hn]
    exact hpure _
  · rw [dif_neg hn, dif_neg hn]
    refine hbind (narrow_rel hpure hbind h _ _ _ _) fun i => ?_
    exact hbind (h i) fun o => hpure _

end Related

theorem bisect_pure {m : Type → Type} [Monad m] [LawfulMonad m] {n : Nat} (c : Fin n → Ordering) :
    bisect (m := m) (fun i => pure (c i)) = pure (bisect (m := Id) c).run := by
  refine bisect_rel (m := m) (l := Id) (P := fun x y => x = pure y.run) (fun _ => rfl) ?_ ?_
  · intro α β x y f g hx hf
    rw [hx, pure_bind, hf]
    rfl
  · exact fun i => rfl

end GroupedView
