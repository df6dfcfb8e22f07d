import GroupedView.Proofs.View.Integrity
import GroupedView.Proofs.View.Refine

/-!
# GroupedView.Proofs.View.Run — a view keeps the naive account along every run

If the functions of a view are plain functions and the comparison is a total preorder, a run of
mutations leads the view and the naive account of it through the same states: a mutation that the
ledger accepts is accepted by the view, and one that the ledger refuses is refused by the view with
the same error (`refinement_of_ledger`).
-/

open Std

namespace GroupedView

namespace View

variable {m : Type → Type} [Monad m] {V S : Type} [BEq S]

/-- Apply a mutation; one that is refused leaves the view as it was. -/
def attempt (a : Arrangement m V S) (v : View S) (mu : Mutation V) : m (View S) := do
  match ← (v.apply a mu).run with
  | .ok (next, _) => return next
  | .error _ => return v

/-- Apply mutations one after the other; one that is refused changes nothing. -/
def attemptAll (a : Arrangement m V S) (v : View S) (mus : List (Mutation V)) : m (View S) :=
  mus.foldlM (attempt a) v

namespace Refines

variable [LawfulMonad m] {b : Arrangement Id V S} {v : View S} {l l' : Ledger S}
  {mu : Mutation V} {mus : List (Mutation V)} {e : ViewError}

/-- Mutations each of which goes along with the ledger do so one after the other. -/
theorem applyAll_of_follows
    (hfollows : ∀ mu ∈ mus, ∀ (w : View S) (l : Ledger S), w.Refines b l →
      Follows b (w.apply (b.carry m) mu) (l.apply b mu))
    (h : v.Refines b l) (hl : l.applyAll b mus = .ok l') :
    ∃ v', v.applyAll (b.carry m) mus = pure v' ∧ v'.Refines b l' := by
  induction mus generalizing v l with
  | nil =>
    cases hl
    exact ⟨v, rfl, h⟩
  | cons mu mus ih =>
    obtain ⟨next, hmu, hl⟩ := Ledger.applyAll_cons_eq_ok.mp hl
    have hfirst := hfollows mu List.mem_cons_self v l h
    rw [hmu] at hfirst
    obtain ⟨w, effect, hw, hnext⟩ := hfirst
    obtain ⟨v', hv', hend⟩ := ih (fun mu hmu => hfollows mu (List.mem_cons_of_mem _ hmu)) hnext hl
    refine ⟨v', ?_, hend⟩
    rw [applyAll, List.foldlM_cons, hw, pure_bind, pure_bind]
    exact hv'

variable [LawfulBEq S]

theorem apply_of_ok (hb : b.Lawful) (h : v.Refines b l) (hl : l.apply b mu = .ok l') :
    ∃ v' effect, v.apply (b.carry m) mu = pure (v', effect) ∧ v'.Refines b l' := by
  have hfollows := h.follows_apply hb mu (m := m)
  rw [hl] at hfollows
  exact hfollows

theorem apply_of_error (hb : b.Lawful) (h : v.Refines b l) (hl : l.apply b mu = .error e) :
    v.apply (b.carry m) mu = throw e := by
  have hfollows := h.follows_apply hb mu (m := m)
  rw [hl] at hfollows
  exact hfollows

theorem attempt (hb : b.Lawful) (h : v.Refines b l) (mu : Mutation V) :
    ∃ v', v.attempt (b.carry m) mu = pure v' ∧ v'.Refines b (l.attempt b mu) := by
  unfold View.attempt Ledger.attempt
  cases hl : l.apply b mu with
  | ok l' =>
    obtain ⟨v', effect, hv', h'⟩ := h.apply_of_ok hb hl (m := m)
    rw [hv', ExceptT.run_pure, pure_bind]
    exact ⟨v', rfl, h'⟩
  | error e =>
    rw [h.apply_of_error hb hl, ExceptT.run_throw, pure_bind]
    exact ⟨v, rfl, h⟩

theorem attemptAll (hb : b.Lawful) (h : v.Refines b l) (mus : List (Mutation V)) :
    ∃ v', v.attemptAll (b.carry m) mus = pure v' ∧ v'.Refines b (l.attemptAll b mus) := by
  induction mus generalizing v l with
  | nil => exact ⟨v, rfl, h⟩
  | cons mu mus ih =>
    obtain ⟨v', hv', h'⟩ := h.attempt hb mu (m := m)
    obtain ⟨w, hw, hend⟩ := ih h'
    refine ⟨w, ?_, hend⟩
    rw [View.attemptAll, List.foldlM_cons, hv', pure_bind]
    exact hw

theorem applyAll_of_ok (hb : b.Lawful) (h : v.Refines b l) (hl : l.applyAll b mus = .ok l') :
    ∃ v', v.applyAll (b.carry m) mus = pure v' ∧ v'.Refines b l' :=
  applyAll_of_follows (fun mu _ _ _ h => h.follows_apply hb mu) h hl

theorem applyAll_of_error (hb : b.Lawful) (h : v.Refines b l)
    (hl : l.applyAll b mus = .error e) : v.applyAll (b.carry m) mus = throw e := by
  induction mus generalizing v l with
  | nil => cases hl
  | cons mu mus ih =>
    rw [Ledger.applyAll_cons] at hl
    rw [applyAll, List.foldlM_cons]
    cases hmu : l.apply b mu with
    | error err =>
      rw [hmu] at hl
      cases hl
      rw [h.apply_of_error hb hmu, throw_bind, throw_bind]
    | ok next =>
      rw [hmu] at hl
      obtain ⟨w, effect, hw, hnext⟩ := h.apply_of_ok hb hmu (m := m)
      rw [hw, pure_bind, pure_bind]
      exact ih hnext hl

end Refines

end View

/-! ## The account of a whole run -/

section Refinement

variable {m : Type → Type} [Monad m] [LawfulMonad m] {V S : Type} [BEq S] [LawfulBEq S]
  {b : Arrangement Id V S}

/-- **A view keeps the naive account of its items.**  Let the functions of a view be plain
functions, the test of sort keys be equality, and the comparison be a total preorder.  Starting
from items fails exactly if an admitted key comes twice, and with the error that names such a key.
Else whatever mutations are asked for afterwards, the view shows what the ledger of the same
mutations says: the rows of each group in order, the keys that are kept out, the groups that were
ever used, and the position of each key.  The next mutation is refused by both with the same
error, or leads both on; a contradiction of the functions is never found. -/
theorem refinement_of_ledger (hb : b.Lawful) (items : List (ItemKey × V))
    (mus : List (Mutation V)) :
    (¬ (Ledger.admitted b items).Nodup → ∃ k, 2 ≤ (Ledger.admitted b items).count k ∧
      View.seed (b.carry m) items = throw (.duplicateKey k)) ∧
    ((Ledger.admitted b items).Nodup → ∃ l₀ v₀ v, Ledger.seed b items = .ok l₀ ∧
      View.seed (b.carry m) items = pure v₀ ∧ v₀.attemptAll (b.carry m) mus = pure v ∧
      (∀ g, v.rows g = (l₀.attemptAll b mus).rows b g) ∧
      (∀ g, g ∈ v.groupList ↔ (l₀.attemptAll b mus).rows b g ≠ []) ∧
      (∀ k : ItemKey, v.placements[k]? = (l₀.attemptAll b mus).entries[k]?.join) ∧
      (∀ k : ItemKey, v.isExcluded k = true ↔ (l₀.attemptAll b mus).entries[k]? = some none) ∧
      (∀ g, v.isKnown g = true ↔ g ∈ (l₀.attemptAll b mus).used) ∧
      v.size = (l₀.attemptAll b mus).size ∧
      (∀ k, ∃ o, v.positionOf (b.carry m) k = pure o ∧ ∀ p, o = some p ↔ v.keyAt? p = some k) ∧
      v.check (b.carry m) = pure true ∧
      ∀ mu, View.Refines.Follows b (v.apply (b.carry m) mu) ((l₀.attemptAll b mus).apply b mu) ∧
        ∀ k f, (l₀.attemptAll b mus).apply b mu ≠ .error (.inconsistent k f)) := by
  have hempty : (View.empty : View S).Refines b {} := .empty
  have hfresh : ∀ k ∈ Ledger.admitted b items, k ∉ ({} : Ledger S).entries :=
    fun k _ => ExtTreeMap.not_mem_empty
  constructor
  · intro hdup
    have hrepeats : ¬ ((Ledger.admitted b items).Nodup ∧
      ∀ k ∈ Ledger.admitted b items, k ∉ ({} : Ledger S).entries) := fun h => hdup h.1
    obtain ⟨k, -, hclash, hseed⟩ := Ledger.applyAll_inserts_eq_error hrepeats
    exact ⟨k, hclash.resolve_left ExtTreeMap.not_mem_empty, hempty.applyAll_of_error hb hseed⟩
  · intro hnodup
    obtain ⟨l₀, hl₀, -⟩ := Ledger.applyAll_inserts hnodup hfresh
    obtain ⟨v₀, hv₀, h₀⟩ := hempty.applyAll_of_ok hb hl₀ (m := m)
    obtain ⟨v, hv, h⟩ := h₀.attemptAll hb mus (m := m)
    exact ⟨l₀, v₀, v, hl₀, hv₀, hv, h.rows_eq hb, fun g => h.mem_groupList_iff hb,
      h.placements_eq, fun k => h.isExcluded_iff, fun g => h.isKnown_iff, h.size_eq,
      fun k => ⟨v.locate k, h.positionOf_carry hb k, fun p => h.wellFormed.locate_eq_some_iff⟩,
      h.check_carry, fun mu => ⟨h.follows_apply hb mu, Ledger.apply_ne_inconsistent⟩⟩

end Refinement

/-- Numbers in groups of ten, ordered by themselves; zero has no group. -/
def decades : Arrangement Id Nat Nat :=
  .bySortKey (fun _ n => if n = 0 then none else some ⟨toString (n / 10)⟩) fun _ n => n

/-- Mutations with a wrong guess, a move, and a deletion that is refused. -/
def decadesBatch : List (Mutation Nat) :=
  [.insert (waveringKey "f") 5 (some ⟨⟨"0"⟩, 0⟩), .move (waveringKey "a") 12 ⟨"0"⟩ ⟨"1"⟩,
    .delete (waveringKey "g"), .update (waveringKey "d") 4 true, .update (waveringKey "c") 0 true]

/-- Starting from five numbers, the mutations lead to rows in order that the ledger agrees with. -/
theorem decades_refine :
    decades.Lawful ∧ ∃ l₀ v₀ v, Ledger.seed decades waveringItems = .ok l₀ ∧
      View.seed (decades.carry Id) waveringItems = pure v₀ ∧
      v₀.attemptAll (decades.carry Id) decadesBatch = pure v ∧
      v.rows ⟨"0"⟩ = [⟨waveringKey "b", 2⟩, ⟨waveringKey "d", 4⟩, ⟨waveringKey "f", 5⟩] ∧
      v.rows ⟨"0"⟩ = (l₀.attemptAll decades decadesBatch).rows decades ⟨"0"⟩ ∧
      v.check (decades.carry Id) = pure true := by
  have hlawful : decades.Lawful := Arrangement.lawful_bySortKey _ _ _
  obtain ⟨l₀, v₀, v, hl₀, hv₀, hv, hrows, -, -, -, -, -, -, hcheck, -⟩ :=
    (refinement_of_ledger (m := Id) hlawful waveringItems decadesBatch).2 (by decide +kernel)
  refine ⟨hlawful, l₀, v₀, v, hl₀, hv₀, hv, ?_, hrows _, hcheck⟩
  have hrun : (View.seed (decades.carry Id) waveringItems).run.run.map (fun w =>
      (w.attemptAll (decades.carry Id) decadesBatch).run.rows ⟨"0"⟩) =
      .ok [⟨waveringKey "b", 2⟩, ⟨waveringKey "d", 4⟩, ⟨waveringKey "f", 5⟩] := by decide +kernel
  rw [hv₀, ExceptT.run_pure, Id.run_pure, Except.map, hv] at hrun
  exact Except.ok.inj hrun

/-- The view of the five numbers, in order. -/
def decadesView : View Nat := (View.seed decades waveringItems).run.run.toOption.getD .empty

theorem reachable_decadesView : decadesView.Reachable decades :=
  .seed (eq_ok_getD_of_isOk (by decide +kernel) _)

end GroupedView
