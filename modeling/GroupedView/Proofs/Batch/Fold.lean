import GroupedView.Batch
import GroupedView.Proofs.View.Edit

/-!
# GroupedView.Proofs.Batch.Fold — what a batch notes while it is folded into a view

`Fold.Sound pre f` relates a batch that started at the view `pre` to what was noted of it so far:
the noted origins are the positions in `pre`, and the keys whose rows were never taken out or put
in stand in the same groups and in the same order as in `pre`.  Each step keeps this
(`Fold.Sound.step`), whatever the arrangement answers.
-/

open Std
open MonadAttach (CanReturn)
open LawfulMonadAttach

namespace GroupedView

namespace Fold

variable {S : Type}

/-- Whether the row of a key was taken out or put in. -/
def moved (f : Fold S) (k : ItemKey) : Bool := f.tracks[k]?.any Track.relocated

/-- What was noted of a batch that started at `pre` agrees with the view it has come to. -/
structure Sound (pre : View S) (f : Fold S) : Prop where
  wellFormed : f.view.WellFormed
  known_subset : ∀ g ∈ pre.known, g ∈ f.view.known
  origin_eq : ∀ (k : ItemKey) (t : Track), f.tracks[k]? = some t → t.origin = pre.locate k
  filter_keys : ∀ g, (pre.keys g).filter (!f.moved ·) = (f.view.keys g).filter (!f.moved ·)

theorem Sound.start {pre : View S} (hpre : pre.WellFormed) : Sound pre { view := pre } where
  wellFormed := hpre
  known_subset _ hg := hg
  origin_eq k t h := by simp at h
  filter_keys _ := rfl

variable {pre v : View S} {f : Fold S} {k : ItemKey} {e : RowEffect} {t : Track}

/-- A mutation that touches no row needs no note. -/
theorem Sound.untouched (h : f.Sound pre) (hv : View.Edit f.view k v .untouched) :
    Sound pre { f with view := v } where
  wellFormed := hv.wellFormed h.wellFormed
  known_subset g hg := hv.known_subset (h.known_subset g hg)
  origin_eq := h.origin_eq
  filter_keys g := by
    rw [hv.keys_eq_of_not_relocates rfl g]
    exact h.filter_keys g

theorem moved_insert {tracks : ItemMap Track} {k' : ItemKey} :
    ({ view := v, tracks := tracks.insert k t } : Fold S).moved k' =
      if k' = k then t.relocated else tracks[k']?.any Track.relocated := by
  rw [moved, getElem?_map_insert]
  split
  · rfl
  · rfl

/-- A mutation that touches a row is noted for its key. -/
theorem Sound.noted (h : f.Sound pre) (hv : View.Edit f.view k v e)
    (horigin : t.origin = pre.locate k) (hmoved : t.relocated = (f.moved k || e.relocates)) :
    Sound pre { view := v, tracks := f.tracks.insert k t } where
  wellFormed := hv.wellFormed h.wellFormed
  known_subset g hg := hv.known_subset (h.known_subset g hg)
  origin_eq k' t' ht' := by
    rw [show ({ view := v, tracks := f.tracks.insert k t } : Fold S).tracks = f.tracks.insert k t
      from rfl, getElem?_map_insert] at ht'
    split at ht'
    · next he =>
      cases ht'
      rw [he]
      exact horigin
    · exact h.origin_eq k' t' ht'
  filter_keys g := by
    -- a row that is taken out or put in is left out of the comparison from now on
    cases he : e.relocates with
    | false =>
      have hsame : ∀ k', ({ view := v, tracks := f.tracks.insert k t } : Fold S).moved k'
          = f.moved k' := by
        intro k'
        rw [moved_insert]
        split
        · next hk => rw [hmoved, he, Bool.or_false, hk]
        · rfl
      simp only [hsame]
      rw [hv.keys_eq_of_not_relocates he g]
      exact h.filter_keys g
    | true =>
      have hself : ({ view := v, tracks := f.tracks.insert k t } : Fold S).moved k = true := by
        rw [moved_insert, if_pos rfl, hmoved, he, Bool.or_true]
      have hless : ∀ l : List ItemKey,
          l.filter (!({ view := v, tracks := f.tracks.insert k t } : Fold S).moved ·) =
            (l.filter (!f.moved ·)).filter (· ≠ k) := by
        intro l
        rw [List.filter_filter]
        refine List.filter_congr fun k' _ => ?_
        rw [moved_insert]
        by_cases hk : k' = k
        · simp [hk, hmoved, he]
        · simp [hk, moved]
      rw [hless, h.filter_keys g, ← hless, hv.filter_keys h.wellFormed (by rw [hself]; rfl) g]

section Step

/-- A fold after a mutation that led to a view; the effect is noted for its key, over the note there
was before or over a fresh one. -/
def after {V : Type} (pre : View S) (f : Fold S) (mu : Mutation V) (v : View S) (e : RowEffect) :
    Fold S where
  view := v
  tracks := if e = .untouched then f.tracks
    else f.tracks.insert mu.key
      ((f.tracks[mu.key]?.getD ⟨pre.locate mu.key, false, false⟩).note mu e)

theorem tracks_after {V : Type} {mu : Mutation V} : (f.after pre mu v e).tracks[k]? =
    if k = mu.key ∧ e ≠ .untouched then
      some ((f.tracks[mu.key]?.getD ⟨pre.locate mu.key, false, false⟩).note mu e)
    else f.tracks[k]? := by
  dsimp only [after]
  by_cases he : e = .untouched
  · simp [he]
  · simp [he, getElem?_map_insert]

variable {m : Type → Type} [Monad m] {V : Type} (a : Arrangement m V S)

/-- Note what a mutation did that led to a view. -/
def absorb (pre : View S) (f : Fold S) (mu : Mutation V) (view : View S) (effect : RowEffect) :
    Checked m (Fold S) := do
  if effect = .untouched then return { f with view }
  else
    let track ← match f.tracks[mu.key]? with
      | some t => pure t
      | none => do
        let origin ← ExceptT.lift (pre.positionOf a mu.key)
        pure { origin }
    return { view, tracks := f.tracks.insert mu.key (track.note mu effect) }

variable {a}

/-- A step applies the mutation and notes what it did. -/
theorem step_eq [BEq S] (mu : Mutation V) : Fold.step a pre f mu =
    f.view.apply a mu >>= fun r => f.absorb a pre mu r.1 r.2 := rfl

variable [LawfulMonad m] [MonadAttach m] [LawfulMonadAttach m] {f' : Fold S} {mu : Mutation V}

theorem eq_after_of_canReturn_absorb (hpre : pre.WellFormed)
    (hs : CanReturn (f.absorb a pre mu v e) f') : f' = f.after pre mu v e := by
  unfold absorb at hs
  split at hs
  · next he => rw [← eq_of_canReturn_pure hs, after, if_pos he]
  · next he =>
    rw [after, if_neg he]
    split at hs
    · next t ht =>
      rw [pure_bind] at hs
      rw [← eq_of_canReturn_pure hs, ht]
      rfl
    · next ht =>
      simp only [pure_bind] at hs
      obtain ⟨origin, horigin, hs⟩ := canReturn_bind_imp' hs
      rw [← eq_of_canReturn_pure hs, ht,
        View.eq_locate_of_canReturn_positionOf hpre (canReturn_lift horigin)]
      rfl

omit [MonadAttach m] [LawfulMonadAttach m] in
/-- Where the position before the batch is known, noting has no effects. -/
theorem absorb_eq_pure (hlocate : pre.positionOf a mu.key = pure (pre.locate mu.key)) :
    f.absorb a pre mu v e = pure (f.after pre mu v e) := by
  unfold absorb
  split
  · next he => rw [after, if_pos he]
  · next he =>
    rw [after, if_neg he]
    split
    · next t ht => rw [pure_bind, ht]; rfl
    · next ht => simp only [ht, hlocate, lift_pure, pure_bind, Option.getD_none]

/-- Noting what an edit did keeps what was noted in agreement. -/
theorem Sound.absorb (hpre : pre.WellFormed) (h : f.Sound pre) (hv : View.Edit f.view mu.key v e)
    (hs : CanReturn (f.absorb a pre mu v e) f') : f'.Sound pre := by
  rw [eq_after_of_canReturn_absorb hpre hs]
  by_cases he : e = .untouched
  · subst he
    exact h.untouched hv
  · rw [after, if_neg he]
    cases ht : f.tracks[mu.key]? with
    | some t =>
      refine h.noted hv (h.origin_eq _ t ht) ?_
      rw [moved, ht]
      rfl
    | none =>
      refine h.noted hv rfl ?_
      rw [moved, ht]
      rfl

/-- One step of a batch keeps what was noted in agreement. -/
theorem Sound.step [BEq S] (hpre : pre.WellFormed) (h : f.Sound pre)
    (hs : CanReturn (Fold.step a pre f mu) f') : f'.Sound pre := by
  rw [step_eq] at hs
  obtain ⟨⟨v, e⟩, hv, hs⟩ := canReturn_bind_imp' hs
  exact h.absorb hpre (View.edit_of_canReturn_apply hv) hs

/-- What is noted of a whole batch agrees with the view after it. -/
theorem sound_of_canReturn_foldlM [BEq S] {batch : List (Mutation V)} (hpre : pre.WellFormed)
    (h : CanReturn (batch.foldlM (Fold.step a pre) { view := pre }) f') : f'.Sound pre :=
  canReturn_foldlM (fun _ _ _ hf hs => hf.step hpre hs) (.start hpre) h

end Step

end Fold

end GroupedView
