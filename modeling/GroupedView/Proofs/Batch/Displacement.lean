import GroupedView.Proofs.Batch.NetEffect

/-!
# GroupedView.Proofs.Batch.Displacement — the net change of each key, in closed form

A fold is summed up by three facts about each key: its positions on both sides, whether its row was
taken out or put in, and whether its value is new.

* `Fold.Sound.change?_eq`: these facts give the net change of the key, noted or not.
* `Fold.Sound.stable_eq`: a group is stable if the rows that were not displaced kept their order; a
  row is displaced if it was taken out or put in and is not where it was.
-/

open Std

namespace GroupedView

/-- What is made of a key with a row on both sides. -/
theorem Verdict.settle_classify_both {k : ItemKey} {p q : Position} {moved fresh : Bool}
    {stable : GroupId → Bool} : (classify k ⟨some p, moved, fresh⟩ (some q)).settle stable =
      if moved then
        if p ≠ q then some (.move k p q)
        else if stable p.group then if fresh then some (.update k p p) else none
        else some (.move k p p)
      else if fresh then some (.update k p q) else none := by
  cases moved with
  | false => cases fresh <;> rfl
  | true =>
    by_cases hpq : p = q
    · simp [classify, settle, hpq]
    · simp [classify, settle, hpq]

namespace Fold

variable {S : Type} {pre : View S} {f : Fold S} {k : ItemKey} {g : GroupId}

/-- Whether a new value of a key was noted. -/
def fresh (f : Fold S) (k : ItemKey) : Bool := f.tracks[k]?.any Track.refreshed

/-- Whether the row of a key was taken out or put in and is not where it was. -/
def displaced (pre : View S) (f : Fold S) (k : ItemKey) : Bool :=
  f.moved k && decide (pre.locate k ≠ f.view.locate k)

/-! ## The change of a key -/

/-- **The net change of a key** follows from its positions before and after, from whether its row
was taken out or put in, and from whether its value is new. -/
theorem Sound.change?_eq (h : f.Sound pre) (hpre : pre.WellFormed) (k : ItemKey) :
    f.change? pre k =
      (classify k ⟨pre.locate k, f.moved k, f.fresh k⟩ (f.view.locate k)).settle
        (f.stable pre) := by
  unfold change? verdict fresh moved
  cases ht : f.tracks[k]? with
  | some t =>
    rw [← h.origin_eq k t ht]
    rfl
  | none =>
    -- a key without a note is on both sides or on none
    have hmoved : f.moved k = false := by rw [moved, ht]; rfl
    have hsides := h.locate_isSome_of_not_moved hpre hmoved
    cases hp : pre.locate k with
    | none =>
      rw [hp, Option.isSome_none, eq_comm, Option.isSome_eq_false_iff, Option.isNone_iff_eq_none]
        at hsides
      rw [hsides]
      rfl
    | some p =>
      rw [hp, Option.isSome_some, eq_comm, Option.isSome_iff_exists] at hsides
      obtain ⟨q, hq⟩ := hsides
      rw [hq]
      rfl

/-- A row that was not taken out or put in stays in its group. -/
theorem Sound.group_eq_of_not_moved (h : f.Sound pre) (hpre : pre.WellFormed) {p q : Position}
    (hk : f.moved k = false) (hp : pre.locate k = some p) (hq : f.view.locate k = some q) :
    p.group = q.group := by
  have hmem : k ∈ pre.keys p.group :=
    View.mem_keys_iff.mpr ⟨p.index, hpre.locate_eq_some_iff.mp hp⟩
  obtain ⟨i, hi⟩ := View.mem_keys_iff.mp ((h.mem_keys_iff_of_not_moved hk).mp hmem)
  have he := hq.symm.trans (h.wellFormed.locate_eq_some_iff.mpr hi)
  rw [Option.some.inj he]

/-! ## Displaced rows -/

/-- Of the rows that a group had, those leave that are displaced. -/
theorem Sound.leaves_verdict (h : f.Sound pre) (hpre : pre.WellFormed) (hk : k ∈ pre.keys g) :
    (f.verdict k).leaves = f.displaced pre k := by
  obtain ⟨i, hi⟩ := View.mem_keys_iff.mp hk
  have hp := hpre.locate_eq_some_iff.mpr hi
  unfold verdict displaced moved
  cases ht : f.tracks[k]? with
  | none => rfl
  | some t =>
    have horigin : t.origin = some ⟨g, i⟩ := (h.origin_eq k t ht).trans hp
    cases hq : f.view.locate k with
    | none =>
      have hr := h.relocated_of_one_sided hpre ht (by simp [hp, hq])
      simp [classify, horigin, hp, hr, Verdict.leaves]
    | some q =>
      cases hr : t.relocated with
      | false => cases hf : t.refreshed <;> simp [classify, horigin, hr, hf, Verdict.leaves]
      | true =>
        by_cases hpq : (⟨g, i⟩ : Position) = q <;>
          simp [classify, horigin, hp, hr, hpq, Verdict.leaves]

/-- Of the rows that a group has now, those arrived that are displaced. -/
theorem Sound.arrives_verdict (h : f.Sound pre) (hpre : pre.WellFormed)
    (hk : k ∈ f.view.keys g) : (f.verdict k).arrives = f.displaced pre k := by
  obtain ⟨i, hi⟩ := View.mem_keys_iff.mp hk
  have hq := h.wellFormed.locate_eq_some_iff.mpr hi
  unfold verdict displaced moved
  cases ht : f.tracks[k]? with
  | none => rfl
  | some t =>
    cases hp : pre.locate k with
    | none =>
      have horigin : t.origin = none := (h.origin_eq k t ht).trans hp
      have hr := h.relocated_of_one_sided hpre ht (by simp [hp, hq])
      simp [classify, horigin, hq, hr, Verdict.arrives]
    | some p =>
      have horigin : t.origin = some p := (h.origin_eq k t ht).trans hp
      cases hr : t.relocated with
      | false => cases hf : t.refreshed <;> simp [classify, horigin, hq, hr, hf, Verdict.arrives]
      | true =>
        by_cases hpq : p = ⟨g, i⟩ <;> simp [classify, horigin, hq, hr, hpq, Verdict.arrives]

/-- A group is stable if its rows that were not displaced are the same on both sides, in the same
order. -/
theorem Sound.stable_eq (h : f.Sound pre) (hpre : pre.WellFormed) (g : GroupId) :
    f.stable pre g = decide ((pre.keys g).filter (!f.displaced pre ·) =
      (f.view.keys g).filter (!f.displaced pre ·)) := by
  have hbefore : (pre.keys g).filter (fun k => !(f.verdict k).leaves) =
      (pre.keys g).filter (!f.displaced pre ·) :=
    List.filter_congr fun k hk => by rw [h.leaves_verdict hpre hk]
  have hafter : (f.view.keys g).filter (fun k => !(f.verdict k).arrives) =
      (f.view.keys g).filter (!f.displaced pre ·) :=
    List.filter_congr fun k hk => by rw [h.arrives_verdict hpre hk]
  rw [stable, keepsOrder]
  simp only [contains_keysWhere Verdict.leaves rfl, contains_keysWhere Verdict.arrives rfl]
  rw [hbefore, hafter, beq_eq_decide]

end Fold

end GroupedView
