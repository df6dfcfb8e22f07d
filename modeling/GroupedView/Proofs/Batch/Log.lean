import GroupedView.Proofs.Batch.Displacement
import GroupedView.Proofs.View.Integrity

/-!
# GroupedView.Proofs.Batch.Log — the net changes of a batch follow from what its mutations did

A `Log` lists the mutations of a batch, each with what it did to the row of its key.
`View.computeLogged` folds a batch and writes the log as it goes; without the log it is
`View.compute` (`View.compute_eq_map_computeLogged`).

* `Log.Due` says which change a log calls for, by the positions of a key before and after the batch
  and by what the log says of the key.
* `netChanges_exact`: the changes of a batch are those that its log calls for, in the order of keys.
-/

open Std
open MonadAttach (CanReturn)
open LawfulMonadAttach

namespace GroupedView

/-- The mutations of a batch so far, each with what it did to the row of its key. -/
abbrev Log (V : Type) := List (Mutation V × RowEffect)

namespace Log

variable {V S : Type}

section Read

variable (log : Log V) (k : ItemKey)

/-- Whether some mutation did anything to the row of a key. -/
def touches : Bool := log.any fun (mu, e) => mu.key = k && e ≠ .untouched

/-- Whether some mutation took the row of a key out or put it in. -/
def relocates : Bool := log.any fun
  | (mu, .inserted _) | (mu, .removed _) | (mu, .relocated ..) => mu.key = k
  | (_, .untouched) | (_, .refreshed _) => false

/-- Whether some update or move did anything to the row of a key. -/
def refreshes : Bool := log.any fun
  | (.update k' _ _, e) | (.move k' _ _ _, e) => k' = k && e ≠ .untouched
  | (.insert .., _) | (.delete _, _) => false

/-- What is to be noted of a key. -/
def track? (pre : View S) : Option Track :=
  if log.touches k then some ⟨pre.locate k, log.relocates k, log.refreshes k⟩ else none

/-- Whether the row of a key was taken out or put in and is not where it was. -/
def displaces (pre post : View S) : Bool :=
  log.relocates k && decide (pre.locate k ≠ post.locate k)

/-- The rows of a group that neither left nor arrived are in the same order on both sides. -/
def Steady (pre post : View S) (g : GroupId) : Prop :=
  (pre.keys g).filter (!log.displaces · pre post) = (post.keys g).filter (!log.displaces · pre post)

end Read

/-- The changes that a log calls for, by the positions of the key before and after the batch. -/
inductive Due (log : Log V) (pre post : View S) : NetChange → Prop
  | insert {k : ItemKey} {q : Position} : pre.locate k = none → post.locate k = some q →
      Due log pre post (.insert k q)
  | delete {k : ItemKey} {p : Position} : pre.locate k = some p → post.locate k = none →
      Due log pre post (.delete k p)
  /-- The row stayed where it was among its neighbours. -/
  | update {k : ItemKey} {p q : Position} : pre.locate k = some p → post.locate k = some q →
      log.relocates k = false → log.refreshes k = true → Due log pre post (.update k p q)
  | move {k : ItemKey} {p q : Position} : pre.locate k = some p → post.locate k = some q →
      log.relocates k = true → p ≠ q → Due log pre post (.move k p q)
  /-- The row came back to its place among rows that changed their order. -/
  | reseat {k : ItemKey} {p : Position} : pre.locate k = some p → post.locate k = some p →
      log.relocates k = true → ¬ log.Steady pre post p.group → Due log pre post (.move k p p)
  /-- The row came back to its place among rows that kept their order. -/
  | refresh {k : ItemKey} {p : Position} : pre.locate k = some p → post.locate k = some p →
      log.relocates k = true → log.Steady pre post p.group → log.refreshes k = true →
      Due log pre post (.update k p p)

section Concat

variable {log : Log V} {mu : Mutation V} {e : RowEffect} {k : ItemKey}

theorem relocates_eq : log.relocates k = log.any fun (mu, e) => mu.key = k && e.relocates := by
  refine congrArg log.any (funext fun (mu, e) => ?_)
  cases e <;> simp [RowEffect.relocates]

theorem refreshes_eq : log.refreshes k =
    log.any fun (mu, e) => mu.key = k && (mu.refreshes && e ≠ .untouched) := by
  refine congrArg log.any (funext fun (mu, e) => ?_)
  cases mu with
  | insert | delete => simp [Mutation.refreshes]
  | update | move => rfl

theorem touches_concat : touches (log ++ [(mu, e)]) k =
    (log.touches k || (decide (mu.key = k) && decide (e ≠ .untouched))) := by
  simp [touches]

theorem relocates_concat : relocates (log ++ [(mu, e)]) k =
    (log.relocates k || (decide (mu.key = k) && e.relocates)) := by
  simp [relocates_eq]

theorem refreshes_concat : refreshes (log ++ [(mu, e)]) k =
    (log.refreshes k || (decide (mu.key = k) && (mu.refreshes && decide (e ≠ .untouched)))) := by
  simp [refreshes_eq]

theorem relocates_eq_false_of_not_touches (h : log.touches k = false) :
    log.relocates k = false := by
  rw [touches, List.any_eq_false] at h
  rw [relocates_eq, List.any_eq_false]
  rintro ⟨mu, e⟩ hmem hrelocates
  refine h _ hmem ?_
  cases e <;> simp_all [RowEffect.relocates]

theorem refreshes_eq_false_of_not_touches (h : log.touches k = false) :
    log.refreshes k = false := by
  rw [touches, List.any_eq_false] at h
  rw [refreshes_eq, List.any_eq_false]
  rintro ⟨mu, e⟩ hmem hrefreshes
  refine h _ hmem ?_
  simp only [Bool.and_eq_true] at hrefreshes ⊢
  exact ⟨hrefreshes.1, hrefreshes.2.2⟩

/-- A mutation is noted for its key, over what was noted before or over a fresh note. -/
theorem track?_concat {pre : View S} : track? (log ++ [(mu, e)]) k pre =
    if k = mu.key ∧ e ≠ .untouched then
      some (((log.track? mu.key pre).getD ⟨pre.locate mu.key, false, false⟩).note mu e)
    else log.track? k pre := by
  simp only [track?, touches_concat, relocates_concat, refreshes_concat]
  by_cases hk : k = mu.key ∧ e ≠ .untouched
  · obtain ⟨rfl, he⟩ := hk
    cases ht : log.touches mu.key with
    | true => simp [he, Track.note]
    | false =>
      simp [he, Track.note, relocates_eq_false_of_not_touches ht,
        refreshes_eq_false_of_not_touches ht]
  · rw [if_neg hk]
    rcases not_and_or.mp hk with hne | he
    · simp [Ne.symm hne]
    · simp [not_ne_iff.mp he, RowEffect.relocates]

end Concat

end Log

/-! ## Folding with a log -/

section Logged

variable {m : Type → Type} [Monad m] {V S : Type} [BEq S] (a : Arrangement m V S)

/-- Mutations are accepted one after the other and do what the log says. -/
inductive View.Passes [MonadAttach m] (v : View S) : Log V → View S → Prop
  | nil : Passes v [] v
  | concat {log : Log V} {w w' : View S} {mu : Mutation V} {e : RowEffect} :
      Passes v log w → CanReturn (w.apply a mu) (w', e) → Passes v (log ++ [(mu, e)]) w'

/-- Apply one mutation of a batch and write down what it did. -/
def Fold.stepLogged (pre : View S) (x : Fold S × Log V) (mu : Mutation V) :
    Checked m (Fold S × Log V) := do
  let (view, effect) ← x.1.view.apply a mu
  let f ← x.1.absorb a pre mu view effect
  return (f, x.2 ++ [(mu, effect)])

/-- Fold a batch into a view and write down what its mutations did. -/
def View.computeLogged (pre : View S) (batch : List (Mutation V)) :
    Checked m (Computed S × Log V) := do
  let (f, log) ← batch.foldlM (Fold.stepLogged a pre) ({ view := pre }, [])
  let changes ← ExceptT.lift (netChanges a pre f.view f.tracks)
  return ({ view := f.view, changes, mutations := batch.length }, log)

variable [LawfulMonad m] {a} {pre : View S}

theorem Fold.map_stepLogged (x : Fold S × Log V) (mu : Mutation V) :
    Prod.fst <$> Fold.stepLogged a pre x mu = Fold.step a pre x.1 mu := by
  have hstep : Fold.step a pre x.1 mu =
      x.1.view.apply a mu >>= fun r => x.1.absorb a pre mu r.1 r.2 := rfl
  rw [hstep, stepLogged, map_bind]
  simp only [map_bind, map_pure, bind_pure]

/-- The log only adds to what is computed. -/
theorem View.compute_eq_map_computeLogged (batch : List (Mutation V)) :
    pre.compute a batch = Prod.fst <$> pre.computeLogged a batch := by
  rw [compute, ← map_foldlM Fold.map_stepLogged batch ({ view := pre }, []), computeLogged,
    bind_map_left, map_bind]
  simp only [map_bind, map_pure]

end Logged

/-! ## The notes of a batch say what its log says -/

namespace Fold

variable {m : Type → Type} [Monad m] [MonadAttach m]
variable {V S : Type} [BEq S] {a : Arrangement m V S} {pre : View S} {f : Fold S} {log : Log V}
  {k : ItemKey}

/-- What was noted of a batch that started at `pre` is what its log says. -/
structure Logged (a : Arrangement m V S) (pre : View S) (f : Fold S) (log : Log V) : Prop where
  sound : f.Sound pre
  passes : pre.Passes a log f.view
  tracks_eq : ∀ k : ItemKey, f.tracks[k]? = log.track? k pre

theorem Logged.start (hpre : pre.WellFormed) : Logged a pre { view := pre } [] where
  sound := .start hpre
  passes := .nil
  tracks_eq _ := ExtTreeMap.getElem?_empty

/-! ## The changes that a log calls for -/

namespace Logged

theorem moved_eq (h : f.Logged a pre log) (k : ItemKey) : f.moved k = log.relocates k := by
  rw [moved, h.tracks_eq, Log.track?]
  split
  · rfl
  · next ht => exact (Log.relocates_eq_false_of_not_touches (Bool.eq_false_iff.mpr ht)).symm

theorem fresh_eq (h : f.Logged a pre log) (k : ItemKey) : f.fresh k = log.refreshes k := by
  rw [fresh, h.tracks_eq, Log.track?]
  split
  · rfl
  · next ht => exact (Log.refreshes_eq_false_of_not_touches (Bool.eq_false_iff.mpr ht)).symm

theorem stable_eq (h : f.Logged a pre log) (hpre : pre.WellFormed) (g : GroupId) :
    f.stable pre g = true ↔ log.Steady pre f.view g := by
  have hdisplaced : f.displaced pre = (log.displaces · pre f.view) :=
    funext fun k => by rw [displaced, Log.displaces, h.moved_eq]
  rw [h.sound.stable_eq hpre, decide_eq_true_eq, hdisplaced]
  rfl

theorem due_of_both (h : f.Logged a pre log) (hpre : pre.WellFormed) {c : NetChange}
    {p q : Position} (hp : pre.locate k = some p) (hq : f.view.locate k = some q)
    (hc : f.change? pre k = some c) : log.Due pre f.view c := by
  rw [h.sound.change?_eq hpre, h.moved_eq, h.fresh_eq, hp, hq, Verdict.settle_classify_both] at hc
  split at hc
  · next hr =>
    split at hc
    · next hpq => exact Option.some.inj hc ▸ .move hp hq hr hpq
    · next hpq =>
      rw [not_ne_iff.mp hpq] at hp hc
      split at hc
      · next hs =>
        split at hc
        · next hf => exact Option.some.inj hc ▸ .refresh hp hq hr ((h.stable_eq hpre _).mp hs) hf
        · cases hc
      · next hs => exact Option.some.inj hc ▸ .reseat hp hq hr (mt (h.stable_eq hpre _).mpr hs)
  · next hr =>
    split at hc
    · next hf => exact Option.some.inj hc ▸ .update hp hq (Bool.eq_false_iff.mpr hr) hf
    · cases hc

/-- A key is reported with a change that the log calls for. -/
theorem due_of_change? (h : f.Logged a pre log) (hpre : pre.WellFormed) {c : NetChange}
    (hc : f.change? pre k = some c) : log.Due pre f.view c := by
  have hsettle := hc
  rw [h.sound.change?_eq hpre] at hsettle
  cases hp : pre.locate k with
  | none =>
    cases hq : f.view.locate k with
    | none => simp [hp, hq, classify, Verdict.settle] at hsettle
    | some q =>
      simp only [hp, hq, classify, Verdict.settle, Option.some.injEq] at hsettle
      exact hsettle ▸ .insert hp hq
  | some p =>
    cases hq : f.view.locate k with
    | none =>
      simp only [hp, hq, classify, Verdict.settle, Option.some.injEq] at hsettle
      exact hsettle ▸ .delete hp hq
    | some q => exact h.due_of_both hpre hp hq hc

/-- Every change that the log calls for is reported. -/
theorem change?_of_due (h : f.Logged a pre log) (hpre : pre.WellFormed) {c : NetChange}
    (hdue : log.Due pre f.view c) : f.change? pre c.key = some c := by
  rw [h.sound.change?_eq hpre, h.moved_eq, h.fresh_eq]
  cases hdue with
  | insert hp hq => simp [NetChange.key, hp, hq, classify, Verdict.settle]
  | delete hp hq => simp [NetChange.key, hp, hq, classify, Verdict.settle]
  | update hp hq hr hf => simp [NetChange.key, hp, hq, hr, hf, classify, Verdict.settle]
  | move hp hq hr hpq => simp [NetChange.key, hp, hq, hr, hpq, classify, Verdict.settle]
  | reseat hp hq hr hs =>
    have hstable := mt (h.stable_eq hpre _).mp hs
    simp [NetChange.key, hp, hq, hr, hstable, classify, Verdict.settle]
  | refresh hp hq hr hs hf =>
    have hstable := (h.stable_eq hpre _).mpr hs
    simp [NetChange.key, hp, hq, hr, hf, hstable, classify, Verdict.settle]

/-- A key that goes to another group is reported to move. -/
theorem due_move_of_group_ne (h : f.Logged a pre log) (hpre : pre.WellFormed) {p q : Position}
    (hp : pre.locate k = some p) (hq : f.view.locate k = some q) (hpq : p.group ≠ q.group) :
    log.Due pre f.view (.move k p q) := by
  have hmoved : f.moved k = true := by
    by_contra hno
    exact hpq (h.sound.group_eq_of_not_moved hpre (Bool.eq_false_iff.mpr hno) hp hq)
  exact .move hp hq ((h.moved_eq k).symm.trans hmoved) fun he => hpq (congrArg _ he)

end Logged

/-! ## The log of a run -/

variable [LawfulMonad m] [LawfulMonadAttach m]

/-- One step keeps the notes and the log in agreement. -/
theorem Logged.step (hpre : pre.WellFormed) (h : f.Logged a pre log) {mu : Mutation V}
    {x : Fold S × Log V} (hs : CanReturn (Fold.stepLogged a pre (f, log) mu) x) :
    x.1.Logged a pre x.2 := by
  unfold stepLogged at hs
  obtain ⟨⟨v, e⟩, hv, hs⟩ := canReturn_bind_imp' hs
  obtain ⟨f', hf', hs⟩ := canReturn_bind_imp' hs
  cases eq_of_canReturn_pure hs
  have hsound := h.sound.absorb hpre (View.edit_of_canReturn_apply hv) hf'
  refine ⟨hsound, ?_, fun k => ?_⟩
  · rw [eq_after_of_canReturn_absorb hpre hf']
    exact h.passes.concat hv
  · rw [eq_after_of_canReturn_absorb hpre hf', tracks_after, h.tracks_eq, h.tracks_eq,
      Log.track?_concat]

theorem logged_of_canReturn_foldlM (hpre : pre.WellFormed) {batch : List (Mutation V)}
    {x : Fold S × Log V}
    (h : CanReturn (batch.foldlM (Fold.stepLogged a pre) ({ view := pre }, [])) x) :
    x.1.Logged a pre x.2 :=
  canReturn_foldlM (I := fun x : Fold S × Log V => x.1.Logged a pre x.2)
    (fun _ _ _ hx hs => hx.step hpre hs) (.start hpre) h

/-- The log lists the mutations of the batch, in order. -/
theorem map_fst_log_of_canReturn_foldlM {batch : List (Mutation V)} {x y : Fold S × Log V}
    (h : CanReturn (batch.foldlM (Fold.stepLogged a pre) x) y) :
    y.2.map Prod.fst = x.2.map Prod.fst ++ batch := by
  induction batch generalizing x with
  | nil =>
    rw [List.foldlM_nil] at h
    rw [← eq_of_canReturn_pure h, List.append_nil]
  | cons mu batch ih =>
    rw [List.foldlM_cons] at h
    obtain ⟨z, hz, h⟩ := canReturn_bind_imp' h
    unfold stepLogged at hz
    obtain ⟨⟨v, e⟩, -, hz⟩ := canReturn_bind_imp' hz
    obtain ⟨f, -, hz⟩ := canReturn_bind_imp' hz
    cases eq_of_canReturn_pure hz
    rw [ih h, List.map_append, List.append_assoc]
    rfl

end Fold

/-- A key with a new value that is on both sides is reported, as one that stayed or as one that
moved. -/
theorem Log.due_of_refreshes {V S : Type} {log : Log V} {pre post : View S} {k : ItemKey}
    {p q : Position} (hp : pre.locate k = some p) (hq : post.locate k = some q)
    (hk : log.refreshes k = true) :
    log.Due pre post (.update k p q) ∨ log.Due pre post (.move k p q) := by
  cases hr : log.relocates k with
  | false => exact .inl (.update hp hq hr hk)
  | true =>
    by_cases hpq : p = q
    · subst hpq
      by_cases hs : log.Steady pre post p.group
      · exact .inl (.refresh hp hq hr hs hk)
      · exact .inr (.reseat hp hq hr hs)
    · exact .inr (.move hp hq hr hpq)

/-! ## Exactness -/

section Exact

variable {m : Type → Type} [Monad m] [LawfulMonad m] [MonadAttach m] [LawfulMonadAttach m]
variable {V S : Type} [BEq S]

/-- **The net changes of a batch are those that its log calls for.**  Whatever the functions of a
view answer: write down, while a batch is folded into a view that can come about, what each of its
mutations does; this changes nothing else, so that every accepted batch has such a log.  The changes
stand in strict order of their keys, and they are exactly those that the positions of the keys
before and after the batch and the log call for.  So a key that went to another group moves, and a
key that is on both sides and that an update or a move touched is reported as one that stayed or as
one that moved. -/
theorem netChanges_exact (a : Arrangement m V S) {pre : View S} (hpre : pre.Reachable a)
    (batch : List (Mutation V)) :
    pre.compute a batch = Prod.fst <$> pre.computeLogged a batch ∧
    (∀ c, CanReturn (pre.compute a batch) c →
      ∃ log, CanReturn (pre.computeLogged a batch) (c, log)) ∧
    ∀ (c : Computed S) (log : Log V), CanReturn (pre.computeLogged a batch) (c, log) →
      log.map Prod.fst = batch ∧ pre.Passes a log c.view ∧
      c.changes.rows.Pairwise (fun x y => compare x.key y.key = .lt) ∧
      (∀ x, x ∈ c.changes.rows ↔ log.Due pre c.view x) ∧
      (∀ k p q, pre.locate k = some p → c.view.locate k = some q → p.group ≠ q.group →
        .move k p q ∈ c.changes.rows) ∧
      ∀ k p q, pre.locate k = some p → c.view.locate k = some q → log.refreshes k = true →
        .update k p q ∈ c.changes.rows ∨ .move k p q ∈ c.changes.rows := by
  refine ⟨View.compute_eq_map_computeLogged batch, fun c h => ?_, fun c log h => ?_⟩
  · rw [View.compute_eq_map_computeLogged] at h
    obtain ⟨⟨c', log⟩, hlog, rfl⟩ := canReturn_map_imp' h
    exact ⟨log, hlog⟩
  have hwf := hpre.wellFormed
  unfold View.computeLogged at h
  obtain ⟨⟨f, log'⟩, hf, h⟩ := canReturn_bind_imp' h
  obtain ⟨n, hn, h⟩ := canReturn_bind_imp' h
  cases eq_of_canReturn_pure h
  have hlogged := Fold.logged_of_canReturn_foldlM hwf hf
  have hmutations := Fold.map_fst_log_of_canReturn_foldlM hf
  cases eq_netChanges_of_canReturn hlogged.sound.wellFormed (canReturn_lift hn)
  have hrows : ∀ x, x ∈ (f.netChanges pre).rows ↔ log.Due pre f.view x := fun x => by
    rw [Fold.mem_netChanges_rows]
    constructor
    · rintro ⟨k, hk⟩
      exact hlogged.due_of_change? hwf hk
    · exact fun hdue => ⟨x.key, hlogged.change?_of_due hwf hdue⟩
  refine ⟨hmutations, hlogged.passes, Fold.pairwise_rows_netChanges, hrows,
    fun k p q hp hq hpq => ?_, fun k p q hp hq hk => ?_⟩
  · exact (hrows _).mpr (hlogged.due_move_of_group_ne hwf hp hq hpq)
  · exact (Log.due_of_refreshes hp hq hk).imp (hrows _).mpr (hrows _).mpr

end Exact

/-- Mutations that take a row away, put one in, move one, and touch one. -/
def waveringSteps : List (Mutation Nat) :=
  [.delete (waveringKey "a"), .update (waveringKey "c") 4 true,
    .insert (waveringKey "f") 5 (some ⟨⟨"0"⟩, 0⟩), .update (waveringKey "e") 10 false]

/-- The view after these mutations, with their net effect and their log. -/
def waveringLogged : Computed Nat × Log Nat :=
  ((waveringView.computeLogged (wavering (StateM Nat)) waveringSteps).run.run 1).1.toOption.getD
    (⟨.empty, {}, 0⟩, [])

/-- The log names the places of the rows at the time of each mutation, and a change those before
the first and after the last one. -/
theorem waveringLogged_exact :
    waveringView.Reachable (wavering (StateM Nat)) ∧
    CanReturn (waveringView.computeLogged (wavering (StateM Nat)) waveringSteps)
      waveringLogged ∧
    waveringLogged.2 = waveringSteps.zip [.removed ⟨⟨"0"⟩, 2⟩,
      .relocated ⟨⟨"0"⟩, 1⟩ ⟨⟨"0"⟩, 1⟩, .inserted ⟨⟨"0"⟩, 0⟩, .refreshed ⟨⟨"1"⟩, 0⟩] ∧
    .move (waveringKey "c") ⟨⟨"0"⟩, 1⟩ ⟨⟨"0"⟩, 2⟩ ∈ waveringLogged.1.changes.rows ∧
    .update (waveringKey "e") ⟨⟨"1"⟩, 0⟩ ⟨⟨"1"⟩, 0⟩ ∈ waveringLogged.1.changes.rows ∧
    ∀ x, x ∈ waveringLogged.1.changes.rows ↔
      waveringLogged.2.Due waveringView waveringLogged.1.view x := by
  have hview : waveringView.Reachable (wavering (StateM Nat)) := .seed canReturn_waveringView
  have hlogged : CanReturn
      (waveringView.computeLogged (wavering (StateM Nat)) waveringSteps) waveringLogged :=
    ⟨1, _, Prod.ext (eq_ok_getD_of_isOk (by decide +kernel) _) rfl⟩
  obtain ⟨-, -, -, hdue, -⟩ :=
    (netChanges_exact (wavering (StateM Nat)) hview waveringSteps).2.2 _ _ hlogged
  refine ⟨hview, hlogged, by decide +kernel, (hdue _).mpr (.move ?_ ?_ ?_ ?_),
    (hdue _).mpr (.update ?_ ?_ ?_ ?_), hdue⟩
  all_goals decide +kernel

end GroupedView
