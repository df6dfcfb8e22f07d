import GroupedView.Connection
import GroupedView.Proofs.Reproduction
import GroupedView.Proofs.Script
import GroupedView.Proofs.View.Integrity

/-!
# GroupedView.Proofs.Connection — every batch of a connection passes the check

`Connection.Reachable` lists what can happen to a connection and to the state of its functions.
On the way the view stays well-formed, so that the edits of each accepted batch lead from the
sections before to the sections after.
-/

open Std
open MonadAttach (CanReturn)
open LawfulMonadAttach

namespace GroupedView

/-! ## A display that advances -/

section Advance

variable {m : Type → Type} [Monad m] [LawfulMonad m] [MonadAttach m] [LawfulMonadAttach m]
variable {V S : Type} [BEq S] {a : Arrangement m V S}

theorem NetChanges.eq_of_changeList_eq_ok {n : NetChanges} {policy : MappingPolicy}
    {old new : Mapping} {l : ChangeList} (h : n.changeList policy old new = .ok l) :
    l = ⟨(n.relayout old new).edits n.rows⟩ := by
  unfold changeList at h
  cases hv : new.validate policy n.isKnown with
  | error e => rw [hv] at h; cases h
  | ok u => rw [hv] at h; cases h; rfl

/-- The edits that a batch is answered with lead from display to display. -/
theorem apply_of_changeList_eq_ok {pre : View S} {batch : List (Mutation V)} {c : Computed S}
    {policy : MappingPolicy} {old new : Mapping} {l : ChangeList} (hpre : pre.WellFormed)
    (hc : CanReturn (pre.compute a batch) c) (hl : c.changes.changeList policy old new = .ok l) :
    (pre.sections (old.visible pre.length)).apply l
        (c.view.sections (new.visible c.view.length)) =
      .ok (c.view.sections (new.visible c.view.length)) := by
  obtain ⟨hpost, hleads⟩ := leads_of_canReturn_compute hpre hc
  rw [NetChanges.eq_of_changeList_eq_ok hl]
  exact hleads.apply_edits hpre hpost

/-- A display advances by the edits of net changes that lead from view to view. -/
theorem Display.leads_of_canReturn_advance {d d' : Display S} {records : List (Transaction V)}
    {mapping : Mapping} {changes : ChangeList} (hd : d.view.WellFormed)
    (h : CanReturn (d.advance a records mapping) (changes, d')) :
    d'.view.WellFormed ∧ ∃ n : NetChanges, n.Leads d.view d'.view ∧
      changes = ⟨(n.relayout d.mapping d'.mapping).edits n.rows⟩ := by
  unfold advance at h
  obtain ⟨-, -, h⟩ := canReturn_bind_imp' h
  obtain ⟨c, hc, h⟩ := canReturn_bind_imp' h
  obtain ⟨l, hl, h⟩ := canReturn_bind_imp' h
  cases eq_of_canReturn_pure h
  obtain ⟨hpost, hleads⟩ := leads_of_canReturn_compute hd hc
  exact ⟨hpost, c.changes, hleads, NetChanges.eq_of_changeList_eq_ok (eq_ok_of_canReturn_mk hl)⟩

theorem Display.wellFormed_of_canReturn_ofSnapshot {d : Display S} {snapshot : Snapshot V}
    {mapping : Mapping} (h : CanReturn (Display.ofSnapshot a snapshot mapping) d) :
    d.view.WellFormed := by
  unfold ofSnapshot at h
  obtain ⟨v, hv, h⟩ := canReturn_bind_imp' h
  obtain ⟨-, -, h⟩ := canReturn_bind_imp' h
  cases eq_of_canReturn_pure h
  exact (View.Reachable.seed hv).wellFormed

end Advance

/-! ## A connection that is running -/

namespace Connection

variable {S σ V : Type} [BEq S] (a : Arrangement (Script σ V) V S)

/-- The connections, with the state of their functions, that can come about: one that is opened,
one that has processed a batch, and one whose functions changed their state in between. -/
inductive Reachable : Connection S × σ → Prop
  | opened {snapshot : Snapshot V} {mapping : Mapping} {s s' : σ} {c : Connection S} :
      (ofSnapshot a snapshot mapping).run s = (.ok c, s') → Reachable (c, s')
  | processed {w : Connection S × σ} (records : List (Transaction V)) (mapping : Mapping) :
      Reachable w → Reachable ((process a records mapping).run w).2
  | elsewhere {w : Connection S × σ} (s : σ) : Reachable w → Reachable (w.1, s)

section ProcessWith

variable (nested : List (Transaction V) → Mapping → Running S σ Outcome)
  (records : List (Transaction V)) (mapping : Mapping)

/-- What the advance of an idle connection's display comes to, and the connection then. -/
def advanced (d : Display S) (s : σ) :
    Except ViewError (ChangeList × Display S) × Connection S × σ :=
  (answer nested (d.advance a records mapping).run).run (⟨d, .processing⟩, s)

variable {a nested records mapping} in
/-- An advance that needs no effects leaves the connection and the functions as they are. -/
theorem advanced_of_eq_pure {d : Display S} {x : Except ViewError (ChangeList × Display S)}
    (h : d.advance a records mapping = ExceptT.mk (pure x)) (s : σ) :
    advanced a nested records mapping d s = (x, ⟨d, .processing⟩, s) := by
  rw [advanced, h]
  rfl

/-- What the connection `w` does once the display has advanced or not. -/
def settle (w : Connection S × σ) : Except ViewError (ChangeList × Display S) →
    Outcome × Connection S × σ
  | .ok (changes, display) => (.ok changes, { display, phase := .idle }, w.2)
  | .error e => (.error e, { w.1 with phase := .idle }, w.2)

theorem run_processWith_of_processing (d : Display S) (s : σ) :
    (processWith a nested records mapping).run (⟨d, .processing⟩, s) =
      (.error .reentrant, ⟨d, .processing⟩, s) := rfl

theorem run_processWith_of_idle (d : Display S) (s : σ) :
    (processWith a nested records mapping).run (⟨d, .idle⟩, s) =
      settle (advanced a nested records mapping d s).2
        (advanced a nested records mapping d s).1 := by
  have hrun : (processWith a nested records mapping).run (⟨d, .idle⟩, s) =
      StateT.run (match (advanced a nested records mapping d s).1 with
        | .ok (changes, display) => (do
          update fun _ => { display, phase := .idle }
          return .ok changes : Running S σ Outcome)
        | .error e => do
          update fun c => { c with phase := .idle }
          return .error e) (advanced a nested records mapping d s).2 := rfl
  rw [hrun]
  rcases advanced a nested records mapping d s with ⟨e | ⟨changes, display⟩, w⟩
  · rfl
  · rfl

variable {nested records mapping}

/-- What the display advanced to is one of its answers. -/
theorem canReturn_of_advanced {d d' : Display S} {s : σ} {changes : ChangeList}
    (h : (advanced a nested records mapping d s).1 = .ok (changes, d')) :
    CanReturn (d.advance a records mapping) (changes, d') := by
  have hends : (d.advance a records mapping).run.Ends (advanced a nested records mapping d s).1 :=
    Script.ends_run _ _
  rw [h] at hends
  exact hends

/-- A batch keeps the view well-formed if the batches that its functions ask for do. -/
theorem wellFormed_processWith
    (hnested : ∀ records mapping (w : Connection S × σ), w.1.display.view.WellFormed →
      ((nested records mapping).run w).2.1.display.view.WellFormed)
    {w : Connection S × σ} (hw : w.1.display.view.WellFormed) :
    ((processWith a nested records mapping).run w).2.1.display.view.WellFormed := by
  obtain ⟨⟨d, phase⟩, s⟩ := w
  cases phase with
  | processing => exact hw
  | idle =>
    have hafter : (advanced a nested records mapping d s).2.1.display.view.WellFormed := by
      refine Script.run_invariant (I := fun w : Connection S × σ => w.1.display.view.WellFormed)
        ?_ ?_ ?_ hnested _ hw
      · exact fun _ h => h
      · exact fun _ _ h => h
      · exact fun _ h => h
    rw [run_processWith_of_idle]
    cases hr : (advanced a nested records mapping d s).1 with
    | error e => exact hafter
    | ok r => exact (Display.leads_of_canReturn_advance hw (canReturn_of_advanced a hr)).1

/-- An accepted batch is answered with the edits of net changes that lead from view to view. -/
theorem leads_of_run_processWith {w w' : Connection S × σ} {changes : ChangeList}
    (hw : w.1.display.view.WellFormed)
    (h : (processWith a nested records mapping).run w = (.ok changes, w')) :
    w'.1.display.view.WellFormed ∧ ∃ n : NetChanges,
      n.Leads w.1.display.view w'.1.display.view ∧
      changes = ⟨(n.relayout w.1.display.mapping w'.1.display.mapping).edits n.rows⟩ := by
  obtain ⟨⟨d, phase⟩, s⟩ := w
  cases phase with
  | processing =>
    rw [run_processWith_of_processing] at h
    cases h
  | idle =>
    rw [run_processWith_of_idle] at h
    cases hr : (advanced a nested records mapping d s).1 with
    | error e =>
      rw [hr] at h
      cases h
    | ok r =>
      obtain ⟨changes', d'⟩ := r
      rw [hr] at h
      cases h
      exact Display.leads_of_canReturn_advance hw (canReturn_of_advanced a hr)

/-- The edits of an accepted batch lead from the sections before to the sections after. -/
theorem apply_of_run_processWith {w w' : Connection S × σ} {changes : ChangeList}
    (hw : w.1.display.view.WellFormed)
    (h : (processWith a nested records mapping).run w = (.ok changes, w')) :
    w.1.display.sections.apply changes w'.1.display.sections = .ok w'.1.display.sections := by
  obtain ⟨hw', n, hn, rfl⟩ := leads_of_run_processWith a hw h
  exact hn.apply_edits hw hw'

end ProcessWith

variable {a}

/-- A connection that is opened is idle, and its display is one that the snapshot can be opened
as. -/
theorem exists_display_of_run_ofSnapshot {snapshot : Snapshot V} {mapping : Mapping} {s s' : σ}
    {c : Connection S} (h : (ofSnapshot a snapshot mapping).run s = (.ok c, s')) :
    ∃ d, c = ⟨d, .idle⟩ ∧ CanReturn (Display.ofSnapshot a snapshot mapping) d := by
  have hends : (Display.ofSnapshot a snapshot mapping).run.Ends
      ((Display.ofSnapshot a snapshot mapping).run.detached.run s).1 := Script.ends_run _ _
  have hrun : (ofSnapshot a snapshot mapping).run s =
      (((Display.ofSnapshot a snapshot mapping).run.detached.run s).1.map fun display =>
        { display }, ((Display.ofSnapshot a snapshot mapping).run.detached.run s).2) := rfl
  rw [hrun] at h
  cases hd : ((Display.ofSnapshot a snapshot mapping).run.detached.run s).1 with
  | error e =>
    rw [hd] at h
    cases h
  | ok d =>
    rw [hd] at h hends
    cases h
    exact ⟨d, rfl, hends⟩

theorem Reachable.wellFormed {w : Connection S × σ} (h : Reachable a w) :
    w.1.display.view.WellFormed := by
  induction h with
  | opened hc =>
    obtain ⟨d, rfl, hd⟩ := exists_display_of_run_ofSnapshot hc
    exact Display.wellFormed_of_canReturn_ofSnapshot hd
  | processed records mapping _ ih =>
    refine wellFormed_processWith a (fun _ _ _ hw => wellFormed_processWith a ?_ hw) ih
    exact fun _ _ _ hw => hw
  | elsewhere s _ ih => exact ih

/-- The check of a batch refuses what the connection refuses, and accepts the rest. -/
theorem run_processVerified {w : Connection S × σ} (hw : w.1.display.view.WellFormed)
    (records : List (Transaction V)) (mapping : Mapping) :
    ((processVerified a records mapping).run w).1 =
      (((process a records mapping).run w).1.mapError VerifyError.refused).map fun changes =>
        ⟨changes, w.1.display.sections,
          ((process a records mapping).run w).2.1.display.sections⟩ := by
  have hcurrent : (current : Running S σ (Connection S)).run w = pure (w.1, w) := rfl
  rw [processVerified, StateT.run_bind, hcurrent, pure_bind, StateT.run_bind]
  cases hp : (process a records mapping).run w with
  | mk r w' =>
    cases r with
    | error e => rfl
    | ok changes =>
      have hverify : verify changes w.1.display.sections w'.1.display.sections =
          .ok ⟨changes, w.1.display.sections, w'.1.display.sections⟩ := by
        rw [verify, apply_of_run_processWith a hw hp]
        exact if_pos rfl
      exact hverify

theorem isOk_run_processVerified {w : Connection S × σ} (hw : w.1.display.view.WellFormed)
    {records : List (Transaction V)} {mapping : Mapping} :
    ((processVerified a records mapping).run w).1.isOk =
      ((process a records mapping).run w).1.isOk := by
  rw [run_processVerified hw]
  cases ((process a records mapping).run w).1 with
  | error e => rfl
  | ok changes => rfl

end Connection

/-! ## Every batch is reproduced -/

section Reproduction

variable {m : Type → Type} [Monad m] [LawfulMonad m] [MonadAttach m] [LawfulMonadAttach m]
variable {V S σ : Type} [BEq S]

/-- **Every batch is reproduced.**  Whatever the functions of a view answer: if a batch is accepted
by a view that can come about, and its changes can be shown from one mapping to another, then
following the edits leads from the sections before to exactly the sections after.  So a connection
that processes a batch with a check either refuses it or finds that the edits fit. -/
theorem changeList_reproduces_sections (a : Arrangement m V S)
    (b : Arrangement (Script σ V) V S) :
    (∀ (pre : View S) (batch : List (Mutation V)) (c : Computed S) (policy : MappingPolicy)
      (old new : Mapping) (l : ChangeList), pre.Reachable a → CanReturn (pre.compute a batch) c →
      c.changes.changeList policy old new = .ok l →
      (pre.sections (old.visible pre.length)).apply l
          (c.view.sections (new.visible c.view.length)) =
        .ok (c.view.sections (new.visible c.view.length))) ∧
    ∀ (w : Connection S × σ) (records : List (Transaction V)) (mapping : Mapping),
      Connection.Reachable b w →
      (∃ cause, ((Connection.processVerified b records mapping).run w).1 =
        .error (.refused cause)) ∨
      ∃ v, ((Connection.processVerified b records mapping).run w).1 = .ok v := by
  refine ⟨fun _ _ _ _ _ _ _ hpre hc hl => apply_of_changeList_eq_ok hpre.wellFormed hc hl,
    fun w records mapping hw => ?_⟩
  rw [Connection.run_processVerified hw.wellFormed records mapping]
  rcases (Connection.process b records mapping).run w with ⟨e | changes, w'⟩
  · exact .inl ⟨e, rfl⟩
  · exact .inr ⟨_, rfl⟩

end Reproduction

/-- Mutations that put numbers in and out of a group and between groups. -/
def waveringBatch : List (Mutation Nat) :=
  [.update (waveringKey "a") 20 true, .insert (waveringKey "f") 5 none,
    .update (waveringKey "e") 9 true, .update (waveringKey "d") 4 true]

/-- The view after these mutations, with their net effect. -/
def waveringComputed : Computed Nat :=
  ((waveringView.compute (wavering (StateM Nat)) waveringBatch).run.run 1).1.toOption.getD
    ⟨.empty, {}, 0⟩

/-- The edits of these mutations, with the sections in another order afterwards. -/
def waveringChanges : ChangeList :=
  (waveringComputed.changes.changeList .lenient (.ofGroups [⟨"0"⟩, ⟨"1"⟩])
    (.ofGroups [⟨"2"⟩, ⟨"1"⟩, ⟨"0"⟩])).toOption.getD {}

/-- A connection that shows the five numbers, and the number of comparisons made so far. -/
def waveringConnection : Connection Nat × Nat :=
  let opened := (Connection.ofSnapshot (wavering (Script Nat Nat)) ⟨.zero, waveringItems⟩
    (.ofGroups [⟨"0"⟩, ⟨"1"⟩])).run 0
  (opened.1.toOption.getD ⟨⟨.empty, .empty, .zero⟩, .idle⟩, opened.2)

/-- The edits lead from section to section although the rows are out of order all the way, and a
connection over the same functions accepts the batch. -/
theorem waveringChanges_reproduce :
    waveringView.Reachable (wavering (StateM Nat)) ∧
    CanReturn (waveringView.compute (wavering (StateM Nat)) waveringBatch) waveringComputed ∧
    waveringComputed.view.keys ⟨"0"⟩ =
      [waveringKey "b", waveringKey "d", waveringKey "e", waveringKey "f", waveringKey "c"] ∧
    (waveringView.sections [⟨"0"⟩, ⟨"1"⟩]).apply waveringChanges
        (waveringComputed.view.sections [⟨"2"⟩, ⟨"0"⟩]) =
      .ok (waveringComputed.view.sections [⟨"2"⟩, ⟨"0"⟩]) ∧
    Connection.Reachable (wavering (Script Nat Nat)) (waveringConnection.1, 1) ∧
    ∃ v, ((Connection.processVerified (wavering (Script Nat Nat)) [⟨⟨1⟩, waveringBatch⟩]
      (.ofGroups [⟨"2"⟩, ⟨"1"⟩, ⟨"0"⟩])).run (waveringConnection.1, 1)).1 = .ok v := by
  obtain ⟨hviews, hconnections⟩ :=
    changeList_reproduces_sections (wavering (StateM Nat)) (wavering (Script Nat Nat))
  have hview : waveringView.Reachable (wavering (StateM Nat)) := .seed canReturn_waveringView
  have hcomputed : CanReturn (waveringView.compute (wavering (StateM Nat)) waveringBatch)
      waveringComputed := ⟨1, _, Prod.ext (eq_ok_getD_of_isOk (by decide +kernel) _) rfl⟩
  have happly := hviews waveringView waveringBatch waveringComputed .lenient
    (.ofGroups [⟨"0"⟩, ⟨"1"⟩]) (.ofGroups [⟨"2"⟩, ⟨"1"⟩, ⟨"0"⟩]) waveringChanges hview hcomputed
    (eq_ok_getD_of_isOk (by decide +kernel) _)
  have hbefore : (Mapping.ofGroups [⟨"0"⟩, ⟨"1"⟩]).visible waveringView.length =
    [⟨"0"⟩, ⟨"1"⟩] := by decide +kernel
  have hafter : (Mapping.ofGroups [⟨"2"⟩, ⟨"1"⟩, ⟨"0"⟩]).visible waveringComputed.view.length =
    [⟨"2"⟩, ⟨"0"⟩] := by decide +kernel
  rw [hbefore, hafter] at happly
  have hopened : Connection.Reachable (wavering (Script Nat Nat)) waveringConnection :=
    .opened (Prod.ext (eq_ok_getD_of_isOk (by decide +kernel) _) rfl)
  refine ⟨hview, hcomputed, by decide +kernel, happly, hopened.elsewhere 1, ?_⟩
  refine (hconnections (waveringConnection.1, 1) [⟨⟨1⟩, waveringBatch⟩] _
    (hopened.elsewhere 1)).resolve_left ?_
  rintro ⟨cause, hrefused⟩
  have haccepted : ((Connection.process (wavering (Script Nat Nat)) [⟨⟨1⟩, waveringBatch⟩]
    (.ofGroups [⟨"2"⟩, ⟨"1"⟩, ⟨"0"⟩])).run (waveringConnection.1, 1)).1.isOk = true := by
    decide +kernel
  rw [← Connection.isOk_run_processVerified (hopened.elsewhere 1).wellFormed, hrefused] at haccepted
  cases haccepted

end GroupedView
