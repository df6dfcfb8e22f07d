import GroupedView.Proofs.Calls
import Mathlib.Data.List.Chain

/-!
# GroupedView.Proofs.Consumed — which transactions a connection consumes

`Connection.Consumed a t ids w` says that a connection over the functions `a` that was opened on a
snapshot at `t` has come to `w`, and that the calls accepted on the way brought the transactions
`ids`.  The ids go up by one from `t`, but not beyond the largest id, which follows itself.

* `consumed_ids`: the ids that are consumed are known from `t` and their number.  Up to the largest
  id none is left out or comes twice, and a transaction that is on display already is refused; a
  connection that is at the largest id has come to the end of this.
* `brink_consumed_twice`: there the same transaction is consumed again.
-/

open Std
open MonadAttach (CanReturn)
open LawfulMonadAttach

namespace GroupedView

/-! ## What is consumed on the way -/

/-- The transactions that a call consumes: what it brings, unless it is refused. -/
def Call.consumed {V : Type} (c : Call V) (t : TransactionId) : Outcome → List (Transaction V)
  | .ok _ => c.records t
  | .error _ => []

namespace Connection

variable {S σ V : Type} [BEq S] (a : Arrangement (Script σ V) V S)

/-- What can happen to a connection that is opened on a snapshot at `t` and to the state of its
functions, with the ids of the transactions that are consumed. -/
inductive Consumed (t : TransactionId) : List TransactionId → Connection S × σ → Prop
  | opened {snapshot : Snapshot V} {mapping : Mapping} {s s' : σ} {c : Connection S} :
      snapshot.asOf = t → (ofSnapshot a snapshot mapping).run s = (.ok c, s') →
      Consumed t [] (c, s')
  | called {ids : List TransactionId} {w : Connection S × σ} (c : Call V) : Consumed t ids w →
      Consumed t (ids ++ (c.consumed w.1.display.last ((call a c).run w).1).map Transaction.id)
        ((call a c).run w).2
  | elsewhere {ids : List TransactionId} {w : Connection S × σ} (s : σ) : Consumed t ids w →
      Consumed t ids (w.1, s)

variable {a}

/-- A connection that is opened on a snapshot is idle at its transaction. -/
theorem of_run_ofSnapshot {snapshot : Snapshot V} {mapping : Mapping} {s s' : σ}
    {c : Connection S} (h : (ofSnapshot a snapshot mapping).run s = (.ok c, s')) :
    c.display.last = snapshot.asOf ∧ c.phase = .idle := by
  obtain ⟨d, rfl, hd⟩ := exists_display_of_run_ofSnapshot h
  unfold Display.ofSnapshot at hd
  obtain ⟨v, -, hd⟩ := canReturn_bind_imp' hd
  obtain ⟨u, -, hd⟩ := canReturn_bind_imp' hd
  cases eq_of_canReturn_pure hd
  exact ⟨rfl, rfl⟩

/-- A call brings the connection to the last transaction that it consumes. -/
theorem run_call_consumed (c : Call V) (w : Connection S × σ) :
    checkSequence w.1.display.last (c.consumed w.1.display.last ((call a c).run w).1) = .ok () ∧
      ((call a c).run w).2.1.display.last =
        lastId w.1.display.last (c.consumed w.1.display.last ((call a c).run w).1) := by
  rcases call_cases a c w with ⟨e, s', hc⟩ | ⟨changes, d', s', hc, hsequence, hlast⟩
  · rw [hc]
    exact ⟨rfl, rfl⟩
  · rw [hc]
    exact ⟨hsequence, hlast⟩

/-- A call that brings transactions that do not follow is refused before anything else is done. -/
theorem run_call_of_gap {c : Call V} {d : Display S} {s : σ} {e : ViewError}
    (h : checkSequence d.last (c.records d.last) = .error e) :
    (call a c).run (⟨d, .idle⟩, s) = (.error e, ⟨d, .idle⟩, s) := by
  have hadvance : d.advance a (c.records d.last) c.mapping = ExceptT.mk (pure (.error e)) := by
    rw [Display.advance, h]
    exact throw_bind _
  rw [run_call, process, run_processWith_of_idle, advanced_of_eq_pure hadvance]
  rfl

namespace Consumed

variable {t : TransactionId} {ids : List TransactionId} {w : Connection S × σ}

/-- One more call, with the ids that it consumes written out. -/
theorem consume (h : Consumed a t ids w) (c : Call V) (new : List TransactionId)
    (hnew : (c.consumed w.1.display.last ((call a c).run w).1).map Transaction.id = new) :
    Consumed a t (ids ++ new) ((call a c).run w).2 :=
  hnew ▸ h.called c

/-- The ids that are consumed are those that come after `t`, and the last one is on display. -/
theorem toNat_ids (h : Consumed a t ids w) :
    ids.map TransactionId.toNat =
        (List.range' (t.toNat + 1) ids.length).map (min · TransactionId.last.toNat) ∧
      w.1.display.last.toNat = min (t.toNat + ids.length) TransactionId.last.toNat := by
  induction h with
  | opened hasOf hopened =>
    have hle : t.toNat ≤ TransactionId.last.toNat := TransactionId.toNat_le_last
    refine ⟨rfl, ?_⟩
    rw [(of_run_ofSnapshot hopened).1, hasOf, List.length_nil]
    omega
  | @called ids w c h ih =>
    obtain ⟨hids, hlast⟩ := ih
    obtain ⟨hsequence, hnext⟩ := run_call_consumed (a := a) c w
    rw [hnext, toNat_lastId hsequence, List.map_append, hids, List.map_map, List.length_append,
      List.length_map, hlast]
    constructor
    · have hconsumed := checkSequence_eq_ok_iff.mp hsequence
      rw [hlast, map_min_range'_min] at hconsumed
      refine (congrArg _ hconsumed).trans ?_
      rw [← List.map_append, Nat.add_right_comm t.toNat, List.range'_append_1]
    · omega
  | elsewhere s h ih => exact ih

/-- Up to the largest id, and only so far, the ids go up by one. -/
theorem isChain_iff (h : Consumed a t ids w) :
    (t :: ids).IsChain (fun i j => j.toNat = i.toNat + 1) ↔
      t.toNat + ids.length ≤ TransactionId.last.toNat := by
  have hle : t.toNat ≤ TransactionId.last.toNat := TransactionId.toNat_le_last
  have hall : (t :: ids).map TransactionId.toNat =
      (List.range' t.toNat (ids.length + 1)).map (min · TransactionId.last.toNat) := by
    rw [List.range'_succ, List.map_cons, List.map_cons, h.toNat_ids.1, Nat.min_eq_left hle]
  rw [← List.isChain_map TransactionId.toNat (R := fun i j => j = i + 1), hall, List.isChain_map,
    List.isChain_iff_getElem]
  simp only [List.length_range', List.getElem_range']
  constructor
  · intro hchain
    rcases Nat.eq_zero_or_pos ids.length with hzero | hpos
    · omega
    · have hlast := hchain (ids.length - 1) (by omega)
      omega
  · intro hbound i hi
    omega

theorem reachable (h : Consumed a t ids w) : Reachable a w := by
  induction h with
  | opened _ hopened => exact .opened hopened
  | called c _ ih =>
    rw [run_call]
    exact ih.processed _ _
  | elsewhere s _ ih => exact ih.elsewhere s

/-- Below the largest id, a transaction that is on display already makes a call fail. -/
theorem run_call_of_le (h : Consumed a t ids w) {c : Call V} {r : Transaction V}
    (hr : r ∈ c.records w.1.display.last) (hle : r.id.toNat ≤ w.1.display.last.toNat)
    (hlast : w.1.display.last ≠ .last) :
    ∃ expected found, (call a c).run w = (.error (.gap expected found), w) := by
  have hidle := h.reachable.phase_eq
  obtain ⟨⟨d, phase⟩, s⟩ := w
  subst hidle
  rcases checkSequence_cases d.last (c.records d.last) with hok | ⟨e, f, hgap⟩
  · exact absurd (lt_of_checkSequence hok hlast hr) (Nat.not_lt.mpr hle)
  · exact ⟨e, f, run_call_of_gap hgap⟩

end Consumed

end Connection

/-- **The ids that a connection consumes.**  A connection is opened on a snapshot at `t`, called any
number of times, and consumes transactions with the ids `ids`.  These are the ids after `t`, one by
one with none left out or repeated, exactly as long as they do not go beyond the largest id.  Each
call that is accepted brings the transactions that follow the last one on display, and puts the
last of them in its place.  A call with a transaction that is on display already is refused for it
and changes nothing, unless the largest id is on display. -/
theorem consumed_ids {V S σ : Type} [BEq S] {a : Arrangement (Script σ V) V S}
    {t : TransactionId} {ids : List TransactionId} {w : Connection S × σ}
    (h : Connection.Consumed a t ids w) :
    ids.map TransactionId.toNat =
        (List.range' (t.toNat + 1) ids.length).map (min · TransactionId.last.toNat) ∧
    ((t :: ids).IsChain (fun i j => j.toNat = i.toNat + 1) ↔
      t.toNat + ids.length ≤ TransactionId.last.toNat) ∧
    w.1.display.last.toNat = min (t.toNat + ids.length) TransactionId.last.toNat ∧
    (∀ (c : Call V) (changes : ChangeList) (w' : Connection S × σ),
      (Connection.call a c).run w = (.ok changes, w') →
      (c.records w.1.display.last).map (·.id.toNat) =
        (List.range' (w.1.display.last.toNat + 1) (c.records w.1.display.last).length).map
          (min · TransactionId.last.toNat) ∧
      w'.1.display.last = lastId w.1.display.last (c.records w.1.display.last)) ∧
    ∀ (c : Call V), ∀ r ∈ c.records w.1.display.last,
      r.id.toNat ≤ w.1.display.last.toNat → w.1.display.last ≠ .last →
      ∃ expected found, (Connection.call a c).run w = (.error (.gap expected found), w) := by
  refine ⟨h.toNat_ids.1, h.isChain_iff, h.toNat_ids.2, fun c changes w' hc => ?_,
    fun c r hr hle hlast => h.run_call_of_le hr hle hlast⟩
  have hconsumed := Connection.run_call_consumed (a := a) c w
  rw [hc] at hconsumed
  exact ⟨checkSequence_eq_ok_iff.mp hconsumed.1, hconsumed.2⟩

/-- A connection that was opened on one transaction consumes two more, and refuses the first of
them when it comes again. -/
theorem fives_consumed : ∃ w : Connection Nat × Unit,
    Connection.Consumed (fives.carry (Script Unit Nat)) ⟨1⟩ [⟨2⟩, ⟨3⟩] w ∧
    w.1.display.last = ⟨3⟩ ∧
    ∃ expected found, (Connection.call (fives.carry (Script Unit Nat))
      (.process [⟨⟨2⟩, []⟩] .empty)).run w = (.error (.gap expected found), w) := by
  have hopened : (Connection.ofSnapshot (fives.carry (Script Unit Nat))
      (Store.empty.run (fivesHistory.take 1)).snapshot (.ofGroups [⟨"1"⟩])).run () =
      (.ok (fivesOpened (fivesHistory.take 1)), ()) :=
    Prod.ext (eq_ok_getD_of_isOk (by decide +kernel) _) rfl
  have hw := ((Connection.Consumed.opened rfl hopened).consume fivesCalls[3] [⟨2⟩]
    (by decide +kernel)).consume fivesCalls[4] [⟨3⟩] (by decide +kernel)
  obtain ⟨-, -, hlast, -, hrefused⟩ := consumed_ids hw
  have hlast : _ = (⟨3⟩ : TransactionId) := TransactionId.toNat_inj.mp hlast
  refine ⟨_, hw, hlast, hrefused _ ⟨⟨2⟩, []⟩ List.mem_cons_self ?_ ?_⟩
  · rw [hlast]
    decide
  · rw [hlast]
    decide

/-- A connection to one item, at the transaction before the largest id. -/
def brink : Connection Nat :=
  ((Connection.ofSnapshot (fives.carry (Script Unit Nat))
    ⟨⟨0xFFFFFFFFFFFFFFFE⟩, [(waveringKey "a", 16)]⟩ (.ofGroups [⟨"1"⟩])).run ()).1.toOption.getD
      ⟨⟨.empty, .empty, .zero⟩, .idle⟩

/-- A call with a transaction that has the largest id. -/
def brinkCall : Call Nat := .process [⟨.last, [.update (waveringKey "a") 25 true]⟩] .empty

/-- A transaction with the largest id is consumed as often as it comes. -/
theorem brink_consumed_twice : ∃ w : Connection Nat × Unit,
    Connection.Consumed (fives.carry (Script Unit Nat)) ⟨0xFFFFFFFFFFFFFFFE⟩ [.last] w ∧
    w.1.display.last = .last ∧ brinkCall.records w.1.display.last =
      [⟨.last, [.update (waveringKey "a") 25 true]⟩] ∧
    ((Connection.call (fives.carry (Script Unit Nat)) brinkCall).run w).1.isOk = true ∧
    Connection.Consumed (fives.carry (Script Unit Nat)) ⟨0xFFFFFFFFFFFFFFFE⟩ [.last, .last]
      ((Connection.call (fives.carry (Script Unit Nat)) brinkCall).run w).2 := by
  have hopened : (Connection.ofSnapshot (fives.carry (Script Unit Nat))
      ⟨⟨0xFFFFFFFFFFFFFFFE⟩, [(waveringKey "a", 16)]⟩ (.ofGroups [⟨"1"⟩])).run () =
      (.ok brink, ()) :=
    Prod.ext (eq_ok_getD_of_isOk (by decide +kernel) _) rfl
  have honce := (Connection.Consumed.opened rfl hopened).consume brinkCall [.last]
    (by decide +kernel)
  exact ⟨_, honce, by decide +kernel, rfl, by decide +kernel,
    honce.consume brinkCall [.last] (by decide +kernel)⟩

end GroupedView
