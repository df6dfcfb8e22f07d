import GroupedView.Proofs.CatchUp

/-!
# GroupedView.Proofs.Calls — what a call leaves behind

A connection is called with transactions, or with a store to catch up with (`Call`).  A call is
refused, and then the connection is what it was; or it is accepted, and then the transactions that
it brought follow the last one on display (`Connection.call_cases`).  Whatever the functions ask
for meanwhile is refused, so that nothing else happens to the connection.

* `refused_calls_leave_no_trace`: where the functions have no state of their own, the refused calls
  can be left out of any sequence of calls.
-/

open Std
open MonadAttach (CanReturn)
open LawfulMonadAttach

namespace GroupedView

/-- A call of a connection that brings transactions. -/
inductive Call (V : Type) where
  | process (records : List (Transaction V)) (mapping : Mapping)
  | catchUp (store : Store V) (mapping : Mapping)

namespace Call

variable {V : Type}

/-- The mapping that is shown after the call. -/
def mapping : Call V → Mapping
  | process _ mapping | catchUp _ mapping => mapping

/-- The transactions that a call brings to a connection whose last transaction is `t`. -/
def records (t : TransactionId) : Call V → List (Transaction V)
  | process records _ => records
  | catchUp store _ => store.pendingSince t

/-- The calls that were accepted, by the outcomes of all. -/
def accepted (calls : List (Call V)) (outcomes : List Outcome) : List (Call V) :=
  ((calls.zip outcomes).filter fun x => x.2.isOk).map Prod.fst

theorem accepted_eq (calls : List (Call V)) (outcomes : List Outcome) :
    accepted calls outcomes =
      ((calls.zip (outcomes.map Except.isOk)).filter Prod.snd).map Prod.fst := by
  rw [accepted, List.zip_map_right, List.filter_map, List.map_map]
  rfl

end Call

theorem Display.last_of_canReturn_advance {m : Type → Type} [Monad m] [LawfulMonad m]
    [MonadAttach m] [LawfulMonadAttach m] {V S : Type} [BEq S] {a : Arrangement m V S}
    {d d' : Display S} {records : List (Transaction V)} {mapping : Mapping} {changes : ChangeList}
    (h : CanReturn (d.advance a records mapping) (changes, d')) :
    checkSequence d.last records = .ok () ∧ d'.last = lastId d.last records := by
  unfold advance at h
  obtain ⟨u, hu, h⟩ := canReturn_bind_imp' h
  obtain ⟨c, -, h⟩ := canReturn_bind_imp' h
  obtain ⟨l, -, h⟩ := canReturn_bind_imp' h
  cases eq_of_canReturn_pure h
  exact ⟨eq_ok_of_canReturn_mk hu, rfl⟩

namespace Connection

variable {S σ V : Type} [BEq S] (a : Arrangement (Script σ V) V S)

/-- Carry out a call. -/
def call : Call V → Running S σ Outcome
  | .process records mapping => process a records mapping
  | .catchUp store mapping => catchUp a store mapping

/-- Carry out calls one after the other. -/
def callAll (calls : List (Call V)) : Running S σ (List Outcome) := calls.mapM (call a)

/-! ## One call -/

/-- The states that a connection and its functions go through while a batch is in progress: the one
that each action of the functions is taken in, and the one at the end. -/
def moments (records : List (Transaction V)) (mapping : Mapping) (w : Connection S × σ) :
    List (Connection S × σ) :=
  (w.1.display.advance a records mapping).run.moments
    (do return some (← current).phase)
    (fun records mapping => do return some (← processWith a refuse records mapping))
    (⟨w.1.display, .processing⟩, w.2)

variable {a} in
/-- The last moment of a batch is the one after which the connection is idle again. -/
theorem getLast?_moments {records : List (Transaction V)} {mapping : Mapping} {d : Display S}
    {s : σ} : (moments a records mapping (⟨d, .idle⟩, s)).getLast? =
      some (advanced a (processWith a refuse) records mapping d s).2 :=
  Script.getLast?_moments _ _

variable {a} in
/-- At every moment of a batch the connection is what it was, but for its mark. -/
theorem connection_of_mem_moments {records : List (Transaction V)} {mapping : Mapping}
    {d : Display S} {s : σ} {w : Connection S × σ}
    (hw : w ∈ moments a records mapping (⟨d, .idle⟩, s)) : w.1 = ⟨d, .processing⟩ := by
  refine Script.moments_invariant (I := fun w : Connection S × σ => w.1 = ⟨d, .processing⟩)
    ?_ ?_ ?_ ?_ _ rfl w hw
  · exact fun _ h => h
  · exact fun _ _ h => h
  · exact fun _ h => h
  · rintro records mapping ⟨c, s⟩ rfl
    rfl

/-- Nothing happens to a connection while its display advances. -/
theorem advanced_connection (records : List (Transaction V)) (mapping : Mapping) (d : Display S)
    (s : σ) : (advanced a (processWith a refuse) records mapping d s).2.1 = ⟨d, .processing⟩ :=
  connection_of_mem_moments (List.mem_of_getLast? getLast?_moments)

/-- An idle connection refuses transactions and stays what it was, or it accepts transactions that
follow the last one on display. -/
theorem process_cases (records : List (Transaction V)) (mapping : Mapping) (d : Display S) (s : σ) :
    (∃ e s', (process a records mapping).run (⟨d, .idle⟩, s) = (.error e, ⟨d, .idle⟩, s')) ∨
    ∃ changes d' s',
      (process a records mapping).run (⟨d, .idle⟩, s) = (.ok changes, ⟨d', .idle⟩, s') ∧
      checkSequence d.last records = .ok () ∧ d'.last = lastId d.last records := by
  have hwhile := advanced_connection a records mapping d s
  rw [process, run_processWith_of_idle]
  cases hr : (advanced a (processWith a refuse) records mapping d s).1 with
  | error e =>
    refine .inl ⟨e, (advanced a (processWith a refuse) records mapping d s).2.2, ?_⟩
    rw [settle, hwhile]
  | ok r =>
    obtain ⟨changes, d'⟩ := r
    obtain ⟨hsequence, hlast⟩ := Display.last_of_canReturn_advance (canReturn_of_advanced a hr)
    exact .inr ⟨changes, d', _, rfl, hsequence, hlast⟩

variable {a} in
/-- Between calls a connection is idle. -/
theorem Reachable.phase_eq {w : Connection S × σ} (h : Reachable a w) : w.1.phase = .idle := by
  induction h with
  | opened hc =>
    obtain ⟨d, rfl, -⟩ := exists_display_of_run_ofSnapshot hc
    rfl
  | @processed w records mapping h ih =>
    obtain ⟨⟨d, phase⟩, s⟩ := w
    obtain rfl : phase = .idle := ih
    rcases process_cases a records mapping d s with ⟨e, s', hrun⟩ | ⟨changes, d', s', hrun, -⟩
    · rw [hrun]
    · rw [hrun]
  | elsewhere s _ ih => exact ih

theorem run_call (c : Call V) (w : Connection S × σ) :
    (call a c).run w = (process a (c.records w.1.display.last) c.mapping).run w := by
  cases c with
  | process records mapping => rfl
  | catchUp store mapping => exact run_catchUp mapping w

/-- A call leaves the connection as it was, or it is accepted. -/
theorem call_cases (c : Call V) (w : Connection S × σ) :
    (∃ e s', (call a c).run w = (.error e, w.1, s')) ∨
    ∃ changes d' s', (call a c).run w = (.ok changes, ⟨d', .idle⟩, s') ∧
      checkSequence w.1.display.last (c.records w.1.display.last) = .ok () ∧
      d'.last = lastId w.1.display.last (c.records w.1.display.last) := by
  rw [run_call]
  obtain ⟨⟨d, phase⟩, s⟩ := w
  cases phase with
  | processing => exact .inl ⟨.reentrant, s, run_processWith_of_processing a _ _ _ d s⟩
  | idle => exact process_cases a (c.records d.last) c.mapping d s

/-! ## Sequences of calls -/

variable {a}

theorem run_callAll_cons {c : Call V} {calls : List (Call V)} {w w₁ w₂ : Connection S × σ}
    {outcome : Outcome} {outcomes : List Outcome} (hc : (call a c).run w = (outcome, w₁))
    (hcalls : (callAll a calls).run w₁ = (outcomes, w₂)) :
    (callAll a (c :: calls)).run w = (outcome :: outcomes, w₂) := by
  rw [callAll, List.mapM_cons, StateT.run_bind, hc]
  show ((callAll a calls >>= fun outcomes => pure (outcome :: outcomes)).run w₁) = _
  rw [StateT.run_bind, hcalls]
  rfl

/-- Where the functions have no state, the accepted calls alone have the same outcomes and lead to
the same connection. -/
theorem run_callAll_accepted {b : Arrangement (Script Unit V) V S} {calls : List (Call V)}
    {w w' : Connection S × Unit} {outcomes : List Outcome}
    (h : (callAll b calls).run w = (outcomes, w')) :
    (callAll b (Call.accepted calls outcomes)).run w = (outcomes.filter Except.isOk, w') := by
  induction calls generalizing w outcomes with
  | nil =>
    cases h
    rfl
  | cons c calls ih =>
    rcases call_cases b c w with ⟨e, s', hc⟩ | ⟨changes, d', s', hc, -⟩
    · -- the call is left out; the connection is what it was, and there is no state to differ
      cases hcalls : (callAll b calls).run (w.1, s') with
      | mk outcomes₁ w₁ =>
        rw [run_callAll_cons hc hcalls] at h
        cases h
        exact ih hcalls
    · cases hcalls : (callAll b calls).run (⟨d', .idle⟩, s') with
      | mk outcomes₁ w₁ =>
        rw [run_callAll_cons hc hcalls] at h
        cases h
        exact run_callAll_cons hc (ih hcalls)

end Connection

/-- **Refused calls leave no trace.**  Whatever the functions of a connection do, a call that is
refused leaves the view, the mapping, the last transaction and the phase as they were.  So if the
functions have no state of their own, as plain functions have none, then the calls that are
accepted lead by themselves to the same outcomes and to the same connection. -/
theorem refused_calls_leave_no_trace {V S σ : Type} [BEq S] (a : Arrangement (Script σ V) V S)
    (b : Arrangement (Script Unit V) V S) :
    (∀ (c : Call V) (w : Connection S × σ) (e : ViewError),
      ((Connection.call a c).run w).1 = .error e → ((Connection.call a c).run w).2.1 = w.1) ∧
    ∀ (calls : List (Call V)) (w w' : Connection S × Unit) (outcomes : List Outcome),
      (Connection.callAll b calls).run w = (outcomes, w') →
      (Connection.callAll b (Call.accepted calls outcomes)).run w =
        (outcomes.filter Except.isOk, w') := by
  refine ⟨fun c w e he => ?_, fun _ _ _ _ => Connection.run_callAll_accepted⟩
  rcases Connection.call_cases a c w with ⟨e', s', hc⟩ | ⟨changes, d', s', hc, -⟩
  · rw [hc]
  · rw [hc] at he
    cases he

/-- Calls with a gap, with a key that is there already, with a group that is not known when the
batch is done, and two without a fault. -/
def fivesCalls : List (Call Nat) :=
  [.process [⟨⟨3⟩, []⟩] .empty,
    .process [⟨⟨2⟩, [.insert (waveringKey "d") 25 none, .insert (waveringKey "a") 3 none]⟩] .empty,
    .process [⟨⟨2⟩, [.insert (waveringKey "d") 25 none]⟩] (.ofGroups [⟨"2"⟩, ⟨"9"⟩]),
    .catchUp (Store.empty.run fivesHistory) (.ofGroups [⟨"1"⟩]),
    .process [⟨⟨3⟩, [.insert (waveringKey "d") 25 none]⟩] (.ofGroups [⟨"2"⟩, ⟨"1"⟩])]

/-- The outcomes of these calls, and the connection after them. -/
def fivesCalled : List Outcome × Connection Nat × Unit :=
  (Connection.callAll (fives.carry (Script Unit Nat)) fivesCalls).run
    (fivesOpened (fivesHistory.take 1), ())

/-- Of five calls three are refused, and the other two come to the same without them. -/
theorem fivesCalls_leave_no_trace :
    fivesCalled.1.take 3 = [.error (.gap ⟨2⟩ ⟨3⟩), .error (.duplicateKey (waveringKey "a")),
      .error (.unknownGroup ⟨"9"⟩)] ∧
    fivesCalled.1.map Except.isOk = [false, false, false, true, true] ∧
    ((Connection.call (fives.carry (Script Unit Nat)) fivesCalls[2]).run
      (fivesOpened (fivesHistory.take 1), ())).2.1 = fivesOpened (fivesHistory.take 1) ∧
    (Connection.callAll (fives.carry (Script Unit Nat)) (fivesCalls.drop 3)).run
      (fivesOpened (fivesHistory.take 1), ()) =
        (fivesCalled.1.filter Except.isOk, fivesCalled.2) := by
  obtain ⟨hleft, herased⟩ := refused_calls_leave_no_trace (fives.carry (Script Unit Nat))
    (fives.carry (Script Unit Nat))
  have herror : ((Connection.call (fives.carry (Script Unit Nat)) fivesCalls[2]).run
      (fivesOpened (fivesHistory.take 1), ())).1 = .error (.unknownGroup ⟨"9"⟩) := by
    decide +kernel
  have hcalled : (Connection.callAll (fives.carry (Script Unit Nat)) fivesCalls).run
      (fivesOpened (fivesHistory.take 1), ()) = fivesCalled := rfl
  have hrun := herased fivesCalls _ fivesCalled.2 fivesCalled.1 hcalled
  have haccepted : fivesCalled.1.map Except.isOk = [false, false, false, true, true] := by
    decide +kernel
  rw [Call.accepted_eq, haccepted] at hrun
  exact ⟨by decide +kernel, haccepted, hleft _ _ _ herror, hrun⟩

end GroupedView
