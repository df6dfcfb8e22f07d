import GroupedView.Proofs.Calls
import GroupedView.Proofs.Correspondence.Translation

/-!
# GroupedView.Proofs.Reentrancy — functions that ask for a batch while one is in progress

The functions of a connection may ask it to process transactions at any of their calls.  While a
batch is in progress each such request is refused.

* `Script.hushed` is a script that goes on as if its requests had been refused, without making them;
  `Script.run_hushed` says that it comes to the same where they are.
* `Correspondence.unused` says of a computation that it is not refused for reentrancy; no advance of
  a display is.
* `nested_batches_are_refused`: at every moment of a batch the connection is processing and refuses
  what it is asked for, the batch comes to the same as without any request, and it leaves the
  connection idle, so that a call from outside is never refused for reentrancy.
-/

open MonadAttach (CanReturn)
open LawfulMonadAttach

namespace GroupedView

/-! ## Scripts that make no request -/

namespace Script

variable {σ V α β : Type}

/-- A script that does not ask to process transactions, whatever its other actions come to. -/
def Quiet : Script σ V α → Prop
  | done _ => True
  | look next => ∀ s, (next s).Quiet
  | keep _ next => next.Quiet
  | askPhase next => ∀ p, (next p).Quiet
  | askProcess _ _ _ => False

/-- The script without its requests to process transactions; it goes on as if each had been refused
for reentrancy. -/
def hushed : Script σ V α → Script σ V α
  | done x => done x
  | look next => look fun s => (next s).hushed
  | keep s next => keep s next.hushed
  | askPhase next => askPhase fun p => (next p).hushed
  | askProcess _ _ next => (next (some (.error .reentrant))).hushed

theorem quiet_hushed (x : Script σ V α) : x.hushed.Quiet := by
  induction x with
  | done x => trivial
  | look next ih => exact ih
  | keep s next ih => exact ih
  | askPhase next ih => exact ih
  | askProcess records mapping next ih => exact ih _

theorem hushed_bind (x : Script σ V α) (f : α → Script σ V β) :
    (x >>= f).hushed = x.hushed >>= fun a => (f a).hushed := by
  induction x with
  | done x => rfl
  | look next ih => exact congrArg look (funext ih)
  | keep s next ih => exact congrArg (keep s) ih
  | askPhase next ih => exact congrArg askPhase (funext ih)
  | askProcess records mapping next ih => exact ih _

/-- To leave requests out is a translation. -/
def hush : Translation (Script σ V) (Script σ V) where
  map := hushed
  map_pure _ := rfl
  map_bind := hushed_bind

variable {τ : Type} [MonadStateOf σ (StateM τ)] {phase : StateM τ (Option Phase)}
  {process process' : List (Transaction V) → Mapping → StateM τ (Option Outcome)}

/-- Where every request would be refused for reentrancy and change nothing, requests can be left
out. -/
theorem run_hushed {x : Script σ V α} {t : τ}
    (h : ∀ u ∈ x.moments phase process t, ∀ records mapping,
      (process records mapping).run u = (some (.error .reentrant), u)) :
    (x.hushed.run phase process').run t = (x.run phase process).run t := by
  induction x generalizing t with
  | done x => rfl
  | look next ih => exact ih _ fun u hu => h u (List.mem_cons_of_mem _ hu)
  | keep s next ih => exact ih fun u hu => h u (List.mem_cons_of_mem _ hu)
  | askPhase next ih => exact ih _ fun u hu => h u (List.mem_cons_of_mem _ hu)
  | askProcess records mapping next ih =>
    have hrefused := h t List.mem_cons_self records mapping
    have hnext := fun u hu => h u (List.mem_cons_of_mem _ hu)
    rw [hrefused] at hnext
    rw [run, StateT.run_bind, hrefused]
    exact ih _ hnext

end Script

/-- Functions that do not ask to process transactions. -/
structure Arrangement.Quiet {σ V S : Type} (a : Arrangement (Script σ V) V S) : Prop where
  grouping : ∀ k value, (a.grouping k value).Quiet
  sortKey : ∀ k value, (a.sortKey k value).Quiet
  comparison : ∀ r s, (a.comparison r s).Quiet

/-- The same functions without their requests. -/
def Arrangement.hushed {σ V S : Type} (a : Arrangement (Script σ V) V S) :
    Arrangement (Script σ V) V S :=
  a.mapEffects Script.hushed

theorem Arrangement.quiet_hushed {σ V S : Type} (a : Arrangement (Script σ V) V S) :
    a.hushed.Quiet where
  grouping _ _ := Script.quiet_hushed _
  sortKey _ _ := Script.quiet_hushed _
  comparison _ _ := Script.quiet_hushed _

/-! ## Computations that are not refused for reentrancy -/

section Unused

variable {m : Type → Type} [Monad m] [LawfulMonad m] [MonadAttach m] [LawfulMonadAttach m]

/-- No refusal of a computation is for reentrancy. -/
def Correspondence.unused (m : Type → Type) [Monad m] [LawfulMonad m] [MonadAttach m]
    [LawfulMonadAttach m] : Correspondence m m where
  Rel x _ := ∀ e, CanReturn (m := m) x.run (.error e) → e ≠ .reentrant
  rel_pure x e h := by cases eq_of_canReturn_pure (m := m) h
  rel_throw he e h := by
    cases eq_of_canReturn_pure (m := m) h
    exact he
  rel_bind h hf e he := by
    rw [ExceptT.run_bind] at he
    obtain ⟨r, hr, he⟩ := canReturn_bind_imp' he
    cases r with
    | ok a => exact hf a hr e he
    | error e' =>
      cases eq_of_canReturn_pure he
      exact h e hr

variable {V S : Type} [BEq S]

theorem Correspondence.unused_lift {α : Type} (x y : m α) :
    (unused m).Rel (ExceptT.lift x) (ExceptT.lift y) := by
  intro e h
  have h : CanReturn (m := m) (Except.ok <$> x) (.error e : Except ViewError α) := h
  obtain ⟨a, -, ha⟩ := canReturn_map_imp' h
  cases ha

/-- The advance of a display is not refused for reentrancy. -/
theorem Display.ne_reentrant_of_canReturn_advance {a : Arrangement m V S} {d : Display S}
    (hd : d.view.WellFormed) {records : List (Transaction V)} {mapping : Mapping} {e : ViewError}
    (h : CanReturn (m := m) (d.advance a records mapping).run (.error e)) : e ≠ .reentrant := by
  have hrelates : (Correspondence.unused m).Relates a a := by
    refine Correspondence.relates_of_functions rfl ?_ ?_ ?_
    · exact fun _ _ => Correspondence.unused_lift _ _
    · exact fun _ _ => Correspondence.unused_lift _ _
    · exact fun _ _ => Correspondence.unused_lift _ _
  exact hrelates.advance hd records mapping e h

end Unused

/-! ## Batches of a connection -/

namespace Connection

variable {S σ V : Type} [BEq S] {a : Arrangement (Script σ V) V S}
  {records : List (Transaction V)} {mapping : Mapping} {d : Display S} {s : σ}

/-- The display advances the same way without the requests of the functions. -/
theorem advanced_hushed (hd : d.view.WellFormed) :
    advanced a.hushed (processWith a.hushed refuse) records mapping d s =
      advanced a (processWith a refuse) records mapping d s := by
  have hadvance : (d.advance a.hushed records mapping).run =
      (d.advance a records mapping).run.hushed :=
    (congrArg ExceptT.run (Script.hush.checked_advance a hd records mapping)).symm
  rw [advanced, hadvance]
  refine Script.run_hushed fun u hu records mapping => ?_
  obtain ⟨c, t⟩ := u
  obtain rfl : c = ⟨d, .processing⟩ := connection_of_mem_moments hu
  rfl

theorem ne_reentrant_of_run_process (hd : d.view.WellFormed) :
    ((process a records mapping).run (⟨d, .idle⟩, s)).1 ≠ .error .reentrant := by
  have hends : (d.advance a records mapping).run.Ends
      (advanced a (processWith a refuse) records mapping d s).1 := Script.ends_run _ _
  rw [process, run_processWith_of_idle]
  cases hr : (advanced a (processWith a refuse) records mapping d s).1 with
  | ok r =>
    intro h
    cases h
  | error e =>
    rw [hr] at hends
    intro h
    cases h
    exact Display.ne_reentrant_of_canReturn_advance (m := Script σ V) hd hends rfl

end Connection

/-- **Nested batches are refused.**  Whatever the functions of a connection do at each of their
calls, and whatever they ask for: while a batch is in progress the connection is processing, a
further batch is refused for reentrancy and leaves everything as it is, and the outcome and the
connection after it are those of the functions without their requests.  When the batch is over,
with success or with a refusal, the connection is idle.  So no call from outside is ever refused for
reentrancy. -/
theorem nested_batches_are_refused {S σ V : Type} [BEq S] {a : Arrangement (Script σ V) V S}
    {w : Connection S × σ} (hw : Connection.Reachable a w) (records : List (Transaction V))
    (mapping : Mapping) :
    (∀ u ∈ Connection.moments a records mapping w, u.1.phase = .processing ∧
      ∀ (nested : List (Transaction V) → Mapping → Running S σ Outcome)
        (records' : List (Transaction V)) (mapping' : Mapping),
        (Connection.processWith a nested records' mapping').run u = (.error .reentrant, u)) ∧
    (∃ u ∈ Connection.moments a records mapping w, ∃ r,
      (Connection.process a records mapping).run w = Connection.settle u r) ∧
    a.hushed.Quiet ∧
    (Connection.process a records mapping).run w =
      (Connection.process a.hushed records mapping).run w ∧
    ((Connection.process a records mapping).run w).2.1.phase = .idle ∧
    ∀ c : Call V, ((Connection.call a c).run w).1 ≠ .error .reentrant := by
  obtain ⟨⟨d, phase⟩, s⟩ := w
  obtain rfl : phase = .idle := hw.phase_eq
  have hd : d.view.WellFormed := hw.wellFormed
  refine ⟨fun u hu => ?_, ?_, a.quiet_hushed, ?_, (hw.processed records mapping).phase_eq,
    fun c => ?_⟩
  · obtain ⟨c, t⟩ := u
    obtain rfl : c = ⟨d, .processing⟩ := Connection.connection_of_mem_moments hu
    exact ⟨rfl, fun nested records' mapping' =>
      Connection.run_processWith_of_processing a nested records' mapping' d t⟩
  · exact ⟨_, List.mem_of_getLast? Connection.getLast?_moments, _,
      Connection.run_processWith_of_idle a _ records mapping d s⟩
  · rw [Connection.process, Connection.process, Connection.run_processWith_of_idle,
      Connection.run_processWith_of_idle, Connection.advanced_hushed hd]
  · rw [Connection.run_call]
    exact Connection.ne_reentrant_of_run_process hd

/-- Ask for a batch before the answer, and count the refusals for reentrancy. -/
def meddle {α : Type} (x : α) : Script Nat Nat α :=
  .askPhase fun phase => .askProcess [⟨⟨1⟩, []⟩] .empty fun outcome =>
    match phase, outcome with
    | some .processing, some (.error .reentrant) => .look fun n => .keep (n + 1) (.done x)
    | _, _ => .done x

/-- Numbers by their fives, with functions that ask for a batch at each of their calls. -/
def meddling : Arrangement (Script Nat Nat) Nat Nat := fives.mapEffects fun x => meddle x.run

/-- A connection that shows one of two numbers, and the number of refusals so far. -/
def meddlingConnection : Connection Nat × Nat :=
  let opened := (Connection.ofSnapshot meddling
    ⟨.zero, [(waveringKey "a", 16), (waveringKey "b", 3)]⟩ (.ofGroups [⟨"1"⟩])).run 0
  (opened.1.toOption.getD ⟨⟨.empty, .empty, .zero⟩, .idle⟩, opened.2)

/-- A number comes, and another one changes its group. -/
def meddlingRecords : List (Transaction Nat) :=
  [⟨⟨1⟩, [.insert (waveringKey "c") 11 none, .update (waveringKey "b") 12 true]⟩]

/-- The functions ask thirty times while these transactions are processed; without their requests
the batch comes to the same. -/
theorem meddling_refused :
    Connection.Reachable meddling meddlingConnection ∧
    ((Connection.process meddling meddlingRecords (.ofGroups [⟨"1"⟩])).run
      meddlingConnection).2.2 = 30 ∧
    (∀ u ∈ Connection.moments meddling meddlingRecords (.ofGroups [⟨"1"⟩]) meddlingConnection,
      u.1.phase = .processing ∧
      (Connection.process meddling meddlingRecords (.ofGroups [⟨"1"⟩])).run u =
        (.error .reentrant, u)) ∧
    (Connection.process meddling meddlingRecords (.ofGroups [⟨"1"⟩])).run meddlingConnection =
      (Connection.process meddling.hushed meddlingRecords (.ofGroups [⟨"1"⟩])).run
        meddlingConnection ∧
    ((Connection.process meddling meddlingRecords (.ofGroups [⟨"1"⟩])).run
      meddlingConnection).2.1.phase = .idle := by
  have hw : Connection.Reachable meddling meddlingConnection :=
    .opened (Prod.ext (eq_ok_getD_of_isOk (by decide +kernel) _) rfl)
  obtain ⟨hmoments, -, -, hhushed, hidle, -⟩ :=
    nested_batches_are_refused hw meddlingRecords (.ofGroups [⟨"1"⟩])
  exact ⟨hw, by decide +kernel, fun u hu => ⟨(hmoments u hu).1, (hmoments u hu).2 _ _ _⟩, hhushed,
    hidle⟩

end GroupedView
