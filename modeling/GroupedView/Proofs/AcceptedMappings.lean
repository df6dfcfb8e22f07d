import GroupedView.Proofs.Calls
import GroupedView.Proofs.Refusals

/-!
# GroupedView.Proofs.AcceptedMappings — a mapping that was accepted stays acceptable

A strict connection refuses a mapping for a group that is neither static in it nor known to the
view.  Groups that are known stay known, whether or not they keep a row, and a call that is refused
takes none away.  `Connection.Accepted a ms w` says that a connection over the functions `a` has
come to `w`, and that the mappings `ms` were accepted on the way.

* `Display.refused_advance`: an advance is refused for an unknown group only if the mapping is
  refused with all that was known before.
* `accepted_mappings_stay`: no call is refused for an unknown group if each group of its mapping is
  static in it or was listed, and not static, in a mapping that was accepted before.
-/

open Std
open MonadAttach (CanReturn)
open LawfulMonadAttach

namespace GroupedView

/-- A mapping is accepted if the policy is lenient or each of its groups is static or known. -/
theorem Mapping.validate_eq_ok_iff {m : Mapping} {policy : MappingPolicy} {known : GroupId → Bool} :
    m.validate policy known = .ok () ↔
      (policy = .strict → ∀ g ∈ m.groups, m.isStatic g = true ∨ known g = true) := by
  cases policy with
  | lenient =>
    refine ⟨fun _ h => ?_, fun _ => rfl⟩
    cases h
  | strict =>
    have hnone : m.groups.find? (m.refuses known) = none ↔
        ∀ g ∈ m.groups, m.isStatic g = true ∨ known g = true := by
      simp only [List.find?_eq_none, refuses, Bool.and_eq_true, Bool.not_eq_true', not_and_or,
        Bool.not_eq_false]
    rw [validate]
    cases hfind : m.groups.find? (m.refuses known) with
    | none => exact ⟨fun _ _ => hnone.mp hfind, fun _ => rfl⟩
    | some g =>
      constructor
      · intro h
        cases h
      · intro h
        rw [hnone.mpr (h rfl)] at hfind
        cases hfind

/-- Each group of a mapping is static in it, or some of these mappings lists it and does not mark it
static. -/
def Mapping.Backed (ms : List Mapping) (m : Mapping) : Prop :=
  ∀ g ∈ m.groups, m.isStatic g = true ∨ ∃ n ∈ ms, g ∈ n.groups ∧ n.isStatic g = false

theorem Mapping.backed_of_mem {ms : List Mapping} {m : Mapping} (hm : m ∈ ms) : m.Backed ms := by
  intro g hg
  cases hstatic : m.isStatic g with
  | true => exact .inl rfl
  | false => exact .inr ⟨m, hm, hg, hstatic⟩

/-- A mapping that others back is accepted wherever these are. -/
theorem Mapping.Backed.validate {ms : List Mapping} {m : Mapping} {policy : MappingPolicy}
    {known : GroupId → Bool} (h : m.Backed ms)
    (hms : ∀ n ∈ ms, n.validate policy known = .ok ()) : m.validate policy known = .ok () := by
  refine validate_eq_ok_iff.mpr fun hstrict g hg => (h g hg).imp_right ?_
  rintro ⟨n, hn, hgn, hnot⟩
  refine (validate_eq_ok_iff.mp (hms n hn) hstrict g hgn).resolve_left ?_
  rw [hnot]
  exact Bool.false_ne_true

/-! ## Displays -/

namespace Display

variable {m : Type → Type} [Monad m] [LawfulMonad m] [MonadAttach m] [LawfulMonadAttach m]
variable {V S : Type} [BEq S] {a : Arrangement m V S} {d d' : Display S}
  {records : List (Transaction V)} {mapping : Mapping}

/-- A display is opened with a mapping that its view accepts. -/
theorem validate_of_canReturn_ofSnapshot {snapshot : Snapshot V}
    (h : CanReturn (Display.ofSnapshot a snapshot mapping) d) :
    mapping.validate a.options.policy d.view.isKnown = .ok () := by
  unfold ofSnapshot at h
  obtain ⟨v, -, h⟩ := canReturn_bind_imp' h
  obtain ⟨u, hu, h⟩ := canReturn_bind_imp' h
  cases eq_of_canReturn_pure h
  exact eq_ok_of_canReturn_mk hu

/-- What is known after an accepted batch: all that was known before, and nothing else than what
the new mapping is checked against. -/
theorem known_of_canReturn_compute {pre : View S} (hpre : pre.WellFormed)
    {batch : List (Mutation V)}
    {c : Computed S} (h : CanReturn (pre.compute a batch) c) :
    (∀ g, pre.isKnown g = true → c.view.isKnown g = true) ∧
      c.changes.isKnown = c.view.isKnown := by
  obtain ⟨f, hf, hview, hchanges⟩ := canReturn_compute hpre h
  rw [hview, hchanges]
  refine ⟨fun g hg => ?_, funext Fold.isKnown_netChanges⟩
  exact ExtTreeSet.contains_iff_mem.mpr (hf.known_subset g (ExtTreeSet.contains_iff_mem.mp hg))

/-- An advance keeps what is known and ends with a mapping that the view accepts. -/
theorem known_of_canReturn_advance (hd : d.view.WellFormed) {changes : ChangeList}
    (h : CanReturn (d.advance a records mapping) (changes, d')) :
    (∀ g, d.view.isKnown g = true → d'.view.isKnown g = true) ∧
      mapping.validate a.options.policy d'.view.isKnown = .ok () := by
  unfold advance at h
  obtain ⟨-, -, h⟩ := canReturn_bind_imp' h
  obtain ⟨c, hc, h⟩ := canReturn_bind_imp' h
  obtain ⟨l, hl, h⟩ := canReturn_bind_imp' h
  cases eq_of_canReturn_pure h
  obtain ⟨hknown, hchecked⟩ := known_of_canReturn_compute hd hc
  refine ⟨hknown, ?_⟩
  have hl := eq_ok_of_canReturn_mk hl
  rw [NetChanges.changeList, hchecked] at hl
  cases hv : mapping.validate a.options.policy c.view.isKnown with
  | ok u => rfl
  | error e =>
    rw [hv] at hl
    cases hl

/-- An advance that is refused for an unknown group found its mapping refused, and by then all was
known that is known before. -/
theorem refused_advance (hd : d.view.WellFormed) {g : GroupId}
    (h : CanReturn (m := m) (d.advance a records mapping).run (.error (.unknownGroup g))) :
    ∃ known : GroupId → Bool, (∀ g, d.view.isKnown g = true → known g = true) ∧
      mapping.validate a.options.policy known = .error (.unknownGroup g) := by
  unfold advance at h
  rcases refused_bind h with hsequence | ⟨-, -, h⟩
  · rcases checkSequence_cases d.last records with hok | ⟨expected, found, hgap⟩
    · rw [hok] at hsequence
      cases eq_of_canReturn_pure (m := m) hsequence
    · rw [hgap] at hsequence
      cases eq_of_canReturn_pure (m := m) hsequence
  rcases refused_bind h with hbatch | ⟨c, hc, h⟩
  · obtain ⟨mu, -, hitem⟩ := View.item?_of_refused_compute hbatch
    cases hitem
  rcases refused_bind h with hmapping | ⟨l, -, hdone⟩
  · obtain ⟨hknown, hchecked⟩ := known_of_canReturn_compute hd hc
    have hmapping := eq_of_canReturn_pure (m := m) hmapping
    rw [NetChanges.changeList, hchecked] at hmapping
    refine ⟨c.view.isKnown, hknown, ?_⟩
    cases hv : mapping.validate a.options.policy c.view.isKnown with
    | ok u =>
      rw [hv] at hmapping
      cases hmapping
    | error e =>
      rw [hv] at hmapping
      cases hmapping
      rfl
  · cases eq_of_canReturn_pure (m := m) hdone

end Display

/-! ## Connections -/

/-- The mapping that a call puts in place: the one that it brings, unless it is refused. -/
def Call.shown {V : Type} (c : Call V) : Outcome → List Mapping
  | .ok _ => [c.mapping]
  | .error _ => []

namespace Connection

variable {S σ V : Type} [BEq S] (a : Arrangement (Script σ V) V S)

/-- What can happen to a connection and to the state of its functions, with the mappings that were
accepted. -/
inductive Accepted : List Mapping → Connection S × σ → Prop
  | opened {snapshot : Snapshot V} {mapping : Mapping} {s s' : σ} {c : Connection S} :
      (ofSnapshot a snapshot mapping).run s = (.ok c, s') → Accepted [mapping] (c, s')
  | called {ms : List Mapping} {w : Connection S × σ} (c : Call V) : Accepted ms w →
      Accepted (ms ++ c.shown ((call a c).run w).1) ((call a c).run w).2
  | elsewhere {ms : List Mapping} {w : Connection S × σ} (s : σ) : Accepted ms w →
      Accepted ms (w.1, s)

variable {a}

/-- A call that an idle connection refuses is refused by its display. -/
theorem refused_of_run_call {c : Call V} {d : Display S} {s : σ} {e : ViewError}
    (h : ((call a c).run (⟨d, .idle⟩, s)).1 = .error e) :
    CanReturn (m := Script σ V) (d.advance a (c.records d.last) c.mapping).run (.error e) := by
  have hends : (d.advance a (c.records d.last) c.mapping).run.Ends
      (advanced a (processWith a refuse) (c.records d.last) c.mapping d s).1 := Script.ends_run _ _
  rw [run_call, process, run_processWith_of_idle] at h
  cases hr : (advanced a (processWith a refuse) (c.records d.last) c.mapping d s).1 with
  | ok r =>
    rw [hr] at h
    cases h
  | error e' =>
    rw [hr] at h hends
    cases h
    exact hends

/-- What a call does to what is known: nothing if it is refused, and else it adds to it what its
mapping asks for. -/
theorem known_of_run_call (c : Call V) (w : Connection S × σ) (hw : w.1.display.view.WellFormed) :
    (∀ g, w.1.display.view.isKnown g = true →
      ((call a c).run w).2.1.display.view.isKnown g = true) ∧
    ∀ m ∈ c.shown ((call a c).run w).1,
      m.validate a.options.policy ((call a c).run w).2.1.display.view.isKnown = .ok () := by
  rcases call_cases a c w with ⟨e, s', hc⟩ | ⟨changes, d', s', hc, -⟩
  · rw [hc]
    exact ⟨fun _ hg => hg, fun _ hm => absurd hm List.not_mem_nil⟩
  · obtain ⟨⟨d, phase⟩, s⟩ := w
    rw [run_call] at hc ⊢
    cases phase with
    | processing => cases hc
    | idle =>
      rw [process, run_processWith_of_idle] at hc ⊢
      cases hr : (advanced a (processWith a refuse) (c.records d.last) c.mapping d s).1 with
      | error e =>
        rw [hr] at hc
        cases hc
      | ok r =>
        obtain ⟨changes', d''⟩ := r
        obtain ⟨hknown, hvalid⟩ :=
          Display.known_of_canReturn_advance hw (canReturn_of_advanced a hr)
        exact ⟨hknown, List.forall_mem_singleton.mpr hvalid⟩

namespace Accepted

variable {ms : List Mapping} {w : Connection S × σ}

theorem reachable (h : Accepted a ms w) : Reachable a w := by
  induction h with
  | opened hopened => exact .opened hopened
  | called c _ ih =>
    rw [run_call]
    exact ih.processed _ _
  | elsewhere s _ ih => exact ih.elsewhere s

/-- Each mapping that was accepted would be accepted again. -/
theorem validate (h : Accepted a ms w) :
    ∀ m ∈ ms, m.validate a.options.policy w.1.display.view.isKnown = .ok () := by
  induction h with
  | opened hopened =>
    obtain ⟨d, rfl, hd⟩ := exists_display_of_run_ofSnapshot hopened
    exact List.forall_mem_singleton.mpr (Display.validate_of_canReturn_ofSnapshot hd)
  | @called ms w c h ih =>
    obtain ⟨hknown, hshown⟩ := known_of_run_call (a := a) c w h.reachable.wellFormed
    intro m hm
    rcases List.mem_append.mp hm with hm | hm
    · exact Mapping.validate_mono hknown (ih m hm)
    · exact hshown m hm
  | elsewhere s _ ih => exact ih

/-- One more call, with the mapping that it puts in place written out. -/
theorem take (h : Accepted a ms w) (c : Call V) (new : List Mapping)
    (hnew : c.shown ((call a c).run w).1 = new) : Accepted a (ms ++ new) ((call a c).run w).2 :=
  hnew ▸ h.called c

/-- No call is refused for an unknown group if accepted mappings back its own. -/
theorem ne_unknownGroup (h : Accepted a ms w) {c : Call V} (hc : c.mapping.Backed ms)
    {u : Connection S × σ} (hu : u.1.display = w.1.display) (g : GroupId) :
    ((call a c).run u).1 ≠ .error (.unknownGroup g) := by
  obtain ⟨⟨d, phase⟩, s⟩ := u
  obtain rfl : d = w.1.display := hu
  intro hrefused
  cases phase with
  | processing =>
    rw [run_call, process, run_processWith_of_processing] at hrefused
    cases hrefused
  | idle =>
    obtain ⟨known, hknown, hunknown⟩ :=
      Display.refused_advance h.reachable.wellFormed (refused_of_run_call hrefused)
    have hvalid := Mapping.validate_mono hknown (hc.validate h.validate)
    rw [hvalid] at hunknown
    cases hunknown

end Accepted

end Connection

/-- **Accepted mappings stay acceptable.**  A connection has accepted the mappings `ms`, when it was
opened or in a call, among any other calls that were accepted or refused.  If it is strict, each
group that such a mapping lists and does not mark static is known to its view.  A call that brings
one of these mappings again is not refused for an unknown group, and neither is a call with a
mapping whose groups are each static in it or listed, and not static, in one of these; this holds
whether or not a batch is in progress, and in every state of the functions. -/
theorem accepted_mappings_stay {V S σ : Type} [BEq S] {a : Arrangement (Script σ V) V S}
    {ms : List Mapping} {w : Connection S × σ} (h : Connection.Accepted a ms w) :
    (a.options.policy = .strict → ∀ m ∈ ms, ∀ g ∈ m.groups,
      m.isStatic g = true ∨ w.1.display.view.isKnown g = true) ∧
    ∀ (u : Connection S × σ), u.1.display = w.1.display → ∀ (c : Call V) (g : GroupId),
      (c.mapping ∈ ms → ((Connection.call a c).run u).1 ≠ .error (.unknownGroup g)) ∧
      ((∀ g ∈ c.mapping.groups, c.mapping.isStatic g = true ∨
          ∃ m ∈ ms, g ∈ m.groups ∧ m.isStatic g = false) →
        ((Connection.call a c).run u).1 ≠ .error (.unknownGroup g)) := by
  refine ⟨fun hstrict m hm => ?_, fun u hu c g => ⟨fun hc => ?_, fun hc => ?_⟩⟩
  · exact Mapping.validate_eq_ok_iff.mp (h.validate m hm) hstrict
  · exact h.ne_unknownGroup (Mapping.backed_of_mem hc) hu g
  · exact h.ne_unknownGroup hc hu g

/-- The mappings that a connection to two numbers accepts. -/
def vacatedMappings : List Mapping :=
  [(Mapping.ofGroups [⟨"1"⟩, ⟨"7"⟩]).withStatic ⟨"7"⟩, .ofGroups [⟨"0"⟩]]

/-- A call by which the only number of a group goes, and one that does not follow. -/
def vacatedCalls : List (Call Nat) :=
  [.process [⟨⟨1⟩, [.delete (waveringKey "a")]⟩] (.ofGroups [⟨"0"⟩]), .process [⟨⟨5⟩, []⟩] .empty]

/-- The connection that is opened on the two numbers. -/
def vacatedOpened : Connection Nat :=
  ((Connection.ofSnapshot (fives.carry (Script Unit Nat))
    ⟨.zero, [(waveringKey "a", 16), (waveringKey "b", 3)]⟩
      ((Mapping.ofGroups [⟨"1"⟩, ⟨"7"⟩]).withStatic ⟨"7"⟩)).run ()).1.toOption.getD
        ⟨⟨.empty, .empty, .zero⟩, .idle⟩

/-- A group without rows may still be listed, alone or beside others, while a group that was never
seen is refused. -/
theorem vacated_group_stays : ∃ w : Connection Nat × Unit,
    Connection.Accepted (fives.carry (Script Unit Nat)) vacatedMappings w ∧
    w.1.display.view.length ⟨"1"⟩ = 0 ∧
    (∀ g, ((Connection.call (fives.carry (Script Unit Nat))
      (.process [] ((Mapping.ofGroups [⟨"1"⟩, ⟨"7"⟩]).withStatic ⟨"7"⟩))).run w).1 ≠
        .error (.unknownGroup g)) ∧
    (∀ g, ((Connection.call (fives.carry (Script Unit Nat))
      (.process [] ((Mapping.ofGroups [⟨"0"⟩, ⟨"8"⟩, ⟨"1"⟩]).withStatic ⟨"8"⟩))).run w).1 ≠
        .error (.unknownGroup g)) ∧
    ((Connection.call (fives.carry (Script Unit Nat)) (.process [] (.ofGroups [⟨"7"⟩]))).run w).1 =
      .error (.unknownGroup ⟨"7"⟩) := by
  have hopened : (Connection.ofSnapshot (fives.carry (Script Unit Nat))
      ⟨.zero, [(waveringKey "a", 16), (waveringKey "b", 3)]⟩
        ((Mapping.ofGroups [⟨"1"⟩, ⟨"7"⟩]).withStatic ⟨"7"⟩)).run () = (.ok vacatedOpened, ()) :=
    Prod.ext (eq_ok_getD_of_isOk (by decide +kernel) _) rfl
  have hw := ((Connection.Accepted.opened hopened).take vacatedCalls[0] [.ofGroups [⟨"0"⟩]]
    (by decide +kernel)).take vacatedCalls[1] [] (by decide +kernel)
  have hstays := (accepted_mappings_stay hw).2 _ rfl
  exact ⟨_, hw, by decide +kernel, fun g => (hstays _ g).1 List.mem_cons_self,
    fun g => (hstays (.process [] ((Mapping.ofGroups [⟨"0"⟩, ⟨"8"⟩, ⟨"1"⟩]).withStatic ⟨"8"⟩)) g).2
      (by decide +kernel), by decide +kernel⟩

end GroupedView
