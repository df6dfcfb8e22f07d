import GroupedView.Proofs.Calls
import GroupedView.Proofs.Correspondence.Translation

/-!
# GroupedView.Proofs.Joining — transactions taken at once or in two parts

For functions without effects the view after a batch is what its mutations lead to one after the
other (`View.map_view_compute`), whatever is noted on the way.  Under a lenient policy nothing else
can refuse the batch but a gap, so that `Display.Follows` says all that is needed for an advance.

* `Display.follows_append`: transactions that are followed at once are followed in two parts.
* `joint_batch_eq_parts`: a connection accepts transactions at once exactly if it accepts them in
  two parts, and comes to the same, by edits that lead to the same sections.
-/

namespace GroupedView

variable {V S σ : Type} [BEq S] {b : Arrangement Id V S}

/-! ## The view after a batch -/

theorem Fold.map_view_step {pre : View S} (hpre : pre.WellFormed) (f : Fold S)
    (mu : Mutation V) :
    Fold.view <$> Fold.step b pre f mu = f.view.apply b mu >>= fun r => pure r.1 := by
  rw [step_eq, map_bind]
  refine bind_congr fun r => ?_
  rw [absorb_eq_pure (View.positionOf_eq_locate hpre _)]
  rfl

/-- The view after a batch is what its mutations lead to. -/
theorem View.map_view_compute {pre : View S} (hpre : pre.WellFormed) (batch : List (Mutation V)) :
    Computed.view <$> pre.compute b batch = pre.applyAll b batch := by
  have hfold : Fold.view <$> batch.foldlM (Fold.step b pre) ({ view := pre } : Fold S) =
      pre.applyAll b batch := map_foldlM (Fold.map_view_step hpre) batch _
  rw [← hfold, compute, map_bind, ← bind_pure_comp]
  exact bind_congr fun f => rfl

theorem View.applyAll_append (v : View S) (batch rest : List (Mutation V)) :
    v.applyAll b (batch ++ rest) = v.applyAll b batch >>= fun v => v.applyAll b rest :=
  List.foldlM_append

/-! ## Following transactions -/

namespace Display

/-- The display `d'` shows through a mapping what some transactions make of the display `d`. -/
structure Follows (b : Arrangement Id V S) (d : Display S) (records : List (Transaction V))
    (mapping : Mapping) (d' : Display S) : Prop where
  sequence : checkSequence d.last records = .ok ()
  applied : d.view.applyAll b (records.flatMap Transaction.mutations) = pure d'.view
  mapping_eq : d'.mapping = mapping
  last_eq : d'.last = lastId d.last records

variable {d d' : Display S} {records : List (Transaction V)} {mapping : Mapping}

/-- Where every mapping is accepted, a display advances to what the transactions make of it. -/
theorem exists_advance_iff (hpolicy : b.options.policy = .lenient) (hd : d.view.WellFormed) :
    (∃ l, d.advance b records mapping = pure (l, d')) ↔ d.Follows b records mapping d' := by
  constructor
  · rintro ⟨l, h⟩
    unfold advance at h
    obtain ⟨u, hsequence, h⟩ := bind_eq_pure_iff.mp h
    obtain ⟨c, hc, h⟩ := bind_eq_pure_iff.mp h
    obtain ⟨l', -, h⟩ := bind_eq_pure_iff.mp h
    cases h
    refine ⟨hsequence, ?_, rfl, rfl⟩
    rw [← View.map_view_compute hd, hc]
    rfl
  · rintro ⟨hsequence, happlied, rfl, hlast⟩
    rw [← View.map_view_compute hd, ← bind_pure_comp] at happlied
    obtain ⟨c, hc, hview⟩ := bind_eq_pure_iff.mp happlied
    have hview : c.view = d'.view := Except.ok.inj hview
    have hd' : (⟨c.view, d'.mapping, lastId d.last records⟩ : Display S) = d' := by
      rw [hview, ← hlast]
    refine ⟨⟨(c.changes.relayout d.mapping d'.mapping).edits c.changes.rows⟩, ?_⟩
    unfold advance
    rw [hsequence, hc, pure_bind, hpolicy, hd']
    rfl

theorem Follows.wellFormed (hpolicy : b.options.policy = .lenient) (hd : d.view.WellFormed)
    (h : d.Follows b records mapping d') : d'.view.WellFormed := by
  obtain ⟨l, hadvance⟩ := (exists_advance_iff hpolicy hd).mpr h
  exact (leads_of_canReturn_advance hd (canReturn_of_eq_pure hadvance)).1

/-- Transactions are followed at once if they are followed in two parts; the mapping in between
plays no role. -/
theorem follows_append {rest : List (Transaction V)} (between : Mapping) :
    d.Follows b (records ++ rest) mapping d' ↔
      ∃ d₁, d.Follows b records between d₁ ∧ d₁.Follows b rest mapping d' := by
  constructor
  · rintro ⟨hsequence, happlied, hmapping, hlast⟩
    obtain ⟨hfirst, hsecond⟩ := checkSequence_append.mp hsequence
    rw [List.flatMap_append, View.applyAll_append] at happlied
    obtain ⟨v, hv, happlied⟩ := bind_eq_pure_iff.mp happlied
    rw [lastId_append] at hlast
    exact ⟨⟨v, between, lastId d.last records⟩, ⟨hfirst, hv, rfl, rfl⟩,
      ⟨hsecond, happlied, hmapping, hlast⟩⟩
  · rintro ⟨d₁, ⟨hfirst, hv, -, hlast₁⟩, hsecond, happlied, hmapping, hlast⟩
    rw [hlast₁] at hsecond hlast
    refine ⟨checkSequence_append.mpr ⟨hfirst, hsecond⟩, ?_, hmapping, ?_⟩
    · rw [List.flatMap_append, View.applyAll_append, hv, pure_bind, happlied]
    · rw [hlast, lastId_append]

end Display

/-! ## Connections -/

namespace Connection

variable {d d' : Display S} {s : σ} {records : List (Transaction V)} {mapping : Mapping}

section Lenient

variable (hpolicy : b.options.policy = .lenient) (hd : d.view.WellFormed)
include hpolicy hd

theorem exists_run_process_of_follows (h : d.Follows b records mapping d') :
    ∃ l, (process (b.carry (Script σ V)) records mapping).run (⟨d, .idle⟩, s) =
      (.ok l, ⟨d', .idle⟩, s) := by
  obtain ⟨l, hadvance⟩ := (Display.exists_advance_iff hpolicy hd).mpr h
  exact ⟨l, (run_process_eq_ok_iff hd).mpr ⟨d', hadvance, rfl⟩⟩

theorem follows_of_run_process {l : ChangeList} {w : Connection S × σ}
    (h : (process (b.carry (Script σ V)) records mapping).run (⟨d, .idle⟩, s) = (.ok l, w)) :
    ∃ d', d.Follows b records mapping d' ∧ w = (⟨d', .idle⟩, s) := by
  obtain ⟨d', hadvance, rfl⟩ := (run_process_eq_ok_iff hd).mp h
  exact ⟨d', (Display.exists_advance_iff hpolicy hd).mp ⟨l, hadvance⟩, rfl⟩

/-- Where every mapping is accepted, an idle connection accepts the transactions that its display
can follow. -/
theorem isOk_run_process_iff :
    ((process (b.carry (Script σ V)) records mapping).run (⟨d, .idle⟩, s)).1.isOk = true ↔
      ∃ d', d.Follows b records mapping d' := by
  constructor
  · intro h
    rcases hrun : (process (b.carry (Script σ V)) records mapping).run (⟨d, .idle⟩, s) with
      ⟨e | l, w⟩
    · rw [hrun] at h
      cases h
    · obtain ⟨d', hd', -⟩ := follows_of_run_process hpolicy hd hrun
      exact ⟨d', hd'⟩
  · rintro ⟨d', hd'⟩
    obtain ⟨l, hrun⟩ := exists_run_process_of_follows hpolicy hd hd' (s := s)
    rw [hrun]
    rfl

end Lenient

end Connection

/-- **Batches can be joined.**  Take functions without effects under a lenient policy, and a
connection that can come about.  It accepts transactions at once exactly if it accepts a first part
of them and then the rest, whatever the mapping in between.  Then it comes to the same connection
both ways: the same rows, sort keys, keys kept out, known groups, mapping and last transaction.
The edits may be quite different, but those of the two parts, applied one after the other, lead to
the same sections as those of all. -/
theorem joint_batch_eq_parts (hpolicy : b.options.policy = .lenient) {w : Connection S × σ}
    (hw : Connection.Reachable (b.carry (Script σ V)) w) (first rest : List (Transaction V))
    (between mapping : Mapping) :
    (((Connection.process (b.carry (Script σ V)) (first ++ rest) mapping).run w).1.isOk = true ↔
      ((Connection.process (b.carry (Script σ V)) first between).run w).1.isOk = true ∧
      ((Connection.process (b.carry (Script σ V)) rest mapping).run
        ((Connection.process (b.carry (Script σ V)) first between).run w).2).1.isOk = true) ∧
    ∀ (l l₁ l₂ : ChangeList) (w' w₁ w₂ : Connection S × σ),
      (Connection.process (b.carry (Script σ V)) (first ++ rest) mapping).run w = (.ok l, w') →
      (Connection.process (b.carry (Script σ V)) first between).run w = (.ok l₁, w₁) →
      (Connection.process (b.carry (Script σ V)) rest mapping).run w₁ = (.ok l₂, w₂) →
      w' = w₂ ∧
      w.1.display.sections.apply l w'.1.display.sections = .ok w'.1.display.sections ∧
      ((w.1.display.sections.apply l₁ w₁.1.display.sections).bind fun sections =>
        sections.apply l₂ w₂.1.display.sections) =
          w.1.display.sections.apply l w'.1.display.sections := by
  obtain ⟨⟨d, phase⟩, s⟩ := w
  obtain rfl : phase = .idle := hw.phase_eq
  have hd : d.view.WellFormed := hw.wellFormed
  refine ⟨?_, fun l l₁ l₂ w' w₁ w₂ hjoint hrun₁ hrun₂ => ?_⟩
  · rw [Connection.isOk_run_process_iff hpolicy hd, Connection.isOk_run_process_iff hpolicy hd]
    constructor
    · rintro ⟨d', h⟩
      obtain ⟨d₁, h₁, h₂⟩ := (Display.follows_append between).mp h
      obtain ⟨l₁, hrun⟩ := Connection.exists_run_process_of_follows hpolicy hd h₁ (s := s)
      rw [hrun, Connection.isOk_run_process_iff hpolicy (h₁.wellFormed hpolicy hd)]
      exact ⟨⟨d₁, h₁⟩, ⟨d', h₂⟩⟩
    · rintro ⟨⟨d₁, h₁⟩, hrest⟩
      obtain ⟨l₁, hrun⟩ := Connection.exists_run_process_of_follows hpolicy hd h₁ (s := s)
      rw [hrun, Connection.isOk_run_process_iff hpolicy (h₁.wellFormed hpolicy hd)] at hrest
      obtain ⟨d', h₂⟩ := hrest
      exact ⟨d', (Display.follows_append between).mpr ⟨d₁, h₁, h₂⟩⟩
  · obtain ⟨d₁, h₁, rfl⟩ := Connection.follows_of_run_process hpolicy hd hrun₁
    have hd₁ := h₁.wellFormed hpolicy hd
    obtain ⟨d₂, h₂, rfl⟩ := Connection.follows_of_run_process hpolicy hd₁ hrun₂
    have h := (Display.follows_append between).mpr ⟨d₁, h₁, h₂⟩
    obtain ⟨l', hrun⟩ := Connection.exists_run_process_of_follows hpolicy hd h (s := s)
    cases hjoint.symm.trans hrun
    -- the edits of a batch lead to the sections after it, both ways
    have happly := Connection.apply_of_run_processWith _ hd hjoint
    have happly₁ := Connection.apply_of_run_processWith _ hd hrun₁
    have happly₂ := Connection.apply_of_run_processWith _ hd₁ hrun₂
    refine ⟨rfl, happly, ?_⟩
    rw [happly₁, happly]
    exact happly₂

/-- Numbers in groups of ten, under a policy that lets mappings name any group. -/
def lenientFives : Arrangement Id Nat Nat := fives.withOptions { policy := .lenient }

/-- A connection that shows two of three numbers, and would show a group without any. -/
def lenientFivesConnection : Connection Nat × Unit :=
  let opened := (Connection.ofSnapshot (lenientFives.carry (Script Unit Nat))
    ⟨.zero, [(waveringKey "a", 16), (waveringKey "b", 3), (waveringKey "c", 11)]⟩
    (.ofGroups [⟨"1"⟩, ⟨"9"⟩])).run ()
  (opened.1.toOption.getD ⟨⟨.empty, .empty, .zero⟩, .idle⟩, opened.2)

/-- A number comes and another one goes to the other group. -/
def departures : List (Transaction Nat) :=
  [⟨⟨1⟩, [.insert (waveringKey "d") 25 none, .update (waveringKey "a") 4 true]⟩]

/-- The first number goes and the other one comes back. -/
def returns : List (Transaction Nat) :=
  [⟨⟨2⟩, [.delete (waveringKey "d"), .update (waveringKey "a") 17 true]⟩]

/-- What becomes of transactions and a mapping. -/
def fivesProcessed (records : List (Transaction Nat)) (groups : List GroupId)
    (w : Connection Nat × Unit) : Outcome × Connection Nat × Unit :=
  (Connection.process (lenientFives.carry (Script Unit Nat)) records (.ofGroups groups)).run w

/-- The connection after the departures, shown through another mapping. -/
def fivesDeparted : Outcome × Connection Nat × Unit :=
  fivesProcessed departures [⟨"2"⟩, ⟨"0"⟩] lenientFivesConnection

/-- All at once one row is new and one has a new value; in two parts a group goes and comes back on
the way to the same sections. -/
theorem departures_and_returns :
    Connection.Reachable (lenientFives.carry (Script Unit Nat)) lenientFivesConnection ∧
    ((fivesProcessed (departures ++ returns) [⟨"1"⟩, ⟨"0"⟩] lenientFivesConnection).1.map
      fun l => l.changes.length) = .ok 2 ∧
    fivesDeparted.2.1.display.sections =
      [⟨⟨"2"⟩, [waveringKey "d"]⟩, ⟨⟨"0"⟩, [waveringKey "a", waveringKey "b"]⟩] ∧
    (fivesProcessed (departures ++ returns) [⟨"1"⟩, ⟨"0"⟩] lenientFivesConnection).2 =
      (fivesProcessed returns [⟨"1"⟩, ⟨"0"⟩] fivesDeparted.2).2 := by
  have hw : Connection.Reachable (lenientFives.carry (Script Unit Nat)) lenientFivesConnection :=
    .opened (Prod.ext (eq_ok_getD_of_isOk (by decide +kernel) _) rfl)
  obtain ⟨hparts, hjoined⟩ := joint_batch_eq_parts (b := lenientFives) rfl hw departures returns
    (.ofGroups [⟨"2"⟩, ⟨"0"⟩]) (.ofGroups [⟨"1"⟩, ⟨"0"⟩])
  have hdeparted : fivesDeparted.1.isOk = true := by decide +kernel
  have hreturned : (fivesProcessed returns [⟨"1"⟩, ⟨"0"⟩] fivesDeparted.2).1.isOk = true := by
    decide +kernel
  have hjoint := hparts.mpr ⟨hdeparted, hreturned⟩
  refine ⟨hw, by decide +kernel, by decide +kernel, ?_⟩
  exact (hjoined _ _ _ _ _ _ (Prod.ext (eq_ok_getD_of_isOk hjoint {}) rfl)
    (Prod.ext (eq_ok_getD_of_isOk hdeparted {}) rfl)
    (Prod.ext (eq_ok_getD_of_isOk hreturned {}) rfl)).1

end GroupedView
