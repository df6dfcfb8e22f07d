import GroupedView.Proofs.Batch.Refine
import GroupedView.Proofs.Connection
import GroupedView.Proofs.Mirror

/-!
# GroupedView.Proofs.CatchUp — a connection that catches up with a store

`Connection.Following` lists what can happen to a store and a connection to it: the connection is
opened at some time, transactions are committed, and the connection catches up now and then.  If
the functions of the view are lawful, the display stays a part of the history behind the store and
no further off (`Display.Trails`).

* `catchUp_converges`: catching up is refused only because of a group that the mapping names, and
  after faithful writers the connection then shows what a connection shows that is opened now.
-/

open Std

namespace GroupedView

namespace Mapping

variable {m : Mapping} {policy : MappingPolicy} {known known' : GroupId → Bool}

/-- A mapping that is accepted by what is known is accepted when more is known. -/
theorem validate_mono (hknown : ∀ g, known g = true → known' g = true)
    (h : m.validate policy known = .ok ()) : m.validate policy known' = .ok () := by
  cases policy with
  | lenient => rfl
  | strict =>
    have hnone : m.groups.find? (m.refuses known) = none := by
      rw [validate] at h
      split at h
      · cases h
      · next hnone => exact hnone
    have hnone' : m.groups.find? (m.refuses known') = none := by
      rw [List.find?_eq_none] at hnone ⊢
      intro g hg hrefuses
      refine hnone g hg ?_
      rw [refuses, Bool.and_eq_true, Bool.not_eq_true'] at hrefuses ⊢
      refine ⟨hrefuses.1, ?_⟩
      cases hk : known g with
      | false => rfl
      | true =>
        rw [hknown g hk] at hrefuses
        exact hrefuses.2
    rw [validate, hnone']

end Mapping

/-! ## Displays of lawful views -/

namespace Display

variable {V S : Type}

/-- What is shown depends on the mapping and the rows. -/
theorem sections_congr {d d' : Display S} (hmapping : d.mapping = d'.mapping)
    (hrows : ∀ g, d.view.rows g = d'.view.rows g) : d.sections = d'.sections := by
  have hlength : d.view.length = d'.view.length := by
    funext g
    rw [View.length, View.length, hrows]
  have hkeys : d.view.keys = d'.view.keys := by
    funext g
    rw [View.keys, View.keys, hrows]
  rw [sections, sections, visible, visible, hmapping, hlength, hkeys]

section Carry

variable {m : Type → Type} [Monad m] [LawfulMonad m] [BEq S] [LawfulBEq S]
  {b : Arrangement Id V S} {l l' : Ledger S}

/-- A snapshot whose items the ledger accepts is refused because of the mapping only. -/
theorem ofSnapshot_carry (hb : b.Lawful) {snapshot : Snapshot V}
    (hl : Ledger.seed b snapshot.items = .ok l) (mapping : Mapping) :
    ∃ v : View S, v.Refines b l ∧ Display.ofSnapshot (b.carry m) snapshot mapping =
      ExceptT.mk (pure ((mapping.validate b.options.policy v.isKnown).map fun _ =>
        ⟨v, mapping, snapshot.asOf⟩)) := by
  obtain ⟨v, hv, h⟩ := View.Refines.applyAll_of_ok hb .empty hl (m := m)
  refine ⟨v, h, ?_⟩
  have hseed : View.seed (b.carry m) snapshot.items = pure v := hv
  have hpolicy : (b.carry m).options.policy = b.options.policy := rfl
  rw [ofSnapshot, hseed, pure_bind, hpolicy]
  cases mapping.validate b.options.policy v.isKnown with
  | error e => exact throw_bind _
  | ok u => exact pure_bind _ _

/-- Transactions that follow and that the ledger accepts are refused because of the mapping
only. -/
theorem advance_carry (hb : b.Lawful) {d : Display S} (h : d.view.Refines b l)
    {records : List (Transaction V)} (hsequence : checkSequence d.last records = .ok ())
    (hl : l.applyAll b (records.flatMap Transaction.mutations) = .ok l') (mapping : Mapping) :
    ∃ (v : View S) (changes : ChangeList), v.Refines b l' ∧
      d.advance (b.carry m) records mapping =
        ExceptT.mk (pure ((mapping.validate b.options.policy v.isKnown).map fun _ =>
          (changes, ⟨v, mapping, lastId d.last records⟩))) := by
  obtain ⟨f, -, hf, hcompute⟩ := h.compute hb hl (m := m)
  have hchanges : (f.netChanges d.view).changeList b.options.policy d.mapping mapping =
      (mapping.validate b.options.policy f.view.isKnown).map fun _ =>
        ⟨((f.netChanges d.view).relayout d.mapping mapping).edits (f.netChanges d.view).rows⟩ := by
    rw [NetChanges.changeList, show (f.netChanges d.view).isKnown = f.view.isKnown from
      funext Fold.isKnown_netChanges]
    cases mapping.validate b.options.policy f.view.isKnown with
    | error e => rfl
    | ok u => rfl
  refine ⟨f.view, ⟨((f.netChanges d.view).relayout d.mapping mapping).edits
    (f.netChanges d.view).rows⟩, hf, ?_⟩
  have hpolicy : (b.carry m).options.policy = b.options.policy := rfl
  have hstart : (ExceptT.mk (pure (.ok ())) : Checked m Unit) = pure () := rfl
  rw [advance, hsequence, hstart, pure_bind, hcompute, pure_bind, hpolicy, hchanges]
  cases mapping.validate b.options.policy f.view.isKnown with
  | error e => exact throw_bind _
  | ok u => exact pure_bind _ _

end Carry

end Display

/-! ## Keeping track of a store -/

/-- The transactions after those on display lead from the ledger that the display shows to one that
mirrors the store.  Once ids have reached the largest one, nothing is said about later commits. -/
structure Display.Trails {V S : Type} (b : Arrangement Id V S) (faithful : Prop) (s : Store V)
    (d : Display S) : Prop where
  continues : s.Continues d.last
  replays : ∃ l l', d.view.Refines b l ∧
    l.applyAll b ((s.pendingSince d.last).flatMap Transaction.mutations) = .ok l' ∧
    (s.log.length < UInt64.size ∨ d.last ≠ .last → l'.Mirrors b faithful s.items)

namespace Display.Trails

variable {V S : Type} {b : Arrangement Id V S} {faithful faithful' : Prop} {s : Store V}
  {d : Display S} {v : View S} {l : Ledger S}

/-- A display that is up to date. -/
theorem of_refines (hs : s.Sound) (hv : v.Refines b l) {mapping : Mapping}
    (hmirrors : s.log.length < UInt64.size ∨ s.last ≠ .last → l.Mirrors b faithful s.items) :
    Display.Trails b faithful s ⟨v, mapping, s.last⟩ where
  continues := hs.continues
  replays := by
    refine ⟨l, l, hv, ?_, hmirrors⟩
    rw [Store.pendingSince_last hs]
    rfl

/-- A commit is one more transaction to take. -/
theorem commit (h : d.Trails b faithful s) (hs : s.Sound) {requests : List (Request V)}
    (hfaithful : faithful' → faithful ∧ Draft.Faithful b ⟨s.items, []⟩ requests) :
    d.Trails b faithful' (s.transact requests).2.2 := by
  have htransact : (s.transact requests).2.2 =
      (s.commit (Draft.performAll ⟨s.items, []⟩ requests).2).2 := rfl
  obtain ⟨l, l', hv, hl, hmirrors⟩ := h.replays
  rw [htransact]
  refine ⟨h.continues.commit _, ?_⟩
  rw [h.continues.pendingSince_commit]
  by_cases hlast : d.last = .last
  · refine ⟨l, l, hv, by rw [if_pos hlast]; rfl, ?_⟩
    rintro (hlength | hne)
    · -- the id that was reached counts the transactions
      have hreached := hs.toNat_last
      have hcontinues := h.continues
      rw [hlast] at hcontinues
      rw [hcontinues.last_eq] at hreached
      have hmax : TransactionId.last.toNat = UInt64.size - 1 := rfl
      have hlog : (s.commit (Draft.performAll ⟨s.items, []⟩ requests).2).2.log.length =
        s.log.length + 1 := List.length_append
      omega
    · exact absurd hlast hne
  · have hbefore := (hmirrors (.inr hlast)).mono fun hf => (hfaithful hf).1
    obtain ⟨mus, l'', hmus, hl'', hafter⟩ :=
      hbefore.performAll (d := ⟨s.items, []⟩) fun hf => (hfaithful hf).2
    refine ⟨l, l'', hv, ?_, fun _ => hafter⟩
    have hnoted : (s.commit (Draft.performAll ⟨s.items, []⟩ requests).2).1.mutations = mus := hmus
    rw [if_neg hlast, List.flatMap_append, Ledger.applyAll_append, hl, List.flatMap_singleton,
      hnoted]
    exact hl''

end Display.Trails

/-! ## Connections of lawful views -/

namespace Connection

variable {V S σ : Type} [BEq S]

/-- What can happen to a store and a connection to it: the connection is opened on what was
committed so far, another transaction is committed, and the connection catches up. -/
inductive Following (a : Arrangement (Script σ V) V S) :
    List (List (Request V)) → Connection S × σ → Prop
  | opened {history : List (List (Request V))} {mapping : Mapping} {t t' : σ} {c : Connection S} :
      (ofStore a (Store.empty.run history) mapping).run t = (.ok c, t') →
      Following a history (c, t')
  | committed {history : List (List (Request V))} {w : Connection S × σ}
      (requests : List (Request V)) : Following a history w → Following a (history ++ [requests]) w
  | caughtUp {history : List (List (Request V))} {w : Connection S × σ} (mapping : Mapping) :
      Following a history w →
      Following a history ((catchUp a (Store.empty.run history) mapping).run w).2

variable {b : Arrangement Id V S} {s : Store V} {l l' : Ledger S}

/-- A connection that is opened shows a ledger that mirrors the store and has used no other groups
than its items are in. -/
theorem of_run_ofStore [LawfulBEq S] (hb : b.Lawful) {mapping : Mapping} {t t' : σ}
    {c : Connection S} (h : (ofStore (b.carry (Script σ V)) s mapping).run t = (.ok c, t')) :
    ∃ (v : View S) (l : Ledger S), c = ⟨⟨v, mapping, s.last⟩, .idle⟩ ∧ v.Refines b l ∧
      mapping.validate b.options.policy v.isKnown = .ok () ∧ l.Mirrors b True s.items ∧
      ∀ g ∈ l.used, ∃ (k : ItemKey) (pl : Placement S),
        l.entries[k]? = some (some pl) ∧ pl.group = g := by
  obtain ⟨l, hl, hmirrors, hused⟩ := Ledger.Mirrors.of_seed b s.items
  have hitems : Ledger.seed b s.snapshot.items = .ok l := hl
  obtain ⟨v, hv, hopen⟩ := Display.ofSnapshot_carry hb hitems mapping (m := Script σ V)
  rw [ofStore, ofSnapshot, hopen] at h
  cases hvalid : mapping.validate b.options.policy v.isKnown with
  | error e =>
    rw [hvalid] at h
    cases h
  | ok u =>
    rw [hvalid] at h
    cases h
    exact ⟨v, l, rfl, hv, hvalid, hmirrors, hused⟩

theorem run_catchUp {a : Arrangement (Script σ V) V S} (mapping : Mapping)
    (w : Connection S × σ) : (catchUp a s mapping).run w =
      (process a (s.pendingSince w.1.display.last) mapping).run w := by
  have hcurrent : (current : Running S σ (Connection S)).run w = pure (w.1, w) := rfl
  rw [catchUp, StateT.run_bind, hcurrent, pure_bind]

/-- Catching up ends with the ledger of the pending transactions, or is refused because of the
mapping. -/
theorem run_catchUp_carry [LawfulBEq S] (hb : b.Lawful) {d : Display S} (h : d.view.Refines b l)
    (hcontinues : s.Continues d.last)
    (hl : l.applyAll b ((s.pendingSince d.last).flatMap Transaction.mutations) = .ok l')
    (mapping : Mapping) : ∃ (v : View S) (changes : ChangeList), v.Refines b l' ∧
      ∀ t : σ, (catchUp (b.carry (Script σ V)) s mapping).run (⟨d, .idle⟩, t) =
        match mapping.validate b.options.policy v.isKnown with
        | .ok _ => (.ok changes, ⟨⟨v, mapping, s.last⟩, .idle⟩, t)
        | .error e => (.error e, ⟨d, .idle⟩, t) := by
  obtain ⟨v, changes, hv, hadvance⟩ :=
    Display.advance_carry hb h hcontinues.sequence hl mapping (m := Script σ V)
  refine ⟨v, changes, hv, fun t => ?_⟩
  rw [run_catchUp, process, run_processWith_of_idle, advanced_of_eq_pure hadvance,
    hcontinues.lastId_eq]
  cases mapping.validate b.options.policy v.isKnown with
  | error e => rfl
  | ok u => rfl

theorem Following.trails [LawfulBEq S] (hb : b.Lawful) {history : List (List (Request V))}
    {w : Connection S × σ} (h : Following (b.carry (Script σ V)) history w) :
    w.1.phase = .idle ∧
      w.1.display.Trails b (Store.empty.Faithful b history) (Store.empty.run history) := by
  induction h with
  | @opened history mapping t t' c hopen =>
    obtain ⟨v, l, rfl, hv, -, hmirrors, -⟩ := of_run_ofStore hb hopen
    exact ⟨rfl, .of_refines (Store.Sound.empty.run history) hv
      fun _ => hmirrors.mono fun _ => trivial⟩
  | @committed history w requests _ ih =>
    refine ⟨ih.1, ?_⟩
    rw [Store.run_concat]
    exact ih.2.commit (Store.Sound.empty.run history) Store.faithful_concat.mp
  | @caughtUp history w mapping _ ih =>
    obtain ⟨⟨d, phase⟩, t⟩ := w
    obtain ⟨rfl, htrails⟩ := ih
    obtain ⟨l, l', hd, hl, hmirrors⟩ := htrails.replays
    obtain ⟨v, changes, hv, hrun⟩ := run_catchUp_carry hb hd htrails.continues hl mapping (σ := σ)
    rw [hrun]
    cases hvalid : mapping.validate b.options.policy v.isKnown with
    | error e => exact ⟨rfl, htrails⟩
    | ok u =>
      refine ⟨rfl, .of_refines (Store.Sound.empty.run history) hv fun hids => hmirrors ?_⟩
      refine hids.imp_right fun hne hlast => hne ?_
      have hcontinues := htrails.continues
      rw [hlast] at hcontinues
      exact hcontinues.last_eq

end Connection

/-! ## Convergence -/

section Convergence

variable {V S σ : Type} [BEq S] [LawfulBEq S] {b : Arrangement Id V S}

/-- **A connection that catches up converges with the store.**  Let the functions of the view be
plain functions, the test of sort keys be equality, and the comparison be a total preorder.  Take
any history of transactions, with a connection that was opened at some time and has caught up at
some times under some mappings.  Catching up now is refused at the most because of a group that the
mapping names.  If each touch of the history was faithful, and the history is so short that its
length fits into a word, as every list in memory is, it succeeds whenever a connection can be opened
now, and shows the same sections, the same number of rows and the same last transaction as that
one. -/
theorem catchUp_converges (hb : b.Lawful) {history : List (List (Request V))}
    {w : Connection S × σ} (hw : Connection.Following (b.carry (Script σ V)) history w)
    (mapping : Mapping) :
    (∀ e w', (Connection.catchUp (b.carry (Script σ V)) (Store.empty.run history) mapping).run w =
      (.error e, w') → ∃ g ∈ mapping.groups, e = .unknownGroup g) ∧
    (Store.empty.Faithful b history → history.length < UInt64.size →
      ∀ (t t' : σ) (c : Connection S),
        (Connection.ofStore (b.carry (Script σ V)) (Store.empty.run history) mapping).run t =
          (.ok c, t') →
        ∃ changes w',
          (Connection.catchUp (b.carry (Script σ V)) (Store.empty.run history) mapping).run w =
            (.ok changes, w') ∧
          w'.1.display.sections = c.display.sections ∧
          w'.1.display.rowCount = c.display.rowCount ∧
          w'.1.display.last = c.display.last) := by
  obtain ⟨⟨d, phase⟩, s⟩ := w
  obtain ⟨rfl, htrails⟩ := hw.trails hb
  obtain ⟨l, l', hd, hl, hmirrors⟩ := htrails.replays
  obtain ⟨v, changes, hv, hrun⟩ :=
    Connection.run_catchUp_carry hb hd htrails.continues hl mapping (σ := σ)
  rw [hrun]
  refine ⟨fun e w' herror => ?_, fun hfaithful hlength t t' c hopen => ?_⟩
  · cases hvalid : mapping.validate b.options.policy v.isKnown with
    | ok u =>
      rw [hvalid] at herror
      cases herror
    | error e' =>
      rw [hvalid] at herror
      cases herror
      exact Mapping.unknownGroup_of_validate hvalid
  · have hlog : (Store.empty.run history).log.length = 0 + history.length :=
      Store.length_log_run history
    have hmirrors := hmirrors (.inl (by omega))
    -- the connection that is opened now shows a ledger with the same entries
    obtain ⟨v₀, l₀, rfl, hv₀, hvalid₀, hmirrors₀, hused⟩ := Connection.of_run_ofStore hb hopen
    have hentries : l'.entries = l₀.entries := hmirrors.entries_eq hmirrors₀ hfaithful trivial
    have hrows : ∀ g, v.rows g = v₀.rows g := fun g => by
      rw [hv.rows_eq hb, hv₀.rows_eq hb, Ledger.rows_congr hentries]
    have hsize : v.size = v₀.size := by
      rw [hv.size_eq, hv₀.size_eq, Ledger.size, Ledger.size, hentries]
    have hknown : ∀ g, v₀.isKnown g = true → v.isKnown g = true := by
      intro g hg
      obtain ⟨k, pl, hk, rfl⟩ := hused g (hv₀.isKnown_iff.mp hg)
      rw [← hentries, ← hv.placements_eq_some_iff] at hk
      exact hv.isKnown_iff.mpr (hv.group_mem_used hk)
    rw [Mapping.validate_mono hknown hvalid₀]
    exact ⟨changes, _, rfl, Display.sections_congr rfl hrows, hsize, rfl⟩

end Convergence

/-- Numbers in groups of ten, ordered by how many fives are in them; zero has no group. -/
def fives : Arrangement Id Nat Nat :=
  .bySortKey (fun _ n => if n = 0 then none else some ⟨toString (n / 10)⟩) fun _ n => n / 5

/-- Transactions with a wrong guess, a touch that keeps its promise, and an item that goes. -/
def fivesHistory : List (List (Request Nat)) :=
  [[.set (waveringKey "a") 16 none, .set (waveringKey "b") 3 (some ⟨⟨"0"⟩, 4⟩)],
    [.touch (waveringKey "a") 18, .remove (waveringKey "b"), .set (waveringKey "c") 11 none]]

/-- A connection that is opened after some transactions. -/
def fivesOpened (history : List (List (Request Nat))) : Connection Nat :=
  ((Connection.ofStore (fives.carry (Script Unit Nat)) (Store.empty.run history)
    (.ofGroups [⟨"1"⟩])).run ()).1.toOption.getD ⟨⟨.empty, .empty, .zero⟩, .idle⟩

/-- A connection that was opened on the first transaction catches up with the second one. -/
theorem fives_catchUp : ∃ w : Connection Nat × Unit,
    Connection.Following (fives.carry (Script Unit Nat)) fivesHistory w ∧
    Store.empty.Faithful fives fivesHistory ∧
    ∃ changes w', (Connection.catchUp (fives.carry (Script Unit Nat))
        (Store.empty.run fivesHistory) (.ofGroups [⟨"1"⟩])).run w = (.ok changes, w') ∧
      w'.1.display.sections = [⟨⟨"1"⟩, [waveringKey "c", waveringKey "a"]⟩] ∧
      w'.1.display.last = ⟨2⟩ := by
  have hlawful : fives.Lawful := Arrangement.lawful_bySortKey _ _ _
  have hopened : (Connection.ofStore (fives.carry (Script Unit Nat))
      (Store.empty.run (fivesHistory.take 1)) (.ofGroups [⟨"1"⟩])).run () =
      (.ok (fivesOpened (fivesHistory.take 1)), ()) :=
    Prod.ext (eq_ok_getD_of_isOk (by decide +kernel) _) rfl
  have hnow : (Connection.ofStore (fives.carry (Script Unit Nat))
      (Store.empty.run fivesHistory) (.ofGroups [⟨"1"⟩])).run () =
      (.ok (fivesOpened fivesHistory), ()) :=
    Prod.ext (eq_ok_getD_of_isOk (by decide +kernel) _) rfl
  have hw : Connection.Following (fives.carry (Script Unit Nat)) fivesHistory _ :=
    ((Connection.Following.opened hopened).caughtUp (.ofGroups [⟨"1"⟩])).committed fivesHistory[1]
  have hfaithful : Store.empty.Faithful fives fivesHistory := by decide +kernel
  obtain ⟨changes, w', hrun, hsections, -, hlast⟩ :=
    (catchUp_converges hlawful hw (.ofGroups [⟨"1"⟩])).2 hfaithful (by decide) () () _ hnow
  refine ⟨_, hw, hfaithful, changes, w', hrun, ?_, ?_⟩
  · rw [hsections]
    decide +kernel
  · rw [hlast]
    decide +kernel

end GroupedView
