import GroupedView.Proofs.Calls
import GroupedView.Proofs.Correspondence.Translation

/-!
# GroupedView.Proofs.Guards — checks that refuse and do nothing else

The functions of a view may be called twice and compared both ways, and a mapping may be held to
the groups that are known.  `Arrangement.guarded` asks for all of these checks and
`Arrangement.trusting` for none.

* `easing` is the correspondence between a computation and another one that accepts whatever the
  first one accepts; the checks can be left out along it (`Arrangement.relates_trusting`).
* A session opens connections and has them process transactions; `Session.trace` gives each reply
  with the connections after it.
* `checks_only_refuse`: a session without a refusal goes on the same way without the checks.
-/

namespace GroupedView

/-- Whatever the first computation accepts, the second one accepts with the same answer. -/
def easing : Correspondence Id Id where
  Rel x y := ∀ r, x = pure r → y = pure r
  rel_pure _ _ h := h
  rel_throw _ _ h := h
  rel_bind h hf r hr := by
    obtain ⟨a, ha, hr⟩ := bind_eq_pure_iff.mp hr
    exact bind_eq_pure_iff.mpr ⟨a, h a ha, hf a (canReturn_of_eq_pure ha) r hr⟩

/-! ## Arrangements with and without checks -/

namespace Arrangement

variable {V S : Type}

/-- The same functions under all checks. -/
def guarded (b : Arrangement Id V S) : Arrangement Id V S :=
  b.withOptions { b.options with verify := true, policy := .strict }

/-- The same functions without any check. -/
def trusting (b : Arrangement Id V S) : Arrangement Id V S :=
  b.withOptions { b.options with verify := false, policy := .lenient }

variable {b : Arrangement Id V S}

theorem run_probe_guarded (row target : Row S) (s : Bool) :
    ((b.guarded.probe row target).run s).run.1 = b.cmp row target := by
  have hrun : ((b.guarded.probe row target).run s).run =
    ((if b.cmp target row ≠ (b.cmp row target).swap then
        set true >>= fun _ => pure (b.cmp row target)
      else pure (b.cmp row target) : StateT Bool Id Ordering).run s).run := rfl
  rw [hrun]
  split
  · rfl
  · rfl

theorem run_probe_trusting (row target : Row S) (s : Bool) :
    ((b.trusting.probe row target).run s).run = (b.cmp row target, s) := rfl

/-- A search takes the same way under all checks; without any it marks nothing. -/
theorem run_seek_trusting (rows : List (Row S)) (target : Row S) (s t : Bool) :
    ((b.trusting.seek rows target).run t).run =
      (((b.guarded.seek rows target).run s).run.1, t) := by
  refine bisect_rel (m := StateT Bool Id) (l := StateT Bool Id)
    (P := fun x y => ∀ s t, (y.run t).run = ((x.run s).run.1, t)) ?_ ?_ ?_ s t
  · exact fun x s t => rfl
  · intro α β x y f g h hf s t
    rw [StateT.run_bind, StateT.run_bind, Id.run_bind, Id.run_bind, h s t]
    exact hf _ _ _
  · intro i s t
    rw [run_probe_guarded, run_probe_trusting]

theorem search_trusting {rows : List (Row S)} {target : Row S} {slot : Slot}
    (h : b.guarded.search rows target = pure slot) :
    b.trusting.search rows target = pure slot := by
  rw [search_eq] at h ⊢
  obtain ⟨⟨slot', asymmetric⟩, hseek, h⟩ := bind_eq_pure_iff.mp h
  have hrun : ((b.guarded.seek rows target).run false).run = (slot', asymmetric) :=
    Except.ok.inj hseek
  refine bind_eq_pure_iff.mpr ⟨(slot', false), ?_, ?_⟩
  · have htrusting := run_seek_trusting (b := b) rows target false false
    rw [hrun] at htrusting
    exact congrArg Except.ok htrusting
  · cases asymmetric with
    | false => exact h
    | true => cases h

theorem sortKeyOf_trusting [BEq S] {k : ItemKey} {value : V} {s : S}
    (h : b.guarded.sortKeyOf k value = pure s) : b.trusting.sortKeyOf k value = pure s := by
  have hguarded : b.guarded.sortKeyOf k value =
    if (b.sortKey k value).run != (b.sortKey k value).run then
      throw (.inconsistent k .sortKey) >>= fun _ => pure (b.sortKey k value).run
    else pure (b.sortKey k value).run := rfl
  have htrusting : b.trusting.sortKeyOf k value = pure (b.sortKey k value).run := rfl
  rw [hguarded] at h
  split at h
  · rw [throw_bind] at h
    cases h
  · rw [htrusting, h]

/-- What is accepted under all checks is accepted without any. -/
theorem relates_trusting [BEq S] : easing.Relates b.guarded b.trusting where
  admits _ := rfl
  groupOf k value r h := by
    have hcall (c : Arrangement Id V S) : c.groupOf k value = pure (c.grouping k value).run :=
      groupOf_carry (m := Id) k value
    rw [hcall] at h ⊢
    exact h
  sortKeyOf _ _ _ := sortKeyOf_trusting
  search _ _ _ := search_trusting
  precedes _ _ _ h := h
  positionOf v k hv r h := by
    rw [View.positionOf_eq_locate hv] at h ⊢
    exact h
  validate _ _ _ _ := rfl

end Arrangement

/-! ## Sessions -/

/-- What can be asked for in a session.  Connections are numbered in the order in which they are
opened. -/
inductive SessionCall (V : Type) where
  | openStore (store : Store V) (mapping : Mapping)
  | openSnapshot (snapshot : Snapshot V) (mapping : Mapping)
  | process (i : Nat) (records : List (Transaction V)) (mapping : Mapping)

/-- What a session answers. -/
inductive SessionReply where
  | opened
  | processed (changes : ChangeList)
  | refused (cause : ViewError)
  /-- There is no connection with the number. -/
  | absent
deriving DecidableEq, Repr

/-- Whether a call was successful. -/
def SessionReply.accepts : SessionReply → Bool
  | opened | processed _ => true
  | refused _ | absent => false

namespace Session

variable {S σ V : Type} [BEq S] (a : Arrangement (Script σ V) V S)

/-- Take up a connection that is opened, unless that is refused. -/
def enlist (w : List (Connection S) × σ) :
    Except ViewError (Connection S) × σ → SessionReply × List (Connection S) × σ
  | (.ok c, s) => (.opened, w.1 ++ [c], s)
  | (.error e, s) => (.refused e, w.1, s)

/-- Put the connection with a number back after it processed transactions. -/
def reinstate (w : List (Connection S) × σ) (i : Nat) :
    Outcome × Connection S × σ → SessionReply × List (Connection S) × σ
  | (.ok changes, c, s) => (.processed changes, w.1.set i c, s)
  | (.error e, c, s) => (.refused e, w.1.set i c, s)

/-- Carry out a call. -/
def step (w : List (Connection S) × σ) : SessionCall V → SessionReply × List (Connection S) × σ
  | .openStore store mapping => enlist w ((Connection.ofStore a store mapping).run w.2)
  | .openSnapshot snapshot mapping => enlist w ((Connection.ofSnapshot a snapshot mapping).run w.2)
  | .process i records mapping =>
    match w.1[i]? with
    | some c => reinstate w i ((Connection.process a records mapping).run (c, w.2))
    | none => (.absent, w)

/-- Carry out calls one after the other, with the connections after each. -/
def trace (w : List (Connection S) × σ) :
    List (SessionCall V) → List (SessionReply × List (Connection S) × σ)
  | [] => []
  | c :: calls => step a w c :: trace (step a w c).2 calls

variable {a} {w : List (Connection S) × σ}

theorem reachable_enlist (hw : ∀ c ∈ w.1, Connection.Reachable a (c, w.2)) {snapshot : Snapshot V}
    {mapping : Mapping} {c : Connection S}
    (hc : c ∈ (enlist w ((Connection.ofSnapshot a snapshot mapping).run w.2)).2.1) :
    Connection.Reachable a
      (c, (enlist w ((Connection.ofSnapshot a snapshot mapping).run w.2)).2.2) := by
  rcases hopen : (Connection.ofSnapshot a snapshot mapping).run w.2 with ⟨e | c', s⟩
  · rw [hopen] at hc
    exact (hw c hc).elsewhere s
  · rw [hopen] at hc
    rcases List.mem_append.mp hc with hc | hc
    · exact (hw c hc).elsewhere s
    · cases List.mem_singleton.mp hc
      exact .opened hopen

theorem reachable_reinstate (hw : ∀ c ∈ w.1, Connection.Reachable a (c, w.2)) {i : Nat}
    {c' : Connection S} (hc' : w.1[i]? = some c') {records : List (Transaction V)}
    {mapping : Mapping} {c : Connection S}
    (hc : c ∈ (reinstate w i ((Connection.process a records mapping).run (c', w.2))).2.1) :
    Connection.Reachable a
      (c, (reinstate w i ((Connection.process a records mapping).run (c', w.2))).2.2) := by
  have hafter := (hw c' (List.mem_of_getElem? hc')).processed records mapping
  rcases hrun : (Connection.process a records mapping).run (c', w.2) with ⟨e | l, c₁, s⟩
  all_goals
    rw [hrun] at hafter hc
    rcases List.mem_or_eq_of_mem_set hc with hc | rfl
    · exact (hw c hc).elsewhere s
    · exact hafter

/-- The connections of a session are such as can come about. -/
theorem reachable_step (hw : ∀ c ∈ w.1, Connection.Reachable a (c, w.2)) (call : SessionCall V) :
    ∀ c ∈ (step a w call).2.1, Connection.Reachable a (c, (step a w call).2.2) := by
  cases call with
  | openStore store mapping => exact fun c => reachable_enlist hw
  | openSnapshot snapshot mapping => exact fun c => reachable_enlist hw
  | process i records mapping =>
    cases hc : w.1[i]? with
    | none =>
      simp only [step, hc]
      exact hw
    | some c =>
      simp only [step, hc]
      exact fun c' => reachable_reinstate hw hc

end Session

/-! ## Sessions without checks -/

section Trusting

variable {S σ V : Type} [BEq S] {b : Arrangement Id V S}

/-- A connection that is opened under all checks is opened without any. -/
theorem Connection.run_ofSnapshot_trusting {snapshot : Snapshot V} {mapping : Mapping} {s s' : σ}
    {c : Connection S}
    (h : (ofSnapshot (b.guarded.carry (Script σ V)) snapshot mapping).run s = (.ok c, s')) :
    (ofSnapshot (b.trusting.carry (Script σ V)) snapshot mapping).run s = (.ok c, s') := by
  obtain ⟨d, hd, rfl, rfl⟩ := run_ofSnapshot_eq_ok_iff.mp h
  have heased := Arrangement.relates_trusting.ofSnapshot snapshot mapping d hd
  exact run_ofSnapshot_eq_ok_iff.mpr ⟨d, heased, rfl, rfl⟩

/-- Transactions that are accepted under all checks are accepted without any. -/
theorem Connection.run_process_trusting {d : Display S} (hd : d.view.WellFormed)
    {records : List (Transaction V)} {mapping : Mapping} {s : σ} {l : ChangeList}
    {w : Connection S × σ}
    (h : (process (b.guarded.carry (Script σ V)) records mapping).run (⟨d, .idle⟩, s) =
      (.ok l, w)) :
    (process (b.trusting.carry (Script σ V)) records mapping).run (⟨d, .idle⟩, s) = (.ok l, w) := by
  obtain ⟨d', hd', rfl⟩ := (run_process_eq_ok_iff hd).mp h
  have heased := Arrangement.relates_trusting.advance hd records mapping (l, d') hd'
  exact (run_process_eq_ok_iff hd).mpr ⟨d', heased, rfl⟩

namespace Session

variable {w : List (Connection S) × σ}

theorem enlist_trusting {snapshot : Snapshot V} {mapping : Mapping}
    (h : (enlist w ((Connection.ofSnapshot (b.guarded.carry (Script σ V)) snapshot mapping).run
      w.2)).1.accepts = true) :
    enlist w ((Connection.ofSnapshot (b.trusting.carry (Script σ V)) snapshot mapping).run w.2) =
      enlist w
        ((Connection.ofSnapshot (b.guarded.carry (Script σ V)) snapshot mapping).run w.2) := by
  rcases hopen : (Connection.ofSnapshot (b.guarded.carry (Script σ V)) snapshot mapping).run w.2
    with ⟨e | c, s⟩
  · rw [hopen] at h
    cases h
  · rw [Connection.run_ofSnapshot_trusting hopen]

/-- A call that is successful under all checks comes to the same without any. -/
theorem step_trusting
    (hw : ∀ c ∈ w.1, Connection.Reachable (b.guarded.carry (Script σ V)) (c, w.2))
    {call : SessionCall V} (h : (step (b.guarded.carry (Script σ V)) w call).1.accepts = true) :
    step (b.trusting.carry (Script σ V)) w call = step (b.guarded.carry (Script σ V)) w call := by
  cases call with
  | openStore store mapping => exact enlist_trusting h
  | openSnapshot snapshot mapping => exact enlist_trusting h
  | process i records mapping =>
    cases hc : w.1[i]? with
    | none => simp only [step, hc]
    | some c =>
      simp only [step, hc] at h ⊢
      have hreachable := hw c (List.mem_of_getElem? hc)
      obtain ⟨d, phase⟩ := c
      obtain rfl : phase = .idle := hreachable.phase_eq
      rcases hrun : (Connection.process (b.guarded.carry (Script σ V)) records mapping).run
        (⟨d, .idle⟩, w.2) with ⟨e | l, w'⟩
      · rw [hrun] at h
        cases h
      · rw [Connection.run_process_trusting hreachable.wellFormed hrun]

theorem trace_trusting
    (hw : ∀ c ∈ w.1, Connection.Reachable (b.guarded.carry (Script σ V)) (c, w.2))
    {calls : List (SessionCall V)}
    (h : ∀ x ∈ trace (b.guarded.carry (Script σ V)) w calls, x.1.accepts = true) :
    trace (b.trusting.carry (Script σ V)) w calls =
      trace (b.guarded.carry (Script σ V)) w calls := by
  induction calls generalizing w with
  | nil => rfl
  | cons call calls ih =>
    have hstep := step_trusting hw (h _ List.mem_cons_self)
    have hcalls := ih (reachable_step hw call) fun x hx => h x (List.mem_cons_of_mem _ hx)
    rw [trace, trace, hstep, hcalls]

end Session

/-- **Checks only refuse.**  Take functions without effects; the comparison need not be an order,
and a sort key need not be equal to itself.  If no call of a session is refused while the functions
are verified and mappings are strict, then without any verification and with lenient mappings each
call gets the same reply and leaves the same connections: the same rows, sort keys, keys kept out,
known groups, mappings and last transactions. -/
theorem checks_only_refuse (b : Arrangement Id V S) (calls : List (SessionCall V)) (s : σ)
    (h : ∀ x ∈ Session.trace (b.guarded.carry (Script σ V)) ([], s) calls, x.1.accepts = true) :
    Session.trace (b.trusting.carry (Script σ V)) ([], s) calls =
      Session.trace (b.guarded.carry (Script σ V)) ([], s) calls :=
  Session.trace_trusting (fun _ hc => absurd hc List.not_mem_nil) h

end Trusting

/-- Numbers in groups of ten; among the remainders by three each lies before the one below it, and
zero before two. -/
def cyclic : Arrangement Id Nat Nat where
  grouping _ n := if n = 0 then none else some ⟨toString (n / 10)⟩
  sortKey _ n := n
  comparison r s := match (r.sortKey + 2 * s.sortKey) % 3 with
    | 0 => .eq
    | 1 => .lt
    | _ => .gt

/-- Two connections are opened, and numbers come to both of them. -/
def cyclicCalls : List (SessionCall Nat) :=
  [.openStore (Store.empty.run [[.set (waveringKey "a") 16 none, .set (waveringKey "b") 11 none]])
      (.ofGroups [⟨"1"⟩]),
    .openSnapshot ⟨⟨4⟩, [(waveringKey "a", 1), (waveringKey "b", 2), (waveringKey "c", 3)]⟩
      (.ofGroups [⟨"0"⟩]),
    .process 1 [⟨⟨5⟩, [.insert (waveringKey "d") 12 none, .insert (waveringKey "e") 4 none,
      .update (waveringKey "d") 5 true]⟩] (.ofGroups [⟨"1"⟩, ⟨"0"⟩]),
    .process 0 [⟨⟨2⟩, [.update (waveringKey "a") 13 true]⟩] (.ofGroups [⟨"1"⟩])]

/-- What becomes of these calls, and of the connections. -/
def cyclicTrace (b : Arrangement Id Nat Nat) :
    List (SessionReply × List (Connection Nat) × Unit) :=
  Session.trace (b.carry (Script Unit Nat)) ([], ()) cyclicCalls

/-- The comparison goes round in a circle; no call is refused for it, and nothing changes without
the checks. -/
theorem cyclicTrace_trusting :
    (cyclicTrace cyclic.guarded).map (·.1.accepts) = [true, true, true, true] ∧
    ((cyclicTrace cyclic.guarded)[3]?.bind (·.2.1[1]?)).map (·.display.view.keys ⟨"0"⟩) =
      some [waveringKey "b", waveringKey "d", waveringKey "a", waveringKey "e",
        waveringKey "c"] ∧
    cyclicTrace cyclic.trusting = cyclicTrace cyclic.guarded := by
  have haccepted : (cyclicTrace cyclic.guarded).all (·.1.accepts) = true := by decide +kernel
  exact ⟨by decide +kernel, by decide +kernel,
    checks_only_refuse cyclic cyclicCalls () (List.all_eq_true.mp haccepted)⟩

end GroupedView
