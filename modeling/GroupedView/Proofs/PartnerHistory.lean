import GroupedView.Proofs.Partner
import Mathlib.Data.List.Induction

/-!
# GroupedView.Proofs.PartnerHistory — who is in a registry after a history of operations

Partners are registered and unregistered, and they die between the operations of a registry.
`World.Effect` says once what an operation does to the registry: it adds one entry, or it keeps
exactly the entries that it spares.

* `mem_followers_after_iff`: the entries of a key are those registered under it that all later
  operations spared.
* `registry_after`: what is in a registry after any history, and what a pass and an answer come to
  then.
-/

open Std

namespace GroupedView

namespace Registry

variable {P : Type}

/-! ## Numbers of registrations -/

/-- The registry gave out `n` ids: the entries have some of them, in increasing order. -/
structure Numbered (n : Nat) (r : Registry P) : Prop where
  next : r.next = UInt64.ofNat n
  below : ∀ k, ∀ e ∈ r.followers k, e.id.number.toNat < n
  sorted : ∀ k, (r.followers k).Pairwise (·.id.number < ·.id.number)

theorem numbered_empty : ({} : Registry P).Numbered 0 where
  next := rfl
  below k e he := by
    rw [followers_empty] at he
    cases he
  sorted k := by
    rw [followers_empty]
    exact .nil

namespace Numbered

variable {r : Registry P} {n : Nat}

theorem toNat_next (h : r.Numbered n) (hn : n < UInt64.size) : r.next.toNat = n := by
  rw [h.next, UInt64.toNat_ofNat', Nat.mod_eq_of_lt hn]

theorem register (h : r.Numbered n) (hn : n < UInt64.size) (k : ItemKey) (p : P) :
    (r.register k p).2.Numbered (n + 1) := by
  have hid : (r.register k p).1.number.toNat = n := h.toNat_next hn
  constructor
  case next =>
    calc r.next + 1
      _ = UInt64.ofNat n + 1 := by rw [h.next]
      _ = UInt64.ofNat (n + 1) := (UInt64.ofNat_add n 1).symm
  case below =>
    intro k' e he
    rw [followers_register] at he
    split at he
    · obtain he | he := List.mem_append.mp he
      · exact Nat.lt_succ_of_lt (h.below k e he)
      · rw [List.mem_singleton.mp he]
        exact Nat.lt_succ_of_le (Nat.le_of_eq hid)
    · exact Nat.lt_succ_of_lt (h.below k' e he)
  case sorted =>
    intro k'
    rw [followers_register]
    split
    · refine List.pairwise_append.mpr ⟨h.sorted k, List.pairwise_singleton _ _, ?_⟩
      intro e he e' he'
      rw [List.mem_singleton.mp he', UInt64.lt_iff_toNat_lt, hid]
      exact h.below k e he
    · exact h.sorted k'

theorem retain (h : r.Numbered n) (test : PartnerEntry P → Bool) : (r.retain test).Numbered n where
  next := h.next
  below k e he := by
    rw [followers_retain] at he
    exact h.below k e (List.mem_filter.mp he).1
  sorted k := by
    rw [followers_retain]
    exact (h.sorted k).filter _

end Numbered

/-! ## Operations -/

/-- What happens to a registry and to its partners. -/
inductive Operation (P : Type) where
  | register (key : ItemKey) (partner : P)
  /-- The last owner of a partner lets it go. -/
  | drop (partner : P)
  | unregister (id : PartnerId)
  | prune
  | notify (changes : ChangeList)

/-- Whether an operation is a registration. -/
def Operation.isRegister : Operation P → Bool
  | register .. => true
  | _ => false

/-- The number of registrations in a history. -/
def registrations (history : List (Operation P)) : Nat := history.countP Operation.isRegister

theorem registrations_concat (history : List (Operation P)) (op : Operation P) :
    registrations (history ++ [op]) = registrations history + if op.isRegister then 1 else 0 := by
  rw [registrations, List.countP_append, List.countP_singleton]
  rfl

/-- A registry, and the partners that died. -/
structure World (P : Type) where
  registry : Registry P := {}
  dead : List P := []

namespace World

variable [DecidableEq P] (w : World P)

/-- Whether a partner did not die. -/
def alive (p : P) : Bool := p ∉ w.dead

/-- Carry out an operation. -/
def step : Operation P → World P
  | .register k p => { w with registry := (w.registry.register k p).2 }
  | .drop p => { w with dead := p :: w.dead }
  | .unregister id => { w with registry := (w.registry.unregister id).2 }
  | .prune => { w with registry := (w.registry.prune w.alive).2 }
  | .notify changes => { w with registry := (w.registry.notify w.alive changes).2 }

/-- Carry out operations in order. -/
def run (ops : List (Operation P)) : World P := ops.foldl step w

/-- The world after a history that starts without entries. -/
def after (history : List (Operation P)) : World P := run {} history

theorem after_concat (history : List (Operation P)) (op : Operation P) :
    after (history ++ [op]) = (after history).step op := by
  rw [after, run, List.foldl_append]
  rfl

theorem after_append (before rest : List (Operation P)) (op : Operation P) :
    after (before ++ op :: rest) = run ((after before).step op) rest := by
  rw [after, run, List.foldl_append]
  rfl

/-- Whether an operation looks for dead partners everywhere.  A pass does if it met one. -/
def Sweeps : Operation P → Prop
  | .prune => True
  | .notify changes => ∃ n ∈ w.registry.met changes, w.alive n.partner = false
  | _ => False

/-- An operation spares an entry unless it unregisters it or sweeps it up dead. -/
def Spares (e : PartnerEntry P) (op : Operation P) : Prop :=
  op ≠ .unregister e.id ∧ (w.Sweeps op → w.alive e.partner = true)

/-- All operations spare an entry. -/
def Keeps (e : PartnerEntry P) : World P → List (Operation P) → Prop
  | _, [] => True
  | w, op :: ops => w.Spares e op ∧ Keeps e (w.step op) ops

theorem keeps_concat {e : PartnerEntry P} {ops : List (Operation P)} {op : Operation P} :
    Keeps e w (ops ++ [op]) ↔ Keeps e w ops ∧ (w.run ops).Spares e op := by
  induction ops generalizing w with
  | nil => simp [Keeps, run]
  | cons op' ops ih =>
    rw [List.cons_append, Keeps, ih, Keeps, and_assoc]
    rfl

/-- What an operation does to the registry. -/
inductive Effect : Operation P → Registry P → Prop
  | register (k : ItemKey) (p : P) : Effect (.register k p) (w.registry.register k p).2
  | unchanged {op : Operation P} : op.isRegister = false → (∀ e, w.Spares e op) →
      Effect op w.registry
  | retain {op : Operation P} (test : PartnerEntry P → Bool) : op.isRegister = false →
      (∀ e, test e = true ↔ w.Spares e op) → Effect op (w.registry.retain test)

theorem effect_notify (changes : ChangeList) :
    w.Effect (.notify changes) (w.step (.notify changes)).registry := by
  rw [step, notify_eq]
  by_cases h : w.Sweeps (.notify changes)
  · rw [afterPass_of_dead _ h]
    exact .retain _ rfl fun e => ⟨fun halive => ⟨nofun, fun _ => halive⟩, fun hs => hs.2 h⟩
  · rw [afterPass_of_alive _ fun n hn => Bool.of_not_eq_false fun hdead => h ⟨n, hn, hdead⟩]
    exact .unchanged rfl fun e => ⟨nofun, fun hs => absurd hs h⟩

theorem effect_step (op : Operation P) : w.Effect op (w.step op).registry := by
  cases op with
  | register k p => exact .register k p
  | drop p => exact .unchanged rfl fun e => ⟨nofun, False.elim⟩
  | unregister id =>
    refine .retain _ rfl fun e => ?_
    rw [decide_eq_true_iff]
    constructor
    · intro hne
      exact ⟨fun heq => hne (Operation.unregister.inj heq).symm, False.elim⟩
    · intro hspares heq
      exact hspares.1 (congrArg Operation.unregister heq.symm)
  | prune =>
    exact .retain _ rfl fun e => ⟨fun halive => ⟨nofun, fun _ => halive⟩, fun hs => hs.2 trivial⟩
  | notify changes => exact w.effect_notify changes

namespace Effect

variable {w} {op : Operation P} {r : Registry P} (h : w.Effect op r)

include h

theorem tidy (htidy : w.registry.Tidy) : r.Tidy := by
  cases h with
  | register k p => exact htidy.register k p
  | unchanged => exact htidy
  | retain test => exact w.registry.tidy_retain test

theorem numbered {history : List (Operation P)} (hn : registrations history < UInt64.size)
    (hnumbered : w.registry.Numbered (registrations history)) :
    r.Numbered (registrations (history ++ [op])) := by
  rw [registrations_concat]
  cases h with
  | register k p => exact hnumbered.register hn k p
  | unchanged hop =>
    rw [hop]
    exact hnumbered
  | retain test hop =>
    rw [hop]
    exact hnumbered.retain test

/-- An entry was there and is spared, or it is the one that is registered. -/
theorem mem_followers_iff {k : ItemKey} {e : PartnerEntry P} :
    e ∈ r.followers k ↔ e ∈ w.registry.followers k ∧ w.Spares e op ∨
      op = .register k e.partner ∧ (w.registry.register k e.partner).1 = e.id := by
  have hother (hop : op.isRegister = false) : op ≠ .register k e.partner := by
    rintro rfl
    cases hop
  cases h with
  | register k' p =>
    have hspares : w.Spares e (.register k' p) := ⟨nofun, False.elim⟩
    rw [followers_register]
    by_cases hk : k' = k
    · subst hk
      rw [if_pos rfl, List.mem_append, List.mem_singleton, and_iff_left hspares]
      refine or_congr_right ⟨?_, fun ⟨hop, hid⟩ => ?_⟩
      · rintro rfl
        exact ⟨rfl, rfl⟩
      · rw [(Operation.register.inj hop).2, hid]
    · rw [if_neg hk]
      simp [hk, hspares]
  | unchanged hop hspares => simp [hspares e, hother hop]
  | retain test hop htest => rw [followers_retain, List.mem_filter, htest e]; simp [hother hop]

end Effect

/-! ## Histories -/

theorem tidy_after (history : List (Operation P)) : (after history).registry.Tidy := by
  induction history using List.reverseRecOn with
  | nil => exact tidy_empty
  | append_singleton history op ih =>
    rw [after_concat]
    exact ((after history).effect_step op).tidy ih

theorem numbered_after (history : List (Operation P)) (h : registrations history < UInt64.size) :
    (after history).registry.Numbered (registrations history) := by
  induction history using List.reverseRecOn with
  | nil => exact numbered_empty
  | append_singleton history op ih =>
    have hn : registrations history < UInt64.size := by
      rw [registrations_concat] at h
      omega
    rw [after_concat]
    exact ((after history).effect_step op).numbered hn (ih hn)

/-- The entries of a key are those that were registered under it and spared by all that happened
since. -/
theorem mem_followers_after_iff (history : List (Operation P)) (k : ItemKey) (e : PartnerEntry P) :
    e ∈ (after history).registry.followers k ↔
      ∃ before rest, history = before ++ .register k e.partner :: rest ∧
        ((after before).registry.register k e.partner).1 = e.id ∧
        Keeps e ((after before).step (.register k e.partner)) rest := by
  induction history using List.reverseRecOn with
  | nil => simp [after, run]
  | append_singleton history op ih =>
    rw [after_concat, ((after history).effect_step op).mem_followers_iff, ih]
    constructor
    · rintro (⟨⟨before, rest, rfl, hid, hkeeps⟩, hspares⟩ | ⟨rfl, hid⟩)
      · refine ⟨before, rest ++ [op], by rw [List.append_assoc, List.cons_append], hid, ?_⟩
        rw [after_append] at hspares
        exact (keeps_concat _).mpr ⟨hkeeps, hspares⟩
      · exact ⟨history, [], rfl, hid, trivial⟩
    · rintro ⟨before, rest, heq, hid, hkeeps⟩
      obtain rfl | ⟨rest, op', rfl⟩ := rest.eq_nil_or_concat
      · obtain ⟨rfl, hop⟩ := List.append_inj' heq rfl
        exact .inr ⟨List.singleton_inj.mp hop, hid⟩
      · rw [List.concat_eq_append] at heq hkeeps
        rw [← List.cons_append, ← List.append_assoc] at heq
        obtain ⟨rfl, hop⟩ := List.append_inj' heq rfl
        obtain ⟨hkeeps, hspares⟩ := (keeps_concat _).mp hkeeps
        rw [after_append, List.singleton_inj.mp hop]
        exact .inl ⟨⟨before, rest, rfl, hid, hkeeps⟩, hspares⟩

/-- A later registration gets a greater id. -/
theorem register_fst_lt {before rest : List (Operation P)} {op : Operation P}
    (hop : op.isRegister = true) (hn : registrations (before ++ op :: rest) < UInt64.size)
    (k k' : ItemKey) (p p' : P) :
    ((after before).registry.register k p).1.number <
      ((after (before ++ op :: rest)).registry.register k' p').1.number := by
  have hlt : registrations before < registrations (before ++ op :: rest) := by
    rw [registrations, registrations, List.countP_append, List.countP_cons_of_pos hop]
    omega
  have hbefore : registrations before < UInt64.size := Nat.lt_trans hlt hn
  calc (after before).registry.next.toNat
    _ = registrations before := (numbered_after before hbefore).toNat_next hbefore
    _ < registrations (before ++ op :: rest) := hlt
    _ = (after (before ++ op :: rest)).registry.next.toNat :=
      ((numbered_after _ hn).toNat_next hn).symm

end World

open World

variable [DecidableEq P]

/-- **What a history leaves in a registry.**  After any history with fewer than `UInt64.size`
registrations:

* a registration gets a greater id than all earlier ones, so that no id is given out twice;
* the entries of a key are those that were registered under it and that all operations since then
  spared; in particular an entry whose partner is alive goes only when its own id is unregistered;
* the entries of each key are in the order of their ids, and no key is left without
  entries, so that the registry is empty just if its size is zero;
* a pass calls those who follow the rows that move or have a new value and who are alive, in order
  and nobody else, and tells how many calls it made; then it removes all entries of dead partners
  if it met one, and else it leaves the registry as it is;
* unregistering an id tells whether there was an entry with it. -/
theorem registry_after (history : List (Operation P)) (h : registrations history < UInt64.size) :
    let w := after history
    (∀ before k p rest, history = before ++ .register k p :: rest → ∀ k' p',
      ((after before).registry.register k p).1.number < (w.registry.register k' p').1.number) ∧
    (∀ k e, e ∈ w.registry.followers k ↔
      ∃ before rest, history = before ++ .register k e.partner :: rest ∧
        ((after before).registry.register k e.partner).1 = e.id ∧
        Keeps e ((after before).step (.register k e.partner)) rest) ∧
    (∀ op k, ∀ e ∈ w.registry.followers k, w.alive e.partner = true → op ≠ .unregister e.id →
      e ∈ (w.step op).registry.followers k) ∧
    (∀ k, (w.registry.followers k).Pairwise (·.id.number < ·.id.number)) ∧
    (∀ k : ItemKey, w.registry.entries[k]? ≠ some []) ∧
    (w.registry.isEmpty = true ↔ w.registry.size = 0) ∧
    (∀ changes,
      (∀ {m : Type → Type} [Monad m] [LawfulMonad m] (call : Notice P → m Unit),
        w.registry.deliver w.alive call changes = do
          (w.registry.calls w.alive changes).forM call
          return ((w.registry.calls w.alive changes).length,
            (w.step (.notify changes)).registry)) ∧
      ((∃ n ∈ w.registry.met changes, w.alive n.partner = false) →
        ∀ k, (w.step (.notify changes)).registry.followers k =
          (w.registry.followers k).filter (w.alive ·.partner)) ∧
      ((∀ n ∈ w.registry.met changes, w.alive n.partner = true) →
        w.step (.notify changes) = w)) ∧
    (∀ id, (w.registry.unregister id).1 = true ↔ ∃ k, ∃ e ∈ w.registry.followers k, e.id = id) := by
  refine ⟨?ids, mem_followers_after_iff history, fun op k e he halive hne => ?lasting,
    (numbered_after history h).sorted, tidy_after history, (tidy_after history).isEmpty_iff,
    fun changes => ⟨fun call => ?deliver, fun hdead k => ?swept, fun halive => ?unswept⟩,
    unregister_fst_iff _⟩
  case ids =>
    rintro before k p rest rfl k' p'
    exact register_fst_lt rfl h k k' p p'
  case lasting =>
    exact ((after history).effect_step op).mem_followers_iff.mpr (.inl ⟨he, hne, fun _ => halive⟩)
  case deliver => rw [deliver_eq, step, notify_eq]
  case swept => rw [step, notify_eq, afterPass_of_dead _ hdead, followers_retain]
  case unswept => rw [step, notify_eq, afterPass_of_alive _ halive]

/-- Two partners follow the row `a` and a third one the rows `b` and `c`; one of the two dies. -/
def bereavement : List (Operation Nat) :=
  [.register ⟨"c", "a"⟩ 0, .register ⟨"c", "a"⟩ 1, .register ⟨"c", "b"⟩ 2, .register ⟨"c", "c"⟩ 2,
    .drop 1]

/-- The row `c` comes, `a` has a new value and `b` moves. -/
def tidings : ChangeList where
  changes := [.rowInsert ⟨"c", "c"⟩ ⟨0, 0⟩, .rowUpdate ⟨"c", "a"⟩ ⟨0, 0⟩ ⟨0, 1⟩,
    .rowMove ⟨"c", "b"⟩ ⟨0, 1⟩ ⟨0, 2⟩]

/-- A pass calls those who are alive about `a` and `b`, nobody about `c`, and takes the entry of the
dead partner away; a pass that does not meet the dead partner leaves its entry. -/
theorem registry_after_death :
    registrations bereavement < UInt64.size ∧
      ((after bereavement).registry.deliver (after bereavement).alive note tidings).run [] =
        ((2, ((after bereavement).step (.notify tidings)).registry),
          [⟨0, ⟨"c", "a"⟩, .rowUpdate ⟨"c", "a"⟩ ⟨0, 0⟩ ⟨0, 1⟩⟩,
            ⟨2, ⟨"c", "b"⟩, .rowMove ⟨"c", "b"⟩ ⟨0, 1⟩ ⟨0, 2⟩⟩]) ∧
      ((after bereavement).step (.notify tidings)).registry.followers ⟨"c", "a"⟩ = [⟨⟨0⟩, 0⟩] ∧
      ((after bereavement).step (.notify tidings)).registry.followers ⟨"c", "b"⟩ = [⟨⟨2⟩, 2⟩] ∧
      ((after bereavement).step
        (.notify ⟨[.rowMove ⟨"c", "b"⟩ ⟨0, 1⟩ ⟨0, 2⟩]⟩)).registry.followers ⟨"c", "a"⟩ =
          [⟨⟨0⟩, 0⟩, ⟨⟨1⟩, 1⟩] := by
  have hfollowers : (after bereavement).registry.followers ⟨"c", "a"⟩ = [⟨⟨0⟩, 0⟩, ⟨⟨1⟩, 1⟩] := by
    decide +kernel
  have hcalls : (after bereavement).registry.calls (after bereavement).alive tidings =
      [⟨0, ⟨"c", "a"⟩, .rowUpdate ⟨"c", "a"⟩ ⟨0, 0⟩ ⟨0, 1⟩⟩,
        ⟨2, ⟨"c", "b"⟩, .rowMove ⟨"c", "b"⟩ ⟨0, 1⟩ ⟨0, 2⟩⟩] := by
    decide +kernel
  have hdead : ∃ n ∈ (after bereavement).registry.met tidings,
      (after bereavement).alive n.partner = false :=
    ⟨⟨1, ⟨"c", "a"⟩, .rowUpdate ⟨"c", "a"⟩ ⟨0, 0⟩ ⟨0, 1⟩⟩, by decide +kernel, by decide⟩
  obtain ⟨-, -, -, -, -, -, hpass, -⟩ := registry_after bereavement (by decide)
  obtain ⟨hdeliver, hswept, -⟩ := hpass tidings
  refine ⟨by decide, ?_, ?_, ?_, ?_⟩
  · rw [hdeliver note, hcalls, StateT.run_bind, forM_note]
    rfl
  · rw [hswept hdead, hfollowers]
    rfl
  · rw [hswept hdead]
    decide +kernel
  · rw [(hpass _).2.2 (by decide +kernel), hfollowers]

end Registry

end GroupedView
