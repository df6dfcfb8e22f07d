import GroupedView.Proofs.Staging
import GroupedView.Proofs.Store

/-!
# GroupedView.Proofs.Replay — the log of a store tells its history

`replay?` carries out mutations on items and refuses one that does not apply: an insertion of a key
that is there, and anything else on a key that is not.

* What a transaction notes can be replayed at every moment, and leads to the items as the
  transaction sees them (`Draft.replay?_perform`).
* `log_recounts`: the transactions after any id can be replayed on the snapshot taken there, and
  lead to the snapshot taken now (`Store.Recounts`); a transaction reads what it has written; and
  all of this is the same when a transaction stages its changes.
-/

open Std

namespace GroupedView

variable {V : Type}

/-! ## Replaying mutations -/

/-- Carry out a mutation: insert a key that is not there, or work on one that is. -/
def Mutation.replay? (items : ItemMap V) : Mutation V → Option (ItemMap V)
  | .insert k v _ => if items.contains k then none else some (items.insert k v)
  | .update k v _ | .move k v _ _ => if items.contains k then some (items.insert k v) else none
  | .delete k => if items.contains k then some (items.erase k) else none

/-- Carry out mutations one after the other. -/
def replay? (items : ItemMap V) (mus : List (Mutation V)) : Option (ItemMap V) :=
  mus.foldlM Mutation.replay? items

theorem replay?_append {items now after : ItemMap V} {mus mus' : List (Mutation V)}
    (h : replay? items mus = some now) (h' : replay? now mus' = some after) :
    replay? items (mus ++ mus') = some after := by
  rw [replay?, List.foldlM_append, ← replay?, h]
  exact h'

theorem replay?_singleton (items : ItemMap V) (mu : Mutation V) :
    replay? items [mu] = mu.replay? items := by
  rw [replay?, List.foldlM_cons]
  exact bind_pure _

/-! ## Transactions in progress -/

/-- What a request makes of the items. -/
def Request.write (items : ItemMap V) : Request V → ItemMap V
  | .set k v _ => items.insert k v
  | .touch k v => if items.contains k then items.insert k v else items
  | .remove k => items.erase k
  | .get _ | .contains _ | .size => items

namespace Draft

variable {d : Draft V} {items : ItemMap V}

theorem items_perform (d : Draft V) (r : Request V) : (d.perform r).2.items = r.write d.items := by
  cases r with
  | set | get | contains | size => rfl
  | touch k v =>
    rw [perform, Request.write]
    split <;> rfl
  | remove k =>
    rw [perform, Request.write]
    split
    · rfl
    · next hk =>
      refine ExtTreeMap.ext_getElem? fun k' => ?_
      rw [getElem?_map_erase]
      split
      · next he => rw [he, ExtTreeMap.getElem?_eq_none fun hin => hk hin]
      · rfl

theorem items_performAll (d : Draft V) (requests : List (Request V)) :
    (d.performAll requests).2.items = requests.foldl Request.write d.items := by
  induction requests generalizing d with
  | nil => rfl
  | cons r rest ih =>
    rw [List.foldl_cons, ← items_perform]
    exact ih (d.perform r).2

/-- What a transaction has noted leads to the items that it sees, also after one more request. -/
theorem replay?_perform (h : replay? items d.mutations = some d.items) (r : Request V) :
    replay? items (d.perform r).2.mutations = some (d.perform r).2.items := by
  cases r with
  | set k v hint =>
    refine replay?_append h ?_
    rw [replay?_singleton]
    by_cases hk : d.items.contains k = true
    · rw [if_pos hk]
      exact if_pos hk
    · rw [if_neg hk]
      exact if_neg hk
  | touch k v =>
    rw [perform]
    split
    · next hk =>
      refine replay?_append h ?_
      rw [replay?_singleton]
      exact if_pos hk
    · exact h
  | remove k =>
    rw [perform]
    split
    · next hk =>
      refine replay?_append h ?_
      rw [replay?_singleton]
      exact if_pos hk
    · exact h
  | get | contains | size => exact h

theorem replay?_performAll (h : replay? items d.mutations = some d.items)
    (requests : List (Request V)) :
    replay? items (d.performAll requests).2.mutations = some (d.performAll requests).2.items := by
  induction requests generalizing d with
  | nil => exact h
  | cons r rest ih => exact ih (replay?_perform h r)

theorem length_performAll (d : Draft V) (requests : List (Request V)) :
    (d.performAll requests).1.length = requests.length := by
  induction requests generalizing d with
  | nil => rfl
  | cons r rest ih => exact congrArg (· + 1) (ih _)

theorem performAll_append (d : Draft V) (before after : List (Request V)) :
    (d.performAll (before ++ after)).1 =
      (d.performAll before).1 ++ ((d.performAll before).2.performAll after).1 := by
  induction before generalizing d with
  | nil => rfl
  | cons r rest ih => exact congrArg (_ :: ·) (ih _)

/-- A request is answered by what the requests before it have led to. -/
theorem getElem?_performAll (d : Draft V) (before after : List (Request V)) (r : Request V) :
    (d.performAll (before ++ r :: after)).1[before.length]? =
      some ((d.performAll before).2.perform r).1 := by
  rw [performAll_append, List.getElem?_append_right (Nat.le_of_eq (length_performAll d before)),
    length_performAll, Nat.sub_self]
  rfl

end Draft

/-! ## Counting ids -/

section Counting

variable {α : Type} {f : α → Nat} {l : List α} {n : Nat}

theorem getElem_eq_succ (h : l.map f = List.range' 1 l.length) {i : Nat} (hi : i < l.length) :
    f l[i] = i + 1 := by
  have hget := List.getElem_of_eq h (i := i) (by rwa [List.length_map])
  rw [List.getElem_map, List.getElem_range'] at hget
  omega

/-- Where the entries count up from one, those up to `n` are the first `n`. -/
theorem le_of_mem_take (h : l.map f = List.range' 1 l.length) {x : α} (hx : x ∈ l.take n) :
    f x ≤ n := by
  obtain ⟨i, hi, rfl⟩ := List.mem_take_iff_getElem.mp hx
  rw [getElem_eq_succ h]
  omega

theorem lt_of_mem_drop (h : l.map f = List.range' 1 l.length) {x : α} (hx : x ∈ l.drop n) :
    n < f x := by
  obtain ⟨i, hi, rfl⟩ := List.mem_drop_iff_getElem.mp hx
  rw [getElem_eq_succ h]
  omega

theorem dropWhile_eq_drop (h : l.map f = List.range' 1 l.length) {p : α → Bool}
    (hp : ∀ x, p x = true ↔ f x ≤ n) : l.dropWhile p = l.drop n := by
  conv_lhs => rw [← List.take_append_drop n l]
  rw [List.dropWhile_append_of_pos fun x hx => (hp x).mpr (le_of_mem_take h hx)]
  refine List.dropWhile_eq_self_iff.mpr fun hl hfirst => ?_
  exact absurd ((hp _).mp hfirst) (Nat.not_le.mpr (lt_of_mem_drop h (List.getElem_mem hl)))

theorem filter_eq_drop (h : l.map f = List.range' 1 l.length) :
    l.filter (n < f ·) = l.drop n := by
  have htake : (l.take n).filter (n < f ·) = [] :=
    List.filter_eq_nil_iff.mpr fun x hx => by
      simpa using le_of_mem_take h hx
  have hdrop : (l.drop n).filter (n < f ·) = l.drop n :=
    List.filter_eq_self.mpr fun x hx => decide_eq_true (lt_of_mem_drop h hx)
  conv_lhs => rw [← List.take_append_drop n l]
  rw [List.filter_append, htake, hdrop, List.nil_append]

end Counting

/-! ## The log -/

namespace Store

theorem replay?_transact (s : Store V) (requests : List (Request V)) :
    replay? s.items (s.transact requests).2.1.mutations =
      some (s.transact requests).2.2.items :=
  Draft.replay?_performAll (d := ⟨s.items, []⟩) rfl requests

theorem length_log_run_empty (history : List (List (Request V))) :
    (Store.empty.run history).log.length = history.length := by
  rw [length_log_run]
  exact Nat.zero_add _

/-- A history adds to the log one transaction for each of its own, and these lead from the items
before it to the items after it. -/
theorem exists_log_run (s : Store V) (history : List (List (Request V))) :
    ∃ new, (s.run history).log = s.log ++ new ∧ new.length = history.length ∧
      replay? s.items (new.flatMap Transaction.mutations) = some (s.run history).items := by
  induction history using List.reverseRecOn with
  | nil => exact ⟨[], (List.append_nil _).symm, rfl, rfl⟩
  | append_singleton history requests ih =>
    obtain ⟨new, hlog, hlength, hreplay⟩ := ih
    rw [run_concat]
    refine ⟨new ++ [((s.run history).transact requests).2.1], ?_, ?_, ?_⟩
    · rw [← List.append_assoc, ← hlog]
      rfl
    · rw [List.length_append, List.length_append, hlength]
      rfl
    · rw [List.flatMap_append, List.flatMap_singleton]
      exact replay?_append hreplay ((s.run history).replay?_transact requests)

/-- What is in the log after a part of the history leads from there to the end. -/
theorem replay?_drop (history : List (List (Request V))) (i : Nat) :
    replay? (Store.empty.run (history.take i)).items
        (((Store.empty.run history).log.drop i).flatMap Transaction.mutations) =
      some (Store.empty.run history).items := by
  obtain ⟨new, hlog, hlength, hreplay⟩ :=
    (Store.empty.run (history.take i)).exists_log_run (history.drop i)
  have hrun : (Store.empty.run (history.take i)).run (history.drop i) =
      Store.empty.run history := by
    rw [run, run, ← List.foldl_append, List.take_append_drop, ← run]
  rw [hrun] at hlog hreplay
  have hdrop : (Store.empty.run history).log.drop i = new := by
    have htake := length_log_run_empty (history.take i)
    rw [List.length_take] at htake
    rw [List.length_drop] at hlength
    rw [hlog, List.drop_append, List.drop_eq_nil_of_le (by omega), List.nil_append]
    -- either the first `i` transactions are there, or nothing comes after them
    rcases Nat.le_total i history.length with hi | hi
    · rw [show i - (Store.empty.run (history.take i)).log.length = 0 by omega, List.drop_zero]
    · rw [List.length_eq_zero_iff.mp (show new.length = 0 by omega), List.drop_nil]
  rw [hdrop]
  exact hreplay

/-- The log is a sequence of transactions that leads from the first id to the last. -/
theorem checkSequence_log_run (history : List (List (Request V))) :
    checkSequence .zero (Store.empty.run history).log = .ok () ∧
      lastId .zero (Store.empty.run history).log = (Store.empty.run history).last := by
  induction history using List.reverseRecOn with
  | nil => exact ⟨rfl, rfl⟩
  | append_singleton history requests ih =>
    have hlog : (Store.empty.run (history ++ [requests])).log = (Store.empty.run history).log ++
        [((Store.empty.run history).transact requests).2.1] := by
      rw [run_concat]
      rfl
    rw [hlog, lastId_concat, run_concat]
    exact ⟨checkSequence_concat ih.1 (by rw [ih.2]; rfl), rfl⟩

end Store

/-- The log of a store tells the history that led to it. -/
structure Store.Recounts (s : Store V) (history : List (List (Request V))) : Prop where
  toNat_ids : s.log.map (·.id.toNat) = List.range' 1 history.length
  toNat_last : s.last.toNat = history.length
  pendingSince_eq : ∀ t : TransactionId,
    s.pendingSince t = s.log.filter fun r => t.toNat < r.id.toNat
  pendingSince_nil : ∀ t : TransactionId, history.length ≤ t.toNat → s.pendingSince t = []
  /-- The transactions after an id lead from the snapshot taken there to the one taken now. -/
  replays : ∀ t : TransactionId, t.toNat ≤ history.length → ∃ before now : ItemMap V,
    (Store.empty.run (history.take t.toNat)).snapshot = ⟨t, before.toList⟩ ∧
    s.snapshot = ⟨s.last, now.toList⟩ ∧
    replay? before ((s.pendingSince t).flatMap Transaction.mutations) = some now

section Recounts

variable {history : List (List (Request V))} (h : history.length ≤ TransactionId.last.toNat)

include h

theorem toNat_last_run : (Store.empty.run history).last.toNat = history.length := by
  rw [(Store.Sound.empty.run history).toNat_last, Store.length_log_run_empty]
  exact Nat.min_eq_left h

theorem toNat_ids_run : (Store.empty.run history).log.map (·.id.toNat) =
    List.range' 1 (Store.empty.run history).log.length := by
  have hzero : TransactionId.zero.toNat = 0 := rfl
  rw [checkSequence_eq_ok_iff.mp (Store.checkSequence_log_run history).1, hzero,
    Store.length_log_run_empty]
  refine (List.map_congr_left fun n hn => ?_).trans (List.map_id _)
  have hlt := (List.mem_range'_1.mp hn).2
  exact Nat.min_eq_left (by omega)

theorem pendingSince_run (t : TransactionId) : (Store.empty.run history).pendingSince t =
    (Store.empty.run history).log.drop t.toNat :=
  dropWhile_eq_drop (toNat_ids_run h) fun _ => TransactionId.isLE_compare_iff

theorem recounts_run : (Store.empty.run history).Recounts history where
  toNat_ids := by rw [toNat_ids_run h, Store.length_log_run_empty]
  toNat_last := toNat_last_run h
  pendingSince_eq t := by rw [pendingSince_run h, filter_eq_drop (toNat_ids_run h)]
  pendingSince_nil t ht := by
    rw [pendingSince_run h]
    exact List.drop_eq_nil_of_le (by rwa [Store.length_log_run_empty])
  replays t ht := by
    have hlength : (history.take t.toNat).length = t.toNat := by
      rw [List.length_take, Nat.min_eq_left ht]
    have hasOf : (Store.empty.run (history.take t.toNat)).last = t := by
      rw [← TransactionId.toNat_inj, toNat_last_run (by omega), hlength]
    refine ⟨_, _, by rw [Store.snapshot, hasOf], rfl, ?_⟩
    rw [pendingSince_run h]
    exact Store.replay?_drop history t.toNat

end Recounts

/-- **The log tells the history.**  After any transactions from an empty store, as long as there
are ids for them, the ids in its log count from one, the transactions after any id are those with a
greater one, and replayed on the snapshot taken at that id they apply one by one and lead to the
snapshot taken now.  A transaction leaves the items that its requests make of those before it, and
while it is in progress, what has been noted so far leads from the committed items to those that a
read sees.  It makes no difference to any of this if a transaction stages its changes and leaves
the committed items alone until the end. -/
theorem log_recounts {V : Type} :
    (∀ history : List (List (Request V)), history.length ≤ TransactionId.last.toNat →
      (Store.empty.run history).Recounts history) ∧
    (∀ (s : Store V) (requests : List (Request V)),
      (s.transact requests).2.2.items = requests.foldl Request.write s.items) ∧
    (∀ (s : Store V) (before after : List (Request V)) (k : ItemKey), ∃ seen : ItemMap V,
      replay? s.items (s.transact before).2.1.mutations = some seen ∧
      (s.transact (before ++ .get k :: after)).1[before.length]? = some (.value seen[k]?) ∧
      (s.transact (before ++ .contains k :: after)).1[before.length]? =
        some (.found (seen.contains k))) ∧
    ∀ (s : Store V) (requests : List (Request V)),
      s.transactStaged requests = s.transact requests :=
  ⟨fun _ => recounts_run,
    fun s requests => Draft.items_performAll ⟨s.items, []⟩ requests,
    fun s before after k => ⟨_, s.replay?_transact before,
      Draft.getElem?_performAll ⟨s.items, []⟩ before after (.get k),
      Draft.getElem?_performAll ⟨s.items, []⟩ before after (.contains k)⟩,
    Store.transactStaged_eq⟩

/-- Transactions that write one key several times, that write nothing, and that read what they
have written. -/
def rewrites : List (List (Request Nat)) :=
  [[.set ⟨"c", "x"⟩ 1 none, .remove ⟨"c", "x"⟩, .set ⟨"c", "x"⟩ 2 none, .touch ⟨"c", "x"⟩ 3,
      .set ⟨"c", "y"⟩ 4 none],
    [],
    [.remove ⟨"c", "y"⟩, .get ⟨"c", "y"⟩, .set ⟨"c", "x"⟩ 5 (some ⟨⟨"g"⟩, 0⟩), .remove ⟨"c", "z"⟩]]

/-- The last of these transactions can be replayed on what the first one left, and reads that a key
is gone although the committed items still have it. -/
theorem rewrites_recounted :
    rewrites.length ≤ TransactionId.last.toNat ∧
    (Store.empty.run rewrites).Recounts rewrites ∧
    (Store.empty.run rewrites).pendingSince ⟨1⟩ = [⟨⟨2⟩, []⟩,
      ⟨⟨3⟩, [.delete ⟨"c", "y"⟩, .update ⟨"c", "x"⟩ 5 true]⟩] ∧
    ∃ seen : ItemMap Nat,
      replay? (Store.empty.run (rewrites.take 2)).items [.delete ⟨"c", "y"⟩] = some seen ∧
      ((Store.empty.run (rewrites.take 2)).transact rewrites[2]).1[1]? =
        some (.value seen[(⟨"c", "y"⟩ : ItemKey)]?) := by
  have hlength : rewrites.length ≤ TransactionId.last.toNat := by decide +kernel
  obtain ⟨hrecounts, -, hreads, -⟩ := log_recounts (V := Nat)
  obtain ⟨seen, hseen, hget, -⟩ := hreads (Store.empty.run (rewrites.take 2)) [rewrites[2][0]]
    (rewrites[2].drop 2) ⟨"c", "y"⟩
  have hnoted : ((Store.empty.run (rewrites.take 2)).transact [rewrites[2][0]]).2.1.mutations =
    [.delete ⟨"c", "y"⟩] := by decide +kernel
  rw [hnoted] at hseen
  exact ⟨hlength, hrecounts _ hlength, by decide +kernel, seen, hseen, hget⟩

end GroupedView
