import GroupedView.Display
import Mathlib.Data.List.Induction
import Mathlib.Data.List.TakeWhile

/-!
# GroupedView.Proofs.Store — the log of a store

* `checkSequence_eq_ok_iff` says which ids follow an id, and `toNat_lastId` where they end.
* `Store.run` commits a history of transactions one after the other.
* `Store.Sound` says how the ids in the log go on; they count the transactions up to the largest
  id.
* `Store.Continues s t` says that the transactions after the id `t` follow each other without a gap
  and lead to the last one; a commit keeps this (`Store.Continues.commit`).
-/

open Std

namespace GroupedView

/-! ## Ids -/

namespace TransactionId

variable {t u : TransactionId}

theorem isLE_compare_iff : (compare t u).isLE = true ↔ t.toNat ≤ u.toNat := by
  have hcompare : compare t u = compare t.number u.number := rfl
  rw [hcompare, isLE_compare, toNat, toNat, UInt64.le_iff_toNat_le]

theorem toNat_le_last : t.toNat ≤ last.toNat := by
  have hlt := t.number.toNat_lt
  have hlast : last.toNat = 2 ^ 64 - 1 := rfl
  rw [hlast, toNat]
  omega

theorem toNat_inj : t.toNat = u.toNat ↔ t = u := by
  cases t
  cases u
  rw [toNat, toNat, UInt64.toNat_inj, mk.injEq]

/-- The next id is larger by one, up to the largest id. -/
theorem toNat_next_eq_min : t.next.toNat = min (t.toNat + 1) last.toNat := by
  by_cases h : t = last
  · rw [h, next_last]
    omega
  · have hle : t.toNat ≤ last.toNat := toNat_le_last
    have hne : t.toNat ≠ last.toNat := fun he => h (toNat_inj.mp he)
    rw [toNat_next h]
    omega

end TransactionId

/-! ## Sequences of transactions -/

/-- Numbers cut down to `m` are the same when counting starts at a number cut down to `m`. -/
theorem map_min_range'_min (n k m : Nat) :
    (List.range' (min n m + 1) k).map (min · m) = (List.range' (n + 1) k).map (min · m) := by
  refine List.ext_getElem (by simp) fun i _ _ => ?_
  simp only [List.getElem_map, List.getElem_range']
  omega

section Sequence

variable {V : Type} {t : TransactionId} {r : Transaction V} {records : List (Transaction V)}

@[simp] theorem lastId_nil : lastId t ([] : List (Transaction V)) = t := rfl

theorem lastId_cons : lastId t (r :: records) = lastId r.id records := by
  cases records with
  | nil => rfl
  | cons r' records =>
    rw [lastId, lastId, List.getLast?_cons_cons, List.getLast?_cons]
    rfl

theorem lastId_append (rest : List (Transaction V)) :
    lastId t (records ++ rest) = lastId (lastId t records) rest := by
  induction records generalizing t with
  | nil => rfl
  | cons r records ih => rw [List.cons_append, lastId_cons, lastId_cons, ih]

theorem lastId_concat : lastId t (records ++ [r]) = r.id := by
  rw [lastId_append, lastId_cons, lastId_nil]

/-- Transactions follow each other if those after any of them do. -/
theorem checkSequence_append {rest : List (Transaction V)} :
    checkSequence t (records ++ rest) = .ok () ↔
      checkSequence t records = .ok () ∧ checkSequence (lastId t records) rest = .ok () := by
  induction records generalizing t with
  | nil => exact (and_iff_right rfl).symm
  | cons r records ih =>
    rw [List.cons_append, checkSequence, checkSequence, lastId_cons]
    by_cases hid : r.id = t.next
    · rw [if_pos hid, if_pos hid, ih]
    · rw [if_neg hid, if_neg hid]
      exact iff_of_false nofun fun h => nomatch h.1

theorem checkSequence_concat (h : checkSequence t records = .ok ())
    (hr : r.id = (lastId t records).next) : checkSequence t (records ++ [r]) = .ok () :=
  checkSequence_append.mpr ⟨h, if_pos hr⟩

/-- Transactions follow an id if their ids are the next ones, up to the largest id. -/
theorem checkSequence_eq_ok_iff : checkSequence t records = .ok () ↔
    records.map (·.id.toNat) =
      (List.range' (t.toNat + 1) records.length).map (min · TransactionId.last.toNat) := by
  induction records generalizing t with
  | nil => exact ⟨fun _ => rfl, fun _ => rfl⟩
  | cons r records ih =>
    have hnext : r.id = t.next ↔ r.id.toNat = min (t.toNat + 1) TransactionId.last.toNat := by
      rw [← TransactionId.toNat_inj, TransactionId.toNat_next_eq_min]
    rw [checkSequence, List.map_cons, List.length_cons, List.range'_succ, List.map_cons,
      List.cons.injEq, ← hnext]
    by_cases hid : r.id = t.next
    · rw [if_pos hid, ih, hnext.mp hid, map_min_range'_min, and_iff_right hid]
    · rw [if_neg hid]
      exact iff_of_false (by simp) fun h => hid h.1

/-- Transactions that do not follow are refused for a gap. -/
theorem checkSequence_cases (t : TransactionId) (records : List (Transaction V)) :
    checkSequence t records = .ok () ∨
      ∃ expected found, checkSequence t records = .error (.gap expected found) := by
  induction records generalizing t with
  | nil => exact .inl rfl
  | cons r records ih =>
    rw [checkSequence]
    split
    · exact ih r.id
    · exact .inr ⟨t.next, r.id, rfl⟩

theorem toNat_lastId (h : checkSequence t records = .ok ()) :
    (lastId t records).toNat = min (t.toNat + records.length) TransactionId.last.toNat := by
  induction records generalizing t with
  | nil =>
    have hle : t.toNat ≤ TransactionId.last.toNat := TransactionId.toNat_le_last
    rw [lastId_nil, List.length_nil]
    omega
  | cons r records ih =>
    rw [checkSequence] at h
    split at h
    · next hid =>
      rw [lastId_cons, ih h, hid, TransactionId.toNat_next_eq_min, List.length_cons]
      omega
    · cases h

/-- Below the largest id, what follows an id is later. -/
theorem lt_of_checkSequence (h : checkSequence t records = .ok ()) (ht : t ≠ .last)
    {r : Transaction V} (hr : r ∈ records) : t.toNat < r.id.toNat := by
  have hmem := List.mem_map_of_mem (f := fun r : Transaction V => r.id.toNat) hr
  rw [checkSequence_eq_ok_iff.mp h] at hmem
  obtain ⟨n, hn, hid⟩ := List.mem_map.mp hmem
  have hle : t.toNat ≤ TransactionId.last.toNat := TransactionId.toNat_le_last
  have hne : t.toNat ≠ TransactionId.last.toNat := fun he => ht (TransactionId.toNat_inj.mp he)
  have hlt := (List.mem_range'_1.mp hn).1
  rw [← hid]
  omega

end Sequence

namespace Store

variable {V : Type} {s : Store V} {t : TransactionId}

/-! ## Histories -/

/-- Commit the transactions of a history, each given by its requests. -/
def run (s : Store V) (history : List (List (Request V))) : Store V :=
  history.foldl (fun s requests => (s.transact requests).2.2) s

theorem run_concat {history : List (List (Request V))} {requests : List (Request V)} :
    s.run (history ++ [requests]) = ((s.run history).transact requests).2.2 := by
  rw [run, List.foldl_append, run]
  rfl

/-- The log goes up to the last id, which counts the transactions as far as ids go. -/
structure Sound (s : Store V) : Prop where
  id_le : ∀ r ∈ s.log, (compare r.id s.last).isLE
  toNat_last : s.last.toNat = min s.log.length TransactionId.last.toNat

theorem Sound.empty : (Store.empty : Store V).Sound where
  id_le r hr := by cases hr
  toNat_last := rfl

theorem Sound.commit (h : s.Sound) (d : Draft V) : (s.commit d).2.Sound where
  id_le r hr := by
    rw [TransactionId.isLE_compare_iff]
    have hnext : (s.commit d).2.last.toNat = min (s.last.toNat + 1) TransactionId.last.toNat :=
      TransactionId.toNat_next_eq_min
    rcases List.mem_append.mp hr with hr | hr
    · have hle := TransactionId.isLE_compare_iff.mp (h.id_le r hr)
      have hmax : s.last.toNat ≤ TransactionId.last.toNat := TransactionId.toNat_le_last
      omega
    · rw [List.mem_singleton.mp hr]
      exact Nat.le_refl _
  toNat_last := by
    have hlength : (s.commit d).2.log.length = s.log.length + 1 := List.length_append
    have hnext : (s.commit d).2.last.toNat = min (s.last.toNat + 1) TransactionId.last.toNat :=
      TransactionId.toNat_next_eq_min
    rw [hnext, hlength, h.toNat_last]
    omega

theorem Sound.run (h : s.Sound) (history : List (List (Request V))) : (s.run history).Sound := by
  induction history using List.reverseRecOn with
  | nil => exact h
  | append_singleton history requests ih =>
    rw [run_concat]
    exact ih.commit _

theorem length_log_run (history : List (List (Request V))) :
    (s.run history).log.length = s.log.length + history.length := by
  induction history using List.reverseRecOn with
  | nil => rfl
  | append_singleton history requests ih =>
    have hlog : (s.run (history ++ [requests])).log.length = (s.run history).log.length + 1 := by
      rw [run_concat]
      exact List.length_append
    rw [hlog, ih, List.length_append, List.length_singleton, Nat.add_assoc]

/-! ## The transactions after an id -/

theorem pendingSince_last (h : s.Sound) : s.pendingSince s.last = [] :=
  List.dropWhile_eq_nil_iff.mpr h.id_le

theorem pendingSince_max : s.pendingSince .last = [] :=
  List.dropWhile_eq_nil_iff.mpr fun _ _ =>
    TransactionId.isLE_compare_iff.mpr TransactionId.toNat_le_last

/-- The transactions after an id lead from there to the last one. -/
structure Continues (s : Store V) (t : TransactionId) : Prop where
  sequence : checkSequence t (s.pendingSince t) = .ok ()
  lastId_eq : lastId t (s.pendingSince t) = s.last

theorem Sound.continues (h : s.Sound) : s.Continues s.last where
  sequence := by rw [pendingSince_last h]; rfl
  lastId_eq := by rw [pendingSince_last h]; rfl

/-- A commit comes last, except that nothing comes after the largest id. -/
theorem Continues.pendingSince_commit (h : s.Continues t) (d : Draft V) :
    (s.commit d).2.pendingSince t =
      if t = .last then [] else s.pendingSince t ++ [(s.commit d).1] := by
  split
  · next ht => rw [ht, pendingSince_max]
  · next ht =>
    have hlog : (s.commit d).2.pendingSince t =
        (s.log ++ [(s.commit d).1]).dropWhile fun r => (compare r.id t).isLE := rfl
    rw [hlog, List.dropWhile_append]
    split
    · next hnil =>
      -- nothing was pending, so that the new id comes right after `t`
      have hpending : s.pendingSince t = [] := List.isEmpty_iff.mp hnil
      have hlast := h.lastId_eq
      rw [hpending, lastId_nil] at hlast
      have hid : (s.commit d).1.id = t.next := by rw [hlast]; rfl
      rw [hpending, List.nil_append, List.dropWhile_cons_of_neg]
      rw [TransactionId.isLE_compare_iff, hid, TransactionId.toNat_next ht]
      omega
    · rfl

/-- Nothing goes on after the largest id. -/
theorem Continues.last_eq (h : s.Continues .last) : s.last = .last := by
  have hlast := h.lastId_eq
  rw [pendingSince_max, lastId_nil] at hlast
  exact hlast.symm

theorem Continues.commit (h : s.Continues t) (d : Draft V) : (s.commit d).2.Continues t := by
  by_cases ht : t = .last
  · subst ht
    have hnext : (s.commit d).2.last = s.last.next := rfl
    rw [h.last_eq, TransactionId.next_last] at hnext
    constructor
    · rw [pendingSince_max]
      rfl
    · rw [pendingSince_max, hnext]
      rfl
  · have hid : (s.commit d).1.id = s.last.next := rfl
    constructor
    · rw [h.pendingSince_commit, if_neg ht]
      exact checkSequence_concat h.sequence (by rw [h.lastId_eq, hid])
    · rw [h.pendingSince_commit, if_neg ht, lastId_concat]
      rfl

end Store

end GroupedView
