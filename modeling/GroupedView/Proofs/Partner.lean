import GroupedView.Partner

/-!
# GroupedView.Proofs.Partner — what the operations of a registry do

* The entries of each key after an operation are `followers_register` and `followers_retain`; a
  registry is `Tidy` if no key is left without entries.
* `Registry.concerned` lists whom a change concerns, and `deliver_eq` says that a pass calls those
  of them who are alive, whatever the calls do.
-/

open Std

namespace GroupedView

namespace Registry

variable {P : Type} (r : Registry P)

/-! ## Entries -/

theorem mem_toList_entries {k : ItemKey} {l : List (PartnerEntry P)} :
    (k, l) ∈ r.entries.toList ↔ r.entries[k]? = some l :=
  ExtTreeMap.mem_toList_iff_getElem?_eq_some

@[simp] theorem followers_empty (k : ItemKey) : ({} : Registry P).followers k = [] := by
  rw [followers, ExtTreeMap.getElem?_empty, Option.getD_none]

theorem mem_followers_iff {k : ItemKey} {e : PartnerEntry P} :
    e ∈ r.followers k ↔ ∃ l, r.entries[k]? = some l ∧ e ∈ l := by
  rw [followers]
  cases r.entries[k]? with
  | none => simp
  | some l => simp

theorem followers_register (k k' : ItemKey) (p : P) :
    (r.register k p).2.followers k' =
      if k = k' then r.followers k ++ [⟨(r.register k p).1, p⟩] else r.followers k' := by
  rw [followers, register, ExtTreeMap.getElem?_insert]
  simp only [LawfulEqCmp.compare_eq_iff_eq]
  split <;> rfl

theorem followers_retain (test : PartnerEntry P → Bool) (k : ItemKey) :
    (r.retain test).followers k = (r.followers k).filter test := by
  rw [followers, followers, retain, ExtTreeMap.getElem?_filterMap']
  cases r.entries[k]? with
  | none => rfl
  | some l =>
    simp only [Option.bind_some, Option.getD_some]
    split
    case isTrue h => rw [List.isEmpty_iff.mp h, Option.getD_none]
    case isFalse h => rw [Option.getD_some]

/-- No followed key is without entries. -/
def Tidy (r : Registry P) : Prop := ∀ k : ItemKey, r.entries[k]? ≠ some []

theorem tidy_empty : ({} : Registry P).Tidy := by
  intro k h
  rw [ExtTreeMap.getElem?_empty] at h
  cases h

theorem total_eq_zero_iff {f : List (PartnerEntry P) → Nat} :
    r.total f = 0 ↔
      ∀ (k : ItemKey) (l : List (PartnerEntry P)), r.entries[k]? = some l → f l = 0 := by
  have hfoldr (xs : List (ItemKey × List (PartnerEntry P))) :
      xs.foldr (fun x n => f x.2 + n) 0 = 0 ↔ ∀ x ∈ xs, f x.2 = 0 := by
    induction xs with
    | nil => simp
    | cons x xs ih => rw [List.foldr_cons, Nat.add_eq_zero_iff, ih, List.forall_mem_cons]
  rw [total, hfoldr, Prod.forall]
  simp only [mem_toList_entries]

variable {r}

theorem Tidy.register (h : r.Tidy) (k : ItemKey) (p : P) : (r.register k p).2.Tidy := by
  intro k'
  rw [Registry.register, ExtTreeMap.getElem?_insert]
  split
  · simp
  · exact h k'

theorem Tidy.isEmpty_iff (h : r.Tidy) : r.isEmpty = true ↔ r.size = 0 := by
  rw [isEmpty, ← ExtTreeMap.isEmpty_toList, List.isEmpty_iff, List.eq_nil_iff_forall_not_mem, size,
    total_eq_zero_iff, Prod.forall]
  simp only [mem_toList_entries]
  constructor
  · intro hnone k l hl
    exact absurd hl (hnone k l)
  · intro hzero k l hl
    rw [List.length_eq_zero_iff.mp (hzero k l hl)] at hl
    exact h k hl

variable (r)

theorem tidy_retain (test : PartnerEntry P → Bool) : (r.retain test).Tidy := by
  intro k
  rw [retain, ExtTreeMap.getElem?_filterMap']
  cases r.entries[k]? with
  | none => simp
  | some l =>
    simp only [Option.bind_some]
    split
    case isTrue h => simp
    case isFalse h =>
      intro hnil
      exact h (List.isEmpty_iff.mpr (Option.some.inj hnil))

theorem countFailing_eq_zero_iff (test : PartnerEntry P → Bool) :
    r.countFailing test = 0 ↔ ∀ k, ∀ e ∈ r.followers k, test e = true := by
  have hkept (l : List (PartnerEntry P)) :
      l.length - (l.filter test).length = 0 ↔ ∀ e ∈ l, test e = true := by
    rw [Nat.sub_eq_zero_iff_le, ← List.length_filter_eq_length_iff]
    exact ⟨Nat.le_antisymm (List.length_filter_le test l), fun h => Nat.le_of_eq h.symm⟩
  rw [countFailing, total_eq_zero_iff]
  simp only [hkept, mem_followers_iff]
  exact ⟨fun h k e ⟨l, hl, he⟩ => h k l hl e he, fun h k l hl e he => h k e ⟨l, hl, he⟩⟩

theorem unregister_fst_iff (id : PartnerId) :
    (r.unregister id).1 = true ↔ ∃ k, ∃ e ∈ r.followers k, e.id = id := by
  rw [unregister, decide_eq_true_iff, ne_eq, countFailing_eq_zero_iff]
  simp

/-! ## Delivery -/

/-- The partners that a change concerns, dead ones included, in the order of their registration:
those who follow the row that moves or has a new value. -/
def concerned (c : Change) : List (Notice P) :=
  match c with
  | .ofRow .move k _ _ | .ofRow .update k _ _ => (r.followers k).map fun e => ⟨e.partner, k, c⟩
  | .ofRow .insert .. | .ofRow .delete .. | .ofSection .. => []

/-- All that a pass over a change list meets, in order. -/
def met (changes : ChangeList) : List (Notice P) := changes.changes.flatMap r.concerned

/-- What a pass calls: those it meets who are alive. -/
def calls (alive : P → Bool) (changes : ChangeList) : List (Notice P) :=
  (r.met changes).filter (alive ·.partner)

/-- The registry after a pass.  It changes only if the pass met someone who is dead. -/
def afterPass (alive : P → Bool) (changes : ChangeList) : Registry P :=
  if (r.met changes).all (alive ·.partner) then r else r.retain (alive ·.partner)

theorem afterPass_of_alive {alive : P → Bool} {changes : ChangeList}
    (h : ∀ n ∈ r.met changes, alive n.partner = true) : r.afterPass alive changes = r :=
  if_pos (List.all_eq_true.mpr h)

theorem afterPass_of_dead {alive : P → Bool} {changes : ChangeList}
    (h : ∃ n ∈ r.met changes, alive n.partner = false) :
    r.afterPass alive changes = r.retain (alive ·.partner) := by
  obtain ⟨n, hn, hdead⟩ := h
  refine if_neg fun hall => ?_
  rw [List.all_eq_true.mp hall n hn] at hdead
  cases hdead

section Pass

variable {m : Type → Type} [Monad m] [LawfulMonad m] (alive : P → Bool) (call : Notice P → m Unit)

omit [LawfulMonad m] in
theorem tell_eq (pass : Pass) (c : Change) :
    r.tell alive call pass c = (r.concerned c).foldlM (meet alive call) pass := by
  cases c with
  | ofSection => rfl
  | ofRow edit k =>
    cases edit with
    | insert | delete => rfl
    | update | move =>
      simp only [tell, Change.followed?, concerned, followers]
      cases r.entries[k]? with
      | none => rfl
      | some l => simp only [Option.getD_some, List.foldlM_map]

theorem foldlM_tell (changes : List Change) (pass : Pass) :
    changes.foldlM (r.tell alive call) pass =
      (changes.flatMap r.concerned).foldlM (meet alive call) pass := by
  induction changes generalizing pass with
  | nil => rfl
  | cons c cs ih =>
    rw [List.foldlM_cons, List.flatMap_cons, List.foldlM_append, tell_eq]
    simp only [ih]

/-- What is met is called if it is alive, and noted if it is dead. -/
theorem foldlM_meet (notices : List (Notice P)) (pass : Pass) :
    notices.foldlM (meet alive call) pass = do
      (notices.filter (alive ·.partner)).forM call
      return ⟨pass.delivered + (notices.filter (alive ·.partner)).length,
        pass.metDead || !notices.all (alive ·.partner)⟩ := by
  induction notices generalizing pass with
  | nil => simp
  | cons n ns ih =>
    rw [List.foldlM_cons, meet]
    cases h : alive n.partner with
    | true => simp [ih, h, Nat.add_assoc, Nat.add_comm 1]
    | false => simp [ih, h]

/-- A pass makes its calls, whatever they do, and tells how many they are. -/
theorem deliver_eq (changes : ChangeList) :
    r.deliver alive call changes = do
      (r.calls alive changes).forM call
      return ((r.calls alive changes).length, r.afterPass alive changes) := by
  rw [deliver, foldlM_tell, foldlM_meet, calls, afterPass, ← met]
  cases (r.met changes).all (alive ·.partner) <;> simp [prune]

end Pass

theorem forM_note (notices seen : List (Notice P)) :
    (notices.forM note).run seen = (⟨⟩, seen ++ notices) := by
  induction notices generalizing seen with
  | nil => rw [List.append_nil]; rfl
  | cons n ns ih =>
    calc ((n :: ns).forM note).run seen
      _ = (ns.forM note).run (seen ++ [n]) := rfl
      _ = (⟨⟩, seen ++ n :: ns) := by rw [ih, List.append_assoc, List.singleton_append]

theorem notify_eq (alive : P → Bool) (changes : ChangeList) :
    r.notify alive changes = (r.calls alive changes, r.afterPass alive changes) := by
  rw [notify, deliver_eq, StateT.run_bind, forM_note]
  rfl

end Registry

end GroupedView
