import GroupedView.Minimize
import Mathlib.Data.List.Sublists

/-!
# GroupedView.Proofs.Minimize — what is left of a list that fails cannot be cut down by one element

Let a test be a plain function of the list.  `Tried` says what the attempts on some candidates come
to, and `Reduced` what a list is cut down to.  Both come with the course of the attempts: `Descent`
goes from length to length along those that are accepted.

* `mem_removals_eraseIdx`: when there are as many chunks as elements, a list was tried without each
  of its elements.
* `minimize_minimal`: the list that is left is a sublist that fails, and none of its elements can be
  left out, whatever the test; the attempts lead to it, and the tests made are counted.
-/

namespace GroupedView

/-! ## The course of the attempts -/

/-- The attempts on the way from one length to another.  Each is made at the length reached by then,
on a shorter list, and if it is accepted it leads on to the length of that list. -/
inductive Descent : Nat → List Attempt → Nat → Prop
  | stay (n : Nat) : Descent n [] n
  | rejected {r : Reduction} {n k l : Nat} {ts : List Attempt} : k < n → Descent n ts l →
      Descent n (⟨r, n, k, false⟩ :: ts) l
  | accepted {r : Reduction} {n k l : Nat} {ts : List Attempt} : k < n → Descent k ts l →
      Descent n (⟨r, n, k, true⟩ :: ts) l

/-- The length of the list after some attempts. -/
def lengthReached (n : Nat) (ts : List Attempt) : Nat :=
  ts.foldl (fun n t => if t.accepted then t.lengthAfter else n) n

namespace Descent

variable {n k l : Nat} {ts us : List Attempt}

theorem append (h : Descent n ts k) (h' : Descent k us l) : Descent n (ts ++ us) l := by
  induction h with
  | stay n => exact h'
  | rejected hlt _ ih => exact (ih h').rejected hlt
  | accepted hlt _ ih => exact (ih h').accepted hlt

theorem lengthReached_eq (h : Descent n ts l) : lengthReached n ts = l := by
  induction h with
  | stay n => rfl
  | rejected _ _ ih => exact ih
  | accepted _ _ ih => exact ih

theorem lengthAfter_lt (h : Descent n ts l) : ∀ t ∈ ts, t.lengthAfter < t.lengthBefore := by
  induction h with
  | stay n => exact fun _ ht => absurd ht List.not_mem_nil
  | rejected hlt _ ih => exact List.forall_mem_cons.mpr ⟨hlt, ih⟩
  | accepted hlt _ ih => exact List.forall_mem_cons.mpr ⟨hlt, ih⟩

/-- Each attempt is made at the length that the attempts before it lead to. -/
theorem lengthBefore_eq (h : Descent n ts l) {before after : List Attempt} {t : Attempt}
    (hts : ts = before ++ t :: after) : t.lengthBefore = lengthReached n before := by
  induction h generalizing before with
  | stay n => cases before <;> cases hts
  | rejected hlt _ ih =>
    cases before with
    | nil =>
      cases hts
      rfl
    | cons u before =>
      obtain ⟨rfl, hrest⟩ := List.cons.inj hts
      have hreached := ih hrest
      exact hreached
  | accepted hlt _ ih =>
    cases before with
    | nil =>
      cases hts
      rfl
    | cons u before =>
      obtain ⟨rfl, hrest⟩ := List.cons.inj hts
      exact ih hrest

end Descent

/-! ## Candidates -/

section Candidates

variable {α : Type} {size length n : Nat} {xs c : List α}

theorem sublist_of_mem_removals (h : c ∈ removals size xs) : c.Sublist xs := by
  obtain ⟨i, -, rfl⟩ := List.mem_map.mp h
  calc xs.take i ++ xs.drop (i + size)
    _ |>.Sublist (xs.take i ++ xs.drop i) := by
      rw [← List.drop_drop]
      exact (List.drop_sublist _ _).append_left _
    _ = xs := List.take_append_drop i xs

theorem sublist_of_mem_retentions (h : c ∈ retentions size xs) : c.Sublist xs := by
  obtain ⟨i, -, rfl⟩ := List.mem_map.mp (List.mem_filter.mp h).1
  exact (List.take_sublist _ _).trans (List.drop_sublist _ _)

/-- With as many chunks as elements each chunk has one element. -/
theorem chunkSize_eq_one (hl : 0 < length) (hn : length ≤ n) : chunkSize length n = 1 := by
  rw [chunkSize, show length + n - 1 = (length - 1) + n by omega,
    Nat.add_div_right _ (by omega), Nat.div_eq_of_lt (by omega)]

theorem mem_removals_eraseIdx {i : Nat} (hi : i < xs.length) :
    xs.eraseIdx i ∈ removals 1 xs := by
  refine List.mem_map.mpr ⟨i, ?_, (List.eraseIdx_eq_take_drop_succ xs i).symm⟩
  exact List.mem_filter.mpr ⟨List.mem_range.mpr hi, by rw [Nat.mod_one]; rfl⟩

end Candidates

/-! ## Tests made -/

section Makes

variable {α β γ : Type} {fails : List α → Bool}

/-- The program returns `b` and makes `n` tests. -/
def Makes (x : StateM Nat β) (b : β) (n : Nat) : Prop := ∀ k, x.run k = (b, k + n)

theorem Makes.pure (b : β) : Makes (pure b) b 0 := fun _ => rfl

theorem Makes.bind {x : StateM Nat β} {f : β → StateM Nat γ} {b : β} {c : γ} {m n : Nat}
    (h : Makes x b m) (h' : Makes (f b) c n) : Makes (x >>= f) c (m + n) := fun k =>
  calc (x >>= f).run k
    _ = (f b).run (k + m) := by
      rw [StateT.run_bind, h k]
      rfl
    _ = (c, k + (m + n)) := by rw [h' (k + m), Nat.add_assoc]

theorem Makes.bind_pure {x : StateM Nat β} {f : β → StateM Nat γ} {b : β} {c : γ} {n : Nat}
    (h : Makes x b n) (hf : f b = Pure.pure c) : Makes (x >>= f) c n := by
  refine h.bind (n := 0) ?_
  rw [hf]
  exact .pure c

theorem makes_counted (c : List α) : Makes (counted fails c) (fails c) 1 := fun _ => rfl

end Makes

/-! ## Attempts on candidates -/

section Tried

variable {α : Type} {length : Nat}

/-- What attempts on some candidates come to: none of them fails, or one that fails is found. -/
inductive Tried (fails : List α → Bool) (length : Nat) (cs : List (List α)) :
    List Attempt → Option (Shorter α length) → Prop
  | none {ts : List Attempt} : (∀ c ∈ cs, fails c = false) → Descent length ts length →
      Tried fails length cs ts none
  | some {ts : List Attempt} {c : Shorter α length} : c.1 ∈ cs → fails c.1 = true →
      Descent length ts c.1.length → Tried fails length cs ts (some c)

/-- Candidates are tried in order, with one test for each attempt. -/
theorem exists_tryEach (fails : List α → Bool) (reduction : Reduction)
    (cs : List (Shorter α length)) :
    ∃ ts found, Makes (tryEach (counted fails) reduction cs) (ts, found) ts.length ∧
      Tried fails length (cs.map Subtype.val) ts found := by
  induction cs with
  | nil =>
    refine ⟨[], .none, .pure _, .none ?_ (.stay length)⟩
    exact fun _ hc => absurd hc List.not_mem_nil
  | cons c cs ih =>
    cases hc : fails c.1 with
    | true =>
      refine ⟨[⟨reduction, length, c.1.length, true⟩], .some c, ?_, ?_⟩
      · rw [tryEach]
        refine (makes_counted c.1).bind_pure ?_
        rw [hc]
        rfl
      · exact .some List.mem_cons_self hc ((Descent.stay _).accepted c.2)
    | false =>
      obtain ⟨ts, found, hmakes, htried⟩ := ih
      refine ⟨⟨reduction, length, c.1.length, false⟩ :: ts, found, ?_, ?_⟩
      · rw [tryEach, List.length_cons, Nat.add_comm]
        refine (makes_counted c.1).bind ?_
        rw [hc]
        exact hmakes.bind_pure rfl
      · cases htried with
        | none hnone hdescent =>
          exact .none (List.forall_mem_cons.mpr ⟨hc, hnone⟩) (hdescent.rejected c.2)
        | some hmem hfails hdescent =>
          exact .some (List.mem_cons_of_mem _ hmem) hfails (hdescent.rejected c.2)

/-- The removals are tried, and the retentions after them. -/
theorem exists_tryChunks (fails : List α → Bool) (xs : List α) {size : Nat} (hs : 0 < size) :
    ∃ ts found, Makes (tryChunks (counted fails) xs size hs) (ts, found) ts.length ∧
      Tried fails xs.length (removals size xs ++ retentions size xs) ts found := by
  obtain ⟨ts, found, hmakes, htried⟩ := exists_tryEach fails .removal
    ((removals size xs).attachWith (·.length < xs.length) fun _ => length_lt_of_mem_removals hs)
  rw [List.attachWith_map_subtype_val] at htried
  cases htried with
  | @some c hmem hfails hdescent =>
    refine ⟨ts, .some c, ?_, .some (List.mem_append_left _ hmem) hfails hdescent⟩
    exact hmakes.bind_pure rfl
  | none hnone hdescent =>
    obtain ⟨us, found, hmakes', htried⟩ := exists_tryEach fails .retention
      ((retentions size xs).attachWith (·.length < xs.length) fun _ => length_lt_of_mem_retentions)
    rw [List.attachWith_map_subtype_val] at htried
    refine ⟨ts ++ us, found, ?_, ?_⟩
    · rw [List.length_append]
      exact hmakes.bind (hmakes'.bind_pure rfl)
    · cases htried with
      | none hnone' hdescent' =>
        exact .none (List.forall_mem_append.mpr ⟨hnone, hnone'⟩) (hdescent.append hdescent')
      | some hmem hfails hdescent' =>
        exact .some (List.mem_append_right _ hmem) hfails (hdescent.append hdescent')

end Tried

/-! ## Cutting down -/

section Reduced

variable {α : Type} {fails : List α → Bool}

/-- What a list is cut down to: a sublist of it that fails while each of its elements matters, by
attempts that lead to its length. -/
structure Reduced (fails : List α → Bool) (xs : List α) (ts : List Attempt) (result : List α) :
    Prop where
  sublist : result.Sublist xs
  failing : fails result = true
  minimal : ∀ i < result.length, fails (result.eraseIdx i) = false
  descent : Descent xs.length ts result.length

/-- The empty list has nothing to remove. -/
theorem Reduced.nil (h : fails [] = true) : Reduced fails [] [] [] where
  sublist := .slnil
  failing := h
  minimal := fun _ hi => absurd hi (Nat.not_lt_zero _)
  descent := .stay 0

/-- A list is done when no attempt succeeds with as many chunks as elements. -/
theorem Reduced.of_none {xs : List α} {ts : List Attempt} (hfails : fails xs = true)
    (hnone : ∀ c ∈ removals 1 xs, fails c = false) (hdescent : Descent xs.length ts xs.length) :
    Reduced fails xs ts xs where
  sublist := .refl xs
  failing := hfails
  minimal := fun _ hi => hnone _ (mem_removals_eraseIdx hi)
  descent := hdescent

/-- Attempts that come first. -/
theorem Reduced.after {xs c result : List α} {ts us : List Attempt} (h : Reduced fails c us result)
    (hsublist : c.Sublist xs) (hdescent : Descent xs.length ts c.length) :
    Reduced fails xs (ts ++ us) result where
  sublist := h.sublist.trans hsublist
  failing := h.failing
  minimal := h.minimal
  descent := hdescent.append h.descent

/-- A list that fails is cut down, with one test for each attempt. -/
theorem exists_reduce (xs : List α) (n : Nat) (hn : 2 ≤ n) (hfails : fails xs = true) :
    ∃ result ts, Makes (reduce (counted fails) xs n hn) (result, ts) ts.length ∧
      Reduced fails xs ts result := by
  rw [reduce]
  split
  case isTrue hx =>
    subst hx
    exact ⟨[], [], .pure _, .nil hfails⟩
  case isFalse hx =>
    have hpos : 0 < xs.length := List.length_pos_iff.mpr hx
    obtain ⟨ts, found, hmakes, htried⟩ := exists_tryChunks fails xs
      (chunkSize_pos hpos (Nat.lt_of_lt_of_le Nat.two_pos hn))
    cases htried with
    | @some c hmem hc hdescent =>
      have hsublist : c.1.Sublist xs :=
        (List.mem_append.mp hmem).elim sublist_of_mem_removals sublist_of_mem_retentions
      have hlt : c.1.length < xs.length := c.2
      obtain ⟨result, us, hmakes', hreduced⟩ := exists_reduce c.1 2 (Nat.le_refl 2) hc
      refine ⟨result, ts ++ us, ?_, hreduced.after hsublist hdescent⟩
      rw [List.length_append]
      exact hmakes.bind (hmakes'.bind_pure rfl)
    | none hnone hdescent =>
      by_cases hd : xs.length ≤ n
      · -- The chunks have one element each, so each element was left out once.
        refine ⟨xs, ts, hmakes.bind_pure (dif_pos hd), .of_none hfails (fun c hc => ?_) hdescent⟩
        refine hnone c ?_
        rw [chunkSize_eq_one hpos hd]
        exact List.mem_append_left _ hc
      · obtain ⟨result, us, hmakes', hreduced⟩ :=
          exists_reduce xs (min (n * 2) xs.length) (by omega) hfails
        refine ⟨result, ts ++ us, ?_, hreduced.after (.refl xs) hdescent⟩
        rw [List.length_append]
        refine hmakes.bind ?_
        dsimp only
        rw [dif_neg hd]
        exact hmakes'.bind_pure rfl
termination_by (xs.length, xs.length - n)
decreasing_by
  · exact Prod.Lex.right _ (by omega)
  · exact Prod.Lex.left _ _ hlt

end Reduced

variable {α : Type} {fails : List α → Bool} {input : List α}

theorem minimize_of_not_fails (h : fails input = false) :
    minimize fails input = ⟨input, [], 1⟩ := by
  have hmakes : Makes (reduceFailing (counted fails) input) (input, []) 1 := by
    refine (makes_counted input).bind_pure ?_
    rw [h]
    rfl
  rw [minimize, hmakes 0]

/-- A list that fails is tested once before it is cut down. -/
theorem exists_minimize (h : fails input = true) :
    ∃ result ts, minimize fails input = ⟨result, ts, ts.length + 1⟩ ∧
      Reduced fails input ts result := by
  obtain ⟨result, ts, hmakes, hreduced⟩ := exists_reduce input 2 (Nat.le_refl 2) h
  have hmakes' : Makes (reduceFailing (counted fails) input) (result, ts) (1 + ts.length) := by
    refine (makes_counted input).bind ?_
    rw [h]
    exact hmakes
  refine ⟨result, ts, ?_, hreduced⟩
  rw [minimize, hmakes' 0, Nat.zero_add, Nat.add_comm]

/-- **What is left is minimal.**  A list that does not fail is returned as it is, after one test.  A
list that fails is cut down to a sublist that fails and of which no element can be left out,
whatever the test.  Each attempt is one test of a shorter list, made at the length that the accepted
attempts before it lead to; all of them lead to the length of what is left. -/
theorem minimize_minimal (fails : List α → Bool) (input : List α) :
    (fails input = false → minimize fails input = ⟨input, [], 1⟩) ∧
      (fails input = true →
        (minimize fails input).result.Sublist input ∧
          fails (minimize fails input).result = true ∧
          ∀ i < (minimize fails input).result.length,
            fails ((minimize fails input).result.eraseIdx i) = false) ∧
      (∀ t ∈ (minimize fails input).attempts, t.lengthAfter < t.lengthBefore) ∧
      (∀ before t after, (minimize fails input).attempts = before ++ t :: after →
        t.lengthBefore = lengthReached input.length before) ∧
      lengthReached input.length (minimize fails input).attempts =
        (minimize fails input).result.length ∧
      (minimize fails input).calls = (minimize fails input).attempts.length + 1 := by
  cases h : fails input with
  | false =>
    rw [minimize_of_not_fails h]
    refine ⟨fun _ => rfl, fun h => absurd h Bool.false_ne_true, ?_, fun before t after hts => ?_,
      rfl, rfl⟩
    · exact fun _ ht => absurd ht List.not_mem_nil
    · cases before <;> cases hts
  | true =>
    obtain ⟨result, ts, heq, hreduced⟩ := exists_minimize h
    rw [heq]
    exact ⟨fun h => absurd h.symm Bool.false_ne_true,
      fun _ => ⟨hreduced.sublist, hreduced.failing, hreduced.minimal⟩,
      hreduced.descent.lengthAfter_lt, fun _ _ _ hts => hreduced.descent.lengthBefore_eq hts,
      hreduced.descent.lengthReached_eq, rfl⟩

/-- The one element that matters is what is left, whatever the course of the attempts. -/
theorem minimize_contains_seven :
    [3, 7, 5].contains 7 = true ∧ (minimize (·.contains 7) [3, 7, 5]).result = [7] := by
  obtain ⟨hsublist, hfails, hminimal⟩ :=
    (minimize_minimal (·.contains 7) [3, 7, 5]).2.1 (by decide)
  -- Of the eight sublists only one holds the element and nothing that can be left out.
  have hone : ∀ c ∈ [3, 7, 5].sublists, c.contains 7 = true →
      (∀ i < c.length, (c.eraseIdx i).contains 7 = false) → c = [7] := by decide
  exact ⟨by decide, hone _ (List.mem_sublists.mpr hsublist) hfails hminimal⟩

end GroupedView
