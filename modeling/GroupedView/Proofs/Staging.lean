import GroupedView.Store

/-!
# GroupedView.Proofs.Staging — a transaction that stages its changes

A `Draft` changes the items as it goes.  A `Staging` leaves the committed items alone and keeps a
table of what it changed, one entry for each key however often it was written; reads look there
first, and the table is carried over to the items at the end.  Both answer alike, note the same
mutations and lead to the same items (`Store.transactStaged_eq`).
-/

open Std

namespace GroupedView

/-- A transaction in progress that stages its changes.  A staged key without a value is one that is
taken away. -/
structure Staging (V : Type) where
  committed : ItemMap V
  staged : ItemMap (Option V) := ∅
  mutations : List (Mutation V) := []

namespace Staging

variable {V : Type}

section

variable (d : Staging V)

/-- The value of a key, from the staged changes if it is among them. -/
def get? (k : ItemKey) : Option V :=
  match d.staged[k]? with
  | some change => change
  | none => d.committed[k]?

/-- Whether a key has a value. -/
def contains (k : ItemKey) : Bool := (d.get? k).isSome

/-- Stage a change of a key and note the mutation. -/
def stage (k : ItemKey) (change : Option V) (mu : Mutation V) : Staging V where
  committed := d.committed
  staged := d.staged.insert k change
  mutations := d.mutations ++ [mu]

/-- Answer a request. -/
def perform : Request V → Reply V × Staging V
  | .set k v hint =>
    (.done, d.stage k (some v) (if d.contains k then .update k v true else .insert k v hint))
  | .touch k v =>
    if d.contains k then (.found true, d.stage k (some v) (.update k v false))
    else (.found false, d)
  | .remove k =>
    if d.contains k then (.found true, d.stage k none (.delete k)) else (.found false, d)
  | .get k => (.value (d.get? k), d)
  | .contains k => (.found (d.contains k), d)
  | .size => (.size d.mutations.length, d)

end

/-- Answer requests one after the other. -/
def performAll : Staging V → List (Request V) → List (Reply V) × Staging V
  | d, [] => ([], d)
  | d, r :: rest =>
    let (reply, next) := d.perform r
    let (replies, final) := performAll next rest
    (reply :: replies, final)

/-- Carry one staged change over to the items. -/
def carryOver (items : ItemMap V) : ItemKey × Option V → ItemMap V
  | (k, some v) => items.insert k v
  | (k, none) => items.erase k

/-- The items with all staged changes, carried over in the order of their keys. -/
def settled (d : Staging V) : ItemMap V := d.staged.toList.foldl carryOver d.committed

/-! ## Both representations agree -/

theorem getElem?_carryOver (items : ItemMap V) (x : ItemKey × Option V) (k : ItemKey) :
    (carryOver items x)[k]? = if k = x.1 then x.2 else items[k]? := by
  obtain ⟨k', change⟩ := x
  cases change with
  | some v => exact getElem?_map_insert
  | none => exact getElem?_map_erase

/-- Other keys keep what they have. -/
theorem getElem?_foldl_carryOver_of_not_mem {changes : List (ItemKey × Option V)} {k : ItemKey}
    (hk : k ∉ changes.map Prod.fst) (items : ItemMap V) :
    (changes.foldl carryOver items)[k]? = items[k]? := by
  induction changes generalizing items with
  | nil => rfl
  | cons x changes ih =>
    rw [List.foldl_cons, ih (List.not_mem_of_not_mem_cons hk), getElem?_carryOver,
      if_neg (List.ne_of_not_mem_cons hk)]

/-- With one change for each key, a key has what its change gives it. -/
theorem getElem?_foldl_carryOver_of_mem {changes : List (ItemKey × Option V)} {k : ItemKey}
    {change : Option V} (hnodup : (changes.map Prod.fst).Nodup) (hk : (k, change) ∈ changes)
    (items : ItemMap V) : (changes.foldl carryOver items)[k]? = change := by
  induction changes generalizing items with
  | nil => cases hk
  | cons x changes ih =>
    obtain ⟨hx, hrest⟩ := List.nodup_cons.mp hnodup
    rw [List.foldl_cons]
    rcases List.mem_cons.mp hk with rfl | hk
    · rw [getElem?_foldl_carryOver_of_not_mem hx, getElem?_carryOver, if_pos rfl]
    · exact ih hrest hk _

theorem getElem?_settled (d : Staging V) (k : ItemKey) : d.settled[k]? = d.get? k := by
  rw [settled, get?]
  cases hk : d.staged[k]? with
  | some change =>
    refine getElem?_foldl_carryOver_of_mem ?_
      (ExtTreeMap.mem_toList_iff_getElem?_eq_some.mpr hk) _
    rw [ExtTreeMap.map_fst_toList_eq_keys]
    exact ExtTreeMap.nodup_keys
  | none =>
    refine getElem?_foldl_carryOver_of_not_mem ?_ _
    rw [ExtTreeMap.map_fst_toList_eq_keys, ExtTreeMap.mem_keys]
    exact fun hin => by simp [ExtTreeMap.mem_iff_isSome_getElem?, hk] at hin

theorem get?_stage (d : Staging V) (k k' : ItemKey) (change : Option V) (mu : Mutation V) :
    (d.stage k change mu).get? k' = if k' = k then change else d.get? k' := by
  rw [get?, stage, getElem?_map_insert]
  by_cases hk : k' = k
  · rw [if_pos hk, if_pos hk]
  · rw [if_neg hk, if_neg hk, get?]

/-- A draft and a staging of the same transaction. -/
structure Matches (d : Draft V) (e : Staging V) : Prop where
  getElem?_eq : ∀ k : ItemKey, d.items[k]? = e.get? k
  mutations_eq : d.mutations = e.mutations

namespace Matches

variable {d : Draft V} {e : Staging V}

theorem contains_eq (h : Matches d e) (k : ItemKey) : d.items.contains k = e.contains k := by
  rw [ExtTreeMap.contains_eq_isSome_getElem?, h.getElem?_eq, contains]

theorem put (h : Matches d e) (k : ItemKey) (v : V) (mu : Mutation V) :
    Matches (d.put k v mu) (e.stage k (some v) mu) where
  getElem?_eq k' := by rw [get?_stage, ← h.getElem?_eq, Draft.put, getElem?_map_insert]
  mutations_eq := congrArg (· ++ [mu]) h.mutations_eq

theorem drop (h : Matches d e) (k : ItemKey) : Matches (d.drop k) (e.stage k none (.delete k)) where
  getElem?_eq k' := by rw [get?_stage, ← h.getElem?_eq, Draft.drop, getElem?_map_erase]
  mutations_eq := congrArg (· ++ [Mutation.delete k]) h.mutations_eq

theorem perform (h : Matches d e) (r : Request V) :
    (d.perform r).1 = (e.perform r).1 ∧ Matches (d.perform r).2 (e.perform r).2 := by
  cases r with
  | set k v hint =>
    rw [Draft.perform, Staging.perform, h.contains_eq]
    exact ⟨rfl, h.put k v _⟩
  | touch k v =>
    rw [Draft.perform, Staging.perform, h.contains_eq]
    split
    · exact ⟨rfl, h.put k v _⟩
    · exact ⟨rfl, h⟩
  | remove k =>
    rw [Draft.perform, Staging.perform, h.contains_eq]
    split
    · exact ⟨rfl, h.drop k⟩
    · exact ⟨rfl, h⟩
  | get k => exact ⟨congrArg Reply.value (h.getElem?_eq k), h⟩
  | contains k => exact ⟨congrArg Reply.found (h.contains_eq k), h⟩
  | size => exact ⟨congrArg (fun mus => Reply.size (List.length mus)) h.mutations_eq, h⟩

theorem performAll (h : Matches d e) (requests : List (Request V)) :
    (d.performAll requests).1 = (e.performAll requests).1 ∧
      Matches (d.performAll requests).2 (e.performAll requests).2 := by
  induction requests generalizing d e with
  | nil => exact ⟨rfl, h⟩
  | cons r rest ih =>
    obtain ⟨hreply, hnext⟩ := h.perform r
    obtain ⟨hreplies, hfinal⟩ := ih hnext
    exact ⟨congr (congrArg List.cons hreply) hreplies, hfinal⟩

theorem items_eq (h : Matches d e) : d.items = e.settled :=
  ExtTreeMap.ext_getElem? fun k => (h.getElem?_eq k).trans (e.getElem?_settled k).symm

end Matches

end Staging

/-- Run requests as one transaction that stages its changes. -/
def Store.transactStaged {V : Type} (s : Store V) (requests : List (Request V)) :
    List (Reply V) × Transaction V × Store V :=
  let (replies, d) := Staging.performAll ⟨s.items, ∅, []⟩ requests
  (replies, s.commit ⟨d.settled, d.mutations⟩)

/-- Staging makes no difference to the replies, to the log or to the items. -/
theorem Store.transactStaged_eq {V : Type} (s : Store V) (requests : List (Request V)) :
    s.transactStaged requests = s.transact requests := by
  have hstart : Staging.Matches (⟨s.items, []⟩ : Draft V) ⟨s.items, ∅, []⟩ :=
    ⟨fun k => by rw [Staging.get?, ExtTreeMap.getElem?_empty], rfl⟩
  obtain ⟨hreplies, hfinal⟩ := hstart.performAll requests
  have hdraft : (⟨(Staging.performAll ⟨s.items, ∅, []⟩ requests).2.settled,
      (Staging.performAll ⟨s.items, ∅, []⟩ requests).2.mutations⟩ : Draft V) =
      (Draft.performAll ⟨s.items, []⟩ requests).2 := by
    rw [← hfinal.items_eq, ← hfinal.mutations_eq]
  exact Prod.ext hreplies.symm (congrArg s.commit hdraft)

end GroupedView
