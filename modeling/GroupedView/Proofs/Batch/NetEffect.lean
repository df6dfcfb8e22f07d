import GroupedView.Proofs.Batch.Fold

/-!
# GroupedView.Proofs.Batch.NetEffect — the net changes of a batch lead from view to view

`NetChanges.Leads n pre post` says what a consumer of the changes `n` can rely on: each key is
named at most once, sources are positions before and targets positions after the batch, and in
every group the keys that no change takes away before are the keys that no change brings in after,
in the same order.  Whatever the arrangement answers, the changes of a batch lead from the view
before it to the view after it (`leads_of_canReturn_compute`), and its groups are those that got
their first rows or lost their last (`groups_of_canReturn_compute`).
-/

open Std
open MonadAttach (CanReturn)
open LawfulMonadAttach

namespace GroupedView

namespace NetChange

/-- Whether the row goes from its place. -/
def leaves : NetChange → Bool
  | delete .. | move .. => true
  | insert .. | update .. => false

/-- Whether the row comes to its place. -/
def arrives : NetChange → Bool
  | insert .. | move .. => true
  | delete .. | update .. => false

end NetChange

namespace NetChanges

/-- Whether some change takes the row of a key from its place. -/
def leaving (n : NetChanges) (k : ItemKey) : Bool := n.rows.any fun c => c.key = k && c.leaves

/-- Whether some change brings the row of a key to its place. -/
def arriving (n : NetChanges) (k : ItemKey) : Bool := n.rows.any fun c => c.key = k && c.arrives

/-- The changes lead from one view to another. -/
structure Leads {S : Type} (n : NetChanges) (pre post : View S) : Prop where
  keys_nodup : (n.rows.map NetChange.key).Nodup
  source_at : ∀ c ∈ n.rows, ∀ p, c.source? = some p → pre.keyAt? p = some c.key
  target_at : ∀ c ∈ n.rows, ∀ q, c.target? = some q → post.keyAt? q = some c.key
  filter_keys : ∀ g, (pre.keys g).filter (!n.leaving ·) = (post.keys g).filter (!n.arriving ·)
  lengthBefore_eq : ∀ g, n.lengthBefore g = pre.length g
  lengthAfter_eq : ∀ g, n.lengthAfter g = post.length g

end NetChanges

/-! ## The verdict on each key -/

section Verdicts

variable {S : Type} {pre : View S} {f : Fold S} {k : ItemKey} {g : GroupId}

/-- What the positions before and after say about a key; nothing is said of a key without a
note. -/
def Fold.verdict (f : Fold S) (k : ItemKey) : Verdict :=
  f.tracks[k]?.elim .unchanged fun t => classify k t (f.view.locate k)

/-- The verdicts on the keys with a note, in the order of keys. -/
def Fold.verdicts (f : Fold S) : List (ItemKey × Verdict) :=
  f.tracks.toList.map fun (k, t) => (k, classify k t (f.view.locate k))

/-- Whether a group kept the order of the rows that neither left nor arrived. -/
def Fold.stable (pre : View S) (f : Fold S) (g : GroupId) : Bool :=
  keepsOrder pre f.view f.verdicts g

/-- The change that a key is reported with. -/
def Fold.change? (pre : View S) (f : Fold S) (k : ItemKey) : Option NetChange :=
  (f.verdict k).settle (f.stable pre)

theorem Fold.mem_verdicts {d : Verdict} :
    (k, d) ∈ f.verdicts ↔ (∃ t, f.tracks[k]? = some t) ∧ f.verdict k = d := by
  rw [verdicts, List.mem_map]
  constructor
  · rintro ⟨⟨k', t⟩, ht, he⟩
    obtain ⟨rfl, rfl⟩ := Prod.mk.inj he
    rw [ExtTreeMap.mem_toList_iff_getElem?_eq_some] at ht
    exact ⟨⟨t, ht⟩, by rw [verdict, ht]; rfl⟩
  · rintro ⟨⟨t, ht⟩, rfl⟩
    refine ⟨(k, t), ExtTreeMap.mem_toList_iff_getElem?_eq_some.mpr ht, ?_⟩
    rw [verdict, ht]
    rfl

theorem Fold.contains_keysWhere (test : Verdict → Bool) (htest : test .unchanged = false) :
    (keysWhere test f.verdicts).contains k = test (f.verdict k) := by
  have hmem : (keysWhere test f.verdicts).contains k = true ↔ test (f.verdict k) = true := by
    rw [keysWhere, ExtTreeSet.contains_ofList, List.contains_iff_mem, List.mem_map]
    constructor
    · rintro ⟨⟨k', d⟩, hd, rfl⟩
      obtain ⟨hd, ht⟩ := List.mem_filter.mp hd
      obtain ⟨-, rfl⟩ := mem_verdicts.mp hd
      exact ht
    · intro ht
      refine ⟨(k, f.verdict k), List.mem_filter.mpr ⟨mem_verdicts.mpr ⟨?_, rfl⟩, ht⟩, rfl⟩
      rw [← Option.isSome_iff_exists]
      by_contra hnone
      rw [Option.not_isSome_iff_eq_none] at hnone
      rw [verdict, hnone] at ht
      exact absurd (htest.symm.trans ht) Bool.false_ne_true
  exact Bool.eq_iff_iff.mpr hmem

theorem Verdict.key_of_settle {t : Track} {target : Option Position} {stable : GroupId → Bool}
    {c : NetChange} (h : (classify k t target).settle stable = some c) : c.key = k := by
  unfold classify at h
  split at h
  · cases h
  · cases h; rfl
  · cases h; rfl
  · split at h
    · split at h <;> cases h
      rfl
    · split at h
      · cases h; rfl
      · unfold settle at h
        split at h
        · cases h
        · next he => cases he
        · next he =>
          cases he
          split at h
          · split at h <;> cases h
            rfl
          · cases h; rfl

theorem Fold.key_of_change? {c : NetChange} (h : f.change? pre k = some c) : c.key = k := by
  unfold change? verdict at h
  cases ht : f.tracks[k]? with
  | none => rw [ht] at h; cases h
  | some t => rw [ht] at h; exact Verdict.key_of_settle h

/-- A key that stands in a group on one side without having moved stands there on the other. -/
theorem Fold.Sound.mem_keys_iff_of_not_moved (h : f.Sound pre) (hk : f.moved k = false) :
    k ∈ pre.keys g ↔ k ∈ f.view.keys g := by
  have hmem : ∀ l : List ItemKey, k ∈ l.filter (!f.moved ·) ↔ k ∈ l := by
    intro l
    rw [List.mem_filter, hk]
    exact and_iff_left rfl
  rw [← hmem (pre.keys g), h.filter_keys g, hmem]

theorem Fold.Sound.locate_isSome_of_not_moved (h : f.Sound pre) (hpre : pre.WellFormed)
    (hk : f.moved k = false) : (pre.locate k).isSome = (f.view.locate k).isSome := by
  have hmem : ∀ v : View S, v.WellFormed → ((v.locate k).isSome = true ↔ ∃ g, k ∈ v.keys g) := by
    intro v hv
    rw [Option.isSome_iff_exists]
    constructor
    · rintro ⟨p, hp⟩
      exact ⟨p.group, View.mem_keys_iff.mpr ⟨p.index, hv.locate_eq_some_iff.mp hp⟩⟩
    · rintro ⟨g, hg⟩
      obtain ⟨i, hi⟩ := View.mem_keys_iff.mp hg
      exact ⟨_, hv.locate_eq_some_iff.mpr hi⟩
  rw [Bool.eq_iff_iff, hmem pre hpre, hmem f.view h.wellFormed]
  exact exists_congr fun g => h.mem_keys_iff_of_not_moved hk

/-- A row that is on one side only was taken out or put in. -/
theorem Fold.Sound.relocated_of_one_sided (h : f.Sound pre) (hpre : pre.WellFormed) {t : Track}
    (ht : f.tracks[k]? = some t) (hside : (pre.locate k).isSome ≠ (f.view.locate k).isSome) :
    t.relocated = true := by
  have hmoved : f.moved k = true := by
    by_contra hno
    exact hside (h.locate_isSome_of_not_moved hpre (Bool.eq_false_iff.mpr hno))
  rw [moved, ht] at hmoved
  exact hmoved

/-- A row that is on both sides leaves exactly if it arrives.  In a group that kept the order of the
other rows its verdict says whether it does; in another group it does if it was taken out. -/
theorem Verdict.any_settle_of_both {t : Track} {p q : Position} {stable : GroupId → Bool}
    (horigin : t.origin = some p) (hgroup : p = q → p.group = g) :
    (((classify k t (some q)).settle stable).any NetChange.leaves =
      if stable g then (classify k t (some q)).leaves else t.relocated) ∧
    ((classify k t (some q)).settle stable).any NetChange.arrives =
      if stable g then (classify k t (some q)).arrives else t.relocated := by
  cases hr : t.relocated with
  | false =>
    cases hf : t.refreshed <;>
      simp [classify, horigin, hr, hf, settle, leaves, NetChange.leaves, arrives, NetChange.arrives]
  | true =>
    by_cases hpq : p = q
    · have hg := hgroup hpq
      subst hpq
      subst hg
      cases hf : t.refreshed <;> cases hs : stable p.group <;>
        simp [classify, horigin, hr, hf, hs, settle, leaves, NetChange.leaves, arrives,
          NetChange.arrives]
    · simp [classify, horigin, hr, hpq, settle, leaves, NetChange.leaves, arrives,
        NetChange.arrives]

/-- In a group that kept the order of the other rows, a key is reported to leave if its verdict
says so; in another group, if its row was taken out or put in. -/
theorem Fold.Sound.leaves_change? (h : f.Sound pre) (hpre : pre.WellFormed)
    (hk : k ∈ pre.keys g) : (f.change? pre k).any NetChange.leaves =
      if f.stable pre g then (f.verdict k).leaves else f.moved k := by
  obtain ⟨i, hi⟩ := View.mem_keys_iff.mp hk
  have hp := hpre.locate_eq_some_iff.mpr hi
  unfold change? verdict moved
  cases ht : f.tracks[k]? with
  | none => simp [Verdict.settle, Verdict.leaves]
  | some t =>
    have horigin : t.origin = some ⟨g, i⟩ := (h.origin_eq k t ht).trans hp
    cases hq : f.view.locate k with
    | none =>
      have hr := h.relocated_of_one_sided hpre ht (by simp [hp, hq])
      simp [classify, horigin, Verdict.settle, Verdict.leaves, NetChange.leaves, hr]
    | some q => exact (Verdict.any_settle_of_both horigin fun _ => rfl).1

/-- The same for the keys that a group has after the batch. -/
theorem Fold.Sound.arrives_change? (h : f.Sound pre) (hpre : pre.WellFormed)
    (hk : k ∈ f.view.keys g) : (f.change? pre k).any NetChange.arrives =
      if f.stable pre g then (f.verdict k).arrives else f.moved k := by
  obtain ⟨i, hi⟩ := View.mem_keys_iff.mp hk
  have hq := h.wellFormed.locate_eq_some_iff.mpr hi
  unfold change? verdict moved
  cases ht : f.tracks[k]? with
  | none => simp [Verdict.settle, Verdict.arrives]
  | some t =>
    cases hp : pre.locate k with
    | none =>
      have horigin : t.origin = none := (h.origin_eq k t ht).trans hp
      have hr := h.relocated_of_one_sided hpre ht (by simp [hp, hq])
      simp [classify, horigin, hq, Verdict.settle, Verdict.arrives, NetChange.arrives, hr]
    | some p =>
      have horigin : t.origin = some p := (h.origin_eq k t ht).trans hp
      simp only [hq, Option.elim_some, Option.any_some]
      exact (Verdict.any_settle_of_both horigin fun he => congrArg Position.group he).2

/-- The keys that no change takes away are the keys that no change brings in, in the same order. -/
theorem Fold.Sound.filter_keys_change? (h : f.Sound pre) (hpre : pre.WellFormed) (g : GroupId) :
    (pre.keys g).filter (fun k => !(f.change? pre k).any NetChange.leaves) =
      (f.view.keys g).filter (fun k => !(f.change? pre k).any NetChange.arrives) := by
  have hleft : (pre.keys g).filter (fun k => !(f.change? pre k).any NetChange.leaves) =
      (pre.keys g).filter (fun k =>
        !(if f.stable pre g then (f.verdict k).leaves else f.moved k)) :=
    List.filter_congr fun k hk => by rw [h.leaves_change? hpre hk]
  have hright : (f.view.keys g).filter (fun k => !(f.change? pre k).any NetChange.arrives) =
      (f.view.keys g).filter (fun k =>
        !(if f.stable pre g then (f.verdict k).arrives else f.moved k)) :=
    List.filter_congr fun k hk => by rw [h.arrives_change? hpre hk]
  rw [hleft, hright]
  cases hs : f.stable pre g with
  | false => exact h.filter_keys g
  | true =>
    have hkeeps : keepsOrder pre f.view f.verdicts g = true := hs
    rw [keepsOrder, beq_iff_eq] at hkeeps
    simp only [Fold.contains_keysWhere Verdict.leaves rfl,
      Fold.contains_keysWhere Verdict.arrives rfl] at hkeeps
    exact hkeeps

theorem Verdict.source_of_settle {t : Track} {target : Option Position} {stable : GroupId → Bool}
    {c : NetChange} {p : Position} (h : (classify k t target).settle stable = some c)
    (hp : c.source? = some p) : t.origin = some p := by
  unfold classify at h
  split at h
  · cases h
  · cases h; cases hp
  · next ho => cases h; cases hp; exact ho
  · next ho =>
    rw [ho]
    grind [settle, NetChange.source?]

theorem Verdict.target_of_settle {t : Track} {target : Option Position} {stable : GroupId → Bool}
    {c : NetChange} {q : Position} (h : (classify k t target).settle stable = some c)
    (hq : c.target? = some q) : target = some q := by
  unfold classify at h
  split at h
  · cases h
  · cases h; cases hq; rfl
  · cases h; cases hq
  · grind [settle, NetChange.target?]

theorem Fold.Sound.source_of_change? (h : f.Sound pre) {c : NetChange} {p : Position}
    (hc : f.change? pre k = some c) (hp : c.source? = some p) : pre.locate k = some p := by
  unfold change? verdict at hc
  cases ht : f.tracks[k]? with
  | none => rw [ht] at hc; cases hc
  | some t =>
    rw [ht] at hc
    rw [← h.origin_eq k t ht]
    exact Verdict.source_of_settle hc hp

theorem Fold.target_of_change? {c : NetChange} {q : Position}
    (hc : f.change? pre k = some c) (hq : c.target? = some q) : f.view.locate k = some q := by
  unfold change? verdict at hc
  cases ht : f.tracks[k]? with
  | none => rw [ht] at hc; cases hc
  | some t =>
    rw [ht] at hc
    exact Verdict.target_of_settle hc hq

end Verdicts

/-! ## The net changes of a batch -/

section Compute

variable {m : Type → Type} [Monad m] [LawfulMonad m] [MonadAttach m] [LawfulMonadAttach m]
variable {V S : Type} {a : Arrangement m V S} {pre : View S} {f : Fold S}

theorem canReturn_verdicts {post : View S} {tracks : ItemMap Track} {ds : List (ItemKey × Verdict)}
    (hpost : post.WellFormed) (h : CanReturn (verdicts a post tracks) ds) :
    ds = tracks.toList.map fun (k, t) => (k, classify k t (post.locate k)) := by
  refine eq_map_of_canReturn_mapM (fun ⟨k, t⟩ d hd => ?_) h
  obtain ⟨target, htarget, hd⟩ := canReturn_bind_imp' hd
  cases eq_of_canReturn_pure hd
  cases View.eq_locate_of_canReturn_positionOf hpost htarget
  rfl

/-- The net changes of a fold, read off what was noted. -/
def Fold.netChanges (pre : View S) (f : Fold S) : NetChanges :=
  .ofRows (f.verdicts.filterMap fun (_, d) => d.settle (f.stable pre))
    (groupChanges (lengthsBetween pre f.view)) (lengthsBetween pre f.view)

theorem eq_netChanges_of_canReturn (hpost : f.view.WellFormed) {n : NetChanges}
    (h : CanReturn (netChanges a pre f.view f.tracks) n) : n = f.netChanges pre := by
  unfold netChanges at h
  obtain ⟨ds, hds, h⟩ := canReturn_bind_imp' h
  cases canReturn_verdicts hpost hds
  exact (eq_of_canReturn_pure h).symm

/-- An accepted batch was folded step by step, and its changes are read off what was noted. -/
theorem canReturn_compute [BEq S] {batch : List (Mutation V)} {c : Computed S}
    (hpre : pre.WellFormed) (h : CanReturn (pre.compute a batch) c) :
    ∃ f : Fold S, f.Sound pre ∧ c.view = f.view ∧ c.changes = f.netChanges pre := by
  unfold View.compute at h
  obtain ⟨f, hf, h⟩ := canReturn_bind_imp' h
  obtain ⟨n, hn, h⟩ := canReturn_bind_imp' h
  cases eq_of_canReturn_pure h
  have hsound := Fold.sound_of_canReturn_foldlM hpre hf
  exact ⟨f, hsound, rfl, eq_netChanges_of_canReturn hsound.wellFormed (canReturn_lift hn)⟩

end Compute

section Leads

variable {S : Type} {pre : View S} {f : Fold S} {k : ItemKey} {g : GroupId}

theorem Fold.verdicts_eq_map_keys : f.verdicts = f.tracks.keys.map fun k => (k, f.verdict k) := by
  rw [verdicts, ← ExtTreeMap.map_fst_toList_eq_keys, List.map_map]
  refine List.map_congr_left fun x hx => ?_
  rw [ExtTreeMap.mem_toList_iff_getElem?_eq_some] at hx
  simp only [Function.comp_apply, verdict, hx, Option.elim_some]

theorem Fold.change?_eq_none_of_not_mem (hk : k ∉ f.tracks) : f.change? pre k = none := by
  rw [change?, verdict, ExtTreeMap.getElem?_eq_none hk]
  rfl

theorem Fold.pairwise_filterMap_change? : (f.tracks.keys.filterMap (f.change? pre)).Pairwise
    fun c d => compare c.key d.key = .lt := by
  refine List.pairwise_filterMap.mpr (ExtTreeMap.ordered_keys.imp fun {k k'} hlt c hc d hd => ?_)
  rw [key_of_change? hc, key_of_change? hd]
  exact hlt

/-- The changes of a batch are the changes of the noted keys, in the order of keys. -/
theorem Fold.rows_netChanges :
    (f.netChanges pre).rows = f.tracks.keys.filterMap (f.change? pre) := by
  have hrows : (f.netChanges pre).rows =
      (f.tracks.keys.filterMap (f.change? pre)).mergeSort NetChange.keyLE := by
    rw [netChanges, NetChanges.ofRows, verdicts_eq_map_keys, List.filterMap_map]
    rfl
  rw [hrows]
  refine List.mergeSort_of_pairwise (pairwise_filterMap_change?.imp fun hlt => ?_)
  exact Ordering.isLE_of_eq_lt hlt

theorem Fold.mem_netChanges_rows {c : NetChange} :
    c ∈ (f.netChanges pre).rows ↔ ∃ k, f.change? pre k = some c := by
  rw [rows_netChanges, List.mem_filterMap]
  constructor
  · rintro ⟨k, -, hc⟩
    exact ⟨k, hc⟩
  · rintro ⟨k, hc⟩
    refine ⟨k, ?_, hc⟩
    by_contra hk
    rw [ExtTreeMap.mem_keys] at hk
    cases (change?_eq_none_of_not_mem hk).symm.trans hc

theorem Fold.pairwise_rows_netChanges :
    (f.netChanges pre).rows.Pairwise fun c d => compare c.key d.key = .lt := by
  rw [rows_netChanges]
  exact pairwise_filterMap_change?

theorem Fold.keys_netChanges_nodup : ((f.netChanges pre).rows.map NetChange.key).Nodup := by
  refine List.pairwise_map.mpr (pairwise_rows_netChanges.imp fun {c d} hlt he => ?_)
  rw [he, ReflOrd.compare_self] at hlt
  cases hlt

theorem Fold.any_netChanges_rows (p : NetChange → Bool) (k : ItemKey) :
    ((f.netChanges pre).rows.any fun c => c.key = k && p c) = (f.change? pre k).any p := by
  rw [Bool.eq_iff_iff, List.any_eq_true, Option.any_eq_true]
  constructor
  · rintro ⟨c, hc, hk⟩
    obtain ⟨k', hc⟩ := mem_netChanges_rows.mp hc
    rw [Bool.and_eq_true, decide_eq_true_eq, key_of_change? hc] at hk
    obtain ⟨rfl, hp⟩ := hk
    exact ⟨c, hc, hp⟩
  · rintro ⟨c, hc, hp⟩
    refine ⟨c, mem_netChanges_rows.mpr ⟨k, hc⟩, ?_⟩
    rw [Bool.and_eq_true, decide_eq_true_eq]
    exact ⟨key_of_change? hc, hp⟩

theorem getElem?_lengthsBetween {post : View S} (g : GroupId) :
    (lengthsBetween pre post)[g]? =
      if g ∈ post.known then some ⟨pre.length g, post.length g⟩ else none := by
  have hdistinct : (post.knownList.map fun g => (g, Lengths.mk (pre.length g) (post.length g)))
      |>.Pairwise fun x y => ¬ compare x.1 y.1 = .eq := by
    rw [List.pairwise_map]
    exact ExtTreeSet.distinct_toList (t := post.known)
  split
  · next hg =>
    exact ExtTreeMap.getElem?_ofList_of_mem ReflOrd.compare_self hdistinct
      (List.mem_map.mpr ⟨g, ExtTreeSet.mem_toList.mpr hg, rfl⟩)
  · next hg =>
    refine ExtTreeMap.getElem?_ofList_of_contains_eq_false ?_
    rw [List.map_map, Bool.eq_false_iff, ne_eq, List.contains_iff_mem, List.mem_map]
    rintro ⟨g', hg', rfl⟩
    exact hg (ExtTreeSet.mem_toList.mp hg')

theorem mem_groupChanges_iff {lengths : GroupMap Lengths} {e : GroupEdit} :
    ⟨g, e⟩ ∈ groupChanges lengths ↔ (lengths[g]?.getD {}).edit? = some e := by
  have hmem : ⟨g, e⟩ ∈ groupChanges lengths ↔ ∃ l, lengths[g]? = some l ∧ l.edit? = some e := by
    simp only [groupChanges, List.mem_filterMap, Prod.exists, Option.map_eq_some_iff,
      ExtTreeMap.mem_toList_iff_getElem?_eq_some, GroupChange.mk.injEq]
    constructor
    · rintro ⟨_, l, hl, _, he, rfl, rfl⟩
      exact ⟨l, hl, he⟩
    · rintro ⟨l, hl, he⟩
      exact ⟨g, l, hl, e, he, rfl, rfl⟩
  rw [hmem]
  cases lengths[g]? with
  | none => exact iff_of_false nofun nofun
  | some l => simp

theorem pairwise_groupChanges (lengths : GroupMap Lengths) :
    (groupChanges lengths).Pairwise fun x y => compare x.group y.group = .lt := by
  have hsorted : (lengths.toList.map Prod.fst).Pairwise fun g g' => compare g g' = .lt := by
    rw [ExtTreeMap.map_fst_toList_eq_keys]
    exact ExtTreeMap.ordered_keys
  refine List.pairwise_filterMap.mpr ((List.pairwise_map.mp hsorted).imp ?_)
  intro x y hlt c hc d hd
  obtain ⟨_, -, rfl⟩ := Option.map_eq_some_iff.mp hc
  obtain ⟨_, -, rfl⟩ := Option.map_eq_some_iff.mp hd
  exact hlt

/-- A group that the view after a batch does not know has no rows on either side. -/
theorem Fold.Sound.length_eq_zero (h : f.Sound pre) (hpre : pre.WellFormed)
    (hg : g ∉ f.view.known) : pre.length g = 0 ∧ f.view.length g = 0 :=
  ⟨View.WellFormed.length_eq_zero_of_not_mem fun hmem =>
      hg (h.known_subset g (hpre.stored_known g hmem)),
    View.WellFormed.length_eq_zero_of_not_mem fun hmem => hg (h.wellFormed.stored_known g hmem)⟩

/-- The lengths that are reported of a group are its own; of a group without a report they are
zero. -/
theorem Fold.Sound.getD_lengths (h : f.Sound pre) (hpre : pre.WellFormed) (g : GroupId) :
    (f.netChanges pre).lengths[g]?.getD {} = ⟨pre.length g, f.view.length g⟩ := by
  rw [netChanges, NetChanges.ofRows, getElem?_lengthsBetween]
  split
  · rfl
  · next hg =>
    obtain ⟨hbefore, hafter⟩ := h.length_eq_zero hpre hg
    rw [hbefore, hafter]
    rfl

/-- The changes that are read off a sound fold lead from the view before it to the view it came
to. -/
theorem Fold.Sound.leads (h : f.Sound pre) (hpre : pre.WellFormed) :
    (f.netChanges pre).Leads pre f.view where
  keys_nodup := keys_netChanges_nodup
  source_at c hc p hp := by
    obtain ⟨k, hk⟩ := mem_netChanges_rows.mp hc
    rw [key_of_change? hk]
    exact hpre.locate_eq_some_iff.mp (h.source_of_change? hk hp)
  target_at c hc q hq := by
    obtain ⟨k, hk⟩ := mem_netChanges_rows.mp hc
    rw [key_of_change? hk]
    exact h.wellFormed.locate_eq_some_iff.mp (target_of_change? hk hq)
  filter_keys g := by
    unfold NetChanges.leaving NetChanges.arriving
    simp only [any_netChanges_rows]
    exact h.filter_keys_change? hpre g
  lengthBefore_eq g :=
    (Option.getD_map Lengths.before {} _).trans (congrArg Lengths.before (h.getD_lengths hpre g))
  lengthAfter_eq g :=
    (Option.getD_map Lengths.after {} _).trans (congrArg Lengths.after (h.getD_lengths hpre g))

/-- **The changes of a batch lead from the view before it to the view after it**, whatever the
arrangement answers. -/
theorem leads_of_canReturn_compute {m : Type → Type} [Monad m] [LawfulMonad m] [MonadAttach m]
    [LawfulMonadAttach m] {V : Type} [BEq S] {a : Arrangement m V S} {batch : List (Mutation V)}
    {c : Computed S} (hpre : pre.WellFormed) (h : CanReturn (pre.compute a batch) c) :
    c.view.WellFormed ∧ c.changes.Leads pre c.view := by
  obtain ⟨f, hf, hview, hchanges⟩ := canReturn_compute hpre h
  rw [hview, hchanges]
  exact ⟨hf.wellFormed, hf.leads hpre⟩

/-- **The groups that a batch reports** are those that got their first rows and those that lost
their last, each once and in order; the lengths that it reports are those of the groups known after
it, on both sides. -/
theorem groups_of_canReturn_compute {m : Type → Type} [Monad m] [LawfulMonad m] [MonadAttach m]
    [LawfulMonadAttach m] {V : Type} [BEq S] {a : Arrangement m V S} {batch : List (Mutation V)}
    {c : Computed S} (hpre : pre.WellFormed) (h : CanReturn (pre.compute a batch) c) :
    (∀ g, ⟨g, .inserted⟩ ∈ c.changes.groups ↔ pre.length g = 0 ∧ 0 < c.view.length g) ∧
    (∀ g, ⟨g, .deleted⟩ ∈ c.changes.groups ↔ 0 < pre.length g ∧ c.view.length g = 0) ∧
    c.changes.groups.Pairwise (fun x y => compare x.group y.group = .lt) ∧
    ∀ (g : GroupId) (l : Lengths), c.changes.lengths[g]? = some l ↔
      g ∈ c.view.known ∧ l = ⟨pre.length g, c.view.length g⟩ := by
  obtain ⟨f, hf, hview, hchanges⟩ := canReturn_compute hpre h
  rw [hview, hchanges]
  have hgroups (g : GroupId) (e : GroupEdit) : ⟨g, e⟩ ∈ (f.netChanges pre).groups ↔
      (Lengths.mk (pre.length g) (f.view.length g)).edit? = some e :=
    hf.getD_lengths hpre g ▸ mem_groupChanges_iff
  refine ⟨fun g => ?_, fun g => ?_, pairwise_groupChanges _, fun g l => ?_⟩
  · rw [hgroups, Lengths.edit?_eq_inserted_iff]
  · rw [hgroups, Lengths.edit?_eq_deleted_iff]
  · rw [Fold.netChanges, NetChanges.ofRows, getElem?_lengthsBetween]
    split
    · next hg => simp [hg, eq_comm]
    · next hg => exact iff_of_false nofun fun hl => hg hl.1

end Leads

end GroupedView
