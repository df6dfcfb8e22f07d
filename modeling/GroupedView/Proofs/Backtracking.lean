import GroupedView.Proofs.Bisect
import GroupedView.Proofs.Increasing

/-!
# GroupedView.Proofs.Backtracking — a longest increasing subsequence read off links

A `Pile` carries the whole chain below its top.  A `Trail` has only a position for each pile and,
for each position, a link to the one before it; a tail is written over by the next one in its place,
while links lead to tails that are gone.  The chain of the last tail is found in the end, by walking
back along the links (`backtrack`).  Each access to an entry is checked, and the rounds of the walk
are counted, so that an answer shows that no access failed and that the walk ended.

* The tops of the piles go up (`pairwise_piles`), so the place of a value can be found by halving
  (`partitionPoint_append`).
* `Trail.Shows` says how a trail stands for the piles; each value keeps it (`Trail.Shows.note`), so
  that the whole trail shows all piles (`Trail.exists_shows`).
* A walk ends from wherever it starts, because links lead back (`exists_backtrack`), and along a
  chain it marks the positions of this chain (`eq_of_backtrack_linked`).

`longestIncreasing_longest` puts this together: the marks are those of a longest increasing
subsequence, and the walk finds the same ones.
-/

namespace GroupedView

section Definitions

variable {α : Type}

/-- The number of entries in the first part of a list, which have a property that those of the rest
do not have. -/
def partitionPoint (p : α → Option Bool) (l : List α) : Option Nat := do
  let slot ← bisect fun k : Fin l.length => do return if ← p (l.get k) then .lt else .gt
  match slot with
  | .found i | .gap i => return i

/-- Write to an entry, if there is one. -/
def setAt? (l : List α) (i : Nat) (a : α) : Option (List α) :=
  if i < l.length then some (l.set i a) else none

/-- What is kept of the values so far: for each length of an increasing subsequence the position of
the smallest value that it can end with, and for each position the one before it in a longest
subsequence that ends there. -/
structure Trail where
  tails : List Nat
  links : List (Option Nat)
deriving DecidableEq, Repr

/-- The trail before the first of `n` values. -/
def Trail.start (n : Nat) : Trail := ⟨[], List.replicate n none⟩

/-- Put a position to a slot of the tails; the slot after the last one is a new one. -/
def Trail.settle (t : Trail) (slot i : Nat) : Option (List Nat) :=
  if slot = t.tails.length then some (t.tails ++ [i]) else setAt? t.tails slot i

/-- Link a position to the tail before a slot, if it is not the first one. -/
def Trail.link (t : Trail) (slot i : Nat) : Option (List (Option Nat)) :=
  if 0 < slot then do
    let before ← t.tails[slot - 1]?
    setAt? t.links i (some before)
  else some t.links

/-- Note the value `v` of position `i` of the sequence `xs`. -/
def Trail.note (xs : List Nat) (t : Trail) (i v : Nat) : Option Trail := do
  let slot ← partitionPoint (fun j => xs[j]?.map fun u => decide (u < v)) t.tails
  let links ← t.link slot i
  let tails ← t.settle slot i
  return ⟨tails, links⟩

/-- The trail of a sequence after its first values `pre`. -/
def Trail.after (xs pre : List Nat) : Option Trail :=
  pre.zipIdx.foldlM (fun t (v, i) => t.note xs i v) (.start xs.length)

/-- The trail after all values. -/
def trail (xs : List Nat) : Option Trail := Trail.after xs xs

/-- Walk back along the links, for as many rounds at most, and mark each position on the way.  There
is no answer if an entry is missing, and none if the rounds do not suffice. -/
def backtrack (links : List (Option Nat)) : Nat → List Bool → Option Nat → Option (List Bool)
  | _, marks, none => some marks
  | 0, _, some _ => none
  | n + 1, marks, some i => do
    let marked ← setAt? marks i true
    let next ← links[i]?
    backtrack links n marked next

/-- The entries of a list that are marked. -/
def kept (l : List α) (marks : List Bool) : List α := ((l.zip marks).filter Prod.snd).map Prod.fst

/-- A longest strictly increasing subsequence. -/
structure LongestRising (u xs : List Nat) : Prop where
  sublist : u.Sublist xs
  rises : u.Pairwise (· < ·)
  length_le : ∀ w : List Nat, w.Sublist xs → w.Pairwise (· < ·) → w.length ≤ u.length

/-- Links that lead from each position to an earlier one. -/
def Descending (links : List (Option Nat)) : Prop :=
  ∀ i j : Nat, links[i]? = some (some j) → j < i

/-- The links lead down a chain, position by position, and stop at its end. -/
def Linked (links : List (Option Nat)) : List Nat → Prop
  | [] => True
  | i :: chain => links[i]? = some chain.head? ∧ Linked links chain

end Definitions

/-! ## Places by halving -/

section PartitionPoint

variable {α : Type}

theorem setAt?_eq {l : List α} {i : Nat} (hi : i < l.length) (a : α) :
    setAt? l i a = some (l.set i a) := if_pos hi

theorem eq_set_of_setAt? {l l' : List α} {i : Nat} {a : α} (h : setAt? l i a = some l') :
    i < l.length ∧ l' = l.set i a := by
  rw [setAt?] at h
  split at h
  · next hi => exact ⟨hi, (Option.some.inj h).symm⟩
  · cases h

/-- Halving finds where the two parts of a list meet. -/
theorem partitionPoint_append {p : α → Option Bool} {lo hi : List α}
    (hlo : ∀ a ∈ lo, p a = some true) (hhi : ∀ a ∈ hi, p a = some false) :
    partitionPoint p (lo ++ hi) = some lo.length := by
  let c : Fin (lo ++ hi).length → Ordering := fun k => if k < lo.length then .lt else .gt
  have hprobe : ∀ k : Fin (lo ++ hi).length,
      (do return if ← p ((lo ++ hi).get k) then .lt else .gt : Option Ordering) = pure (c k) := by
    intro k
    by_cases hk : k < lo.length
    · have hmem : (lo ++ hi).get k ∈ lo := by
        rw [List.get_eq_getElem, List.getElem_append_left hk]
        exact List.getElem_mem hk
      rw [hlo _ hmem]
      exact congrArg some (if_pos hk).symm
    · have hmem : (lo ++ hi).get k ∈ hi := by
        rw [List.get_eq_getElem, List.getElem_append_right (Nat.le_of_not_lt hk)]
        exact List.getElem_mem _
      rw [hhi _ hmem]
      exact congrArg some (if_neg hk).symm
  have hgap : (bisect (m := Id) c).run = .gap lo.length :=
    bisect_eq_gap_of_parted (by rw [List.length_append]; omega) (fun k hk => if_pos hk)
      fun k hk => if_neg (Nat.not_lt.mpr hk)
  rw [partitionPoint, funext hprobe, bisect_pure, hgap]
  rfl

end PartitionPoint

/-! ## The tops go up -/

section Piles

variable {xs : List Nat} {i v : Nat}

theorem mem_deal {below : List Nat} {ps : List Pile} {q : Pile} (hq : q ∈ deal i v below ps) :
    q ∈ ps ∨ ∃ chain, q = ⟨v, i :: chain⟩ := by
  induction ps generalizing below with
  | nil => exact .inr ⟨below, List.mem_singleton.mp hq⟩
  | cons p ps ih =>
    rw [deal] at hq
    split at hq
    · rcases List.mem_cons.mp hq with rfl | hq
      · exact .inl List.mem_cons_self
      · exact (ih hq).imp_left (List.mem_cons_of_mem p)
    · rcases List.mem_cons.mp hq with rfl | hq
      · exact .inr ⟨below, rfl⟩
      · exact .inl (List.mem_cons_of_mem p hq)

theorem pairwise_deal {ps : List Pile} (h : ps.Pairwise fun p q => p.top < q.top)
    (below : List Nat) : (deal i v below ps).Pairwise fun p q => p.top < q.top := by
  induction ps generalizing below with
  | nil => exact List.pairwise_singleton _ _
  | cons p ps ih =>
    obtain ⟨hp, hps⟩ := List.pairwise_cons.mp h
    rw [deal]
    split
    · next hlt =>
      refine List.pairwise_cons.mpr ⟨fun q hq => ?_, ih hps p.chain⟩
      rcases mem_deal hq with hq | ⟨chain, rfl⟩
      · exact hp q hq
      · exact hlt
    · next hle =>
      exact List.pairwise_cons.mpr
        ⟨fun q hq => Nat.lt_of_le_of_lt (Nat.le_of_not_lt hle) (hp q hq), hps⟩

/-- The tops of the piles go up from left to right. -/
theorem pairwise_piles (xs : List Nat) : (piles xs).Pairwise fun p q => p.top < q.top := by
  induction xs using List.reverseRecOn with
  | nil => exact .nil
  | append_singleton xs v ih =>
    rw [piles_concat]
    exact pairwise_deal ih []

/-- The chain of a pile starts at the position of its top. -/
theorem exists_head_of_mem_piles {p : Pile} (hp : p ∈ piles xs) :
    ∃ i, p.chain.head? = some i ∧ xs[i]? = some p.top := by
  induction xs using List.reverseRecOn with
  | nil => cases hp
  | append_singleton xs v ih =>
    rw [piles_concat] at hp
    rcases mem_deal hp with hp | ⟨chain, rfl⟩
    · obtain ⟨i, hi, hx⟩ := ih hp
      exact ⟨i, hi, Rising.getElem?_concat_of_some hx⟩
    · exact ⟨xs.length, rfl, List.getElem?_concat_length⟩

/-- The positions of a chain are those of values dealt so far. -/
theorem lt_length_of_mem_chain {p : Pile} (hp : p ∈ piles xs) {i : Nat} (hi : i ∈ p.chain) :
    i < xs.length := (rising_of_mem_piles p hp).lt_length hi

theorem deal_append {lo hi : List Pile} (hlo : ∀ p ∈ lo, p.top < v) (hhi : ∀ p ∈ hi, v ≤ p.top)
    (below : List Nat) :
    deal i v below (lo ++ hi) = lo ++ ⟨v, i :: lo.getLast?.elim below Pile.chain⟩ :: hi.tail := by
  induction lo generalizing below with
  | nil =>
    cases hi with
    | nil => rfl
    | cons p hi =>
      rw [List.nil_append, deal, if_neg (Nat.not_lt.mpr (hhi p List.mem_cons_self))]
      rfl
  | cons p lo ih =>
    have hlast :
        (p :: lo).getLast?.elim below Pile.chain = lo.getLast?.elim p.chain Pile.chain := by
      cases lo with
      | nil => rfl
      | cons q lo => rfl
    rw [List.cons_append, deal, if_pos (hlo p List.mem_cons_self),
      ih (fun q hq => hlo q (List.mem_cons_of_mem p hq)), hlast]
    rfl

/-- The piles with a top below a value stand before the others. -/
theorem exists_piles_eq_append (xs : List Nat) (v : Nat) :
    ∃ lo hi, piles xs = lo ++ hi ∧ (∀ p ∈ lo, p.top < v) ∧ ∀ p ∈ hi, v ≤ p.top := by
  have hsorted := pairwise_piles xs
  generalize piles xs = ps at hsorted
  induction ps with
  | nil => exact ⟨[], [], rfl, nofun, nofun⟩
  | cons p ps ih =>
    obtain ⟨hp, hps⟩ := List.pairwise_cons.mp hsorted
    by_cases hlt : p.top < v
    · obtain ⟨lo, hi, rfl, hlo, hhi⟩ := ih hps
      exact ⟨p :: lo, hi, rfl, List.forall_mem_cons.mpr ⟨hlt, hlo⟩, hhi⟩
    · have hle := Nat.le_of_not_lt hlt
      exact ⟨[], p :: ps, rfl, nofun, List.forall_mem_cons.mpr
        ⟨hle, fun q hq => Nat.le_of_lt (Nat.lt_of_le_of_lt hle (hp q hq))⟩⟩

end Piles

/-! ## Walking back -/

section Walk

variable {links : List (Option Nat)} {marks marks' : List Bool} {chain : List Nat}

theorem backtrack_none (links : List (Option Nat)) (n : Nat) (marks : List Bool) :
    backtrack links n marks none = some marks := by
  cases n <;> rfl

/-- A walk along links that lead back ends, and does not leave the list.  It takes no more rounds
than there are positions up to the one where it starts. -/
theorem exists_backtrack (h : Descending links) (hmarks : marks.length = links.length) {i n : Nat}
    (hi : i < links.length) (hin : i < n) :
    ∃ marks', backtrack links n marks (some i) = some marks' := by
  induction n generalizing i marks with
  | zero => exact absurd hin (Nat.not_lt_zero i)
  | succ n ih =>
    have hentry : links[i]? = some links[i] := List.getElem?_eq_getElem hi
    rw [backtrack, setAt?_eq (by omega), hentry]
    cases hnext : links[i] with
    | none => exact ⟨marks.set i true, backtrack_none links n _⟩
    | some j =>
      have hji : j < i := h i j (hentry.trans (congrArg some hnext))
      exact ih (by rw [List.length_set, hmarks]) (by omega) (by omega)

theorem Linked.set (h : Linked links chain) {i : Nat} (hi : i ∉ chain) (next : Option Nat) :
    Linked (links.set i next) chain := by
  induction chain with
  | nil => trivial
  | cons j chain ih =>
    refine ⟨?_, ih h.2 (List.not_mem_of_not_mem_cons hi)⟩
    rw [List.getElem?_set_ne (List.ne_of_not_mem_cons hi)]
    exact h.1

/-- A walk from the first position of a chain marks the positions of the chain. -/
theorem eq_of_backtrack_linked (h : Linked links chain) {n : Nat}
    (hmarks : backtrack links n marks chain.head? = some marks') :
    marks' = marks.mapIdx fun i b => b || chain.contains i := by
  induction chain generalizing n marks with
  | nil =>
    rw [List.head?_nil, backtrack_none] at hmarks
    cases hmarks
    exact List.ext_getElem? fun k => by simp
  | cons i chain ih =>
    cases n with
    | zero => cases hmarks
    | succ n =>
      obtain ⟨marked, hmarked, hmarks⟩ := Option.bind_eq_some_iff.mp hmarks
      rw [h.1] at hmarks
      rw [ih h.2 hmarks]
      obtain ⟨hi, rfl⟩ := eq_set_of_setAt? hmarked
      refine List.ext_getElem? fun k => ?_
      rw [List.getElem?_mapIdx, List.getElem?_mapIdx, List.getElem?_set]
      by_cases hik : i = k
      · subst hik
        simp [hi]
      · simp [hik, eq_comm]

end Walk

/-! ## The trail shows the piles -/

/-- Of the values `pre` that a sequence begins with, the trail has a tail for each pile, at which
the chain of the pile starts, and links that lead down these chains. -/
structure Trail.Shows (xs pre : List Nat) (t : Trail) : Prop where
  heads : t.tails.map some = (piles pre).map fun p => p.chain.head?
  linked : ∀ p ∈ piles pre, Linked t.links p.chain
  length_links : t.links.length = xs.length
  descending : Descending t.links
  fresh : ∀ i, pre.length ≤ i → i < xs.length → t.links[i]? = some none

section Trail

variable {xs pre tails : List Nat} {ps : List Pile} {links : List (Option Nat)} {t : Trail}
  {i v : Nat}

/-- A tail is the position of a top. -/
theorem exists_top_of_mem_tails (h : tails.map some = ps.map fun p => p.chain.head?)
    (hps : ∀ p ∈ ps, p ∈ piles pre) (hi : i ∈ tails) : ∃ p ∈ ps, pre[i]? = some p.top := by
  obtain ⟨p, hp, hhead⟩ := List.mem_map.mp (h ▸ List.mem_map_of_mem (f := some) hi)
  obtain ⟨j, hj, hx⟩ := exists_head_of_mem_piles (hps p hp)
  cases hhead.symm.trans hj
  exact ⟨p, hp, hx⟩

theorem getLast?_eq_of_heads (h : tails.map some = ps.map fun p => p.chain.head?) :
    tails.getLast? = (ps.getLast?.elim [] Pile.chain).head? := by
  have hlast := congrArg List.getLast? h
  rw [List.getLast?_map, List.getLast?_map] at hlast
  cases hp : ps.getLast? with
  | none =>
    rw [hp] at hlast
    exact Option.map_eq_none_iff.mp hlast
  | some p =>
    rw [hp] at hlast
    obtain ⟨i, hi, hhead⟩ := Option.map_eq_some_iff.mp hlast
    exact hi.trans hhead

theorem linked_getLast? (h : ∀ p ∈ ps, Linked links p.chain) :
    Linked links (ps.getLast?.elim [] Pile.chain) := by
  cases hp : ps.getLast? with
  | none => trivial
  | some p => exact h p (List.mem_of_getLast? hp)

theorem Trail.after_concat (xs pre : List Nat) (v : Nat) :
    Trail.after xs (pre ++ [v]) = Trail.after xs pre >>= fun t => t.note xs pre.length v := by
  simp [Trail.after, List.zipIdx_append, List.foldlM_append]

theorem Trail.settle_eq (lo hi : List Nat) (links : List (Option Nat)) (i : Nat) :
    Trail.settle ⟨lo ++ hi, links⟩ lo.length i = some (lo ++ i :: hi.tail) := by
  cases hi with
  | nil => simp [Trail.settle]
  | cons j hi => simp [Trail.settle, setAt?]

theorem Trail.link_eq (lo hi : List Nat) (hfresh : links[i]? = some none) :
    Trail.link ⟨lo ++ hi, links⟩ lo.length i = some (links.set i lo.getLast?) := by
  obtain ⟨hin, hnone⟩ := List.getElem?_eq_some_iff.mp hfresh
  rcases List.eq_nil_or_concat lo with rfl | ⟨lo, j, rfl⟩
  · -- without a tail before it, the entry is left as it is
    have hset : links.set i none = links := by
      rw [← hnone]
      exact List.set_getElem_self hin
    simp [Trail.link, hset]
  · simp [Trail.link, setAt?_eq hin]

/-- A value takes the place of the first tail that is not smaller, and is linked to the tail before
that place. -/
theorem Trail.note_eq {lo hi : List Nat} (hlo : ∀ j ∈ lo, ∃ u, xs[j]? = some u ∧ u < v)
    (hhi : ∀ j ∈ hi, ∃ u, xs[j]? = some u ∧ v ≤ u) (hfresh : links[i]? = some none) :
    Trail.note xs ⟨lo ++ hi, links⟩ i v = some ⟨lo ++ i :: hi.tail, links.set i lo.getLast?⟩ := by
  have hslot : partitionPoint (fun j => xs[j]?.map fun u => decide (u < v)) (lo ++ hi) =
      some lo.length := by
    refine partitionPoint_append (fun j hj => ?_) fun j hj => ?_
    · obtain ⟨u, hu, hlt⟩ := hlo j hj
      rw [hu]
      exact congrArg some (decide_eq_true hlt)
    · obtain ⟨u, hu, hle⟩ := hhi j hj
      rw [hu]
      exact congrArg some (decide_eq_false (Nat.not_lt.mpr hle))
  rw [Trail.note, hslot, Option.bind_eq_bind, Option.bind_some, Trail.link_eq lo hi hfresh,
    Trail.settle_eq]
  rfl

theorem Trail.shows_start (xs : List Nat) : (Trail.start xs.length).Shows xs [] where
  heads := rfl
  linked := nofun
  length_links := List.length_replicate
  descending i j hij := by
    have hnone := List.eq_of_mem_replicate (List.mem_of_getElem? hij)
    cases hnone
  fresh i _ hi := List.getElem?_replicate_of_lt hi

/-- A value that is dealt between the piles `lo` and `hi`. -/
theorem Trail.Shows.deal {lo hi : List Pile} {before behind : List Nat}
    (h : Trail.Shows xs pre ⟨before ++ behind, links⟩) (hpiles : piles pre = lo ++ hi)
    (hlo : ∀ p ∈ lo, p.top < v) (hhi : ∀ p ∈ hi, v ≤ p.top)
    (hbefore : before.map some = lo.map fun p => p.chain.head?)
    (hbehind : behind.map some = hi.map fun p => p.chain.head?) (hin : pre.length < xs.length) :
    Trail.Shows xs (pre ++ [v])
      ⟨before ++ pre.length :: behind.tail, links.set pre.length before.getLast?⟩ := by
  have hdealt := (piles_concat pre v).trans (hpiles ▸ deal_append hlo hhi [])
  have hlinked : ∀ p ∈ lo ++ hi, Linked (links.set pre.length before.getLast?) p.chain := by
    intro p hp
    rw [← hpiles] at hp
    exact (h.linked p hp).set (fun hmem => Nat.lt_irrefl _ (lt_length_of_mem_chain hp hmem)) _
  have hlo_linked := fun p hp => hlinked p (List.mem_append_left hi hp)
  constructor
  case heads =>
    simp only [hdealt, List.map_append, List.map_cons, List.map_tail, hbefore, hbehind]
    rfl
  case linked =>
    intro p hp
    rw [hdealt] at hp
    rcases List.mem_append.mp hp with hp | hp
    · exact hlo_linked p hp
    rcases List.mem_cons.mp hp with rfl | hp
    · refine ⟨?_, linked_getLast? hlo_linked⟩
      rw [List.getElem?_set_self (h.length_links ▸ hin), getLast?_eq_of_heads hbefore]
    · exact hlinked p (List.mem_append_right lo (List.mem_of_mem_tail hp))
  case length_links => exact List.length_set.trans h.length_links
  case descending =>
    intro i j hij
    by_cases hnew : pre.length = i
    · subst hnew
      rw [List.getElem?_set_self (h.length_links ▸ hin)] at hij
      have hj : j ∈ before := List.mem_of_getLast? (Option.some.inj hij)
      obtain ⟨p, -, hx⟩ := exists_top_of_mem_tails hbefore
        (fun p hp => hpiles ▸ List.mem_append_left hi hp) hj
      exact (List.getElem?_eq_some_iff.mp hx).1
    · exact h.descending i j ((List.getElem?_set_ne hnew).symm.trans hij)
  case fresh =>
    intro i hle hxs
    rw [List.length_append, List.length_singleton] at hle
    exact (List.getElem?_set_ne (by omega)).trans (h.fresh i (by omega) hxs)

/-- One more value of the sequence. -/
theorem Trail.Shows.note (h : t.Shows xs pre) (hpre : pre ++ [v] <+: xs) :
    ∃ t', t.note xs pre.length v = some t' ∧ t'.Shows xs (pre ++ [v]) := by
  obtain ⟨rest, rfl⟩ := hpre
  have hin : pre.length < (pre ++ [v] ++ rest).length := by
    simp only [List.length_append, List.length_singleton]
    omega
  have hvalue : ∀ {j u : Nat}, pre[j]? = some u → (pre ++ [v] ++ rest)[j]? = some u := by
    intro j u hj
    have hjlt := (List.getElem?_eq_some_iff.mp hj).1
    rw [List.append_assoc, List.getElem?_append_left hjlt, hj]
  obtain ⟨lo, hi, hpiles, hlo, hhi⟩ := exists_piles_eq_append pre v
  -- the tails of the piles on both sides of the value
  obtain ⟨tails, links⟩ := t
  obtain ⟨before, behind, rfl, hbefore, hbehind⟩ :=
    List.map_eq_append_iff.mp ((h.heads.trans (congrArg _ hpiles)).trans List.map_append)
  refine ⟨_, Trail.note_eq (fun j hj => ?_) (fun j hj => ?_) (h.fresh _ (Nat.le_refl _) hin),
    h.deal hpiles hlo hhi hbefore hbehind hin⟩
  · obtain ⟨p, hp, hx⟩ := exists_top_of_mem_tails hbefore
      (fun p hp => hpiles ▸ List.mem_append_left hi hp) hj
    exact ⟨p.top, hvalue hx, hlo p hp⟩
  · obtain ⟨p, hp, hx⟩ := exists_top_of_mem_tails hbehind
      (fun p hp => hpiles ▸ List.mem_append_right lo hp) hj
    exact ⟨p.top, hvalue hx, hhi p hp⟩

/-- The trail after the first values of a sequence shows their piles. -/
theorem Trail.exists_shows (hpre : pre <+: xs) :
    ∃ t, Trail.after xs pre = some t ∧ t.Shows xs pre := by
  induction pre using List.reverseRecOn with
  | nil => exact ⟨.start xs.length, rfl, Trail.shows_start xs⟩
  | append_singleton pre v ih =>
    obtain ⟨t, ht, hshows⟩ := ih ((List.prefix_append pre [v]).trans hpre)
    obtain ⟨t', ht', hshows'⟩ := hshows.note hpre
    exact ⟨t', by rw [Trail.after_concat, ht]; exact ht', hshows'⟩

end Trail

/-! ## The marks -/

section Marks

variable {α : Type}

theorem length_kept {l : List α} {marks : List Bool} (h : marks.length ≤ l.length) :
    (kept l marks).length = marks.count true := by
  have hcount : marks.count true = ((l.zip marks).map Prod.snd).countP id := by
    rw [List.map_snd_zip h, List.count]
    exact List.countP_congr fun b _ => by simp
  rw [hcount, List.countP_map, kept, List.length_map, List.countP_eq_length_filter]
  rfl

theorem kept_longestIncreasing (l : List (α × Nat)) :
    kept (l.map Prod.snd) (longestIncreasing (l.map Prod.snd)) = (marked l).map Prod.snd := by
  rw [kept, List.zip_map_left, zip_longestIncreasing, marked, List.map_map, List.filter_map,
    List.map_map, List.map_map]
  rfl

theorem longestRising_marked (l : List (α × Nat)) :
    LongestRising ((marked l).map Prod.snd) (l.map Prod.snd) where
  sublist := (marked_sublist l).map Prod.snd
  rises := List.pairwise_map.mpr (pairwise_marked l)
  length_le w hw hup := by
    rw [List.length_map]
    exact length_le_length_marked hw hup

/-- The values that are marked are a longest increasing subsequence. -/
theorem longestRising_kept (xs : List Nat) : LongestRising (kept xs (longestIncreasing xs)) xs := by
  have hvalues : (xs.map (Prod.mk ())).map Prod.snd = xs := by
    rw [List.map_map]
    exact List.map_id xs
  have hlongest := longestRising_marked (xs.map (Prod.mk ()))
  rwa [← kept_longestIncreasing, hvalues] at hlongest

theorem longestIncreasing_eq_mapIdx (xs : List Nat) :
    longestIncreasing xs =
      (List.replicate xs.length false).mapIdx fun i b => b || (longestChain xs).contains i := by
  refine List.ext_getElem (by simp) fun i _ _ => ?_
  simp [longestIncreasing]

variable {xs : List Nat} {t : Trail}

/-- A walk back ends from wherever it starts. -/
theorem Trail.Shows.exists_backtrack (h : t.Shows xs xs) {i n : Nat} (hi : i < xs.length)
    (hin : i < n) :
    ∃ marks, backtrack t.links n (List.replicate xs.length false) (some i) = some marks :=
  GroupedView.exists_backtrack h.descending (by rw [List.length_replicate, h.length_links])
    (h.length_links ▸ hi) hin

/-- Walking back from the last tail marks a longest chain. -/
theorem Trail.Shows.backtrack_eq (h : t.Shows xs xs) :
    backtrack t.links xs.length (List.replicate xs.length false) t.tails.getLast? =
      some (longestIncreasing xs) := by
  have hstart : t.tails.getLast? = (longestChain xs).head? := getLast?_eq_of_heads h.heads
  obtain ⟨marks, hmarks⟩ : ∃ marks, backtrack t.links xs.length (List.replicate xs.length false)
      (longestChain xs).head? = some marks := by
    cases hchain : longestChain xs with
    | nil => exact ⟨_, backtrack_none _ _ _⟩
    | cons i chain =>
      have hi := lt_length_of_mem_longestChain (hchain ▸ List.mem_cons_self)
      exact h.exists_backtrack hi hi
  rw [hstart, hmarks, longestIncreasing_eq_mapIdx]
  exact congrArg some (eq_of_backtrack_linked (linked_getLast? h.linked) hmarks)

end Marks

/-- **The marked values are a longest increasing subsequence, and walking back finds them.**  There
is a mark for each value of any sequence, the marked values go up strictly, and no strictly
increasing subsequence has more values than there are marks.  The trail of the values can be laid,
each of its links leads to an earlier position, a walk back along them ends from wherever it starts
without leaving the list, and from the last tail it leaves exactly these marks. -/
theorem longestIncreasing_longest (xs : List Nat) :
    (longestIncreasing xs).length = xs.length ∧
    LongestRising (kept xs (longestIncreasing xs)) xs ∧
    (kept xs (longestIncreasing xs)).length = (longestIncreasing xs).count true ∧
    ∃ t, trail xs = some t ∧ Descending t.links ∧
      (∀ i < xs.length, ∃ marks,
        backtrack t.links (i + 1) (List.replicate xs.length false) (some i) = some marks) ∧
      backtrack t.links xs.length (List.replicate xs.length false) t.tails.getLast? =
        some (longestIncreasing xs) := by
  have hlength := longestIncreasing_length xs
  obtain ⟨t, ht, hshows⟩ := Trail.exists_shows (List.prefix_refl xs)
  exact ⟨hlength, longestRising_kept xs, length_kept (Nat.le_of_eq hlength), t, ht,
    hshows.descending, fun i hi => hshows.exists_backtrack hi (Nat.lt_succ_self i),
    hshows.backtrack_eq⟩

/-- The link of position 1 leads to position 0, whose place among the tails is taken by position 2;
of the equal values at positions 4 and 5 the later one takes the place of the earlier one. -/
example : trail [2, 5, 2, 3, 5, 5, 4] =
    some ⟨[2, 3, 6], [none, some 0, none, some 2, some 3, some 3, some 3]⟩ := by decide +kernel

end GroupedView
