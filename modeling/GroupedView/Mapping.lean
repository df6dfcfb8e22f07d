import GroupedView.Options
import GroupedView.ViewError

/-!
# GroupedView.Mapping — which groups are shown as sections, and in which order

A mapping lists groups without repetition.  Those that have rows are shown, and those that are marked
static.
-/

open Std

namespace GroupedView

/-- The groups that are shown as sections, in order. -/
structure Mapping where
  groups : List GroupId := []
  /-- Groups that are shown even without rows, as far as they are listed. -/
  statics : GroupSet := ∅
  nodup : groups.Nodup := by decide
deriving DecidableEq

namespace Mapping

/-- A list of groups with each repetition after the first left out. -/
def distinct : List GroupId → List GroupId
  | [] => []
  | g :: rest => g :: (distinct rest).filter (· ≠ g)

theorem distinct_nodup (groups : List GroupId) : (distinct groups).Nodup := by
  induction groups with
  | nil => exact List.nodup_nil
  | cons g rest ih =>
    rw [distinct, List.nodup_cons]
    exact ⟨by simp, ih.filter _⟩

@[simp] theorem mem_distinct {g : GroupId} {groups : List GroupId} :
    g ∈ distinct groups ↔ g ∈ groups := by
  induction groups with
  | nil => simp [distinct]
  | cons h rest ih =>
    rw [distinct, List.mem_cons, List.mem_filter, ih, List.mem_cons]
    by_cases hg : g = h <;> simp [hg]

def ofGroups (groups : List GroupId) : Mapping where
  groups := distinct groups
  nodup := distinct_nodup groups

def empty : Mapping := {}

def withStatic (m : Mapping) (g : GroupId) : Mapping := { m with statics := m.statics.insert g }

variable (m : Mapping)

def contains (g : GroupId) : Bool := g ∈ m.groups

/-- Whether a group is listed and shown even without rows. -/
def isStatic (g : GroupId) : Bool := m.statics.contains g && m.contains g

def size : Nat := m.groups.length

def isEmpty : Bool := m.groups.isEmpty

/-- The groups shown as sections when `length` gives the number of rows of each group. -/
def visible (length : GroupId → Nat) : List GroupId :=
  m.groups.filter fun g => m.statics.contains g || 0 < length g

theorem visible_nodup (length : GroupId → Nat) : (m.visible length).Nodup := m.nodup.filter _

/-- Whether the strict policy takes exception to a group. -/
def refuses (isKnown : GroupId → Bool) (g : GroupId) : Bool := !m.isStatic g && !isKnown g

/-- Check a mapping against the groups that a view knows. -/
def validate (policy : MappingPolicy) (isKnown : GroupId → Bool) : Except ViewError Unit :=
  match policy with
  | .lenient => .ok ()
  | .strict =>
    match m.groups.find? (m.refuses isKnown) with
    | some g => .error (.unknownGroup g)
    | none => .ok ()

variable {m} in
theorem unknownGroup_of_validate {policy : MappingPolicy} {isKnown : GroupId → Bool}
    {e : ViewError} (h : m.validate policy isKnown = .error e) :
    ∃ g ∈ m.groups, e = .unknownGroup g := by
  cases policy with
  | lenient => cases h
  | strict =>
    rw [validate] at h
    cases hg : m.groups.find? (m.refuses isKnown) with
    | none => rw [hg] at h; cases h
    | some g =>
      rw [hg] at h
      cases h
      exact ⟨g, List.mem_of_find?_eq_some hg, rfl⟩

end Mapping

end GroupedView
