import GroupedView.Connection
import GroupedView.Partner

/-!
# GroupedView.Describe — one-line descriptions of the values of this library

Each description names the type as its readers know it and lists the parts in a fixed order.
Large values, such as views, stores and connections, are described by their sizes.
-/

open Std

namespace GroupedView

open Text (quote record partialRecord tuple list set table optional truth)

def GroupId.describe (g : GroupId) : String := tuple "GroupId" [quote g.name]

def ItemKey.describe (k : ItemKey) : String :=
  record "ItemKey" [("collection", quote k.collection), ("key", quote k.key)]

def TransactionId.describe (t : TransactionId) : String :=
  tuple "TransactionId" [toString t.number]

def Position.describe (p : Position) : String :=
  record "GroupPosition" [("group", p.group.describe), ("index", toString p.index)]

/-! ## Options -/

def MappingPolicy.describe : MappingPolicy → String
  | strict => "Strict"
  | lenient => "Lenient"

def ViewOptions.describe (o : ViewOptions) : String :=
  record "ViewOptions"
    [("verify_determinism", truth o.verify), ("mapping_policy", o.policy.describe),
      ("allowed_collections", optional (o.collections.map fun c => set (c.toList.map quote)))]

/-- An arrangement by its options; its functions are not shown. -/
def Arrangement.describe {m : Type → Type} {V S : Type} (a : Arrangement m V S) : String :=
  partialRecord "ViewConfig" [("options", a.options.describe)]

/-! ## Views and batches -/

def View.describe {S : Type} (v : View S) : String :=
  record "ViewState"
    [("groups", toString v.groups.size), ("rows", toString v.size),
      ("excluded", toString v.excluded.size), ("known_groups", toString v.known.size)]

/-- The description of a view that a batch is to be folded into. -/
def View.describeBefore {S : Type} (v : View S) : String :=
  record "ChangeComputer" [("pre", v.describe)]

def NetChange.describe : NetChange → String
  | insert k q => record "Insert" [("key", k.describe), ("to", q.describe)]
  | delete k p => record "Delete" [("key", k.describe), ("from", p.describe)]
  | update k p q =>
    record "Update" [("key", k.describe), ("from", p.describe), ("to", q.describe)]
  | move k p q => record "Move" [("key", k.describe), ("from", p.describe), ("to", q.describe)]

def GroupEdit.describe : GroupEdit → String
  | inserted => "Inserted"
  | deleted => "Deleted"

def GroupChange.describe (c : GroupChange) : String :=
  record "GroupChange" [("group", c.group.describe), ("kind", c.edit.describe)]

def Lengths.describe (l : Lengths) : String :=
  record "GroupLengths" [("before", toString l.before), ("after", toString l.after)]

def NetChanges.describe (n : NetChanges) : String :=
  record "RawChangeSet"
    [("rows", list (n.rows.map NetChange.describe)),
      ("groups", list (n.groups.map GroupChange.describe)),
      ("lengths", table (n.lengths.toList.map fun (g, l) => (g.describe, l.describe)))]

def Computed.describe {S : Type} (c : Computed S) : String :=
  record "ComputedBatch"
    [("state", c.view.describe), ("changes", c.changes.describe),
      ("mutations", toString c.mutations)]

/-! ## Display -/

/-- A mapping by its listed groups and those marked static, listed or not. -/
def Mapping.describe (m : Mapping) : String :=
  record "Mapping"
    [("groups", list (m.groups.map GroupId.describe)),
      ("static_groups", set (m.statics.toList.map GroupId.describe))]

def Section.describe (s : Section) : String :=
  record "ModelSection"
    [("group", s.group.describe), ("keys", list (s.keys.map ItemKey.describe))]

def SectionList.describe (l : SectionList) : String :=
  record "SectionedModel" [("sections", list (l.map Section.describe))]

def Phase.describe : Phase → String
  | idle => "Idle"
  | processing => "Processing"

def Connection.describe {S : Type} (c : Connection S) : String :=
  record "ViewConnection"
    [("mapping", c.display.mapping.describe), ("last", c.display.last.describe),
      ("rows", toString c.display.rowCount), ("phase", c.phase.describe)]

def Connection.VerifyError.message : Connection.VerifyError → String
  | refused cause => "processing failed: " ++ cause.message
  | unfit cause => "change list does not apply: " ++ cause.message
  | diverged applied expected =>
    "change list applied to " ++ applied.describe ++ " instead of " ++ expected.describe

/-! ## Stores and partners -/

def Store.describe {V : Type} (s : Store V) : String :=
  record "MemoryStore"
    [("items", toString s.size), ("transactions", toString s.log.length),
      ("last", s.last.describe)]

def PartnerId.describe (i : PartnerId) : String := tuple "PartnerId" [toString i.number]

def Registry.describe {P : Type} (r : Registry P) : String :=
  record "PartnerRegistry"
    [("keys", toString r.keyCount), ("partners", toString r.size)]

end GroupedView
