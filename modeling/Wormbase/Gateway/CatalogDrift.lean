import Wormbase.Gateway.SchemaImpact
import Wormbase.Py.Dumps

/-! The drift between two snapshots of an external catalog: what each of three strategies proposes.

    Table sets, column sets and column types are compared apart, each with what it needs to be there. -/

namespace CatalogDrift
open Py SchemaImpacts

inductive DriftKind where
  | tableAdded
  | tableRemoved
  | columnAdded
  | columnRemoved
  | columnTypeChanged
  deriving DecidableEq

def DriftKind.text : DriftKind → String
  | tableAdded => "table_added"
  | tableRemoved => "table_removed"
  | columnAdded => "column_added"
  | columnRemoved => "column_removed"
  | columnTypeChanged => "column_type_changed"

structure CatalogColumn where
  name : String
  type : Option String := none

structure CatalogTable where
  tableId : String
  columns : List CatalogColumn := []

structure CatalogSnapshot where
  sourceId : String
  asOf : DateTime
  tables : List CatalogTable

/-- What a strategy compares and finds; `before` and `after` hold one text each, under a key of the kind. -/
structure Change where
  tableId : String
  column : Option String
  driftKind : DriftKind
  before : Option (String × String)
  after : Option (String × String)
  deriving DecidableEq

structure ProposedCatalogDrift where
  driftId : String
  sourceId : String
  change : Change
  strategy : String
  confidence : PyFloat
  reasoning : String
  evidence : Dict

/-- A descriptor as the dict that it is. -/
def descriptor : Option (String × String) → Val
  | none => .none
  | some p => .dict [(.str p.1, .str p.2)]

/-- `sorted(set(xs) - set(ys))`. -/
def sortedDiff (xs ys : List String) : List String :=
  ((xs.filter fun x => x ∉ ys).dedup).mergeSort fun a b => a ≤ b

/-! ### Snapshots as dicts -/

def CatalogSnapshot.ids (s : CatalogSnapshot) : List String := s.tables.map (·.tableId)

def CatalogTable.names (t : CatalogTable) : List String := t.columns.map (·.name)

/-- `{t.table_id: t for t in tables}.get(id)`: the last table of an id. -/
def CatalogSnapshot.tableOf (s : CatalogSnapshot) (id : String) : Option CatalogTable :=
  s.tables.reverse.find? fun t => t.tableId = id

/-- `{c.name: c.type for c in columns}.get(name)`. -/
def CatalogTable.typeOf (t : CatalogTable) (name : String) : Option String :=
  (t.columns.reverse.find? fun c => c.name = name).bind (·.type)

/-- `any(t.columns for t in tables)`. -/
def CatalogSnapshot.anyColumns (s : CatalogSnapshot) : Bool := s.tables.any fun t => !t.columns.isEmpty

section
variable (py : Interp)

/-- `f"{x!r}"` of a text. -/
def quoted (s : String) : String := String.ofList (reprStr py s)

/-- `make_drift_id`. -/
def makeDriftId (sourceId : String) (c : Change) : String :=
  let canonical := dumps (treeOf (.dict [(.str "source_id", .str sourceId), (.str "table_id", .str c.tableId),
    (.str "column", optText c.column), (.str "drift_kind", .str c.driftKind.text),
    (.str "before", descriptor c.before), (.str "after", descriptor c.after)]))
  String.ofList ((hex (py.sha256 (encodeUtf8 canonical))).take 32)

/-- `_build_drift`. -/
def buildDrift (sourceId : String) (change : Change) (strategy : String) (confidence : PyFloat) (reasoning : String)
    (evidence : Dict) : ProposedCatalogDrift where
  driftId := makeDriftId py sourceId change
  sourceId
  change
  strategy
  confidence := round4 (PyFloat.max .zero (PyFloat.min .one confidence))
  reasoning
  evidence

/-- The two times that every evidence ends with. -/
def asOfs (current baseline : CatalogSnapshot) : Dict :=
  [(.str "current_as_of", .str (DateTime.isoformat current.asOf)),
    (.str "baseline_as_of", .str (DateTime.isoformat baseline.asOf))]

/-! ### Table sets -/

def tableAdded (id : String) : Change := ⟨id, none, .tableAdded, none, some ("table_id", id)⟩
def tableRemoved (id : String) : Change := ⟨id, none, .tableRemoved, some ("table_id", id), none⟩

/-- `TableSetDriftStrategy.propose`; its confidence is 0.90 unless it is given another. -/
def tableSet (confidence : PyFloat) (current : CatalogSnapshot) (baseline : Option CatalogSnapshot) :
    List ProposedCatalogDrift :=
  match baseline with
  | none => []
  | some baseline =>
    let added := sortedDiff current.ids baseline.ids
    let removed := sortedDiff baseline.ids current.ids
    (added.map fun id => buildDrift py current.sourceId (tableAdded id) "table_set" confidence
      ("table_id " ++ quoted py id ++ " present in current snapshot (as_of=" ++ DateTime.isoformat current.asOf ++
        ") but absent from baseline (as_of=" ++ DateTime.isoformat baseline.asOf ++ "); propose table_added at " ++
        String.ofList confidence.fixed2)
      ([(.str "heuristic", .str "table_set_diff"), (.str "added_table_id", .str id)] ++ asOfs current baseline)) ++
    (removed.map fun id => buildDrift py current.sourceId (tableRemoved id) "table_set" confidence
      ("table_id " ++ quoted py id ++ " present in baseline snapshot (as_of=" ++ DateTime.isoformat baseline.asOf ++
        ") but absent from current (as_of=" ++ DateTime.isoformat current.asOf ++ "); propose table_removed at " ++
        String.ofList confidence.fixed2)
      ([(.str "heuristic", .str "table_set_diff"), (.str "removed_table_id", .str id)] ++ asOfs current baseline))

/-! ### Column sets -/

def columnAdded (id name : String) : Change := ⟨id, some name, .columnAdded, none, some ("name", name)⟩
def columnRemoved (id name : String) : Change := ⟨id, some name, .columnRemoved, some ("name", name), none⟩

/-- `ColumnSetDriftStrategy.propose`; its confidence is 0.85 unless it is given another. -/
def columnSet (confidence : PyFloat) (current : CatalogSnapshot) (baseline : Option CatalogSnapshot) :
    List ProposedCatalogDrift :=
  match baseline with
  | none => []
  | some baseline =>
    if !current.anyColumns && !baseline.anyColumns then []
    else current.tables.flatMap fun cur =>
      match baseline.tableOf cur.tableId with
      | none => []
      | some base =>
        let added := sortedDiff cur.names base.names
        let removed := sortedDiff base.names cur.names
        (added.map fun name => buildDrift py current.sourceId (columnAdded cur.tableId name) "column_set" confidence
          ("column " ++ quoted py name ++ " present on " ++ quoted py cur.tableId ++
            " in current snapshot but absent from baseline; propose column_added at " ++
            String.ofList confidence.fixed2)
          ([(.str "heuristic", .str "column_set_diff"), (.str "added_column_name", .str name),
            (.str "table_id", .str cur.tableId)] ++ asOfs current baseline)) ++
        (removed.map fun name => buildDrift py current.sourceId (columnRemoved cur.tableId name) "column_set"
          confidence
          ("column " ++ quoted py name ++ " present on " ++ quoted py cur.tableId ++
            " in baseline snapshot but absent from current; propose column_removed at " ++
            String.ofList confidence.fixed2)
          ([(.str "heuristic", .str "column_set_diff"), (.str "removed_column_name", .str name),
            (.str "table_id", .str cur.tableId)] ++ asOfs current baseline))

/-! ### Column types -/

def typeChanged (id name old new : String) : Change :=
  ⟨id, some name, .columnTypeChanged, some ("type", old), some ("type", new)⟩

/-- `ColumnTypeDriftStrategy.propose`; its confidence is 0.80 unless it is given another. -/
def columnType (confidence : PyFloat) (current : CatalogSnapshot) (baseline : Option CatalogSnapshot) :
    List ProposedCatalogDrift :=
  match baseline with
  | none => []
  | some baseline =>
    if !current.anyColumns && !baseline.anyColumns then []
    else current.tables.flatMap fun cur =>
      match baseline.tableOf cur.tableId with
      | none => []
      | some base => cur.columns.filterMap fun c =>
        match base.typeOf c.name, c.type with
        | some old, some new =>
          if old = new then none
          else some (buildDrift py current.sourceId (typeChanged cur.tableId c.name old new) "column_type" confidence
            ("column " ++ quoted py c.name ++ " on " ++ quoted py cur.tableId ++ " changed type from " ++ quoted py old ++
              " to " ++ quoted py new ++ "; propose column_type_changed at " ++ String.ofList confidence.fixed2)
            ([(.str "heuristic", .str "column_type_diff"), (.str "table_id", .str cur.tableId),
              (.str "column_name", .str c.name), (.str "before_type", .str old), (.str "after_type", .str new)] ++
              asOfs current baseline))
        | _, _ => none

end

end CatalogDrift
