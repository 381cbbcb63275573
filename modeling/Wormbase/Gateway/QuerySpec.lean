import Wormbase.Py.Coerce

/-! The QuerySpec pipeline: validate, plan, compile.

    What the catalog answers is part of the input, as the dicts that it hands out. -/

namespace Gateway
open Py

structure QuerySpec where
  metric : Option String
  dimensions : List String
  measures : List String
  filter : Option (List (String × Val))
  timeRange : Option (String × String)
  limit : ℤ

/-- The fields of a spec that names only a metric and a filter, as `lake_semantic_metric` builds it. -/
def QuerySpec.ofMetric (name : String) (filter : Option (List (String × Val))) : QuerySpec :=
  ⟨some name, [], [], filter, none, 1000⟩

structure CompiledQuery where
  sql : String
  upstreamKind : Val
  upstreamResourceId : Val
  parameterValues : List Val
  maskingPoliciesApplied : List String
  metricName : Option String

structure UpstreamPlan where
  upstreamKind : Val
  upstreamResourceId : Val
  primaryTable : Val
  metricDefinition : Option Dict

/-- `CatalogClient`, by what it answers. -/
structure CatalogClient where
  getMetric : String → Option Dict
  getTable : Val → Option Dict
  listTables : List Dict

/-! ### Errors -/

def metricNotFound (msg : String) : Err := ⟨"MetricNotFound", msg⟩
def dimensionNotFound (msg : String) : Err := ⟨"DimensionNotFound", msg⟩
def measureNotFound (msg : String) : Err := ⟨"MeasureNotFound", msg⟩
def compilationError (msg : String) : Err := ⟨"CompilationError", msg⟩

/-! ### Columns and measures -/

/-- `v[name]`. -/
def itemOf (v : Val) (name : String) : Except Err Val :=
  match v with
  | .dict d => Dict.item d name
  | .list _ | .str _ | .bytes _ =>
    .error (typeError s!"{v.typeName} indices must be integers or slices, not str")
  | v => .error (typeError s!"'{v.typeName}' object is not subscriptable")

/-- `{c["name"] for c in t.get("columns", [])}`. -/
def columnNames (t : Dict) : Except Err (List Key) := do
  (← (t.getD "columns" (.list [])).toList).mapM fun c => do (← itemOf c "name").hash

/-- What stands after the first parenthesis. -/
def afterParen (m : String) : Option (List Char) :=
  match m.toList.dropWhile (· ≠ '(') with
  | [] => none
  | _ :: rest => some rest

/-- `s.rstrip(")")`. -/
def rstripParen (s : List Char) : List Char := (s.reverse.dropWhile (· = ')')).reverse

/-- `m.split("(", 1)[1].rstrip(")") if "(" in m else m`. -/
def measureColumn (m : String) : String :=
  match afterParen m with
  | some rest => String.ofList (rstripParen rest)
  | none => m

/-! ### The pipeline -/

section
variable (py : Interp)

/-- `{x!r}` of a text. -/
def quoted (s : String) : String := String.ofList (reprStr py s)

/-- `spec.metric` as a condition: an empty name is none. -/
def QuerySpec.named (spec : QuerySpec) : Option String := spec.metric.filter (· ≠ "")

/-- `QuerySpec.validate`. -/
def QuerySpec.validate (spec : QuerySpec) : Except Err Unit :=
  if spec.named = none ∧ spec.dimensions = [] ∧ spec.measures = [] then
    .error ⟨"QuerySpecValidationError", "must supply either `metric` or `dimensions+measures`"⟩
  else .ok ()

/-- A loop that raises at the first text that is not known. -/
def requireAll (xs : List String) (known : String → Bool) (err : String → Err) : Except Err Unit :=
  match xs.find? fun x => !known x with
  | some x => .error (err x)
  | none => .ok ()

def validateQuerySpec (spec : QuerySpec) (catalog : CatalogClient) : Except Err Unit := do
  spec.validate
  match spec.named with
  | some name =>
    match catalog.getMetric name with
    | none => .error (metricNotFound ("metric " ++ quoted py name ++ " not in catalog-mirror registry"))
    | some _ => .ok ()
  | none =>
    let allColumnNames := (← catalog.listTables.mapM columnNames).flatten
    requireAll spec.dimensions (fun d => .str d ∈ allColumnNames) fun d =>
      dimensionNotFound ("dimension " ++ quoted py d ++ " not found in any catalog table")
    requireAll spec.measures (fun m => .str (measureColumn m) ∈ allColumnNames) fun m =>
      measureNotFound ("measure column " ++ quoted py (measureColumn m) ++ " not found in any catalog table")

/-- The loop over the tables in ad-hoc mode: the first one with all columns. -/
def planTables (spec : QuerySpec) : List Dict → Except Err UpstreamPlan
  | [] => .error (compilationError "could not find a single table covering all requested dimensions+measures; multi-table joins are v1.1")
  | t :: rest => do
    let colNames ← columnNames t
    match (spec.dimensions ++ spec.measures.map measureColumn).all fun c => .str c ∈ colNames with
    | true =>
      let name ← t.item "name"
      return ⟨t.getD "upstream_kind" (.str "snowflake"), t.getD "external_id" name, name, none⟩
    | false => planTables spec rest

/-- `table["name"] if table else metric.get("primary_table", "unknown")`. -/
def primaryTable (metric : Dict) : Option Dict → Except Err Val
  | some (item :: items) => Dict.item (item :: items) "name"
  | _ => .ok (metric.getD "primary_table" (.str "unknown"))

def planQuery (spec : QuerySpec) (catalog : CatalogClient) : Except Err UpstreamPlan :=
  match spec.named with
  | some name =>
    match catalog.getMetric name with
    | none => .error (metricNotFound ("metric " ++ quoted py name))
    | some metric => do
      let sourceTableId := (metric.get "source_table_id").or (metric.get "source_id")
      let table := if sourceTableId.truthy then catalog.getTable sourceTableId else none
      let primary ← primaryTable metric table
      return ⟨metric.getD "source_kind" (.str "snowflake"), sourceTableId.or (.str "unknown"), primary,
        some metric⟩
  | none => planTables spec catalog.listTables

/-- The items of the `SELECT`, by the branch of the source. -/
def selectParts (spec : QuerySpec) (plan : UpstreamPlan) : List String :=
  match spec.named, plan.metricDefinition with
  | some name, some (item :: items) =>
    let expression := (Dict.get (item :: items) "expression").or (.str "SELECT 1")
    spec.dimensions ++ [expression.toStr py ++ " AS " ++ name]
  | _, _ => spec.dimensions ++ spec.measures

/-- The clauses of the `WHERE`, with the values for their placeholders. -/
def whereClauses (spec : QuerySpec) : List (String × List Val) :=
  ((spec.filter.getD []).map fun p => (p.1 ++ " = %s", [p.2])) ++
    match spec.timeRange with
    | some (start, stop) => [("event_time BETWEEN %s AND %s", [.str start, .str stop])]
    | none => []

def compileToSql (spec : QuerySpec) (plan : UpstreamPlan) (maskingPolicies : List String) :
    Except Err CompiledQuery :=
  if plan.upstreamKind.isText "snowflake" then
    let parts := selectParts py spec plan
    let selectClause := if parts = [] then "*" else ", ".intercalate parts
    let sql := "SELECT " ++ selectClause ++ " FROM " ++ plan.primaryTable.toStr py
    let clauses := whereClauses spec
    let sql := if clauses = [] then sql else sql ++ " WHERE " ++ " AND ".intercalate (clauses.map Prod.fst)
    let sql := if spec.dimensions = [] then sql else sql ++ " GROUP BY " ++ ", ".intercalate spec.dimensions
    let sql := sql ++ " LIMIT " ++ String.ofList (intText spec.limit)
    .ok ⟨sql, plan.upstreamKind, plan.upstreamResourceId, clauses.flatMap Prod.snd, maskingPolicies,
      spec.metric⟩
  else
    .error (compilationError ("compile target " ++ String.ofList (plan.upstreamKind.repr py) ++
      " unsupported in v1; only snowflake"))

end

end Gateway
