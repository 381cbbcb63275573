import Wormbase.Gateway.QuerySpec
import Wormbase.Lib.Join

/-! What the compiled SQL is made of, and how much of it the validation has seen.

    The compiler joins texts; here they are the parts of one `SELECT`, so that each part can be asked
    where it comes from. -/

namespace Gateway
open Py

/-! ### A `SELECT` and its text -/

inductive Item where
  | column (name : String)
  | measure (text : String)
  | metric (expression name : String)

inductive Condition where
  | equals (key : String)
  | timeRange

structure Select where
  items : List Item
  table : String
  conditions : List Condition
  groupBy : List String
  limit : ℤ

def Item.text : Item → String
  | .column name => name
  | .measure text => text
  | .metric expression name => expression ++ " AS " ++ name

def Condition.text : Condition → String
  | .equals key => key ++ " = %s"
  | .timeRange => "event_time BETWEEN %s AND %s"

def Condition.placeholders : Condition → ℕ
  | .equals _ => 1
  | .timeRange => 2

/-- `SELECT items FROM table [WHERE conditions] [GROUP BY columns] LIMIT n`. -/
def Select.text (q : Select) : String :=
  "SELECT " ++ (if q.items = [] then "*" else ", ".intercalate (q.items.map Item.text)) ++
    " FROM " ++ q.table ++
    (if q.conditions = [] then "" else " WHERE " ++ " AND ".intercalate (q.conditions.map Condition.text)) ++
    (if q.groupBy = [] then "" else " GROUP BY " ++ ", ".intercalate q.groupBy) ++
    " LIMIT " ++ String.ofList (intText q.limit)

def Select.placeholders (q : Select) : ℕ := (q.conditions.map Condition.placeholders).sum

/-! ### Where the parts come from -/

/-- Some table of the catalog has the column. -/
def CatalogClient.HasColumn (catalog : CatalogClient) (name : String) : Prop :=
  ∃ t ∈ catalog.listTables, ∃ names, columnNames t = .ok names ∧ .str name ∈ names

/-- A word of ASCII letters, digits and underscores. -/
def IsName (s : List Char) : Prop := s ≠ [] ∧ ∀ c ∈ s, c.isAlphanum ∨ c = '_'

instance (s : List Char) : Decidable (IsName s) :=
  @instDecidableAnd _ _ inferInstance (List.decidableBAll (fun c => c.isAlphanum ∨ c = '_') s)

/-- `column` or `name(column)`. -/
def MeasureForm (m : String) : Prop :=
  m = measureColumn m ∨ ∃ name, IsName name ∧ m.toList = name ++ '(' :: (measureColumn m).toList ++ [')']

section
variable (py : Interp) (catalog : CatalogClient)

/-- The compiled query as a `SELECT`. -/
def selectOf (spec : QuerySpec) (plan : UpstreamPlan) : Select where
  items :=
    match spec.named, plan.metricDefinition with
    | some name, some (item :: items) =>
      spec.dimensions.map .column ++
        [.metric (((Dict.get (item :: items) "expression").or (.str "SELECT 1")).toStr py) name]
    | _, _ => spec.dimensions.map .column ++ spec.measures.map .measure
  table := plan.primaryTable.toStr py
  conditions := ((spec.filter.getD []).map fun p => .equals p.1) ++
    match spec.timeRange with
    | some _ => [.timeRange]
    | none => []
  groupBy := spec.dimensions
  limit := spec.limit

/-- What stands in the `SELECT` is a column of the catalog, a measure of one, or a metric of the catalog
    with its own expression. -/
def Item.Inside : Item → Prop
  | .column name => catalog.HasColumn name
  | .measure text => catalog.HasColumn (measureColumn text) ∧ MeasureForm text
  | .metric expression name => ∃ definition, catalog.getMetric name = some definition ∧
      expression = ((Dict.get definition "expression").or (.str "SELECT 1")).toStr py

def Condition.Inside : Condition → Prop
  | .equals key => catalog.HasColumn key
  | .timeRange => True

structure Select.Inside (q : Select) : Prop where
  items : ∀ item ∈ q.items, item.Inside py catalog
  conditions : ∀ condition ∈ q.conditions, condition.Inside catalog
  groupBy : ∀ name ∈ q.groupBy, catalog.HasColumn name

/-- The SQL is a `SELECT` of parts of the catalog, with a value for each placeholder. -/
structure CompiledQuery.Inside (spec : QuerySpec) (plan : UpstreamPlan) (compiled : CompiledQuery) :
    Prop where
  text : compiled.sql = (selectOf py spec plan).text
  values : compiled.parameterValues.length = (selectOf py spec plan).placeholders
  parts : (selectOf py spec plan).Inside py catalog

/-! ### What the validation has not seen -/

/-- What stands before the first parenthesis. -/
def callName (m : String) : List Char := m.toList.takeWhile (· ≠ '(')

/-- The parentheses that end the text after the first one. -/
def closings (m : String) : ℕ :=
  match afterParen m with
  | some rest => (rest.reverse.takeWhile (· = ')')).length
  | none => 0

/-- A measure with a parenthesis has a name before it, and closes it once. -/
def CallsByName (m : String) : Prop :=
  (afterParen m).isSome → IsName (callName m) ∧ closings m = 1

/-- The measures are copied where no definition takes their place. -/
def copiedMeasures (spec : QuerySpec) (plan : UpstreamPlan) : List String :=
  match spec.named, plan.metricDefinition with
  | some _, some (_ :: _) => []
  | _, _ => spec.measures

/-- The filter names columns; a measure that is copied calls by name; and with a metric, whose columns
    nobody checks, dimensions and copied measures are columns of the catalog. -/
structure Unseen (spec : QuerySpec) (plan : UpstreamPlan) : Prop where
  filter : ∀ p ∈ spec.filter.getD [], catalog.HasColumn p.1
  measures : ∀ m ∈ copiedMeasures spec plan, CallsByName m
  metric : spec.named ≠ none → (∀ d ∈ spec.dimensions, catalog.HasColumn d) ∧
    ∀ m ∈ copiedMeasures spec plan, catalog.HasColumn (measureColumn m)

end

/-! ### The text of the compiler -/

section
variable {py : Interp} {catalog : CatalogClient} {spec : QuerySpec} {plan : UpstreamPlan}

theorem selectParts_eq : selectParts py spec plan = (selectOf py spec plan).items.map Item.text := by
  have hcolumns : spec.dimensions.map (Item.text ∘ Item.column) = spec.dimensions := List.map_id _
  have hmeasures : spec.measures.map (Item.text ∘ Item.measure) = spec.measures := List.map_id _
  simp only [selectParts, selectOf]
  rcases spec.named with _ | name
  · simp [hcolumns, hmeasures]
  · rcases plan.metricDefinition with _ | _ | ⟨item, items⟩ <;> simp [hcolumns, hmeasures, Item.text]

theorem whereClauses_eq : (whereClauses spec).map Prod.fst =
    (selectOf py spec plan).conditions.map Condition.text := by
  unfold whereClauses selectOf
  cases spec.timeRange <;> simp [Condition.text, Function.comp_def]

theorem whereClauses_values : ((whereClauses spec).flatMap Prod.snd).length =
    (selectOf py spec plan).placeholders := by
  have hone : ∀ items : List (String × Val),
      ((items.map fun p => (p.1 ++ " = %s", [p.2])).flatMap Prod.snd).length =
        ((items.map fun p => Condition.equals p.1).map Condition.placeholders).sum := by
    intro items
    induction items with
    | nil => rfl
    | cons p items ih =>
      simp only [List.map_cons, List.flatMap_cons, List.length_append, List.sum_cons, ih]
      rfl
  rw [whereClauses, selectOf, Select.placeholders, List.flatMap_append, List.length_append, hone,
    List.map_append, List.sum_append]
  cases spec.timeRange <;> rfl

theorem compileToSql_ok {maskingPolicies : List String} {compiled : CompiledQuery}
    (h : compileToSql py spec plan maskingPolicies = .ok compiled) :
    compiled.sql = (selectOf py spec plan).text ∧
      compiled.parameterValues.length = (selectOf py spec plan).placeholders := by
  simp only [compileToSql] at h
  split at h
  · obtain rfl := Except.ok.inj h
    refine ⟨?_, whereClauses_values⟩
    have hitems : selectParts py spec plan = [] ↔ (selectOf py spec plan).items = [] := by
      rw [selectParts_eq, List.map_eq_nil_iff]
    have hconditions : whereClauses spec = [] ↔ (selectOf py spec plan).conditions = [] := by
      rw [← List.map_eq_nil_iff (f := Prod.fst), @whereClauses_eq py spec plan, List.map_eq_nil_iff]
    have hclause : ∀ (c : Prop) [Decidable c] (sql word text : String),
        (if c then sql else sql ++ word ++ text) = sql ++ if c then "" else word ++ text := by
      intro c _ sql word text
      split
      · exact (String.append_empty).symm
      · exact String.append_assoc
    simp only [hitems, hconditions, hclause]
    rw [selectParts_eq, @whereClauses_eq py spec plan]
    rfl
  · cases h

/-! ### Measures -/

theorem afterParen_split {m : String} {rest : List Char} (h : afterParen m = some rest) :
    m.toList = callName m ++ '(' :: rest := by
  unfold afterParen at h
  split at h
  · cases h
  · rename_i c tail hdrop
    obtain rfl := Option.some.inj h
    have hc : c = '(' := by
      have hhead := List.head?_dropWhile_not (· ≠ '(') m.toList
      rw [hdrop] at hhead
      simpa using hhead
    have happ := List.takeWhile_append_dropWhile (p := fun c => decide (c ≠ '(')) (l := m.toList)
    rw [hdrop, hc] at happ
    exact happ.symm

/-- The text after the parenthesis is the column and what closes it. -/
theorem rstripParen_split (rest : List Char) :
    rest = rstripParen rest ++ List.replicate (rest.reverse.takeWhile (· = ')')).length ')' := by
  have happ := List.takeWhile_append_dropWhile (p := fun c => decide (c = ')')) (l := rest.reverse)
  have hreplicate : rest.reverse.takeWhile (· = ')') =
      List.replicate (rest.reverse.takeWhile (· = ')')).length ')' :=
    List.eq_replicate_of_mem fun c hc => by simpa using List.mem_takeWhile_imp hc
  have hrev := congrArg List.reverse happ
  rw [List.reverse_append, List.reverse_reverse, hreplicate, List.reverse_replicate] at hrev
  simpa [rstripParen] using hrev.symm

theorem measureForm_iff (m : String) : MeasureForm m ↔ CallsByName m := by
  cases hparen : afterParen m with
  | none =>
    have hcolumn : measureColumn m = m := by simp [measureColumn, hparen]
    exact iff_of_true (.inl hcolumn.symm) fun h => by simp [hparen] at h
  | some rest =>
    have hsplit := afterParen_split hparen
    have hcolumn : (measureColumn m).toList = rstripParen rest := by simp [measureColumn, hparen]
    have hclosings : closings m = (rest.reverse.takeWhile (· = ')')).length := by simp [closings, hparen]
    have hrest := rstripParen_split rest
    rw [← hclosings, ← hcolumn] at hrest
    have hfree : '(' ∉ callName m := fun h => by simpa using List.mem_takeWhile_imp h
    constructor
    · rintro (hself | ⟨name, hname, hform⟩) -
      · -- the column is shorter than the measure
        have hlen := congrArg List.length hsplit
        have hlen' := congrArg List.length hrest
        rw [List.length_append, List.length_cons] at hlen
        rw [List.length_append, ← hself] at hlen'
        omega
      · have hname' : '(' ∉ name := fun h => by
          rcases hname.2 _ h with halnum | hunder
          · exact absurd halnum (by decide)
          · exact absurd hunder (by decide)
        rw [hsplit, List.append_assoc, List.cons_append] at hform
        obtain ⟨hcall, hafter⟩ := Join.eq_of_append_cons_eq hfree hname' hform
        refine ⟨hcall ▸ hname, ?_⟩
        have hone := List.append_cancel_left (hrest.symm.trans hafter)
        simpa using congrArg List.length hone
    · intro h
      obtain ⟨hname, hone⟩ := h (by rw [hparen]; rfl)
      refine .inr ⟨callName m, hname, ?_⟩
      rw [hone] at hrest
      rw [hsplit, List.append_assoc, List.cons_append]
      exact congrArg (callName m ++ '(' :: ·) hrest

/-! ### What the validation has seen -/

theorem requireAll_ok {xs : List String} {known : String → Bool} {err : String → Err} :
    requireAll xs known err = .ok () ↔ ∀ x ∈ xs, known x = true := by
  unfold requireAll
  split
  · rename_i x hfound
    have hx := List.find?_some hfound
    have hmem := List.mem_of_find?_eq_some hfound
    simp only [Bool.not_eq_true', reduceCtorEq, false_iff, not_forall] at hx ⊢
    exact ⟨x, hmem, by simp [hx]⟩
  · rename_i hnone
    simpa using hnone

theorem hasColumn_of_names {catalog : CatalogClient} {names : List (List Key)} {name : String}
    (h : catalog.listTables.mapM columnNames = .ok names) (hname : .str name ∈ names.flatten) :
    catalog.HasColumn name := by
  obtain ⟨ks, hks, hmem⟩ := List.mem_flatten.mp hname
  obtain ⟨t, ht, hread⟩ := mapM_mem_out h hks
  exact ⟨t, ht, ks, hread, hmem⟩

/-- Without a metric, dimensions and measures are of columns of the catalog. -/
theorem validate_columns (h : validateQuerySpec py spec catalog = .ok ()) (hnamed : spec.named = none) :
    (∀ d ∈ spec.dimensions, catalog.HasColumn d) ∧
      ∀ m ∈ spec.measures, catalog.HasColumn (measureColumn m) := by
  obtain ⟨-, -, h⟩ := bind_eq_ok.mp h
  rw [hnamed] at h
  obtain ⟨names, hnames, h⟩ := bind_eq_ok.mp h
  obtain ⟨_, hdims, hmeasures⟩ := bind_eq_ok.mp h
  refine ⟨fun d hd => ?_, fun m hm => ?_⟩
  · exact hasColumn_of_names hnames (of_decide_eq_true (requireAll_ok.mp hdims d hd))
  · exact hasColumn_of_names hnames (of_decide_eq_true (requireAll_ok.mp hmeasures m hm))

/-- The plan of a metric has the definition that the catalog has. -/
theorem planQuery_metric {name : String} (hp : planQuery py spec catalog = .ok plan)
    (hnamed : spec.named = some name) :
    ∃ definition, catalog.getMetric name = some definition ∧ plan.metricDefinition = some definition := by
  simp only [planQuery, hnamed] at hp
  split at hp
  · cases hp
  · rename_i definition hdefinition
    obtain ⟨primary, -, hp⟩ := bind_eq_ok.mp hp
    obtain rfl := Except.ok.inj hp
    exact ⟨definition, hdefinition, rfl⟩

theorem conditions_inside_iff : (∀ condition ∈ (selectOf py spec plan).conditions, condition.Inside catalog) ↔
    ∀ p ∈ spec.filter.getD [], catalog.HasColumn p.1 := by
  simp only [selectOf, List.forall_mem_append, List.forall_mem_map]
  refine and_iff_left ?_
  split
  · exact List.forall_mem_singleton.mpr trivial
  · exact fun _ h => nomatch h

/-- Items of dimensions and measures alone. -/
theorem copied_inside_iff : (∀ item ∈ spec.dimensions.map .column ++ spec.measures.map .measure,
      Item.Inside py catalog item) ↔ (∀ d ∈ spec.dimensions, catalog.HasColumn d) ∧
        (∀ m ∈ spec.measures, catalog.HasColumn (measureColumn m)) ∧ ∀ m ∈ spec.measures, CallsByName m := by
  simp only [List.forall_mem_append, List.forall_mem_map, Item.Inside, measureForm_iff]
  refine and_congr_right fun _ => ?_
  constructor
  · exact fun h => ⟨fun m hm => (h m hm).1, fun m hm => (h m hm).2⟩
  · exact fun h m hm => ⟨h.1 m hm, h.2 m hm⟩

/-- The parts are of the catalog exactly when what nobody checks is. -/
theorem select_inside_iff (hv : validateQuerySpec py spec catalog = .ok ())
    (hp : planQuery py spec catalog = .ok plan) :
    (selectOf py spec plan).Inside py catalog ↔ Unseen catalog spec plan := by
  have hparts : (selectOf py spec plan).Inside py catalog ↔
      (∀ item ∈ (selectOf py spec plan).items, Item.Inside py catalog item) ∧
        (∀ p ∈ spec.filter.getD [], catalog.HasColumn p.1) ∧ ∀ d ∈ spec.dimensions, catalog.HasColumn d := by
    rw [← @conditions_inside_iff py catalog spec plan]
    exact ⟨fun h => ⟨h.items, h.conditions, h.groupBy⟩, fun h => ⟨h.1, h.2.1, h.2.2⟩⟩
  rw [hparts]
  cases hnamed : spec.named with
  | none =>
    -- the validation has seen the columns, not the names before the parentheses
    obtain ⟨hdims, hcolumns⟩ := validate_columns hv hnamed
    have hitems : (selectOf py spec plan).items =
        spec.dimensions.map .column ++ spec.measures.map .measure := by
      simp only [selectOf, hnamed]
    have hcopied : copiedMeasures spec plan = spec.measures := by simp only [copiedMeasures, hnamed]
    rw [hitems, copied_inside_iff]
    constructor
    · rintro ⟨⟨-, -, hcalls⟩, hfilter, -⟩
      exact ⟨hfilter, hcopied ▸ hcalls, fun h => absurd hnamed h⟩
    · rintro ⟨hfilter, hcalls, -⟩
      exact ⟨⟨hdims, hcolumns, hcopied ▸ hcalls⟩, hfilter, hdims⟩
  | some name =>
    obtain ⟨definition, hmetric, hdefinition⟩ := planQuery_metric hp hnamed
    have hsome : spec.named ≠ none := by simp [hnamed]
    cases definition with
    | nil =>
      have hitems : (selectOf py spec plan).items =
          spec.dimensions.map .column ++ spec.measures.map .measure := by
        simp only [selectOf, hnamed, hdefinition]
      have hcopied : copiedMeasures spec plan = spec.measures := by
        simp only [copiedMeasures, hnamed, hdefinition]
      rw [hitems, copied_inside_iff]
      constructor
      · rintro ⟨⟨hdims, hcolumns, hcalls⟩, hfilter, -⟩
        exact ⟨hfilter, hcopied ▸ hcalls, fun _ => ⟨hdims, hcopied ▸ hcolumns⟩⟩
      · rintro ⟨hfilter, hcalls, hseen⟩
        obtain ⟨hdims, hcolumns⟩ := hseen hsome
        rw [hcopied] at hcalls hcolumns
        exact ⟨⟨hdims, hcolumns, hcalls⟩, hfilter, hdims⟩
    | cons item items =>
      have hitems : (selectOf py spec plan).items = spec.dimensions.map .column ++
          [.metric (((Dict.get (item :: items) "expression").or (.str "SELECT 1")).toStr py) name] := by
        simp only [selectOf, hnamed, hdefinition]
      have hcopied : copiedMeasures spec plan = [] := by simp only [copiedMeasures, hnamed, hdefinition]
      have hown : Item.Inside py catalog
          (.metric (((Dict.get (item :: items) "expression").or (.str "SELECT 1")).toStr py) name) :=
        ⟨_, hmetric, rfl⟩
      rw [hitems, List.forall_mem_append, List.forall_mem_map, List.forall_mem_singleton]
      constructor
      · rintro ⟨⟨hdims, -⟩, hfilter, -⟩
        refine ⟨hfilter, ?_, fun _ => ⟨hdims, ?_⟩⟩ <;> rw [hcopied] <;> exact fun _ h => nomatch h
      · rintro ⟨hfilter, -, hseen⟩
        exact ⟨⟨(hseen hsome).1, hown⟩, hfilter, (hseen hsome).1⟩

/-- What compiles is inside the catalog exactly when what nobody checks is. -/
theorem compiled_inside_iff (py : Interp) (catalog : CatalogClient) (spec : QuerySpec) (plan : UpstreamPlan)
    (maskingPolicies : List String) (compiled : CompiledQuery)
    (hv : validateQuerySpec py spec catalog = .ok ()) (hp : planQuery py spec catalog = .ok plan)
    (hc : compileToSql py spec plan maskingPolicies = .ok compiled) :
    compiled.Inside py catalog spec plan ↔ Unseen catalog spec plan := by
  obtain ⟨htext, hvalues⟩ := compileToSql_ok hc
  rw [← select_inside_iff hv hp]
  exact ⟨fun h => h.parts, fun h => ⟨htext, hvalues, h⟩⟩

end

/-! ### A filter on no column -/

/-- One table with a region and a revenue. -/
def ordersCatalog : CatalogClient where
  getMetric _ := none
  getTable _ := none
  listTables := [[(.str "name", .str "orders"), (.str "columns",
    .list [.dict [(.str "name", .str "region")], .dict [(.str "name", .str "revenue")]])]]

def revenueByRegion (filterKey : String) : QuerySpec :=
  ⟨none, ["region"], ["sum(revenue)"], some [(filterKey, .str "EU")], none, 10⟩

def ordersPlan : UpstreamPlan := ⟨.str "snowflake", .str "orders", .str "orders", none⟩

theorem orders_region : ordersCatalog.HasColumn "region" :=
  ⟨_, List.mem_cons_self, [.str "region", .str "revenue"], rfl, by simp⟩

theorem revenueByRegion_inside : ∃ compiled, compileToSql .plain (revenueByRegion "region") ordersPlan [] =
    .ok compiled ∧ compiled.Inside .plain ordersCatalog (revenueByRegion "region") ordersPlan := by
  refine ⟨_, rfl, (compiled_inside_iff .plain ordersCatalog (revenueByRegion "region") ordersPlan [] _ rfl
    rfl rfl).mpr ⟨?_, ?_, fun h => absurd rfl h⟩⟩
  · exact List.forall_mem_singleton.mpr orders_region
  · refine List.forall_mem_singleton.mpr fun _ => ⟨?_, ?_⟩ <;> decide

theorem filterKey_copied : ¬∀ (py : Interp) (catalog : CatalogClient) (spec : QuerySpec) (plan : UpstreamPlan)
    (maskingPolicies : List String) (compiled : CompiledQuery),
    validateQuerySpec py spec catalog = .ok () → planQuery py spec catalog = .ok plan →
    compileToSql py spec plan maskingPolicies = .ok compiled → compiled.Inside py catalog spec plan := by
  intro h
  have hinside := h .plain ordersCatalog (revenueByRegion "1=1 OR region") ordersPlan [] _ rfl rfl rfl
  have hkey := hinside.parts.conditions (.equals "1=1 OR region") (by
    exact List.mem_cons_self)
  obtain ⟨t, ht, names, hnames, hmem⟩ := hkey
  obtain rfl := List.mem_singleton.mp ht
  have hread : columnNames [(.str "name", .str "orders"), (.str "columns", .list
      [.dict [(.str "name", .str "region")], .dict [(.str "name", .str "revenue")]])] =
    .ok [.str "region", .str "revenue"] := rfl
  obtain rfl := Except.ok.inj (hread.symm.trans hnames)
  simp at hmem

end Gateway
