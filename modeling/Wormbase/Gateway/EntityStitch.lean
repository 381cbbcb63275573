import Wormbase.Gateway.SchemaImpact
import Wormbase.Lib.EditTable
import Mathlib.Data.Finset.Card
import Mathlib.Data.String.Basic
import Mathlib.Data.List.Lex

/-! Entity stitches: which two columns of different sources may mean the same entity.

    Each strategy looks at a pair of columns. What the readers return is theirs. -/

namespace EntityStitch
open Py SchemaImpacts

inductive EntityKind where
  | person
  | organization
  | transaction
  | product
  | event
  | location
  | session
  | other
  deriving DecidableEq

def EntityKind.text : EntityKind → String
  | person => "person"
  | organization => "organization"
  | transaction => "transaction"
  | product => "product"
  | event => "event"
  | location => "location"
  | session => "session"
  | other => "other"

/-- The dict that names an endpoint. -/
structure Column where
  sourceId : String
  tableId : String
  column : String
  deriving DecidableEq

structure ProposedEntityStitch where
  stitchId : String
  srcSourceIdA : String
  srcTableA : String
  srcColumnA : String
  srcSourceIdB : String
  srcTableB : String
  srcColumnB : String
  upstreamSemanticTypeId : Option String
  entityKind : EntityKind
  confidence : PyFloat
  strategy : String
  reasoning : String
  evidence : Dict

structure ConfirmedSemanticTypeRecord where
  typeId : String
  semanticType : String
  confidence : PyFloat
  strategy : String

/-! ### The id of a stitch -/

def Column.parts (c : Column) : List String := [c.sourceId, c.tableId, c.column]

/-- The smaller endpoint first. -/
def canonical (a b : Column) : List Column := if b.parts < a.parts then [b, a] else [a, b]

def stitchParts (a b : Column) : List String := (canonical a b).flatMap Column.parts

def stitchText (a b : Column) : String := "|".intercalate (stitchParts a b)

/-- The first 32 hex digits of a digest. -/
def stitchDigest (py : Interp) (text : String) : String :=
  String.ofList ((hex (py.sha256 (encodeUtf8 text.toList))).take 32)

def makeStitchId (py : Interp) (a b : Column) : String := stitchDigest py (stitchText a b)

/-! ### Shared helpers -/

/-- `f"{x:.3f}"`. -/
def fixed3 : PyFloat → List Char
  | .finite neg q =>
    let c := (PyFloat.roundHalfEven (q * 1000)).toNat
    let frac := PyFloat.digits (c % 1000)
    (if neg then ['-'] else []) ++ PyFloat.digits (c / 1000) ++ '.' :: (List.replicate (3 - frac.length) '0' ++ frac)
  | .inf neg => (if neg then ['-'] else []) ++ "inf".toList
  | .nan => "nan".toList

/-- `_SEMANTIC_TYPE_TO_ENTITY_KIND`. -/
def semanticTypeToEntityKind : List (String × EntityKind) :=
  [("email", .person), ("phone_e164", .person), ("phone_us", .person), ("pii_name", .person),
    ("pii_address", .person), ("pii_ssn", .person), ("pii_credit_card", .person),
    ("business_id", .organization), ("metric_amount", .transaction), ("uuid_v4", .other), ("uuid_v7", .other)]

/-- `_entity_kind_for_semantic_type`. -/
def entityKindForSemanticType (semanticType : String) : EntityKind :=
  (semanticTypeToEntityKind.lookup semanticType).getD .other

/-- What the strategies differ in. -/
structure Finding where
  upstreamSemanticTypeId : Option String
  entityKind : EntityKind
  confidence : PyFloat
  strategy : String
  reasoning : String
  evidence : Dict

/-- From `low` at the threshold to `high` at one, along a line. -/
def interpolate (low high threshold x : PyFloat) : Except Err PyFloat := do
  let rise ← (PyFloat.mul (PyFloat.sub x threshold) (PyFloat.sub high low)).div (PyFloat.sub .one threshold)
  return PyFloat.add low rise

/-- `_levenshtein`. -/
def levenshtein (a b : String) : ℕ :=
  if a = b then 0
  else if a = "" then b.length
  else if b = "" then a.length
  else EditTable.distance a.toList b.toList

/-- `_jaccard`. -/
def jaccard {α : Type} [DecidableEq α] (a b : Finset α) : PyFloat :=
  if a = ∅ ∨ b = ∅ then .zero else .ofMag false ((a ∩ b).card / (a ∪ b).card)

section
variable (py : Interp) (lower : String → String)

/-- `_propose`. -/
def propose (a b : Column) (f : Finding) : ProposedEntityStitch where
  stitchId := makeStitchId py a b
  srcSourceIdA := a.sourceId
  srcTableA := a.tableId
  srcColumnA := a.column
  srcSourceIdB := b.sourceId
  srcTableB := b.tableId
  srcColumnB := b.column
  upstreamSemanticTypeId := f.upstreamSemanticTypeId
  entityKind := f.entityKind
  confidence := round4 (PyFloat.max .zero (PyFloat.min .one f.confidence))
  strategy := f.strategy
  reasoning := f.reasoning
  evidence := f.evidence

/-- `_normalize_name`. -/
def normalizeName (name : String) : String := lower (stripText name)

/-- `_normalized_levenshtein_similarity`. -/
def similarity (a b : String) : PyFloat :=
  let na := normalizeName lower a
  let nb := normalizeName lower b
  if na = "" ∧ nb = "" then .one
  else
    let maxLen := max na.length nb.length
    if maxLen = 0 then .one else PyFloat.sub .one (.ofMag false (levenshtein na nb / maxLen))

/-! ### Names -/

/-- `NameMatchEntityStrategy`; the reader may be missing. -/
structure NameMatchEntityStrategy where
  confirmedSemanticTypeReader : Option (String → String → UUID → Except Err (List ConfirmedSemanticTypeRecord))
  useSemanticTypeAnchor : Bool := true

def fuzzyThreshold : PyFloat := hundredths 70
def semanticTypeConfidence : PyFloat := hundredths 90
def fuzzyMinConfidence : PyFloat := hundredths 60
def fuzzyMaxConfidence : PyFloat := hundredths 75

/-- The dict of the best record of each type, a later record in the place of the one it beats. -/
def noteType (best : List ConfirmedSemanticTypeRecord) (r : ConfirmedSemanticTypeRecord) :
    List ConfirmedSemanticTypeRecord :=
  match best.find? fun e => e.semanticType = r.semanticType with
  | none => best ++ [r]
  | some existing =>
    if PyFloat.lt existing.confidence r.confidence then
      best.map fun e => if e.semanticType = r.semanticType then r else e
    else best

/-- `_shared_semantic_types`: the anchors; each names its type. -/
def sharedSemanticTypes (typesA typesB : List ConfirmedSemanticTypeRecord) : List ConfirmedSemanticTypeRecord :=
  (typesA.foldl noteType []).filter fun anchor => anchor.semanticType ∈ typesB.map (·.semanticType)

def anchorFinding (typesA typesB : List ConfirmedSemanticTypeRecord) (anchor : ConfirmedSemanticTypeRecord) : Finding :=
  let kind := entityKindForSemanticType anchor.semanticType
  { upstreamSemanticTypeId := some anchor.typeId
    entityKind := kind
    confidence := semanticTypeConfidence
    strategy := "name_match"
    reasoning := "L5 confirmed shared semantic type " ++ String.ofList (reprStr py anchor.semanticType) ++
      " on both endpoints; entity_kind=" ++ kind.text ++ " at " ++ String.ofList semanticTypeConfidence.fixed2
    evidence := [(.str "path", .str "semantic_type_anchor"),
      (.str "shared_semantic_type", .str anchor.semanticType), (.str "anchor_type_id", .str anchor.typeId),
      (.str "endpoint_a_type_count", .int typesA.length), (.str "endpoint_b_type_count", .int typesB.length)] }

def NameMatchEntityStrategy.anchored (s : NameMatchEntityStrategy) (companyId : UUID) (a b : Column) :
    Except Err (List ProposedEntityStitch) :=
  match s.useSemanticTypeAnchor, s.confirmedSemanticTypeReader with
  | true, some list => do
    let typesA ← list a.tableId a.column companyId
    let typesB ← list b.tableId b.column companyId
    return (sharedSemanticTypes typesA typesB).map fun anchor =>
      propose py a b (anchorFinding py typesA typesB anchor)
  | _, _ => .ok []

def fuzzyFinding (a b : Column) (similarity confidence : PyFloat) : Finding where
  upstreamSemanticTypeId := none
  entityKind := .other
  confidence := confidence
  strategy := "name_match"
  reasoning := "normalized-Levenshtein similarity=" ++ String.ofList (fixed3 similarity) ++ " ≥ " ++
    String.ofList fuzzyThreshold.fixed2 ++ " on column names " ++ String.ofList (reprStr py a.column) ++ " ↔ " ++
    String.ofList (reprStr py b.column) ++ "; entity_kind=other (fuzzy-name has no entity-kind signal) at " ++
    String.ofList confidence.fixed2
  evidence := [(.str "path", .str "fuzzy_name"), (.str "similarity", .float (round4 similarity)),
    (.str "threshold", .float fuzzyThreshold), (.str "column_a", .str a.column), (.str "column_b", .str b.column)]

def fuzzy (a b : Column) : Except Err (List ProposedEntityStitch) :=
  let similarity := similarity lower a.column b.column
  if PyFloat.le fuzzyThreshold similarity then do
    let confidence ← interpolate fuzzyMinConfidence fuzzyMaxConfidence fuzzyThreshold similarity
    return [propose py a b (fuzzyFinding py a b similarity confidence)]
  else .ok []

def NameMatchEntityStrategy.propose (s : NameMatchEntityStrategy) (companyId : UUID) (a b : Column) :
    Except Err (List ProposedEntityStitch) :=
  if a.column = "" ∨ b.column = "" then .ok []
  else if a = b then .ok []
  else do
    let anchored ← s.anchored py companyId a b
    let named ← fuzzy py lower a b
    return anchored ++ named

/-! ### Samples -/

/-- `SampleOverlapEntityStrategy`, for a sampler of values of some type. -/
structure SampleOverlapEntityStrategy (α : Type) where
  sampler : String → String → ℤ → Except Err (Finset α)
  sampleSize : ℤ := 200
  jaccardThreshold : PyFloat := hundredths 50

def overlapFinding (threshold : PyFloat) (sizeA sizeB : ℕ) (jaccard confidence : PyFloat) : Finding where
  upstreamSemanticTypeId := none
  entityKind := .other
  confidence := confidence
  strategy := "sample_overlap"
  reasoning := "sampled-value Jaccard overlap=" ++ String.ofList (fixed3 jaccard) ++ " (≥ " ++
    String.ofList threshold.fixed2 ++ ") across |A|=" ++ toString sizeA ++ " |B|=" ++ toString sizeB ++
    "; entity_kind=other at " ++ String.ofList confidence.fixed2
  evidence := [(.str "path", .str "sample_overlap"), (.str "jaccard", .float (round4 jaccard)),
    (.str "threshold", .float threshold), (.str "sample_size_a", .int sizeA), (.str "sample_size_b", .int sizeB)]

def SampleOverlapEntityStrategy.propose {α : Type} [DecidableEq α] (s : SampleOverlapEntityStrategy α) (a b : Column) :
    Except Err (List ProposedEntityStitch) := do
  let sampleA ← s.sampler a.tableId a.column s.sampleSize
  let sampleB ← s.sampler b.tableId b.column s.sampleSize
  if sampleA = ∅ ∨ sampleB = ∅ then return []
  let overlap := jaccard sampleA sampleB
  if PyFloat.lt overlap s.jaccardThreshold then return []
  let confidence ← interpolate (hundredths 50) (hundredths 85) s.jaccardThreshold overlap
  return [EntityStitch.propose py a b (overlapFinding s.jaccardThreshold sampleA.card sampleB.card overlap confidence)]

/-! ### Shapes -/

/-- `SchemaShapeEntityStrategy`; the lookup may be missing, and gives the names of a table's columns. -/
structure SchemaShapeEntityStrategy where
  parentTableColumnsLookup : Option (String → String → Except Err (List String))
  columnCountDeltaMax : ℤ := 2
  nameOverlapThreshold : PyFloat := hundredths 50

def shapeFinding (deltaMax : ℤ) (threshold : PyFloat) (a : Column) (colsA colsB : List String)
    (overlap confidence : PyFloat) : Finding where
  upstreamSemanticTypeId := none
  entityKind := .other
  confidence := confidence
  strategy := "schema_shape"
  reasoning := "parent tables shape-aligned: |A|=" ++ toString colsA.length ++ " |B|=" ++ toString colsB.length ++
    " (delta≤" ++ toString deltaMax ++ "); name-set overlap=" ++ String.ofList (fixed3 overlap) ++ " (≥ " ++
    String.ofList threshold.fixed2 ++ "); column " ++ String.ofList (reprStr py a.column) ++
    " present on both endpoints; entity_kind=other at " ++ String.ofList confidence.fixed2
  evidence := [(.str "path", .str "schema_shape"), (.str "column_count_a", .int colsA.length),
    (.str "column_count_b", .int colsB.length),
    (.str "column_count_delta", .int (|(colsA.length : ℤ) - colsB.length|)),
    (.str "name_overlap", .float (round4 overlap)),
    (.str "shared_column_count", .int (colsA.toFinset ∩ colsB.toFinset).card),
    (.str "union_column_count", .int (colsA.toFinset ∪ colsB.toFinset).card)]

def SchemaShapeEntityStrategy.propose (s : SchemaShapeEntityStrategy) (a b : Column) :
    Except Err (List ProposedEntityStitch) :=
  match s.parentTableColumnsLookup with
  | none => .ok []
  | some lookup => do
    let colsA ← lookup a.sourceId a.tableId
    let colsB ← lookup b.sourceId b.tableId
    if colsA = [] ∨ colsB = [] then return []
    if s.columnCountDeltaMax < |(colsA.length : ℤ) - colsB.length| then return []
    let overlap := jaccard colsA.toFinset colsB.toFinset
    if PyFloat.lt overlap s.nameOverlapThreshold then return []
    let confidence ← interpolate (hundredths 50) (hundredths 75) s.nameOverlapThreshold overlap
    if a.column ≠ b.column then return []
    return [EntityStitch.propose py a b
      (shapeFinding py s.columnCountDeltaMax s.nameOverlapThreshold a colsA colsB overlap confidence)]

end

end EntityStitch
