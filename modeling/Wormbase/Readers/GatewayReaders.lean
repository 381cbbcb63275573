import Wormbase.Projection.Reading

/-! The gateway readers of data products and of agent grants: they scan a tenant's ledger.

    Products are folded oldest first. Grants are read newest first, and the first hit for an agent,
    kind and target stands. -/

namespace Readers
open Py Projection

/-- What `(v or {}).get` reads. -/
def readable (v : Val) : Except Err Dict :=
  match v.or (.dict []) with
  | .dict d => .ok d
  | v => .error (attributeError s!"'{v.typeName}' object has no attribute 'get'")

/-! ### Data products -/

/-- What a record says of a product. -/
structure ProductFacts where
  dataProductId : String
  name : Val
  kind : Val
  status : ProductStatus
  requestedByPersonId : Option String
  domainId : Option String
  generatedAt : Option String
  contentHash : Val
  contentsUri : Val

structure ProductRecord extends ProductFacts where
  entryHash : String
  latestSeq : ℕ

def statusText : ProductStatus → String
  | .proposed => "proposed"
  | .generated => "generated"
  | .archived => "archived"

section
variable (py : Interp)

/-- `_shape_data_product_proposed`. -/
def shapeDataProductProposed (e : LedgerRow) (args : Dict) : ProductRecord where
  dataProductId := (args.getD "data_product_id" (.str "")).toStr py
  name := args.getD "name" (.str "")
  kind := args.getD "kind" (.str "")
  status := .proposed
  requestedByPersonId := (args.get "requested_by_person_id").text? py
  domainId := (args.get "domain_id").text? py
  generatedAt := none
  contentHash := .none
  contentsUri := .none
  entryHash := String.ofList (hex e.hash)
  latestSeq := e.seq

/-- `_apply_data_product_generated`. -/
def applyDataProductGenerated (e : LedgerRow) (args : Dict) (row : ProductRecord) : ProductRecord :=
  { row with
    status := .generated
    generatedAt := some e.ts.isoformat
    contentHash := args.get "content_hash"
    contentsUri := args.get "contents_uri"
    entryHash := String.ofList (hex e.hash)
    latestSeq := max row.latestSeq e.seq }

/-- `_apply_data_product_archived`. -/
def applyDataProductArchived (e : LedgerRow) (row : ProductRecord) : ProductRecord :=
  { row with
    status := .archived
    entryHash := String.ofList (hex e.hash)
    latestSeq := max row.latestSeq e.seq }

/-- `if dpid in state`. -/
def changeAt {ρ : Type} (state : Dictionary String ρ) (id : String) (f : ρ → ρ) : Dictionary String ρ :=
  match state.get? id with
  | some (_, r) => state.put (id, f r)
  | none => state

def collectRow (state : Dictionary String ProductRecord) (e : LedgerRow) :
    Except Err (Dictionary String ProductRecord) := do
  if e.kind ≠ "execute" then return state
  let payload ← readable e.payload
  let tool := Dict.get payload "tool"
  let args ← readable (Dict.get payload "args")
  match args.get "data_product_id" with
  | .none => return state
  | v =>
    let dpid := v.toStr py
    if tool.isText "emit_data_product_proposed" then
      return state.put (dpid, shapeDataProductProposed py e args)
    else if tool.isText "emit_data_product_generated" then
      return changeAt state dpid (applyDataProductGenerated e args)
    else if tool.isText "emit_data_product_archived" then
      return changeAt state dpid (applyDataProductArchived e)
    else return state

/-- `_collect_data_products`: the newest change first. -/
def collectDataProducts (rows : List LedgerRow) : Except Err (List ProductRecord) := do
  let state ← rows.foldlM (collectRow py) Table.empty
  return (state.rows.map Prod.snd).mergeSort fun a b => decide (b.latestSeq ≤ a.latestSeq)

/-- `list_data_products`. -/
def listDataProducts (domainId status : Option String) (limit : ℤ) (rows : List LedgerRow) :
    Except Err (List ProductRecord) := do
  let all ← collectDataProducts py rows
  let ofDomain : List ProductRecord := match domainId with
    | some d => all.filter fun r => r.domainId.getD "" = d
    | none => all
  let ofStatus : List ProductRecord := match status with
    | some s => ofDomain.filter fun r => statusText r.status = s
    | none => ofDomain
  return ofStatus.take limit.toNat

/-- `get_data_product`. -/
def getDataProduct (dataProductId : String) (rows : List LedgerRow) : Except Err (Option ProductRecord) := do
  let all ← collectDataProducts py rows
  return all.find? fun r => r.dataProductId = dataProductId

end

/-! ### Agent grants -/

structure GrantFacts (δ : Type) where
  agentId : String
  grantKind : String
  grantTarget : String
  grantedBy : String
  grantedAt : DateTime
  budgetRemainingUsd : Option δ

/-- The id is that of the row that was read. -/
structure GrantRecord (δ : Type) extends GrantFacts δ where
  id : String

def grantKinds : List String := ["domain.read", "resource.read", "resource.maintainer", "model.access"]

/-! `decimal` is `Decimal(text)`, unless it raises. -/

section
variable (py : Interp) {δ : Type} (decimal : String → Option δ)

def budgetOf (v : Val) : Option δ :=
  match v with
  | .none => none
  | v => decimal (v.toStr py)

/-- `_shape_agent_grant`. -/
def shapeAgentGrant (e : LedgerRow) (args : Dict) : Option (GrantRecord δ) :=
  let grantKind := args.get "grant_kind"
  let grantTarget := args.get "grant_target"
  let agentId := args.get "agent_id"
  let grantedBy := args.get "granted_by"
  if !(grantKind.truthy && grantTarget.truthy && agentId.truthy && grantedBy.truthy) then none
  else if !grantKinds.any grantKind.isText then none
  else some {
    id := e.entryId.str
    agentId := agentId.toStr py
    grantKind := grantKind.toStr py
    grantTarget := grantTarget.toStr py
    grantedBy := grantedBy.toStr py
    grantedAt := e.ts
    budgetRemainingUsd := budgetOf py decimal (args.get "budget_remaining_usd") }

/-- The triples seen, and the grants found. -/
structure GrantScan (δ : Type) where
  seen : List (String × String)
  out : List (GrantRecord δ)

/-- One entry, newest first. -/
def grantRow (agentId : String) (scan : GrantScan δ) (e : LedgerRow) : Except Err (GrantScan δ) := do
  if e.kind ≠ "execute" then return scan
  let payload ← readable e.payload
  if !(Dict.get payload "tool").isText "emit_agent_grant" then return scan
  let args ← readable (Dict.get payload "args")
  if (args.get "agent_id").text py ≠ agentId then return scan
  match args.get "grant_kind", args.get "grant_target" with
  | .none, _ => return scan
  | _, .none => return scan
  | grantKind, grantTarget =>
    let pair := (grantKind.toStr py, grantTarget.toStr py)
    if pair ∈ scan.seen then return scan
    let seen := pair :: scan.seen
    if !(args.get "status").isText "active" then return { scan with seen }
    return ⟨seen, scan.out ++ (shapeAgentGrant py decimal e args).toList⟩

/-- `list_active_grants`. -/
def listActiveGrants (agentId : String) (rows : List LedgerRow) : Except Err (List (GrantRecord δ)) :=
  GrantScan.out <$> rows.reverse.foldlM (grantRow py decimal agentId) ⟨[], []⟩

end

end Readers
