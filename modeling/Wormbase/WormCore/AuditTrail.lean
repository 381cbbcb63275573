import Wormbase.Projection.Entry

/-! `fold_audit_trail`: the chain of rows behind one asset.

    The rows that mention the asset are found first, then the rows that refer back to one of those found, and
    all of them make up the chain with who proposed and who confirmed. -/

namespace AuditTrail
open Py Projection

/-- `_REF_FIELDS`. -/
def refFields : List String :=
  ["kpi_id", "data_product_id", "person_id", "decision_id", "process_id", "source_id", "notebook_id",
    "reactivity_id", "concept_id", "resource_id", "node_id", "id"]

/-- `_CONFIRM_TOOL_TO_ACTOR_FIELD`. -/
def confirmToolToActorField : List (String × String) :=
  [("emit_person_confirmed", "confirmed_by"), ("emit_source_confirmed", "confirmed_by_person"),
    ("emit_concept_confirmed", "confirmed_by_person"), ("emit_kpi_confirmed", "confirmed_by"),
    ("emit_data_product_generated", "confirmed_by"), ("emit_notebook_published", "owner_person_id"),
    ("emit_reactivity_confirmed", "confirmed_by"), ("emit_decision_recorded", "decided_by_persons"),
    ("emit_process_map_confirmed", "confirmed_by")]

/-- One item of `contributing_entries`. -/
structure Contributing where
  seq : ℕ
  ts : String
  kind : String
  tool : Val
  outcome : Val

structure Trail where
  entryId : String
  targetKind : Val
  proposedBy : Option String
  proposedAt : Option String
  confirmedBy : Option String
  confirmedAt : Option String
  firstSeq : Option ℕ
  lastSeq : Option ℕ
  contributingEntries : List Contributing

/-- What has been read off the rows of the chain so far. -/
structure Found where
  contributing : List Contributing := []
  targetKind : Val := .none
  proposedBy : Option String := none
  proposedAt : Option String := none
  confirmedBy : Option String := none
  confirmedAt : Option String := none

section
variable (py : Interp)

/-- `v is not None and str(v) == entry_id`. -/
def isId (v : Val) (entryId : String) : Bool :=
  match v with
  | .none => false
  | v => v.toStr py = entryId

/-- `_entry_touches_id`. -/
def entryTouchesId (e : LedgerRow) (entryId : String) : Except Err Bool :=
  match e.kind with
  | "propose" => do
    let payload ← orMapping e.payload
    return isId py (payload.get "ref_id") entryId
  | "execute" => do
    let payload ← orMapping e.payload
    let args ← orMapping (payload.get "args")
    return refFields.any fun f => isId py (args.get f) entryId
  | _ => return false

/-- The ids of the rows that mention the asset. -/
def directEntryIds (rows : List LedgerRow) (entryId : String) : Except Err (List String) :=
  rows.foldlM (fun ids e => do
    let touches ← entryTouchesId py e entryId
    return if touches then ids ++ [e.entryId.str] else ids) []

def parentField (kind : String) : Option String :=
  match kind with
  | "execute" => some "propose_entry_id"
  | "verify" => some "execute_entry_id"
  | "resolve" => some "verify_entry_id"
  | _ => none

/-- The id that a row refers back to. -/
def parent (e : LedgerRow) : Except Err (Option String) :=
  match parentField e.kind with
  | none => return none
  | some field => do
    let payload ← orMapping e.payload
    return match payload.get field with
      | .none => none
      | v => some (v.toStr py)

/-- One row of a pass over the rows. -/
def grow (memberIds : List String) (e : LedgerRow) : Except Err (List String) :=
  if e.entryId.str ∈ memberIds then return memberIds
  else do
    let parent ← parent py e
    return match parent with
      | none => memberIds
      | some p => if p ∈ memberIds then memberIds ++ [e.entryId.str] else memberIds

/-- At most `k` passes, until one adds no row. -/
def growPasses (rows : List LedgerRow) : ℕ → List String → Except Err (List String)
  | 0, memberIds => return memberIds
  | k + 1, memberIds => do
    let grown ← rows.foldlM (grow py) memberIds
    if grown.length = memberIds.length then return grown else growPasses rows k grown

/-- `_extract_confirm_actor`. -/
def extractConfirmActor (tool : String) (args : Dict) : Option String :=
  match confirmToolToActorField.lookup tool with
  | none => none
  | some field =>
    match args.get field with
    | .none => none
    | .list [] => none
    | .list (v :: _) => some (v.toStr py)
    | v => some (v.toStr py)

/-- `payload.get(name) if kind == of else None`. -/
def payloadGet (e : LedgerRow) (kind name : String) : Except Err Val :=
  if e.kind = kind then do return (← orMapping e.payload).get name else return .none

/-- `proposed_by` and what goes with it: the first propose row that is read. -/
def readPropose (s : Found) (e : LedgerRow) : Except Err Found :=
  if e.kind = "propose" ∧ s.proposedBy = none then do
    let payload ← orMapping e.payload
    return { s with
      proposedBy := some ((payload.get "proposed_by").text py)
      proposedAt := some e.ts.isoformat
      targetKind := payload.get "target_kind" }
  else return s

/-- `confirmed_by` and what goes with it: the last confirming row that is read. -/
def readConfirm (s : Found) (e : LedgerRow) (tool : Val) : Except Err Found :=
  if e.kind = "execute" then do
    match ← tool.hash with
    | .str tool =>
      if (confirmToolToActorField.lookup tool).isSome then do
        let payload ← orMapping e.payload
        let args ← orMapping (payload.get "args")
        return match extractConfirmActor py tool args with
          | none | some "" => s
          | some actor => { s with confirmedBy := some actor, confirmedAt := some e.ts.isoformat }
      else return s
    | _ => return s
  else return s

/-- One row of the chain. -/
def project (memberIds : List String) (s : Found) (e : LedgerRow) : Except Err Found :=
  if e.entryId.str ∉ memberIds then return s
  else do
    let tool ← payloadGet e "execute" "tool"
    let outcome ← payloadGet e "resolve" "outcome"
    let s := { s with contributing := s.contributing ++ [⟨e.seq, e.ts.isoformat, e.kind, tool, outcome⟩] }
    let s ← readPropose py s e
    readConfirm py s e tool

/-- `fold_audit_trail`. -/
def foldAuditTrail (rows : List LedgerRow) (entryId : String) : Except Err (Option Trail) := do
  let direct ← directEntryIds py rows entryId
  let memberIds ← growPasses py rows 4 direct
  let found ← rows.foldlM (project py memberIds) {}
  if found.contributing = [] then return none
  let contributing := found.contributing.mergeSort fun a b => a.seq ≤ b.seq
  let seqs := contributing.map (·.seq)
  return some ⟨entryId, found.targetKind, found.proposedBy, found.proposedAt, found.confirmedBy,
    found.confirmedAt, seqs.min?, seqs.max?, contributing⟩

end

end AuditTrail
