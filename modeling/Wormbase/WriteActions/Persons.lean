import Wormbase.WriteActions.Pevr

/-! Proposing, linking, unlinking, archiving, merging and splitting persons.

    An action is the `_pevr` calls that it makes, in order, and what it raises. A merge reads the
    ledger before its first call and never again. -/

namespace WriteActions
open Py Projection

/-! ### The identities of a person, as the actions see them -/

/-- Platform and user id, with whether the identity is attached. -/
abbrev Attached := Dictionary (Key × Key) Bool

/-- What an execute row with these args does to the fold of one person. -/
def identityArgs (pid : String) (tool : Val) (args : Dict) (state : Attached) : Except Err Attached :=
  let platform := args.get "platform"
  let puid := args.get "platform_user_id"
  if (args.get "person_id").isText pid ∧ platform.truthy ∧ puid.truthy then
    if tool.isText "emit_person_proposed" ∨ tool.isText "emit_identity_linked" then do
      return state.put ((← platform.hash, ← puid.hash), true)
    else if tool.isText "emit_identity_unlinked" then do
      let key := (← platform.hash, ← puid.hash)
      return if (state.get? key).isSome then state.put (key, false) else state
    else .ok state
  else .ok state

/-- One row of the fold of `_current_identities_for_person`. -/
def identityStep (pid : String) (state : Attached) (row : LedgerRow) : Except Err Attached :=
  if row.kind ≠ "execute" then .ok state
  else
    match row.payload.or (.dict []) with
    | .dict payload =>
      match (Dict.get payload "args").or (.dict []) with
      | .dict args => identityArgs pid (Dict.get payload "tool") args state
      | v => .error (attributeError s!"'{v.typeName}' object has no attribute 'get'")
    | v => .error (attributeError s!"'{v.typeName}' object has no attribute 'get'")

def identityFold (rows : List LedgerRow) (personId : UUID) : Except Err Attached :=
  rows.foldlM (identityStep personId.str) .empty

/-- `_current_identities_for_person`. -/
def currentIdentitiesForPerson (rows : List LedgerRow) (personId : UUID) :
    Except Err (List (Key × Key)) := do
  let state ← identityFold rows personId
  return (state.rows.filter Prod.snd).map Prod.fst

/-! ### Single calls -/

/-- A text, or `None`. -/
def textOrNone : Option String → Val
  | some s => .str s
  | none => .none

section
variable (py : Interp) (companyId : UUID)

def proposePerson (personId : UUID) (tenantId : Option UUID) (name : String) (email : Option String)
    (platform platformUserId : String) (position : Option String) (proposedBy : String) : Pevr where
  targetKind := "person_proposed"
  refId := personId
  reason := "propose person " ++ String.ofList (reprStr py name) ++ " on " ++ platform
  proposedBy
  tool := "emit_person_proposed"
  args := [(.str "person_id", .str personId.str),
    (.str "tenant_id", .str (tenantId.getD companyId).str), (.str "name", .str name),
    (.str "email", textOrNone email), (.str "platform", .str platform),
    (.str "platform_user_id", .str platformUserId), (.str "proposed_by", .str proposedBy),
    (.str "position", textOrNone position)]
  resultRef := personId.str
  rationale := "person proposed via dashboard API"

end

def archivePerson (personId archivedBy : UUID) (reason : String) : Pevr where
  targetKind := "person_archived"
  refId := personId
  reason := "archive person " ++ personId.str ++ ": " ++ reason
  proposedBy := archivedBy.str
  tool := "emit_person_archived"
  args := [(.str "person_id", .str personId.str), (.str "archived_by", .str archivedBy.str),
    (.str "reason", .str reason)]
  resultRef := personId.str
  rationale := "person archived via dashboard API"

def linkIdentity (personId : UUID) (platform platformUserId : String) (linkedBy : UUID) : Pevr where
  targetKind := "identity_linked"
  refId := personId
  reason := "link " ++ platform ++ "/" ++ platformUserId ++ " to person " ++ personId.str
  proposedBy := linkedBy.str
  tool := "emit_identity_linked"
  args := [(.str "person_id", .str personId.str), (.str "platform", .str platform),
    (.str "platform_user_id", .str platformUserId), (.str "linked_by", .str linkedBy.str)]
  resultRef := personId.str
  rationale := "identity linked via dashboard API"

def unlinkIdentity (personId : UUID) (platform platformUserId : String) (unlinkedBy : UUID) :
    Pevr where
  targetKind := "identity_unlinked"
  refId := personId
  reason := "unlink " ++ platform ++ "/" ++ platformUserId ++ " from person " ++ personId.str
  proposedBy := unlinkedBy.str
  tool := "emit_identity_unlinked"
  args := [(.str "person_id", .str personId.str), (.str "platform", .str platform),
    (.str "platform_user_id", .str platformUserId), (.str "unlinked_by", .str unlinkedBy.str)]
  resultRef := personId.str
  rationale := "identity unlinked via dashboard API"

/-! ### Merge and split -/

/-- The calls of an action, and what it raises after them. -/
structure Outcome where
  calls : List Pevr
  raised : Option Err

/-- The payload classes take texts only. -/
def validationError : Err := ⟨"ValidationError", "Input should be a valid string"⟩

/-- Each identity of the mergee goes to the keeper, unless the keeper has it. -/
def mergeCalls (keeper mergee mergedBy : UUID) : List (Key × Key) → List (Key × Key) → Outcome
  | [], _ => ⟨[archivePerson mergee mergedBy ("merged_into:" ++ keeper.str)], none⟩
  | (.str platform, .str puid) :: rest, keeperIdentities =>
    let key := (Key.str platform, Key.str puid)
    let unlink := unlinkIdentity mergee platform puid mergedBy
    if key ∈ keeperIdentities then
      let o := mergeCalls keeper mergee mergedBy rest keeperIdentities
      { o with calls := unlink :: o.calls }
    else
      let o := mergeCalls keeper mergee mergedBy rest (key :: keeperIdentities)
      { o with calls := unlink :: linkIdentity keeper platform puid mergedBy :: o.calls }
  | _ :: _, _ => ⟨[], some validationError⟩

def mergePersons (rows : List LedgerRow) (keeper mergee mergedBy : UUID) : Outcome :=
  if keeper = mergee then ⟨[], some (valueError "keeper_id and mergee_id must differ")⟩
  else
    let read : Except Err (List (Key × Key) × List (Key × Key)) := do
      let mergeeIdentities ← currentIdentitiesForPerson rows mergee
      return (mergeeIdentities, ← currentIdentitiesForPerson rows keeper)
    match read with
    | .ok (mergeeIdentities, keeperIdentities) =>
      mergeCalls keeper mergee mergedBy mergeeIdentities keeperIdentities
    | .error x => ⟨[], some x⟩

/-- An item of `identities_to_move`. -/
inductive SplitItem where
  | pair (platform platformUserId : String)
  | dict (platform platformUserId : Option String)

def SplitItem.normalise : SplitItem → Except Err (String × String)
  | .pair platform puid => .ok (platform, puid)
  | .dict platform puid =>
    match platform, puid with
    | some platform, some puid =>
      if platform = "" ∨ puid = "" then
        .error (valueError "every identity must carry platform and platform_user_id")
      else .ok (platform, puid)
    | _, _ => .error (valueError "every identity must carry platform and platform_user_id")

/-- The identities of a split as pairs of texts. -/
def normalised (items : List SplitItem) : Except Err (List (String × String)) :=
  items.mapM SplitItem.normalise

def splitPerson (py : Interp) (companyId source newId : UUID) (name : String)
    (email position : Option String) (items : List SplitItem) (splitBy : UUID) : Outcome :=
  match normalised items with
  | .error x => ⟨[], some x⟩
  | .ok [] => ⟨[], some (valueError "identities_to_move must not be empty")⟩
  | .ok (seed :: rest) =>
    ⟨proposePerson py companyId newId (some companyId) name email seed.1 seed.2 position
        ("split:" ++ splitBy.str) :: unlinkIdentity source seed.1 seed.2 splitBy ::
      rest.flatMap fun i =>
        [unlinkIdentity source i.1 i.2 splitBy, linkIdentity newId i.1 i.2 splitBy], none⟩

/-! ### Actions on a ledger -/

/-- What an admin, or the discovery loop, asks for. They leave out the tenant of a proposal, and new
    ids are drawn before. -/
inductive WriteAction where
  | proposePerson (personId : UUID) (name : String) (email : Option String)
      (platform platformUserId : String) (position : Option String) (proposedBy : String)
  | linkIdentity (personId : UUID) (platform platformUserId : String) (linkedBy : UUID)
  | unlinkIdentity (personId : UUID) (platform platformUserId : String) (unlinkedBy : UUID)
  | archivePerson (personId archivedBy : UUID) (reason : String)
  | mergePersons (keeper mergee mergedBy : UUID)
  | splitPerson (source newId : UUID) (name : String) (email position : Option String)
      (items : List SplitItem) (splitBy : UUID)

/-- A request, and the id that silent mode draws for it when it is on. -/
structure Request where
  action : WriteAction
  silent : Option UUID

section
variable (py : Interp) (companyId : UUID) (stamp : ℕ → Stamp)

def WriteAction.outcome (rows : List LedgerRow) : WriteAction → Outcome
  | .proposePerson personId name email platform puid position proposedBy =>
    ⟨[WriteActions.proposePerson py companyId personId none name email platform puid position
      proposedBy], none⟩
  | .linkIdentity personId platform puid linkedBy =>
    ⟨[WriteActions.linkIdentity personId platform puid linkedBy], none⟩
  | .unlinkIdentity personId platform puid unlinkedBy =>
    ⟨[WriteActions.unlinkIdentity personId platform puid unlinkedBy], none⟩
  | .archivePerson personId archivedBy reason =>
    ⟨[WriteActions.archivePerson personId archivedBy reason], none⟩
  | .mergePersons keeper mergee mergedBy => WriteActions.mergePersons rows keeper mergee mergedBy
  | .splitPerson source newId name email position items splitBy =>
    WriteActions.splitPerson py companyId source newId name email position items splitBy

/-- The rows of the company after calls whose writes go through. -/
def writeAll (rows : List LedgerRow) (calls : List Pevr) : List LedgerRow :=
  calls.foldl (fun rows c => rows ++ c.rows companyId rows.length (stamp rows.length)) rows

/-- The rows after a request. In silent mode the first call is recorded, and what comes back from it
    ends a merge and a split there. -/
def perform (rows : List LedgerRow) (r : Request) : List LedgerRow :=
  let calls := (r.action.outcome py companyId rows).calls
  match r.silent with
  | none => writeAll companyId stamp rows calls
  | some refId => rows ++ (calls.head?.map fun c =>
      suppressedRows c refId companyId rows.length (stamp rows.length)).getD []

/-- A request as a step. -/
def step (rows : List LedgerRow) (r : Request) : Option (List LedgerRow) :=
  some (perform py companyId stamp rows r)

end

end WriteActions
