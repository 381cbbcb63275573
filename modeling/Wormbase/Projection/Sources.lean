import Wormbase.Projection.Entry

/-! Sources, memory and KPI nodes. -/

namespace Projection
open Py

/-! ### Sources -/

inductive SourceStatus where | proposed | confirmed | connected | profiled
  deriving DecidableEq

structure Source where
  sourceId : UUID
  status : SourceStatus
  kind : Val
  uri : Val
  classification : Val
  domainId : Option UUID
  addedByPerson : Option UUID
  addedViaFlow : Val
  addedAt : DateTime
  lastEntryHash : Bytes

abbrev Sources := Dictionary String Source

def emitSourceProposed : Fold Sources := fun e args sources => do
  let (sid, sourceId) ← uuidText (← args.item "source_id")
  let row : Source := {
    sourceId
    status := .proposed
    kind := ← args.item "source_kind"
    uri := ← args.item "uri"
    classification := ← args.item "suggested_classification"
    domainId := none
    addedByPerson := none
    addedViaFlow := ← args.item "added_via_flow"
    addedAt := e.ts
    lastEntryHash := e.hash }
  return sources.put (sid, row)

def emitSourceConfirmed : Fold Sources := fun e args sources => do
  updateAt sources (← args.item "source_id") fun s => do
    let domainId ← (args.get "domain_id").toUUID?
    let person ← (← args.item "confirmed_by_person").toUUID
    return { s with
      status := .confirmed
      domainId
      classification := args.getD "classification" s.classification
      addedByPerson := some person
      lastEntryHash := e.hash }

/-- `emit_source_connected` and `emit_source_profiled`. -/
def sourceReaches (status : SourceStatus) : Fold Sources := fun e args sources => do
  updateAt sources (← args.item "source_id") fun s =>
    return { s with status, lastEntryHash := e.hash }

def emitSourceConnected : Fold Sources := sourceReaches .connected
def emitSourceProfiled : Fold Sources := sourceReaches .profiled

theorem emitSourceProposed_ok {e : LedgerRow} {args : Dict} {t t' : Sources}
    (h : emitSourceProposed e args t = .ok t') : ∃ sid r, args.get "source_id" = .str sid ∧
      (args.get "source_id").toUUID = .ok r.sourceId ∧ t' = t.put (sid, r) := by
  obtain ⟨v, hv, h⟩ := bind_eq_ok.mp h
  obtain ⟨⟨sid, u⟩, hid, h⟩ := bind_eq_ok.mp h
  obtain ⟨kind, -, h⟩ := bind_eq_ok.mp h
  obtain ⟨uri, -, h⟩ := bind_eq_ok.mp h
  obtain ⟨classification, -, h⟩ := bind_eq_ok.mp h
  obtain ⟨flow, -, h⟩ := bind_eq_ok.mp h
  obtain ⟨hsid, hu⟩ := uuidText_ok hid
  rw [item_get hv]
  exact ⟨sid, _, hsid, hu, (Except.ok.inj h).symm⟩

theorem emitSourceConfirmed_ok {e : LedgerRow} {args : Dict} {t t' : Sources}
    (h : emitSourceConfirmed e args t = .ok t') :
    Updates (fun r r' => r'.sourceId = r.sourceId) t t' := by
  obtain ⟨v, -, h⟩ := bind_eq_ok.mp h
  refine updateAt_updates h fun r r' hr => ?_
  obtain ⟨domain, -, hr⟩ := bind_eq_ok.mp hr
  obtain ⟨w, -, hr⟩ := bind_eq_ok.mp hr
  obtain ⟨person, -, hr⟩ := bind_eq_ok.mp hr
  rw [← Except.ok.inj hr]

theorem sourceReaches_ok {status : SourceStatus} {e : LedgerRow} {args : Dict} {t t' : Sources}
    (h : sourceReaches status e args t = .ok t') :
    Updates (fun r r' => r'.sourceId = r.sourceId) t t' := by
  obtain ⟨v, -, h⟩ := bind_eq_ok.mp h
  refine updateAt_updates h fun r r' hr => ?_
  rw [← Except.ok.inj hr]

/-! ### Memory -/

structure Memory where
  memoryId : UUID
  content : Val
  tags : List Val
  writtenAt : DateTime

/-- Appends: nothing looks for a memory with the same id. -/
def emitMemoryWritten : Fold (List Memory) := fun e args memory => do
  let row : Memory := {
    memoryId := ← (← args.item "memory_id").toUUID
    content := ← args.item "content"
    tags := ← (args.getD "tags" (.list [])).toList
    writtenAt := e.ts }
  return memory ++ [row]

theorem emitMemoryWritten_ok {e : LedgerRow} {args : Dict} {t t' : List Memory}
    (h : emitMemoryWritten e args t = .ok t') :
    ∃ m, (args.get "memory_id").toUUID = .ok m.memoryId ∧ t' = t ++ [m] := by
  obtain ⟨v, hv, h⟩ := bind_eq_ok.mp h
  obtain ⟨u, hu, h⟩ := bind_eq_ok.mp h
  obtain ⟨content, -, h⟩ := bind_eq_ok.mp h
  obtain ⟨tags, -, h⟩ := bind_eq_ok.mp h
  rw [item_get hv]
  exact ⟨_, hu, (Except.ok.inj h).symm⟩

/-! ### KPI nodes -/

/-- Each node is the copy of the args that wrote it, under their `id`. -/
abbrev KpiNodes := Dictionary Key Dict

def emitKpiNode : Fold KpiNodes := fun _ args nodes => do
  let key ← (← args.item "id").hash
  return nodes.put (key, args)

theorem emitKpiNode_ok {e : LedgerRow} {args : Dict} {t t' : KpiNodes}
    (h : emitKpiNode e args t = .ok t') :
    ∃ key, (args.get "id").hash = .ok key ∧ t' = t.put (key, args) := by
  obtain ⟨v, hv, h⟩ := bind_eq_ok.mp h
  obtain ⟨key, hkey, h⟩ := bind_eq_ok.mp h
  rw [item_get hv]
  exact ⟨key, hkey, (Except.ok.inj h).symm⟩

end Projection
