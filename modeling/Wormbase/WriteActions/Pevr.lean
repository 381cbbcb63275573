import Wormbase.Projection.Written

/-! `_pevr`: one write cycle of an admin action, and what silent mode writes in its place. -/

namespace WriteActions
open Py Projection

/-- The arguments of `_pevr`. The payload class takes back the args that it dumped, so the verify step
    passes. -/
structure Pevr where
  targetKind : String
  refId : UUID
  reason : String
  proposedBy : String
  tool : String
  args : Dict
  resultRef : String
  rationale : String

namespace Pevr
variable (c : Pevr)

def propose : Dict :=
  [(.str "target_kind", .str c.targetKind), (.str "ref_id", .str c.refId.str),
    (.str "reason", .str c.reason), (.str "proposed_by", .str c.proposedBy)]

def execute : Dict :=
  [(.str "tool", .str c.tool), (.str "args", .dict c.args), (.str "result_ref", .str c.resultRef)]

def verify : Dict :=
  [(.str "checks", .list [.dict [(.str "name", .str (c.tool ++ "_payload_valid")),
    (.str "ok", .bool true)]]), (.str "passed", .bool true)]

def resolve : Dict := [(.str "outcome", .str "keep"), (.str "rationale", .str c.rationale)]

/-- The call of `ledger.write`. -/
def call (company : UUID) (now : DateTime) (st : Stamp) : Ledger.Call where
  companyId := company
  propose := c.propose
  executeFn := .ok (.dict c.execute)
  verifyFn := fun _ => .ok (.dict c.verify)
  resolveFn := fun _ => .ok (.dict c.resolve)
  timestamp := none
  quadrant := .activeDeterministic
  now
  proposeId := st.proposeId
  executeId := st.executeId
  verifyId := st.verifyId
  resolveId := st.resolveId

def executePayload (st : Stamp) : Dict :=
  (.str "propose_entry_id", .str st.proposeId.str) :: c.execute

/-- The rows of the write after `n` others. -/
def rows (company : UUID) (n : ℕ) (st : Stamp) : List LedgerRow :=
  stampedRows company n st c.propose (c.executePayload st)
    ((.str "execute_entry_id", .str st.executeId.str) :: c.verify)
    ((.str "verify_entry_id", .str st.verifyId.str) :: c.resolve)

/-- A write of the call that returns leaves these rows. -/
theorem write_rows {sha256 : Bytes → Bytes} {d : Ledger.Dialect} {company : UUID} {now : DateTime}
    {st : Stamp} {rows rows' : List Ledger.Entry} {res : Ledger.WriteResult}
    (hargs : jsonColumn (.dict c.args) = .ok (.dict c.args))
    (h : Ledger.write sha256 d rows (c.call company now st) = (.ok res, rows')) :
    ∃ new hash, rows' = rows ++ new ∧ new.map LedgerRow.read =
      c.rows company (Ledger.tail rows company).1 { st with ts := Ledger.readTs d now, hash } := by
  have hps : (c.call company now st).payloads = .ok [c.propose, c.executePayload st,
      (.str "execute_entry_id", .str st.executeId.str) :: c.verify,
      (.str "verify_entry_id", .str st.verifyId.str) :: c.resolve] := rfl
  refine Projection.write_rows h hps ?_
  simp only [List.forall_mem_cons]
  refine ⟨rfl, ?_, rfl, rfl, by simp⟩
  rw [executePayload, execute]
  -- the args stay as they are, whatever is in them
  generalize Val.dict c.args = args at hargs ⊢
  simp only [jsonColumn, columnItems, hargs, bind, Except.bind, pure, Except.pure, Key.check, Key.text]
  rfl

end Pevr

/-! ### Silent mode -/

/-- The args of `record_suppressed`. -/
def suppressedArgs (c : Pevr) (refId : UUID) : Dict :=
  [(.str "surface", .str "mcp_write"), (.str "tool", .str c.tool), (.str "args", .dict c.args),
    (.str "channel_id", .none), (.str "tenant_id", .none),
    (.str "presence_reason", .str "mcp_invocation"), (.str "silent_mode_source", .str "env"),
    (.str "ref_id", .str refId.str)]

/-- The rows that silent mode leaves for a call: its tool, with other args. -/
def suppressedRows (c : Pevr) (refId company : UUID) (n : ℕ) (st : Stamp) : List LedgerRow :=
  stampedRows company n st
    [(.str "target_kind", .str "reply_suppressed"), (.str "ref_id", .str refId.str),
      (.str "reason", .str ("silent_mode suppressed mcp_write/" ++ c.tool)),
      (.str "proposed_by", .str "silent_mode")]
    [(.str "propose_entry_id", .str st.proposeId.str), (.str "tool", .str c.tool),
      (.str "args", .dict (suppressedArgs c refId)), (.str "result_ref", .str refId.str)]
    [(.str "execute_entry_id", .str st.executeId.str),
      (.str "checks", .list [.dict [(.str "name", .str "suppressed_recorded"),
        (.str "ok", .bool true)]]), (.str "passed", .bool true)]
    [(.str "verify_entry_id", .str st.verifyId.str), (.str "outcome", .str "keep"),
      (.str "rationale", .str "silent_mode listen-only")]

end WriteActions
