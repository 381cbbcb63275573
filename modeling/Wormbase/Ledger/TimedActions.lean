import Wormbase.Ledger.Actions
import Wormbase.Ledger.AsOf

/-! The log of a company's actions with the times of their rows. -/

namespace Ledger
open Py

/-- The instant that a timestamp is read as: a naive one is in UTC. -/
def moment (t : DateTime) : ℤ := t.wall - (t.utcoffset.getD DateTime.utc).val

/-- The action of a row, with its time. -/
def timedAction (e : Entry) : Option ((String × Dict) × ℤ) := (action e).map fun a => (a, moment e.ts)

/-- The actions of a company, in the order in which they were written. -/
def timedActions (companyId : UUID) (rows : List Entry) : List ((String × Dict) × ℤ) :=
  (ofCompany rows companyId).filterMap timedAction

section
variable {sha256 : Bytes → Bytes} {d : Dialect} {rows rows' new : List Entry} {c : Call} {tool : String}
  {args : List (String × Val)} {companyId : UUID}

/-- A time in UTC is kept by the column of either table. -/
theorem moment_storeTs (d : Dialect) (wall : Fin maxMicros) : moment (storeTs d ⟨wall, some DateTime.utc⟩) = wall := by
  cases d with
  | sqlite => simp [moment, storeTs, DateTime.utc]
  | postgresql =>
    simp only [storeTs, DateTime.instant_utc, Option.map_some, Option.getD_some]
    simp [moment, DateTime.utc]

theorem moment_normalizeRow (e : Entry) : moment (normalizeRow e).ts = moment e.ts := by
  unfold normalizeRow
  split
  · rename_i hnaive
    simp [moment, DateTime.replaceUtc, hnaive]
  · rfl

theorem timedAction_normalizeRow (e : Entry) : timedAction (normalizeRow e) = timedAction e := by
  rw [timedAction, timedAction, action_normalizeRow, moment_normalizeRow]

theorem timedAction_none {e : Entry} (h : e.kind ≠ .execute) : timedAction e = none := by
  rw [timedAction, action_none h]
  rfl

theorem timedActions_append (companyId : UUID) (rows new : List Entry) :
    timedActions companyId (rows ++ new) = timedActions companyId rows ++ timedActions companyId new := by
  rw [timedActions, ofCompany_append, List.filterMap_append]
  rfl

/-- What a write adds to the log. -/
theorem timedActions_write (hacts : c.Acts tool args) :
    (∃ res rows', write sha256 d rows c = (.ok res, rows') ∧
      timedActions c.companyId rows' = timedActions c.companyId rows ++ [((tool, backDict args), moment (storeTs d c.ts))] ∧
        ∀ other, other ≠ c.companyId → timedActions other rows' = timedActions other rows) ∨
    ∃ x, write sha256 d rows c = (.error x, rows) := by
  rcases @write_cases sha256 d rows c with ⟨res, ep, vp, rp, p, e, v, r, hg, hw⟩ | h
  · have hown : ofCompany [p, e, v, r] c.companyId = [p, e, v, r] :=
      List.filter_eq_self.mpr fun row hrow => decide_eq_true (hg.company row hrow)
    have hforeign : ∀ other, other ≠ c.companyId → ofCompany [p, e, v, r] other = [] := fun other hother =>
      List.filter_eq_nil_iff.mpr fun row hrow => by
        rw [decide_eq_true_eq, hg.company row hrow]
        exact hother.symm
    have hp : timedAction p = none := timedAction_none (by rw [hg.propose.fields.2.2.1]; exact fun h => by cases h)
    have he : timedAction e = some ((tool, backDict args), moment (storeTs d c.ts)) := by
      rw [timedAction, action_execute hacts hg.execPayload hg.execute rfl rfl, hg.execute.ts]
      rfl
    have hv : timedAction v = none := timedAction_none (by rw [hg.verify.fields.2.2.1]; exact fun h => by cases h)
    have hr : timedAction r = none := timedAction_none (by rw [hg.resolve.fields.2.2.1]; exact fun h => by cases h)
    refine .inl ⟨res, _, hw, ?_, fun other hother => ?_⟩
    · rw [timedActions_append, timedActions, timedActions, hown]
      simp only [List.filterMap_cons, List.filterMap_nil, hp, he, hv, hr]
    · rw [timedActions_append, timedActions, timedActions, hforeign other hother, List.filterMap_nil, List.append_nil]
  · exact .inr h

/-- What is read of a sound ledger is the log. -/
theorem fetch_timed (hsound : Sound sha256 d rows) :
    (fetchEntries d rows companyId none).filterMap timedAction = timedActions companyId rows := by
  rw [fetch_sound hsound, List.filterMap_map, timedActions]
  exact List.filterMap_congr fun e _ => timedAction_normalizeRow e

end

end Ledger
