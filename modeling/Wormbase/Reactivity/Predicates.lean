import Wormbase.Py.Coerce

/-! Predicates of reactivities over the rows that the runner hands them. -/

namespace Reactivity
open Py

/-- `EntryKind(kind).match`: the kind of the step, or the action of an execute row. -/
def entryKind (kind : String) (entry : Dict) : Except Err Bool :=
  if (entry.get "kind").isText kind then .ok true
  else if (entry.get "kind").isText "execute" then
    match (entry.get "payload").or (.dict []) with
    | .dict payload =>
      match Dict.get payload "tool" with
      | .str tool => .ok (tool ≠ "" && (tool = kind || (".emit_" ++ kind).toList.isSuffixOf tool.toList ||
          tool = "emit_" ++ kind))
      | v =>
        if v.truthy then .error (attributeError s!"'{v.typeName}' object has no attribute 'endswith'")
        else .ok false
    | v => .error (attributeError s!"'{v.typeName}' object has no attribute 'get'")
  else .ok false

/-- `Or`: the first that matches decides. -/
def anyOf : List (Except Err Bool) → Except Err Bool
  | [] => .ok false
  | c :: cs => do
    match ← c with
    | true => return true
    | false => anyOf cs

/-- `Not`. -/
def negated (c : Except Err Bool) : Except Err Bool := do return !(← c)

/-- A row of another step than `execute` has the kind of that step only. -/
theorem entryKind_step {kind step : String} {entry : Dict} (hentry : entry.get "kind" = .str step)
    (hstep : step ≠ "execute") (hkind : step ≠ kind) : entryKind kind entry = .ok false := by
  simp [entryKind, hentry, Val.isText, hstep, hkind]

/-- An execute row of `emit_<kind>` has that kind. -/
theorem entryKind_action {kind : String} {entry payload : Dict} (hkind : entry.get "kind" = .str "execute")
    (hpayload : entry.get "payload" = .dict payload)
    (htool : Dict.get payload "tool" = .str ("emit_" ++ kind)) : entryKind kind entry = .ok true := by
  have hne : payload ≠ [] := by
    rintro rfl
    cases htool
  have hor : (entry.get "payload").or (.dict []) = .dict payload := by
    simp [hpayload, Val.or, Val.truthy, hne]
  by_cases hexec : kind = "execute"
  · simp [entryKind, hkind, Val.isText, hexec]
  · simp [entryKind, hkind, Val.isText, Ne.symm hexec, hor, htool]

/-- An execute row with an action has a kind or not, and raises for none. -/
theorem entryKind_isOk {kind tool : String} {entry payload : Dict} (hkind : entry.get "kind" = .str "execute")
    (hpayload : entry.get "payload" = .dict payload) (htool : Dict.get payload "tool" = .str tool) :
    ∃ b, entryKind kind entry = .ok b := by
  have hne : payload ≠ [] := by
    rintro rfl
    cases htool
  have hor : (entry.get "payload").or (.dict []) = .dict payload := by
    simp [hpayload, Val.or, Val.truthy, hne]
  by_cases hexec : kind = "execute"
  · exact ⟨true, by simp [entryKind, hkind, Val.isText, hexec]⟩
  · refine ⟨tool ≠ "" && (tool = kind || (".emit_" ++ kind).toList.isSuffixOf tool.toList ||
      tool = "emit_" ++ kind), ?_⟩
    simp only [entryKind, hkind, Val.isText, Ne.symm hexec, decide_false, Bool.false_eq_true, if_false,
      decide_true, if_true, hor, htool]

theorem anyOf_true : ∀ {cs : List (Except Err Bool)}, (∀ c ∈ cs, ∃ b, c = .ok b) → .ok true ∈ cs →
    anyOf cs = .ok true
  | c :: cs, hok, hmem => by
    obtain ⟨⟨b, rfl⟩, hrest⟩ := List.forall_mem_cons.mp hok
    cases b with
    | true => rfl
    | false =>
      have htail : anyOf cs = .ok true :=
        anyOf_true hrest ((List.mem_cons.mp hmem).resolve_left nofun)
      exact htail

theorem anyOf_false : ∀ {cs : List (Except Err Bool)}, (∀ c ∈ cs, c = .ok false) → anyOf cs = .ok false
  | [], _ => rfl
  | c :: cs, h => by
    obtain ⟨rfl, hrest⟩ := List.forall_mem_cons.mp h
    have htail : anyOf cs = .ok false := anyOf_false hrest
    exact htail

end Reactivity
