import Wormbase.Projection.Parts

/-! What a reader that scans the ledger on its own sees of the rows that the builder folds.

    Such readers take `payload or {}` and `args or {}`. The builder takes neither, so on the rows
    that it folds, and on the tools that it has a branch for, both see the same args. -/

namespace Projection
open Py

variable {py : Interp} {s s' : State} {e : LedgerRow} {tool : String} {args : Dict}

theorem or_dict (d : Dict) : (Val.dict d).or (.dict []) = .dict d := by
  cases d with
  | nil => rfl
  | cons p d => simp [Val.or, Val.truthy]

theorem or_args {payload : Dict} (h : Dict.getD payload "args" (.dict []) = .dict args) :
    (Dict.get payload "args").or (.dict []) = .dict args := by
  unfold Dict.getD at h
  unfold Dict.get
  cases hget : Dict.get? payload "args" with
  | none =>
    rw [hget] at h
    exact h
  | some v =>
    rw [hget] at h
    obtain rfl : v = .dict args := h
    exact or_dict args

theorem action_eq_some : e.action = some (tool, args) ↔ e.kind = "execute" ∧
    ∃ payload, e.payload = .dict payload ∧ Dict.get payload "tool" = .str tool ∧
      Dict.getD payload "args" (.dict []) = .dict args := by
  constructor
  · intro h
    unfold LedgerRow.action at h
    split at h
    · rename_i hkind
      split at h
      · rename_i payload hpayload
        split at h
        · rename_i tool' args' htool hargs
          obtain ⟨rfl, rfl⟩ := Prod.mk.inj (Option.some.inj h)
          exact ⟨hkind, payload, hpayload, htool, hargs⟩
        · cases h
      · cases h
    · cases h
  · rintro ⟨hkind, payload, hpayload, htool, hargs⟩
    simp only [LedgerRow.action, hkind, if_true, hpayload, htool, hargs]

/-- A tool with a branch is looked up. -/
theorem lookup_of_tool (h : tool ∈ Part.all.flatMap Part.tools) :
    ∃ b, (branches py).lookup tool = some b := by
  rw [← branches_fst py, List.mem_map] at h
  obtain ⟨⟨tool', b⟩, hb, rfl⟩ := h
  exact ⟨b, (lookup_iff_mem (branches_fst py ▸ tools_nodup)).mpr hb⟩

/-- The payload of an execute row that is folded is a dict, and so are the args of a tool with a
    branch. -/
theorem folded_execute (h : applyEntry py s e = .ok s') (hkind : e.kind = "execute") :
    ∃ payload, e.payload = .dict payload ∧ ∀ tool, Dict.get payload "tool" = .str tool →
      tool ∈ Part.all.flatMap Part.tools → ∃ args, e.action = some (tool, args) ∧
        (Dict.get payload "args").or (.dict []) = .dict args := by
  obtain ⟨u, -, h⟩ := bind_eq_ok.mp h
  rw [if_pos hkind] at h
  unfold applyExecute at h
  split at h
  · rename_i payload hpayload
    refine ⟨payload, hpayload, fun tool htool hmem => ?_⟩
    obtain ⟨b, hb⟩ := @lookup_of_tool py tool hmem
    rw [htool] at h
    simp only [hb] at h
    split at h
    · rename_i args hargs
      exact ⟨args, action_eq_some.mpr ⟨hkind, payload, hpayload, htool, hargs⟩, or_args hargs⟩
    · cases h
  · cases h

/-- The action of an entry runs the handler of its tool. -/
theorem stepAt_handler {p : Part} (hp : p ∉ [.agentQueries, .credentials, .queryTemplates, .counts])
    {t : p.Carrier} {run : Fold p.Carrier} (hact : e.action = some (tool, args))
    (hmem : (tool, run) ∈ p.handlers py) : stepAt py p t e = run e args t := by
  rw [stepAt_plain hp, actAt, hact]
  simp only [(lookup_iff_mem (handlers_nodup py p)).mpr hmem]

/-- An action for which a part has no handler leaves it. -/
theorem stepAt_other {p : Part} (hp : p ∉ [.agentQueries, .credentials, .queryTemplates, .counts])
    {t : p.Carrier} (h : ∀ tool args, e.action = some (tool, args) → tool ∉ p.tools) :
    stepAt py p t e = .ok t := by
  rw [stepAt_plain hp, actAt]
  cases hact : e.action with
  | none => rfl
  | some call =>
    obtain ⟨tool, args⟩ := call
    have hnone : (p.handlers py).lookup tool = none := by
      cases hrun : (p.handlers py).lookup tool with
      | none => rfl
      | some run =>
        have hmem := (lookup_iff_mem (handlers_nodup py p)).mp hrun
        exact absurd (part_tools py p ▸ List.mem_map_of_mem hmem) (h tool args hact)
    simp only [hnone]

end Projection
