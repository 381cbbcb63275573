import Wormbase.Ledger.Settled

/-! A company's ledger as the log of its actions: the tool and the args of each execute row.

    A write that returns appends one action, one that raises none. -/

namespace Ledger
open Py

/-- The tool and the args of an execute row. -/
def action (e : Entry) : Option (String × Dict) :=
  match e.kind, e.payload with
  | .execute, .dict payload =>
    match Dict.get payload "tool", Dict.get payload "args" with
    | .str tool, .dict args => some (tool, args)
    | _, _ => none
  | _, _ => none

/-- The actions of a company, in the order in which they were written. -/
def actions (companyId : UUID) (rows : List Entry) : List (String × Dict) :=
  (ofCompany rows companyId).filterMap action

/-- The execute step returns a tool and its args, and what else it may return. -/
structure Call.Acts (c : Call) (tool : String) (args : List (String × Val)) : Prop where
  execute : ∃ extra : List (String × Val), c.executeFn =
    .ok (.dict ((("tool", .str tool) :: ("args", .dict (args.map strItem)) :: extra).map strItem)) ∧
      ("propose_entry_id" :: "tool" :: "args" :: extra.map Prod.fst).Nodup
  names : (args.map Prod.fst).Nodup

section
variable {sha256 : Bytes → Bytes} {d : Dialect} {rows rows' new : List Entry} {c : Call} {tool : String}
  {args : List (String × Val)}

theorem action_none {e : Entry} (h : e.kind ≠ .execute) : action e = none := by
  rw [action]
  split
  · rename_i heq _
    exact absurd heq h
  · rfl

theorem action_eq_some {e : Entry} {args : Dict} : action e = some (tool, args) ↔ e.kind = .execute ∧
    ∃ payload, e.payload = .dict payload ∧ Dict.get payload "tool" = .str tool ∧
      Dict.get payload "args" = .dict args := by
  unfold action
  constructor
  · intro h
    split at h
    · rename_i payload hkind hpayload
      split at h
      · rename_i htool hargs
        obtain ⟨rfl, rfl⟩ := Prod.mk.inj (Option.some.inj h)
        exact ⟨hkind, payload, hpayload, htool, hargs⟩
      · cases h
    · cases h
  · rintro ⟨hkind, payload, hpayload, htool, hargs⟩
    simp only [hkind, hpayload, htool, hargs]

/-- A payload that is read with a default is itself when it has a tool. -/
theorem payload_or {payload : Dict} (htool : Dict.get payload "tool" = .str tool) :
    (Val.dict payload).or (.dict []) = .dict payload := by
  have hne : payload ≠ [] := by
    rintro rfl
    cases htool
  simp [Val.or, Val.truthy, hne]

theorem actions_append (companyId : UUID) (rows new : List Entry) :
    actions companyId (rows ++ new) = actions companyId rows ++ actions companyId new := by
  rw [actions, ofCompany_append, List.filterMap_append]
  rfl

/-- The actions of rows that belong to one company. -/
theorem actions_own {companyId : UUID} (h : ∀ e ∈ new, e.companyId = companyId) :
    actions companyId new = new.filterMap action := by
  have hown : ofCompany new companyId = new := List.filter_eq_self.mpr fun e he => decide_eq_true (h e he)
  rw [actions, hown]

theorem actions_foreign {companyId other : UUID} (h : ∀ e ∈ new, e.companyId = companyId) (hne : other ≠ companyId) :
    actions other new = [] := by
  have hnone : ofCompany new other = [] := List.filter_eq_nil_iff.mpr fun e he => by
    simp only [decide_eq_true_eq]
    exact fun heq => hne (heq.symm.trans (h e he))
  rw [actions, hnone]
  rfl

/-- The payload of the execute row of a call that acts. -/
theorem execPayload_acts (hacts : c.Acts tool args) {ep : Dict} (hep : c.execPayload = .ok ep) :
    ∃ extra : List (String × Val), ep = (("propose_entry_id", .str c.proposeId.str) :: ("tool", .str tool) ::
      ("args", .dict (args.map strItem)) :: extra).map strItem ∧
        ("propose_entry_id" :: "tool" :: "args" :: extra.map Prod.fst).Nodup := by
  obtain ⟨extra, hexec, hnames⟩ := hacts.execute
  rw [Call.execPayload, hexec] at hep
  have hupdate := @update_strItems (("tool", .str tool) :: ("args", .dict (args.map strItem)) :: extra)
    [("propose_entry_id", .str c.proposeId.str)] (by simpa using hnames)
  exact ⟨extra, (Except.ok.inj hep).symm.trans hupdate, hnames⟩

/-- The column that took the execute payload of a call took its args. -/
theorem args_column (hacts : c.Acts tool args) {ep : Dict} (hep : c.execPayload = .ok ep) {b : Body} {e : Entry}
    (hstored : Stored sha256 d b e) (hpayload : b.payload = .dict ep) :
    jsonColumn (.dict (args.map strItem)) = .ok (.dict (backDict args)) := by
  obtain ⟨extra, hspread, -⟩ := execPayload_acts hacts hep
  have hback := hstored.payload
  rw [hpayload, hspread, jsonColumn] at hback
  obtain ⟨ps, hps, -⟩ := bind_eq_ok.mp hback
  have hcol := (columnItems_ok hps).2 (.str "args", .dict (args.map strItem)) (by simp [strItem])
  rw [hcol, jsonColumn_dict hacts.names hcol]

/-- The execute row of a call shows its tool, and its args as the column gives them back. -/
theorem action_execute (hacts : c.Acts tool args) {ep : Dict} (hep : c.execPayload = .ok ep) {b : Body} {e : Entry}
    (hstored : Stored sha256 d b e) (hkind : b.kind = .execute) (hpayload : b.payload = .dict ep) :
    action e = some (tool, backDict args) := by
  obtain ⟨extra, hspread, hnames⟩ := execPayload_acts hacts hep
  have hback := hstored.payload
  rw [hpayload, hspread] at hback
  have hrow := jsonColumn_dict (by simpa using hnames) hback
  have htool : (backDict (("propose_entry_id", .str c.proposeId.str) :: ("tool", .str tool) ::
      ("args", .dict (args.map strItem)) :: extra)).get "tool" = .str tool := by
    rw [get_backDict]
    simp [Dict.get, Dict.get?, strItem]
  have hargs : (backDict (("propose_entry_id", .str c.proposeId.str) :: ("tool", .str tool) ::
      ("args", .dict (args.map strItem)) :: extra)).get "args" = .dict (backDict args) := by
    rw [get_backDict]
    have hget : Dict.get ((("propose_entry_id", .str c.proposeId.str) :: ("tool", .str tool) ::
        ("args", .dict (args.map strItem)) :: extra).map strItem) "args" = .dict (args.map strItem) := by
      simp [Dict.get, Dict.get?, strItem]
    rw [hget]
    exact backOf_eq (args_column hacts hep hstored hpayload)
  rw [action, hstored.fields.2.2.1, hkind, hrow]
  simp only [htool, hargs]

/-- The args of a call that was written can stand in a column. -/
theorem written_args (hacts : c.Acts tool args) {res : WriteResult} (h : write sha256 d rows c = (.ok res, rows')) :
    ∀ p ∈ args, jsonColumn p.2 = .ok (backOf p.2) := by
  rcases @write_cases sha256 d rows c with ⟨res', ep, vp, rp, p, e, v, r, hg, -⟩ | ⟨x, hx⟩
  · have hcolumn := args_column hacts hg.execPayload hg.execute rfl
    rw [jsonColumn] at hcolumn
    obtain ⟨ps, hps, -⟩ := bind_eq_ok.mp hcolumn
    exact fun p hp => (columnItems_ok hps).2 (strItem p) (List.mem_map_of_mem hp)
  · cases h.symm.trans hx

/-- What a write adds to the log of actions. -/
theorem actions_write (hacts : c.Acts tool args) :
    (∃ res rows', write sha256 d rows c = (.ok res, rows') ∧
      actions c.companyId rows' = actions c.companyId rows ++ [(tool, backDict args)] ∧
        ∀ other, other ≠ c.companyId → actions other rows' = actions other rows) ∨
    ∃ x, write sha256 d rows c = (.error x, rows) := by
  rcases @write_cases sha256 d rows c with ⟨res, ep, vp, rp, p, e, v, r, hg, hw⟩ | h
  · refine .inl ⟨res, _, hw, ?_, fun other hother => ?_⟩
    · have he := action_execute hacts hg.execPayload hg.execute rfl rfl
      have hp : action p = none := action_none (by rw [hg.propose.fields.2.2.1]; exact nofun)
      have hv : action v = none := action_none (by rw [hg.verify.fields.2.2.1]; exact nofun)
      have hr : action r = none := action_none (by rw [hg.resolve.fields.2.2.1]; exact nofun)
      rw [actions_append, actions_own hg.company]
      simp only [List.filterMap_cons, List.filterMap_nil, hp, he, hv, hr]
    · rw [actions_append, actions_foreign hg.company hother, List.append_nil]
  · exact .inr h

end

/-! ### The log as it is read -/

section
variable {sha256 : Bytes → Bytes} {d : Dialect} {rows : List Entry} {c : Call} {tool : String}
  {args : List (String × Val)} {companyId : UUID}

/-- Every execute row of a company shows an action. -/
def Acting (companyId : UUID) (rows : List Entry) : Prop :=
  ∀ e ∈ ofCompany rows companyId, e.kind = .execute → (action e).isSome

theorem acting_nil : Acting companyId [] := fun _ he => absurd he List.not_mem_nil

theorem action_normalizeRow (e : Entry) : action (normalizeRow e) = action e := by
  unfold normalizeRow
  split <;> rfl

/-- The rows of a sound ledger are read in the order of their actions. -/
theorem fetch_sound (hsound : Sound sha256 d rows) :
    fetchEntries d rows companyId none = (ofCompany rows companyId).map normalizeRow := by
  obtain ⟨es, hes, hrel⟩ := hsound companyId
  exact fetchEntries_of_contiguous (hes.toContiguous.congr hrel.link)

/-- What is read of a sound ledger are its actions. -/
theorem fetch_acting (hsound : Sound sha256 d rows) (hacting : Acting companyId rows) :
    (fetchEntries d rows companyId none).filterMap action = actions companyId rows ∧
      ∀ row ∈ fetchEntries d rows companyId none, row.kind = .execute → (action row).isSome := by
  rw [fetch_sound hsound]
  constructor
  · rw [List.filterMap_map, actions]
    exact List.filterMap_congr fun e _ => action_normalizeRow e
  · intro row hrow hkind
    obtain ⟨e, he, rfl⟩ := List.mem_map.mp hrow
    rw [action_normalizeRow]
    exact hacting e he ((normalizeRow_fields e).2.2.2.1 ▸ hkind)

/-- A write of an action leaves every execute row with one. -/
theorem acting_write (h : Acting companyId rows) (hacts : c.Acts tool args) :
    Acting companyId (write sha256 d rows c).2 := by
  rcases @write_cases sha256 d rows c with ⟨res, ep, vp, rp, p, e, v, r, hg, hw⟩ | ⟨x, hw⟩
  · rw [hw]
    intro row hrow hkind
    rw [ofCompany_append] at hrow
    rcases List.mem_append.mp hrow with hold | hnew
    · exact h row hold hkind
    · have he := action_execute hacts hg.execPayload hg.execute rfl rfl
      obtain ⟨hmem, -⟩ := List.mem_filter.mp hnew
      simp only [List.mem_cons, List.not_mem_nil, or_false] at hmem
      rcases hmem with rfl | rfl | rfl | rfl
      · rw [hg.propose.fields.2.2.1] at hkind
        cases hkind
      · rw [he]
        rfl
      · rw [hg.verify.fields.2.2.1] at hkind
        cases hkind
      · rw [hg.resolve.fields.2.2.1] at hkind
        cases hkind
  · rw [hw]
    exact h

/-- The rows are a sound ledger, and every execute row of the company shows an action. -/
structure Logged (sha256 : Bytes → Bytes) (d : Dialect) (companyId : UUID) (rows : List Entry) : Prop where
  sound : Sound sha256 d rows
  acting : Acting companyId rows

theorem logged_nil : Logged sha256 d companyId [] := ⟨sound_nil, acting_nil⟩

theorem Logged.write (h : Logged sha256 d companyId rows) (hacts : c.Acts tool args) :
    Logged sha256 d companyId (Ledger.write sha256 d rows c).2 :=
  ⟨sound_write h.sound c, acting_write h.acting hacts⟩

end

/-! ### Cycles of one action -/

/-- What a write finds outside the call: its ids, its timestamp and the clock. -/
structure Mint where
  proposeId : UUID
  executeId : UUID
  verifyId : UUID
  resolveId : UUID
  timestamp : Option DateTime
  now : DateTime

/-- A cycle whose callbacks return without looking at anything: one action, kept. -/
def emit (companyId : UUID) (m : Mint) (propose : List (String × Val)) (tool : String) (args : List (String × Val))
    (resultRef checks : Val) (rationale : String) (quadrant : Quadrant) : Call where
  companyId
  propose := propose.map strItem
  executeFn := .ok (.dict ([("tool", .str tool), ("args", .dict (args.map strItem)), ("result_ref", resultRef)].map strItem))
  verifyFn := fun _ => .ok (.dict ([("checks", checks), ("passed", .bool true)].map strItem))
  resolveFn := fun _ => .ok (.dict ([("outcome", .str "keep"), ("rationale", .str rationale)].map strItem))
  timestamp := m.timestamp
  quadrant
  now := m.now
  proposeId := m.proposeId
  executeId := m.executeId
  verifyId := m.verifyId
  resolveId := m.resolveId

section
variable {sha256 : Bytes → Bytes} {d : Dialect} {rows : List Entry} {companyId : UUID} {m : Mint}
  {propose args : List (String × Val)} {tool rationale : String} {resultRef checks : Val} {quadrant : Quadrant}

theorem emit_acts (hargs : (args.map Prod.fst).Nodup) :
    (emit companyId m propose tool args resultRef checks rationale quadrant).Acts tool args :=
  ⟨⟨[("result_ref", resultRef)], rfl, by simp⟩, hargs⟩

/-- What an emitted action adds to the log, when the write returns. -/
theorem actions_emit (hargs : (args.map Prod.fst).Nodup) :
    (∃ res rows', write sha256 d rows (emit companyId m propose tool args resultRef checks rationale quadrant) =
        (.ok res, rows') ∧ actions companyId rows' = actions companyId rows ++ [(tool, backDict args)] ∧
          ∀ other, other ≠ companyId → actions other rows' = actions other rows) ∨
      ∃ x, write sha256 d rows (emit companyId m propose tool args resultRef checks rationale quadrant) = (.error x, rows) :=
  actions_write (emit_acts hargs)

/-- An action whose fields are settled is written. -/
theorem emit_returns (hinj : Function.Injective sha256) (hsound : Sound sha256 d rows)
    (hroom : Room rows (emit companyId m propose tool args resultRef checks rationale quadrant))
    (hpropose : Settled (.dict (propose.map strItem))) (hargs : Settled (.dict (args.map strItem)))
    (hresult : Settled resultRef) (hchecks : Settled checks) :
    ∃ res rows', write sha256 d rows (emit companyId m propose tool args resultRef checks rationale quadrant) =
      (.ok res, rows') := by
  have hps : (emit companyId m propose tool args resultRef checks rationale quadrant).payloads = .ok [propose.map strItem,
      ([("propose_entry_id", .str m.proposeId.str), ("tool", .str tool), ("args", .dict (args.map strItem)),
        ("result_ref", resultRef)] : List (String × Val)).map strItem,
      ([("execute_entry_id", .str m.executeId.str), ("checks", checks), ("passed", .bool true)] : List (String × Val)).map strItem,
      ([("verify_entry_id", .str m.verifyId.str), ("outcome", .str "keep"), ("rationale", .str rationale)] :
        List (String × Val)).map strItem] := rfl
  have hexecute : Settled (.dict (([("propose_entry_id", .str m.proposeId.str), ("tool", .str tool),
      ("args", .dict (args.map strItem)), ("result_ref", resultRef)] : List (String × Val)).map strItem)) := by
    refine settled_dict (by simp) ?_
    simp only [List.forall_mem_cons]
    exact ⟨settled_str _, settled_str _, hargs, hresult, by simp⟩
  have hverify : Settled (.dict (([("execute_entry_id", .str m.executeId.str), ("checks", checks),
      ("passed", .bool true)] : List (String × Val)).map strItem)) := by
    refine settled_dict (by simp) ?_
    simp only [List.forall_mem_cons]
    exact ⟨settled_str _, hchecks, settled_bool _, by simp⟩
  have hresolve : Settled (.dict (([("verify_entry_id", .str m.verifyId.str), ("outcome", .str "keep"),
      ("rationale", .str rationale)] : List (String × Val)).map strItem)) := by
    refine settled_dict (by simp) ?_
    simp only [List.forall_mem_cons]
    exact ⟨settled_str _, settled_str _, settled_str _, by simp⟩
  have hpass : Call.passed (([("execute_entry_id", .str m.executeId.str), ("checks", checks),
      ("passed", .bool true)] : List (String × Val)).map strItem) = true := by
    simp [Call.passed, Dict.get, Dict.get?, strItem, Val.truthy]
  obtain ⟨res, p, e, v, r, hw, -⟩ := settled_write hinj hsound hroom hps hpass (by
    simp only [List.forall_mem_cons]
    exact ⟨hpropose, hexecute, hverify, hresolve, by simp⟩)
  exact ⟨res, _, hw⟩

/-- Four ids and midnight, to write a first cycle with. -/
def sampleMint : Mint := ⟨⟨2⟩, ⟨3⟩, ⟨4⟩, ⟨5⟩, some midnight, midnight⟩

theorem room_sampleMint : Room [] (emit companyId sampleMint propose tool args resultRef checks rationale quadrant) where
  ts := isoText_midnight
  seqs := by
    have hsmall : ∀ k ≤ 4, checkInt (k : ℕ) = .ok () := fun k hk => checkInt_small (by omega)
    exact hsmall
  ids := ⟨show [(⟨2⟩ : UUID), ⟨3⟩, ⟨4⟩, ⟨5⟩].Nodup by decide, by simp⟩

/-- The first action of a ledger, of settled fields. -/
theorem first_emit (hpropose : Settled (.dict (propose.map strItem))) (hnames : (args.map Prod.fst).Nodup)
    (hargs : ∀ p ∈ args, Settled p.2) (hresult : Settled resultRef) (hchecks : Settled checks) :
    ∃ res rows', write tagHash .sqlite [] (emit companyId sampleMint propose tool args resultRef checks rationale quadrant) =
      (.ok res, rows') ∧ actions companyId rows' = [(tool, backDict args)] := by
  obtain ⟨res, rows', hw⟩ := @emit_returns tagHash .sqlite [] companyId sampleMint propose args tool rationale resultRef checks
    quadrant tagHash_injective sound_nil room_sampleMint hpropose (settled_dict hnames hargs) hresult hchecks
  rcases @actions_emit tagHash .sqlite [] companyId sampleMint propose args tool rationale resultRef checks quadrant hnames with
    ⟨res', rows'', hw', hacts, -⟩ | ⟨x, hx⟩
  · obtain ⟨-, rfl⟩ := Prod.mk.inj (hw.symm.trans hw')
    exact ⟨res, rows', hw, hacts⟩
  · cases hw.symm.trans hx

/-- A first call has room when its time has a text and its four ids differ. -/
theorem room_first (hts : ∃ t, isoText (m.timestamp.getD m.now) = .ok t)
    (hids : [m.proposeId, m.executeId, m.verifyId, m.resolveId].Nodup) :
    Room [] (emit companyId m propose tool args resultRef checks rationale quadrant) where
  ts := hts
  seqs := by
    have hsmall : ∀ k ≤ 4, checkInt (k : ℕ) = .ok () := fun k hk => checkInt_small (by omega)
    exact hsmall
  ids := ⟨hids, by simp⟩

/-- What the first action of a ledger leaves in the log, when its fields are settled and it has room. -/
theorem emit_first (hroom : Room [] (emit companyId m propose tool args resultRef checks rationale quadrant))
    (hpropose : Settled (.dict (propose.map strItem))) (hnames : (args.map Prod.fst).Nodup)
    (hargs : ∀ p ∈ args, Settled p.2) (hresult : Settled resultRef) (hchecks : Settled checks) :
    actions companyId (write tagHash .sqlite [] (emit companyId m propose tool args resultRef checks rationale quadrant)).2 =
      [(tool, backDict args)] := by
  obtain ⟨res, rows', hw⟩ := emit_returns tagHash_injective sound_nil hroom hpropose (settled_dict hnames hargs) hresult hchecks
  rcases @actions_emit tagHash .sqlite [] companyId m propose args tool rationale resultRef checks quadrant hnames with
    ⟨res', rows'', hw', hacts, -⟩ | ⟨x, hx⟩
  · rw [hw']
    exact hacts
  · cases hw.symm.trans hx

end

end Ledger
