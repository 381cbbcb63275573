import Wormbase.Ledger.Commit
import Wormbase.Py.Coerce

/-! Filters of agent subscriptions, and what they see of the rows that the ledger writes.

    A filter reads `kind` and `args` of the row that it is handed. A row of the ledger has the kind of
    its step there, and the args of its action lie one level down, in its payload. -/

namespace Subscriptions
open Py

/-! ### The filter -/

/-- `AgentEventFilter`, with what a JSON object can put into its fields; tuples are lists. -/
structure AgentEventFilter where
  kinds : List Val
  domains : List Val
  agentIdRef : Val
  payloadPathEq : List (List Val)

/-- `s.split(".")`. -/
def splitDots (s : String) : List String := (s.toList.splitOn '.').map String.ofList

/-- The walk of `_lookup_path`. -/
def lookupPath : Val → List String → Val
  | v, [] => v
  | .dict d, part :: parts =>
    match Dict.get? d part with
    | some v => lookupPath v parts
    | none => .none
  | _, _ :: _ => .none

/-- `if not c: return False` for one check after the other. -/
def allTrue : List (Except Err Bool) → Except Err Bool
  | [] => .ok true
  | c :: cs => do
    match ← c with
    | true => allTrue cs
    | false => return false

/-- `v in s` of a set, where there is one to constrain. -/
def inSet (s : List Key) (v : Except Err Val) : Except Err Bool := do
  if s = [] then return true
  return (← (← v).hash) ∈ s

/-- `(entry.get("args") or {}).get(name)`. -/
def entryArg (entry : Dict) (name : String) : Except Err Val :=
  match (entry.get "args").or (.dict []) with
  | .dict args => .ok (Dict.get args name)
  | v => .error (attributeError s!"'{v.typeName}' object has no attribute 'get'")

/-- One pair of `payload_path_eq`. -/
def payloadCheck (entry : Dict) : List Val → Except Err Bool
  | [.str path, expected] => .ok ((lookupPath (.dict entry) (splitDots path)).same expected)
  | [v, _] => .error (attributeError s!"'{v.typeName}' object has no attribute 'split'")
  | _ => .error (valueError "wrong number of values to unpack (expected 2)")

/-- `compile_filter`. -/
def compileFilter (f : AgentEventFilter) : Except Err (Dict → Except Err Bool) := do
  let kindsSet ← f.kinds.mapM Val.hash
  let domainsSet ← f.domains.mapM Val.hash
  return fun entry => allTrue ([
    inSet kindsSet (.ok (entry.get "kind")),
    inSet domainsSet (entryArg entry "domain"),
    match f.agentIdRef with
    | .none => .ok true
    | ref => do return (← entryArg entry "agent_id").same ref] ++
    f.payloadPathEq.map (payloadCheck entry))

/-- The filter compiles, and its predicate returns `True`. -/
def Matches (f : AgentEventFilter) (entry : Dict) : Prop :=
  ∃ p, compileFilter f = .ok p ∧ p entry = .ok true

/-- A row as `fetch` hands it to the runner. -/
def handed (e : Ledger.Entry) : Dict := (Ledger.normalizeRow e).dict

/-! ### What a filter sees of a row -/

theorem allTrue_iff : ∀ {cs : List (Except Err Bool)},
    allTrue cs = .ok true ↔ ∀ c ∈ cs, c = .ok true
  | [] => by simp [allTrue]
  | c :: cs => by
    rw [List.forall_mem_cons, ← allTrue_iff, allTrue]
    cases c with
    | error x => simp [bind, Except.bind]
    | ok b =>
      cases b with
      | true => simp [bind, Except.bind]
      | false => simp [bind, Except.bind, pure, Except.pure]

/-- A text that is in the set of the hashes is one of the values. -/
theorem mem_hashes {s : String} {vs : List Val} {ks : List Key} (h : vs.mapM Val.hash = .ok ks)
    (hs : .str s ∈ ks) : .str s ∈ vs := by
  obtain ⟨i, hi, hget⟩ := List.getElem_of_mem hs
  have hall := List.forall₂_iff_get.mp (mapM_ok h)
  have hhash := hall.2 i (by rw [hall.1]; exact hi) hi
  simp only [List.get_eq_getElem, hget] at hhash
  exact Val.hash_eq_str hhash ▸ List.getElem_mem _

theorem handed_kind (e : Ledger.Entry) : (handed e).get "kind" = .str e.kind.text := by
  rw [← (Ledger.normalizeRow_fields e).2.2.2.1]
  rfl

/-- A row has no args of its own. -/
theorem handed_args (e : Ledger.Entry) (name : String) : entryArg (handed e) name = .ok .none := rfl

/-- A filter for an agent matches no row at all, and one for kinds goes by the kind of the step. -/
theorem matches_handed {f : AgentEventFilter} {e : Ledger.Entry} (h : Matches f (handed e)) :
    (∀ agent, f.agentIdRef ≠ .str agent) ∧ (f.kinds = [] ∨ .str e.kind.text ∈ f.kinds) := by
  obtain ⟨p, hp, hmatch⟩ := h
  obtain ⟨kindsSet, hkinds, hp⟩ := bind_eq_ok.mp hp
  obtain ⟨domainsSet, -, hp⟩ := bind_eq_ok.mp hp
  obtain rfl := Except.ok.inj hp
  have hall := allTrue_iff.mp hmatch
  simp only [List.cons_append, List.nil_append, List.forall_mem_cons] at hall
  obtain ⟨hkind, -, hagent, -⟩ := hall
  constructor
  · intro agent href
    simp only [href, handed_args] at hagent
    cases hagent
  · rw [handed_kind, inSet] at hkind
    split at hkind
    · rename_i hnone
      subst hnone
      exact .inl (List.forall₂_nil_right_iff.mp (mapM_ok hkinds))
    · right
      exact mem_hashes hkinds (of_decide_eq_true (Except.ok.inj hkind))

/-! ### The rows of an action -/

/-- The payload of `emit_<kind>` with args of a domain and an agent. -/
def IsAction (execute : Dict) (kind domain agent : String) : Prop :=
  execute.get "tool" = .str ("emit_" ++ kind) ∧ ∃ args, execute.get "args" = .dict args ∧
    Dict.get args "domain" = .str domain ∧ Dict.get args "agent_id" = .str agent

/-- A write of such an action. -/
def Emits (c : Ledger.Call) (kind domain agent : String) : Prop :=
  ∃ execute, c.execPayload = .ok execute ∧ IsAction execute kind domain agent

/-- A filter for the kind, the domain and the agent, among others. -/
structure Names (f : AgentEventFilter) (kind domain agent : String) : Prop where
  kinds : .str kind ∈ f.kinds
  domains : .str domain ∈ f.domains
  agent : f.agentIdRef = .str agent

/-- A filter that leaves out the kind, the domain or the agent. -/
def Excludes (f : AgentEventFilter) (kind domain agent : String) : Prop :=
  (f.kinds ≠ [] ∧ .str kind ∉ f.kinds) ∨ (f.domains ≠ [] ∧ .str domain ∉ f.domains) ∨
    ∃ other, f.agentIdRef = .str other ∧ other ≠ agent

/-- The filters agree with a row of an action: those that name it match, those that leave it out do
    not. -/
def FiltersAgree (entry : Dict) (kind domain agent : String) : Prop :=
  (∀ f, Names f kind domain agent → f.payloadPathEq = [] → Matches f entry) ∧
    ∀ f, Excludes f kind domain agent → ¬Matches f entry

/-- The execute rows alone, whatever they do. -/
def executeFilter : AgentEventFilter := ⟨[.str "execute"], [], .none, []⟩

theorem executeFilter_matches {e : Ledger.Entry} (he : e.kind = .execute) :
    Matches executeFilter (handed e) := by
  refine ⟨_, rfl, allTrue_iff.mpr ?_⟩
  simp only [executeFilter, handed_kind, he, List.cons_append, List.nil_append, List.map_nil,
    List.forall_mem_cons]
  exact ⟨rfl, rfl, trivial, fun _ h => nomatch h⟩

/-- No filter that names what an action wrote matches its execute row, and the filter for execute rows
    matches it, although that filter leaves out every other kind. -/
theorem filter_misses_action {sha256 : Bytes → Bytes} {d : Ledger.Dialect} {rows rows' : List Ledger.Entry}
    {c : Ledger.Call} {res : Ledger.WriteResult} {kind domain agent : String}
    (hemits : Emits c kind domain agent) (hw : Ledger.write sha256 d rows c = (.ok res, rows')) :
    ∃ p e v r, rows' = rows ++ [p, e, v, r] ∧ e.kind = .execute ∧
      (∃ execute, IsAction execute kind domain agent ∧ jsonColumn (.dict execute) = .ok e.payload) ∧
      Ledger.normalizeRow e ∈ Ledger.fetchEntries d rows' c.companyId none ∧
      (∀ f, Names f kind domain agent → ¬Matches f (handed e)) ∧
      (kind ≠ "execute" → ∃ f, Excludes f kind domain agent ∧ Matches f (handed e)) := by
  rcases @Ledger.write_cases sha256 d rows c with ⟨res', ep, vp, rp, p, e, v, r, hg, hw'⟩ | ⟨x, hx⟩
  · obtain ⟨-, rfl⟩ := Prod.mk.inj (hw.symm.trans hw')
    have hkind : e.kind = .execute := hg.execute.fields.2.2.1
    have hpayload : ∃ execute, IsAction execute kind domain agent ∧
        jsonColumn (.dict execute) = .ok e.payload := by
      obtain ⟨execute, hexecute, haction⟩ := hemits
      obtain rfl := Except.ok.inj (hexecute.symm.trans hg.execPayload)
      exact ⟨execute, haction, hg.execute.payload⟩
    refine ⟨p, e, v, r, rfl, hkind, hpayload, ?_, fun f hf hmatch => ?_, fun hne => ?_⟩
    · exact Ledger.mem_fetchEntries.mpr ⟨e, by simp, hg.company e (by simp), rfl⟩
    · exact (matches_handed hmatch).1 agent hf.agent
    · refine ⟨executeFilter, .inl ⟨by simp [executeFilter], ?_⟩, executeFilter_matches hkind⟩
      simpa [executeFilter] using hne
  · cases hw.symm.trans hx

/-- An action with a domain and an agent. -/
def sampleEmit : Ledger.Call :=
  { Ledger.sampleCall Ledger.midnight [] with
    executeFn := .ok (.dict [(.str "tool", .str "emit_memory_written"),
      (.str "args", .dict [(.str "domain", .str "finance"), (.str "agent_id", .str "agent-1")])]) }

theorem sampleEmit_emits : Emits sampleEmit "memory_written" "finance" "agent-1" :=
  ⟨_, rfl, rfl, _, rfl, rfl, rfl⟩

theorem sampleEmit_returns :
    ∃ res rows, Ledger.write Ledger.tagHash .sqlite [] sampleEmit = (.ok res, rows) := by
  obtain ⟨t, ht⟩ := Ledger.isoText_midnight
  refine Ledger.first_write_returns Ledger.tagHash_injective ⟨t, _, ht, rfl, rfl⟩ rfl
    ⟨t, _, ht, rfl, rfl⟩ rfl ⟨t, _, ht, rfl, rfl⟩ rfl rfl ⟨t, _, ht, rfl, rfl⟩
    (show sampleEmit.ids.Nodup by decide) ?_
  simp only [Ledger.Storable, List.forall_mem_cons]
  exact ⟨⟨_, rfl⟩, ⟨_, rfl⟩, ⟨_, rfl⟩, ⟨_, rfl⟩, by simp⟩

/-- The filter of a subscriber to this action does not match it. -/
theorem sampleEmit_missed : ∃ res rows, Ledger.write Ledger.tagHash .sqlite [] sampleEmit =
    (.ok res, rows) ∧ ∃ e ∈ rows, e.kind = .execute ∧
      ¬FiltersAgree (handed e) "memory_written" "finance" "agent-1" := by
  obtain ⟨res, rows, hw⟩ := sampleEmit_returns
  rcases @Ledger.write_cases Ledger.tagHash .sqlite [] sampleEmit with
    ⟨res', ep, vp, rp, p, e, v, r, hg, hw'⟩ | ⟨x, hx⟩
  · obtain ⟨-, rfl⟩ := Prod.mk.inj (hw.symm.trans hw')
    refine ⟨res, _, hw, e, by simp, hg.execute.fields.2.2.1, fun hagree => ?_⟩
    have hmatch := hagree.1 ⟨[.str "memory_written"], [.str "finance"], .str "agent-1", []⟩
      ⟨.head _, .head _, rfl⟩ rfl
    exact (matches_handed hmatch).1 "agent-1" rfl
  · cases hw.symm.trans hx

theorem sampleEmit_filters : ∃ res rows, Ledger.write Ledger.tagHash .sqlite [] sampleEmit =
    (.ok res, rows) ∧ ∃ e ∈ rows, e.kind = .execute ∧
      ∀ f, Names f "memory_written" "finance" "agent-1" → ¬Matches f (handed e) := by
  obtain ⟨res, rows, hw⟩ := sampleEmit_returns
  obtain ⟨p, e, v, r, rfl, hkind, -, -, hmiss, -⟩ := filter_misses_action sampleEmit_emits hw
  exact ⟨res, _, hw, e, by simp, hkind, hmiss⟩

end Subscriptions
