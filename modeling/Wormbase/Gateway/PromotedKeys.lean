import Wormbase.Gateway.GapEscalation
import Wormbase.Gateway.Recommendation
import Wormbase.Lib.Keyed
import Wormbase.Py.Stored
import Wormbase.Py.UuidText

/-! The keys under which the promotions of the compounding loop look their earlier output up.

    A key is read back from the entry exactly as the check derives it from the cluster, whatever the
    cluster has become since: the canonical intent of a canonical intent is itself, a domain has a text,
    and the id of a row is its own text. -/

namespace Gateway
open Py FirstFit Projection Keyed

/-! ### Canonical intents -/

/-- What `str.lower` does to single characters: what it gives it leaves alone. -/
structure LowerCase (lower : List Char → List Char) : Prop where
  fixed : ∀ s, ∀ c ∈ lower s, lower [c] = [c]
  keeps : ∀ s, (∀ c ∈ s, lower [c] = [c]) → lower s = s
  space : lower [' '] = [' ']

/-- The parts of a split have no separator, and only characters of the text. -/
theorem splitOnP_parts {p : Char → Bool} : ∀ {s : List Char}, ∀ w ∈ s.splitOnP p, ∀ c ∈ w, p c = false ∧ c ∈ s
  | [], w, hw, c, hc => by
    rw [List.splitOnP_nil, List.mem_singleton] at hw
    rw [hw] at hc
    exact nomatch hc
  | a :: s, w, hw, c, hc => by
    rw [List.splitOnP_cons_eq_if_modifyHead] at hw
    have ih := @splitOnP_parts p s
    have hlater : ∀ {v}, v ∈ s.splitOnP p → c ∈ v → p c = false ∧ c ∈ a :: s := fun hv hcv =>
      ⟨(ih _ hv c hcv).1, List.mem_cons_of_mem a (ih _ hv c hcv).2⟩
    split at hw
    · rcases List.mem_cons.mp hw with rfl | hw
      · exact nomatch hc
      · exact hlater hw hc
    · rename_i ha
      cases hparts : s.splitOnP p with
      | nil => exact absurd hparts (List.splitOnP_ne_nil p s)
      | cons v vs =>
        rw [hparts] at hw hlater
        rcases List.mem_cons.mp hw with rfl | hw
        · rcases List.mem_cons.mp hc with rfl | hc
          · exact ⟨by simpa using ha, List.mem_cons_self⟩
          · exact hlater List.mem_cons_self hc
        · exact hlater (List.mem_cons_of_mem _ hw) hc

/-- Words that are joined by a space come apart at it. -/
theorem splitOnP_join {p : Char → Bool} (hp : p ' ' = true) : ∀ {w : List Char} {ws : List (List Char)},
    (∀ v ∈ w :: ws, ∀ c ∈ v, p c = false) → ([' '].intercalate (w :: ws)).splitOnP p = w :: ws
  | w, [], h => by
    rw [List.intercalate_singleton, List.splitOnP_eq_singleton (h w List.mem_cons_self)]
  | w, v :: ws, h => by
    obtain ⟨hw, hrest⟩ := List.forall_mem_cons.mp h
    rw [List.intercalate_cons_of_ne_nil (List.cons_ne_nil v ws), List.append_assoc, List.singleton_append,
      List.splitOnP_append_cons_of_forall_mem hw ' ' hp, splitOnP_join hp hrest]

/-- Where `joinWords` takes a character from. -/
theorem mem_intercalate {c sep : Char} : ∀ {ws : List (List Char)}, c ∈ [sep].intercalate ws →
    c = sep ∨ ∃ w ∈ ws, c ∈ w
  | [], h => nomatch h
  | [w], h => .inr ⟨w, List.mem_singleton_self w, by rwa [List.intercalate_singleton] at h⟩
  | w :: v :: ws, h => by
    rw [List.intercalate_cons_of_ne_nil (List.cons_ne_nil v ws), List.append_assoc, List.mem_append,
      List.singleton_append, List.mem_cons] at h
    rcases h with h | rfl | h
    · exact .inr ⟨w, List.mem_cons_self, h⟩
    · exact .inl rfl
    · rcases mem_intercalate h with rfl | ⟨u, hu, hc⟩
      · exact .inl rfl
      · exact .inr ⟨u, List.mem_cons_of_mem w hu, hc⟩

theorem joinWords_joinWords (s : List Char) : joinWords (joinWords s) = joinWords s := by
  have hwords : ∀ v ∈ (s.splitOnP whitespace).filter (· ≠ []), ∀ c ∈ v, whitespace c = false :=
    fun v hv c hc => (splitOnP_parts v (List.mem_filter.mp hv).1 c hc).1
  have hfull : ((s.splitOnP whitespace).filter (· ≠ [])).filter (· ≠ []) =
      (s.splitOnP whitespace).filter (· ≠ []) := by
    rw [List.filter_filter]
    simp
  rw [joinWords, joinWords]
  generalize (s.splitOnP whitespace).filter (· ≠ []) = ws at hwords hfull
  cases ws with
  | nil => rfl
  | cons w ws => rw [splitOnP_join (by decide) hwords, hfull]

theorem joinWords_mem {s : List Char} {c : Char} (h : c ∈ joinWords s) : c = ' ' ∨ c ∈ s := by
  rcases mem_intercalate h with rfl | ⟨w, hw, hc⟩
  · exact .inl rfl
  · exact .inr (splitOnP_parts w (List.mem_filter.mp hw).1 c hc).2

/-- A canonical intent is the canonical intent of itself. -/
theorem canonicalIntent_idem {lower : List Char → List Char} (hl : LowerCase lower) (s : String) :
    canonicalIntent lower (canonicalIntent lower s) = canonicalIntent lower s := by
  have hkeep : lower (joinWords (lower s.toList)) = joinWords (lower s.toList) := by
    refine hl.keeps _ fun c hc => ?_
    rcases joinWords_mem hc with rfl | hc
    · exact hl.space
    · exact hl.fixed _ c hc
  rw [canonicalIntent, canonicalIntent, String.toList_ofList, hkeep, joinWords_joinWords]

/-! ### Keys of entries -/

/-- What the loop writes at most one entry for. -/
inductive PromotedKey
  | template (domain intent : String)
  | badPattern (domain intent : String)
  | agentQuery (id : String)
  | gap (id : String)
  | product (id : String)
  deriving DecidableEq

/-- The agent query that an execute row of `data_product_proposed` comes from. -/
def agentQueryOf (r : Dict) : Option String :=
  match sourceAuditTrail r with
  | some (.str id) => if id = "" then none else some id
  | _ => none

section
variable (py : Interp) (lower : List Char → List Char)

/-- The keys of a row, which has one at most if the loop wrote it. -/
def promotedKeys (r : LedgerRow) : List PromotedKey :=
  let e := entryDict r
  ((promotionKey py lower e).map fun k => .template k.1 k.2).toList ++
    (((badPatternKey py e).map fun k => .badPattern k.1 k.2).toList ++
      (((agentQueryOf e).map .agentQuery).toList ++
        (((escalatedGap py e).map .gap).toList ++ ((recommendedProduct py e).map .product).toList)))

end

section
variable {py : Interp} {lower : List Char → List Char} {rows : List LedgerRow}

/-- The rows that have a key are those in which its check finds it. -/
theorem mem_keys {α : Type} {f : Dict → Option α} {a : α} : a ∈ (fetch rows).filterMap f ↔
    ∃ r ∈ rows, f (entryDict r) = some a := by
  rw [List.mem_filterMap, fetch]
  exact ⟨fun ⟨e, he, hf⟩ => by
    obtain ⟨r, hr, rfl⟩ := List.mem_map.mp he
    exact ⟨r, hr, hf⟩, fun ⟨r, hr, hf⟩ => ⟨_, List.mem_map_of_mem hr, hf⟩⟩

theorem template_mem {d i : String} : PromotedKey.template d i ∈ rows.flatMap (promotedKeys py lower) ↔
    (d, i) ∈ existingPromotionKeys py lower (fetch rows) := by
  rw [existingPromotionKeys, mem_keys, List.mem_flatMap]
  simp [promotedKeys]

theorem badPattern_mem {d i : String} : PromotedKey.badPattern d i ∈ rows.flatMap (promotedKeys py lower) ↔
    (d, i) ∈ existingBadPatternIntents py (fetch rows) := by
  rw [existingBadPatternIntents, mem_keys, List.mem_flatMap]
  simp [promotedKeys]

theorem gap_mem {id : String} : PromotedKey.gap id ∈ rows.flatMap (promotedKeys py lower) ↔
    id ∈ (fetch rows).filterMap (escalatedGap py) := by
  rw [mem_keys, List.mem_flatMap]
  simp [promotedKeys]

theorem product_mem {id : String} : PromotedKey.product id ∈ rows.flatMap (promotedKeys py lower) ↔
    id ∈ (fetch rows).filterMap (recommendedProduct py) := by
  rw [mem_keys, List.mem_flatMap]
  simp [promotedKeys]

/-- An agent query that a row has as its key is found by the check. -/
theorem agentQuery_found {id : String} (h : PromotedKey.agentQuery id ∈ rows.flatMap (promotedKeys py lower)) :
    alreadyPromotedForAuditTrail (fetch rows) (.str id) = true := by
  obtain ⟨r, hr, hk⟩ := List.mem_flatMap.mp h
  have hid : agentQueryOf (entryDict r) = some id := by simpa [promotedKeys] using hk
  rw [agentQueryOf] at hid
  split at hid
  · rename_i found hsource
    split at hid
    · cases hid
    · rename_i hne
      obtain rfl := Option.some.inj hid
      rw [alreadyPromotedForAuditTrail, Bool.and_eq_true, List.any_eq_true]
      exact ⟨by simpa [Val.truthy] using hne, _, mem_keys.mpr ⟨r, hr, hsource⟩, by simp [Val.same]⟩
  · cases hid

/-! ### Keys of a cycle -/

/-- The payload of a row of a kind. -/
theorem payloadOf_same {r : LedgerRow} {p : Key × Val} {ps : Dict} (hpayload : r.payload = .dict (p :: ps)) :
    payloadOf r.kind (entryDict r) = some (p :: ps) := by
  have hk : (entryDict r).get "kind" = .str r.kind := rfl
  have hp : (entryDict r).get "payload" = .dict (p :: ps) := hpayload
  simp [payloadOf, hk, hp, Val.isText, Val.or, Val.truthy]

theorem payloadOf_ne {r : LedgerRow} {kind : String} (hkind : r.kind ≠ kind) : payloadOf kind (entryDict r) = none := by
  have hk : (entryDict r).get "kind" = .str r.kind := rfl
  simp [payloadOf, hk, Val.isText, hkind]

/-- The row of the propose step. -/
def Cycle.proposeRow (c : Cycle) (company : UUID) (n : ℕ) (st : Stamp) : LedgerRow :=
  ⟨st.proposeId, company, n + 1, st.ts, "propose", .dict (backDict c.propose), st.hash 0⟩

/-- Of a row that is no propose step only its agent query counts. -/
theorem keys_of_ne {r : LedgerRow} (hkind : r.kind ≠ "propose") :
    promotedKeys py lower r = ((agentQueryOf (entryDict r)).map .agentQuery).toList := by
  have hnone := payloadOf_ne hkind
  simp [promotedKeys, promotionKey, badPatternKey, escalatedGap, recommendedProduct, hnone]

theorem agentQueryOf_ne {r : LedgerRow} (hkind : r.kind ≠ "execute") : agentQueryOf (entryDict r) = none := by
  have hnone := payloadOf_ne hkind
  simp [agentQueryOf, sourceAuditTrail, hnone]

/-- The keys of a cycle are those of its propose row, and the agent query of its execute row. -/
theorem cycle_keys {c : Cycle} {p : String × Val} {ps : List (String × Val)} (hc : c.propose = p :: ps)
    (company : UUID) (n : ℕ) (st : Stamp) : ∃ r, payloadOf "propose" (entryDict r) = some (backDict c.propose) ∧
      agentQueryOf (entryDict r) = none ∧
      (c.rows company n st).flatMap (promotedKeys py lower) = promotedKeys py lower r ++
        ((agentQueryOf (entryDict (c.executeRow company n st))).map .agentQuery).toList := by
  refine ⟨c.proposeRow company n st, ?_, agentQueryOf_ne (by simp [Cycle.proposeRow]), ?_⟩
  · have hpayload : (c.proposeRow company n st).payload = .dict ((.str p.1, backOf p.2) :: backDict ps) := by
      rw [Cycle.proposeRow, hc]
      rfl
    have h := payloadOf_same hpayload
    rw [hc]
    exact h
  · have hexecute := @keys_of_ne py lower (c.executeRow company n st) (by decide : "execute" ≠ "propose")
    have hlate : ∀ {r : LedgerRow}, r.kind ≠ "propose" → r.kind ≠ "execute" → promotedKeys py lower r = [] := by
      intro r hp he
      rw [keys_of_ne hp, agentQueryOf_ne he]
      rfl
    rw [← hexecute]
    simp only [Cycle.rows, stampedRows, List.flatMap_cons, List.flatMap_nil]
    rw [hlate (r := ⟨_, _, _, _, "verify", _, _⟩) (by simp) (by simp),
      hlate (r := ⟨_, _, _, _, "resolve", _, _⟩) (by simp) (by simp)]
    simp only [List.append_nil]
    rfl

theorem agentQueryOf_none {c : Cycle} (htool : Dict.get (c.execute.map strItem) "tool" = .none)
    (company : UUID) (n : ℕ) (st : Stamp) : agentQueryOf (entryDict (c.executeRow company n st)) = none := by
  have hpayload : payloadOf "execute" (entryDict (c.executeRow company n st)) =
      some (backDict (("propose_entry_id", .str st.proposeId.str) :: c.execute)) := payloadOf_same rfl
  have hget := get_execute c st (by decide : "tool" ≠ "propose_entry_id")
  rw [htool, backOf_none] at hget
  simp [agentQueryOf, sourceAuditTrail, hpayload, hget, Val.isText]

/-- The keys of a cycle without a tool are those of its propose row. -/
theorem propose_keys {c : Cycle} {p : String × Val} {ps : List (String × Val)} (hc : c.propose = p :: ps)
    (htool : Dict.get (c.execute.map strItem) "tool" = .none) (company : UUID) (n : ℕ) (st : Stamp) :
    ∃ r, payloadOf "propose" (entryDict r) = some (backDict c.propose) ∧ agentQueryOf (entryDict r) = none ∧
      (c.rows company n st).flatMap (promotedKeys py lower) = promotedKeys py lower r := by
  obtain ⟨r, hpayload, hagent, hkeys⟩ := @cycle_keys py lower c p ps hc company n st
  rw [agentQueryOf_none htool] at hkeys
  exact ⟨r, hpayload, hagent, hkeys.trans (List.append_nil _)⟩

theorem templateCycle_keys {domain intent : String} (hdomain : domain ≠ "") (hintent : intent ≠ "")
    (hcanonical : canonicalIntent lower intent = intent) (spec : Dict) (ids : List String) (quality : String)
    (company : UUID) (n : ℕ) (st : Stamp) :
    ((templateCycle domain intent spec ids quality).rows company n st).flatMap (promotedKeys py lower) =
      [.template domain intent] := by
  obtain ⟨r, hpayload, hagent, hkeys⟩ := @propose_keys py lower (templateCycle domain intent spec ids quality) _ _ rfl rfl
    company n st
  rw [hkeys]
  simp [promotedKeys, promotionKey, badPatternKey, escalatedGap, recommendedProduct, hpayload, hagent,
    templateCycle, plainCycle, backDict, Dict.has, Dict.get, Dict.get?, Val.isText, Val.or, Val.truthy, Val.text,
    hdomain, hintent, hcanonical]

theorem badPatternCycle_keys {domain intent : String} (hdomain : domain ≠ "") (hintent : intent ≠ "")
    (ids : List String) (specs : List Val) (company : UUID) (n : ℕ) (st : Stamp) :
    ((badPatternCycle domain intent ids specs).rows company n st).flatMap (promotedKeys py lower) =
      [.badPattern domain intent] := by
  obtain ⟨r, hpayload, hagent, hkeys⟩ := @propose_keys py lower (badPatternCycle domain intent ids specs) _ _ rfl rfl
    company n st
  rw [hkeys]
  by_cases hno : domain = "_no_domain"
  · simp [promotedKeys, promotionKey, badPatternKey, escalatedGap, recommendedProduct, hpayload, hagent,
      badPatternCycle, plainCycle, backDict, Dict.has, Dict.get, Dict.get?, Val.isText, Val.or, Val.truthy, Val.text,
      hno, hintent]
  · simp [promotedKeys, promotionKey, badPatternKey, escalatedGap, recommendedProduct, hpayload, hagent,
      badPatternCycle, plainCycle, backDict, Dict.has, Dict.get, Dict.get?, Val.isText, Val.or, Val.truthy, Val.text,
      hno, hdomain, hintent]

theorem gapCycle_keys {gapId : String} (hid : gapId ≠ "") (nlQuestion reason : String) (days : ℕ)
    (metricName : Val) (company : UUID) (n : ℕ) (st : Stamp) :
    ((gapCycle gapId nlQuestion reason days metricName).rows company n st).flatMap (promotedKeys py lower) =
      [.gap gapId] := by
  obtain ⟨r, hpayload, hagent, hkeys⟩ := @propose_keys py lower (gapCycle gapId nlQuestion reason days metricName) _ _ rfl rfl
    company n st
  rw [hkeys]
  simp [promotedKeys, promotionKey, badPatternKey, escalatedGap, recommendedProduct, hpayload, hagent,
    gapCycle, plainCycle, backDict, Dict.has, Dict.get, Dict.get?, Val.isText, Val.text?, Val.truthy, hid]

theorem recommendationCycle_keys (dpId : UUID) (consumers : List String) (company : UUID) (n : ℕ) (st : Stamp) :
    ((recommendationCycle dpId consumers).rows company n st).flatMap (promotedKeys py lower) =
      [.product dpId.str] := by
  obtain ⟨r, hpayload, hagent, hkeys⟩ := @propose_keys py lower (recommendationCycle dpId consumers) _ _ rfl rfl
    company n st
  rw [hkeys]
  simp [promotedKeys, promotionKey, badPatternKey, escalatedGap, recommendedProduct, hpayload, hagent,
    recommendationCycle, plainCycle, backDict, Dict.has, Dict.get, Dict.get?, Val.isText, Val.text_str]

/-- What a column gives back is a text only where a text went in. -/
theorem backOf_eq_str {v : Val} {s : String} (h : backOf v = .str s) : v = .str s := by
  cases v with
  | str t => rwa [backOf_str] at h
  | int i =>
    simp only [backOf, jsonColumn] at h
    cases hcheck : checkInt i <;> simp [hcheck, bind, Except.bind, pure, Except.pure, Except.toOption] at h
  | list xs =>
    simp only [backOf, jsonColumn] at h
    cases hitems : columnList xs <;> simp [hitems, bind, Except.bind, pure, Except.pure, Except.toOption] at h
  | dict kvs =>
    simp only [backOf, jsonColumn] at h
    cases hitems : columnItems kvs <;> simp [hitems, bind, Except.bind, pure, Except.pure, Except.toOption] at h
  | _ => simp [backOf, jsonColumn, Except.toOption] at h

/-- A dict comes back with its fields, or it counts as empty. -/
theorem backOf_dict {D : List (String × Val)} (hkeys : (D.map Prod.fst).Nodup) :
    ∃ d, (backOf (.dict (D.map strItem))).or (.dict []) = .dict d ∧
      ∀ name, Dict.get d name = .none ∨ Dict.get d name = backOf (Dict.get (D.map strItem) name) := by
  cases hcolumn : jsonColumn (.dict (D.map strItem)) with
  | error e =>
    have hnone : backOf (.dict (D.map strItem)) = .none := by
      rw [backOf, hcolumn]
      rfl
    exact ⟨[], by rw [hnone]; rfl, fun name => .inl rfl⟩
  | ok w =>
    rw [(backOf_eq hcolumn).trans (jsonColumn_dict hkeys hcolumn), Val.or]
    split
    · exact ⟨backDict D, rfl, fun name => .inr (get_backDict name D)⟩
    · exact ⟨[], rfl, fun name => .inl rfl⟩

/-- The agent query that a proposed data product comes from is the one of its outcome. -/
theorem agentQueryOf_dataProduct {args : Dict} {dpId : UUID} {quality : String} {company : UUID} {n : ℕ}
    {st : Stamp} {id : String} (h : agentQueryOf (entryDict ((dataProductCycle py (args.get "agent_query_id")
      (dataProductArgs py args dpId quality) dpId quality).executeRow company n st)) = some id) :
    args.get "agent_query_id" = .str id := by
  let c := dataProductCycle py (args.get "agent_query_id") (dataProductArgs py args dpId quality) dpId quality
  have hpayload : payloadOf "execute" (entryDict (c.executeRow company n st)) =
      some (backDict (("propose_entry_id", .str st.proposeId.str) :: c.execute)) := payloadOf_same rfl
  have htool : Dict.get (backDict (("propose_entry_id", .str st.proposeId.str) :: c.execute)) "tool" =
      .str "emit_data_product_proposed" := get_execute c st (by decide)
  have hargs : Dict.get (backDict (("propose_entry_id", .str st.proposeId.str) :: c.execute)) "args" =
      backOf (.dict ((dataProductArgs py args dpId quality).map strItem)) := get_execute c st (by decide)
  obtain ⟨d, hd, hfields⟩ := @backOf_dict (dataProductArgs py args dpId quality) (by
    simp [dataProductArgs])
  let params : List (String × Val) := [("nl_question", .str (((args.get "nl_question").or
      (.str "(no question recorded)")).toStr py)), ("query_spec", .dict (specOf args)),
    ("source_audit_trail_id", args.get "agent_query_id"), ("quality_score", .str quality),
    ("proposed_by", .str "agent_gateway.compounding_loop"), ("status", .str "proposed")]
  have hparams : Dict.get ((dataProductArgs py args dpId quality).map strItem) "parameters" =
      .dict (params.map strItem) := rfl
  obtain ⟨e, he, hsources⟩ := @backOf_dict params (by simp [params])
  have hsource : sourceAuditTrail (entryDict (c.executeRow company n st)) = some .none ∨
      sourceAuditTrail (entryDict (c.executeRow company n st)) = some (backOf (args.get "agent_query_id")) := by
    have hget := hfields "parameters"
    rw [hparams] at hget
    simp only [sourceAuditTrail, hpayload, Option.bind_eq_bind, Option.bind_some, htool, hargs, hd, Val.isText,
      decide_true, Bool.not_true, Bool.false_eq_true, if_false]
    rcases hget with hget | hget
    · rw [hget]
      exact .inl rfl
    · rw [hget, he]
      exact (hsources "source_audit_trail_id").imp (congrArg some) (congrArg some)
  rw [agentQueryOf] at h
  rcases hsource with hsource | hsource
  · rw [hsource] at h
    cases h
  · rw [hsource] at h
    split at h
    · rename_i found hfound
      split at h
      · cases h
      · obtain rfl := Option.some.inj h
        exact backOf_eq_str (Option.some.inj hfound)
    · cases h

theorem dataProductCycle_keys (args : Dict) (dpId : UUID) (quality : String) (company : UUID) (n : ℕ) (st : Stamp) :
    ((dataProductCycle py (args.get "agent_query_id") (dataProductArgs py args dpId quality) dpId quality).rows
        company n st).flatMap (promotedKeys py lower) = [] ∨
      ∃ id, args.get "agent_query_id" = .str id ∧
        ((dataProductCycle py (args.get "agent_query_id") (dataProductArgs py args dpId quality) dpId quality).rows
          company n st).flatMap (promotedKeys py lower) = [.agentQuery id] := by
  obtain ⟨r, hpayload, hagent, hkeys⟩ := @cycle_keys py lower (dataProductCycle py (args.get "agent_query_id")
    (dataProductArgs py args dpId quality) dpId quality) _ _ rfl company n st
  have hproposed : promotedKeys py lower r = [] := by
    simp [promotedKeys, promotionKey, badPatternKey, escalatedGap, recommendedProduct, hpayload, hagent,
      dataProductCycle, backDict, Dict.has, Dict.get, Dict.get?, Val.isText]
  rw [hkeys, hproposed, List.nil_append]
  cases hquery : agentQueryOf (entryDict ((dataProductCycle py (args.get "agent_query_id")
      (dataProductArgs py args dpId quality) dpId quality).executeRow company n st)) with
  | none => exact .inl rfl
  | some id => exact .inr ⟨id, agentQueryOf_dataProduct hquery, rfl⟩

end
end Gateway
