import Wormbase.Readers.ProductAgreement
import Wormbase.Lib.LastWrite
import Wormbase.Projection.Constraints
import Wormbase.Projection.RowIds
import Wormbase.Projection.Grants

/-! The gateway readers find what the projection has. -/

namespace Readers
open Py Projection LastWrite

/-! ### Agent grants -/

/-- What an agent grant says. -/
structure GrantArgs where
  agentId : String
  grantKind : String
  grantTarget : String
  status : String
  grantedBy : String

/-- The args as they are written: ids are minted, so they are not empty and hold no separator. -/
structure GrantArgs.Reads (g : GrantArgs) (args : Dict) : Prop where
  company : args.get "company_id" = .none
  agentId : args.get "agent_id" = .str g.agentId
  grantKind : args.get "grant_kind" = .str g.grantKind
  grantTarget : args.get "grant_target" = .str g.grantTarget
  status : args.get "status" = .str g.status
  grantedBy : args.get "granted_by" = .str g.grantedBy
  named : g.agentId ≠ "" ∧ g.grantTarget ≠ "" ∧ g.grantedBy ≠ ""
  known : g.grantKind ∈ grantKinds
  plain : '|' ∉ g.agentId.toList ∧ '|' ∉ g.grantTarget.toList

/-- Every agent grant of the ledger is written so. -/
def GrantsWritten (rows : List LedgerRow) : Prop :=
  ∀ e ∈ rows, ∀ args, e.action = some ("emit_agent_grant", args) → ∃ g : GrantArgs, g.Reads args

section
variable (py : Interp)

/-- The args of an agent grant. -/
def grantArgs (e : LedgerRow) : Option Dict :=
  match e.action with
  | some (tool, args) => if tool = "emit_agent_grant" then some args else none
  | none => none

def grantKey (e : LedgerRow) : Option (String × String × String) :=
  (grantArgs e).map fun args => ((args.get "agent_id").text py, (args.get "grant_kind").text py,
    (args.get "grant_target").text py)

/-- What the id of a grant is a digest of. -/
def grantText (e : LedgerRow) (k : String × String × String) : String :=
  "|".intercalate [e.company, k.1, k.2.1, k.2.2]

/-- The row that a grant puts. -/
def grantRowOf (e : LedgerRow) : Option AgentGrant :=
  (grantArgs e).map fun args =>
    let agentId := (args.get "agent_id").text py
    let grantKind := (args.get "grant_kind").text py
    let grantTarget := (args.get "grant_target").text py
    { id := (textUuid py (grantText e (agentId, grantKind, grantTarget))).hex
      companyId := e.company
      agentId, grantKind, grantTarget
      status := args.get "status"
      grantedBy := args.get "granted_by"
      grantedAt := e.ts
      budgetRemainingUsd := args.get "budget_remaining_usd" }

/-- The digest tells the grants of the ledger apart. -/
def GrantIdsApart (rows : List LedgerRow) : Prop :=
  Set.InjOn (textUuid py) {text | ∃ e ∈ rows, ∃ k, grantKey py e = some k ∧ text = grantText e k}

end

section
variable {py : Interp} {e : LedgerRow} {args : Dict} {rows : List LedgerRow} {p : Projections} {company : UUID}

theorem grantArgs_eq_some : grantArgs e = some args ↔ e.action = some ("emit_agent_grant", args) := by
  unfold grantArgs
  cases hact : e.action with
  | none => simp
  | some call =>
    obtain ⟨tool, args'⟩ := call
    simp

theorem GrantArgs.Reads.key {g : GrantArgs} (h : g.Reads args) (he : grantArgs e = some args) :
    grantKey py e = some (g.agentId, g.grantKind, g.grantTarget) := by
  simp only [grantKey, he, Option.map_some, h.agentId, h.grantKind, h.grantTarget, Val.text_str]

theorem emitAgentGrant_run {g : GrantArgs} (h : g.Reads args) (t : Table AgentGrant.id)
    (hact : e.action = some ("emit_agent_grant", args)) :
    emitAgentGrant py e args t = .ok (write (grantRowOf py) t e) := by
  have hitem : ∀ {name s}, args.get name = .str s → args.item name = .ok (.str s) := by
    intro name s hget
    unfold Dict.get at hget
    unfold Dict.item
    cases hv : args.get? name with
    | none =>
      rw [hv] at hget
      cases hget
    | some v =>
      rw [hv] at hget
      exact congrArg Except.ok hget
  have hcompany : (args.get "company_id").or (.str e.company) = .str e.company := by
    rw [h.company]
    rfl
  have hid : agentGrantUuid py [.str e.company, .str g.agentId, .str g.grantKind, .str g.grantTarget] =
      .ok (textUuid py (grantText e (g.agentId, g.grantKind, g.grantTarget))).hex := by
    have hdigest := digestUuid_str py [e.company, g.agentId, g.grantKind, g.grantTarget]
    simp only [List.map_cons, List.map_nil] at hdigest
    simp only [agentGrantUuid, digestHex, hdigest]
    rfl
  simp only [emitAgentGrant, hitem h.agentId, hitem h.grantKind, hitem h.grantTarget, hitem h.status,
    hitem h.grantedBy, hcompany, write, grantRowOf, grantArgs_eq_some.mpr hact, Option.map_some,
    h.agentId, h.grantKind, h.grantTarget, h.status, h.grantedBy, Val.text_str]
  simp only [bind, Except.bind, hid, joined, pure, Except.pure]

/-- The table of grants is written row by row. -/
theorem agentGrants_written (hwritten : GrantsWritten rows) : ∀ {xs : List LedgerRow}, xs ⊆ rows →
    ∀ t : Table AgentGrant.id,
      xs.foldlM (stepAt py .agentGrants) t = .ok (xs.foldl (write (grantRowOf py)) t)
  | [], _, _ => rfl
  | e :: xs, hsub, t => by
    obtain ⟨he, hxs⟩ := List.cons_subset.mp hsub
    have hstep : stepAt py .agentGrants t e = .ok (write (grantRowOf py) t e) := by
      cases hargs : grantArgs e with
      | none =>
        have hwrite : write (grantRowOf py) t e = t := by simp only [write, grantRowOf, hargs, Option.map_none]
        rw [hwrite]
        refine stepAt_other (by decide) fun tool args hact htool => ?_
        obtain rfl : tool = "emit_agent_grant" := List.mem_singleton.mp htool
        rw [grantArgs_eq_some.mpr hact] at hargs
        cases hargs
      | some args =>
        have hact := grantArgs_eq_some.mp hargs
        obtain ⟨g, hg⟩ := hwritten e he args hact
        rw [stepAt_handler (by decide) hact (List.mem_singleton.mpr rfl)]
        exact emitAgentGrant_run hg t hact
    rw [List.foldlM_cons, hstep]
    exact agentGrants_written hwritten hxs _

theorem str_free (u : UUID) : '|' ∉ u.str.toList := by
  intro h
  rw [UUID.str, String.toList_ofList] at h
  have hdigits : '|' ∉ hexDigits ∧ '|' ≠ '-' := by decide
  exact (UUID.mem_text _ h).elim hdigits.1 hdigits.2

theorem texts_eq_of_join_eq {xs ys : List String} (hlen : ys.length = xs.length)
    (hxs : ∀ t ∈ xs, '|' ∉ t.toList) (h : "|".intercalate ys = "|".intercalate xs) : ys = xs := by
  have hchars := congrArg String.toList h
  rw [String.toList_intercalate, String.toList_intercalate, show "|".toList = ['|'] from rfl] at hchars
  have hfree : ∀ a ∈ xs.map String.toList, '|' ∉ a := List.forall_mem_map.mpr hxs
  have hlen : (ys.map String.toList).length = (xs.map String.toList).length := by
    rw [List.length_map, List.length_map, hlen]
  exact List.map_injective_iff.mpr (fun a b => String.toList_inj.mp) (Join.eq_of_join_eq hlen hfree hchars)

/-- Ids are shared where agent, kind and target are. -/
theorem grantIds_apart (hwritten : GrantsWritten rows) (hids : GrantIdsApart py rows)
    (hcompany : ∀ e ∈ rows, e.companyId = company) {e e' : LedgerRow} (he : e ∈ rows) (he' : e' ∈ rows) :
    (grantRowOf py e').map AgentGrant.id = (grantRowOf py e).map AgentGrant.id ↔
      grantKey py e' = grantKey py e := by
  have hid : ∀ e, (grantRowOf py e).map AgentGrant.id =
      (grantKey py e).map fun k => (textUuid py (grantText e k)).hex := by
    intro e
    simp only [grantRowOf, grantKey, Option.map_map]
    rfl
  have hplain : ∀ e ∈ rows, ∀ k, grantKey py e = some k → '|' ∉ k.1.toList ∧ '|' ∉ k.2.1.toList ∧
      '|' ∉ k.2.2.toList := by
    intro e he k hk
    obtain ⟨args, hargs, -⟩ := Option.map_eq_some_iff.mp hk
    obtain ⟨g, hg⟩ := hwritten e he args (grantArgs_eq_some.mp hargs)
    obtain rfl := Option.some.inj ((hg.key hargs).symm.trans hk)
    have hkinds : ∀ k ∈ grantKinds, '|' ∉ k.toList := by decide
    exact ⟨hg.plain.1, hkinds _ hg.known, hg.plain.2⟩
  rw [hid, hid]
  cases hk : grantKey py e with
  | none => simp
  | some k =>
    cases hk' : grantKey py e' with
    | none => simp
    | some k' =>
      simp only [Option.map_some, Option.some.injEq]
      constructor
      · intro h
        have htext : grantText e' k' = grantText e k :=
          hids ⟨e', he', k', hk', rfl⟩ ⟨e, he, k, hk, rfl⟩ (hex_injective h)
        obtain ⟨hagent, hkind, htarget⟩ := hplain e he k hk
        have hfree : ∀ t ∈ [e.company, k.1, k.2.1, k.2.2], '|' ∉ t.toList := by
          simp only [List.forall_mem_cons]
          exact ⟨str_free e.companyId, hagent, hkind, htarget, fun t ht => absurd ht List.not_mem_nil⟩
        have hparts : [e'.company, k'.1, k'.2.1, k'.2.2] = [e.company, k.1, k.2.1, k.2.2] :=
          texts_eq_of_join_eq (by simp only [List.length_cons]) hfree htext
        simp only [List.cons.injEq, and_true] at hparts
        exact Prod.ext hparts.2.1 (Prod.ext hparts.2.2.1 hparts.2.2.2)
      · rintro rfl
        rw [grantText, grantText, LedgerRow.company, LedgerRow.company, hcompany e he, hcompany e' he']

/-! ### The scan for grants -/

variable {δ : Type} {decimal : String → Option δ} {agentId : String} {scan : GrantScan δ} {g : GrantArgs}

/-- A row without a grant is passed over. -/
theorem grantRow_other {s s' : State} (h : applyEntry py s e = .ok s') (hnone : grantArgs e = none) :
    grantRow py decimal agentId scan e = .ok scan := by
  unfold grantRow
  by_cases hkind : e.kind = "execute"
  · obtain ⟨payload, hpayload, hcall⟩ := folded_execute h hkind
    have htool : (Dict.get payload "tool").isText "emit_agent_grant" = false := by
      cases hcase : (Dict.get payload "tool").isText "emit_agent_grant" with
      | false => rfl
      | true =>
        obtain ⟨args, hact, -⟩ := hcall _ (Val.isText_iff.mp hcase) (by decide)
        rw [grantArgs_eq_some.mpr hact] at hnone
        cases hnone
    simp only [hkind, ne_eq, not_true_eq_false, if_false, hpayload, readable_dict, bind, Except.bind, htool]
    rfl
  · rw [if_pos hkind]
    rfl

theorem shapeAgentGrant_written (hg : g.Reads args) : shapeAgentGrant py decimal e args = some {
    id := e.entryId.str
    agentId := g.agentId
    grantKind := g.grantKind
    grantTarget := g.grantTarget
    grantedBy := g.grantedBy
    grantedAt := e.ts
    budgetRemainingUsd := budgetOf py decimal (args.get "budget_remaining_usd") } := by
  have htruthy : ∀ {t : String}, t ≠ "" → (Val.str t).truthy = true := fun h => by simp [Val.truthy, h]
  have hkind : g.grantKind ≠ "" := fun h => absurd (h ▸ hg.known) (by decide)
  have hany : grantKinds.any (Val.str g.grantKind).isText = true :=
    List.any_eq_true.mpr ⟨_, hg.known, Val.isText_iff.mpr rfl⟩
  simp only [shapeAgentGrant, hg.agentId, hg.grantKind, hg.grantTarget, hg.grantedBy, htruthy hg.named.1,
    htruthy hg.named.2.1, htruthy hg.named.2.2, htruthy hkind, hany]
  rfl

/-- A grant of the agent counts where its kind and target were not seen. -/
theorem grantRow_grant (hargs : grantArgs e = some args) (hg : g.Reads args) :
    grantRow py decimal agentId scan e = .ok (
      if g.agentId = agentId ∧ (g.grantKind, g.grantTarget) ∉ scan.seen then
        ⟨(g.grantKind, g.grantTarget) :: scan.seen,
          scan.out ++ if g.status = "active" then (shapeAgentGrant py decimal e args).toList else []⟩
      else scan) := by
  obtain ⟨hkind, payload, hpayload, htool, hget⟩ := action_eq_some.mp (grantArgs_eq_some.mp hargs)
  have hactive : (args.get "status").isText "active" = decide (g.status = "active") := by rw [hg.status]; rfl
  have hread : readable (Dict.get payload "args") = .ok args := by rw [readable, or_args hget]
  unfold grantRow
  simp only [hkind, ne_eq, not_true_eq_false, if_false, hpayload, readable_dict, bind, Except.bind, htool,
    hread, hg.agentId, hg.grantKind, hg.grantTarget, Val.text_str, hactive]
  rw [show (Val.str "emit_agent_grant").isText "emit_agent_grant" = true from by decide]
  by_cases hagent : g.agentId = agentId
  · by_cases hseen : (g.grantKind, g.grantTarget) ∈ scan.seen
    · simp [hagent, hseen, Val.toStr, pure, Except.pure]
    · by_cases hstatus : g.status = "active"
      · simp [hagent, hseen, hstatus, Val.toStr, pure, Except.pure]
      · simp [hagent, hseen, hstatus, Val.toStr, pure, Except.pure]
  · simp [hagent, pure, Except.pure]

/-- What the scan has found, once the rows from here to the end of the ledger are read. -/
structure Found (py : Interp) (decimal : String → Option δ) (agentId : String) (rows : List LedgerRow)
    (scan : GrantScan δ) : Prop where
  seen : ∀ k, k ∈ scan.seen ↔ ∃ e ∈ rows, grantKey py e = some (agentId, k)
  out : ∀ x, x ∈ scan.out ↔ ∃ e args g, Last (grantKey py) rows e ∧ grantArgs e = some args ∧
    GrantArgs.Reads g args ∧ g.agentId = agentId ∧ g.status = "active" ∧
      shapeAgentGrant py decimal e args = some x
  pairs : (scan.out.map fun x => (x.grantKind, x.grantTarget)).Nodup

theorem GrantArgs.Reads.inj {g' : GrantArgs} (h : g.Reads args) (h' : g'.Reads args) : g' = g := by
  have htext : ∀ {v : Val} {a b : String}, v = .str a → v = .str b → b = a := fun ha hb =>
    Val.str.inj (hb.symm.trans ha)
  cases g
  cases g'
  simp only [GrantArgs.mk.injEq]
  exact ⟨htext h.agentId h'.agentId, htext h.grantKind h'.grantKind, htext h.grantTarget h'.grantTarget,
    htext h.status h'.status, htext h.grantedBy h'.grantedBy⟩

theorem Found.pair (h : Found py decimal agentId rows scan) {x : GrantRecord δ} (hx : x ∈ scan.out) :
    (x.grantKind, x.grantTarget) ∈ scan.seen := by
  obtain ⟨e, args, g, hlast, hargs, hg, rfl, -, hshape⟩ := (h.out x).mp hx
  rw [shapeAgentGrant_written hg] at hshape
  obtain rfl := Option.some.inj hshape
  exact (h.seen _).mpr ⟨e, hlast.mem, hg.key hargs⟩

theorem found_step {s s' : State} (happly : applyEntry py s e = .ok s')
    (hwritten : ∀ args, grantArgs e = some args → ∃ g : GrantArgs, g.Reads args)
    (h : Found py decimal agentId rows scan) :
    ∃ scan', grantRow py decimal agentId scan e = .ok scan' ∧ Found py decimal agentId (e :: rows) scan' := by
  cases hargs : grantArgs e with
  | none =>
    have hkey : grantKey py e = none := by rw [grantKey, hargs]; rfl
    refine ⟨scan, grantRow_other happly hargs, fun k => ?_, fun x => ?_, h.pairs⟩
    · rw [h.seen, List.exists_mem_cons_iff, hkey]
      simp
    · rw [h.out]
      simp [last_cons, hkey]
  | some args =>
    obtain ⟨g, hg⟩ := hwritten args hargs
    have hkey : grantKey py e = some (g.agentId, g.grantKind, g.grantTarget) := hg.key hargs
    refine ⟨_, grantRow_grant hargs hg, ?_⟩
    by_cases hnew : g.agentId = agentId ∧ (g.grantKind, g.grantTarget) ∉ scan.seen
    · rw [if_pos hnew]
      obtain ⟨rfl, hnew⟩ := hnew
      have hlast : ∀ z ∈ rows, grantKey py z ≠ grantKey py e := fun z hz heq =>
        hnew ((h.seen _).mpr ⟨z, hz, heq.trans hkey⟩)
      refine ⟨fun k => ?_, fun x => ?_, ?_⟩
      · rw [List.mem_cons, h.seen, List.exists_mem_cons_iff, hkey]
        simp [eq_comm]
      · rw [List.mem_append, h.out]
        simp only [last_cons]
        constructor
        · rintro (⟨e', args', g', hl, hrest⟩ | hx)
          · exact ⟨e', args', g', .inl hl, hrest⟩
          · split at hx
            · rename_i hactive
              exact ⟨e, args, g, .inr ⟨rfl, by rw [hkey]; rfl, hlast⟩, hargs, hg, rfl, hactive,
                Option.mem_toList.mp hx⟩
            · exact nomatch hx
        · rintro ⟨e', args', g', hl | ⟨rfl, -⟩, hargs', hg', hagent, hactive, hshape⟩
          · exact .inl ⟨e', args', g', hl, hargs', hg', hagent, hactive, hshape⟩
          · obtain rfl := Option.some.inj (hargs.symm.trans hargs')
            obtain rfl := hg.inj hg'
            rw [if_pos hactive]
            exact .inr (Option.mem_toList.mpr hshape)
      · rw [List.map_append]
        refine List.Nodup.append h.pairs ?_ ?_
        · split
          · rw [shapeAgentGrant_written hg]
            exact List.nodup_singleton _
          · exact List.nodup_nil
        · intro k hk hk'
          obtain ⟨x, hx, rfl⟩ := List.mem_map.mp hk
          split at hk'
          · rw [shapeAgentGrant_written hg] at hk'
            have heq : (x.grantKind, x.grantTarget) = (g.grantKind, g.grantTarget) := List.mem_singleton.mp hk'
            exact hnew (heq ▸ h.pair hx)
          · exact nomatch hk'
    · rw [if_neg hnew]
      have hold : ∀ k, grantKey py e = some (agentId, k) → k ∈ scan.seen := by
        intro k hk
        obtain ⟨rfl, rfl⟩ := Prod.mk.inj (Option.some.inj (hkey.symm.trans hk))
        by_contra hseen
        exact hnew ⟨rfl, hseen⟩
      refine ⟨fun k => ?_, fun x => ?_, h.pairs⟩
      · rw [List.exists_mem_cons_iff, ← h.seen]
        exact ⟨.inr, fun hk => hk.elim (hold k) id⟩
      · rw [h.out]
        simp only [last_cons]
        constructor
        · rintro ⟨e', args', g', hl, hrest⟩
          exact ⟨e', args', g', .inl hl, hrest⟩
        · rintro ⟨e', args', g', hl | ⟨rfl, -, hlast⟩, hargs', hg', hagent, hrest⟩
          · exact ⟨e', args', g', hl, hargs', hg', hagent, hrest⟩
          · have hkey' := @GrantArgs.Reads.key py _ _ _ hg' hargs'
            rw [hagent] at hkey'
            obtain ⟨z, hz, hsame⟩ := (h.seen _).mp (hold _ hkey')
            exact absurd (hsame.trans hkey'.symm) (hlast z hz)

theorem found_run : ∀ {rows : List LedgerRow}, (∀ e ∈ rows, ∃ s s', applyEntry py s e = .ok s') →
    GrantsWritten rows → ∃ scan, rows.reverse.foldlM (grantRow py decimal agentId) ⟨[], []⟩ = .ok scan ∧
      Found py decimal agentId rows scan
  | [], _, _ => ⟨_, rfl, fun k => by simp, fun x => by simp [not_last_nil], List.nodup_nil⟩
  | e :: rows, happly, hwritten => by
    obtain ⟨⟨s, s', he⟩, hrows⟩ := List.forall_mem_cons.mp happly
    obtain ⟨hwe, hwrows⟩ := List.forall_mem_cons.mp hwritten
    obtain ⟨scan, hscan, hfound⟩ := found_run hrows hwrows
    obtain ⟨scan', hstep, hfound'⟩ := found_step he (fun args hargs => hwe args (grantArgs_eq_some.mp hargs))
      hfound
    refine ⟨scan', ?_, hfound'⟩
    rw [List.reverse_cons, List.foldlM_append, hscan]
    simp [bind, Except.bind, hstep, pure, Except.pure]

/-! ### The grants that are active -/

/-- What a record says of an active row. -/
def AgentGrant.facts (py : Interp) (decimal : String → Option δ) (r : AgentGrant) : GrantFacts δ where
  agentId := r.agentId
  grantKind := r.grantKind
  grantTarget := r.grantTarget
  grantedBy := r.grantedBy.toStr py
  grantedAt := r.grantedAt
  budgetRemainingUsd := budgetOf py decimal r.budgetRemainingUsd

/-- The reader lists the active rows of the agent, each under its kind and target, and no other state
    of that kind and target is hidden behind one that is listed. -/
structure GrantsAgree (py : Interp) (decimal : String → Option δ) (rows : List LedgerRow) (p : Projections)
    (agentId : String) (out : List (GrantRecord δ)) : Prop where
  returned : listActiveGrants py decimal agentId rows = .ok out
  pairs : (out.map fun x => (x.grantKind, x.grantTarget)).Nodup
  active : ∀ x : GrantFacts δ, x ∈ out.map GrantRecord.toGrantFacts ↔
    ∃ r ∈ p.agentGrants, r.agentId = agentId ∧ r.status = .str "active" ∧ AgentGrant.facts py decimal r = x
  states : ∀ r ∈ p.agentGrants, r.agentId = agentId → (r.status = .str "active" ↔
    ∃ x ∈ out, x.grantKind = r.grantKind ∧ x.grantTarget = r.grantTarget)

theorem grantKey_isSome (e : LedgerRow) :
    ((grantRowOf py e).map AgentGrant.id).isSome = (grantKey py e).isSome := by
  simp only [grantRowOf, grantKey, Option.isSome_map]

theorem grantKey_row {r : AgentGrant} (h : grantRowOf py e = some r) :
    grantKey py e = some (r.agentId, r.grantKind, r.grantTarget) := by
  obtain ⟨args, hargs, rfl⟩ := Option.map_eq_some_iff.mp h
  rw [grantKey, hargs]
  rfl

theorem agentGrants_rows {s : State} (h : stateToProjections py s = .ok p) {r : AgentGrant} :
    r ∈ p.agentGrants ↔ r ∈ (s .agentGrants).rows := by
  obtain ⟨kpis, -, h⟩ := bind_eq_ok.mp h
  obtain ⟨installs, -, h⟩ := bind_eq_ok.mp h
  obtain rfl := Except.ok.inj h
  exact (sortRows_perm _ _).mem_iff

theorem mem_agentGrants {s : State} (hs : foldEntries py initialProjectionState rows = .ok s)
    (hwritten : GrantsWritten rows) {r : AgentGrant} : r ∈ (s .agentGrants).rows ↔
      ∃ e, Last (fun e => (grantRowOf py e).map AgentGrant.id) rows e ∧ grantRowOf py e = some r := by
  have hfold := (foldEntries_at hs .agentGrants).symm.trans
    (agentGrants_written hwritten (List.Subset.refl rows) Table.empty)
  rw [Except.ok.inj hfold]
  exact mem_writes rows

theorem grants_agree (hp : projectionsOf py rows = .ok p) (hwritten : GrantsWritten rows)
    (hids : GrantIdsApart py rows) (hcompany : ∀ e ∈ rows, e.companyId = company) (agentId : String) :
    ∃ out, GrantsAgree py decimal rows p agentId out := by
  obtain ⟨s, hs, hout⟩ := projectionsOf_ok hp
  obtain ⟨scan, hscan, hfound⟩ := @found_run py δ decimal agentId rows (applied_mem hs) hwritten
  have hrows : ∀ r, r ∈ p.agentGrants ↔ ∃ e, Last (grantKey py) rows e ∧ grantRowOf py e = some r := by
    intro r
    rw [agentGrants_rows hout, mem_agentGrants hs hwritten]
    simp only [last_congr (fun y _ => grantKey_isSome y) fun y hy z hz =>
      (grantIds_apart hwritten hids hcompany hy hz)]
  have hrow : ∀ {e args g}, grantArgs e = some args → GrantArgs.Reads g args →
      ∃ r, grantRowOf py e = some r ∧ r.agentId = g.agentId ∧ r.status = .str g.status ∧
        shapeAgentGrant py decimal e args = some ⟨AgentGrant.facts py decimal r, e.entryId.str⟩ := by
    intro e args g hargs hg
    refine ⟨_, by rw [grantRowOf, hargs]; rfl, ?_, ?_, ?_⟩
    · simp only [hg.agentId, Val.text_str]
    · exact hg.status
    · rw [shapeAgentGrant_written hg]
      simp only [AgentGrant.facts, hg.agentId, hg.grantKind, hg.grantTarget, hg.grantedBy, Val.text_str,
        Val.toStr]
  have hactive : ∀ x : GrantFacts δ, x ∈ scan.out.map GrantRecord.toGrantFacts ↔
      ∃ r ∈ p.agentGrants, r.agentId = agentId ∧ r.status = .str "active" ∧
        AgentGrant.facts py decimal r = x := by
    intro x
    constructor
    · intro hx
      obtain ⟨y, hy, rfl⟩ := List.mem_map.mp hx
      obtain ⟨e, args, g, hlast, hargs, hg, rfl, hactive, hshape⟩ := (hfound.out y).mp hy
      obtain ⟨r, hr, hagent, hstatus, hshape'⟩ := hrow hargs hg
      obtain rfl := Option.some.inj (hshape.symm.trans hshape')
      exact ⟨r, (hrows r).mpr ⟨e, hlast, hr⟩, hagent, hactive ▸ hstatus, rfl⟩
    · rintro ⟨r, hr, hagent, hstatus, rfl⟩
      obtain ⟨e, hlast, hre⟩ := (hrows r).mp hr
      obtain ⟨args, hargs, -⟩ := Option.map_eq_some_iff.mp hre
      obtain ⟨g, hg⟩ := hwritten e hlast.mem args (grantArgs_eq_some.mp hargs)
      obtain ⟨r', hr', hagent', hstatus', hshape⟩ := hrow hargs hg
      obtain rfl := Option.some.inj (hre.symm.trans hr')
      refine List.mem_map.mpr ⟨_, (hfound.out _).mpr ⟨e, args, g, hlast, hargs, hg,
        hagent'.symm.trans hagent, Val.str.inj (hstatus'.symm.trans hstatus), hshape⟩, rfl⟩
  refine ⟨scan.out, by rw [listActiveGrants, hscan]; rfl, hfound.pairs, hactive, fun r hr hagent => ?_⟩
  constructor
  · intro hstatus
    obtain ⟨x, hx, hfacts⟩ := List.mem_map.mp ((hactive _).mpr ⟨r, hr, hagent, hstatus, rfl⟩)
    exact ⟨x, hx, congrArg GrantFacts.grantKind hfacts, congrArg GrantFacts.grantTarget hfacts⟩
  · rintro ⟨x, hx, hkind, htarget⟩
    -- the listed row has the key of `r`, so it is `r`
    obtain ⟨r', hr', hagent', hstatus', hfacts⟩ := (hactive _).mp (List.mem_map_of_mem hx)
    obtain ⟨e, hlast, hre⟩ := (hrows r).mp hr
    obtain ⟨e', hlast', hre'⟩ := (hrows r').mp hr'
    have hkind' : r'.grantKind = r.grantKind := (congrArg GrantFacts.grantKind hfacts).trans hkind
    have htarget' : r'.grantTarget = r.grantTarget := (congrArg GrantFacts.grantTarget hfacts).trans htarget
    have hkey : grantKey py e' = grantKey py e := by
      rw [grantKey_row hre, grantKey_row hre', hagent, hagent', hkind', htarget']
    obtain rfl := last_unique hlast' hlast hkey
    rwa [Option.some.inj (hre.symm.trans hre')]

/-- Over the ledger of a company. -/
theorem gatewayReaders_agree (py : Interp) (decimal : String → Option δ) (rows : List LedgerRow)
    (p : Projections) (company : UUID) (hproducts : ∀ e ∈ rows, ProductWritten e)
    (hgrants : GrantsWritten rows) (hids : GrantIdsApart py rows)
    (hcompany : ∀ e ∈ rows, e.companyId = company) (hp : projectionsOf py rows = .ok p) :
    (∀ agentId, ∃ out, GrantsAgree py decimal rows p agentId out) ∧ ProductsAgree py rows p :=
  ⟨grants_agree hp hgrants hids hcompany, products_agree hp hproducts⟩

end

def sampleGrant (status : String) : Dict :=
  [(.str "agent_id", .str "a7"), (.str "grant_kind", .str "model.access"), (.str "grant_target", .str "kimi"),
    (.str "status", .str status), (.str "granted_by", .str "p8"), (.str "budget_remaining_usd", .none)]

def sampleProduct : Dict :=
  [(.str "data_product_id", .str "00000000-0000-0000-0000-000000000009"), (.str "name", .str "Churn"),
    (.str "kind", .str "report"),
    (.str "requested_by_person_id", .str "00000000-0000-0000-0000-000000000007"), (.str "domain_id", .none)]

/-- An agent is given a model, and a product is proposed. -/
def gatewayLedger : List LedgerRow :=
  [executed 1 "emit_agent_grant" (sampleGrant "active"),
    executed 2 "emit_data_product_proposed" sampleProduct]

theorem sampleGrant_reads : GrantArgs.Reads ⟨"a7", "model.access", "kimi", "active", "p8"⟩ (sampleGrant "active") :=
  ⟨rfl, rfl, rfl, rfl, rfl, rfl, by decide, by decide, by decide⟩

theorem gatewayLedger_built : ∃ p, projectionsOf mirrorDigest gatewayLedger = .ok p := by
  obtain ⟨s, hs, hkpi, hinstalls⟩ : ∃ s, foldEntries mirrorDigest initialProjectionState gatewayLedger = .ok s ∧
      s .kpiNodes = .empty ∧ s .installs = .empty := ⟨_, rfl, rfl, rfl⟩
  obtain ⟨p, hp⟩ := @stateToProjections_ok mirrorDigest _ hkpi hinstalls
  exact ⟨p, by rw [projectionsOf, hs]; exact hp⟩

theorem gatewayLedger_written : ∀ e ∈ gatewayLedger, ProductWritten e := by
  have hother : ∀ args, (executed 1 "emit_agent_grant" (sampleGrant "active")).action ≠
      some ("emit_data_product_proposed", args) := by
    intro args h
    have htool : "emit_agent_grant" = "emit_data_product_proposed" := congrArg Prod.fst (Option.some.inj h)
    exact absurd htool (by decide)
  have hargs : ∀ {args}, (executed 2 "emit_data_product_proposed" sampleProduct).action =
      some ("emit_data_product_proposed", args) → args = sampleProduct := fun h =>
    (congrArg Prod.snd (Option.some.inj h)).symm
  intro e he
  simp only [gatewayLedger, List.mem_cons, List.not_mem_nil, or_false] at he
  rcases he with rfl | rfl
  · refine ⟨fun _ payload hpayload => ?_, fun tool args hact htool => ?_, fun args hact => ?_, fun args hact => ?_⟩
    · obtain rfl := Val.dict.inj hpayload
      exact ⟨sampleGrant "active", rfl⟩
    · obtain rfl : "emit_agent_grant" = tool := congrArg Prod.fst (Option.some.inj hact)
      exact absurd htool (by decide)
    · exact absurd hact (hother args)
    · exact absurd hact (hother args)
  · refine ⟨fun _ payload hpayload => ?_, fun tool args hact _ => ?_, fun args hact => ?_, fun args hact => ?_⟩
    · obtain rfl := Val.dict.inj hpayload
      exact ⟨sampleProduct, rfl⟩
    · obtain rfl : sampleProduct = args := congrArg Prod.snd (Option.some.inj hact)
      exact ⟨⟨9⟩, congrArg Val.str (by decide +kernel)⟩
    · rw [hargs hact]
      exact ⟨⟨7⟩, congrArg Val.str (by decide +kernel)⟩
    · rw [hargs hact]
      exact .inl rfl

theorem gatewayLedger_agrees : ∃ p, projectionsOf mirrorDigest gatewayLedger = .ok p ∧
    (∀ agentId, ∃ out, GrantsAgree mirrorDigest (fun _ => (none : Option ℚ)) gatewayLedger p agentId out) ∧
    ProductsAgree mirrorDigest gatewayLedger p := by
  obtain ⟨p, hp⟩ := gatewayLedger_built
  have hkey : ∀ e ∈ gatewayLedger, ∀ k, grantKey mirrorDigest e = some k →
      e.company = (⟨0⟩ : UUID).str ∧ k = ("a7", "model.access", "kimi") := by
    intro e he k hk
    simp only [gatewayLedger, List.mem_cons, List.not_mem_nil, or_false] at he
    rcases he with rfl | rfl
    · exact ⟨rfl, (Option.some.inj hk).symm⟩
    · exact nomatch hk
  refine ⟨p, hp, gatewayReaders_agree mirrorDigest _ gatewayLedger p ⟨0⟩ gatewayLedger_written
    (fun e he args hact => ?_) ?_ (fun e he => ?_) hp⟩
  · simp only [gatewayLedger, List.mem_cons, List.not_mem_nil, or_false] at he
    rcases he with rfl | rfl
    · obtain rfl : sampleGrant "active" = args := congrArg Prod.snd (Option.some.inj hact)
      exact ⟨_, sampleGrant_reads⟩
    · have htool : "emit_data_product_proposed" = "emit_agent_grant" :=
        congrArg Prod.fst (Option.some.inj hact)
      exact absurd htool (by decide)
  · rintro text ⟨e, he, k, hk, rfl⟩ text' ⟨e', he', k', hk', rfl⟩ _
    obtain ⟨hcompany, rfl⟩ := hkey e he k hk
    obtain ⟨hcompany', rfl⟩ := hkey e' he' k' hk'
    rw [grantText, grantText, hcompany, hcompany']
  · simp only [gatewayLedger, List.mem_cons, List.not_mem_nil, or_false] at he
    rcases he with rfl | rfl
    · rfl
    · rfl

/-- The grant is taken back. -/
def revokedLedger : List LedgerRow :=
  [executed 1 "emit_agent_grant" (sampleGrant "active"), executed 2 "emit_agent_grant" (sampleGrant "revoked")]

/-- The table has the revoked grant, the reader lists none. -/
theorem revokedLedger_unlisted : ∃ p, projectionsOf mirrorDigest revokedLedger = .ok p ∧
    (∃ r ∈ p.agentGrants, r.agentId = "a7" ∧ r.status = .str "revoked") ∧
    listActiveGrants mirrorDigest (fun _ => (none : Option ℚ)) "a7" revokedLedger = .ok [] := by
  obtain ⟨s, hs, ⟨r, hr, hagent, hstatus⟩, hkpi, hinstalls⟩ : ∃ s,
      foldEntries mirrorDigest initialProjectionState revokedLedger = .ok s ∧
        (∃ r ∈ (s .agentGrants).rows, r.agentId = "a7" ∧ r.status = .str "revoked") ∧
        s .kpiNodes = .empty ∧ s .installs = .empty := ⟨_, rfl, ⟨_, .head _, rfl, rfl⟩, rfl, rfl⟩
  obtain ⟨p, hp⟩ := @stateToProjections_ok mirrorDigest _ hkpi hinstalls
  exact ⟨p, by rw [projectionsOf, hs]; exact hp, ⟨r, (agentGrants_rows hp).mpr hr, hagent, hstatus⟩, rfl⟩

end Readers
