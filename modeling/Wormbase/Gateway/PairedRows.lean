import Wormbase.Gateway.IdentityCycles

/-! What the projections hold of a ledger in which queries, credentials and other entries follow one another.

    A query's cycle is known by its trail id and a credential's by its propose entry, so no row takes anything from a
    cycle with another id. Cycles that share a trail id share a row: it keeps what the first one proposed, and has its
    measurements from the last one that has any. -/

namespace Identity
open Py Projection

/-- What a ledger is made of. -/
inductive Item where
  | query (c : QueryCycle)
  | credential (c : CredentialCycle)
  | other (e : LedgerRow)

/-- A row that no fold takes for a query or a credential. -/
def Ordinary (e : LedgerRow) : Prop := e.kind ∈ ["propose", "execute", "verify", "resolve"] →
  ∀ payload, e.payload = .dict payload → isAgentQueryPayload payload = false ∧ isCredentialPayload payload = false

def Item.ids : Item → List UUID
  | .query c => c.cycle.ids
  | .credential c => c.cycle.ids
  | .other e => [e.entryId]

/-- The rows of the items after `n` others. -/
def itemRows (company : UUID) : ℕ → List Item → List LedgerRow
  | _, [] => []
  | n, .query c :: items => c.cycle.rows company n ++ itemRows company (n + 4) items
  | n, .credential c :: items => c.cycle.rows company n ++ itemRows company (n + 4) items
  | n, .other e :: items => { e with companyId := company, seq := n + 1 } :: itemRows company (n + 1) items

structure AgentLedger where
  company : UUID
  items : List Item
  ordinary : ∀ e, .other e ∈ items → Ordinary e
  nodup : (items.flatMap Item.ids).Nodup

def credentials (items : List Item) : List CredentialCycle :=
  items.filterMap fun item => match item with
    | .credential c => some c
    | _ => none

/-- The cycles with a trail id. -/
def queriesOf (items : List Item) (id : String) : List Cycle :=
  items.filterMap fun item => match item with
    | .query c => if c.auditTrailId.str = id then some c.cycle else none
    | _ => none

/-- The row of cycles that share a trail id. -/
def rowFor (company : UUID) : List Cycle → Option AgentQuery
  | [] => none
  | c :: cs => some (cs.foldl addTo (rowOf company c))

namespace AgentLedger
variable (l : AgentLedger)

def rows : List LedgerRow := itemRows l.company 0 l.items

def credentials : List CredentialCycle := Identity.credentials l.items

def queriesOf (id : String) : List Cycle := Identity.queriesOf l.items id

end AgentLedger

/-- One row for each trail id, from the cycles with that id, and one for each credential, from its own cycle. -/
structure Paired (py : Interp) (l : AgentLedger) (queries : Table AgentQuery.key) (creds : Table Credential.id) :
    Prop where
  query : ∀ id : UUID, queries.rows.filter (fun r => r.key = .str id.str) =
    (rowFor l.company (l.queriesOf id.str)).toList
  onlyQueries : ∀ r ∈ queries.rows, ∃ c, .query c ∈ l.items ∧ r.id = .str c.auditTrailId.str
  credential : creds.rows = l.credentials.map fun c => credentialOf py l.company c.cycle

/-! ### Rows that leave a part as it is -/

section
variable {py : Interp} {company : UUID} {n : ℕ} {items : List Item} {e : LedgerRow}

theorem foldlM_keeps {σ : Type} {f : σ → LedgerRow → Except Err σ} {s : σ} : ∀ {rows : List LedgerRow},
    (∀ r ∈ rows, f s r = .ok s) → rows.foldlM f s = .ok s
  | [], _ => rfl
  | r :: rows, h => by
    obtain ⟨hr, hrows⟩ := List.forall_mem_cons.mp h
    rw [List.foldlM_cons, hr]
    exact foldlM_keeps hrows

/-- No action writes the two tables. -/
theorem stepAt_of_envelope {p : Part} (hp : p = .agentQueries ∨ p = .credentials) {t : p.Carrier}
    (h : envelopeAt py p t e = .ok t) : stepAt py p t e = .ok t := by
  have hact : actAt py p t e = .ok t := by
    rcases hp with rfl | rfl <;>
    · unfold actAt
      split
      · rfl
      · rfl
  rw [stepAt, h]
  simp only [bind, Except.bind, hact]
  rcases hp with rfl | rfl <;> rfl

theorem stepAt_ordinary (h : Ordinary e) {p : Part} (hp : p = .agentQueries ∨ p = .credentials) (t : p.Carrier) :
    stepAt py p t e = .ok t := by
  refine stepAt_of_envelope hp ?_
  unfold envelopeAt
  split
  · rename_i payload hpayload
    split
    · rename_i hkind
      obtain ⟨hquery, hcred⟩ := h hkind payload hpayload
      rcases hp with rfl | rfl
      · simp [hquery]
      · simp [hcred]
    · rfl
  · rfl

theorem query_keeps (c : QueryCycle) (t : Credentials) :
    ∀ r ∈ c.cycle.rows company n, stepAt py .credentials t r = .ok t := by
  obtain ⟨p, e, v, x, hrows, hp, he, hv, hx⟩ := c.cycle.rows_eq company n
  have hstep : ∀ {r : LedgerRow} {payload : Dict}, r.payload = .dict payload → isAgentQueryPayload payload = true →
      stepAt py .credentials t r = .ok t := by
    intro r payload hpayload hshape
    refine stepAt_of_envelope (.inr rfl) ?_
    simp [envelopeAt, hpayload, hshape]
  rw [hrows]
  simp only [List.forall_mem_cons]
  exact ⟨hstep hp.payload (query_shape (reads_propose c)), hstep he.payload (query_shape (reads_execute c)),
    hstep hv.payload (query_shape (reads_verify c)), hstep hx.payload (query_shape (reads_resolve c)),
    fun _ hr => absurd hr List.not_mem_nil⟩

theorem credential_keeps (c : CredentialCycle) (t : Table AgentQuery.key) :
    ∀ r ∈ c.cycle.rows company n, stepAt py .agentQueries t r = .ok t := by
  obtain ⟨p, e, v, x, hrows, hp, he, hv, hx⟩ := c.cycle.rows_eq company n
  have hstep : ∀ {r : LedgerRow} {payload : Dict}, r.payload = .dict payload →
      payload.get? "audit_trail_id" = none → stepAt py .agentQueries t r = .ok t := by
    intro r payload hpayload hquery
    refine stepAt_of_envelope (.inl rfl) ?_
    simp [envelopeAt, hpayload, isAgentQueryPayload, Dict.has, hquery]
  rw [hrows]
  simp only [List.forall_mem_cons]
  exact ⟨hstep hp.payload (get?_absent (by simp [CredentialCycle.fields])),
    hstep he.payload ((shown_execute c).back _ (by simp)), hstep hv.payload ((shown_verify c).back _ (by simp)),
    hstep hx.payload ((shown_resolve c).back _ (by simp)), fun _ hr => absurd hr List.not_mem_nil⟩

/-! ### The query table -/

/-- What an item does to the query table. -/
def settle (company : UUID) (t : Table AgentQuery.key) : Item → Table AgentQuery.key
  | .query c => t.put (joined company c.cycle (t.get? (.str c.auditTrailId.str)))
  | _ => t

theorem fold_queries (h : ∀ e, .other e ∈ items → Ordinary e) (n : ℕ) (t : Table AgentQuery.key) :
    (itemRows company n items).foldlM (stepAt py .agentQueries) t = .ok (items.foldl (settle company) t) := by
  induction items generalizing n t with
  | nil => rfl
  | cons item items ih =>
    have hrest : ∀ e, .other e ∈ items → Ordinary e := fun e he => h e (List.mem_cons_of_mem _ he)
    cases item with
    | query c =>
      rw [itemRows, List.foldlM_append, fold_query]
      exact ih hrest ..
    | credential c =>
      rw [itemRows, List.foldlM_append, foldlM_keeps (credential_keeps c t)]
      exact ih hrest ..
    | other e =>
      have hother : Ordinary { e with companyId := company, seq := n + 1 } := h e List.mem_cons_self
      rw [itemRows, List.foldlM_cons, stepAt_ordinary hother (.inl rfl)]
      exact ih hrest ..

theorem key_rowOf (c : QueryCycle) : (rowOf company c.cycle).key = .str c.auditTrailId.str := by
  rw [rowOf_cycle]
  rfl

theorem id_rowOf (c : QueryCycle) : (rowOf company c.cycle).id = .str c.auditTrailId.str := by
  rw [rowOf_cycle]
  rfl

theorem key_addTo (r : AgentQuery) (c : Cycle) : (addTo r c).key = r.key := rfl

theorem id_addTo (r : AgentQuery) (c : Cycle) : (addTo r c).id = r.id := rfl

theorem key_joined (c : QueryCycle) (t : Table AgentQuery.key) :
    (joined company c.cycle (t.get? (.str c.auditTrailId.str))).key = .str c.auditTrailId.str := by
  cases hget : t.get? (.str c.auditTrailId.str) with
  | none => exact key_rowOf c
  | some r => exact (key_addTo r c.cycle).trans (Table.get?_eq_some_iff.mp hget).2

/-- The row under an id is made of the cycles with that id. -/
theorem get?_settled (id : UUID) (t : Table AgentQuery.key) : (items.foldl (settle company) t).get? (.str id.str) =
    match t.get? (.str id.str) with
    | none => rowFor company (queriesOf items id.str)
    | some r => some ((queriesOf items id.str).foldl addTo r) := by
  induction items generalizing t with
  | nil =>
    rw [List.foldl_nil]
    cases t.get? (.str id.str) <;> rfl
  | cons item items ih =>
    rw [List.foldl_cons, ih]
    cases item with
    | query c =>
      have hkey := @key_joined company c t
      by_cases hid : c.auditTrailId.str = id.str
      · have hown := hkey.trans (congrArg Key.str hid)
        simp only [settle, queriesOf, List.filterMap_cons, hid, if_true]
        rw [hid] at hown
        rw [Table.get?_put, if_pos hown]
        cases t.get? (.str id.str) with
        | none => simp only [joined, rowFor]
        | some r => simp only [joined, List.foldl_cons]
      · have hne : Key.str c.auditTrailId.str ≠ .str id.str := fun heq => hid (Key.str.inj heq)
        have hother := fun heq => hne (hkey.symm.trans heq)
        simp only [settle, queriesOf, List.filterMap_cons, hid, if_false]
        rw [Table.get?_put, if_neg hother]
    | credential c => rfl
    | other e => rfl

theorem settled_only (t : Table AgentQuery.key) (ht : ∀ r ∈ t.rows, ∃ c, .query c ∈ items ∧ r.id = .str c.auditTrailId.str)
    {more : List Item} (hmore : more ⊆ items) : ∀ r ∈ (more.foldl (settle company) t).rows,
      ∃ c, .query c ∈ items ∧ r.id = .str c.auditTrailId.str := by
  induction more generalizing t with
  | nil => exact ht
  | cons item more ih =>
    obtain ⟨hitem, hmore⟩ := List.cons_subset.mp hmore
    have hstep : ∀ r ∈ (settle company t item).rows, ∃ c, .query c ∈ items ∧ r.id = .str c.auditTrailId.str := by
      cases item with
      | query c =>
        have hnew : ∃ c', .query c' ∈ items ∧
            (joined company c.cycle (t.get? (.str c.auditTrailId.str))).id = .str c'.auditTrailId.str := by
          cases hget : t.get? (.str c.auditTrailId.str) with
          | none => exact ⟨c, hitem, id_rowOf c⟩
          | some r =>
            obtain ⟨c', hc', hid⟩ := ht r (Table.get?_eq_some_iff.mp hget).1
            exact ⟨c', hc', (id_addTo r c.cycle).trans hid⟩
        rw [settle]
        exact Table.forall_mem_put ht hnew
      | credential c => exact ht
      | other e => exact ht
    rw [List.foldl_cons]
    exact ih (settle company t item) hstep hmore

/-! ### The credential table -/

theorem fold_credentials (h : ∀ e, .other e ∈ items → Ordinary e) (n : ℕ) (t : Credentials) :
    ∃ chain, (itemRows company n items).foldlM (stepAt py .credentials) t =
      .ok ⟨chain, ((credentials items).map fun c => credentialOf py company c.cycle).foldl Table.put t.rows⟩ := by
  induction items generalizing n t with
  | nil => exact ⟨t.chain, rfl⟩
  | cons item items ih =>
    have hrest : ∀ e, .other e ∈ items → Ordinary e := fun e he => h e (List.mem_cons_of_mem _ he)
    cases item with
    | query c =>
      rw [itemRows, List.foldlM_append, foldlM_keeps (query_keeps c t)]
      exact ih hrest ..
    | credential c =>
      obtain ⟨chain, hchain⟩ := fold_credential c company n t
      rw [itemRows, List.foldlM_append, hchain]
      exact ih hrest ..
    | other e =>
      have hother : Ordinary { e with companyId := company, seq := n + 1 } := h e List.mem_cons_self
      rw [itemRows, List.foldlM_cons, stepAt_ordinary hother (.inr rfl)]
      exact ih hrest ..

theorem proposeIds_sublist : ∀ items : List Item,
    ((credentials items).map (·.stamp.proposeId)).Sublist (items.flatMap Item.ids)
  | [] => .slnil
  | .query c :: items => (proposeIds_sublist items).trans (List.sublist_append_right c.cycle.ids _)
  | .credential c :: items => by
    have hhead : [c.stamp.proposeId].Sublist c.cycle.ids := .cons_cons _ (List.nil_sublist _)
    exact hhead.append (proposeIds_sublist items)
  | .other e :: items => (proposeIds_sublist items).trans (List.sublist_append_right [e.entryId] _)

/-! ### The tables -/

/-- Queries and credentials are folded into the rows of their own cycles, as far as the digest tells the propose
    entries of the credentials apart. -/
theorem rows_paired (py : Interp) (l : AgentLedger) (hdigest : ∀ c ∈ l.credentials, ∀ c' ∈ l.credentials,
    credentialId py l.company c.stamp.proposeId = credentialId py l.company c'.stamp.proposeId →
      c.stamp.proposeId = c'.stamp.proposeId) : ∃ queries creds,
    l.rows.foldlM (stepAt py .agentQueries) .empty = .ok queries ∧
    l.rows.foldlM (stepAt py .credentials) ⟨.empty, .empty⟩ = .ok creds ∧ Paired py l queries creds.rows ∧
    ∀ s, foldEntries py initialProjectionState l.rows = .ok s → s .agentQueries = queries ∧ s .credentials = creds := by
  have hqueries : l.rows.foldlM (stepAt py .agentQueries) .empty = .ok (l.items.foldl (settle l.company) .empty) :=
    fold_queries l.ordinary 0 .empty
  obtain ⟨chain, hcreds⟩ := @fold_credentials py l.company l.items l.ordinary 0 ⟨.empty, .empty⟩
  refine ⟨_, _, hqueries, hcreds, ⟨?_, ?_, ?_⟩, ?_⟩
  · intro id
    rw [Table.filter_key, get?_settled]
    rfl
  · exact settled_only .empty (fun _ hr => nomatch hr) (List.Subset.refl _)
  · have hids : (l.credentials.map (·.stamp.proposeId)).Nodup := l.nodup.sublist (proposeIds_sublist l.items)
    have hkeys : (l.credentials.map fun c => credentialId py l.company c.stamp.proposeId).Nodup := by
      rw [List.nodup_map_iff_inj_on (List.Nodup.of_map _ hids)]
      intro c hc c' hc' heq
      exact List.inj_on_of_nodup_map hids hc hc' (hdigest c hc c' hc' heq)
    have hrows : ((l.credentials.map fun c => credentialOf py l.company c.cycle).map Credential.id).Nodup := by
      rwa [List.map_map]
    exact Table.foldl_put_rows hrows
  · intro s hs
    exact ⟨Except.ok.inj ((foldEntries_at hs .agentQueries).symm.trans hqueries),
      Except.ok.inj ((foldEntries_at hs .credentials).symm.trans hcreds)⟩

end

/-! ### A query, a credential and another entry -/

/-- A query of a table that finds a number of rows. -/
def countQuery (table : String) (rows : ℤ) : Query where
  agentId := "agent-1"
  mcpTool := "lake.query"
  args := [(.str "table", .str table)]
  routeMode := "direct"
  causedBy := .none
  executeBody := [(.str "row_count", .int rows)]
  verifyBody := [(.str "passed", .bool true)]

def countOrders : QueryCycle := ⟨instantStamp, ⟨7⟩, countQuery "orders" 1⟩

def issueKey : CredentialCycle where
  stamp := { instantStamp with proposeId := ⟨201⟩, executeId := ⟨202⟩, verifyId := ⟨203⟩, resolveId := ⟨204⟩ }
  agentId := "agent-1"
  credentialKind := .data
  target := "lake"
  status := .active
  ttlExpiresAt := "2026-01-01T00:00:00+00:00"
  issuedBy := "broker"
  check := "credential_issued"
  rationale := "issued"

def noteRow : LedgerRow := ⟨⟨301⟩, ⟨0⟩, 0, instantStamp.ts, "note", .none, []⟩

def mixedLedger : AgentLedger where
  company := ⟨0⟩
  items := [.query countOrders, .other noteRow, .credential issueKey]
  ordinary := by
    intro e he hkind
    have hnote : e = noteRow := by simpa using he
    subst hnote
    simp [noteRow] at hkind
  nodup := by decide

theorem mixedLedger_paired : ∃ queries creds,
    mixedLedger.rows.foldlM (stepAt .plain .agentQueries) .empty = .ok queries ∧
    mixedLedger.rows.foldlM (stepAt .plain .credentials) ⟨.empty, .empty⟩ = .ok creds ∧
    Paired .plain mixedLedger queries creds.rows ∧
    ∀ s, foldEntries .plain initialProjectionState mixedLedger.rows = .ok s →
      s .agentQueries = queries ∧ s .credentials = creds :=
  rows_paired .plain mixedLedger fun c hc c' hc' _ => by
    obtain rfl : c = issueKey := List.mem_singleton.mp hc
    obtain rfl : c' = issueKey := List.mem_singleton.mp hc'
    rfl

/-! ### Two queries with one trail id -/

def countCustomers : QueryCycle where
  stamp := { instantStamp with proposeId := ⟨201⟩, executeId := ⟨202⟩, verifyId := ⟨203⟩, resolveId := ⟨204⟩ }
  auditTrailId := ⟨7⟩
  query := countQuery "customers" 2

def sharedLedger : AgentLedger where
  company := ⟨0⟩
  items := [.query countOrders, .query countCustomers]
  ordinary := fun e he => by simp at he
  nodup := by decide

/-- The row has the arguments of the first and the row count of the second. -/
theorem sharedLedger_mixes : ¬∀ (py : Interp) (l : AgentLedger), ∃ queries,
    l.rows.foldlM (stepAt py .agentQueries) .empty = .ok queries ∧
    ∀ r ∈ queries.rows, ∃ c, .query c ∈ l.items ∧ r = rowOf l.company c.cycle := by
  intro h
  obtain ⟨queries, hfold, hown⟩ := h .plain sharedLedger
  obtain rfl := Except.ok.inj (hfold.symm.trans (fold_queries sharedLedger.ordinary 0 .empty))
  have hget : (sharedLedger.items.foldl (settle sharedLedger.company) .empty).get? (.str (UUID.str ⟨7⟩)) =
      some (addTo (rowOf sharedLedger.company countOrders.cycle) countCustomers.cycle) := by
    rw [get?_settled]
    rfl
  obtain ⟨c, hc, hrow⟩ := hown _ (Table.get?_eq_some_iff.mp hget).1
  rw [addTo_cycle, rowOf_cycle, rowOf_cycle] at hrow
  have hargs := congrArg AgentQuery.args hrow
  have hcount := congrArg AgentQuery.rowCount hrow
  rcases List.mem_pair.mp hc with heq | heq
  · obtain rfl := Item.query.inj heq
    have hdiffer : Val.int 2 = .int 1 := hcount
    cases hdiffer
  · obtain rfl := Item.query.inj heq
    have hdiffer : Val.dict [(.str "table", .str "orders")] = .dict [(.str "table", .str "customers")] := hargs
    simp at hdiffer

end Identity
