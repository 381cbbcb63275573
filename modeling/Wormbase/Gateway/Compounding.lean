import Wormbase.Gateway.Clustering
import Wormbase.Projection.Written

/-! `Compounding`: the pipeline that the promotion reactivities of the gateway share.

    A fire reads the ledger, clusters what it gathers and writes a cycle for each cluster that passes the
    threshold and is not yet promoted. What the clock, `uuid4` and the ledger answer is part of the fire;
    the first call that raises ends it, and the cycles written before stay. -/

namespace Gateway
open Py Projection

/-! ### Cycles -/

/-- The payloads of one `ledger.write`, and the kind that the fired action reports. -/
structure Cycle where
  actionKind : String
  propose : List (String × Val)
  execute : List (String × Val)
  verify : List (String × Val)
  resolve : List (String × Val)

/-- A row as `fetch` hands it out. -/
def entryDict (e : LedgerRow) : Dict :=
  [(.str "entry_id", .uuid e.entryId), (.str "company_id", .uuid e.companyId), (.str "seq", .int e.seq),
    (.str "ts", .datetime e.ts), (.str "kind", .str e.kind), (.str "payload", e.payload),
    (.str "hash", .bytes e.hash)]

/-- `ctx.ledger.fetch(ctx.company_id)`. -/
def fetch (rows : List LedgerRow) : List Dict := rows.map entryDict

/-- The last seq of the ledger. -/
def tailSeq (rows : List LedgerRow) : ℕ := (rows.getLast?.map (·.seq)).getD 0

namespace Cycle
variable (c : Cycle)

/-- The payloads with the ids that the ledger puts before them. -/
def payloads (st : Stamp) : List (List (String × Val)) :=
  [c.propose, ("propose_entry_id", .str st.proposeId.str) :: c.execute,
    ("execute_entry_id", .str st.executeId.str) :: c.verify,
    ("verify_entry_id", .str st.verifyId.str) :: c.resolve]

/-- No payload has a key twice. -/
structure Keyed : Prop where
  propose : (c.propose.map Prod.fst).Nodup
  execute : ("propose_entry_id" :: c.execute.map Prod.fst).Nodup
  verify : ("execute_entry_id" :: c.verify.map Prod.fst).Nodup
  resolve : ("verify_entry_id" :: c.resolve.map Prod.fst).Nodup

/-- The call of `ledger.write`. -/
def call (company : UUID) (timestamp : Option DateTime) (now : DateTime) (st : Stamp) : Ledger.Call where
  companyId := company
  propose := c.propose.map strItem
  executeFn := .ok (.dict (c.execute.map strItem))
  verifyFn := fun _ => .ok (.dict (c.verify.map strItem))
  resolveFn := fun _ => .ok (.dict (c.resolve.map strItem))
  timestamp
  quadrant := .activeDeterministic
  now
  proposeId := st.proposeId
  executeId := st.executeId
  verifyId := st.verifyId
  resolveId := st.resolveId

/-- The rows of the cycle as they are stored. -/
def rows (company : UUID) (n : ℕ) (st : Stamp) : List LedgerRow :=
  stampedRows company n st (backDict c.propose)
    (backDict (("propose_entry_id", .str st.proposeId.str) :: c.execute))
    (backDict (("execute_entry_id", .str st.executeId.str) :: c.verify))
    (backDict (("verify_entry_id", .str st.verifyId.str) :: c.resolve))

/-- The rows after `ledger.write`, which raises or stamps the cycle. -/
def commit (company : UUID) (answer : Except Err Stamp) (rows : List LedgerRow) :
    Except Err (List LedgerRow) := do
  return rows ++ c.rows company (tailSeq rows) (← answer)

end Cycle

/-- A commit that returns has put the rows of the cycle at the end. -/
theorem Cycle.commit_ok {c : Cycle} {company : UUID} {answer : Except Err Stamp} {rows rows' : List LedgerRow}
    (h : c.commit company answer rows = .ok rows') :
    ∃ st, answer = .ok st ∧ rows' = rows ++ c.rows company (tailSeq rows) st := by
  obtain ⟨st, hst, h⟩ := bind_eq_ok.mp h
  exact ⟨st, hst, (Except.ok.inj h).symm⟩

/-- The payloads that the ledger stamps. -/
theorem Cycle.call_payloads {c : Cycle} (hkeys : c.Keyed) (company : UUID) (timestamp : Option DateTime)
    (now : DateTime) (st : Stamp) :
    (c.call company timestamp now st).payloads = .ok ((c.payloads st).map fun D => D.map strItem) := by
  have hexecute := update_strItems (B := [("propose_entry_id", .str st.proposeId.str)]) (D := c.execute)
    hkeys.execute
  have hverify := update_strItems (B := [("execute_entry_id", .str st.executeId.str)]) (D := c.verify)
    hkeys.verify
  have hresolve := update_strItems (B := [("verify_entry_id", .str st.verifyId.str)]) (D := c.resolve)
    hkeys.resolve
  simp only [List.map_cons, List.map_nil, strItem] at hexecute hverify hresolve
  simp only [Ledger.Call.payloads, Ledger.Call.execPayload, Ledger.Call.verifyPayload,
    Ledger.Call.resolvePayload, Cycle.call, Ledger.spread, bind, Except.bind, pure, Except.pure,
    hexecute, hverify, hresolve]
  rfl

/-- A write of the call that returns leaves the rows of the cycle. -/
theorem Cycle.write_rows {sha256 : Bytes → Bytes} {d : Ledger.Dialect} {c : Cycle} (hkeys : c.Keyed)
    {company : UUID} {timestamp : Option DateTime} {now : DateTime} {st : Stamp}
    {rows rows' : List Ledger.Entry} {res : Ledger.WriteResult}
    (h : Ledger.write sha256 d rows (c.call company timestamp now st) = (.ok res, rows')) :
    ∃ new hash, rows' = rows ++ new ∧ new.map LedgerRow.read = c.rows company (Ledger.tail rows company).1
      { st with ts := Ledger.readTs d (timestamp.getD now), hash } :=
  write_rows_back h (c.call_payloads hkeys company timestamp now st)
    (fun _ hw => jsonColumn_dict hkeys.propose hw)
    (fun _ hw => jsonColumn_dict (D := ("propose_entry_id", _) :: c.execute) hkeys.execute hw)
    (fun _ hw => jsonColumn_dict (D := ("execute_entry_id", _) :: c.verify) hkeys.verify hw)
    fun _ hw => jsonColumn_dict (D := ("verify_entry_id", _) :: c.resolve) hkeys.resolve hw

/-! ### The primitive -/

/-- What an action finds: the clock, `uuid4`, and the answer of the ledger to its write. -/
structure Occasion where
  now : DateTime
  uuid : UUID
  answer : Except Err Stamp

/-- `Compounding`. Its functions see the rows of the ledger where they fetch them. -/
structure Compounding where
  noveltyKey : Dict → String
  qualityFilter : Dict → Except Err Bool
  gather : DateTime → List Dict → Dict → Except Err (List Dict)
  cluster : List Dict → Except Err (List (List Dict))
  promotionThreshold : List Dict → Except Err Bool
  idempotencyFilter : List Dict → List Dict → Except Err Bool
  promotionAction : Occasion → List Dict → List Dict → Except Err (Option Cycle)

/-- `ReactivityResult`. -/
structure ReactivityResult where
  fired : Bool
  actions : List String
  noveltyKey : String

namespace Compounding
variable (C : Compounding) (company : UUID)

/-- One cluster: the action that fired, and the rows after it. -/
def promote (o : Occasion) (cluster : List Dict) (rows : List LedgerRow) :
    Except Err (Option String × List LedgerRow) := do
  if !(← C.promotionThreshold cluster) then return (none, rows)
  if ← C.idempotencyFilter cluster (fetch rows) then return (none, rows)
  match ← C.promotionAction o cluster (fetch rows) with
  | none => return (none, rows)
  | some c => return (some c.actionKind, ← c.commit company o.answer rows)

/-- The loop over the clusters. -/
def loop : (ℕ → Occasion) → List (List Dict) → List LedgerRow → Except Err (List String) × List LedgerRow
  | _, [], rows => (.ok [], rows)
  | occ, c :: cs, rows =>
    match C.promote company (occ 0) c rows with
    | .error e => (.error e, rows)
    | .ok (fired, rows) =>
      let rest := loop (fun i => occ (i + 1)) cs rows
      (rest.1.map (fired.toList ++ ·), rest.2)

/-- The clusters of what a fire gathers; none where the entry does not pass the filter. -/
def clusters (entry : Dict) (now : DateTime) (rows : List LedgerRow) : Except Err (List (List Dict)) := do
  if !(← C.qualityFilter (outcomeArgs entry)) then return []
  C.cluster (← C.gather now (fetch rows) entry)

/-- `fire`. -/
def fire (entry : Dict) (now : DateTime) (occ : ℕ → Occasion) (rows : List LedgerRow) :
    Except Err ReactivityResult × List LedgerRow :=
  match C.clusters entry now rows with
  | .error e => (.error e, rows)
  | .ok cs =>
    let done := C.loop company occ cs rows
    (done.1.map fun actions => ⟨!actions.isEmpty, actions, C.noveltyKey entry⟩, done.2)

/-- Each cluster of the loop, with the ledger that it finds. -/
def Each (guard : Occasion → List Dict → List LedgerRow → Prop) :
    (ℕ → Occasion) → List (List Dict) → List LedgerRow → Prop
  | _, [], _ => True
  | occ, c :: cs, rows => guard (occ 0) c rows ∧ ∀ fired rows',
      C.promote company (occ 0) c rows = .ok (fired, rows') → Each guard (fun i => occ (i + 1)) cs rows'

end Compounding

/-- The entries that pass a check, which can raise. -/
def selectM (check : Dict → Except Err Bool) : List Dict → Except Err (List Dict)
  | [] => .ok []
  | e :: es => do
    let keep ← check e
    let rest ← selectM check es
    return if keep then e :: rest else rest

theorem selectM_ok {check : Dict → Except Err Bool} : ∀ {es out : List Dict}, selectM check es = .ok out →
    out.Sublist es ∧ ∀ e ∈ out, check e = .ok true
  | [], out, h => by
    obtain rfl := Except.ok.inj h
    exact ⟨.slnil, nofun⟩
  | e :: es, out, h => by
    obtain ⟨keep, hkeep, h⟩ := bind_eq_ok.mp h
    obtain ⟨rest, hrest, h⟩ := bind_eq_ok.mp h
    obtain rfl := Except.ok.inj h
    obtain ⟨hsub, hall⟩ := selectM_ok hrest
    cases keep with
    | true => exact ⟨hsub.cons_cons e, List.forall_mem_cons.mpr ⟨hkeep, hall⟩⟩
    | false => exact ⟨hsub.cons e, hall⟩

/-! ### What a fire writes -/

section
variable {C : Compounding} {company : UUID}

/-- A promotion leaves the ledger as it is, or adds the cycle of the action. -/
theorem promote_cases {o : Occasion} {cluster : List Dict} {rows rows' : List LedgerRow} {fired : Option String}
    (h : C.promote company o cluster rows = .ok (fired, rows')) : rows' = rows ∨
      ∃ c st, C.promotionThreshold cluster = .ok true ∧ C.idempotencyFilter cluster (fetch rows) = .ok false ∧
        C.promotionAction o cluster (fetch rows) = .ok (some c) ∧ o.answer = .ok st ∧
        rows' = rows ++ c.rows company (tailSeq rows) st := by
  obtain ⟨due, hdue, h⟩ := bind_eq_ok.mp h
  cases due with
  | false => exact .inl (congrArg Prod.snd (Except.ok.inj h)).symm
  | true =>
    obtain ⟨already, halready, h⟩ := bind_eq_ok.mp h
    cases already with
    | true => exact .inl (congrArg Prod.snd (Except.ok.inj h)).symm
    | false =>
      obtain ⟨found, hfound, h⟩ := bind_eq_ok.mp h
      cases found with
      | none => exact .inl (congrArg Prod.snd (Except.ok.inj h)).symm
      | some c =>
        obtain ⟨after, hafter, h⟩ := bind_eq_ok.mp h
        obtain ⟨-, rfl⟩ := Prod.mk.inj (Except.ok.inj h)
        obtain ⟨st, hst, hrows⟩ := Cycle.commit_ok hafter
        exact .inr ⟨c, st, hdue, halready, hfound, hst, hrows⟩

/-- Where the checks pass and the ledger takes the cycle, the promotion adds it. -/
theorem promote_writes {o : Occasion} {cluster : List Dict} {rows : List LedgerRow} {c : Cycle} {st : Stamp}
    (hdue : C.promotionThreshold cluster = .ok true)
    (hfilter : C.idempotencyFilter cluster (fetch rows) = .ok false)
    (haction : C.promotionAction o cluster (fetch rows) = .ok (some c)) (hst : o.answer = .ok st) :
    C.promote company o cluster rows = .ok (some c.actionKind, rows ++ c.rows company (tailSeq rows) st) := by
  simp [Compounding.promote, hdue, hfilter, haction, hst, Cycle.commit, bind, Except.bind, pure, Except.pure]

theorem promote_grows {o : Occasion} {cluster : List Dict} {rows rows' : List LedgerRow} {fired : Option String}
    (h : C.promote company o cluster rows = .ok (fired, rows')) : ∃ new, rows' = rows ++ new := by
  rcases promote_cases h with rfl | ⟨c, st, -, -, -, -, hrows⟩
  · exact ⟨[], (List.append_nil _).symm⟩
  · exact ⟨_, hrows⟩

/-- What each promotion of a cluster keeps, the loop keeps. -/
theorem loop_invariant {I : List LedgerRow → Prop} : ∀ {cs : List (List Dict)} {occ : ℕ → Occasion}
    {rows : List LedgerRow}, (∀ c ∈ cs, ∀ o rows fired rows', I rows →
      C.promote company o c rows = .ok (fired, rows') → I rows') → I rows → I (C.loop company occ cs rows).2
  | [], _, _, _, h => h
  | c :: cs, occ, rows, hstep, h => by
    obtain ⟨hc, hcs⟩ := List.forall_mem_cons.mp hstep
    rw [Compounding.loop]
    split
    · exact h
    · rename_i fired rows' hpromote
      exact loop_invariant hcs (hc _ _ _ _ h hpromote)

theorem loop_grows (occ : ℕ → Occasion) (cs : List (List Dict)) (rows : List LedgerRow) :
    ∃ new, (C.loop company occ cs rows).2 = rows ++ new := by
  refine loop_invariant (I := fun after => ∃ new, after = rows ++ new) ?_ ⟨[], (List.append_nil _).symm⟩
  rintro c - o _ fired rows' ⟨new, rfl⟩ hpromote
  obtain ⟨more, rfl⟩ := promote_grows hpromote
  exact ⟨new ++ more, List.append_assoc ..⟩

/-- When a promotion writes only rows with a property exactly under a guard, the loop does so exactly where
    each of its clusters meets the guard. -/
theorem loop_iff {guard : Occasion → List Dict → List LedgerRow → Prop} {Q : LedgerRow → Prop} :
    ∀ {cs : List (List Dict)} {occ : ℕ → Occasion} {rows new : List LedgerRow},
      (∀ c ∈ cs, ∀ o rows, guard o c rows ↔ ∀ fired new,
        C.promote company o c rows = .ok (fired, rows ++ new) → ∀ r ∈ new, Q r) →
      (C.loop company occ cs rows).2 = rows ++ new →
      ((∀ r ∈ new, Q r) ↔ C.Each company guard occ cs rows)
  | [], occ, rows, new, _, h => by
    obtain rfl : new = [] := by simpa [Compounding.loop] using h.symm
    simp [Compounding.Each]
  | c :: cs, occ, rows, new, hstep, h => by
    obtain ⟨hc, hcs⟩ := List.forall_mem_cons.mp hstep
    rw [Compounding.loop] at h
    rw [Compounding.Each, hc]
    split at h
    · rename_i e herror
      obtain rfl : new = [] := by simpa using h.symm
      simp [herror]
    · rename_i fired rows' hpromote
      obtain ⟨first, rfl⟩ := promote_grows hpromote
      obtain ⟨rest, hrest⟩ := @loop_grows C company (fun i => occ (i + 1)) cs (rows ++ first)
      obtain rfl : new = first ++ rest := by
        rw [List.append_assoc] at hrest
        exact List.append_cancel_left (h.symm.trans hrest)
      rw [List.forall_mem_append, loop_iff hcs hrest]
      -- the promotion of this cluster is the one found
      refine and_congr ⟨fun hall f more hmore => ?_, fun hall => hall _ _ hpromote⟩
        ⟨fun heach f more hmore => ?_, fun heach => heach _ _ hpromote⟩
      · obtain ⟨-, hrows⟩ := Prod.mk.inj (Except.ok.inj (hpromote.symm.trans hmore))
        exact List.append_cancel_left hrows ▸ hall
      · obtain ⟨-, rfl⟩ := Prod.mk.inj (Except.ok.inj (hpromote.symm.trans hmore))
        exact heach

/-- A fire leaves the ledger of a loop over clusters that it found. -/
theorem fire_rows (entry : Dict) (now : DateTime) (occ : ℕ → Occasion) (rows : List LedgerRow) :
    (C.fire company entry now occ rows).2 = rows ∨ ∃ cs, C.clusters entry now rows = .ok cs ∧
      (C.fire company entry now occ rows).2 = (C.loop company occ cs rows).2 := by
  rw [Compounding.fire]
  split
  · exact .inl rfl
  · rename_i cs hcs
    exact .inr ⟨cs, hcs, rfl⟩

/-- The clusters of a fire are those of the rows that it gathers, if any. -/
theorem clusters_ok {entry : Dict} {now : DateTime} {rows : List LedgerRow} {cs : List (List Dict)}
    (h : C.clusters entry now rows = .ok cs) : cs = [] ∨
      ∃ candidates, C.gather now (fetch rows) entry = .ok candidates ∧ C.cluster candidates = .ok cs := by
  obtain ⟨passed, -, h⟩ := bind_eq_ok.mp h
  cases passed with
  | false => exact .inl (Except.ok.inj h).symm
  | true =>
    obtain ⟨candidates, hgather, h⟩ := bind_eq_ok.mp h
    exact .inr ⟨candidates, hgather, h⟩

end
end Gateway
