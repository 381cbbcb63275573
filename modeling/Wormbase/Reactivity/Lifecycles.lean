import Wormbase.Ledger.Actions
import Wormbase.Reactivity.Isolation
import Wormbase.Lib.Run
import Wormbase.Lib.Table

/-! The lifecycle of reactivities across restarts.

    A decision is written to the ledger and then flips the binding. A new process registers its reactivities with
    their default state and reads no decision back, so a restart revives what was disabled. -/

namespace Reactivity.Registry
open Py
open Ledger (Entry Mint)

/-! ### The registry -/

inductive State where | proposed | active | disabled
  deriving DecidableEq

/-- `_ReactivityStateRecord`. -/
structure StateRecord where
  id : String
  state : State
  proposedBy : Option String
  confirmedBy : Option UUID
  disabledBy : Option UUID
  disableReason : Option String

/-- `_ReactivityStateRecord(id=…, state=…)`. -/
def StateRecord.new (id : String) (state : State) : StateRecord := ⟨id, state, none, none, none, none⟩

/-- `ReactivitySpec`. -/
structure Spec where
  id : String
  name : String
  description : String
  scope : String
  predicateSpec : Dict
  conditionSpec : Dict
  actionSpec : Dict

/-- A registry and the ledger that it writes to. -/
structure Process where
  bindings : Table StateRecord.id
  stores : Stores
  rows : List Entry

/-- A process that has registered nothing yet. -/
def Process.start (rows : List Entry) : Process := ⟨.empty, .fresh [], rows⟩

/-- `register`. -/
def Process.register (p : Process) (id : String) (initialState : State) : Except Err Unit × Process :=
  match p.bindings.get? id with
  | some _ => (.error (valueError s!"reactivity '{id}' is already registered"), p)
  | none => (.ok (), { p with bindings := p.bindings.put (.new id initialState) })

/-- The registration of the code reactivities by a new process over the same ledger. -/
def Process.boot (code : List String) (p : Process) : Process :=
  code.foldl (fun p id => (p.register id .active).2) (.start p.rows)

section
variable (company : UUID)

/-- The cycle of `_write_pevr`. -/
def lifecycleCall (m : Mint) (targetKind tool refId : String) (args : List (String × Val)) (proposedBy : String) :
    Ledger.Call :=
  Ledger.emit company m [("target_kind", .str targetKind), ("ref_id", .str refId),
    ("reason", .str s!"{tool} via reactivity registry"), ("proposed_by", .str proposedBy)]
    tool args (.str refId) (.list []) s!"{tool} ok" .activeDeterministic

def proposeArgs (spec : Spec) (proposedBy : String) : List (String × Val) :=
  [("reactivity_id", .str spec.id), ("name", .str spec.name), ("description", .str spec.description),
    ("scope", .str spec.scope), ("predicate_spec", .dict spec.predicateSpec), ("condition_spec", .dict spec.conditionSpec),
    ("action_spec", .dict spec.actionSpec), ("proposed_by", .str proposedBy)]

def confirmArgs (id : String) (confirmedBy : UUID) : List (String × Val) :=
  [("reactivity_id", .str id), ("confirmed_by", .str confirmedBy.str)]

def disableArgs (id : String) (disabledBy : UUID) (reason : String) : List (String × Val) :=
  [("reactivity_id", .str id), ("disabled_by", .str disabledBy.str), ("reason", .str reason)]

def proposeCall (m : Mint) (refId : UUID) (spec : Spec) (proposedBy : String) : Ledger.Call :=
  lifecycleCall company m "reactivity_proposed" "emit_reactivity_proposed" refId.str (proposeArgs spec proposedBy) proposedBy

def confirmCall (m : Mint) (id : String) (confirmedBy : UUID) : Ledger.Call :=
  lifecycleCall company m "reactivity_confirmed" "emit_reactivity_confirmed" id (confirmArgs id confirmedBy) confirmedBy.str

def disableCall (m : Mint) (id : String) (disabledBy : UUID) (reason : String) : Ledger.Call :=
  lifecycleCall company m "reactivity_disabled" "emit_reactivity_disabled" id (disableArgs id disabledBy reason)
    disabledBy.str

variable (sha256 : Bytes → Bytes) (d : Ledger.Dialect)

/-- A binding that waits for its confirmation remembers who proposed it. -/
def noteProposer (bindings : Table StateRecord.id) (id proposedBy : String) : Table StateRecord.id :=
  match bindings.get? id with
  | some b => if b.state = .proposed then bindings.put { b with proposedBy := some proposedBy } else bindings
  | none => bindings

/-- `propose`. -/
def Process.propose (p : Process) (m : Mint) (refId : UUID) (spec : Spec) (proposedBy : String) : Except Err Unit × Process :=
  match Ledger.write sha256 d p.rows (proposeCall company m refId spec proposedBy) with
  | (.error x, rows) => (.error x, { p with rows })
  | (.ok _, rows) => (.ok (), { p with rows, bindings := noteProposer p.bindings spec.id proposedBy })

/-- `confirm`. -/
def Process.confirm (p : Process) (m : Mint) (id : String) (confirmedBy : UUID) : Except Err Unit × Process :=
  match p.bindings.get? id with
  | none => (.error (valueError s!"cannot confirm unregistered reactivity '{id}'"), p)
  | some b =>
    match Ledger.write sha256 d p.rows (confirmCall company m id confirmedBy) with
    | (.error x, rows) => (.error x, { p with rows })
    | (.ok _, rows) =>
      (.ok (), { p with rows, bindings := p.bindings.put { b with state := .active, confirmedBy := some confirmedBy } })

/-- `disable`. -/
def Process.disable (p : Process) (m : Mint) (id : String) (disabledBy : UUID) (reason : String) : Except Err Unit × Process :=
  match p.bindings.get? id with
  | none => (.error (valueError s!"cannot disable unregistered reactivity '{id}'"), p)
  | some b =>
    match Ledger.write sha256 d p.rows (disableCall company m id disabledBy reason) with
    | (.error x, rows) => (.error x, { p with rows })
    | (.ok _, rows) =>
      (.ok (), { p with
        rows
        bindings := p.bindings.put { b with state := .disabled, disabledBy := some disabledBy, disableReason := some reason } })

end

/-- A binding as a dispatch meets it, with its callbacks as they answer then. -/
def StateRecord.turn (callbacks : String → Turn) (b : StateRecord) : Turn :=
  { callbacks b.id with id := b.id, active := decide (b.state = .active) }

def Process.turns (p : Process) (callbacks : String → Turn) : List Turn := p.bindings.rows.map (StateRecord.turn callbacks)

/-! ### Decisions -/

/-- The reactivity that an action confirms or disables, and whether it disables it. -/
def decision (a : String × Dict) : Option (String × Bool) :=
  match Dict.get a.2 "reactivity_id" with
  | .str id =>
    if a.1 = "emit_reactivity_disabled" then some (id, true)
    else if a.1 = "emit_reactivity_confirmed" then some (id, false)
    else none
  | _ => none

/-- The last decision on a reactivity. -/
def lastDecision (acts : List (String × Dict)) (id : String) : Option Bool :=
  (((acts.filterMap decision).filter fun q => q.1 = id).getLast?).map Prod.snd

/-- The reactivity was disabled, and not confirmed since. -/
def Revoked (company : UUID) (rows : List Entry) (id : String) : Prop :=
  lastDecision (Ledger.actions company rows) id = some true

theorem lastDecision_append (acts : List (String × Dict)) (a : String × Dict) (id : String) :
    lastDecision (acts ++ [a]) id =
      match decision a with
      | some (id', disabled) => if id' = id then some disabled else lastDecision acts id
      | none => lastDecision acts id := by
  rw [lastDecision, List.filterMap_append, List.filter_append]
  cases hd : decision a with
  | none => simp [hd, lastDecision]
  | some q =>
    obtain ⟨id', disabled⟩ := q
    by_cases hid : id' = id
    · simp [hd, hid]
    · simp [hd, hid, lastDecision]

/-! ### Runs -/

/-- What can happen to a registry. What a dispatch and its fires write is part of the input. -/
inductive Op where
  | register (id : String) (initialState : State)
  | propose (m : Mint) (refId : UUID) (spec : Spec) (proposedBy : String)
  | confirm (m : Mint) (id : String) (confirmedBy : UUID)
  | disable (m : Mint) (id : String) (disabledBy : UUID) (reason : String)
  | dispatch (entry : Dict) (callbacks : String → Turn) (written : List Entry)
  | restart

section
variable (py : Interp) (sha256 : Bytes → Bytes) (d : Ledger.Dialect) (company : UUID) (code : List String)

/-- One operation. A dispatch decides on no reactivity. -/
def step (p : Process) : Op → Option Process
  | .register id initialState => some (p.register id initialState).2
  | .propose m refId spec proposedBy => some (p.propose company sha256 d m refId spec proposedBy).2
  | .confirm m id confirmedBy => some (p.confirm company sha256 d m id confirmedBy).2
  | .disable m id disabledBy reason => some (p.disable company sha256 d m id disabledBy reason).2
  | .dispatch entry callbacks written =>
    if (Ledger.actions company written).filterMap decision = [] then
      some { p with stores := (dispatch py company entry p.stores (p.turns callbacks)).2, rows := p.rows ++ written }
    else none
  | .restart => some (.boot code p)

/-- No dispatch, of whatever entry and whatever the callbacks answer, fires a reactivity that was disabled and not
    confirmed since. -/
def StaysOff (p : Process) : Prop :=
  ∀ entry callbacks, ∀ id ∈ actedIds (dispatch py company entry p.stores (p.turns callbacks)).1, ¬Revoked company p.rows id

/-- What registers a reactivity as active finds no decision in the ledger that disables it. -/
def Unrevoked (p : Process) : Op → Prop
  | .register id initialState => p.bindings.get? id = none → initialState = .active → ¬Revoked company p.rows id
  | .restart => ∀ id ∈ code, ¬Revoked company p.rows id
  | _ => True

end

/-! ### One operation -/

section
variable {py : Interp} {sha256 : Bytes → Bytes} {d : Ledger.Dialect} {company : UUID} {code : List String} {p p' : Process}

/-- No active binding is revoked. -/
def Honors (company : UUID) (p : Process) : Prop :=
  ∀ b ∈ p.bindings.rows, b.state = .active → ¬Revoked company p.rows b.id

/-- What a lifecycle write adds to the decisions. -/
theorem lifecycle_written {m : Mint} {targetKind tool refId proposedBy : String} {args : List (String × Val)}
    (hargs : (args.map Prod.fst).Nodup) (rows : List Entry) :
    (∃ res rows', Ledger.write sha256 d rows (lifecycleCall company m targetKind tool refId args proposedBy) = (.ok res, rows') ∧
      Ledger.actions company rows' = Ledger.actions company rows ++ [(tool, backDict args)]) ∨
    ∃ x, Ledger.write sha256 d rows (lifecycleCall company m targetKind tool refId args proposedBy) = (.error x, rows) := by
  rcases @Ledger.actions_emit sha256 d rows company m [("target_kind", .str targetKind), ("ref_id", .str refId),
    ("reason", .str s!"{tool} via reactivity registry"), ("proposed_by", .str proposedBy)] args tool s!"{tool} ok"
    (.str refId) (.list []) .activeDeterministic hargs with ⟨res, rows', hw, hacts, -⟩ | h
  · exact .inl ⟨res, rows', hw, hacts⟩
  · exact .inr h

/-- Args that begin with a reactivity are read back with it. -/
theorem decision_tool (tool id : String) (args : List (String × Val)) :
    decision (tool, backDict (("reactivity_id", .str id) :: args)) =
      if tool = "emit_reactivity_disabled" then some (id, true)
      else if tool = "emit_reactivity_confirmed" then some (id, false) else none := by
  have hid : (backDict (("reactivity_id", .str id) :: args)).get "reactivity_id" = .str id := rfl
  simp only [decision, hid]

/-- A registration keeps the registry honest exactly when it revives nothing. -/
theorem honors_register (h : Honors company p) (id : String) (initialState : State) :
    Honors company (p.register id initialState).2 ↔ Unrevoked company code p (.register id initialState) := by
  rw [Process.register, Unrevoked]
  cases hget : p.bindings.get? id with
  | some b => exact iff_of_true h nofun
  | none =>
    constructor
    · intro hnew _ hactive
      exact hnew (.new id initialState) (Table.mem_put.mpr (.inl rfl)) hactive
    · intro hok b hb hactive
      rcases Table.mem_put.mp hb with rfl | ⟨hb, -⟩
      · exact hok rfl hactive
      · exact h b hb hactive

/-- The bindings of a registry that registers the code reactivities. -/
theorem mem_boot {b : StateRecord} : ∀ {code : List String} {q : Process},
    b ∈ (code.foldl (fun p id => (p.register id .active).2) q).bindings.rows ↔
      b ∈ q.bindings.rows ∨ b.id ∈ code ∧ q.bindings.get? b.id = none ∧ b = .new b.id .active
  | [], q => by simp
  | id :: code, q => by
    rw [List.foldl_cons, mem_boot, Process.register]
    cases hget : q.bindings.get? id with
    | some c =>
      simp only [List.mem_cons]
      constructor
      · rintro (hb | ⟨hmem, hnone, hb⟩)
        · exact .inl hb
        · exact .inr ⟨.inr hmem, hnone, hb⟩
      · rintro (hb | ⟨rfl | hmem, hnone, hb⟩)
        · exact .inl hb
        · rw [hget] at hnone
          cases hnone
        · exact .inr ⟨hmem, hnone, hb⟩
    | none =>
      simp only [List.mem_cons, Table.mem_put, Table.get?_put]
      constructor
      · rintro ((rfl | ⟨hb, -⟩) | ⟨hmem, hnone, hb⟩)
        · exact .inr ⟨.inl rfl, hget, rfl⟩
        · exact .inl hb
        · split at hnone
          · cases hnone
          · exact .inr ⟨.inr hmem, hnone, hb⟩
      · rintro (hb | ⟨hmem, hnone, hb⟩)
        · exact .inl (.inr ⟨hb, Table.get?_eq_none_iff.mp hget b hb⟩)
        · by_cases hid : id = b.id
          · exact .inl (.inl (by rw [hid]; exact hb))
          · exact .inr ⟨hmem.resolve_left (Ne.symm hid), (if_neg hid).trans hnone, hb⟩

theorem rows_boot : ∀ {code : List String} {q : Process},
    (code.foldl (fun p id => (p.register id .active).2) q).rows = q.rows
  | [], _ => rfl
  | id :: code, q => by
    rw [List.foldl_cons, rows_boot, Process.register]
    split <;> rfl

/-- A restart keeps the registry honest exactly when it revives nothing. -/
theorem honors_boot : Honors company (p.boot code) ↔ Unrevoked company code p .restart := by
  have hrows : (p.boot code).rows = p.rows := rows_boot
  constructor
  · intro h id hid
    have hmem : StateRecord.new id .active ∈ (p.boot code).bindings.rows := mem_boot.mpr (.inr ⟨hid, rfl, rfl⟩)
    have := h _ hmem rfl
    rwa [hrows] at this
  · intro h b hb _
    rw [hrows]
    rcases mem_boot.mp hb with hb | ⟨hid, -, -⟩
    · exact absurd hb List.not_mem_nil
    · exact h b.id hid

theorem revoked_append {a : String × Dict} {rows rows' : List Entry} {id : String}
    (hacts : Ledger.actions company rows' = Ledger.actions company rows ++ [a]) :
    Revoked company rows' id ↔ match decision a with
      | some (id', disabled) => if id' = id then disabled = true else Revoked company rows id
      | none => Revoked company rows id := by
  rw [Revoked, hacts, lastDecision_append]
  cases decision a with
  | none => exact Iff.rfl
  | some q =>
    dsimp only
    by_cases hid : q.1 = id
    · simp [hid]
    · simp [hid, Revoked]

/-- A note leaves no further binding active. -/
theorem mem_noteProposer {bindings : Table StateRecord.id} {id proposedBy : String} {b : StateRecord}
    (hb : b ∈ (noteProposer bindings id proposedBy).rows) (hactive : b.state = .active) : b ∈ bindings.rows := by
  rw [noteProposer] at hb
  split at hb
  · split at hb
    · rename_i hproposed
      rcases Table.mem_put.mp hb with rfl | ⟨hb, -⟩
      · exact absurd (hactive.symm.trans hproposed) nofun
      · exact hb
    · exact hb
  · exact hb

theorem honors_propose (h : Honors company p) {m : Mint} {refId : UUID} {spec : Spec} {proposedBy : String} :
    Honors company (p.propose company sha256 d m refId spec proposedBy).2 := by
  unfold Process.propose
  rcases @lifecycle_written sha256 d company m "reactivity_proposed" "emit_reactivity_proposed" refId.str proposedBy
    (proposeArgs spec proposedBy) (by simp [proposeArgs]) p.rows with ⟨res, rows', hw, hacts⟩ | ⟨x, hw⟩
  · have hsame : ∀ id, Revoked company rows' id → Revoked company p.rows id := by
      intro id hrev
      rw [revoked_append hacts, proposeArgs, decision_tool] at hrev
      simpa using hrev
    rw [proposeCall, hw]
    exact fun b hb hactive hrev => h b (mem_noteProposer hb hactive) hactive (hsame b.id hrev)
  · rw [proposeCall, hw]
    exact h

/-- A confirmed reactivity is not revoked. -/
theorem honors_confirm (h : Honors company p) {m : Mint} {id : String} {confirmedBy : UUID} :
    Honors company (p.confirm company sha256 d m id confirmedBy).2 := by
  rw [Process.confirm]
  cases hget : p.bindings.get? id with
  | none => exact h
  | some b =>
    have hid : b.id = id := (Table.get?_eq_some_iff.mp hget).2
    dsimp only
    rcases @lifecycle_written sha256 d company m "reactivity_confirmed" "emit_reactivity_confirmed" id confirmedBy.str
      (confirmArgs id confirmedBy) (by simp [confirmArgs]) p.rows with ⟨res, rows', hw, hacts⟩ | ⟨x, hw⟩
    · have hrev : ∀ id', Revoked company rows' id' ↔ id' ≠ id ∧ Revoked company p.rows id' := by
        intro id'
        rw [revoked_append hacts, confirmArgs, decision_tool]
        by_cases hid' : id = id'
        · simp [hid']
        · simp [hid', Ne.symm hid']
      rw [confirmCall, hw]
      intro b' hb' hactive hr
      obtain ⟨hne, hold⟩ := (hrev b'.id).mp hr
      rcases Table.mem_put.mp hb' with rfl | ⟨hb', -⟩
      · exact hne hid
      · exact h b' hb' hactive hold
    · rw [confirmCall, hw]
      exact h

/-- A disabled reactivity is not active. -/
theorem honors_disable (h : Honors company p) {m : Mint} {id : String} {disabledBy : UUID} {reason : String} :
    Honors company (p.disable company sha256 d m id disabledBy reason).2 := by
  rw [Process.disable]
  cases hget : p.bindings.get? id with
  | none => exact h
  | some b =>
    have hid : b.id = id := (Table.get?_eq_some_iff.mp hget).2
    dsimp only
    rcases @lifecycle_written sha256 d company m "reactivity_disabled" "emit_reactivity_disabled" id disabledBy.str
      (disableArgs id disabledBy reason) (by simp [disableArgs]) p.rows with ⟨res, rows', hw, hacts⟩ | ⟨x, hw⟩
    · have hrev : ∀ id', id' ≠ id → Revoked company rows' id' → Revoked company p.rows id' := by
        intro id' hid' hr
        rw [revoked_append hacts, disableArgs, decision_tool] at hr
        simpa [Ne.symm hid'] using hr
      rw [disableCall, hw]
      intro b' hb' hactive hr
      rcases Table.mem_put.mp hb' with rfl | ⟨hb', hne⟩
      · cases hactive
      · exact h b' hb' hactive (hrev b'.id (fun heq => hne (heq.trans hid.symm)) hr)
    · rw [disableCall, hw]
      exact h

/-- An operation keeps the registry honest exactly when it revives nothing. -/
theorem honors_step {op : Op} (h : Honors company p) (hstep : step py sha256 d company code p op = some p') :
    Honors company p' ↔ Unrevoked company code p op := by
  cases op with
  | register id initialState =>
    obtain rfl := Option.some.inj hstep
    exact honors_register h id initialState
  | propose m refId spec proposedBy =>
    obtain rfl := Option.some.inj hstep
    exact iff_of_true (honors_propose h) trivial
  | confirm m id confirmedBy =>
    obtain rfl := Option.some.inj hstep
    exact iff_of_true (honors_confirm h) trivial
  | disable m id disabledBy reason =>
    obtain rfl := Option.some.inj hstep
    exact iff_of_true (honors_disable h) trivial
  | dispatch entry callbacks written =>
    rw [step] at hstep
    split at hstep
    · rename_i hnone
      obtain rfl := Option.some.inj hstep
      refine iff_of_true (fun b hb hactive hrev => h b hb hactive ?_) trivial
      rwa [Revoked, lastDecision, Ledger.actions_append, List.filterMap_append, hnone, List.append_nil] at hrev
    · cases hstep
  | restart =>
    obtain rfl := Option.some.inj hstep
    exact honors_boot

/-! ### Dispatches -/

/-- An action that ran belongs to an active binding. -/
theorem active_of_acted : ∀ {ts : List Turn} {s : Stores} {entry : Dict} {id : String},
    id ∈ actedIds (dispatch py company entry s ts).1 → ∃ t ∈ ts, t.id = id ∧ t.active = true
  | [], _, _, _, h => absurd h List.not_mem_nil
  | t :: ts, s, entry, id, h => by
    have hhead : ∀ o, (t.run py company entry s).1 = o → o.acted = true → t.active = true := by
      intro o ho hacted
      by_contra hinactive
      have hran := (ran py company entry s t).outcome_inactive.mpr (by simpa using hinactive)
      rw [← ho, hran] at hacted
      cases hacted
    obtain ⟨q, hq, hid⟩ := List.mem_map.mp h
    obtain ⟨hq, hacted⟩ := List.mem_filter.mp hq
    by_cases hlost : (t.run py company entry s).1 = .fireLost
    · rw [dispatch_cons_lost hlost, List.mem_singleton] at hq
      subst hq
      exact ⟨t, List.mem_cons_self, hid, hhead _ hlost rfl⟩
    · rw [dispatch_cons hlost] at hq
      rcases List.mem_cons.mp hq with rfl | hq
      · exact ⟨t, List.mem_cons_self, hid, hhead _ rfl hacted⟩
      · have hrest : id ∈ actedIds (dispatch py company entry (t.run py company entry s).2 ts).1 :=
          List.mem_map.mpr ⟨q, List.mem_filter.mpr ⟨hq, hacted⟩, hid⟩
        obtain ⟨u, hu, huid, hactive⟩ := active_of_acted hrest
        exact ⟨u, List.mem_cons_of_mem _ hu, huid, hactive⟩

/-- Callbacks under which one reactivity fires and no other matches. -/
def only (id id' : String) : Turn where
  id := id'
  active := true
  predicate := fun _ => .ok (decide (id' = id), none)
  condition := .alwaysAllow
  fire := fun _ => .ok ⟨true, "", []⟩
  now := fun _ => 0
  firedAt := 0
  write := .ok ()

theorem only_fires {b : StateRecord} (hactive : b.state = .active) {s : Stores} :
    (Turn.run py company [] s (b.turn (only b.id))).1 = .fired := by
  simp [StateRecord.turn, hactive, Turn.run, only, Condition.allows, onFire, entryKey, entryArgs, firstText, sourceSeq, Dict.getD,
    Dict.get?, Dict.get, Val.or, Val.truthy, Val.toInt, bind, Except.bind, pure, Except.pure]

/-- Callbacks that do not match lose no fire. -/
theorem only_idle {id : String} {b : StateRecord} (hid : b.id ≠ id) {s : Stores} :
    (Turn.run py company [] s (b.turn (only id))).1 ≠ .fireLost := by
  by_cases hactive : b.state = .active
  · simp [StateRecord.turn, hactive, Turn.run, only, hid]
  · simp [StateRecord.turn, hactive, Turn.run]

/-- A dispatch can fire any active binding. -/
theorem only_acts {b : StateRecord} (hactive : b.state = .active) : ∀ {bs : List StateRecord} {s : Stores}, b ∈ bs →
    (∀ c ∈ bs, c.id = b.id → c = b) → b.id ∈ actedIds (dispatch py company [] s (bs.map (StateRecord.turn (only b.id)))).1
  | c :: bs, s, hb, hunique => by
    obtain ⟨hc, hrest⟩ := List.forall_mem_cons.mp hunique
    by_cases hid : c.id = b.id
    · obtain rfl := hc hid
      have hfired := @only_fires py company c hactive s
      have hlost : (Turn.run py company [] s (c.turn (only c.id))).1 ≠ .fireLost := by
        rw [hfired]
        exact nofun
      rw [List.map_cons, dispatch_cons hlost, hfired]
      exact List.mem_cons_self
    · have hmem : b ∈ bs := (List.mem_cons.mp hb).resolve_left fun h => hid (by rw [h])
      have hacts := only_acts hactive (s := (Turn.run py company [] s (c.turn (only b.id))).2) hmem hrest
      obtain ⟨q, hq, hqid⟩ := List.mem_map.mp hacts
      obtain ⟨hq, hacted⟩ := List.mem_filter.mp hq
      rw [List.map_cons, dispatch_cons (only_idle hid)]
      exact List.mem_map.mpr ⟨q, List.mem_filter.mpr ⟨List.mem_cons_of_mem _ hq, hacted⟩, hqid⟩

/-- A new process fires what its code registers. -/
theorem fires_after_boot {id : String} (hid : id ∈ code) :
    id ∈ actedIds (dispatch py company [] (p.boot code).stores ((p.boot code).turns (only id))).1 := by
  have hmem : StateRecord.new id .active ∈ (p.boot code).bindings.rows := mem_boot.mpr (.inr ⟨hid, rfl, rfl⟩)
  exact @only_acts py company (.new id .active) rfl _ _ hmem fun c hc hcid => Table.eq_of_key hc hmem hcid

theorem staysOff_iff : StaysOff py company p ↔ Honors company p := by
  constructor
  · intro h b hb hactive
    exact h [] (only b.id) b.id (only_acts hactive hb fun c hc hid => Table.eq_of_key hc hb hid)
  · intro h entry callbacks id hid
    obtain ⟨t, ht, htid, hactive⟩ := active_of_acted hid
    obtain ⟨b, hb, rfl⟩ := List.mem_map.mp ht
    have hid : b.id = id := htid
    rw [← hid]
    exact h b hb (of_decide_eq_true hactive)

/-- In every state of a run a reactivity that was disabled stays off exactly when no registration and no restart of
    the run revives one. -/
theorem stays_off_iff (rows : List Entry) {ops : List Op} (h : Run.exec (step py sha256 d company code) (.start rows) ops = some p') :
    (∀ ops' p, ops' <+: ops → Run.exec (step py sha256 d company code) (.start rows) ops' = some p → StaysOff py company p) ↔
      Run.Guarded (step py sha256 d company code) (Unrevoked company code) (.start rows) ops := by
  have hstart : Honors company (.start rows) := fun b hb => absurd hb List.not_mem_nil
  have halways := @Run.always_iff_guarded _ _ (step py sha256 d company code) p' (Unrevoked company code) (fun _ => True)
    (Honors company) (fun _ _ _ _ _ => trivial) (fun _ _ _ _ hp hstep => honors_step hp hstep) ops _ trivial hstart h
  rw [← halways, Run.always_iff_prefix]
  simp only [staysOff_iff]
  constructor
  · intro hall ops' hpre p hp
    exact hall ops' p hpre hp
  · intro hall ops' p hpre hp
    exact hall ops' hpre p hp

end

/-! ### Two runs -/

/-- A registration, and an operator who switches the reactivity off. -/
def switchOff : List Op := [.register "nudger" .active, .disable Ledger.sampleMint "nudger" ⟨7⟩ "noisy"]

/-- A reactivity that was switched off stays off in its process. -/
theorem switched_off_stays_off : ∃ p',
    Run.exec (step .plain Ledger.tagHash .sqlite ⟨1⟩ ["nudger"]) (.start []) switchOff = some p' ∧
      ∀ ops' p, ops' <+: switchOff →
        Run.exec (step .plain Ledger.tagHash .sqlite ⟨1⟩ ["nudger"]) (.start []) ops' = some p → StaysOff .plain ⟨1⟩ p := by
  have hnone : ¬Revoked ⟨1⟩ [] "nudger" := by simp [Revoked, lastDecision, Ledger.actions, Ledger.ofCompany]
  exact ⟨_, rfl, (@stays_off_iff .plain Ledger.tagHash .sqlite ⟨1⟩ ["nudger"] _ [] switchOff rfl).mpr
    ⟨fun _ _ => hnone, fun _ _ => ⟨trivial, fun _ _ => trivial⟩⟩⟩

/-- The first lifecycle action of a ledger can be written. -/
theorem first_lifecycle {company : UUID} {targetKind tool refId proposedBy : String} {args : List (String × Val)}
    (hnames : (args.map Prod.fst).Nodup) (hargs : ∀ p ∈ args, Ledger.Settled p.2) : ∃ res rows',
    Ledger.write Ledger.tagHash .sqlite [] (lifecycleCall company Ledger.sampleMint targetKind tool refId args proposedBy) =
      (.ok res, rows') ∧ Ledger.actions company rows' = [(tool, backDict args)] := by
  refine Ledger.first_emit (Ledger.settled_dict (by simp) ?_) hnames hargs (Ledger.settled_str _) (Ledger.settled_list (by simp))
  simp only [List.forall_mem_cons]
  exact ⟨Ledger.settled_str _, Ledger.settled_str _, Ledger.settled_str _, Ledger.settled_str _, by simp⟩

/-- The first decision of a ledger can be written. -/
theorem first_disable (company : UUID) (id : String) (disabledBy : UUID) (reason : String) : ∃ res rows',
    Ledger.write Ledger.tagHash .sqlite [] (disableCall company Ledger.sampleMint id disabledBy reason) = (.ok res, rows') ∧
      Revoked company rows' id := by
  have hargs : ∀ p ∈ disableArgs id disabledBy reason, Ledger.Settled p.2 := by
    simp only [disableArgs, List.forall_mem_cons]
    exact ⟨Ledger.settled_str _, Ledger.settled_str _, Ledger.settled_str _, by simp⟩
  obtain ⟨res, rows', hw, hacts⟩ := @first_lifecycle company "reactivity_disabled" "emit_reactivity_disabled" id disabledBy.str
    (disableArgs id disabledBy reason) (by simp [disableArgs]) hargs
  refine ⟨res, rows', hw, ?_⟩
  have hdecision := decision_tool "emit_reactivity_disabled" id [("disabled_by", .str disabledBy.str), ("reason", .str reason)]
  rw [Revoked, hacts, disableArgs, lastDecision, List.filterMap_cons, hdecision]
  simp

/-- A decision that was written does not outlive the process. -/
theorem revived {sha256 : Bytes → Bytes} {d : Ledger.Dialect} {company : UUID} {code : List String} {p : Process} {m : Mint}
    {id reason : String} {disabledBy : UUID} {res : Ledger.WriteResult} {rows' : List Entry} (hid : id ∈ code)
    (hnew : p.bindings.get? id = none)
    (hw : Ledger.write sha256 d p.rows (disableCall company m id disabledBy reason) = (.ok res, rows')) (py : Interp) :
    ∃ p', Run.exec (step py sha256 d company code) p [.register id .active, .disable m id disabledBy reason, .restart] = some p' ∧
      p'.rows = rows' ∧ ∃ entry callbacks, id ∈ actedIds (dispatch py company entry p'.stores (p'.turns callbacks)).1 := by
  have hregister : (p.register id .active).2 = { p with bindings := p.bindings.put (.new id .active) } := by
    rw [Process.register, hnew]
  have hdisable : ((p.register id .active).2.disable company sha256 d m id disabledBy reason).2.rows = rows' := by
    have hget : (p.bindings.put (StateRecord.new id .active)).get? id = some (.new id .active) := by
      rw [Table.get?_put]
      exact if_pos rfl
    rw [hregister]
    unfold Process.disable
    rw [hget]
    dsimp only
    rw [hw]
  refine ⟨.boot code ((p.register id .active).2.disable company sha256 d m id disabledBy reason).2, ?_, ?_, [], only id,
    fires_after_boot hid⟩
  · exact Run.exec_cons.mpr ⟨_, rfl, Run.exec_cons.mpr ⟨_, rfl, Run.exec_cons.mpr ⟨_, rfl, rfl⟩⟩⟩
  · have hkeeps : (Process.boot code ((p.register id .active).2.disable company sha256 d m id disabledBy reason).2).rows =
        ((p.register id .active).2.disable company sha256 d m id disabledBy reason).2.rows := rows_boot
    rw [hkeeps, hdisable]

/-- A restart switches it on again. -/
theorem restart_revives : ∃ p, Run.exec (step .plain Ledger.tagHash .sqlite ⟨1⟩ ["nudger"]) (.start [])
    (switchOff ++ [.restart]) = some p ∧ Revoked ⟨1⟩ p.rows "nudger" ∧
      ∃ entry callbacks, "nudger" ∈ actedIds (dispatch .plain ⟨1⟩ entry p.stores (p.turns callbacks)).1 := by
  obtain ⟨res, rows', hw, hrevoked⟩ := first_disable ⟨1⟩ "nudger" ⟨7⟩ "noisy"
  obtain ⟨p', hp', hrows, hfires⟩ := revived (List.mem_singleton_self _) (Table.get?_empty _) hw .plain (p := .start [])
  exact ⟨p', hp', hrows ▸ hrevoked, hfires⟩

end Reactivity.Registry
