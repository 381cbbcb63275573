import Wormbase.Py.Coerce
import Wormbase.Reactivity.Runner

/-! `ReactivityRegistry.dispatch`: for each active reactivity its predicate, its condition and its fire,
    then the bookkeeping of a fire.

    The three callbacks are caught when they raise; the bookkeeping is not. What the callbacks of a
    reactivity find outside the registry, and what the clock says to it, are part of the input. -/

namespace Reactivity.Registry
open Py

/-! ### The stores of a registry -/

inductive Axis where | owner | domain | tenant
  deriving DecidableEq

/-- `per_{axis}`. -/
def Axis.budgetName : Axis → String
  | owner => "per_owner" | domain => "per_domain" | tenant => "per_tenant"

/-- Microseconds of an instant in UTC. -/
abbrev Instant := ℤ

/-- The UTC day of an instant, counted from the epoch. -/
def dayOf (t : Instant) : ℤ := t / 86400000000

/-- The key of a counter: reactivity, axis, key and day. -/
abbrev Counter := String × Axis × String × ℤ

/-- `_mem_budgets`, `_mem_fires` and `_mem_disabled_domains`, with the charges in the order in which
    they were made. -/
structure Stores where
  budgets : Counter → ℤ
  lastFired : String × String → Option Instant
  disabledDomains : List String
  charges : List Counter

/-- The stores of a new process. -/
def Stores.fresh (disabledDomains : List String) : Stores := ⟨fun _ => 0, fun _ => none, disabledDomains, []⟩

/-- `_inc_budget`. -/
def Stores.inc (s : Stores) (k : Counter) (amount : ℤ) : Stores :=
  { s with budgets := Function.update s.budgets k (s.budgets k + amount), charges := s.charges ++ [k] }

/-! ### What is read from an entry -/

/-- `(entry.get("payload") or {}).get("args") or {}`, from which a value is then read. -/
def entryArgs (entry : Dict) : Except Err Dict :=
  match (entry.get "payload").or (.dict []) with
  | .dict payload =>
    match (Dict.get payload "args").or (.dict []) with
    | .dict args => .ok args
    | v => .error (attributeError s!"'{v.typeName}' object has no attribute 'get'")
  | v => .error (attributeError s!"'{v.typeName}' object has no attribute 'get'")

/-- The text of the first of the args that is truthy. -/
def firstText (py : Interp) (args : Dict) (names : List String) : Option String :=
  names.findSome? fun name => (args.get name).text? py

section
variable (py : Interp) (company : UUID)

/-- `_entry_owner_id`, `_entry_domain_id` and the company. -/
def entryKey (entry : Dict) : Axis → Except Err (Option String)
  | .owner => do
    return firstText py (← entryArgs entry) ["owner_id", "owner_person", "owner_person_id"]
  | .domain => do return firstText py (← entryArgs entry) ["domain_id", "domain"]
  | .tenant => .ok (some company.str)

/-- `int(entry.get("seq", 0))`. -/
def sourceSeq (entry : Dict) : Except Err ℤ := (entry.getD "seq" (.int 0)).toInt

/-! ### Conditions -/

/-- `per_owner`, `per_domain` and `per_tenant` of a `DailyBudget`. -/
structure Caps where
  perOwner : Option ℤ
  perDomain : Option ℤ
  perTenant : Option ℤ

def Caps.of (caps : Caps) : Axis → Option ℤ
  | .owner => caps.perOwner | .domain => caps.perDomain | .tenant => caps.perTenant

/-- The conditions of the package, and those of other classes by their verdict. The window of
    `NotRecentlyFired` is `timedelta(hours=self.hours)` in microseconds. -/
inductive Condition where
  | dailyBudget (caps : Caps)
  | notRecentlyFired (noveltyKey : String) (window : ℤ)
  | periodic (periodSeconds : ℤ) (noveltyKey : String)
  | domainEnabled
  | and (conditions : List Condition)
  | or (conditions : List Condition)
  | not (condition : Condition)
  | alwaysAllow
  | custom (allows : Dict → Stores → Except Err Bool)

/-- What a condition finds in its context: the id of the reactivity, the novelty key that a predicate
    left in the extras, and what the calls of `now` return, in order. -/
structure Context where
  reactivityId : String
  noveltyKey : Option String
  now : ℕ → Instant

/-- The count of a counter has reached its cap. -/
def Stores.atCap (s : Stores) (id : String) (axis : Axis) (key : Option String) (day : ℤ)
    (cap : Option ℤ) : Bool :=
  match key, cap with
  | some key, some cap => cap ≤ s.budgets (id, axis, key, day)
  | _, _ => false

/-- `DailyBudget.allows` at an instant. An entry whose args cannot be read raises for the owner and
    for the domain alike. -/
def dailyAllows (caps : Caps) (entry : Dict) (s : Stores) (id : String) (now : Instant) :
    Except Err Bool := do
  let owner ← entryKey py company entry .owner
  let domain ← entryKey py company entry .domain
  let day := dayOf now
  return !(s.atCap id .owner owner day caps.perOwner || s.atCap id .domain domain day caps.perDomain ||
    s.atCap id .tenant (some company.str) day caps.perTenant)

/-- `NotRecentlyFired.allows` for a key, at an instant. -/
def novel (s : Stores) (id key : String) (window : ℤ) (now : Instant) : Bool :=
  match s.lastFired (id, key) with
  | none => true
  | some last => last < now - window

/-- `Periodic.allows` for a key, at an instant. -/
def nextBucket (s : Stores) (id key : String) (periodSeconds : ℤ) (now : Instant) : Bool :=
  match s.lastFired (id, key) with
  | none => true
  | some last =>
    let period := max periodSeconds 1
    last / 1000000 / period < now / 1000000 / period

variable (entry : Dict) (s : Stores) (ctx : Context)

mutual
/-- The verdict of a condition, and how often the clock was read until then. -/
def Condition.allows : Condition → ℕ → Except Err (Bool × ℕ)
  | .dailyBudget caps, n =>
    if ctx.reactivityId = "" then .ok (false, n)
    else do return (← dailyAllows py company caps entry s ctx.reactivityId (ctx.now n), n + 1)
  | .notRecentlyFired noveltyKey window, n =>
    let key := ctx.noveltyKey.getD noveltyKey
    if ctx.reactivityId = "" then .ok (false, n)
    else if key = "" then .ok (true, n)
    else .ok (novel s ctx.reactivityId key window (ctx.now n), n + 1)
  | .periodic periodSeconds noveltyKey, n =>
    let key := ctx.noveltyKey.getD noveltyKey
    if ctx.reactivityId = "" then .ok (false, n)
    else if key = "" then .ok (true, n)
    else .ok (nextBucket s ctx.reactivityId key periodSeconds (ctx.now n), n + 1)
  | .domainEnabled, n => do
    match ← entryKey py company entry .domain with
    | none => return (true, n)
    | some domain => return (domain ∉ s.disabledDomains, n)
  | .and conditions, n => allOf conditions n
  | .or conditions, n => anyOf conditions n
  | .not condition, n => do
    let verdict ← condition.allows n
    return (!verdict.1, verdict.2)
  | .alwaysAllow, n => .ok (true, n)
  | .custom allows, n => do return (← allows entry s, n)
/-- `And`: the first that denies decides. -/
def allOf : List Condition → ℕ → Except Err (Bool × ℕ)
  | [], n => .ok (true, n)
  | c :: cs, n => do
    let verdict ← c.allows n
    if verdict.1 then allOf cs verdict.2 else return verdict
/-- `Or`: the first that allows decides. -/
def anyOf : List Condition → ℕ → Except Err (Bool × ℕ)
  | [], n => .ok (false, n)
  | c :: cs, n => do
    let verdict ← c.allows n
    if verdict.1 then return verdict else anyOf cs verdict.2
end

end

/-! ### A fire and its bookkeeping -/

/-- What `fire` returns. -/
structure Result where
  fired : Bool
  noveltyKey : String
  budgetUsed : List (String × ℤ)

/-- `budget_used.get(f"per_{axis}", 1)`. -/
def Result.used (r : Result) (axis : Axis) : ℤ := (r.budgetUsed.lookup axis.budgetName).getD 1

/-- One binding in one dispatch: its callbacks as they answer now, what the clock says to its
    condition and in its bookkeeping, and what becomes of the write of `emit_reactivity_fired`. -/
structure Turn where
  id : String
  active : Bool
  predicate : Stores → Except Err (Bool × Option String)
  condition : Condition
  fire : Stores → Except Err Result
  now : ℕ → Instant
  firedAt : Instant
  write : Except Err Unit

section
variable (py : Interp) (company : UUID) (entry : Dict)

/-- The counters that a fire is charged to. -/
def chargedKeys (id : String) (day : ℤ) (owner domain : Option String) : List Counter :=
  (owner.toList.map fun key => (id, .owner, key, day)) ++
    (domain.toList.map fun key => (id, .domain, key, day)) ++ [(id, .tenant, company.str, day)]

/-- Each counter is incremented by what the result says for its axis. -/
def Stores.charge (s : Stores) (r : Result) (ks : List Counter) : Stores :=
  ks.foldl (fun s k => s.inc k (r.used k.2.1)) s

/-- The fire is recorded under its novelty key, unless that is empty. -/
def Stores.record (s : Stores) (id : String) (r : Result) (firedAt : Instant) : Stores :=
  if r.noveltyKey = "" then s
  else { s with lastFired := Function.update s.lastFired (id, r.noveltyKey) (some firedAt) }

/-- `_on_fire`: the increments, the novelty key and the write. What was stored before a raise stays. -/
def onFire (s : Stores) (t : Turn) (r : Result) : Except Err Unit × Stores :=
  match entryKey py company entry .owner, entryKey py company entry .domain with
  | .ok owner, .ok domain =>
    let s := (s.charge r (chargedKeys company t.id (dayOf t.firedAt) owner domain)).record t.id r t.firedAt
    match sourceSeq entry with
    | .ok _ => (t.write, s)
    | .error x => (.error x, s)
  | .error x, _ | _, .error x => (.error x, s)

/-- What `dispatch` does for one binding. -/
def Turn.run (s : Stores) (t : Turn) : Outcome × Stores :=
  if !t.active then (.inactive, s)
  else match t.predicate s with
    | .error _ => (.raised, s)
    | .ok (false, _) => (.noMatch, s)
    | .ok (true, noveltyKey) =>
      match t.condition.allows py company entry s ⟨t.id, noveltyKey, t.now⟩ 0 with
      | .error _ => (.raised, s)
      | .ok (false, _) => (.denied, s)
      | .ok (true, _) =>
        match t.fire s with
        | .error _ => (.raised, s)
        | .ok r =>
          if !r.fired then (.quiet, s)
          else match onFire py company entry s t r with
            | (.ok _, s) => (.fired, s)
            | (.error _, s) => (.fireLost, s)

/-- `dispatch`: what became of each binding that was reached, and the stores then. A raise of the
    bookkeeping leaves the loop. -/
def dispatch (s : Stores) : List Turn → List (String × Outcome) × Stores
  | [] => ([], s)
  | t :: ts =>
    let done := t.run py company entry s
    if done.1 = .fireLost then ([(t.id, done.1)], done.2)
    else
      let rest := dispatch done.2 ts
      ((t.id, done.1) :: rest.1, rest.2)

end

/-! ### What a turn can do -/

section
variable {py : Interp} {company : UUID} {entry : Dict} {s : Stores} {t : Turn} {r : Result}

/-- What the end of the bookkeeping makes of a fire. -/
def Outcome.ofBooks : Except Err Unit → Outcome
  | .ok _ => .fired
  | .error _ => .fireLost

/-- A turn leaves the stores as they are, or its predicate and its condition hold and it fires. -/
inductive Ran (py : Interp) (company : UUID) (entry : Dict) (s : Stores) (t : Turn) :
    Outcome × Stores → Prop
  | idle (o : Outcome) (hidle : o.acted = false) (hactive : o = .inactive ↔ t.active = false) :
      Ran py company entry s t (o, s)
  | fire (noveltyKey : Option String) (n : ℕ) (r : Result) (hactive : t.active = true)
      (hpredicate : t.predicate s = .ok (true, noveltyKey))
      (hallows : t.condition.allows py company entry s ⟨t.id, noveltyKey, t.now⟩ 0 = .ok (true, n))
      (hfire : t.fire s = .ok r) (hfired : r.fired = true) :
      Ran py company entry s t
        (Outcome.ofBooks (onFire py company entry s t r).1, (onFire py company entry s t r).2)

theorem ran (py : Interp) (company : UUID) (entry : Dict) (s : Stores) (t : Turn) :
    Ran py company entry s t (t.run py company entry s) := by
  unfold Turn.run
  cases hactive : t.active with
  | false => exact .idle _ rfl (by simp [hactive])
  | true =>
    simp only [Bool.not_true, Bool.false_eq_true, if_false]
    cases hpredicate : t.predicate s with
    | error x => exact .idle _ rfl (by simp [hactive])
    | ok found =>
      obtain ⟨matched, noveltyKey⟩ := found
      cases matched with
      | false => exact .idle _ rfl (by simp [hactive])
      | true =>
        simp only
        cases hallows : t.condition.allows py company entry s ⟨t.id, noveltyKey, t.now⟩ 0 with
        | error x => exact .idle _ rfl (by simp [hactive])
        | ok verdict =>
          obtain ⟨allowed, n⟩ := verdict
          cases allowed with
          | false => exact .idle _ rfl (by simp [hactive])
          | true =>
            simp only
            cases hfire : t.fire s with
            | error x => exact .idle _ rfl (by simp [hactive])
            | ok r =>
              simp only
              cases hfired : r.fired with
              | false => exact .idle _ rfl (by simp [hactive])
              | true =>
                have h := Ran.fire noveltyKey n r hactive hpredicate hallows hfire hfired
                simp only [Bool.not_true, Bool.false_eq_true, if_false]
                cases hbooks : onFire py company entry s t r with
                | mk done stores =>
                  rw [hbooks] at h
                  cases done <;> exact h

@[simp] theorem charges_charge : ∀ (ks : List Counter) (s : Stores),
    (s.charge r ks).charges = s.charges ++ ks
  | [], s => by simp [Stores.charge]
  | k :: ks, s => by
    have ih := charges_charge ks (s.inc k (r.used k.2.1))
    rw [Stores.charge, List.foldl_cons, ← Stores.charge, ih]
    simp [Stores.inc]

theorem budgets_charge (k : Counter) : ∀ (ks : List Counter) (s : Stores),
    (s.charge r ks).budgets k = s.budgets k + ks.count k * r.used k.2.1
  | [], s => by simp [Stores.charge]
  | k' :: ks, s => by
    have ih := budgets_charge k ks (s.inc k' (r.used k'.2.1))
    rw [Stores.charge, List.foldl_cons, ← Stores.charge, ih, List.count_cons]
    by_cases hk : k' = k
    · subst hk
      simp only [Stores.inc, Function.update_self, beq_self_eq_true, if_true]
      push_cast
      ring
    · simp [Stores.inc, Function.update_of_ne (Ne.symm hk), hk]

@[simp] theorem lastFired_charge : ∀ (ks : List Counter) (s : Stores),
    (s.charge r ks).lastFired = s.lastFired
  | [], _ => rfl
  | k :: ks, s => lastFired_charge ks (s.inc k (r.used k.2.1))

@[simp] theorem charges_record (id : String) (firedAt : Instant) : (s.record id r firedAt).charges = s.charges := by
  unfold Stores.record
  split <;> rfl

@[simp] theorem budgets_record (id : String) (firedAt : Instant) : (s.record id r firedAt).budgets = s.budgets := by
  unfold Stores.record
  split <;> rfl

/-- The bookkeeping of a fire charges the counters of the entry, if its args can be read. -/
inductive Booked (py : Interp) (company : UUID) (entry : Dict) (s : Stores) (t : Turn) (r : Result) :
    Except Err Unit × Stores → Prop
  | unread (x : Err) : Booked py company entry s t r (.error x, s)
  | charged (owner domain : Option String) (done : Except Err Unit)
      (howner : entryKey py company entry .owner = .ok owner)
      (hdomain : entryKey py company entry .domain = .ok domain) :
      Booked py company entry s t r (done,
        (s.charge r (chargedKeys company t.id (dayOf t.firedAt) owner domain)).record t.id r t.firedAt)

theorem booked : Booked py company entry s t r (onFire py company entry s t r) := by
  unfold onFire
  cases howner : entryKey py company entry .owner with
  | error x => exact .unread x
  | ok owner =>
    cases hdomain : entryKey py company entry .domain with
    | error x => exact .unread x
    | ok domain =>
      simp only
      cases sourceSeq entry with
      | ok seq => exact .charged owner domain t.write howner hdomain
      | error x => exact .charged owner domain (.error x) howner hdomain

end

end Reactivity.Registry
