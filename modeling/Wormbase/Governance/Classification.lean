import Wormbase.Py.Coerce

/-! `ClassificationGate`: a call is refused when the resource it names is classified above the
    ceiling of the agent.

    The lookup of classifications is the caller's; it may raise. -/

namespace Governance
open Py

/-- The levels, from the most open one on. -/
def classificationRank : List (String × ℕ) :=
  [("public", 0), ("internal", 1), ("confidential", 2), ("pii", 3), ("regulated", 4)]

/-- The rank of "internal", which unknown labels have as well. -/
def softDefault : ℕ := 1

/-- `_rank`. -/
def rank : Option String → ℕ
  | none => softDefault
  | some c => (classificationRank.lookup c).getD softDefault

structure GateDenial where
  reason : String
  gateName : String
  suggestedFix : Option String
  deriving DecidableEq

/-- `repr` of a label or `None`. -/
def labelRepr (py : Interp) : Option String → String
  | none => "None"
  | some c => String.ofList (reprStr py c)

def denial (py : Interp) (classification : String) (ceiling : Option String) : GateDenial where
  reason := "resource classification " ++ labelRepr py (some classification) ++
    " exceeds agent ceiling " ++ labelRepr py ceiling
  gateName := "classification"
  suggestedFix := some
    "raise the agent's classification_ceiling grant, or query a lower-classification view"

/-- `(args.get("filter") or {}).get("resource_id")`. -/
def filterResource (args : Dict) : Except Err Val :=
  match (args.get "filter").or (.dict []) with
  | .dict filter => .ok (Dict.get filter "resource_id")
  | v => .error (attributeError s!"'{v.typeName}' object has no attribute 'get'")

/-- The resource id that the gate reads from the args. -/
def candidate (args : Dict) : Except Err Val :=
  if (args.get "resource_id").truthy then .ok (args.get "resource_id")
  else if (args.get "source_id").truthy then .ok (args.get "source_id")
  else filterResource args

abbrev Lookup := Val → Except Err (Option String)

/-- `ClassificationGate.check`. -/
def check (py : Interp) (lookup : Option Lookup) (ceiling : Option String) (args : Dict) :
    Except Err (Option GateDenial) := do
  let candidate ← candidate args
  match candidate.truthy, lookup with
  | true, some lookup =>
    match ← lookup candidate with
    | none => return none
    | some classification =>
      if rank ceiling < rank (some classification) then return some (denial py classification ceiling)
      else return none
  | _, _ => return none

/-! ### The resources that a call names -/

/-- The resources named by the args, in the order of the places. A filter that cannot be read names
    none. -/
def references (args : Dict) : List Val :=
  [args.get "resource_id", args.get "source_id", (filterResource args).toOption.getD .none].filter
    Val.truthy

/-- The table has the resource above the ceiling. -/
def OverCeiling (lookup : Lookup) (ceiling : Option String) (r : Val) : Prop :=
  ∃ c, lookup r = .ok (some c) ∧ rank ceiling < rank (some c)

def Denies (py : Interp) (lookup : Option Lookup) (ceiling : Option String) (args : Dict) : Prop :=
  ∃ d, check py lookup ceiling args = .ok (some d)

section
variable {py : Interp} {lookup : Lookup} {ceiling : Option String} {args : Dict}

/-- The candidate is the first resource that is named. -/
theorem candidate_eq_first {r : Val} : (candidate args = .ok r ∧ r.truthy = true) ↔
    (references args).head? = some r := by
  simp only [references, List.filter_cons, List.filter_nil, candidate]
  split
  · rename_i hres
    simp only [List.head?_cons, Except.ok.injEq, Option.some.injEq]
    constructor
    · exact fun h => h.1
    · rintro rfl
      exact ⟨rfl, hres⟩
  · split
    · rename_i hsrc
      simp only [List.head?_cons, Except.ok.injEq, Option.some.injEq]
      constructor
      · exact fun h => h.1
      · rintro rfl
        exact ⟨rfl, hsrc⟩
    · cases filterResource args with
      | error x => simp [Except.toOption, Val.truthy]
      | ok v =>
        simp only [Except.toOption, Option.getD_some, Except.ok.injEq]
        by_cases hfilter : v.truthy = true
        · simp only [hfilter, if_true, List.head?_cons, Option.some.injEq]
          constructor
          · exact fun h => h.1
          · rintro rfl
            exact ⟨rfl, hfilter⟩
        · simp only [hfilter, if_false, List.head?_nil, reduceCtorEq, iff_false, not_and,
            Bool.false_eq_true]
          rintro rfl
          exact hfilter

theorem denies_iff_candidate : Denies py (some lookup) ceiling args ↔
    ∃ r, (candidate args = .ok r ∧ r.truthy = true) ∧ OverCeiling lookup ceiling r := by
  constructor
  · rintro ⟨d, h⟩
    obtain ⟨r, hr, h⟩ := bind_eq_ok.mp h
    split at h
    · rename_i f htruthy hf
      obtain rfl := Option.some.inj hf
      obtain ⟨o, ho, h⟩ := bind_eq_ok.mp h
      cases o with
      | none => cases h
      | some c =>
        simp only at h
        split at h
        · rename_i hrank
          exact ⟨r, ⟨hr, htruthy⟩, c, ho, hrank⟩
        · cases h
    · cases h
  · rintro ⟨r, ⟨hr, htruthy⟩, c, hc, hrank⟩
    refine ⟨denial py c ceiling, ?_⟩
    simp only [check, hr, htruthy, hc, hrank, bind, Except.bind, if_true]
    rfl

/-- A gate without a lookup lets every call pass. -/
theorem not_denies_none : ¬Denies py none ceiling args := by
  rintro ⟨d, h⟩
  obtain ⟨r, -, h⟩ := bind_eq_ok.mp h
  split at h
  · rename_i hnone
    cases hnone
  · cases h

/-- A lower ceiling refuses all that a higher one does. -/
theorem Denies.lower {low : Option String} (h : Denies py (some lookup) ceiling args)
    (hlow : rank low ≤ rank ceiling) : Denies py (some lookup) low args := by
  obtain ⟨r, hr, c, hc, hrank⟩ := denies_iff_candidate.mp h
  exact denies_iff_candidate.mpr ⟨r, hr, c, hc, hlow.trans_lt hrank⟩

end

/-- The gate refuses exactly where the first resource that is named is over the ceiling, so it does
    where all places that name one name the same. -/
theorem denies_iff_first (py : Interp) (lookup : Option Lookup) (ceiling : Option String) (args : Dict) :
    (Denies py lookup ceiling args ↔ ∃ f r, lookup = some f ∧ (references args).head? = some r ∧
      OverCeiling f ceiling r) ∧
    ∀ f r, lookup = some f → r ∈ references args → (∀ s ∈ references args, s = r) →
      OverCeiling f ceiling r → Denies py lookup ceiling args := by
  have hiff : Denies py lookup ceiling args ↔ ∃ f r, lookup = some f ∧
      (references args).head? = some r ∧ OverCeiling f ceiling r := by
    cases lookup with
    | none =>
      constructor
      · exact fun h => absurd h not_denies_none
      · rintro ⟨f, r, h, -⟩
        cases h
    | some f =>
      rw [denies_iff_candidate]
      constructor
      · rintro ⟨r, hr, hover⟩
        exact ⟨f, r, rfl, candidate_eq_first.mp hr, hover⟩
      · rintro ⟨f', r, hf, hr, hover⟩
        obtain rfl := Option.some.inj hf
        exact ⟨r, candidate_eq_first.mpr hr, hover⟩
  refine ⟨hiff, fun f r hf hr hsame hover => hiff.mpr ⟨f, r, hf, ?_, hover⟩⟩
  obtain ⟨s, hs⟩ := List.isSome_head?.mpr (List.ne_nil_of_mem hr) |> Option.isSome_iff_exists.mp
  rw [hs, hsame s (List.mem_of_head? hs)]

/-! ### Two resources, and a label that is not known -/

def sampleTable : Lookup
  | .str "open" => .ok (some "public")
  | .str "closed" => .ok (some "regulated")
  | .str "odd" => .ok (some "top_secret")
  | _ => .ok none

theorem closed_denied :
    Denies .plain (some sampleTable) (some "internal") [(.str "resource_id", .str "closed")] := by
  refine (denies_iff_first .plain (some sampleTable) (some "internal")
    [(.str "resource_id", .str "closed")]).2 sampleTable (.str "closed") rfl (.head _) ?_
    ⟨"regulated", rfl, by decide⟩
  intro s hs
  exact List.mem_singleton.mp hs

/-- The second resource is not looked at, and a label that is not known passes as internal. -/
theorem check_misses : ¬(∀ ceiling args r, r ∈ references args → OverCeiling sampleTable ceiling r →
      Denies .plain (some sampleTable) ceiling args) ∧
    ¬Denies .plain (some sampleTable) (some "internal") [(.str "resource_id", .str "odd")] := by
  constructor
  · intro h
    have hdenied := h (some "internal") [(.str "resource_id", .str "open"), (.str "source_id", .str "closed")]
      (.str "closed") (.tail _ (.head _)) ⟨"regulated", rfl, by decide⟩
    obtain ⟨d, hd⟩ := hdenied
    cases hd
  · rintro ⟨d, hd⟩
    cases hd

end Governance
