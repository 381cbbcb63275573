import Wormbase.Lib.Run
import Wormbase.Py.Coerce
import Mathlib.Logic.Function.Basic

/-! `CachedRouter`: two backends behind a cache that is kept over all calls.

    What a backend answers is a parameter, and so is the type of the answers: with the pair of the backend and what it
    was asked as its answer, the cache shows where each entry comes from. -/

namespace InferenceRouter
open Py

inductive CallType where
  | reasoning
  | affirm
  | classify
  | summarize
  | voiceTurn
  | agentToolReasoning
  | embedQuery
  | generic

inductive Backend where
  | kimi
  | gemma
  deriving DecidableEq

inductive BackendHint where
  | kimi
  | gemma
  | auto

inductive ServedBy where
  | kimi
  | gemma
  | cache
  deriving DecidableEq

structure RouteRequest where
  callType : CallType
  messages : List (String × String) := []
  system : Option String := none
  backendHint : BackendHint := .auto
  temperature : PyFloat := .finite false 0
  maxTokens : Option ℤ := none
  extra : List (String × String) := []

structure RouteResponse (τ : Type) where
  text : τ
  servedBy : ServedBy
  isFallback : Bool
  cacheKey : String
  model : String

/-- `messages_as_dicts`, each message as its role and content. -/
def RouteRequest.messagesAsDicts (r : RouteRequest) : List (String × String) :=
  match r.system with
  | some text => if text = "" then r.messages else ("system", text) :: r.messages
  | none => r.messages

/-- What a backend is given: `chat(messages, temperature=…, max_tokens=…)`. -/
structure Ask where
  messages : List (String × String)
  temperature : PyFloat
  maxTokens : Option ℤ
  deriving DecidableEq

def RouteRequest.ask (r : RouteRequest) : Ask := ⟨r.messagesAsDicts, r.temperature, r.maxTokens⟩

/-! ### The cache -/

/-- `round(x, 6)`. -/
def round6 : PyFloat → PyFloat
  | .finite neg q => .finite neg ((PyFloat.toDouble (PyFloat.roundHalfEven (q * 10 ^ 6) / 10 ^ 6)).getD q)
  | x => x

/-- `make_cache_key`. -/
def makeCacheKey (py : Interp) (model : String) (messages : List (String × String)) (temperature : PyFloat)
    (extra : List (String × String)) : String :=
  let payload : Val := .dict [
    (.str "model", .str model),
    (.str "messages", .list (messages.map fun m => .dict [(.str "role", .str m.1), (.str "content", .str m.2)])),
    (.str "temperature", .float (round6 temperature)),
    (.str "extra", .dict (extra.foldl (fun (d : Dict) e => Dict.set d e.1 (.str e.2)) []))]
  String.ofList (hex (py.sha256 (encodeUtf8 (render (treeOf payload)))))

/-- `NullInferenceCache` and the rows of `SqliteInferenceCache`. -/
inductive Cache (τ : Type) where
  | null
  | sqlite (rows : String → Option τ)

section
variable {τ : Type}

def Cache.get : Cache τ → String → Option τ
  | .null, _ => none
  | .sqlite rows, key => rows key

def Cache.put : Cache τ → String → τ → Cache τ
  | .null, _, _ => .null
  | .sqlite rows, key, text => .sqlite (Function.update rows key (some text))

def Cache.invalidateAll : Cache τ → Cache τ
  | .null => .null
  | .sqlite _ => .sqlite fun _ => none

end

/-! ### The router -/

def defaultBackend : CallType → Option Backend
  | .reasoning | .affirm | .voiceTurn | .agentToolReasoning => some .kimi
  | .classify | .summarize | .embedQuery => some .gemma
  | .generic => none

/-- `_resolve_backend`; nothing for its `ValueError`. -/
def resolveBackend (r : RouteRequest) : Option Backend :=
  match r.backendHint with
  | .kimi => some .kimi
  | .gemma => some .gemma
  | .auto => defaultBackend r.callType

def Backend.other : Backend → Backend
  | .kimi => .gemma
  | .gemma => .kimi

def Backend.servedBy : Backend → ServedBy
  | .kimi => .kimi
  | .gemma => .gemma

/-- The router as it is set up: the models of its clients, whether it writes to a ledger and for which company. -/
structure CachedRouter where
  model : Backend → String
  ledger : Bool
  companyId : Option UUID
  cacheOnly : Bool

/-- How a call goes outside the router: which backends fail, and whether the ledger takes the audit row. -/
structure World where
  fails : Backend → Bool
  audited : Bool

def valueError : Err := ⟨"ValueError", "inference-router"⟩
def cacheMissError : Err := ⟨"CacheMissError", "cache_only=True and no cached response"⟩
def inferenceError : Err := ⟨"InferenceError", "backend failed"⟩
def ledgerError : Err := ⟨"LedgerError", "inference-router: ledger write failed"⟩

section
variable {τ : Type} (py : Interp) (c : CachedRouter) (answer : Backend → Ask → τ)

/-- `_emit_inference_served`: the response, unless its audit row cannot be written. -/
def emit (w : World) (response : RouteResponse τ) : Except Err (RouteResponse τ) :=
  if !c.ledger then .ok response
  else if c.companyId = none then .error valueError
  else if w.audited then .ok response
  else .error ledgerError

/-- The key of a request whose backend is chosen. -/
def keyOf (backend : Backend) (r : RouteRequest) : String :=
  makeCacheKey py (c.model backend) r.messagesAsDicts r.temperature r.extra

/-- A fresh answer: it is cached under the key of the chosen backend, whoever gave it. -/
def fresh (w : World) (cache : Cache τ) (r : RouteRequest) (key : String) (served : Backend) (isFallback : Bool) :
    Except Err (RouteResponse τ) × Cache τ :=
  let text := answer served r.ask
  (emit c w ⟨text, served.servedBy, isFallback, key, c.model served⟩, cache.put key text)

/-- `CachedRouter.call`. -/
def call (w : World) (cache : Cache τ) (r : RouteRequest) : Except Err (RouteResponse τ) × Cache τ :=
  match resolveBackend r with
  | none => (.error valueError, cache)
  | some backend =>
    let key := keyOf py c backend r
    match cache.get key with
    | some hit => (emit c w ⟨hit, .cache, false, key, c.model backend⟩, cache)
    | none =>
      if c.cacheOnly then (.error cacheMissError, cache)
      else if !w.fails backend then fresh c answer w cache r key backend false
      else if !w.fails backend.other then fresh c answer w cache r key backend.other true
      else (.error inferenceError, cache)

/-- The cache, and the requests that were answered. -/
structure State (τ : Type) where
  cache : Cache τ
  log : List (RouteRequest × RouteResponse τ)

inductive Action where
  | call (r : RouteRequest) (w : World)
  | invalidateAll

def State.step (s : State τ) : Action → Option (State τ)
  | .call r w =>
    let (result, cache) := call py c answer w s.cache r
    match result with
    | .ok response => some ⟨cache, s.log ++ [(r, response)]⟩
    | .error _ => some ⟨cache, s.log⟩
  | .invalidateAll => some ⟨s.cache.invalidateAll, s.log⟩

end

end InferenceRouter
