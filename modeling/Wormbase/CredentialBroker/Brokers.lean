import Wormbase.Lib.Run
import Mathlib.Data.Int.Notation
import Mathlib.Data.Nat.Notation
import Mathlib.Logic.Function.Basic

/-! The two credential brokers: `env.py` keeps its tokens in two files, `vault.py` in a Vault that each broker process
    reads at its start and on a miss.

    Both keep a book of what their callers were told, which nothing in them reads. Ids come from `uuid4`, so no id is
    given twice or revoked before it is given. -/

namespace CredentialBroker

inductive Kind where
  | data
  | model
  deriving DecidableEq

/-- `DataScope` and `ModelScope`; the budget is the text of its `Decimal`. -/
inductive Scope where
  | data (resourceId : String) (rowFilter : Option String) (columnMask : List String)
  | model (modelKind budgetUsd : String) (maxTokensPerCall rateLimitRps : Option ℤ)

/-- `ScopedToken`, without the id it is kept under. -/
structure ScopedToken where
  issuedAt : ℤ
  expiresAt : ℤ
  scope : Scope
  kind : Kind

/-! ### The book -/

/-- The expiry of every token that may have been written, the ids that an issue returned, and those that a revoke
    returned for. -/
structure Book where
  expiry : String → Option ℤ
  issued : List String
  revoked : List String

def Book.empty : Book := ⟨fun _ => none, [], []⟩

/-- The id was never used. -/
def Book.Fresh (b : Book) (id : String) : Prop := b.expiry id = none ∧ id ∉ b.issued ∧ id ∉ b.revoked

instance (b : Book) (id : String) : Decidable (b.Fresh id) := inferInstanceAs (Decidable (b.expiry id = none ∧ id ∉ b.issued ∧ id ∉ b.revoked))

def Book.issue (b : Book) (id : String) (expiresAt : ℤ) : Book :=
  { b with expiry := Function.update b.expiry id (some expiresAt), issued := b.issued ++ [id] }

def Book.revoke (b : Book) (id : String) : Book := { b with revoked := b.revoked ++ [id] }

/-- What `is_valid` has to answer: no to a revoked token, and to a live one yes until it expires. -/
def Book.Right (b : Book) (now : ℤ) (id : String) (answer : Bool) : Prop :=
  (id ∈ b.revoked → answer = false) ∧
    (id ∈ b.issued → id ∉ b.revoked → (answer = true ↔ ∃ e, b.expiry id = some e ∧ now < e))

/-! ### `EnvCredentialBroker` -/

namespace Env

/-- `_tokens.json` and `_revoked.json`; a broker process keeps nothing of its own. -/
structure State where
  tokens : String → Option ℤ
  revoked : List String
  book : Book

inductive Action where
  | issue (id : String) (ttl now : ℤ)
  | isValid (id : String) (now : ℤ)
  | revoke (id : String)

def State.start : State := ⟨fun _ => none, [], .empty⟩

/-- `is_valid`. -/
def State.isValid (s : State) (id : String) (now : ℤ) : Bool :=
  if id ∈ s.revoked then false
  else match s.tokens id with
    | some expiresAt => now < expiresAt
    | none => false

def State.step (s : State) : Action → State
  | .issue id ttl now =>
    if s.book.Fresh id then
      { s with tokens := Function.update s.tokens id (some (now + ttl)), book := s.book.issue id (now + ttl) }
    else s
  | .isValid _ _ => s
  | .revoke id => { s with revoked := if id ∈ s.revoked then s.revoked else s.revoked ++ [id], book := s.book.revoke id }

end Env

/-! ### `VaultCredentialBroker` -/

namespace Vault

/-- A request to the Vault is done, done with its answer lost, or not done. -/
inductive Write where
  | done
  | lost
  | failed
  deriving DecidableEq

abbrev Store : Type := Kind → String → Option ScopedToken

/-- A broker process: `_revoked` and `_issued`. -/
structure Instance where
  revoked : List String
  issued : String → Option ScopedToken

structure State where
  store : Store
  instances : ℕ → Option Instance
  book : Book

inductive Action where
  | start (i : ℕ) (lists : Kind → Bool) (reads : Kind → String → Bool)
  | issue (i : ℕ) (kind : Kind) (id : String) (scope : Scope) (ttl now : ℤ) (write : Write)
  | isValid (i : ℕ) (id : String) (now : ℤ) (reads : Kind → Bool)
  | revoke (i : ℕ) (id : String) (deletes : Kind → Write)

def State.start : State := ⟨fun _ _ => none, fun _ => none, .empty⟩

/-- `_reload_issued_from_vault`: what cannot be listed or read is left out. -/
def reloadIssued (store : Store) (lists : Kind → Bool) (reads : Kind → String → Bool) (id : String) :
    Option ScopedToken :=
  let found (kind : Kind) := if lists kind && reads kind id then store kind id else none
  (found .model).or (found .data)

/-- `_lookup_in_vault`: an error counts as a miss. -/
def lookupInVault (store : Store) (reads : Kind → Bool) (id : String) : Option ScopedToken :=
  let found (kind : Kind) := if reads kind then store kind id else none
  (found .data).or (found .model)

/-- `is_valid`, with what the process keeps of it. -/
def Instance.isValid (inst : Instance) (store : Store) (id : String) (now : ℤ) (reads : Kind → Bool) :
    Bool × Instance :=
  if id ∈ inst.revoked then (false, inst)
  else match inst.issued id with
    | some token => (now < token.expiresAt, inst)
    | none =>
      match lookupInVault store reads id with
      | none => (false, inst)
      | some token => (now < token.expiresAt, { inst with issued := Function.update inst.issued id (some token) })

def put (store : Store) (kind : Kind) (id : String) (token : Option ScopedToken) : Store :=
  Function.update store kind (Function.update (store kind) id token)

/-- `delete_metadata_and_all_versions` under both kinds; errors are swallowed. -/
def delete (store : Store) (id : String) (deletes : Kind → Write) : Store := fun kind =>
  if deletes kind = .failed then store kind else Function.update (store kind) id none

def State.set (s : State) (i : ℕ) (inst : Instance) : State :=
  { s with instances := Function.update s.instances i (some inst) }

/-- `_issue`, `is_valid` and `revoke` of a process, and its start. -/
def State.step (s : State) : Action → State
  | .start i lists reads => s.set i ⟨[], reloadIssued s.store lists reads⟩
  | .issue i kind id scope ttl now write =>
    match s.instances i with
    | none => s
    | some inst =>
      let token : ScopedToken := ⟨now, now + ttl, scope, kind⟩
      if ¬ s.book.Fresh id then s
      else match write with
        | .failed => s
        -- the token is in the Vault, but the caller gets an exception
        | .lost => { s with
            store := put s.store kind id (some token)
            book := { s.book with expiry := Function.update s.book.expiry id (some token.expiresAt) } }
        | .done => { s.set i { inst with issued := Function.update inst.issued id (some token) } with
            store := put s.store kind id (some token)
            book := s.book.issue id token.expiresAt }
  | .isValid i id now reads =>
    match s.instances i with
    | none => s
    | some inst => s.set i (inst.isValid s.store id now reads).2
  | .revoke i id deletes =>
    match s.instances i with
    | none => s
    | some inst => { s.set i { inst with revoked := inst.revoked ++ [id] } with
        store := delete s.store id deletes
        book := s.book.revoke id }

end Vault

end CredentialBroker
