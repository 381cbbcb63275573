import Wormbase.CredentialBroker.Brokers

/-! Whether the brokers answer as their book says: for good after a revoke, and until the expiry before.

    The file broker always does. A Vault process remembers only the revokes it was asked for itself, answers from the
    tokens it has cached, and takes an error of the Vault for a missing token. -/

namespace CredentialBroker

/-! ### Files -/

namespace Env

/-- An answer is right; the other steps answer nothing. -/
def Answers (s : State) : Action → State → Prop
  | .isValid id now, _ => s.book.Right now id (s.isValid id now)
  | _, _ => True

/-- The files say what the book says. -/
structure Kept (s : State) : Prop where
  revoked : ∀ id, id ∈ s.revoked ↔ id ∈ s.book.revoked
  tokens : ∀ id, s.tokens id = s.book.expiry id

variable {s : State}

theorem Kept.step {a : Action} (h : Kept s) : Kept (s.step a) := by
  cases a with
  | isValid id now => exact h
  | issue id ttl now =>
    simp only [State.step]
    split
    · refine ⟨h.revoked, fun t => ?_⟩
      have htokens := h.tokens t
      rcases eq_or_ne t id with rfl | hne
      · simp [Book.issue]
      · simpa [Book.issue, hne] using htokens
    · exact h
  | revoke id =>
    refine ⟨fun t => ?_, h.tokens⟩
    have ht := h.revoked t
    by_cases hid : id ∈ s.revoked
    · have hbook : id ∈ s.book.revoked := (h.revoked id).mp hid
      simp only [State.step, if_pos hid, Book.revoke, List.mem_append, List.mem_singleton, ht]
      constructor
      · exact .inl
      · rintro (hold | rfl)
        · exact hold
        · exact hbook
    · simp only [State.step, if_neg hid, Book.revoke, List.mem_append, ht]

theorem Kept.answers (h : Kept s) (a : Action) (s' : State) : Answers s a s' := by
  cases a with
  | issue id ttl now => trivial
  | revoke id => trivial
  | isValid id now =>
    simp only [Answers, Book.Right, State.isValid, h.revoked, h.tokens]
    constructor
    · intro hrevoked
      rw [if_pos hrevoked]
    · intro _ hlive
      rw [if_neg hlive]
      cases s.book.expiry id with
      | none => simp
      | some e => simp

/-- Every answer of the file broker is right. -/
theorem answers_all : ∀ (actions : List Action) {s : State}, Kept s →
    Run.EachStep (fun s a => some (s.step a)) Answers s actions
  | [], _, _ => trivial
  | a :: actions, s, h => by
    intro s' hs'
    obtain rfl := Option.some.inj hs'
    exact ⟨h.answers a _, answers_all actions h.step⟩

theorem Kept.start : Kept .start := ⟨fun _ => Iff.rfl, fun _ => rfl⟩

end Env

/-! ### Vault -/

namespace Vault

/-- The token that a process answers by: the one it has, or the one it can read. -/
def Instance.known (inst : Instance) (store : Store) (reads : Kind → Bool) (id : String) : Option ScopedToken :=
  (inst.issued id).or (lookupInVault store reads id)

def Answers (s : State) : Action → State → Prop
  | .isValid i id now reads, _ => ∀ inst, s.instances i = some inst →
      s.book.Right now id (inst.isValid s.store id now reads).1
  | _, _ => True

/-- A revoked token is asked for where the process was asked to revoke it, or neither has it cached nor can read it; a
    live one where the process has it cached or can read it. An expired token may be asked for anywhere. -/
def Sound (s : State) : Action → Prop
  | .isValid i id now reads => ∀ inst, s.instances i = some inst → (∃ e, s.book.expiry id = some e ∧ now < e) →
      (id ∈ s.book.revoked → id ∈ inst.revoked ∨ inst.known s.store reads id = none) ∧
        (id ∈ s.book.issued → id ∉ s.book.revoked → inst.known s.store reads id ≠ none)
  | _ => True

/-- What the processes and the Vault have is in the book. -/
structure Kept (s : State) : Prop where
  store : ∀ kind id token, s.store kind id = some token → s.book.expiry id = some token.expiresAt
  cached : ∀ i inst, s.instances i = some inst → ∀ id token, inst.issued id = some token →
    s.book.expiry id = some token.expiresAt
  revoked : ∀ i inst, s.instances i = some inst → ∀ id ∈ inst.revoked, id ∈ s.book.revoked

variable {s : State}

theorem Kept.start : Kept .start := ⟨nofun, nofun, nofun⟩

theorem lookup_mem {store : Store} {reads : Kind → Bool} {id : String} {token : ScopedToken}
    (h : lookupInVault store reads id = some token) : ∃ kind, store kind id = some token := by
  simp only [lookupInVault, Option.or_eq_some_iff] at h
  rcases h with h | ⟨-, h⟩
  · split at h
    · exact ⟨_, h⟩
    · cases h
  · split at h
    · exact ⟨_, h⟩
    · cases h

theorem reload_mem {store : Store} {lists : Kind → Bool} {reads : Kind → String → Bool} {id : String}
    {token : ScopedToken} (h : reloadIssued store lists reads id = some token) :
    ∃ kind, store kind id = some token := by
  simp only [reloadIssued, Option.or_eq_some_iff] at h
  rcases h with h | ⟨-, h⟩
  · split at h
    · exact ⟨_, h⟩
    · cases h
  · split at h
    · exact ⟨_, h⟩
    · cases h

theorem Kept.known (h : Kept s) {i : ℕ} {inst : Instance} (hinst : s.instances i = some inst) {reads : Kind → Bool}
    {id : String} {token : ScopedToken} (hknown : inst.known s.store reads id = some token) :
    s.book.expiry id = some token.expiresAt := by
  rcases Option.or_eq_some_iff.mp hknown with hcached | ⟨-, hread⟩
  · exact h.cached i inst hinst id token hcached
  · obtain ⟨kind, hkind⟩ := lookup_mem hread
    exact h.store kind id token hkind

/-- The answer of a process: yes while the token it knows has not expired, unless it was asked to revoke it. -/
theorem isValid_iff {inst : Instance} {store : Store} {id : String} {now : ℤ} {reads : Kind → Bool} :
    (inst.isValid store id now reads).1 = true ↔
      id ∉ inst.revoked ∧ ∃ token, inst.known store reads id = some token ∧ now < token.expiresAt := by
  unfold Instance.isValid Instance.known
  split
  · rename_i hrevoked
    simp [hrevoked]
  · rename_i hlive
    cases inst.issued id with
    | some token => simp [hlive]
    | none =>
      cases lookupInVault store reads id with
      | none => simp
      | some token => simp [hlive]

/-- By the book: the process was not asked to revoke the token, knows it, and it has not expired. -/
theorem Kept.isValid_iff (h : Kept s) {i : ℕ} {inst : Instance} (hinst : s.instances i = some inst) {id : String}
    {now : ℤ} {reads : Kind → Bool} : (inst.isValid s.store id now reads).1 = true ↔
      id ∉ inst.revoked ∧ inst.known s.store reads id ≠ none ∧ ∃ e, s.book.expiry id = some e ∧ now < e := by
  rw [Vault.isValid_iff]
  refine and_congr_right fun _ => ?_
  constructor
  · rintro ⟨token, hknown, hlater⟩
    exact ⟨by simp [hknown], token.expiresAt, h.known hinst hknown, hlater⟩
  · rintro ⟨hknown, e, hexpiry, hlater⟩
    obtain ⟨token, htoken⟩ := Option.ne_none_iff_exists'.mp hknown
    obtain rfl := Option.some.inj (hexpiry.symm.trans (h.known hinst htoken))
    exact ⟨token, htoken, hlater⟩

theorem answers_iff (h : Kept s) (a : Action) (s' : State) : Answers s a s' ↔ Sound s a := by
  cases a with
  | start i lists reads => exact Iff.rfl
  | issue i kind id scope ttl now write => exact Iff.rfl
  | revoke i id deletes => exact Iff.rfl
  | isValid i id now reads =>
    refine forall_congr' fun inst => forall_congr' fun hinst => ?_
    have hanswer := @Kept.isValid_iff s h i inst hinst id now reads
    have hown : id ∈ inst.revoked → id ∈ s.book.revoked := h.revoked i inst hinst id
    rw [Book.Right, ← Bool.not_eq_true, hanswer]
    by_cases hlive : ∃ e, s.book.expiry id = some e ∧ now < e
    · simp only [hlive, and_true, forall_const, iff_true]
      refine and_congr (imp_congr_right fun _ => ?_) (imp_congr_right fun _ => imp_congr_right fun hnot => ?_)
      · rw [not_and_or, not_not, not_not]
      · exact and_iff_right fun hrevoked => hnot (hown hrevoked)
    · simp [hlive]

/-! ### Steps -/

theorem Kept.set (h : Kept s) {i : ℕ} {inst : Instance}
    (hcached : ∀ id token, inst.issued id = some token → s.book.expiry id = some token.expiresAt)
    (hrevoked : ∀ id ∈ inst.revoked, id ∈ s.book.revoked) : Kept (s.set i inst) := by
  refine ⟨h.store, ?_, ?_⟩
  · intro j other hother
    rcases eq_or_ne j i with rfl | hne
    · obtain rfl : inst = other := by simpa [State.set] using hother
      exact hcached
    · exact h.cached j other (by simpa [State.set, hne] using hother)
  · intro j other hother
    rcases eq_or_ne j i with rfl | hne
    · obtain rfl : inst = other := by simpa [State.set] using hother
      exact hrevoked
    · exact h.revoked j other (by simpa [State.set, hne] using hother)

/-- Writing a token of a fresh id disturbs no other token. -/
theorem Kept.write (h : Kept s) {kind : Kind} {id : String} {token : ScopedToken} {issued : List String}
    (hfresh : s.book.Fresh id) : Kept { s with
      store := put s.store kind id (some token)
      book := { s.book with expiry := Function.update s.book.expiry id (some token.expiresAt), issued } } := by
  have hold : ∀ t e, s.book.expiry t = some e →
      Function.update s.book.expiry id (some token.expiresAt) t = some e := by
    intro t e ht
    rcases eq_or_ne t id with rfl | hne
    · rw [hfresh.1] at ht
      cases ht
    · simpa [hne] using ht
  refine ⟨?_, fun i inst hinst t other ht => hold t _ (h.cached i inst hinst t other ht), h.revoked⟩
  intro other t found hfound
  rcases eq_or_ne t id with rfl | hne
  · by_cases hkind : other = kind
    · subst hkind
      obtain rfl : token = found := by simpa [put] using hfound
      simp
    · have hstore := h.store other t found (by simpa [put, hkind] using hfound)
      rw [hfresh.1] at hstore
      cases hstore
  · by_cases hkind : other = kind
    · subst hkind
      exact hold t _ (h.store other t found (by simpa [put, hne] using hfound))
    · exact hold t _ (h.store other t found (by simpa [put, hkind] using hfound))

theorem delete_mem {store : Store} {id t : String} {deletes : Kind → Write} {kind : Kind} {token : ScopedToken}
    (h : delete store id deletes kind t = some token) : store kind t = some token := by
  unfold delete at h
  split at h
  · exact h
  · rcases eq_or_ne t id with rfl | hne
    · simp at h
    · simpa [hne] using h

theorem Kept.revoke (h : Kept s) {id : String} {deletes : Kind → Write} :
    Kept { s with store := delete s.store id deletes, book := s.book.revoke id } :=
  ⟨fun kind t token ht => h.store kind t token (delete_mem ht), h.cached, fun i inst hinst t ht =>
    List.mem_append_left _ (h.revoked i inst hinst t ht)⟩

theorem isValid_revoked {inst : Instance} {store : Store} {id : String} {now : ℤ} {reads : Kind → Bool} :
    inst.revoked = (inst.isValid store id now reads).2.revoked := by
  unfold Instance.isValid
  split
  · rfl
  · split
    · rfl
    · split <;> rfl

/-- The token asked for is the only one that may be cached anew. -/
theorem isValid_cached {inst : Instance} {store : Store} {id t : String} {now : ℤ} {reads : Kind → Bool}
    {token : ScopedToken} (h : (inst.isValid store id now reads).2.issued t = some token) :
    inst.issued t = some token ∨ t = id ∧ lookupInVault store reads t = some token := by
  unfold Instance.isValid at h
  split at h
  · exact .inl h
  · split at h
    · exact .inl h
    · split at h
      · exact .inl h
      · rename_i found hfound
        rcases eq_or_ne t id with rfl | hne
        · obtain rfl : found = token := by simpa using h
          exact .inr ⟨rfl, hfound⟩
        · exact .inl (by simpa [hne] using h)

theorem Kept.step (h : Kept s) (a : Action) : Kept (s.step a) := by
  cases a with
  | start i lists reads =>
    refine h.set ?_ (fun _ hmem => absurd hmem List.not_mem_nil)
    intro id token hreload
    obtain ⟨kind, hkind⟩ := reload_mem hreload
    exact h.store kind id token hkind
  | isValid i id now reads =>
    simp only [State.step]
    split
    · exact h
    · rename_i inst hinst
      refine h.set ?_ (isValid_revoked ▸ h.revoked i inst hinst)
      intro t token hcached
      rcases isValid_cached hcached with hold | ⟨rfl, hread⟩
      · exact h.cached i inst hinst t token hold
      · obtain ⟨kind, hkind⟩ := lookup_mem hread
        exact h.store kind t token hkind
  | issue i kind id scope ttl now write =>
    simp only [State.step]
    split
    · exact h
    · rename_i inst hinst
      split
      · exact h
      · rename_i hfresh
        rw [not_not] at hfresh
        cases write with
        | failed => exact h
        | lost => exact h.write hfresh
        | done =>
          refine (h.write hfresh).set ?_ (h.revoked i inst hinst)
          intro t token hcached
          rcases eq_or_ne t id with rfl | hne
          · obtain rfl : _ = token := by simpa using hcached
            simp
          · simpa [Book.issue, hne] using h.cached i inst hinst t token (by simpa [hne] using hcached)
  | revoke i id deletes =>
    simp only [State.step]
    split
    · exact h
    · rename_i inst hinst
      refine h.revoke.set (h.cached i inst hinst) ?_
      intro t ht
      simp only [List.mem_append, List.mem_singleton, Book.revoke] at ht ⊢
      exact ht.imp_left (h.revoked i inst hinst t)

end Vault

/-- Every answer of the file broker is right in every run; those of Vault processes are right in a run exactly if the
    processes are asked in a sound way. -/
theorem revocation_final_iff (files : List Env.Action) (actions : List Vault.Action) :
    Run.EachStep (fun s a => some (s.step a)) Env.Answers .start files ∧
      (Run.EachStep (fun s a => some (s.step a)) Vault.Answers .start actions ↔
        Run.Guarded (fun s a => some (s.step a)) Vault.Sound .start actions) := by
  refine ⟨Env.answers_all files .start, ?_⟩
  refine Run.eachStep_iff_guarded ?_ (fun _ _ _ _ => trivial) (fun s a => ⟨s.step a, rfl⟩) ?_ Vault.Kept.start
    (trivial : True)
  · intro s a s' hkept hstep
    exact Option.some.inj hstep ▸ hkept.step a
  · intro s a s' hkept _ _
    exact Vault.answers_iff hkept a s'

/-- A second process has the token cached and still takes it after the first has revoked it. -/
theorem revoked_token_still_valid : ¬ ∀ actions : List Vault.Action,
    Run.EachStep (fun s a => some (s.step a)) Vault.Answers .start actions := by
  intro hall
  have hrun := hall [.start 0 (fun _ => true) (fun _ _ => true),
    .issue 0 .data "t" (.data "orders" none []) 60 0 .done, .start 1 (fun _ => true) (fun _ _ => true),
    .revoke 0 "t" (fun _ => .done), .isValid 1 "t" 1 (fun _ => true)]
  have hlast := ((((hrun _ rfl).2 _ rfl).2 _ rfl).2 _ rfl).2 _ rfl
  have hright := (hlast.1 _ rfl).1 (by decide)
  revert hright
  decide

end CredentialBroker
