import Wormbase.ChannelAdapters.RateLimit

/-! `with_whatsapp_rate_limit`: a send takes one token of its bucket, then `ExponentialBackoff`
    invokes it, again after each rate limit error as long as there are retries left.

    Wrapped functions of one rate share a limiter, those of different rates have none in common. -/

namespace ChannelAdapters.WhatsappSend
open TokenBucket (within)

/-! ### Calls of wrapped functions -/

/-- Where a call stands: before its token, in the wrapped function, in the sleep after a rate limit
    error, or over. -/
inductive Phase where
  | waiting
  | sending (attempt : ℕ)
  | sleeping (attempt : ℕ)
  | over

/-- A call of a function that was wrapped with `max_retries`, when it invoked the function, and how
    many rate limit errors it met. -/
structure Send where
  key : String
  maxRetries : ℕ
  phase : Phase
  invoked : List ℚ
  limitErrors : ℕ

/-- The limiter, the throttle sessions with the keys whose throttling was put on record, and the
    calls. The calls of the limiter are the same ones, in the same places. -/
structure State where
  limiter : ChannelAdapters.State
  clock : ℚ
  throttleSessions : List String
  policiesApplied : List String
  sends : List Send

/-- How an invocation ends: it returns, raises `RateLimitedError` or raises something else. -/
inductive Outcome where
  | returned
  | rateLimited
  | raised

inductive Event where
  | call (key : String) (maxRetries : ℕ) (maxWaitS : Option ℚ) (now now' : ℚ)
  | attempt (i : ℕ) (now : ℚ)
  | pause (i : ℕ) (now : ℚ)
  | settle (i : ℕ) (r : Outcome)
  | retry (i : ℕ) (now : ℚ)
  | cancel (i : ℕ)

/-- The wrapped function of a call is invoked. -/
def Send.invoke (c : Send) (attempt : ℕ) (now : ℚ) : Send :=
  { c with phase := .sending attempt, invoked := c.invoked ++ [now] }

/-- What becomes of a call when an invocation ends. -/
def Send.settle (c : Send) (attempt : ℕ) : Outcome → Send
  | .returned | .raised => { c with phase := .over }
  | .rateLimited => { c with
      limitErrors := c.limitErrors + 1
      phase := if attempt < c.maxRetries then .sleeping attempt else .over }

/-- `_mark_throttle_session` and the policy entry of a new session. -/
def State.markThrottle (s : State) (key : String) : State :=
  if key ∈ s.throttleSessions then s
  else { s with
    throttleSessions := s.throttleSessions ++ [key]
    policiesApplied := s.policiesApplied ++ [key] }

/-- `_clear_throttle_session` where an invocation returned, `_on_exhausted` where the last retry met
    a rate limit error. -/
def State.sessions (s : State) (c : Send) (attempt : ℕ) : Outcome → State
  | .returned => { s with throttleSessions := s.throttleSessions.filter (· ≠ c.key) }
  | .rateLimited => if attempt < c.maxRetries then s else s.markThrottle c.key
  | .raised => s

/-- One step of a call. A call that gets its token invokes the wrapped function at once; how long a
    call sleeps before a retry is left open. -/
def step (s : State) : Event → Option State
  | .call key maxRetries maxWaitS now now' =>
    if now < s.clock then none
    else (ChannelAdapters.step s.limiter (.acquire key maxWaitS now now')).map fun limiter =>
      { s with limiter, clock := now', sends := s.sends ++ [⟨key, maxRetries, .waiting, [], 0⟩] }
  | .attempt i now =>
    if now < s.clock then none
    else match ChannelAdapters.step s.limiter (.attempt i now), s.sends[i]? with
      | some limiter, some c =>
        let accepted := limiter.calls[i]?.any fun call => call.phase = .accepted
        let sends := if accepted then s.sends.set i (c.invoke 0 now) else s.sends
        some { s with limiter, clock := now, sends }
      | _, _ => none
  | .pause i now =>
    if now < s.clock then none
    else (ChannelAdapters.step s.limiter (.pause i now)).map fun limiter =>
      { s with limiter, clock := now }
  | .settle i r =>
    match s.sends[i]? with
    | some c =>
      match c.phase with
      | .sending attempt => some { s.sessions c attempt r with sends := s.sends.set i (c.settle attempt r) }
      | _ => none
    | none => none
  | .retry i now =>
    if now < s.clock then none
    else match s.sends[i]? with
      | some c =>
        match c.phase with
        | .sleeping attempt =>
          some { s with clock := now, sends := s.sends.set i (c.invoke (attempt + 1) now) }
        | _ => none
      | none => none
  | .cancel i =>
    match s.sends[i]? with
    | some c =>
      match c.phase with
      | .waiting => (ChannelAdapters.step s.limiter (.cancel i)).map fun limiter => { s with limiter }
      | .sending _ | .sleeping _ => some { s with sends := s.sends.set i { c with phase := .over } }
      | .over => none
    | none => none

/-- Before any call. -/
def State.start (rate : RatePerMin) (clock : ℚ) : State := ⟨.start rate clock, clock, [], [], []⟩

/-! ### What is counted -/

/-- The first invocation of a call of the key is in the interval. -/
def Send.firstIn (key : String) (a b : ℚ) (c : Send) : Bool :=
  c.key = key ∧ c.invoked.head?.any fun t => a ≤ t ∧ t ≤ b

/-- How many calls of a key first invoke the wrapped function within an interval. -/
def State.firstWithin (s : State) (key : String) (a b : ℚ) : ℕ := s.sends.countP (Send.firstIn key a b)

/-- How often calls of a key invoke the wrapped function within an interval. -/
def State.invokedWithin (s : State) (key : String) (a b : ℚ) : ℕ :=
  ((s.sends.filter (·.key = key)).map fun c => within a b c.invoked).sum

/-- How often the calls invoke it, at any time, whose first invocation is within an interval. -/
def State.invokedByFirst (s : State) (key : String) (a b : ℚ) : ℕ :=
  ((s.sends.filter (Send.firstIn key a b)).map fun c => c.invoked.length).sum

/-- The keys of the calls of a run. -/
def keysOf (es : List Event) : Finset String :=
  (es.filterMap fun
    | .call key _ _ _ _ => some key
    | _ => none).toFinset

/-! ### One call -/

/-- Each invocation after the first one follows a rate limit error, and there are retries for it. -/
def Send.Fits (c : Send) : Prop :=
  match c.phase with
  | .waiting => c.invoked = [] ∧ c.limitErrors = 0
  | .sending attempt => c.invoked.length = attempt + 1 ∧ c.limitErrors = attempt ∧ attempt ≤ c.maxRetries
  | .sleeping attempt =>
    c.invoked.length = attempt + 1 ∧ c.limitErrors = attempt + 1 ∧ attempt < c.maxRetries
  | .over => c.invoked.length ≤ c.maxRetries + 1 ∧ c.invoked.length ≤ c.limitErrors + 1

theorem Send.Fits.bounds {c : Send} (h : c.Fits) :
    c.invoked.length ≤ c.maxRetries + 1 ∧ c.invoked.length ≤ c.limitErrors + 1 := by
  unfold Fits at h
  split at h
  · rw [h.1]
    exact ⟨Nat.zero_le _, Nat.zero_le _⟩
  · omega
  · omega
  · exact h

theorem Send.Fits.first {c : Send} (h : c.Fits) (hphase : c.phase = .waiting) (now : ℚ) :
    (c.invoke 0 now).Fits ∧ c.invoked = [] ∧ (c.invoke 0 now).invoked = [now] := by
  rw [Fits, hphase] at h
  refine ⟨⟨?_, h.2, Nat.zero_le _⟩, h.1, ?_⟩
  · simp [invoke, h.1]
  · simp [invoke, h.1]

theorem Send.Fits.again {c : Send} {attempt : ℕ} (h : c.Fits) (hphase : c.phase = .sleeping attempt)
    (now : ℚ) : (c.invoke (attempt + 1) now).Fits := by
  rw [Fits, hphase] at h
  obtain ⟨hlen, herrors, hleft⟩ := h
  refine ⟨?_, herrors, hleft⟩
  simp [invoke, hlen]

theorem Send.Fits.settle {c : Send} {attempt : ℕ} (h : c.Fits) (hphase : c.phase = .sending attempt)
    (r : Outcome) : (c.settle attempt r).Fits := by
  rw [Fits, hphase] at h
  obtain ⟨hlen, herrors, hleft⟩ := h
  cases r with
  | returned => exact ⟨by simp only [Send.settle]; omega, by simp only [Send.settle]; omega⟩
  | raised => exact ⟨by simp only [Send.settle]; omega, by simp only [Send.settle]; omega⟩
  | rateLimited =>
    by_cases hretry : attempt < c.maxRetries
    · simp only [Send.settle, hretry, if_true, Fits]
      exact ⟨hlen, by omega, trivial⟩
    · simp only [Send.settle, hretry, if_false, Fits]
      omega

theorem Send.Fits.cancel {c : Send} (h : c.Fits) : ({ c with phase := .over } : Send).Fits := h.bounds

/-! ### Steps -/

/-- The calls of the limiter and of the wrapper are the same: one that has no token waits, and the
    first invocation of a call is when it gets its token. -/
structure Inv (l : ChannelAdapters.State) (sends : List Send) : Prop where
  length_eq : sends.length = l.calls.length
  waits : ∀ (i : ℕ) (c : Send) (call : Call), sends[i]? = some c → l.calls[i]? = some call →
    c.key = call.key ∧ (call.phase ≠ .accepted → c.phase = .waiting)
  fits : ∀ c ∈ sends, c.Fits
  firsts : ∀ key a b, sends.countP (Send.firstIn key a b) = l.acceptedWithin key a b

theorem Inv.start (rate : RatePerMin) (clock : ℚ) : Inv (.start rate clock) [] :=
  ⟨rfl, fun _ _ _ h => (nomatch h), nofun, fun _ _ _ => rfl⟩

variable {l l' : ChannelAdapters.State} {sends : List Send} {i : ℕ} {c : Send}

/-- A call that waits no more moves on, its key and its first invocation as they are. -/
theorem Inv.moves (h : Inv l sends) (hc : sends[i]? = some c) (hphase : c.phase ≠ .waiting) {c' : Send}
    (hkey : c'.key = c.key) (hfits : c'.Fits)
    (hfirst : ∀ key a b, Send.firstIn key a b c' = Send.firstIn key a b c) :
    Inv l (sends.set i c') := by
  obtain ⟨hlt, hget⟩ := List.getElem?_eq_some_iff.mp hc
  refine ⟨by rw [List.length_set, h.length_eq], fun j d call hd hcall => ?_, fun d hd => ?_,
    fun key a b => ?_⟩
  · by_cases hj : i = j
    · subst hj
      rw [List.getElem?_set_self hlt] at hd
      obtain rfl := Option.some.inj hd
      have hold := h.waits i c call hc hcall
      exact ⟨hkey.trans hold.1, fun hnot => absurd (hold.2 hnot) hphase⟩
    · rw [List.getElem?_set_ne hj] at hd
      exact h.waits j d call hd hcall
  · rcases List.mem_or_eq_of_mem_set hd with hd | rfl
    · exact h.fits d hd
    · exact hfits
  · have hpos : Send.firstIn key a b c = true → 0 < sends.countP (Send.firstIn key a b) := fun hin =>
      List.countP_pos_iff.mpr ⟨c, List.mem_of_getElem? hc, hin⟩
    rw [List.countP_set hlt, hget, hfirst, ← h.firsts]
    split
    · rename_i hin
      have := hpos hin
      omega
    · rfl

/-- A step of the limiter that changes no more than the phase of a call without a token. -/
theorem Inv.pauses (h : Inv l sends) {call : Call} {phase : ChannelAdapters.Phase}
    (hcall : l.calls[i]? = some call) (hphase : call.phase ≠ .accepted)
    (hcalls : l'.calls = l.calls.set i { call with phase }) (haccepts : l'.accepts = l.accepts) :
    Inv l' sends := by
  obtain ⟨hlt, -⟩ := List.getElem?_eq_some_iff.mp hcall
  refine ⟨by rw [hcalls, List.length_set, h.length_eq], fun j d call' hd hcall' => ?_, h.fits,
    fun key a b => ?_⟩
  · rw [hcalls] at hcall'
    by_cases hj : i = j
    · subst hj
      rw [List.getElem?_set_self hlt] at hcall'
      obtain rfl := Option.some.inj hcall'
      have hold := h.waits i d call hd hcall
      exact ⟨hold.1, fun _ => hold.2 hphase⟩
    · rw [List.getElem?_set_ne hj] at hcall'
      exact h.waits j d call' hd hcall'
  · rw [h.firsts, ChannelAdapters.State.acceptedWithin, ChannelAdapters.State.acceptedWithin, haccepts]

/-- A call comes in. -/
theorem Inv.enters (h : Inv l sends) {call : Call} (maxRetries : ℕ)
    (hcalls : l'.calls = l.calls ++ [call]) (haccepts : l'.accepts = l.accepts) :
    Inv l' (sends ++ [⟨call.key, maxRetries, .waiting, [], 0⟩]) := by
  refine ⟨by rw [hcalls, List.length_append, List.length_append, h.length_eq]; rfl,
    fun j d call' hd hcall' => ?_, fun d hd => ?_, fun key a b => ?_⟩
  · rw [hcalls] at hcall'
    rcases getElem?_concat hd with hold | ⟨hj, rfl⟩
    · have hlt := (List.getElem?_eq_some_iff.mp hold).1
      rw [List.getElem?_append_left (h.length_eq ▸ hlt)] at hcall'
      exact h.waits j d call' hold hcall'
    · rw [hj, h.length_eq, List.getElem?_concat_length] at hcall'
      obtain rfl := Option.some.inj hcall'
      exact ⟨rfl, fun _ => rfl⟩
  · rcases List.mem_append.mp hd with hd | hd
    · exact h.fits d hd
    · rw [List.mem_singleton.mp hd]
      exact ⟨rfl, rfl⟩
  · rw [List.countP_append, h.firsts, ChannelAdapters.State.acceptedWithin,
      ChannelAdapters.State.acceptedWithin, haccepts]
    simp [Send.firstIn]

/-- A call gets its token and invokes the wrapped function. -/
theorem Inv.accepts (h : Inv l sends) {call : Call} {ref : ℕ} {now : ℚ} (hc : sends[i]? = some c)
    (hcall : l.calls[i]? = some call) (hphase : call.phase ≠ .accepted)
    (hcalls : l'.calls = l.calls.set i { call with phase := .accepted })
    (haccepts : l'.accepts = l.accepts ++ [⟨call.key, ref, now⟩]) :
    Inv l' (sends.set i (c.invoke 0 now)) := by
  obtain ⟨hlt, hget⟩ := List.getElem?_eq_some_iff.mp hc
  obtain ⟨hltc, -⟩ := List.getElem?_eq_some_iff.mp hcall
  obtain ⟨hkey, hwait⟩ := h.waits i c call hc hcall
  obtain ⟨hfits, hnone, hinvoked⟩ := (h.fits c (List.mem_of_getElem? hc)).first (hwait hphase) now
  refine ⟨by rw [hcalls, List.length_set, List.length_set, h.length_eq],
    fun j d call' hd hcall' => ?_, fun d hd => ?_, fun key a b => ?_⟩
  · rw [hcalls] at hcall'
    by_cases hj : i = j
    · subst hj
      rw [List.getElem?_set_self hlt] at hd
      rw [List.getElem?_set_self hltc] at hcall'
      obtain rfl := Option.some.inj hd
      obtain rfl := Option.some.inj hcall'
      exact ⟨hkey, fun hnot => absurd rfl hnot⟩
    · rw [List.getElem?_set_ne hj] at hd hcall'
      exact h.waits j d call' hd hcall'
  · rcases List.mem_or_eq_of_mem_set hd with hd | rfl
    · exact h.fits d hd
    · exact hfits
  · have hbefore : Send.firstIn key a b c = false := by simp [Send.firstIn, hnone]
    have hafter : Send.firstIn key a b (c.invoke 0 now) = true ↔
        call.key = key ∧ a ≤ now ∧ now ≤ b := by
      have hsame : (c.invoke 0 now).key = call.key := hkey
      simp [Send.firstIn, hinvoked, hsame]
    rw [List.countP_set hlt, hget, hbefore, h.firsts, ChannelAdapters.State.acceptedWithin,
      ChannelAdapters.State.acceptedWithin, haccepts, List.countP_append]
    simp only [Bool.false_eq_true, if_false, Nat.sub_zero, List.countP_singleton, hafter,
      decide_eq_true_eq]

theorem firstIn_append {key : String} {a b now : ℚ} {c c' : Send} (hkey : c'.key = c.key)
    (hne : c.invoked ≠ []) (h : c'.invoked = c.invoked ++ [now]) :
    Send.firstIn key a b c' = Send.firstIn key a b c := by
  rw [Send.firstIn, Send.firstIn, hkey, h, List.head?_append_of_ne_nil _ hne]

/-- A call of the wrapper acquires as a call of the limiter. -/
theorem acquire_spec {key : String} {maxWaitS : Option ℚ} {now now' : ℚ}
    (h : ChannelAdapters.step l (.acquire key maxWaitS now now') = some l') :
    ∃ call, call.key = key ∧ l'.calls = l.calls ++ [call] ∧ l'.accepts = l.accepts := by
  rcases ChannelAdapters.step_cases h with ⟨key', _, _, _, _, -, -, hkey, rfl⟩ |
    ⟨_, _, _, _, _, -, -, -, -, he, -⟩ | ⟨_, _, _, _, -, -, -, -, -, hkey, -⟩
  · refine ⟨_, ?_, rfl, rfl⟩
    simpa [ChannelAdapters.keysOf] using hkey.symm
  · cases he
  · simp [ChannelAdapters.keysOf] at hkey

theorem attempt_spec {now : ℚ} (h : ChannelAdapters.step l (.attempt i now) = some l') :
    ∃ call phase, l.calls[i]? = some call ∧ call.phase ≠ .accepted ∧
      l'.calls = l.calls.set i { call with phase } ∧
      ((phase = .accepted ∧ l'.accepts = l.accepts ++ [⟨call.key, call.ref, now⟩]) ∨
        (phase ≠ .accepted ∧ l'.accepts = l.accepts)) := by
  rcases ChannelAdapters.step_cases h with ⟨_, _, _, _, _, -, -, hkey, -⟩ |
    ⟨j, call, key, b, now', -, hcall, hphase, -, he, rfl⟩ | ⟨_, _, _, _, -, -, -, -, hnot, -, -⟩
  · simp [ChannelAdapters.keysOf] at hkey
  · obtain ⟨rfl, rfl⟩ := ChannelAdapters.Event.attempt.inj he
    refine ⟨call, _, hcall, by rw [hphase]; decide, rfl, ?_⟩
    simp only [ChannelAdapters.State.try]
    cases (b.tryTake now).2 with
    | true => exact .inl ⟨rfl, rfl⟩
    | false =>
      cases call.blocking with
      | true => exact .inr ⟨by decide, rfl⟩
      | false => exact .inr ⟨by decide, rfl⟩
  · exact absurd rfl (hnot i now)

theorem quiet_spec {e : ChannelAdapters.Event} (h : ChannelAdapters.step l e = some l')
    (hattempt : ∀ j now, e ≠ .attempt j now) (hkeys : ChannelAdapters.keysOf [e] = ∅) :
    ∃ j call phase, l.calls[j]? = some call ∧ call.phase ≠ .accepted ∧
      l'.calls = l.calls.set j { call with phase } ∧ l'.accepts = l.accepts := by
  rcases ChannelAdapters.step_cases h with ⟨_, _, _, _, _, -, -, hkey, -⟩ |
    ⟨_, _, _, _, _, -, -, -, -, he, -⟩ | ⟨j, call, phase, _, -, hcall, hphase, -, -, -, rfl⟩
  · simp [hkeys] at hkey
  · exact absurd he (hattempt _ _)
  · exact ⟨j, call, phase, hcall, hphase, rfl, rfl⟩

theorem sessions_limiter (s : State) (c : Send) (attempt : ℕ) (r : Outcome) :
    (s.sessions c attempt r).limiter = s.limiter := by
  cases r with
  | returned => rfl
  | raised => rfl
  | rateLimited =>
    simp only [State.sessions, State.markThrottle]
    split
    · rfl
    · split
      · rfl
      · rfl

theorem settle_same (c : Send) (attempt : ℕ) (r : Outcome) :
    (c.settle attempt r).key = c.key ∧ (c.settle attempt r).invoked = c.invoked := by
  cases r with
  | returned => exact ⟨rfl, rfl⟩
  | raised => exact ⟨rfl, rfl⟩
  | rateLimited => exact ⟨rfl, rfl⟩

/-- A step of the wrapper makes a step of its limiter or none, and keeps the invariant. -/
theorem step_spec {s s' : State} {e : Event} (h : Inv s.limiter s.sends)
    (hstep : step s e = some s') : (s'.limiter = s.limiter ∨ ∃ le,
      ChannelAdapters.step s.limiter le = some s'.limiter ∧
      ChannelAdapters.keysOf [le] ⊆ keysOf [e]) ∧ Inv s'.limiter s'.sends := by
  cases e with
  | call key maxRetries maxWaitS now now' =>
    simp only [step] at hstep
    split at hstep
    · cases hstep
    obtain ⟨l, hl, rfl⟩ := Option.map_eq_some_iff.mp hstep
    obtain ⟨call, rfl, hcalls, haccepts⟩ := acquire_spec hl
    exact ⟨.inr ⟨_, hl, Finset.Subset.refl _⟩, h.enters maxRetries hcalls haccepts⟩
  | attempt i now =>
    simp only [step] at hstep
    split at hstep
    · cases hstep
    split at hstep
    · rename_i l c hl hc
      obtain rfl := Option.some.inj hstep
      obtain ⟨call, phase, hcall, hphase, hcalls, hresult⟩ := attempt_spec hl
      have hnow : l.calls[i]? = some { call with phase } := by
        rw [hcalls, List.getElem?_set_self (List.getElem?_eq_some_iff.mp hcall).1]
      refine ⟨.inr ⟨_, hl, Finset.Subset.refl _⟩, ?_⟩
      dsimp only
      rcases hresult with ⟨rfl, haccepts⟩ | ⟨hnot, haccepts⟩
      · simp only [hnow, Option.any_some, decide_true, if_true]
        exact h.accepts hc hcall hphase hcalls haccepts
      · simp only [hnow, Option.any_some, hnot, decide_false, Bool.false_eq_true, if_false]
        exact h.pauses hcall hphase hcalls haccepts
    · cases hstep
  | pause i now =>
    simp only [step] at hstep
    split at hstep
    · cases hstep
    obtain ⟨l, hl, rfl⟩ := Option.map_eq_some_iff.mp hstep
    obtain ⟨j, call, phase, hcall, hphase, hcalls, haccepts⟩ := quiet_spec hl nofun rfl
    exact ⟨.inr ⟨_, hl, Finset.Subset.refl _⟩, h.pauses hcall hphase hcalls haccepts⟩
  | settle i r =>
    simp only [step] at hstep
    split at hstep
    · rename_i c hc
      split at hstep
      · rename_i attempt hphase
        obtain rfl := Option.some.inj hstep
        obtain ⟨hkey, hinvoked⟩ := settle_same c attempt r
        rw [sessions_limiter]
        refine ⟨.inl rfl, h.moves hc (by rw [hphase]; nofun) hkey
          ((h.fits c (List.mem_of_getElem? hc)).settle hphase r) fun key a b => ?_⟩
        rw [Send.firstIn, Send.firstIn, hkey, hinvoked]
      · cases hstep
    · cases hstep
  | retry i now =>
    simp only [step] at hstep
    split at hstep
    · cases hstep
    split at hstep
    · rename_i c hc
      split at hstep
      · rename_i attempt hphase
        obtain rfl := Option.some.inj hstep
        have hfits := h.fits c (List.mem_of_getElem? hc)
        refine ⟨.inl rfl, h.moves hc (by rw [hphase]; nofun) rfl (hfits.again hphase now)
          fun key a b => firstIn_append rfl (fun hnone => ?_) rfl⟩
        rw [Send.Fits, hphase, hnone] at hfits
        cases hfits.1
      · cases hstep
    · cases hstep
  | cancel i =>
    simp only [step] at hstep
    split at hstep
    · rename_i c hc
      have hover := (h.fits c (List.mem_of_getElem? hc)).cancel
      split at hstep
      · obtain ⟨l, hl, rfl⟩ := Option.map_eq_some_iff.mp hstep
        obtain ⟨j, call, phase, hcall, hphase, hcalls, haccepts⟩ := quiet_spec hl nofun rfl
        exact ⟨.inr ⟨_, hl, Finset.Subset.refl _⟩, h.pauses hcall hphase hcalls haccepts⟩
      · rename_i hphase
        obtain rfl := Option.some.inj hstep
        exact ⟨.inl rfl, h.moves hc (by rw [hphase]; nofun) rfl hover fun _ _ _ => rfl⟩
      · rename_i hphase
        obtain rfl := Option.some.inj hstep
        exact ⟨.inl rfl, h.moves hc (by rw [hphase]; nofun) rfl hover fun _ _ _ => rfl⟩
      · cases hstep
    · cases hstep

/-! ### Runs -/

theorem keysOf_append (xs ys : List Event) : keysOf (xs ++ ys) = keysOf xs ∪ keysOf ys := by
  rw [keysOf, List.filterMap_append, List.toFinset_append]
  rfl

/-- A run of the wrapper keeps the invariant, and is for its limiter a run with no other keys. -/
theorem run_spec : ∀ {es : List Event} {s s' : State}, Inv s.limiter s.sends →
    Run.exec step s es = some s' → Inv s'.limiter s'.sends ∧ ∃ les,
      Run.exec ChannelAdapters.step s.limiter les = some s'.limiter ∧
      ChannelAdapters.keysOf les ⊆ keysOf es
  | [], _, _, h, hrun => by
    obtain rfl := Option.some.inj hrun
    exact ⟨h, [], rfl, Finset.Subset.refl _⟩
  | e :: es, s, s', h, hrun => by
    obtain ⟨u, hu, hrun⟩ := Run.exec_cons.mp hrun
    obtain ⟨hlimiter, hinv⟩ := step_spec h hu
    obtain ⟨hinv', les, hles, hkeys⟩ := run_spec hinv hrun
    rw [← List.singleton_append, keysOf_append]
    rcases hlimiter with hsame | ⟨le, hle, hkey⟩
    · rw [hsame] at hles
      exact ⟨hinv', les, hles, hkeys.trans Finset.subset_union_right⟩
    · refine ⟨hinv', le :: les, Run.exec_cons.mpr ⟨_, hle, hles⟩, ?_⟩
      have hcons : ChannelAdapters.keysOf (le :: les) =
          ChannelAdapters.keysOf [le] ∪ ChannelAdapters.keysOf les := by
        rw [ChannelAdapters.keysOf, ← List.singleton_append, List.filterMap_append, List.toFinset_append]
        rfl
      rw [hcons]
      exact Finset.union_subset_union hkey hkeys

/-- Where the calls are wrapped with at most `n` retries, those that first invoke the wrapped
    function within an interval invoke it at most `n + 1` times each. -/
theorem invokedByFirst_le {s : State} (h : ∀ c ∈ s.sends, c.Fits) {n : ℕ}
    (hn : ∀ c ∈ s.sends, c.maxRetries ≤ n) (key : String) (a b : ℚ) :
    s.invokedByFirst key a b ≤ (n + 1) * s.firstWithin key a b := by
  rw [State.invokedByFirst, State.firstWithin, List.countP_eq_length_filter, Nat.mul_comm,
    ← List.length_map (f := fun c : Send => c.invoked.length)]
  refine List.sum_le_card_nsmul _ _ fun m hm => ?_
  obtain ⟨c, hc, rfl⟩ := List.mem_map.mp hm
  have hc := (List.mem_filter.mp hc).1
  have := (h c hc).bounds.1
  have := hn c hc
  omega

/-- Calls that invoke the wrapped function once at most are counted by their first invocation. -/
theorem sum_within_eq (key : String) (a b : ℚ) : ∀ {cs : List Send},
    (∀ c ∈ cs, c.invoked.length ≤ 1) →
    ((cs.filter (·.key = key)).map fun c => within a b c.invoked).sum = cs.countP (Send.firstIn key a b)
  | [], _ => rfl
  | c :: cs, h => by
    obtain ⟨hc, hcs⟩ := List.forall_mem_cons.mp h
    have ih := sum_within_eq key a b hcs
    have hone : c.invoked = [] ∨ ∃ t, c.invoked = [t] := by
      cases hinvoked : c.invoked with
      | nil => exact .inl rfl
      | cons t ts =>
        rw [hinvoked, List.length_cons] at hc
        exact .inr ⟨t, by rw [List.length_eq_zero_iff.mp (by omega : ts.length = 0)]⟩
    by_cases hkey : c.key = key
    · rw [List.filter_cons_of_pos (by simpa using hkey), List.map_cons, List.sum_cons, ih,
        List.countP_cons, Nat.add_comm]
      rcases hone with hnone | ⟨t, ht⟩
      · simp [Send.firstIn, within, hnone]
      · simp [Send.firstIn, within, hkey, ht, List.countP_singleton]
    · rw [List.filter_cons_of_neg (by simpa using hkey), ih, List.countP_cons]
      simp [Send.firstIn, hkey]

/-- A send that meets a rate limit error is retried a second later. -/
def retriedSend : List Event :=
  [.call "bot" 3 none 0 0, .attempt 0 0, .settle 0 .rateLimited, .retry 0 1]

theorem retriedSend_counts : (Run.exec step (.start onePerMin 0) retriedSend).map (fun s =>
    (s.firstWithin "bot" 0 1, s.invokedWithin "bot" 0 1)) = some (1, 2) := by decide +kernel

end ChannelAdapters.WhatsappSend
