import Wormbase.IdentityTracker.ResourceOwnership
import Wormbase.WriteActions.Effects

/-! What `ResourceOwnershipReactivity` proposes over a run of cycles that are appended and dispatched. -/

namespace IdentityTracker
open Py Regex Expr
open Projection (LedgerRow Stamp)
open WriteActions (Pevr)
open Gateway (entryDict)

/-! ### The ids that are found in a text -/

section
variable {letters : Letters} {text rid : String} {x : List Char} {before after : Option Char}

theorem hexDigit_lower (c : Char) (h : (('0' ≤ c && c ≤ '9') || ('a' ≤ c && c ≤ 'f') || ('A' ≤ c && c ≤ 'F')) = true) :
    c.toLower ∈ hexDigits ∧ c.toNat < 128 := by
  have all : ∀ n : Fin 128, (('0' ≤ Char.ofNat n && Char.ofNat n ≤ '9') || ('a' ≤ Char.ofNat n && Char.ofNat n ≤ 'f') ||
      ('A' ≤ Char.ofNat n && Char.ofNat n ≤ 'F')) = true → (Char.ofNat n).toLower ∈ hexDigits := by decide +kernel
  have hlt : c.toNat < 128 := by
    simp only [Bool.or_eq_true, Bool.and_eq_true, decide_eq_true_eq, Char.le_def] at h
    rcases h with (⟨-, h⟩ | ⟨-, h⟩) | ⟨-, h⟩
    · exact lt_of_le_of_lt h (by decide)
    · exact lt_of_le_of_lt h (by decide)
    · exact lt_of_le_of_lt h (by decide)
  have hc := all ⟨c.toNat, hlt⟩
  rw [Char.ofNat_toNat] at hc
  exact ⟨hc h, hlt⟩

/-- What the pattern matches is, in lower case, the text of a UUID. -/
theorem uuidPattern_text (h : (uuidPattern letters).Lang before x after) :
    (∃ u : UUID, x.map Char.toLower = u.text) ∧ ∀ c ∈ x, c.toNat < 128 := by
  obtain ⟨-, h, -⟩ := lang_between.mp h
  obtain ⟨a, _, rfl, ha, _, _, rfl, ⟨p, rfl, hp⟩, b, _, rfl, hb, _, _, rfl, ⟨q, rfl, hq⟩, c, _, rfl, hc, _, _, rfl,
    ⟨r, rfl, hr⟩, d, _, rfl, hd, _, _, rfl, ⟨s, rfl, hs⟩, e, _, rfl, he, rfl⟩ := h
  obtain rfl := of_decide_eq_true hp
  obtain rfl := of_decide_eq_true hq
  obtain rfl := of_decide_eq_true hr
  obtain rfl := of_decide_eq_true hs
  obtain ⟨ha, hahex⟩ := lang_times_one ha
  obtain ⟨hb, hbhex⟩ := lang_times_one hb
  obtain ⟨hc, hchex⟩ := lang_times_one hc
  obtain ⟨hd, hdhex⟩ := lang_times_one hd
  obtain ⟨he, hehex⟩ := lang_times_one he
  have hlower : ∀ {y : List Char}, (∀ c ∈ y, (('0' ≤ c && c ≤ '9') || ('a' ≤ c && c ≤ 'f') ||
      ('A' ≤ c && c ≤ 'F')) = true) → ∀ c ∈ y.map Char.toLower, c ∈ hexDigits := by
    intro y hy c hc
    obtain ⟨c, hmem, rfl⟩ := List.mem_map.mp hc
    exact (hexDigit_lower c (hy c hmem)).1
  have hascii : ∀ {y : List Char}, (∀ c ∈ y, (('0' ≤ c && c ≤ '9') || ('a' ≤ c && c ≤ 'f') ||
      ('A' ≤ c && c ≤ 'F')) = true) → ∀ c ∈ y, c.toNat < 128 := fun hy c hc => (hexDigit_lower c (hy c hc)).2
  constructor
  · obtain ⟨u, hu⟩ := UUID.exists_text (a := a.map Char.toLower) (b := b.map Char.toLower) (c := c.map Char.toLower)
      (d := d.map Char.toLower) (e := e.map Char.toLower) (by simpa using ha) (by simpa using hb) (by simpa using hc)
      (by simpa using hd) (by simpa using he) (by
        simp only [List.forall_mem_append]
        exact ⟨hlower hahex, hlower hbhex, hlower hchex, hlower hdhex, hlower hehex⟩)
    refine ⟨u, ?_⟩
    rw [hu]
    simp only [List.map_append, List.map_cons, List.append_nil, List.cons_append, List.nil_append]
    rfl
  · simp only [List.forall_mem_append, List.forall_mem_singleton, List.append_nil]
    exact ⟨hascii hahex, by decide, hascii hbhex, by decide, hascii hchex, by decide, hascii hdhex, by decide,
      hascii hehex⟩

theorem mem_deduped : ∀ {ids seen : List String},
    rid ∈ ids.foldl (fun seen norm => if norm ∈ seen then seen else seen ++ [norm]) seen → rid ∈ seen ∨ rid ∈ ids
  | [], _, h => .inl h
  | id :: ids, seen, h => by
    rw [List.foldl_cons] at h
    rcases mem_deduped h with hseen | hids
    · split at hseen
      · exact .inl hseen
      · rcases List.mem_append.mp hseen with hseen | hid
        · exact .inl hseen
        · exact .inr (List.mem_singleton.mp hid ▸ List.mem_cons_self)
    · exact .inr (List.mem_cons_of_mem id hids)

/-- The ids that are found are texts of UUIDs. -/
theorem extract_uuid (h : rid ∈ extractResourceIds letters text) : ∃ u : UUID, u.str = rid := by
  rcases mem_deduped h with h | h
  · cases h
  obtain ⟨m, hm, rfl⟩ := List.mem_map.mp h
  have hsolid : (uuidPattern letters).Solid := by simp [uuidPattern, between, all, times, hexDigit, dash, Solid]
  obtain ⟨before, after, hlang⟩ := mem_findAll hsolid hm
  obtain ⟨⟨u, hu⟩, hascii⟩ := uuidPattern_text hlang
  refine ⟨u, ?_⟩
  rw [letters.lower_ascii _ (by simpa using hascii), String.toList_ofList, hu, UUID.str]

theorem lower_str (u : UUID) : letters.lower u.str = u.str := by
  have all : ∀ c ∈ hexDigits ++ ['-'], c.toNat < 128 ∧ c.toLower = c := List.all_iff_forall_prop.mp (by decide)
  have hall : ∀ c ∈ u.str.toList, c.toNat < 128 ∧ c.toLower = c := by
    intro c hc
    rw [UUID.str, String.toList_ofList] at hc
    refine all c (List.mem_append.mpr ?_)
    rcases UUID.mem_text c hc with hc | rfl
    · exact .inl hc
    · exact .inr List.mem_cons_self
  rw [letters.lower_ascii _ fun c hc => (hall c hc).1]
  have hsame : u.str.toList.map Char.toLower = u.str.toList.map id := List.map_congr_left fun c hc => (hall c hc).2
  rw [hsame, List.map_id, String.ofList_toList]

theorem str_ne_empty (u : UUID) : u.str ≠ "" := by
  intro h
  have hlength := u.length_text
  rw [UUID.str] at h
  rw [String.ofList_eq_empty_iff.mp h] at hlength
  cases hlength

end

/-! ### Cycles, and the ledger of them -/

/-- The payload classes of messages, of consumptions and of roles have taken the args of a cycle. -/
structure Checked (c : Pevr) : Prop where
  chat : c.tool = "channel_adapter.emit_chat_received" → ∃ (sender : UUID) (text : String),
    Dict.get c.args "sender_person" = .str sender.str ∧ Dict.get c.args "text" = .str text
  consumed : c.tool = "emit_data_product_consumed" → ∃ person product : UUID,
    Dict.get c.args "consumed_by_person_id" = .str person.str ∧ Dict.get c.args "data_product_id" = .str product.str
  role : c.tool = "emit_resource_role_proposed" ∨ c.tool = "emit_resource_role_assigned" → ∃ person resource : UUID,
    Dict.get c.args "person_id" = .str person.str ∧ Dict.get c.args "resource_id" = .str resource.str

section
variable (letters : Letters) (person resource : UUID) (c : Pevr)

/-- The cycle is a message of the person, and the ids in it have the property. -/
def writes (about : List String → Bool) : Bool :=
  c.tool = "channel_adapter.emit_chat_received" && (Dict.get c.args "sender_person").isText person.str &&
    match Dict.get c.args "text" with
    | .str text => about (extractResourceIds letters text)
    | _ => false

/-- The cycle is a consumption of the resource by the person. -/
def consumes : Bool :=
  c.tool = "emit_data_product_consumed" && (Dict.get c.args "consumed_by_person_id").isText person.str &&
    (Dict.get c.args "data_product_id").isText resource.str

/-- A signal for the pair: a message that mentions the resource, or a consumption of it. -/
def signals : Bool := writes letters person c (fun ids => ids.contains resource.str) || consumes person resource c

/-- The pair is the one that the cycle is taken for. -/
def names : Bool := writes letters person c (fun ids => ids.head? = some resource.str) || consumes person resource c

/-- The cycle gives the pair a role, or proposes one. -/
def givesRole : Bool :=
  (c.tool = "emit_resource_role_proposed" || c.tool = "emit_resource_role_assigned") &&
    (Dict.get c.args "person_id").isText person.str && (Dict.get c.args "resource_id").isText resource.str

/-- The cycle proposes the person as maintainer of the resource. -/
def proposesMaintainer : Bool :=
  c.tool = "emit_resource_role_proposed" && (Dict.get c.args "person_id").isText person.str &&
    (Dict.get c.args "resource_id").isText resource.str && (Dict.get c.args "role").isText "maintainer"

end

/-- The confidence of a number of signals is not below the threshold. -/
def meets (threshold : PyFloat) (n : ℕ) : Bool :=
  n ≠ 0 && match signalConfidence n with
    | .ok confidence => !PyFloat.lt confidence threshold
    | .error _ => false

section
variable (company : UUID) (stamp : ℕ → Stamp)

/-- The rows of cycles that are written one after the other. -/
def stored (cycles : List Pevr) : List LedgerRow :=
  cycles.foldl (fun rows c => rows ++ c.rows company rows.length (stamp rows.length)) []

end

/-! ### Folds over the ledger -/

section
variable {company : UUID} {stamp : ℕ → Stamp} {σ : Type} {step : σ → LedgerRow → Except Err σ} {g : σ → Pevr → σ}
  {cycles : List Pevr} {c : Pevr}

theorem stored_snoc : stored company stamp (cycles ++ [c]) = stored company stamp cycles ++
    c.rows company (stored company stamp cycles).length (stamp (stored company stamp cycles).length) := by
  rw [stored, List.foldl_append]
  rfl

/-- A scan that passes over the rows of other kinds sees of a cycle its execute row. -/
theorem foldlM_rows (hskip : ∀ s r, r.kind ≠ "execute" → step s r = .ok s) (s : σ) (n : ℕ) (st : Stamp) :
    (c.rows company n st).foldlM step s = step s (WriteActions.Pevr.executeRow c company n st) := by
  have hrows : c.rows company n st = [⟨st.proposeId, company, n + 1, st.ts, "propose", .dict c.propose, st.hash 0⟩,
      WriteActions.Pevr.executeRow c company n st,
      ⟨st.verifyId, company, n + 3, st.ts, "verify", .dict ((.str "execute_entry_id", .str st.executeId.str) :: c.verify), st.hash 2⟩,
      ⟨st.resolveId, company, n + 4, st.ts, "resolve", .dict ((.str "verify_entry_id", .str st.verifyId.str) :: c.resolve), st.hash 3⟩] := rfl
  rw [hrows, List.foldlM_cons, hskip _ _ (by simp)]
  simp only [bind, Except.bind, List.foldlM_cons, List.foldlM_nil]
  cases step s (WriteActions.Pevr.executeRow c company n st) with
  | error x => rfl
  | ok s' =>
    simp only
    rw [hskip _ _ (by simp)]
    simp only
    rw [hskip _ _ (by simp)]
    rfl

theorem foldlM_stored (hskip : ∀ s r, r.kind ≠ "execute" → step s r = .ok s) (s : σ)
    (hstep : ∀ c ∈ cycles, ∀ s n st, step s (WriteActions.Pevr.executeRow c company n st) = .ok (g s c)) :
    (stored company stamp cycles).foldlM step s = .ok (cycles.foldl g s) := by
  induction cycles using List.reverseRecOn with
  | nil => rfl
  | append_singleton cycles c ih =>
    obtain ⟨hcycles, hc⟩ := List.forall_mem_append.mp hstep
    rw [stored_snoc, List.foldlM_append, ih hcycles]
    simp only [bind, Except.bind]
    rw [foldlM_rows hskip, hc c List.mem_cons_self, List.foldl_append]
    rfl

/-- The rows are in the order of their seqs. -/
theorem stored_seqs : (stored company stamp cycles).map (·.seq) = List.range' 1 (stored company stamp cycles).length := by
  induction cycles using List.reverseRecOn with
  | nil => rfl
  | append_singleton cycles c ih =>
    rw [stored_snoc, List.map_append, ih, List.length_append, ← List.range'_append_1]
    rw [Nat.add_comm 1]
    rfl

theorem stored_sorted : (stored company stamp cycles).insertionSort (fun r r' => r.seq ≤ r'.seq) =
    stored company stamp cycles := by
  have hseqs : ((stored company stamp cycles).map (·.seq)).Pairwise (· ≤ ·) := by
    rw [stored_seqs]
    exact List.pairwise_le_range'
  exact List.Pairwise.insertionSort_eq (List.pairwise_map.mp hseqs)

end

/-! ### The roles and the signals that the reactivity reads -/

section
variable {letters : Letters} {py : Interp} {company : UUID} {stamp : ℕ → Stamp} {cycles : List Pevr} {c : Pevr}
  {person resource : UUID}

theorem pair_inj {p r : UUID} : ((p.str, r.str) : String × String) = (person.str, resource.str) ↔
    p = person ∧ r = resource := by
  rw [Prod.mk.injEq, UUID.str_injective.eq_iff, UUID.str_injective.eq_iff]

theorem isText_uuid {p : UUID} : (Val.str p.str).isText person.str = true ↔ p = person := by
  rw [Val.isText_iff, Val.str.injEq, UUID.str_injective.eq_iff]

theorem or_str (t : String) : (Val.str t).or (.str "") = .str t := by
  by_cases h : t = "" <;> simp [Val.or, Val.truthy, h]

/-- What the scan for roles makes of a cycle. -/
def addRole (py : Interp) (known : List (String × String)) (c : Pevr) : List (String × String) :=
  if c.tool = "emit_resource_role_proposed" ∨ c.tool = "emit_resource_role_assigned" then
    addPair py (Dict.get c.args "person_id") (Dict.get c.args "resource_id") known
  else known

theorem knownRoleStep_execute (known : List (String × String)) (n : ℕ) (st : Stamp) :
    knownRoleStep py known (WriteActions.Pevr.executeRow c company n st) = .ok (addRole py known c) := by
  have htool : Dict.get (c.executePayload st) "tool" = .str c.tool := rfl
  have hargs : Dict.get (c.executePayload st) "args" = .dict c.args := rfl
  rw [knownRoleStep, if_neg (by simp [WriteActions.Pevr.executeRow])]
  simp only [WriteActions.Pevr.executeRow, orMapping_dict, bind, Except.bind, htool, hargs, Val.isText, addRole,
    Bool.or_eq_true, decide_eq_true_eq]
  split <;> rfl

theorem mem_addRole {known : List (String × String)} (hc : Checked c) : (person.str, resource.str) ∈ addRole py known c ↔
    (person.str, resource.str) ∈ known ∨ givesRole person resource c = true := by
  rw [addRole]
  split
  · rename_i htool
    obtain ⟨p, r, hp, hr⟩ := hc.role htool
    have htruthy : ((Val.str p.str).truthy && (Val.str r.str).truthy) = true := by
      simp [Val.truthy, str_ne_empty]
    rw [addPair, hp, hr, if_pos htruthy, Val.toStr_str, Val.toStr_str, List.mem_cons, pair_inj, or_comm]
    refine or_congr_right ?_
    simp only [givesRole, hp, hr, Bool.and_eq_true, Bool.or_eq_true, decide_eq_true_eq, htool, true_and, isText_uuid]
    constructor
    · rintro ⟨rfl, rfl⟩
      exact ⟨rfl, rfl⟩
    · rintro ⟨rfl, rfl⟩
      exact ⟨rfl, rfl⟩
  · rename_i htool
    have hno : givesRole person resource c = false := by simp [givesRole, htool]
    simp [hno]

theorem known_stored (hall : ∀ c ∈ cycles, Checked c) : ∃ known,
    rehydrateKnownResourceRoles py (stored company stamp cycles) = .ok known ∧ ∀ person resource : UUID,
      (person.str, resource.str) ∈ known ↔ ∃ c ∈ cycles, givesRole person resource c = true := by
  have hskip : ∀ s r, r.kind ≠ "execute" → knownRoleStep py s r = .ok s := fun s r h => if_pos h
  refine ⟨_, foldlM_stored hskip [] fun c _ s n st => knownRoleStep_execute s n st, ?_⟩
  intro person resource
  induction cycles using List.reverseRecOn with
  | nil => simp
  | append_singleton cycles c ih =>
    obtain ⟨hcycles, hc⟩ := List.forall_mem_append.mp hall
    rw [List.foldl_append, List.foldl_cons, List.foldl_nil, mem_addRole (hc c List.mem_cons_self), ih hcycles]
    simp only [List.mem_append, List.mem_singleton, or_and_right, exists_or, exists_eq_left]

/-- What the scan for signals makes of a cycle. -/
def addSignal (letters : Letters) (person resource : UUID) (counts : Signals) (c : Pevr) : Signals :=
  if writes letters person c (fun ids => ids.contains resource.str) = true then
    { counts with chatMention := counts.chatMention + 1 }
  else if consumes person resource c = true then
    { counts with dataProductConsumed := counts.dataProductConsumed + 1 }
  else counts

theorem signalStep_execute (hc : Checked c) (counts : Signals) (n : ℕ) (st : Stamp) :
    signalStep letters py person.str resource.str counts (WriteActions.Pevr.executeRow c company n st) =
      .ok (addSignal letters person resource counts c) := by
  have htool : Dict.get (c.executePayload st) "tool" = .str c.tool := rfl
  have hargs : Dict.get (c.executePayload st) "args" = .dict c.args := rfl
  rw [signalStep, if_neg (by simp [WriteActions.Pevr.executeRow])]
  simp only [WriteActions.Pevr.executeRow, orMapping_dict, bind, Except.bind, htool, hargs, Val.isText]
  by_cases hchat : c.tool = "channel_adapter.emit_chat_received"
  · obtain ⟨sender, text, hsender, htext⟩ := hc.chat hchat
    have hconsumes : consumes person resource c = false := by simp [consumes, hchat]
    simp only [hchat, hsender, htext, or_str, extractFrom, Val.toStr_str, decide_true, if_true, addSignal, hconsumes,
      writes, Bool.true_and, Bool.and_eq_true, isText_uuid, UUID.str_injective.eq_iff, List.contains_iff_mem]
    by_cases hsame : sender = person
    · by_cases hmem : resource.str ∈ extractResourceIds letters text
      · simp [hsame, hmem, pure, Except.pure]
      · simp [hsame, hmem, pure, Except.pure]
    · simp [hsame, pure, Except.pure]
  · have hwrites : ∀ about, writes letters person c about = false := by simp [writes, hchat]
    by_cases hconsumed : c.tool = "emit_data_product_consumed"
    · obtain ⟨p, r, hp, hr⟩ := hc.consumed hconsumed
      simp only [hconsumed, hp, hr, Val.toStr_str, lower_str, UUID.str_injective.eq_iff, addSignal, hwrites, consumes,
        Bool.and_eq_true, isText_uuid, decide_true, true_and, Bool.false_eq_true, if_false]
      by_cases hsame : p = person ∧ r = resource
      · simp [hsame, pure, Except.pure]
      · simp [hsame, pure, Except.pure]
    · have hconsumes : consumes person resource c = false := by simp [consumes, hconsumed]
      simp [hchat, hconsumed, addSignal, hwrites, hconsumes, pure, Except.pure]

theorem signals_stored (hall : ∀ c ∈ cycles, Checked c) (person resource : UUID) : ∃ counts,
    aggregateResourceSignals letters py (stored company stamp cycles) person.str resource.str = .ok counts ∧
      counts.total = cycles.countP (signals letters person resource) := by
  have hskip : ∀ s r, r.kind ≠ "execute" → signalStep letters py person.str resource.str s r = .ok s :=
    fun s r h => if_pos h
  rw [aggregateResourceSignals, stored_sorted, lower_str]
  refine ⟨_, foldlM_stored hskip ⟨0, 0⟩ fun c hc s n st => signalStep_execute (hall c hc) s n st, ?_⟩
  clear hall
  induction cycles using List.reverseRecOn with
  | nil => rfl
  | append_singleton cycles c ih =>
    rw [List.foldl_append, List.foldl_cons, List.foldl_nil, List.countP_append, ← ih, List.countP_singleton, addSignal]
    by_cases hwrites : writes letters person c (fun ids => ids.contains resource.str) = true
    · simp only [hwrites, if_true, signals, Bool.true_or, Signals.total]
      omega
    · by_cases hconsumes : consumes person resource c = true
      · simp only [hwrites, hconsumes, Bool.false_eq_true, if_false, if_true, signals, Bool.or_true, Signals.total]
        omega
      · have hnone : signals letters person resource c = false := by
          rw [signals, Bool.or_eq_false_iff]
          exact ⟨Bool.eq_false_iff.mpr hwrites, Bool.eq_false_iff.mpr hconsumes⟩
        rw [if_neg hwrites, if_neg hconsumes, hnone]
        rfl

end

/-! ### The confidence -/

section
variable {n : ℕ} {x : PyFloat}

/-- A confidence lies between 0 and 1. -/
theorem signalConfidence_range (h : signalConfidence n = .ok x) :
    (PyFloat.le .zero x && PyFloat.le x .one) = true := by
  rw [signalConfidence] at h
  cases hint : PyFloat.ofInt n with
  | none =>
    rw [hint] at h
    cases h
  | some y =>
    simp only [hint, bind, Except.bind, pure, Except.pure] at h
    obtain ⟨r, hr, rfl⟩ := Option.map_eq_some_iff.mp hint
    have hr0 := PyFloat.toDouble_nonneg (by positivity) hr
    have hdiv : PyFloat.div (.finite (decide ((n : ℤ) < 0)) r) (.finite false 4) = .ok (PyFloat.ofMag false (r / 4)) := by
      have hneg : decide ((n : ℤ) < 0) = false := by simp
      rw [PyFloat.div, if_neg (by norm_num), hneg]
      rfl
    rw [hdiv] at h
    obtain rfl := Except.ok.inj h
    rw [PyFloat.ofMag]
    cases hquot : PyFloat.toDouble (r / 4) with
    | none => rfl
    | some q =>
      have hq0 := PyFloat.toDouble_nonneg (div_nonneg hr0 (by norm_num)) hquot
      simp only [PyFloat.min]
      split
      · rename_i hlt
        simp only [PyFloat.lt, PyFloat.one, PyFloat.signed, Bool.false_eq_true, if_false, decide_eq_true_eq] at hlt
        simp [PyFloat.le, PyFloat.lt, PyFloat.zero, PyFloat.one, PyFloat.signed, hq0, hlt.le]
      · rfl

/-- Two signals are enough for the default threshold, and one is not. -/
theorem meets_default (h : n ≤ 2 ^ 52) : meets (.finite false (1 / 2)) n = true ↔ 2 ≤ n := by
  match n with
  | 0 => decide
  | 1 => decide +kernel
  | 2 => decide +kernel
  | 3 => decide +kernel
  | n + 4 =>
    refine iff_of_true ?_ (by omega)
    have hint : PyFloat.ofInt ((n + 4 : ℕ) : ℤ) = some (.finite false ((n + 4 : ℕ) : ℚ)) := by
      have hneg : decide (((n + 4 : ℕ) : ℤ) < 0) = false := by
        rw [decide_eq_false_iff_not]
        omega
      rw [PyFloat.ofInt, Int.natAbs_natCast, PyFloat.toDouble_natCast h, hneg]
      rfl
    have hdiv : PyFloat.div (.finite false ((n + 4 : ℕ) : ℚ)) (.finite false 4) =
        .ok (PyFloat.ofMag false (((n + 4 : ℕ) : ℚ) / 4)) := by
      rw [PyFloat.div, if_neg (by norm_num)]
      rfl
    have hmin : PyFloat.min .one (PyFloat.ofMag false (((n + 4 : ℕ) : ℚ) / 4)) = .one := by
      rw [PyFloat.ofMag]
      cases hquot : PyFloat.toDouble (((n + 4 : ℕ) : ℚ) / 4) with
      | none => rfl
      | some q =>
        have hone : ((1 : ℕ) : ℚ) ≤ ((n + 4 : ℕ) : ℚ) / 4 := by
          push_cast
          linarith [(Nat.cast_nonneg n : (0 : ℚ) ≤ n)]
        have hq := PyFloat.le_toDouble (le_refl 1) (by norm_num) hone hquot
        rw [PyFloat.min, if_neg]
        simpa [PyFloat.lt, PyFloat.one, PyFloat.signed] using hq
    have hconfidence : signalConfidence (n + 4) = .ok .one := by
      rw [signalConfidence, hint]
      simp only [hdiv, bind, Except.bind, pure, Except.pure, hmin]
    have habove : PyFloat.lt .one (.finite false (1 / 2)) = false := by decide +kernel
    rw [meets, hconfidence]
    simp only [habove, Bool.not_false, Bool.and_true]
    exact decide_eq_true (Nat.succ_ne_zero _)

end

/-! ### One entry -/

section
variable {letters : Letters} {py : Interp} {threshold : PyFloat} {company : UUID} {stamp : ℕ → Stamp}
  {cycles : List Pevr} {c : Pevr} {person resource : UUID}

/-- A checked cycle is taken for one pair or for none. -/
theorem candidate_spec (hc : Checked c) :
    (candidate letters py (.str c.tool) (.dict c.args) = .ok none ∧ ∀ person resource, names letters person resource c = false) ∨
      ∃ p r : UUID, candidate letters py (.str c.tool) (.dict c.args) = .ok (some (p.str, r.str)) ∧
        ∀ person resource, names letters person resource c = true ↔ p = person ∧ r = resource := by
  have htruthy : ∀ u : UUID, (Val.str u.str).truthy = true := fun u => by simp [Val.truthy, str_ne_empty]
  by_cases hchat : c.tool = "channel_adapter.emit_chat_received"
  · obtain ⟨sender, text, hsender, htext⟩ := hc.chat hchat
    have hconsumes : ∀ p r, consumes p r c = false := fun p r => by simp [consumes, hchat]
    have hcandidate : candidate letters py (.str c.tool) (.dict c.args) =
        .ok ((extractResourceIds letters text).head?.map fun resource => (sender.str, resource)) := by
      simp only [candidate, hchat, Val.isText, decide_true, if_true, orMapping_dict, bind, Except.bind, hsender, htext,
        or_str, htruthy, Bool.true_and]
      by_cases hempty : text = ""
      · rw [hempty]
        rfl
      · rw [if_pos (by simpa [Val.truthy] using hempty)]
        rfl
    have hnames : ∀ person resource, names letters person resource c = true ↔
        sender = person ∧ (extractResourceIds letters text).head? = some resource.str := by
      intro person resource
      simp [names, writes, hconsumes, hchat, hsender, htext, isText_uuid]
    cases hhead : (extractResourceIds letters text).head? with
    | none =>
      rw [hhead] at hcandidate
      refine .inl ⟨hcandidate, fun person resource => ?_⟩
      rw [Bool.eq_false_iff, ne_eq, hnames, hhead]
      rintro ⟨-, h⟩
      cases h
    | some rid =>
      obtain ⟨r, rfl⟩ := extract_uuid (List.mem_of_head? hhead)
      rw [hhead] at hcandidate
      refine .inr ⟨sender, r, hcandidate, fun person resource => ?_⟩
      rw [hnames, hhead, Option.some.injEq, UUID.str_injective.eq_iff]
  · have hwrites : ∀ p about, writes letters p c about = false := fun p about => by simp [writes, hchat]
    by_cases hconsumed : c.tool = "emit_data_product_consumed"
    · obtain ⟨p, r, hp, hr⟩ := hc.consumed hconsumed
      refine .inr ⟨p, r, ?_, fun person resource => ?_⟩
      · simp [candidate, hconsumed, Val.isText, orMapping_dict, bind, Except.bind, hp, hr, htruthy, pure, Except.pure]
      · simp [names, hwrites, consumes, hconsumed, hp, hr, isText_uuid]
    · refine .inl ⟨?_, fun person resource => ?_⟩
      · simp [candidate, hchat, hconsumed, Val.isText]
      · simp [names, hwrites, consumes, hconsumed]

/-- The proposal of the pair. -/
theorem proposeResourceRole_ok {confidence : PyFloat} (hrange : (PyFloat.le .zero confidence && PyFloat.le confidence .one) = true)
    (tokens : List String) : ∃ p, proposeResourceRole py person resource "maintainer" confidence tokens ⟨0⟩ = .ok p ∧
      p.tool = "emit_resource_role_proposed" ∧ Dict.get p.args "person_id" = .str person.str ∧
      Dict.get p.args "resource_id" = .str resource.str ∧ Dict.get p.args "role" = .str "maintainer" := by
  rw [proposeResourceRole, if_pos hrange, if_pos (by decide)]
  exact ⟨_, rfl, rfl, rfl, rfl, rfl⟩

/-- What is proposed for a pair: a maintainer of it, if the signals are enough. -/
theorem propose_spec (hall : ∀ c ∈ cycles, Checked c) (person resource : UUID) :
    (meets threshold (cycles.countP (signals letters person resource)) = true → ∃ p,
      propose letters py threshold (stored company stamp cycles) person.str resource.str = .ok (some p) ∧
        p.tool = "emit_resource_role_proposed" ∧ Dict.get p.args "person_id" = .str person.str ∧
        Dict.get p.args "resource_id" = .str resource.str ∧ Dict.get p.args "role" = .str "maintainer") ∧
    (meets threshold (cycles.countP (signals letters person resource)) = false → ∀ p,
      propose letters py threshold (stored company stamp cycles) person.str resource.str ≠ .ok (some p)) := by
  obtain ⟨counts, hcounts, htotal⟩ := @signals_stored letters py company stamp cycles hall person resource
  rw [← htotal, meets]
  simp only [propose, hcounts, bind, Except.bind, pure, Except.pure]
  by_cases hzero : counts.total = 0
  · simp [hzero]
  · rw [if_neg hzero, decide_eq_true hzero, Bool.true_and]
    cases hconfidence : signalConfidence counts.total with
    | error x => simp
    | ok confidence =>
      simp only
      cases hlt : PyFloat.lt confidence threshold with
      | true => simp
      | false =>
        obtain ⟨p, hp, hspec⟩ := @proposeResourceRole_ok py person resource confidence
          (signalConfidence_range hconfidence) counts.tokens
        rw [if_neg Bool.false_ne_true, UUID.toUUID_str, UUID.toUUID_str]
        simp only [hp]
        exact ⟨fun _ => ⟨p, rfl, hspec⟩, fun h => nomatch h⟩

/-- A pair is due at a cycle: the cycle is taken for it, it has no role, and its signals reach the threshold. -/
structure Due (letters : Letters) (threshold : PyFloat) (cycles : List Pevr) (c : Pevr) (person resource : UUID) : Prop where
  named : names letters person resource c = true
  unknown : ∀ d ∈ cycles, givesRole person resource d = false
  enough : meets threshold (cycles.countP (signals letters person resource)) = true

/-- The execute row of a cycle gives the proposal of the pair that is due, if there is one. -/
theorem fire_execute (hall : ∀ c ∈ cycles, Checked c) (hc : Checked c) (n : ℕ) (st : Stamp) :
    (∃ p person resource, ResourceOwnership.fire letters py threshold (stored company stamp cycles)
        (entryDict (WriteActions.Pevr.executeRow c company n st)) = .ok (some p) ∧
      Checked p ∧ (∀ q r, proposesMaintainer q r p = true ↔ person = q ∧ resource = r) ∧
      ∀ q r, Due letters threshold cycles c q r ↔ person = q ∧ resource = r) ∨
    ((∀ p, ResourceOwnership.fire letters py threshold (stored company stamp cycles)
        (entryDict (WriteActions.Pevr.executeRow c company n st)) ≠ .ok (some p)) ∧
      ∀ q r, ¬Due letters threshold cycles c q r) := by
  have hpayload : Dict.get (entryDict (WriteActions.Pevr.executeRow c company n st)) "payload" =
    .dict (c.executePayload st) := rfl
  have htool : Dict.get (c.executePayload st) "tool" = .str c.tool := rfl
  have hargs : Dict.get (c.executePayload st) "args" = .dict c.args := rfl
  simp only [ResourceOwnership.fire, hpayload, orMapping_dict, bind, Except.bind, htool, hargs, or_str]
  obtain ⟨known, hknown, hmem⟩ := @known_stored py company stamp cycles hall
  rcases @candidate_spec letters py c hc with ⟨hnone, hnames⟩ | ⟨person, resource, hsome, hnames⟩
  · rw [hnone]
    refine .inr ⟨fun p h => (nomatch h), fun q r hdue => ?_⟩
    have hnamed := hdue.named
    rw [hnames] at hnamed
    cases hnamed
  · rw [hsome]
    simp only [hknown]
    by_cases hin : (person.str, resource.str) ∈ known
    · rw [if_pos hin]
      refine .inr ⟨fun p h => (nomatch h), fun q r hdue => ?_⟩
      obtain ⟨rfl, rfl⟩ := (hnames q r).mp hdue.named
      obtain ⟨d, hd, hrole⟩ := (hmem person resource).mp hin
      rw [hdue.unknown d hd] at hrole
      cases hrole
    · rw [if_neg hin]
      obtain ⟨henough, hfew⟩ := @propose_spec letters py threshold company stamp cycles hall person resource
      cases hmeets : meets threshold (cycles.countP (signals letters person resource)) with
      | false =>
        refine .inr ⟨hfew hmeets, fun q r hdue => ?_⟩
        obtain ⟨rfl, rfl⟩ := (hnames q r).mp hdue.named
        have := hdue.enough
        rw [hmeets] at this
        cases this
      | true =>
        obtain ⟨p, hp, hptool, hpperson, hpresource, hprole⟩ := henough hmeets
        refine .inl ⟨p, person, resource, hp, ⟨?_, ?_, ?_⟩, ?_, ?_⟩
        · intro h
          rw [hptool] at h
          exact absurd h (by decide)
        · intro h
          rw [hptool] at h
          exact absurd h (by decide)
        · intro _
          exact ⟨person, resource, hpperson, hpresource⟩
        · intro q r
          simp [proposesMaintainer, hptool, hpperson, hpresource, hprole, Val.isText_iff, UUID.str_injective.eq_iff]
        · intro q r
          constructor
          · intro hdue
            exact (hnames q r).mp hdue.named
          · rintro ⟨rfl, rfl⟩
            refine ⟨(hnames person resource).mpr ⟨rfl, rfl⟩, fun d hd => ?_, hmeets⟩
            rw [Bool.eq_false_iff]
            intro hrole
            exact hin ((hmem person resource).mpr ⟨d, hd, hrole⟩)

end

/-! ### Runs -/

/-- The cycles of the ledger, the number of rows that have been dispatched, and what the reactivity has written. -/
structure Dispatched where
  cycles : List Pevr
  next : ℕ
  proposed : List Pevr

/-- A cycle is appended, or the next row is dispatched. The write of a proposal may fail. -/
inductive Turn where
  | append (c : {c : Pevr // Checked c})
  | dispatch (succeeds : Bool)

section
variable (letters : Letters) (py : Interp) (threshold : PyFloat) (company : UUID) (stamp : ℕ → Stamp)

def Dispatched.step (s : Dispatched) : Turn → Dispatched
  | .append c => { s with cycles := s.cycles ++ [c.1] }
  | .dispatch succeeds =>
    match (stored company stamp s.cycles)[s.next]? with
    | none => s
    | some row =>
      -- a `fire` that raises writes nothing
      match (ResourceOwnership.fire letters py threshold (stored company stamp s.cycles) (entryDict row)).toOption.join with
      | some p =>
        if succeeds then { cycles := s.cycles ++ [p], next := s.next + 1, proposed := s.proposed ++ [p] }
        else { s with next := s.next + 1 }
      | none => { s with next := s.next + 1 }

def afterTurns (turns : List Turn) : Dispatched :=
  turns.foldl (Dispatched.step letters py threshold company stamp) ⟨[], 0, []⟩

/-- The cycle whose execute row is dispatched next. -/
def Dispatched.cycle (s : Dispatched) : Option Pevr := if s.next % 4 = 1 then s.cycles[s.next / 4]? else none

/-- At some dispatch with a write that succeeds, the property holds of the state. -/
def Once (P : Dispatched → Prop) (turns : List Turn) : Prop :=
  ∃ before rest, turns = before ++ .dispatch true :: rest ∧ P (afterTurns letters py threshold company stamp before)

/-- The pair is due at the cycle that is dispatched. -/
def DueNext (person resource : UUID) (s : Dispatched) : Prop :=
  ∃ c, s.cycle = some c ∧ Due letters threshold s.cycles c person resource

/-- A cycle is dispatched while the signals of the pair reach the threshold and it has no role. -/
def Ripe (person resource : UUID) (s : Dispatched) : Prop :=
  (∃ c, s.cycle = some c) ∧ (∀ d ∈ s.cycles, givesRole person resource d = false) ∧
    meets threshold (s.cycles.countP (signals letters person resource)) = true

/-- Of a pair one proposal is written if it has come to `P`, and none otherwise. -/
structure ProposedOnce (P : UUID → UUID → Dispatched → Prop) (turns : List Turn) (person resource : UUID) : Prop where
  once : Once letters py threshold company stamp (P person resource) turns →
    (afterTurns letters py threshold company stamp turns).proposed.countP (proposesMaintainer person resource) = 1
  never : ¬Once letters py threshold company stamp (P person resource) turns →
    (afterTurns letters py threshold company stamp turns).proposed.countP (proposesMaintainer person resource) = 0

end

section
variable {letters : Letters} {py : Interp} {threshold : PyFloat} {company : UUID} {stamp : ℕ → Stamp}
  {cycles : List Pevr} {turns : List Turn} {turn : Turn} {s : Dispatched} {row : LedgerRow}

theorem stored_length : (stored company stamp cycles).length = 4 * cycles.length := by
  induction cycles using List.reverseRecOn with
  | nil => rfl
  | append_singleton cycles c ih =>
    rw [stored_snoc, List.length_append, ih, List.length_append, List.length_singleton, Nat.mul_add]
    rfl

/-- A row is the execute row of a cycle, or it has no tool. -/
theorem stored_row {k : ℕ} (h : (stored company stamp cycles)[k]? = some row) :
    ∃ c, cycles[k / 4]? = some c ∧ ((k % 4 = 1 ∧ ∃ n st, row = WriteActions.Pevr.executeRow c company n st) ∨
      (k % 4 ≠ 1 ∧ ∃ payload, row.payload = .dict payload ∧ Dict.get payload "tool" = .none)) := by
  induction cycles using List.reverseRecOn with
  | nil => cases h
  | append_singleton cycles c ih =>
    rw [stored_snoc] at h
    by_cases hlt : k < (stored company stamp cycles).length
    · rw [List.getElem?_append_left hlt] at h
      obtain ⟨d, hd, hrow⟩ := ih h
      refine ⟨d, ?_, hrow⟩
      rw [List.getElem?_append_left (List.getElem?_eq_some_iff.mp hd).1]
      exact hd
    · have hlength := @stored_length company stamp cycles
      rw [List.getElem?_append_right (by omega)] at h
      obtain ⟨i, hi⟩ : ∃ i, k = 4 * cycles.length + i := ⟨k - 4 * cycles.length, by omega⟩
      rw [hlength, hi, Nat.add_sub_cancel_left] at h
      have hi4 : i < 4 := (List.getElem?_eq_some_iff.mp h).1
      refine ⟨c, ?_, ?_⟩
      · rw [List.getElem?_append_right (by omega), show k / 4 - cycles.length = 0 by omega]
        rfl
      · match i, hi4, h with
        | 0, _, h =>
          obtain rfl := Option.some.inj h
          exact .inr ⟨by omega, _, rfl, rfl⟩
        | 1, _, h =>
          obtain rfl := Option.some.inj h
          exact .inl ⟨by omega, _, _, rfl⟩
        | 2, _, h =>
          obtain rfl := Option.some.inj h
          exact .inr ⟨by omega, _, rfl, rfl⟩
        | 3, _, h =>
          obtain rfl := Option.some.inj h
          exact .inr ⟨by omega, _, rfl, rfl⟩

/-- A row without a tool is for nobody. -/
theorem fire_scaffold {payload : Dict} (hrow : row.payload = .dict payload) (htool : Dict.get payload "tool" = .none)
    (rows : List LedgerRow) : ResourceOwnership.fire letters py threshold rows (entryDict row) = .ok none := by
  have hpayload : Dict.get (entryDict row) "payload" = row.payload := rfl
  have hor : (Val.none.or (.str "")) = .str "" := rfl
  simp only [ResourceOwnership.fire, hpayload, hrow, orMapping_dict, bind, Except.bind, htool, hor]
  rfl

theorem join_none {e : Except Err (Option Pevr)} (h : ∀ p, e ≠ .ok (some p)) : e.toOption.join = none := by
  match e, h with
  | .error _, _ => rfl
  | .ok none, _ => rfl
  | .ok (some p), h => exact absurd rfl (h p)

theorem afterTurns_snoc : afterTurns letters py threshold company stamp (turns ++ [turn]) =
    (afterTurns letters py threshold company stamp turns).step letters py threshold company stamp turn := by
  rw [afterTurns, List.foldl_append]
  rfl

theorem once_snoc {P : Dispatched → Prop} : Once letters py threshold company stamp P (turns ++ [turn]) ↔
    Once letters py threshold company stamp P turns ∨
      turn = .dispatch true ∧ P (afterTurns letters py threshold company stamp turns) := by
  constructor
  · rintro ⟨before, rest, hsplit, hP⟩
    rcases List.eq_nil_or_concat rest with rfl | ⟨rest, last, rfl⟩
    · obtain ⟨rfl, hturn⟩ := List.append_inj' hsplit rfl
      exact .inr ⟨(List.cons.inj hturn).1, hP⟩
    · rw [List.concat_eq_append, ← List.cons_append, ← List.append_assoc] at hsplit
      exact .inl ⟨before, rest, (List.append_inj' hsplit rfl).1, hP⟩
  · rintro (⟨before, rest, rfl, hP⟩ | ⟨rfl, hP⟩)
    · exact ⟨before, rest ++ [turn], by simp, hP⟩
    · exact ⟨turns, [], rfl, hP⟩

/-- The cycles are checked, and what the reactivity has written is among them. -/
structure Dispatched.Inv (s : Dispatched) : Prop where
  checked : ∀ c ∈ s.cycles, Checked c
  held : ∀ p ∈ s.proposed, p ∈ s.cycles

/-- A dispatch writes the proposal of the pair that is due, and nothing if there is none. -/
theorem Dispatched.Inv.dispatch (h : s.Inv) (succeeds : Bool) :
    (s.step letters py threshold company stamp (.dispatch succeeds)).Inv ∧ ∀ person resource : UUID,
      (succeeds = true ∧ DueNext letters threshold person resource s →
        (s.step letters py threshold company stamp (.dispatch succeeds)).proposed.countP
          (proposesMaintainer person resource) = s.proposed.countP (proposesMaintainer person resource) + 1) ∧
      (¬(succeeds = true ∧ DueNext letters threshold person resource s) →
        (s.step letters py threshold company stamp (.dispatch succeeds)).proposed.countP
          (proposesMaintainer person resource) = s.proposed.countP (proposesMaintainer person resource)) := by
  rw [Dispatched.step]
  cases hrow : (stored company stamp s.cycles)[s.next]? with
  | none =>
    refine ⟨h, fun person resource => ⟨?_, fun _ => rfl⟩⟩
    rintro ⟨-, c, hc, -⟩
    rw [Dispatched.cycle] at hc
    split at hc
    · have hlength := @stored_length company stamp s.cycles
      have hlt := (List.getElem?_eq_some_iff.mp hc).1
      have hend := List.getElem?_eq_none_iff.mp hrow
      omega
    · cases hc
  | some row =>
    obtain ⟨c, hc, ⟨hfour, n, st, rfl⟩ | ⟨hfour, payload, hpayload, htool⟩⟩ := stored_row hrow
    · have hcycle : s.cycle = some c := (if_pos hfour).trans hc
      have hnext : ∀ q r, DueNext letters threshold q r s ↔ Due letters threshold s.cycles c q r := by
        intro q r
        rw [DueNext, hcycle]
        simp
      have hchecked := h.checked c (List.mem_of_getElem? hc)
      rcases @fire_execute letters py threshold company stamp s.cycles c h.checked hchecked n st with
        ⟨p, person, resource, hfire, hp, hpair, hdue⟩ | ⟨hfire, hdue⟩
      · have hjoin : (Except.ok (some p) : Except Err (Option Pevr)).toOption.join = some p := rfl
        simp only [hfire, hjoin]
        cases succeeds with
        | false => exact ⟨⟨h.checked, h.held⟩, fun q r => ⟨fun hno => (nomatch hno.1), fun _ => rfl⟩⟩
        | true =>
          refine ⟨⟨?_, ?_⟩, fun q r => ?_⟩
          · exact List.forall_mem_append.mpr ⟨h.checked, List.forall_mem_singleton.mpr hp⟩
          · intro d hd
            rcases List.mem_append.mp hd with hd | hd
            · exact List.mem_append_left _ (h.held d hd)
            · exact List.mem_append_right _ hd
          · rw [hnext, hdue]
            simp only [if_true, List.countP_append, List.countP_singleton, true_and]
            constructor
            · intro hq
              rw [if_pos ((hpair q r).mpr hq)]
            · intro hq
              rw [if_neg fun hr => hq ((hpair q r).mp hr)]
              rfl
      · simp only [join_none hfire]
        refine ⟨⟨h.checked, h.held⟩, fun q r => ⟨?_, fun _ => trivial⟩⟩
        rintro ⟨-, hq⟩
        exact absurd ((hnext q r).mp hq) (hdue q r)
    · have hjoin : (Except.ok none : Except Err (Option Pevr)).toOption.join = none := rfl
      simp only [fire_scaffold hpayload htool, hjoin]
      refine ⟨⟨h.checked, h.held⟩, fun q r => ⟨?_, fun _ => trivial⟩⟩
      rintro ⟨-, d, hd, -⟩
      rw [Dispatched.cycle, if_neg hfour] at hd
      cases hd

theorem inv_afterTurns : ∀ turns, (afterTurns letters py threshold company stamp turns).Inv := by
  intro turns
  induction turns using List.reverseRecOn with
  | nil => exact ⟨fun c hc => (nomatch hc), fun p hp => (nomatch hp)⟩
  | append_singleton turns turn ih =>
    rw [afterTurns_snoc]
    cases turn with
    | append c =>
      refine ⟨?_, fun p hp => List.mem_append_left _ (ih.held p hp)⟩
      exact List.forall_mem_append.mpr ⟨ih.checked, List.forall_mem_singleton.mpr c.2⟩
    | dispatch succeeds => exact (ih.dispatch succeeds).1

/-- A pair that has been proposed has a role. -/
theorem Dispatched.Inv.proposed_known (h : s.Inv) {c : Pevr} {person resource : UUID}
    (hdue : Due letters threshold s.cycles c person resource) :
    s.proposed.countP (proposesMaintainer person resource) = 0 := by
  rw [List.countP_eq_zero]
  intro p hp hproposes
  have hrole : givesRole person resource p = true := by
    simp only [proposesMaintainer, Bool.and_eq_true, decide_eq_true_eq] at hproposes
    simp [givesRole, hproposes]
  rw [hdue.unknown p (h.held p hp)] at hrole
  cases hrole

end

/-! A resource that is always named second. -/

section

private def message (text : String) : Pevr where
  targetKind := "chat_received"
  refId := ⟨9⟩
  reason := "inbound chat message captured"
  proposedBy := "channel_adapter"
  tool := "channel_adapter.emit_chat_received"
  args := [(.str "channel_id", .str "C1"), (.str "message_id", .str "m1"), (.str "sender_person", .str (UUID.str ⟨7⟩)),
    (.str "text", .str text)]
  resultRef := "m1"
  rationale := "chat captured"

private theorem message_checked (text : String) : Checked (message text) where
  chat _ := ⟨⟨7⟩, text, rfl, rfl⟩
  consumed h := absurd h (by simp [message])
  role h := absurd h (by simp [message])

private def both : String :=
  "00000000-0000-0000-0000-000000000001 00000000-0000-0000-0000-000000000002"

private def nextFour : List Turn := List.replicate 4 (.dispatch true)

private def namedSecond : List Turn :=
  .append ⟨message both, message_checked both⟩ :: nextFour ++ .append ⟨message both, message_checked both⟩ :: nextFour ++ nextFour

end

end IdentityTracker
