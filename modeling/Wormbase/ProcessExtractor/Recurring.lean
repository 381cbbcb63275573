import Wormbase.Lib.Run
import Wormbase.ProcessExtractor.Topics

/-! The recurring questions of a tenant, and what both stores make of the messages that are written.

    Both build what they emit from a first-seen time that they read from `ts`. A dumped
    `ChatReceivedPayload` has no such key, so the first cluster that reaches its threshold raises. -/

namespace ProcessExtractor
open Py

/-! ### The store -/

structure Cluster where
  canonical : String
  occurrences : ℕ := 0
  askedBy : List UUID := []
  firstSeenAt : Option DateTime := none
  lastSeenAt : Option DateTime := none
  lastEmittedCount : ℕ := 0

structure RecurringQuestionStore where
  clusters : List Cluster := []
  recurringMin : ℤ := 3

structure RecurringQuestionPayload where
  questionId : UUID
  normalizedQuestion : String
  askedByPersons : List UUID
  occurrences : ℕ
  firstSeenAt : DateTime
  lastSeenAt : DateTime
  suggestedAutomation : Option String

def questionNamespace : UUID := ⟨0x8a3f9e2d7b4c4d1a9e8f1a2b3c4d5e6f⟩

def validationError : Err := ⟨"ValidationError", "seen-at fields must be tz-aware"⟩

/-- What an entry brings: its normal form, its sender and its time. -/
structure Question where
  norm : String
  sender : Option UUID
  ts : Option DateTime

section
variable (py : Interp) (ops : TextOps) (uuid5 : UUID → String → UUID)

namespace Cluster

/-- One more occurrence. -/
def count (c : Cluster) (sender : Option UUID) : Cluster :=
  { c with
    occurrences := c.occurrences + 1
    askedBy := match sender with
      | some person => if person ∈ c.askedBy then c.askedBy else c.askedBy ++ [person]
      | none => c.askedBy }

def seen (c : Cluster) : Option DateTime → Cluster
  | none => c
  | some ts => { c with firstSeenAt := some (c.firstSeenAt.getD ts), lastSeenAt := some ts }

/-- `_build_payload`: the model refuses naive times. -/
def buildPayload (c : Cluster) : Except Err RecurringQuestionPayload :=
  match c.firstSeenAt with
  | none => .error assertionError
  | some first =>
    let last := c.lastSeenAt.getD first
    if first.utcoffset.isNone ∨ last.utcoffset.isNone then .error validationError
    else
      .ok ⟨uuid5 questionNamespace c.canonical, String.ofList (c.canonical.toList.take 256),
        c.askedBy.mergeSort fun a b => a.str ≤ b.str, c.occurrences, first, last,
        if 4 ≤ c.occurrences then some ("daily digest: " ++ c.canonical) else none⟩

/-- What `update_from_chat_entry` does with the cluster it has found. -/
def take (recurringMin : ℤ) (q : Question) (c : Cluster) :
    Except Err (Option RecurringQuestionPayload) × Cluster :=
  let c := (c.count q.sender).seen q.ts
  if c.occurrences < recurringMin then (.ok none, c)
  else if c.occurrences = c.lastEmittedCount then (.ok none, c)
  else match c.buildPayload uuid5 with
    | .error e => (.error e, c)
    | .ok payload => (.ok (some payload), { c with lastEmittedCount := c.occurrences })

end Cluster

namespace RecurringQuestionStore

def newCluster (normalized : String) : Cluster := { canonical := normalized }

def findOrCreateCluster (store : RecurringQuestionStore) (normalized : String) : Cluster :=
  FirstFit.held joins Cluster.canonical newCluster store.clusters normalized

end RecurringQuestionStore

/-- The sender, when it is a UUID. -/
def senderOf : Val → Option UUID
  | .none => none
  | .uuid u => some u
  | raw => (Val.str (raw.toStr py)).toUUID.toOption

/-- What is read of the args; nothing of what is no question or has no tokens. -/
def question (args : Dict) : Option Question :=
  match Dict.get args "text" with
  | .str text =>
    if !isQuestion ops text then none
    else
      let norm := normalizeQuestion ops text
      if norm = "" then none
      else some ⟨norm, senderOf py (Dict.get args "sender_person"), parseTs (Dict.get args "ts")⟩
  | _ => none

/-- The outcome, and the store that is left. -/
def updateFromChatEntry (args : Dict) (store : RecurringQuestionStore) :
    Except Err (Option RecurringQuestionPayload) × RecurringQuestionStore :=
  match question py ops args with
  | none => (.ok none, store)
  | some q =>
    let r := (store.findOrCreateCluster q.norm).take uuid5 store.recurringMin q
    (r.1, { store with clusters := FirstFit.put joins Cluster.canonical store.clusters q.norm r.2 })

end

/-! ### What is written -/

inductive Classification where
  | publicData
  | internal
  | confidential
  | pii
  | regulated

def Classification.text : Classification → String
  | publicData => "public"
  | internal => "internal"
  | confidential => "confidential"
  | pii => "pii"
  | regulated => "regulated"

inductive DeliveryMode where
  | push
  | historySync

def DeliveryMode.text : DeliveryMode → String
  | push => "push"
  | historySync => "history_sync"

structure ChatReceivedPayload where
  channelId : String
  messageId : String
  senderPerson : UUID
  text : String
  classification : Classification
  deliveryMode : DeliveryMode := .push
  platformTs : Option DateTime := none
  historySyncId : Option String := none
  mentionedJids : Option (List String) := none
  platformUserId : Option String := none

/-- `model_dump(mode="json")`; how a time is written is pydantic's. -/
def ChatReceivedPayload.modelDump (isoText : DateTime → String) (p : ChatReceivedPayload) : Dict :=
  [(.str "channel_id", .str p.channelId),
    (.str "message_id", .str p.messageId),
    (.str "sender_person", .str p.senderPerson.str),
    (.str "text", .str p.text),
    (.str "classification", .str p.classification.text),
    (.str "delivery_mode", .str p.deliveryMode.text),
    (.str "platform_ts", p.platformTs.elim .none fun t => .str (isoText t)),
    (.str "history_sync_id", p.historySyncId.elim .none .str),
    (.str "mentioned_jids", p.mentionedJids.elim .none fun jids => .list (jids.map .str)),
    (.str "platform_user_id", p.platformUserId.elim .none .str)]

/-- No key of it is `ts`. -/
theorem modelDump_ts (isoText : DateTime → String) (p : ChatReceivedPayload) :
    Dict.get (p.modelDump isoText) "ts" = .none := rfl

/-! ### Both stores -/

/-- The two stores of a tenant. -/
structure Stores where
  topics : TopicClusterStore
  questions : RecurringQuestionStore

section
variable (py : Interp) (ops : TextOps) (uuid5 : UUID → String → UUID) (isoText : DateTime → String)

/-- One entry into both stores. -/
def Stores.step (st : Stores) (p : ChatReceivedPayload) : Option Stores :=
  some ⟨(updateTopicStoreFromChat py ops uuid5 (p.modelDump isoText) st.topics).2,
    (updateFromChatEntry py ops uuid5 (p.modelDump isoText) st.questions).2⟩

/-- The topic cluster of an entry has reached its threshold with the entry, and has grown. -/
def TopicDue (st : Stores) (p : ChatReceivedPayload) : Prop :=
  ∃ a, arrival py ops (p.modelDump isoText) = some a ∧
    let c := (st.topics.findOrCreateCluster a.norm).count a.messageId
    st.topics.topicMin ≤ c.clusterSize ∧ c.lastEmitSize < c.clusterSize

/-- The question cluster of an entry has reached its threshold with the entry, and has grown. -/
def QuestionDue (st : Stores) (p : ChatReceivedPayload) : Prop :=
  ∃ q, question py ops (p.modelDump isoText) = some q ∧
    let c := (st.questions.findOrCreateCluster q.norm).count q.sender
    st.questions.recurringMin ≤ c.occurrences ∧ c.lastEmittedCount < c.occurrences

/-- Neither raises, and each yields a payload exactly when one is due. -/
structure Yields (st : Stores) (p : ChatReceivedPayload) (_st' : Stores) : Prop where
  topic : ∃ result, (updateTopicStoreFromChat py ops uuid5 (p.modelDump isoText) st.topics).1 = .ok result ∧
    (result.isSome ↔ TopicDue py ops isoText st p)
  question : ∃ result, (updateFromChatEntry py ops uuid5 (p.modelDump isoText) st.questions).1 = .ok result ∧
    (result.isSome ↔ QuestionDue py ops isoText st p)

/-- Every entry of a sequence is synthesised as it should be. -/
def SynthesisWorks (topicMin recurringMin : ℤ) (ps : List ChatReceivedPayload) : Prop :=
  Run.EachStep (Stores.step py ops uuid5 isoText) (Yields py ops uuid5 isoText) ⟨⟨[], topicMin⟩, ⟨[], recurringMin⟩⟩ ps

/-- The entry leaves both of its clusters below their thresholds. -/
def Below (st : Stores) (p : ChatReceivedPayload) : Prop :=
  (∀ a, arrival py ops (p.modelDump isoText) = some a →
    (((st.topics.findOrCreateCluster a.norm).count a.messageId).clusterSize : ℤ) < st.topics.topicMin) ∧
  ∀ q, question py ops (p.modelDump isoText) = some q →
    ((st.questions.findOrCreateCluster q.norm).occurrences + 1 : ℤ) < st.questions.recurringMin

end

/-! ### Clusters without a time -/

/-- A topic cluster that no entry gave a time, and that has emitted nothing. -/
structure TopicCluster.Untimed (c : TopicCluster) : Prop where
  first : c.firstSeenAt = none
  emitted : c.lastEmitSize = 0
  empty : c.clusterSize = 0 → c.memberMessageIdSet = ∅

/-- A question cluster that no entry gave a time, and that has emitted nothing. -/
structure Cluster.Untimed (c : Cluster) : Prop where
  first : c.firstSeenAt = none
  emitted : c.lastEmittedCount = 0

/-- All clusters are such. -/
def Stores.Untimed (st : Stores) : Prop :=
  (∀ c ∈ st.topics.clusters, c.Untimed) ∧ ∀ c ∈ st.questions.clusters, c.Untimed

namespace TopicCluster
variable {c : TopicCluster} {uuid5 : UUID → String → UUID} {topicMin : ℤ}

theorem Untimed.count (h : c.Untimed) (messageId : String) :
    (c.count messageId).Untimed ∧ 0 < (c.count messageId).clusterSize := by
  obtain ⟨hfirst, hemitted, hempty⟩ := h
  have hadd : ∀ m, (c.add m).Untimed ∧ 0 < (c.add m).clusterSize := fun m =>
    ⟨⟨hfirst, hemitted, fun h0 => absurd h0 (Nat.succ_ne_zero _)⟩, Nat.succ_pos _⟩
  have hknown : ∀ m ∈ c.memberMessageIdSet, c.Untimed ∧ 0 < c.clusterSize := by
    intro m hm
    refine ⟨⟨hfirst, hemitted, hempty⟩, Nat.pos_of_ne_zero fun h0 => ?_⟩
    rw [hempty h0] at hm
    exact Finset.notMem_empty m hm
  rw [TopicCluster.count]
  split
  · exact hadd messageId
  · rename_i hold
    split
    · split
      · exact hadd noMessageId
      · rename_i hsentinel
        exact hknown noMessageId (not_not.mp hsentinel)
    · rename_i hid
      exact hknown messageId (not_not.mp fun hnew => hold ⟨hid, hnew⟩)

/-- Without a time a cluster is updated quietly below its threshold, and raises from there on. -/
theorem Untimed.take (h : c.Untimed) {a : Arrival} (hts : a.ts = none) :
    (c.take uuid5 topicMin a).2 = c.count a.messageId ∧
      (c.take uuid5 topicMin a).1 =
        if (c.count a.messageId).clusterSize < topicMin then .ok none else .error assertionError := by
  obtain ⟨huntimed, hpos⟩ := h.count a.messageId
  have hne : (c.count a.messageId).clusterSize ≠ (c.count a.messageId).lastEmitSize := by
    rw [huntimed.emitted]
    exact hpos.ne'
  have hraises : (c.count a.messageId).buildEmitDict uuid5 = .error assertionError := by
    rw [buildEmitDict, huntimed.first]
  rw [TopicCluster.take, hts, seen]
  split
  · exact ⟨rfl, rfl⟩
  · rw [hraises]
    exact ⟨rfl, rfl⟩

end TopicCluster

namespace Cluster
variable {c : Cluster} {uuid5 : UUID → String → UUID} {recurringMin : ℤ}

theorem Untimed.take (h : c.Untimed) {q : Question} (hts : q.ts = none) :
    (c.take uuid5 recurringMin q).2 = c.count q.sender ∧
      (c.take uuid5 recurringMin q).1 =
        if (c.occurrences + 1 : ℤ) < recurringMin then .ok none else .error assertionError := by
  have hne : (c.count q.sender).occurrences ≠ (c.count q.sender).lastEmittedCount := by
    have hsame : (c.count q.sender).lastEmittedCount = 0 := h.emitted
    rw [hsame]
    exact Nat.succ_ne_zero _
  have hraises : (c.count q.sender).buildPayload uuid5 = .error assertionError := by
    have hfirst : (c.count q.sender).firstSeenAt = none := h.first
    rw [buildPayload, hfirst]
  rw [Cluster.take, hts, seen]
  split
  · rename_i hsmall
    exact ⟨rfl, (if_pos hsmall).symm⟩
  · rename_i hlarge
    rw [hraises]
    exact ⟨rfl, (if_neg hlarge).symm⟩

end Cluster

/-! ### Sequences -/

section
variable {py : Interp} {ops : TextOps} {uuid5 : UUID → String → UUID} {isoText : DateTime → String}
  {p : ChatReceivedPayload} {st : Stores}

/-- A message that is written has no time for the clusters. -/
theorem arrival_ts {a : Arrival} (ha : arrival py ops (p.modelDump isoText) = some a) : a.ts = none := by
  have hts : a.ts = parseTs (Dict.get (p.modelDump isoText) "ts") := by
    rw [arrival] at ha
    split at ha
    · split at ha
      · cases ha
      · simp only at ha
        split at ha
        · cases ha
        · rw [← Option.some.inj ha]
    · cases ha
  rw [hts, modelDump_ts]
  rfl

theorem question_ts {q : Question} (hq : question py ops (p.modelDump isoText) = some q) : q.ts = none := by
  have hts : q.ts = parseTs (Dict.get (p.modelDump isoText) "ts") := by
    rw [question] at hq
    split at hq
    · split at hq
      · cases hq
      · simp only at hq
        split at hq
        · cases hq
        · rw [← Option.some.inj hq]
    · cases hq
  rw [hts, modelDump_ts]
  rfl

theorem Stores.Untimed.topicCluster (h : st.Untimed) (norm : String) : (st.topics.findOrCreateCluster norm).Untimed :=
  FirstFit.held_forall h.1 norm ⟨rfl, rfl, fun _ => rfl⟩

theorem Stores.Untimed.questionCluster (h : st.Untimed) (norm : String) :
    (st.questions.findOrCreateCluster norm).Untimed :=
  FirstFit.held_forall h.2 norm ⟨rfl, rfl⟩

theorem Stores.Untimed.step {st' : Stores} (h : st.Untimed) (hstep : st.step py ops uuid5 isoText p = some st') :
    st'.Untimed := by
  obtain rfl := Option.some.inj hstep
  constructor
  · cases ha : arrival py ops (p.modelDump isoText) with
    | none =>
      rw [updateTopicStoreFromChat, ha]
      exact h.1
    | some a =>
      rw [updateTopicStoreFromChat, ha]
      refine FirstFit.put_forall ?_ h.1
      rw [((h.topicCluster a.norm).take (arrival_ts ha)).1]
      exact ((h.topicCluster a.norm).count a.messageId).1
  · cases hq : question py ops (p.modelDump isoText) with
    | none =>
      rw [updateFromChatEntry, hq]
      exact h.2
    | some q =>
      rw [updateFromChatEntry, hq]
      refine FirstFit.put_forall ?_ h.2
      rw [((h.questionCluster q.norm).take (question_ts hq)).1]
      exact ⟨(h.questionCluster q.norm).first, (h.questionCluster q.norm).emitted⟩

/-- An outcome that is none below a threshold and an error from there on is as it should be exactly below. -/
theorem quiet_iff {α : Type} {out : Except Err (Option α)} {e : Err} {small due : Prop} [Decidable small]
    (hout : out = if small then .ok none else .error e) (hdue : due → ¬small) :
    (∃ result, out = .ok result ∧ (result.isSome ↔ due)) ↔ small := by
  rw [hout]
  split
  · rename_i hsmall
    refine ⟨fun _ => hsmall, fun _ => ⟨none, rfl, ?_⟩⟩
    exact ⟨fun h => absurd h Bool.false_ne_true, fun h => absurd hsmall (hdue h)⟩
  · rename_i hlarge
    refine ⟨?_, fun hsmall => absurd hsmall hlarge⟩
    rintro ⟨_, hok, -⟩
    cases hok

/-- Where nothing is read, nothing is due. -/
theorem idle_yields {α : Type} {due : Prop} (hdue : ¬due) :
    ∃ result, (Except.ok none : Except Err (Option α)) = .ok result ∧ (result.isSome ↔ due) :=
  ⟨none, rfl, fun h => absurd h Bool.false_ne_true, fun h => absurd h hdue⟩

/-- The topic outcome is as it should be exactly if the cluster stays below its threshold. -/
theorem Stores.Untimed.topic_yields_iff (h : st.Untimed) :
    (∃ result, (updateTopicStoreFromChat py ops uuid5 (p.modelDump isoText) st.topics).1 = .ok result ∧
      (result.isSome ↔ TopicDue py ops isoText st p)) ↔
    ∀ a, arrival py ops (p.modelDump isoText) = some a →
      (((st.topics.findOrCreateCluster a.norm).count a.messageId).clusterSize : ℤ) < st.topics.topicMin := by
  rw [updateTopicStoreFromChat]
  simp only [TopicDue]
  cases ha : arrival py ops (p.modelDump isoText) with
  | none =>
    refine ⟨fun _ a ha' => absurd ha'.symm (Option.some_ne_none a), fun _ => idle_yields ?_⟩
    rintro ⟨a, ha', -⟩
    cases ha'
  | some a =>
    simp only [Option.some.injEq, exists_eq_left', forall_eq']
    exact quiet_iff ((h.topicCluster a.norm).take (arrival_ts ha)).2 fun hdue => not_lt.mpr hdue.1

/-- The question outcome is as it should be exactly if the cluster stays below its threshold. -/
theorem Stores.Untimed.question_yields_iff (h : st.Untimed) :
    (∃ result, (updateFromChatEntry py ops uuid5 (p.modelDump isoText) st.questions).1 = .ok result ∧
      (result.isSome ↔ QuestionDue py ops isoText st p)) ↔
    ∀ q, question py ops (p.modelDump isoText) = some q →
      ((st.questions.findOrCreateCluster q.norm).occurrences + 1 : ℤ) < st.questions.recurringMin := by
  rw [updateFromChatEntry]
  simp only [QuestionDue]
  cases hq : question py ops (p.modelDump isoText) with
  | none =>
    refine ⟨fun _ q hq' => (nomatch hq'), fun _ => idle_yields ?_⟩
    rintro ⟨q, hq', -⟩
    cases hq'
  | some q =>
    simp only [Option.some.injEq, exists_eq_left', forall_eq']
    exact quiet_iff ((h.questionCluster q.norm).take (question_ts hq)).2 fun hdue => not_lt.mpr hdue.1

end

/-- For every sequence of messages as they are written, both stores neither raise nor miss a payload
    exactly if no message brings a cluster to its threshold. -/
theorem synthesis_works_iff (py : Interp) (ops : TextOps) (uuid5 : UUID → String → UUID) (isoText : DateTime → String)
    (topicMin recurringMin : ℤ) (ps : List ChatReceivedPayload) :
    SynthesisWorks py ops uuid5 isoText topicMin recurringMin ps ↔
      Run.Guarded (Stores.step py ops uuid5 isoText) (Below py ops isoText)
        ⟨⟨[], topicMin⟩, ⟨[], recurringMin⟩⟩ ps := by
  refine @Run.eachStep_iff_guarded _ _ (Stores.step py ops uuid5 isoText) (Below py ops isoText) Stores.Untimed
    (fun _ => True) _ (fun st p st' h hstep => h.step hstep) (fun _ _ _ _ => trivial) (fun st p => ⟨_, rfl⟩) ?_ ps _ ?_
    trivial
  · intro st p st' h _ _
    constructor
    · rintro ⟨htopic, hquestion⟩
      exact ⟨h.topic_yields_iff.mp htopic, h.question_yields_iff.mp hquestion⟩
    · rintro ⟨htopic, hquestion⟩
      exact ⟨h.topic_yields_iff.mpr htopic, h.question_yields_iff.mpr hquestion⟩
  · exact ⟨fun _ h => absurd h List.not_mem_nil, fun _ h => absurd h List.not_mem_nil⟩

/-! ### Two messages as they are written -/

def writtenMessage (messageId : String) : ChatReceivedPayload where
  channelId := "C1"
  messageId := messageId
  senderPerson := ⟨1⟩
  text := "q3 net revenue"
  classification := .internal

/-- The second message about revenue brings its cluster to two, and the assertion fails. -/
theorem second_message_raises :
    ¬SynthesisWorks .plain .ascii revenueId (fun _ => "") 2 3 [writtenMessage "m1", writtenMessage "m2"] := by
  intro h
  obtain ⟨-, hsecond⟩ := h _ rfl
  obtain ⟨⟨result, hok, -⟩, -⟩ := (hsecond _ rfl).1
  have hraises : (updateTopicStoreFromChat .plain .ascii revenueId ((writtenMessage "m2").modelDump fun _ => "")
      (updateTopicStoreFromChat .plain .ascii revenueId ((writtenMessage "m1").modelDump fun _ => "")
        ⟨[], 2⟩).2).1.toOption.isSome = false := by decide +kernel
  rw [hok] at hraises
  cases hraises

end ProcessExtractor
