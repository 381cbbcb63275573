import Wormbase.Lib.Slots
import Wormbase.ProcessExtractor.Similarity

/-! The topic clusters of a tenant, and what a second ingestion of a message does to them.

    A repeat adds no member and emits nothing, and a whole ledger ingested twice leaves what it leaves
    once. But the last-seen time is set by every entry, so a repeat out of turn sets it back. -/

namespace ProcessExtractor
open Py

/-! ### The store -/

structure TopicCluster where
  canonical : String
  clusterSize : ℕ := 0
  memberMessageIds : List String := []
  memberMessageIdSet : Finset String := ∅
  firstSeenAt : Option DateTime := none
  lastSeenAt : Option DateTime := none
  lastEmitSize : ℕ := 0

structure TopicClusterStore where
  clusters : List TopicCluster := []
  topicMin : ℤ := 2

/-- What `_build_emit_dict` gives to the reactivity. -/
structure EmitDict where
  topicId : UUID
  clusterSignature : String
  clusterSize : ℕ
  memberMessageIds : List String
  firstSeenAt : DateTime
  lastSeenAt : DateTime

def assertionError : Err := ⟨"AssertionError", ""⟩

def topicNamespace : UUID := ⟨0x3c5e8d2f9b1a4f7cbd2e5a8f6c7d4e9b⟩

def noMessageId : String := "__no_message_id__"

/-- What an entry brings: its normal form, its message id and its time. -/
structure Arrival where
  norm : String
  messageId : String
  ts : Option DateTime

section
variable (py : Interp) (ops : TextOps) (uuid5 : UUID → String → UUID)

/-- `derive_topic_id`. -/
def deriveTopicId (clusterSignature : String) : UUID := uuid5 topicNamespace clusterSignature

namespace TopicCluster

/-- A message id that the cluster does not have yet. -/
def add (c : TopicCluster) (messageId : String) : TopicCluster :=
  { c with
    memberMessageIdSet := insert messageId c.memberMessageIdSet
    memberMessageIds := c.memberMessageIds ++ [messageId]
    clusterSize := c.clusterSize + 1 }

/-- A known id counts for nothing, and all messages without one count once. -/
def count (c : TopicCluster) (messageId : String) : TopicCluster :=
  if messageId ≠ "" ∧ messageId ∉ c.memberMessageIdSet then c.add messageId
  else if messageId = "" then
    if noMessageId ∉ c.memberMessageIdSet then c.add noMessageId else c
  else c

def seen (c : TopicCluster) : Option DateTime → TopicCluster
  | none => c
  | some ts => { c with firstSeenAt := some (c.firstSeenAt.getD ts), lastSeenAt := some ts }

/-- `_build_emit_dict`. -/
def buildEmitDict (c : TopicCluster) : Except Err EmitDict :=
  match c.firstSeenAt, c.lastSeenAt with
  | some first, some last =>
    .ok ⟨deriveTopicId uuid5 c.canonical, String.ofList (c.canonical.toList.take 512), c.clusterSize,
      c.memberMessageIds, first, last⟩
  | _, _ => .error assertionError

/-- What `update_topic_store_from_chat` does with the cluster it has found. -/
def take (topicMin : ℤ) (a : Arrival) (c : TopicCluster) : Except Err (Option EmitDict) × TopicCluster :=
  let c := (c.count a.messageId).seen a.ts
  if c.clusterSize < topicMin then (.ok none, c)
  else if c.clusterSize = c.lastEmitSize then (.ok none, c)
  else match c.buildEmitDict uuid5 with
    | .error e => (.error e, c)
    | .ok emitDict => (.ok (some emitDict), { c with lastEmitSize := c.clusterSize })

end TopicCluster

namespace TopicClusterStore

def canonicals (store : TopicClusterStore) : List String := store.clusters.map TopicCluster.canonical

/-- A cluster with nothing in it yet. -/
def newCluster (normalized : String) : TopicCluster := { canonical := normalized }

/-- The cluster itself; a new one enters the list when it is put back. -/
def findOrCreateCluster (store : TopicClusterStore) (normalized : String) : TopicCluster :=
  FirstFit.held joins TopicCluster.canonical newCluster store.clusters normalized

/-- The index of that cluster. -/
def place (store : TopicClusterStore) (normalized : String) : ℕ :=
  FirstFit.slot joins store.canonicals normalized

end TopicClusterStore

/-- What is read of the args; nothing of a text without tokens. -/
def arrival (args : Dict) : Option Arrival :=
  match Dict.get args "text" with
  | .str text =>
    if text = "" then none
    else
      let norm := normalizeQuestion ops text
      if norm = "" then none
      else
        let messageId := match Dict.get args "message_id" with
          | .none => ""
          | raw => raw.toStr py
        some ⟨norm, messageId, parseTs (Dict.get args "ts")⟩
  | _ => none

/-- The outcome, and the store that is left. -/
def updateTopicStoreFromChat (args : Dict) (store : TopicClusterStore) :
    Except Err (Option EmitDict) × TopicClusterStore :=
  match arrival py ops args with
  | none => (.ok none, store)
  | some a =>
    let r := (store.findOrCreateCluster a.norm).take uuid5 store.topicMin a
    (r.1, { store with clusters := FirstFit.put joins TopicCluster.canonical store.clusters a.norm r.2 })

/-- A ledger into a store. -/
def ingest (store : TopicClusterStore) (es : List Dict) : TopicClusterStore :=
  es.foldl (fun store args => (updateTopicStoreFromChat py ops uuid5 args store).2) store

/-! ### Replays -/

/-- A time and a message id. -/
def Arrival.Carries (a : Arrival) : Prop := a.ts.isSome ∧ a.messageId ≠ ""


/-- What a ledger leaves takes every further replay of it. -/
structure ReplayIdempotent (topicMin : ℤ) (es : List Dict) : Prop where
  assigned : ∀ pre args post a, es = pre ++ args :: post → arrival py ops args = some a →
    (ingest py ops uuid5 ⟨[], topicMin⟩ pre).place a.norm = (ingest py ops uuid5 ⟨[], topicMin⟩ es).place a.norm
  named : ∀ pre post, es = pre ++ post → (ingest py ops uuid5 ⟨[], topicMin⟩ pre).canonicals <+:
    (ingest py ops uuid5 ⟨[], topicMin⟩ es).canonicals
  again : ∀ args ∈ es, updateTopicStoreFromChat py ops uuid5 args (ingest py ops uuid5 ⟨[], topicMin⟩ es) =
    (.ok none, ingest py ops uuid5 ⟨[], topicMin⟩ es)
  twice : ingest py ops uuid5 ⟨[], topicMin⟩ (es ++ es) = ingest py ops uuid5 ⟨[], topicMin⟩ es

/-- The cluster of a text among those that the texts of a ledger open. -/
def clusterOf (es : List Dict) (norm : String) : ℕ :=
  FirstFit.slot joins (FirstFit.allNamed joins [] ((es.filterMap (arrival py ops)).map Arrival.norm)) norm

/-- Entries of one cluster carry one time. -/
def OneTime (es : List Dict) : Prop :=
  ∀ a ∈ es.filterMap (arrival py ops), ∀ b ∈ es.filterMap (arrival py ops),
    clusterOf py ops es a.norm = clusterOf py ops es b.norm → a.ts = b.ts

end

/-! ### One cluster -/

section
variable {uuid5 : UUID → String → UUID} {topicMin : ℤ} {a b : Arrival} {c : TopicCluster}

namespace TopicCluster

/-- The message of an arrival is a member. -/
def Knows (c : TopicCluster) (a : Arrival) : Prop := a.messageId ∈ c.memberMessageIdSet

/-- The cluster has been seen, and has nothing to emit. -/
def Settled (topicMin : ℤ) (c : TopicCluster) : Prop :=
  c.firstSeenAt.isSome ∧ (c.clusterSize < topicMin ∨ c.clusterSize = c.lastEmitSize)

/-- The member that an arrival brings is added, the times are set, and the size is or is not noted. -/
theorem take_cases (hts : a.ts.isSome) : let c' := (c.count a.messageId).seen a.ts
    c'.Settled topicMin ∧ c.take uuid5 topicMin a = (.ok none, c') ∨
    ¬c'.clusterSize < topicMin ∧ c'.clusterSize ≠ c'.lastEmitSize ∧ ∃ emitDict,
      c.take uuid5 topicMin a = (.ok (some emitDict), { c' with lastEmitSize := c'.clusterSize }) := by
  intro c'
  obtain ⟨ts, hts⟩ := Option.isSome_iff_exists.mp hts
  have hfirst : c'.firstSeenAt = some ((c.count a.messageId).firstSeenAt.getD ts) := by
    simp only [c', hts, seen]
  have hlast : c'.lastSeenAt = some ts := by
    simp only [c', hts, seen]
  have hseen : c'.firstSeenAt.isSome := by
    rw [hfirst]
    rfl
  by_cases hsmall : c'.clusterSize < topicMin
  · exact .inl ⟨⟨hseen, .inl hsmall⟩, by rw [take, if_pos hsmall]⟩
  · by_cases hsame : c'.clusterSize = c'.lastEmitSize
    · exact .inl ⟨⟨hseen, .inr hsame⟩, by rw [take, if_neg hsmall, if_pos hsame]⟩
    · refine .inr ⟨hsmall, hsame, ?_⟩
      have hbuild : ∃ emitDict, c'.buildEmitDict uuid5 = .ok emitDict := by
        rw [buildEmitDict, hfirst, hlast]
        exact ⟨_, rfl⟩
      obtain ⟨emitDict, hbuild⟩ := hbuild
      exact ⟨emitDict, by rw [take, if_neg hsmall, if_neg hsame, hbuild]⟩

theorem count_set (hid : a.messageId ≠ "") :
    (c.count a.messageId).memberMessageIdSet = insert a.messageId c.memberMessageIdSet := by
  rw [count]
  by_cases hnew : a.messageId ∈ c.memberMessageIdSet
  · rw [if_neg fun h => h.2 hnew, if_neg hid, Finset.insert_eq_of_mem hnew]
  · rw [if_pos ⟨hid, hnew⟩]
    rfl

theorem count_known (hid : a.messageId ≠ "") (h : c.Knows a) : c.count a.messageId = c := by
  rw [count, if_neg fun hnew => hnew.2 h, if_neg hid]

theorem count_canonical (messageId : String) : (c.count messageId).canonical = c.canonical := by
  rw [count]
  split
  · rfl
  · split
    · split <;> rfl
    · rfl

theorem seen_canonical (ts : Option DateTime) : (c.seen ts).canonical = c.canonical := by
  cases ts <;> rfl

theorem seen_set (ts : Option DateTime) : (c.seen ts).memberMessageIdSet = c.memberMessageIdSet := by
  cases ts <;> rfl

theorem take_canonical (a : Arrival) (c : TopicCluster) : (c.take uuid5 topicMin a).2.canonical = c.canonical := by
  have hname : ((c.count a.messageId).seen a.ts).canonical = c.canonical := by
    rw [seen_canonical, count_canonical]
  simp only [take]
  split
  · exact hname
  · split
    · exact hname
    · split
      · exact hname
      · exact hname

theorem take_knows (h : a.Carries) : (c.take uuid5 topicMin a).2.Knows a ∧
    ∀ b : Arrival, c.Knows b → (c.take uuid5 topicMin a).2.Knows b := by
  have hset : (c.take uuid5 topicMin a).2.memberMessageIdSet = insert a.messageId c.memberMessageIdSet := by
    have hset' : ((c.count a.messageId).seen a.ts).memberMessageIdSet = insert a.messageId c.memberMessageIdSet := by
      rw [seen_set, count_set h.2]
    rcases @take_cases uuid5 topicMin a c h.1 with ⟨-, htake⟩ | ⟨-, -, emitDict, htake⟩
    · rw [htake]
      exact hset'
    · rw [htake]
      exact hset'
  refine ⟨?_, fun b hb => ?_⟩
  · rw [Knows, hset]
    exact Finset.mem_insert_self _ _
  · rw [Knows, hset]
    exact Finset.mem_insert_of_mem hb

theorem take_settled (h : a.Carries) : (c.take uuid5 topicMin a).2.Settled topicMin ∧
    (c.take uuid5 topicMin a).2.lastSeenAt = a.ts := by
  obtain ⟨ts, hts⟩ := Option.isSome_iff_exists.mp h.1
  have hlast : ((c.count a.messageId).seen a.ts).lastSeenAt = a.ts := by
    rw [hts]
    rfl
  have hfirst : ((c.count a.messageId).seen a.ts).firstSeenAt.isSome := by
    rw [hts]
    rfl
  rcases @take_cases uuid5 topicMin a c h.1 with ⟨hsettled, htake⟩ | ⟨-, -, emitDict, htake⟩
  · rw [htake]
    exact ⟨hsettled, hlast⟩
  · rw [htake]
    exact ⟨⟨hfirst, .inr rfl⟩, hlast⟩

/-- All that a repeat does is to set the last-seen time. -/
theorem take_again (h : a.Carries) (hknows : c.Knows a) (hsettled : c.Settled topicMin) :
    c.take uuid5 topicMin a = (.ok none, { c with lastSeenAt := a.ts }) := by
  obtain ⟨hfirst, hsize⟩ := hsettled
  obtain ⟨ts, hts⟩ := Option.isSome_iff_exists.mp h.1
  obtain ⟨first, hfirst⟩ := Option.isSome_iff_exists.mp hfirst
  have hseen : (c.count a.messageId).seen a.ts = { c with lastSeenAt := a.ts } := by
    rw [count_known h.2 hknows, hts, seen, hfirst]
    obtain ⟨⟩ := c
    obtain rfl := hfirst
    rfl
  rw [take, hseen]
  split
  · rfl
  · rename_i hlarge
    exact if_pos (hsize.resolve_left hlarge)

end TopicCluster

/-! ### The arrivals of one cluster -/

/-- What the arrivals of a cluster make of it. -/
def gathered (uuid5 : UUID → String → UUID) (topicMin : ℤ) (c : Option TopicCluster) (own : List Arrival) :
    Option TopicCluster :=
  FirstFit.fill TopicClusterStore.newCluster Arrival.norm (fun a c => (c.take uuid5 topicMin a).2) c own

/-- The cluster knows all its arrivals, and was last seen with the last of them. -/
theorem gathered_settled {own : List Arrival} (hown : ∀ a ∈ own, a.Carries) (hne : own ≠ []) :
    ∃ c, gathered uuid5 topicMin none own = some c ∧ c.Settled topicMin ∧ (∀ a ∈ own, c.Knows a) ∧
      ∀ a, own.getLast? = some a → c.lastSeenAt = a.ts := by
  induction own using List.reverseRecOn with
  | nil => exact absurd rfl hne
  | append_singleton own a ih =>
    have ha := hown a (List.mem_append_right own List.mem_cons_self)
    have hbefore : ∀ b ∈ own, ((gathered uuid5 topicMin none own).getD
        (TopicClusterStore.newCluster a.norm)).Knows b := by
      intro b hb
      have hne' : own ≠ [] := List.ne_nil_of_mem hb
      obtain ⟨c, hc, -, hknows, -⟩ := ih (fun b hb => hown b (List.mem_append_left _ hb)) hne'
      rw [hc]
      exact hknows b hb
    refine ⟨_, FirstFit.fill_concat none own a, ?_⟩
    obtain ⟨hsettled, hlast⟩ := @TopicCluster.take_settled uuid5 topicMin a
      ((gathered uuid5 topicMin none own).getD (TopicClusterStore.newCluster a.norm)) ha
    obtain ⟨hself, hothers⟩ := @TopicCluster.take_knows uuid5 topicMin a
      ((gathered uuid5 topicMin none own).getD (TopicClusterStore.newCluster a.norm)) ha
    refine ⟨hsettled, fun b hb => ?_, fun b hb => ?_⟩
    · rcases List.mem_append.mp hb with hb | hb
      · exact hothers b (hbefore b hb)
      · rw [List.mem_singleton.mp hb]
        exact hself
    · rw [List.getLast?_concat] at hb
      rw [← Option.some.inj hb]
      exact hlast

/-- A repeat of all arrivals sets the last-seen time to that of the last. -/
theorem gathered_again {own : List Arrival} (hown : ∀ a ∈ own, a.Carries) (hknows : ∀ a ∈ own, c.Knows a)
    (hsettled : c.Settled topicMin) : gathered uuid5 topicMin (some c) own =
      some { c with lastSeenAt := own.getLast?.elim c.lastSeenAt Arrival.ts } := by
  induction own using List.reverseRecOn with
  | nil => rfl
  | append_singleton own a ih =>
    have hmem : a ∈ own ++ [a] := List.mem_append_right own List.mem_cons_self
    have ih' := ih (fun b hb => hown b (List.mem_append_left _ hb)) (fun b hb => hknows b (List.mem_append_left _ hb))
    rw [gathered] at ih' ⊢
    rw [FirstFit.fill_concat, ih', Option.getD_some, List.getLast?_concat, Option.elim_some]
    have hagain := @TopicCluster.take_again uuid5 topicMin a
      { c with lastSeenAt := own.getLast?.elim c.lastSeenAt Arrival.ts } (hown a hmem) (hknows a hmem) hsettled
    rw [hagain]

theorem gathered_twice {own : List Arrival} (hown : ∀ a ∈ own, a.Carries) :
    gathered uuid5 topicMin (gathered uuid5 topicMin none own) own = gathered uuid5 topicMin none own := by
  by_cases hne : own = []
  · rw [hne]
    rfl
  · obtain ⟨c, hc, hsettled, hknows, hlast⟩ := @gathered_settled uuid5 topicMin own hown hne
    obtain ⟨a, ha⟩ := List.getLast?_isSome.mpr hne |> Option.isSome_iff_exists.mp
    have hsame : own.getLast?.elim c.lastSeenAt Arrival.ts = c.lastSeenAt := by
      rw [ha, Option.elim_some, hlast a ha]
    rw [hc, gathered_again hown hknows hsettled, hsame]

end

/-! ### Ledgers -/

section
variable {py : Interp} {ops : TextOps} {uuid5 : UUID → String → UUID} {topicMin : ℤ}

/-- The clusters that the arrivals of a ledger make of others. -/
abbrev clustersOf (uuid5 : UUID → String → UUID) (topicMin : ℤ) (clusters : List TopicCluster) (items : List Arrival) :
    List TopicCluster :=
  FirstFit.enterAll joins TopicCluster.canonical TopicClusterStore.newCluster Arrival.norm
    (fun a c => (c.take uuid5 topicMin a).2) clusters items

theorem ingest_eq : ∀ (es : List Dict) (clusters : List TopicCluster), ingest py ops uuid5 ⟨clusters, topicMin⟩ es =
    ⟨clustersOf uuid5 topicMin clusters (es.filterMap (arrival py ops)), topicMin⟩
  | [], _ => rfl
  | args :: es, clusters => by
    rw [ingest, List.foldl_cons, updateTopicStoreFromChat]
    cases harrival : arrival py ops args with
    | none =>
      rw [List.filterMap_cons_none harrival]
      exact ingest_eq es clusters
    | some a =>
      rw [List.filterMap_cons_some harrival, clustersOf, FirstFit.enterAll, List.foldl_cons]
      exact ingest_eq es _

theorem clustersOf_canonicals (clusters : List TopicCluster) (items : List Arrival) :
    (clustersOf uuid5 topicMin clusters items).map TopicCluster.canonical =
      FirstFit.allNamed joins (clusters.map TopicCluster.canonical) (items.map Arrival.norm) :=
  FirstFit.enterAll_names (fun a c => TopicCluster.take_canonical a c) (fun _ => rfl) items clusters

theorem clustersOf_placed {a : Arrival} {items : List Arrival} (ha : a ∈ items) :
    FirstFit.slot joins ((clustersOf uuid5 topicMin [] items).map TopicCluster.canonical) a.norm <
      (clustersOf uuid5 topicMin [] items).length := by
  rw [← List.length_map TopicCluster.canonical, clustersOf_canonicals]
  exact FirstFit.slot_lt_of_mem joins_self (List.mem_map_of_mem ha)

theorem ingest_canonicals (es : List Dict) : (ingest py ops uuid5 ⟨[], topicMin⟩ es).canonicals =
    FirstFit.allNamed joins [] ((es.filterMap (arrival py ops)).map Arrival.norm) := by
  rw [ingest_eq, TopicClusterStore.canonicals, clustersOf_canonicals]
  rfl

/-- A text keeps the cluster that it was first assigned to. -/
theorem ingest_assigned {pre post : List Dict} {args : Dict} {a : Arrival} (ha : arrival py ops args = some a) :
    (ingest py ops uuid5 ⟨[], topicMin⟩ pre).place a.norm =
      (ingest py ops uuid5 ⟨[], topicMin⟩ (pre ++ args :: post)).place a.norm := by
  rw [TopicClusterStore.place, TopicClusterStore.place, ingest_canonicals, ingest_canonicals, List.filterMap_append,
    List.filterMap_cons_some ha, List.map_append, List.map_cons, FirstFit.allNamed_append]
  exact (FirstFit.slot_allNamed_cons (joins_self a.norm) _ _).symm

/-- A cluster keeps its index and its canonical text. -/
theorem ingest_named (pre post : List Dict) : (ingest py ops uuid5 ⟨[], topicMin⟩ pre).canonicals <+:
    (ingest py ops uuid5 ⟨[], topicMin⟩ (pre ++ post)).canonicals := by
  rw [ingest_canonicals, ingest_canonicals, List.filterMap_append, List.map_append, FirstFit.allNamed_append]
  obtain ⟨more, hmore⟩ := FirstFit.allNamed_extends ((post.filterMap (arrival py ops)).map Arrival.norm)
    (FirstFit.allNamed joins [] ((pre.filterMap (arrival py ops)).map Arrival.norm))
  exact ⟨more, hmore.symm⟩

variable {es : List Dict} (hcarries : ∀ a ∈ es.filterMap (arrival py ops), a.Carries)
include hcarries

/-- A ledger ingested twice leaves what it leaves once. -/
theorem ingest_twice : ingest py ops uuid5 ⟨[], topicMin⟩ (es ++ es) = ingest py ops uuid5 ⟨[], topicMin⟩ es := by
  have hagain := @FirstFit.enterAll_again _ _ _ joins TopicCluster.canonical TopicClusterStore.newCluster Arrival.norm
    (fun a c => (c.take uuid5 topicMin a).2) (fun a c => TopicCluster.take_canonical a c) (fun _ => rfl) joins_self
    (es.filterMap (arrival py ops)) fun own hown => gathered_twice fun a ha => hcarries a (hown ha)
  rw [ingest_eq, ingest_eq, List.filterMap_append, clustersOf, FirstFit.enterAll, List.foldl_append]
  exact congrArg (fun clusters => (⟨clusters, topicMin⟩ : TopicClusterStore)) hagain

/-- The cluster of an arrival, with the other arrivals that are in it. -/
theorem ingest_holds {a : Arrival} (ha : a ∈ es.filterMap (arrival py ops)) :
    ∃ c, FirstFit.held joins TopicCluster.canonical TopicClusterStore.newCluster
        (clustersOf uuid5 topicMin [] (es.filterMap (arrival py ops))) a.norm = c ∧
      c.Settled topicMin ∧ c.Knows a ∧ (∃ b ∈ es.filterMap (arrival py ops),
        clusterOf py ops es b.norm = clusterOf py ops es a.norm ∧ c.lastSeenAt = b.ts) := by
  have hget := @FirstFit.enterAll_getElem? _ _ _ joins TopicCluster.canonical TopicClusterStore.newCluster Arrival.norm
    (fun a c => (c.take uuid5 topicMin a).2) (fun a c => TopicCluster.take_canonical a c) (fun _ => rfl) joins_self []
    (clusterOf py ops es a.norm) (es.filterMap (arrival py ops))
  generalize hown : (es.filterMap (arrival py ops)).filter _ = own at hget
  have hmem : a ∈ own := by
    rw [← hown, List.mem_filter]
    exact ⟨ha, decide_eq_true rfl⟩
  obtain ⟨c, hc, hsettled, hknows, hlast⟩ := @gathered_settled uuid5 topicMin own
    (fun b hb => hcarries b (by rw [← hown] at hb; exact (List.mem_filter.mp hb).1)) (List.ne_nil_of_mem hmem)
  refine ⟨c, ?_, hsettled, hknows a hmem, ?_⟩
  · rw [FirstFit.held_eq, clustersOf_canonicals]
    have hplace : (clustersOf uuid5 topicMin [] (es.filterMap (arrival py ops)))[clusterOf py ops es a.norm]? = some c :=
      hget.trans hc
    exact congrArg (fun found => Option.getD found (TopicClusterStore.newCluster a.norm)) hplace
  · obtain ⟨b, hb⟩ := Option.isSome_iff_exists.mp (List.getLast?_isSome.mpr (List.ne_nil_of_mem hmem))
    have hbown := List.mem_of_getLast? hb
    rw [← hown, List.mem_filter] at hbown
    exact ⟨b, hbown.1, of_decide_eq_true hbown.2, hlast b hb⟩

/-- A repeat is without effect exactly if it carries the time at which its cluster was last seen. -/
theorem again_iff {args : Dict} {a : Arrival} (hargs : args ∈ es) (ha : arrival py ops args = some a) :
    updateTopicStoreFromChat py ops uuid5 args (ingest py ops uuid5 ⟨[], topicMin⟩ es) =
        (.ok none, ingest py ops uuid5 ⟨[], topicMin⟩ es) ↔
      ((ingest py ops uuid5 ⟨[], topicMin⟩ es).findOrCreateCluster a.norm).lastSeenAt = a.ts := by
  have hmem : a ∈ es.filterMap (arrival py ops) := List.mem_filterMap.mpr ⟨args, hargs, ha⟩
  obtain ⟨c, hheld, hsettled, hknows, -⟩ := @ingest_holds py ops uuid5 topicMin es hcarries a hmem
  have hplaced := @clustersOf_placed uuid5 topicMin a (es.filterMap (arrival py ops)) hmem
  rw [ingest_eq, updateTopicStoreFromChat, ha]
  simp only [TopicClusterStore.findOrCreateCluster, hheld,
    TopicCluster.take_again (hcarries a hmem) hknows hsettled, Prod.mk.injEq, TopicClusterStore.mk.injEq, true_and,
    and_true]
  rw [@FirstFit.put_eq_iff _ _ joins TopicCluster.canonical TopicClusterStore.newCluster _ _ _ hplaced, hheld]
  constructor
  · intro hsame
    exact (congrArg TopicCluster.lastSeenAt hsame).symm
  · intro hlast
    rw [← hlast]

end

/-- For every ledger of entries that carry a time and a message id, the store takes every further replay
    exactly if the entries of each cluster carry one time. -/
theorem replay_idempotent_iff (py : Interp) (ops : TextOps) (uuid5 : UUID → String → UUID) (topicMin : ℤ)
    (es : List Dict) (hcarries : ∀ a ∈ es.filterMap (arrival py ops), a.Carries) :
    ReplayIdempotent py ops uuid5 topicMin es ↔ OneTime py ops es := by
  constructor
  · intro h a ha b hb hsame
    have hlast : ∀ d ∈ es.filterMap (arrival py ops),
        ((ingest py ops uuid5 ⟨[], topicMin⟩ es).findOrCreateCluster d.norm).lastSeenAt = d.ts := by
      intro d hd
      obtain ⟨args, hargs, harrival⟩ := List.mem_filterMap.mp hd
      exact (again_iff hcarries hargs harrival).mp (h.again args hargs)
    have hcluster : (ingest py ops uuid5 ⟨[], topicMin⟩ es).findOrCreateCluster a.norm =
        (ingest py ops uuid5 ⟨[], topicMin⟩ es).findOrCreateCluster b.norm := by
      rw [ingest_eq]
      refine FirstFit.held_congr (clustersOf_placed ha) ?_
      rw [clustersOf_canonicals]
      exact hsame
    rw [← hlast a ha, ← hlast b hb, hcluster]
  · intro hone
    refine ⟨fun pre args post a hes ha => ?_, fun pre post hes => ?_, fun args hargs => ?_, ingest_twice hcarries⟩
    · rw [hes]
      exact ingest_assigned ha
    · rw [hes]
      exact ingest_named pre post
    · cases ha : arrival py ops args with
      | none => rw [updateTopicStoreFromChat, ha]
      | some a =>
        have hmem : a ∈ es.filterMap (arrival py ops) := List.mem_filterMap.mpr ⟨args, hargs, ha⟩
        obtain ⟨c, hheld, -, -, b, hb, hsame, hlast⟩ := @ingest_holds py ops uuid5 topicMin es hcarries a hmem
        refine (again_iff hcarries hargs ha).mpr ?_
        rw [ingest_eq, TopicClusterStore.findOrCreateCluster, hheld, hlast]
        exact hone b hb a hmem hsame

/-! ### Two messages about revenue -/

/-- `uuid5` of the one signature that these messages have. -/
def revenueId : UUID → String → UUID := fun _ _ => ⟨0x63c1b807e2e053ed99a4d3d2e610e81e⟩

def revenueMessage (messageId ts : String) : Dict :=
  [(.str "text", .str "What is the Q3 net revenue?"), (.str "message_id", .str messageId), (.str "ts", .str ts)]

/-- Both messages are of one moment. -/
def revenueOnce : List Dict :=
  [revenueMessage "m1" "2026-05-05T10:00:00+00:00", revenueMessage "m2" "2026-05-05T10:00:00+00:00"]

theorem revenueOnce_replays : ReplayIdempotent .plain .ascii revenueId 2 revenueOnce := by
  refine (replay_idempotent_iff .plain .ascii revenueId 2 revenueOnce ?_).mpr ?_
  · unfold Arrival.Carries
    decide +kernel
  · unfold OneTime
    decide +kernel

/-- The second message comes an hour later. -/
def revenueTwice : List Dict :=
  [revenueMessage "m1" "2026-05-05T10:00:00+00:00", revenueMessage "m2" "2026-05-05T11:00:00+00:00"]

/-- The first message again sets the last-seen time of the cluster back by the hour. -/
theorem revenueTwice_set_back : (∀ a ∈ revenueTwice.filterMap (arrival .plain .ascii), a.Carries) ∧
    ¬ReplayIdempotent .plain .ascii revenueId 2 revenueTwice := by
  constructor
  · unfold Arrival.Carries
    decide +kernel
  · intro h
    have hagain := h.again _ List.mem_cons_self
    have hback : (updateTopicStoreFromChat .plain .ascii revenueId
          (revenueMessage "m1" "2026-05-05T10:00:00+00:00")
          (ingest .plain .ascii revenueId ⟨[], 2⟩ revenueTwice)).2.clusters.map TopicCluster.lastSeenAt ≠
        (ingest .plain .ascii revenueId ⟨[], 2⟩ revenueTwice).clusters.map TopicCluster.lastSeenAt := by
      decide +kernel
    exact hback (congrArg (fun r => r.2.clusters.map TopicCluster.lastSeenAt) hagain)

end ProcessExtractor
