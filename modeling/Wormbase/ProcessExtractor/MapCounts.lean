import Wormbase.ProcessExtractor.SystemMap

/-! What the system map holds of the chat that was dispatched.

    Every node that is written carries the counts over all chat so far, and every node whose edges differ from
    what was written of it last is still dirty, as long as the condition lets each chat message through and the
    ledger takes each node that a fire takes out of the dirty set. -/

namespace ProcessExtractor.SystemMap
open Py Reactivity Reactivity.Registry

/-! ### Counts -/

section
variable (ops : TextOps) (chats : List Chat)

def mentionKeys : List (String × String) := chats.flatMap (Chat.mentions ops)
def speakKeys : List (String × String) := chats.flatMap Chat.speaksIn
def topicKeys : List (String × String) := chats.flatMap (Chat.topics ops)

/-- Some message was said in a channel of this id. -/
def saidIn (id : String) : Bool := chats.any fun c => id ≠ "" && c.channelId = id

/-- How often a node mentions a token, speaks in a channel or is about a topic: of a channel only the topics
    count. -/
def edgeCount (id kind target : String) : ℕ :=
  if saidIn chats id then if kind = "topic" then (topicKeys ops chats).count (id, target) else 0
  else if kind = "mentions" then (mentionKeys ops chats).count (id, target)
  else if kind = "speaks_in" then (speakKeys chats).count (id, target)
  else 0

/-- A node has one edge for each count that is not zero, with the count as its weight. -/
structure Carries (n : Node) : Prop where
  kind : n.nodeKind = if saidIn chats n.nodeId then "channel" else "person"
  distinct : (n.edges.map fun e => (e.kind, e.targetId)).Nodup
  counts : ∀ e, e ∈ n.edges ↔ 0 < edgeCount ops chats n.nodeId e.kind e.targetId ∧
    e.weight = weightOf (edgeCount ops chats n.nodeId e.kind e.targetId)

/-- The last node that was written under an id. -/
def lastNode (nodes : List Node) (id : String) : Option Node := (nodes.filter fun n => n.nodeId = id).getLast?

/-- What was written last of a node is what it is; a node of which nothing was written has no edges. -/
def UpToDate (nodes : List Node) (id : String) : Prop :=
  match lastNode nodes id with
  | some n => Carries ops chats n
  | none => ∀ kind target, edgeCount ops chats id kind target = 0

/-- A dispatch writes only nodes that carry the counts so far, and leaves every other node dirty or up to
    date. -/
def Keeps (w w' : World) : Prop :=
  (∃ new, w'.desk.nodes = w.desk.nodes ++ new ∧ ∀ n ∈ new, Carries ops w'.dispatched n) ∧
    ∀ id, UpToDate ops w'.dispatched w'.desk.nodes id ∨ id ∈ w'.desk.acc.dirtyNodes

variable (py : Interp) (perTenantBudget : ℤ) (company : UUID)

/-- The stores when a dispatch comes to the reactivity, unless the bookkeeping of a fire before it raises. -/
def passes (entry : Dict) : Registry.Stores → List Other → Option Registry.Stores
  | s, [] => some s
  | s, t :: ts =>
    let done := t.1.run py company entry s
    if done.1 = .fireLost then none else passes entry done.2 ts

/-- The dispatch comes to the reactivity, which is active, and its predicate and condition hold. -/
def Arrives (w : World) (r : MapRound) : Prop :=
  ∃ s, passes py company r.entry w.stores r.before = some s ∧
    (turn ops py perTenantBudget r.entry r.call w.desk).reaches py company r.entry s = true

/-- A chat message is let through to the fire, and a node that the fire takes out of the dirty set gets into
    the ledger. -/
def Sound (w : World) (r : MapRound) : Prop :=
  ((chatOf py r.entry).isSome = true → Arrives ops py perTenantBudget company w r) ∧
    (Arrives ops py perTenantBudget company w r → ∀ args, entryArgs r.entry = .ok args →
      (updateFromChatEntry ops py args w.desk.acc).flushOneNode.1.isSome = true → r.call.stored = true)

/-- In the run from a new process every dispatch keeps the map. -/
def MapHolds (disabled : List String) (rs : List MapRound) : Prop :=
  Run.EachStep (step ops py perTenantBudget company) (fun w _ w' => Keeps ops w w') (.fresh disabled) rs

end

variable {ops : TextOps} {chats : List Chat} {acc : Accumulator} {c : Chat} {id : String}

/-! ### Edges -/

/-- The tallies of an accumulator are those of the messages. -/
structure Counted (ops : TextOps) (chats : List Chat) (acc : Accumulator) : Prop where
  mentions : acc.personToPerson = Tally.tally (mentionKeys ops chats)
  speaks : acc.personToChannel = Tally.tally (speakKeys chats)
  topics : acc.channelToTopic = Tally.tally (topicKeys ops chats)

theorem counted_nil : Counted ops [] .empty := ⟨rfl, rfl, rfl⟩

theorem mentionKeys_concat : mentionKeys ops (chats ++ [c]) = mentionKeys ops chats ++ c.mentions ops := by
  rw [mentionKeys, List.flatMap_append, List.flatMap_singleton, ← mentionKeys]

theorem speakKeys_concat : speakKeys (chats ++ [c]) = speakKeys chats ++ c.speaksIn := by
  rw [speakKeys, List.flatMap_append, List.flatMap_singleton, ← speakKeys]

theorem topicKeys_concat : topicKeys ops (chats ++ [c]) = topicKeys ops chats ++ c.topics ops := by
  rw [topicKeys, List.flatMap_append, List.flatMap_singleton, ← topicKeys]

theorem Counted.addMessage (h : Counted ops chats acc) : Counted ops (chats ++ [c]) (acc.addMessage ops c) where
  mentions := by
    rw [mentionKeys_concat, Tally.tally_append, ← h.mentions]
    rfl
  speaks := by
    rw [speakKeys_concat, Tally.tally_append, ← h.speaks]
    rfl
  topics := by
    rw [topicKeys_concat, Tally.tally_append, ← h.topics]
    rfl

theorem mem_topicKeys {p : String × String} : p ∈ topicKeys ops chats ↔
    ∃ c ∈ chats, c.channelId ≠ "" ∧ p = (c.channelId, detectDomain ops c.text) := by
  rw [topicKeys, List.mem_flatMap]
  refine exists_congr fun c => and_congr_right fun _ => ?_
  rw [Chat.topics]
  split
  · rename_i hne
    simp [hne]
  · rename_i hempty
    simp [hempty]

/-- An id is in the counter of channels when a message was said there. -/
theorem isChannel_eq (h : Counted ops chats acc) (id : String) : acc.isChannel id = saidIn chats id := by
  rw [Bool.eq_iff_iff, Accumulator.isChannel, saidIn, List.any_eq_true, List.any_eq_true, h.topics]
  constructor
  · rintro ⟨⟨⟨ch, topic⟩, n⟩, hmem, hid⟩
    obtain ⟨hpos, rfl⟩ := Tally.mem_tally.mp hmem
    obtain ⟨c, hc, hne, heq⟩ := mem_topicKeys.mp (List.count_pos_iff.mp hpos)
    obtain ⟨rfl, rfl⟩ := Prod.mk.inj heq
    obtain rfl : c.channelId = id := by simpa using hid
    exact ⟨c, hc, by simp [hne]⟩
  · rintro ⟨c, hc, hid⟩
    simp only [Bool.and_eq_true, decide_eq_true_eq, ne_eq] at hid
    obtain ⟨hne, rfl⟩ := hid
    have hmem := (@mem_topicKeys ops chats _).mpr ⟨c, hc, hne, rfl⟩
    exact ⟨((c.channelId, detectDomain ops c.text), _), Tally.mem_tally.mpr ⟨List.count_pos_iff.mpr hmem, rfl⟩, by simp⟩

theorem mem_edgesOf {kind : String} {ks : List (String × String)} {e : Edge} :
    e ∈ Accumulator.edgesOf kind (Tally.tally ks) id ↔
      e.kind = kind ∧ 0 < ks.count (id, e.targetId) ∧ e.weight = weightOf (ks.count (id, e.targetId)) := by
  rw [Accumulator.edgesOf, List.mem_filterMap]
  constructor
  · rintro ⟨⟨⟨s, target⟩, n⟩, hmem, he⟩
    obtain ⟨hpos, rfl⟩ := Tally.mem_tally.mp hmem
    split at he
    · rename_i hid
      obtain ⟨rfl, -⟩ := hid
      obtain rfl := Option.some.inj he
      exact ⟨rfl, hpos, rfl⟩
    · exact nomatch he
  · rintro ⟨rfl, hpos, hweight⟩
    refine ⟨((id, e.targetId), ks.count (id, e.targetId)), Tally.mem_tally.mpr ⟨hpos, rfl⟩, ?_⟩
    rw [if_pos ⟨rfl, hpos⟩, ← hweight]

theorem mem_edgesFor (h : Counted ops chats acc) {e : Edge} : e ∈ acc.edgesFor id ↔
    0 < edgeCount ops chats id e.kind e.targetId ∧ e.weight = weightOf (edgeCount ops chats id e.kind e.targetId) := by
  rw [Accumulator.edgesFor, edgeCount, isChannel_eq h]
  cases saidIn chats id with
  | true =>
    rw [if_pos rfl, if_pos rfl, h.topics, mem_edgesOf]
    by_cases hkind : e.kind = "topic"
    · simp [hkind]
    · simp [hkind]
  | false =>
    rw [if_neg (by decide), if_neg (by decide), List.mem_append, h.mentions, h.speaks, mem_edgesOf, mem_edgesOf]
    by_cases hmentions : e.kind = "mentions"
    · simp [hmentions]
    · by_cases hspeaks : e.kind = "speaks_in"
      · simp [hspeaks]
      · simp [hmentions, hspeaks]

theorem edgesFor_eq_nil_iff (h : Counted ops chats acc) :
    acc.edgesFor id = [] ↔ ∀ kind target, edgeCount ops chats id kind target = 0 := by
  rw [List.eq_nil_iff_forall_not_mem]
  constructor
  · intro hnone kind target
    by_contra hne
    exact hnone ⟨kind, target, weightOf (edgeCount ops chats id kind target)⟩
      ((mem_edgesFor h).mpr ⟨Nat.pos_of_ne_zero hne, rfl⟩)
  · intro hzero e he
    obtain ⟨hpos, -⟩ := (mem_edgesFor h).mp he
    rw [hzero] at hpos
    exact absurd hpos (Nat.lt_irrefl 0)

/-- The kind and the target of an edge. -/
abbrev Edge.name (e : Edge) : String × String := (e.kind, e.targetId)

theorem edgesOf_distinct (kind : String) (ks : List (String × String)) (id : String) :
    ((Accumulator.edgesOf kind (Tally.tally ks) id).map Edge.name).Nodup := by
  have hkeys : (Tally.tally ks).Pairwise fun p q => p.1 ≠ q.1 := List.pairwise_map.mp (Tally.nodup_tally ks)
  refine List.pairwise_map.mpr (hkeys.filterMap _ fun p q hne e he e' he' heq => ?_)
  split at he
  · split at he'
    · rename_i hp hq
      obtain rfl := Option.some.inj he
      obtain rfl := Option.some.inj he'
      obtain ⟨-, htarget⟩ := Prod.mk.inj heq
      exact hne (Prod.ext (hp.1.trans hq.1.symm) htarget)
    · exact nomatch he'
  · exact nomatch he

theorem edgesFor_distinct (h : Counted ops chats acc) (id : String) : ((acc.edgesFor id).map Edge.name).Nodup := by
  rw [Accumulator.edgesFor, h.topics, h.mentions, h.speaks]
  split
  · exact edgesOf_distinct _ _ _
  · rw [List.map_append, List.nodup_append]
    refine ⟨edgesOf_distinct _ _ _, edgesOf_distinct _ _ _, fun a ha b hb hab => ?_⟩
    obtain ⟨e, he, rfl⟩ := List.mem_map.mp ha
    obtain ⟨e', he', rfl⟩ := List.mem_map.mp hb
    have hkind := (mem_edgesOf.mp he).1
    have hkind' := (mem_edgesOf.mp he').1
    have hsame : e.kind = e'.kind := congrArg Prod.fst hab
    rw [hkind, hkind'] at hsame
    exact absurd hsame (by decide)

/-- The node as it stands carries the counts. -/
theorem carries_nodeAt (h : Counted ops chats acc) (id : String) : Carries ops chats (acc.nodeAt id) where
  kind := by
    rw [Accumulator.nodeAt, Accumulator.nodeKindFor, isChannel_eq h]
  distinct := edgesFor_distinct h id
  counts := fun _ => mem_edgesFor h

/-! ### One message -/

/-- A message leaves the nodes of other ids as they are. -/
theorem nodeAt_addMessage (hsender : c.senderId ≠ "" → id ≠ c.senderId)
    (hchannel : c.channelId ≠ "" → id ≠ c.channelId) :
    (acc.addMessage ops c).nodeAt id = acc.nodeAt id := by
  have hkept : ∀ (kind : String) (ks : List (String × String)) (t : List ((String × String) × ℕ)),
      (∀ p ∈ ks, p.1 ≠ id) → Accumulator.edgesOf kind (ks.foldl Tally.bump t) id = Accumulator.edgesOf kind t id := by
    intro kind ks t hks
    exact Tally.filterMap_bumps fun p hp n => if_neg fun h => hks p hp h.1
  have hmentions : ∀ p ∈ c.mentions ops, p.1 ≠ id := by
    intro p hp
    rw [Chat.mentions] at hp
    split at hp
    · rename_i hne
      obtain ⟨target, -, rfl⟩ := List.mem_map.mp hp
      exact (hsender hne).symm
    · exact nomatch hp
  have hspeaks : ∀ p ∈ c.speaksIn, p.1 ≠ id := by
    intro p hp
    rw [Chat.speaksIn] at hp
    split at hp
    · rename_i hne
      rw [List.mem_singleton.mp hp]
      exact (hsender hne.1).symm
    · exact nomatch hp
  have htopics : ∀ p ∈ c.topics ops, p.1 ≠ id := by
    intro p hp
    rw [Chat.topics] at hp
    split at hp
    · rename_i hne
      rw [List.mem_singleton.mp hp]
      exact (hchannel hne).symm
    · exact nomatch hp
  have hchannel' : (acc.addMessage ops c).isChannel id = acc.isChannel id := by
    have hany : ∀ t : List ((String × String) × ℕ), (t.any fun p => p.1.1 = id) =
        (t.filterMap fun p => if p.1.1 = id then some p else none).any fun _ => true := by
      intro t
      induction t with
      | nil => rfl
      | cons p t ih => by_cases hp : p.1.1 = id <;> simp [hp, ih]
    rw [Accumulator.isChannel, Accumulator.isChannel, hany, hany]
    exact congrArg (List.any · _) (Tally.filterMap_bumps fun p hp n => if_neg (htopics p hp))
  rw [Accumulator.nodeAt, Accumulator.nodeAt, Accumulator.nodeKindFor, Accumulator.nodeKindFor, Accumulator.edgesFor,
    Accumulator.edgesFor, hchannel']
  congr 1
  · split
    · exact hkept _ _ _ htopics
    · exact congrArg₂ _ (hkept _ _ _ hmentions) (hkept _ _ _ hspeaks)

/-- A channel is about something. -/
theorem exists_topic (h : saidIn chats id = true) : ∃ target, 0 < edgeCount ops chats id "topic" target := by
  have hsaid := h
  rw [saidIn, List.any_eq_true] at hsaid
  obtain ⟨c, hc, hid⟩ := hsaid
  simp only [Bool.and_eq_true, decide_eq_true_eq, ne_eq] at hid
  obtain ⟨hne, rfl⟩ := hid
  refine ⟨detectDomain ops c.text, ?_⟩
  rw [edgeCount, if_pos h, if_pos rfl]
  exact List.count_pos_iff.mpr ((@mem_topicKeys ops chats _).mpr ⟨c, hc, hne, rfl⟩)

/-- A node that has edges has some after one more message. -/
theorem edgesFor_addMessage (h : Counted ops chats acc) (hne : acc.edgesFor id ≠ []) :
    (acc.addMessage ops c).edgesFor id ≠ [] := by
  intro hnil
  have hzero := (edgesFor_eq_nil_iff h.addMessage).mp hnil
  cases hsaid : saidIn (chats ++ [c]) id with
  | true =>
    obtain ⟨target, hpos⟩ := @exists_topic ops _ _ hsaid
    rw [hzero] at hpos
    exact absurd hpos (Nat.lt_irrefl 0)
  | false =>
    have hbefore : saidIn chats id = false := by
      rw [saidIn, List.any_append, Bool.or_eq_false_iff] at hsaid
      exact hsaid.1
    refine hne ((edgesFor_eq_nil_iff h).mpr fun kind target => Nat.le_zero.mp ?_)
    rw [← hzero kind target, edgeCount, edgeCount, hsaid, hbefore]
    simp only [Bool.false_eq_true, if_false]
    split
    · rw [mentionKeys_concat, List.count_append]
      exact Nat.le_add_right _ _
    · split
      · rw [speakKeys_concat, List.count_append]
        exact Nat.le_add_right _ _
      · exact Nat.le_refl 0

/-! ### The dirty set -/

variable {nodes : List Node}

/-- What an accumulator and the written nodes say of an id: they agree, or there is nothing to say, or the id is
    dirty. -/
def Settled (acc : Accumulator) (nodes : List Node) (id : String) : Prop :=
  lastNode nodes id = some (acc.nodeAt id) ∨ (lastNode nodes id = none ∧ acc.edgesFor id = []) ∨ id ∈ acc.dirtyNodes

/-- The accumulator between two dispatches: the messages are counted, nothing is lost, and no node that was
    written has lost its edges. -/
structure Mapped (ops : TextOps) (chats : List Chat) (acc : Accumulator) (nodes : List Node) : Prop where
  counted : Counted ops chats acc
  settled : ∀ id, Settled acc nodes id
  filled : ∀ n ∈ nodes, acc.edgesFor n.nodeId ≠ []

theorem mapped_nil : Mapped ops [] .empty [] := ⟨counted_nil, fun _ => .inr (.inl ⟨rfl, rfl⟩), nofun⟩

theorem upToDate_of_settled (h : Counted ops chats acc) (hsettled : Settled acc nodes id) :
    UpToDate ops chats nodes id ∨ id ∈ acc.dirtyNodes := by
  rcases hsettled with hlast | ⟨hlast, hnil⟩ | hdirty
  · refine .inl ?_
    rw [UpToDate, hlast]
    exact carries_nodeAt h id
  · refine .inl ?_
    rw [UpToDate, hlast]
    exact (edgesFor_eq_nil_iff h).mp hnil
  · exact .inr hdirty

theorem lastNode_mem {n : Node} (h : lastNode nodes id = some n) : n ∈ nodes ∧ n.nodeId = id := by
  obtain ⟨hmem, hid⟩ := List.mem_filter.mp (List.mem_of_getLast? h)
  exact ⟨hmem, by simpa using hid⟩

theorem lastNode_concat (nodes : List Node) (n : Node) : lastNode (nodes ++ [n]) id =
    if n.nodeId = id then some n else lastNode nodes id := by
  rw [lastNode, List.filter_append]
  by_cases hid : n.nodeId = id
  · rw [if_pos hid, List.filter_cons_of_pos (by simpa using hid), List.filter_nil, List.getLast?_concat]
  · rw [if_neg hid, List.filter_cons_of_neg (by simpa using hid), List.filter_nil, List.append_nil, lastNode]

theorem nodeAt_markDirty (n : String) : (acc.markDirty n).nodeAt id = acc.nodeAt id := by
  rw [Accumulator.markDirty]
  split <;> rfl

theorem mem_markDirty {n : String} : id ∈ (acc.markDirty n).dirtyNodes ↔ id ∈ acc.dirtyNodes ∨ id = n ∧ n ≠ "" := by
  rw [Accumulator.markDirty]
  split
  · rename_i h
    constructor
    · exact .inl
    · rintro (hid | ⟨rfl, hne⟩)
      · exact hid
      · exact h.resolve_left hne
  · rename_i h
    rw [not_or] at h
    rw [List.mem_append, List.mem_singleton]
    exact or_congr_right (iff_self_and.mpr fun _ => h.1)

theorem counted_markDirty {n : String} (h : Counted ops chats acc) : Counted ops chats (acc.markDirty n) := by
  rw [Accumulator.markDirty]
  split
  · exact h
  · exact ⟨h.mentions, h.speaks, h.topics⟩

theorem edgesFor_of_nodeAt {acc' : Accumulator} (h : acc'.nodeAt id = acc.nodeAt id) : acc'.edgesFor id = acc.edgesFor id :=
  congrArg Node.edges h

/-- The ids that a message does not mark dirty keep their nodes. -/
theorem Mapped.update (h : Mapped ops chats acc nodes) (c : Chat) :
    Mapped ops (chats ++ [c]) (((acc.addMessage ops c).markDirty c.senderId).markDirty c.channelId) nodes where
  counted := counted_markDirty (counted_markDirty h.counted.addMessage)
  settled := by
    intro id
    have hnode : (((acc.addMessage ops c).markDirty c.senderId).markDirty c.channelId).nodeAt id =
        (acc.addMessage ops c).nodeAt id := by rw [nodeAt_markDirty, nodeAt_markDirty]
    have hdirty : id ∈ (((acc.addMessage ops c).markDirty c.senderId).markDirty c.channelId).dirtyNodes ↔
        (id ∈ acc.dirtyNodes ∨ id = c.senderId ∧ c.senderId ≠ "") ∨ id = c.channelId ∧ c.channelId ≠ "" := by
      rw [mem_markDirty, mem_markDirty]
      exact Iff.rfl
    by_cases hmarked : id = c.senderId ∧ c.senderId ≠ "" ∨ id = c.channelId ∧ c.channelId ≠ ""
    · exact .inr (.inr (hdirty.mpr (hmarked.imp .inr fun h => h)))
    · rw [not_or] at hmarked
      have hsame : (acc.addMessage ops c).nodeAt id = acc.nodeAt id :=
        nodeAt_addMessage (fun hne heq => hmarked.1 ⟨heq, hne⟩) fun hne heq => hmarked.2 ⟨heq, hne⟩
      rcases h.settled id with hlast | ⟨hlast, hnil⟩ | hold
      · exact .inl (by rw [hnode, hsame, hlast])
      · exact .inr (.inl ⟨hlast, by rw [edgesFor_of_nodeAt hnode, edgesFor_of_nodeAt hsame, hnil]⟩)
      · exact .inr (.inr (hdirty.mpr (.inl (.inl hold))))
  filled := by
    intro n hn
    rw [edgesFor_of_nodeAt (nodeAt_markDirty _), edgesFor_of_nodeAt (nodeAt_markDirty _)]
    exact edgesFor_addMessage h.counted (h.filled n hn)

/-- A flush takes a dirty node with edges out of the set, or empties a set of nodes without any. -/
theorem flush_cases (acc : Accumulator) :
    acc.flushOneNode = (none, { acc with dirtyNodes := [] }) ∧ (∀ id ∈ acc.dirtyNodes, acc.edgesFor id = []) ∨
    ∃ id ∈ acc.dirtyNodes, acc.edgesFor id ≠ [] ∧ acc.flushOneNode = (some (acc.nodeAt id), acc.clearDirty id) := by
  rw [Accumulator.flushOneNode]
  cases hsorted : (acc.dirtyNodes.filterMap acc.candidate).insertionSort Accumulator.Ahead with
  | nil =>
    refine .inl ⟨rfl, fun id hid => ?_⟩
    by_contra hne
    have hmem : (PyFloat.sum ((acc.edgesFor id).map Edge.weight), id) ∈ acc.dirtyNodes.filterMap acc.candidate :=
      List.mem_filterMap.mpr ⟨id, hid, if_neg hne⟩
    rw [← List.mem_insertionSort Accumulator.Ahead, hsorted] at hmem
    exact nomatch hmem
  | cons c cs =>
    have hmem : c ∈ acc.dirtyNodes.filterMap acc.candidate := by
      rw [← List.mem_insertionSort Accumulator.Ahead, hsorted]
      exact List.mem_cons_self
    obtain ⟨id, hid, hc⟩ := List.mem_filterMap.mp hmem
    rw [Accumulator.candidate] at hc
    split at hc
    · exact nomatch hc
    · rename_i hne
      obtain rfl := Option.some.inj hc
      exact .inr ⟨id, hid, hne, rfl⟩

theorem Mapped.clear (h : Mapped ops chats acc nodes) (hempty : ∀ id ∈ acc.dirtyNodes, acc.edgesFor id = []) :
    Mapped ops chats { acc with dirtyNodes := [] } nodes where
  counted := ⟨h.counted.mentions, h.counted.speaks, h.counted.topics⟩
  settled := by
    intro id
    rcases h.settled id with hlast | hnone | hdirty
    · exact .inl hlast
    · exact .inr (.inl hnone)
    · refine .inr (.inl ⟨?_, hempty id hdirty⟩)
      cases hlast : lastNode nodes id with
      | none => rfl
      | some n =>
        obtain ⟨hn, rfl⟩ := lastNode_mem hlast
        exact absurd (hempty _ hdirty) (h.filled n hn)
  filled := h.filled

theorem Mapped.flush (h : Mapped ops chats acc nodes) (hne : acc.edgesFor id ≠ []) :
    Mapped ops chats (acc.clearDirty id) (nodes ++ [acc.nodeAt id]) where
  counted := ⟨h.counted.mentions, h.counted.speaks, h.counted.topics⟩
  settled := by
    intro id'
    rw [Settled, lastNode_concat]
    by_cases hid : id = id'
    · subst hid
      exact .inl (if_pos rfl)
    · rw [if_neg (show (acc.nodeAt id).nodeId ≠ id' from hid)]
      rcases h.settled id' with hlast | hnone | hdirty
      · exact .inl hlast
      · exact .inr (.inl hnone)
      · exact .inr (.inr (List.mem_filter.mpr ⟨hdirty, by simpa using Ne.symm hid⟩))
  filled := by
    intro n hn
    rcases List.mem_append.mp hn with hn | hn
    · exact h.filled n hn
    · rw [List.mem_singleton.mp hn]
      exact hne

/-! ### One fire -/

variable {py : Interp} {entry args : Dict} {call : Call}

theorem Mapped.updated (h : Mapped ops chats acc nodes) (args : Dict) :
    Mapped ops (chats ++ (readChat py args).toList) (updateFromChatEntry ops py args acc) nodes := by
  rw [updateFromChatEntry]
  cases readChat py args with
  | none => simpa using h
  | some c => exact h.update c

/-- A fire counts its message and writes the node that it takes out of the dirty set, with the counts so far. -/
theorem fire_keeps (h : Mapped ops chats acc nodes) (hargs : entryArgs entry = .ok args)
    (hstored : (updateFromChatEntry ops py args acc).flushOneNode.1.isSome = true → call.stored = true) :
    Mapped ops (chats ++ (readChat py args).toList) (fire ops py entry call acc).acc
        (nodes ++ (fire ops py entry call acc).nodes) ∧
      ∀ n ∈ (fire ops py entry call acc).nodes, Carries ops (chats ++ (readChat py args).toList) n := by
  have hupdated : Mapped ops (chats ++ (readChat py args).toList) (updateFromChatEntry ops py args acc) nodes :=
    h.updated args
  rw [fire, hargs]
  rcases flush_cases (updateFromChatEntry ops py args acc) with ⟨hflush, hempty⟩ | ⟨id, hid, hne, hflush⟩
  · simp only [hflush, List.append_nil]
    exact ⟨hupdated.clear hempty, nofun⟩
  · rw [hflush] at hstored
    simp only [hflush, hstored rfl, if_true]
    have hflushed := hupdated.flush hne
    have hcarries : ∀ n ∈ [(updateFromChatEntry ops py args acc).nodeAt id],
        Carries ops (chats ++ (readChat py args).toList) n := by
      intro n hn
      rw [List.mem_singleton.mp hn]
      exact carries_nodeAt hupdated.counted id
    cases call.written with
    | error x => exact ⟨hflushed, hcarries⟩
    | ok _ => exact ⟨hflushed, hcarries⟩

/-! ### One dispatch -/

variable {perTenantBudget : ℤ} {company : UUID} {w w' : World} {r : MapRound}

theorem loop_others : ∀ (ts : List Other) (st : Registry.Stores × Desk),
    ((keeper ops py perTenantBudget).loop py company entry st (ts.map Other.binding)).2 = st.2
  | [], _ => rfl
  | t :: ts, st => by
    rw [List.map_cons, Keeper.loop]
    split
    · rfl
    · exact loop_others ts _

/-- The turn of the reactivity is the only one that its state takes note of. -/
theorem loop_desk (call : Call) (after : List Other) : ∀ (before : List Other) (s : Registry.Stores) (desk : Desk),
    ((keeper ops py perTenantBudget).loop py company entry (s, desk)
      (before.map Other.binding ++ .own call :: after.map Other.binding)).2 =
    match passes py company entry s before with
    | none => desk
    | some s' => (keeper ops py perTenantBudget).kept py company entry (s', desk) (.own call)
  | [], s, desk => by
    rw [List.map_nil, List.nil_append, Keeper.loop]
    split
    · rfl
    · rw [loop_others]
      rfl
  | t :: ts, s, desk => by
    rw [List.map_cons, List.cons_append, Keeper.loop, passes]
    by_cases hlost : (t.1.run py company entry s).1 = .fireLost
    · rw [if_pos hlost]
      exact congrArg Prod.snd (if_pos hlost)
    · rw [if_neg hlost]
      exact (congrArg Prod.snd (if_neg hlost)).trans (loop_desk call after ts _ desk)

/-- A dispatch that does not come to the fire leaves the reactivity as it was. -/
theorem step_desk (hstep : step ops py perTenantBudget company w r = some w') :
    w'.dispatched = w.dispatched ++ (chatOf py r.entry).toList ∧
      (¬Arrives ops py perTenantBudget company w r ∧ w'.desk = w.desk ∨
        Arrives ops py perTenantBudget company w r ∧
          w'.desk = ⟨(fire ops py r.entry r.call w.desk.acc).acc, w.desk.nodes ++ (fire ops py r.entry r.call w.desk.acc).nodes⟩) := by
  obtain rfl := Option.some.inj hstep
  refine ⟨rfl, ?_⟩
  have hdesk := @loop_desk ops py r.entry perTenantBudget company r.call r.after r.before w.stores w.desk
  cases hpasses : passes py company r.entry w.stores r.before with
  | none =>
    rw [hpasses] at hdesk
    refine .inl ⟨?_, hdesk⟩
    rintro ⟨s, hs, -⟩
    exact nomatch hpasses.symm.trans hs
  | some s =>
    rw [hpasses] at hdesk
    cases hreach : (turn ops py perTenantBudget r.entry r.call w.desk).reaches py company r.entry s with
    | true => exact .inr ⟨⟨s, hpasses, hreach⟩, hdesk.trans (if_pos hreach)⟩
    | false =>
      refine .inl ⟨?_, hdesk.trans (if_neg (by rw [hreach]; decide))⟩
      rintro ⟨s', hs', hreach'⟩
      obtain rfl := Option.some.inj (hpasses.symm.trans hs')
      exact nomatch hreach.symm.trans hreach'

theorem chatOf_of_arrives (h : Arrives ops py perTenantBudget company w r) :
    chatOf py r.entry = match entryArgs r.entry with
      | .ok args => readChat py args
      | .error _ => none := by
  obtain ⟨s, -, hreach⟩ := h
  obtain ⟨-, noveltyKey, n, hpredicate, -⟩ := reaches_iff.mp hreach
  obtain ⟨matched, hmatched, heq⟩ := map_eq_ok.mp hpredicate
  obtain ⟨rfl, -⟩ := Prod.mk.inj heq
  rw [chatOf, hmatched]
  cases entryArgs r.entry with
  | ok args => rfl
  | error x => rfl

theorem step_keeps (h : Mapped ops w.dispatched w.desk.acc w.desk.nodes)
    (hsound : Sound ops py perTenantBudget company w r) (hstep : step ops py perTenantBudget company w r = some w') :
    Mapped ops w'.dispatched w'.desk.acc w'.desk.nodes ∧ Keeps ops w w' := by
  obtain ⟨hdispatched, hdesk⟩ := step_desk hstep
  have hmapped : Mapped ops w'.dispatched w'.desk.acc w'.desk.nodes ∧
      ∃ new, w'.desk.nodes = w.desk.nodes ++ new ∧ ∀ n ∈ new, Carries ops w'.dispatched n := by
    rcases hdesk with ⟨haway, hdesk⟩ | ⟨harrives, hdesk⟩
    · have hnone : chatOf py r.entry = none := by
        cases hchat : chatOf py r.entry with
        | none => rfl
        | some c => exact absurd (hsound.1 (by rw [hchat]; rfl)) haway
      rw [hdispatched, hdesk, hnone, Option.toList_none, List.append_nil]
      exact ⟨h, [], (List.append_nil _).symm, nofun⟩
    · have hchat := chatOf_of_arrives harrives
      cases hargs : entryArgs r.entry with
      | error x =>
        rw [hargs] at hchat
        have hfire : fire ops py r.entry r.call w.desk.acc = ⟨.error x, w.desk.acc, []⟩ := by rw [fire, hargs]
        rw [hdispatched, hdesk, hchat, hfire, Option.toList_none, List.append_nil, List.append_nil]
        exact ⟨h, [], (List.append_nil _).symm, nofun⟩
      | ok args =>
        rw [hargs] at hchat
        rw [hdispatched, hdesk, hchat]
        obtain ⟨hnext, hcarries⟩ := fire_keeps h hargs (hsound.2 harrives args hargs)
        exact ⟨hnext, _, rfl, hcarries⟩
  exact ⟨hmapped.1, hmapped.2, fun id => upToDate_of_settled hmapped.1.counted (hmapped.1.settled id)⟩

/-- For every sequence of dispatched entries: when each chat message is let through and each node that is taken
    out of the dirty set gets into the ledger, the map loses no node and no message. -/
theorem map_holds {disabled : List String} {rs : List MapRound}
    (hsound : Run.Guarded (step ops py perTenantBudget company) (Sound ops py perTenantBudget company) (.fresh disabled) rs) :
    MapHolds ops py perTenantBudget company disabled rs :=
  Run.eachStep_of_guarded (I := fun w => Mapped ops w.dispatched w.desk.acc w.desk.nodes)
    (fun _ _ _ hw hsound hstep => step_keeps hw hsound hstep) mapped_nil hsound

/-! ### Runs -/

/-- A message that mentions someone. -/
def sampleEntry : Dict :=
  [(.str "kind", .str "execute"), (.str "payload", .dict
    [(.str "tool", .str "emit_chat_received"), (.str "args", .dict
      [(.str "text", .str "hi @bob"), (.str "sender_person", .str "alice"), (.str "channel_id", .str "c1")])])]

def ledgerError : Err := ⟨"OperationalError", ""⟩

/-- A dispatch of it, whose write the ledger takes or not. -/
def sampleRound (stored : Bool) : MapRound where
  entry := sampleEntry
  before := []
  call := {
    active := true
    stored
    written := if stored then .ok () else .error ledgerError
    complete := by
      cases stored with
      | true => exact fun _ => rfl
      | false => exact nofun
    now := fun _ => 0
    firedAt := 0
    recorded := .ok () }
  after := []

theorem sample_arrives {w : World} (h : (turn .ascii .plain 50 sampleEntry (sampleRound true).call w.desk).reaches
    .plain ⟨1⟩ sampleEntry w.stores = true) : Sound .ascii .plain 50 ⟨1⟩ w (sampleRound true) :=
  ⟨fun _ => ⟨w.stores, rfl, h⟩, fun _ _ _ _ => rfl⟩

theorem map_holds_twice : MapHolds .ascii .plain 50 ⟨1⟩ [] [sampleRound true, sampleRound true] := by
  refine map_holds (Run.guarded_cons (sample_arrives (by decide +kernel)) rfl
    (Run.guarded_cons (sample_arrives (by decide +kernel)) rfl trivial))

theorem upToDate_none (h : UpToDate ops chats nodes id) (hnone : lastNode nodes id = none) (kind target : String) :
    edgeCount ops chats id kind target = 0 := by
  rw [UpToDate, hnone] at h
  exact h kind target

theorem upToDate_some {n : Node} (h : UpToDate ops chats nodes id) (hsome : lastNode nodes id = some n) :
    Carries ops chats n := by
  rwa [UpToDate, hsome] at h

/-- A write that fails loses a node, and a budget that is used up loses a message. -/
theorem map_loses : ¬MapHolds .ascii .plain 50 ⟨1⟩ [] [sampleRound false] ∧
    ¬MapHolds .ascii .plain 1 ⟨1⟩ [] [sampleRound true, sampleRound true] := by
  constructor
  · intro h
    rcases (h _ rfl).1.2 "alice" with huptodate | hdirty
    · exact absurd (upToDate_none huptodate (by decide +kernel) "speaks_in" "c1") (by decide +kernel)
    · exact absurd hdirty (by decide +kernel)
  · intro h
    rcases ((h _ rfl).2 _ rfl).1.2 "alice" with huptodate | hdirty
    · let written : Node := ⟨"person", "alice", [⟨"mentions", "bob", weightOf 1⟩, ⟨"speaks_in", "c1", weightOf 1⟩]⟩
      have hcarries : Carries .ascii _ written := upToDate_some huptodate (by decide +kernel)
      have hcounts := hcarries.counts ⟨"speaks_in", "c1", weightOf 2⟩
      exact absurd (hcounts.mpr (by decide +kernel)) (by decide +kernel)
    · exact absurd hdirty (by decide +kernel)

end ProcessExtractor.SystemMap
