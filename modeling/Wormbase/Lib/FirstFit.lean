import Mathlib.Data.List.Basic
import Mathlib.Data.List.Induction
import Mathlib.Data.List.Perm.Basic
import Mathlib.Data.List.Nodup

/-! First fit: every item joins the first cluster whose representative is near it, or opens one.

    With equality for nearness the clusters are the values of a dict of lists, in the order in which
    its keys first came. -/

namespace FirstFit

section
variable {ρ β κ : Type*} (near : ρ → ρ → Bool)

/-- Clusters are kept with their representatives. -/
def place : List (ρ × List β) → ρ × β → List (ρ × List β)
  | [], item => [(item.1, [item.2])]
  | c :: cs, item =>
    if near c.1 item.1 then (c.1, c.2 ++ [item.2]) :: cs else c :: place cs item

def run (items : List (ρ × β)) : List (ρ × List β) := items.foldl (place near) []

variable {near}

theorem run_append (items : List (ρ × β)) (item : ρ × β) :
    run near (items ++ [item]) = place near (run near items) item := by
  rw [run, List.foldl_append, List.foldl_cons, List.foldl_nil, run]

/-! ### Every item is in one cluster -/

theorem place_flatten (item : ρ × β) : ∀ cs : List (ρ × List β),
    ((place near cs item).flatMap Prod.snd).Perm (cs.flatMap Prod.snd ++ [item.2])
  | [] => by simp [place]
  | c :: cs => by
    simp only [place]
    split
    · simp only [List.flatMap_cons, List.append_assoc]
      exact List.perm_append_comm.append_left c.2
    · simp only [List.flatMap_cons, List.append_assoc]
      exact (place_flatten item cs).append_left c.2

theorem foldl_place_flatten : ∀ (items : List (ρ × β)) (cs : List (ρ × List β)),
    ((items.foldl (place near) cs).flatMap Prod.snd).Perm (cs.flatMap Prod.snd ++ items.map Prod.snd)
  | [], cs => by simp
  | item :: items, cs => by
    refine (foldl_place_flatten items (place near cs item)).trans ?_
    rw [List.map_cons, List.append_cons]
    exact (place_flatten item cs).append_right _

theorem run_flatten (items : List (ρ × β)) :
    ((run near items).flatMap Prod.snd).Perm (items.map Prod.snd) :=
  foldl_place_flatten items []

/-- A representative is that of an item. -/
theorem place_reps (item : ρ × β) : ∀ cs : List (ρ × List β),
    ∀ c ∈ place near cs item, c.1 ∈ cs.map Prod.fst ∨ c.1 = item.1
  | [] => by simp [place]
  | c :: cs => by
    intro c' hc'
    simp only [place] at hc'
    split at hc'
    · rcases List.mem_cons.mp hc' with rfl | hmem
      · exact .inl List.mem_cons_self
      · exact .inl (List.mem_cons_of_mem _ (List.mem_map_of_mem hmem))
    · rcases List.mem_cons.mp hc' with rfl | hmem
      · exact .inl List.mem_cons_self
      · exact (place_reps item cs c' hmem).imp_left (List.mem_cons_of_mem _)

theorem run_reps (items : List (ρ × β)) : ∀ c ∈ run near items, c.1 ∈ items.map Prod.fst := by
  induction items using List.reverseRecOn with
  | nil => exact fun c hc => absurd hc List.not_mem_nil
  | append_singleton items item ih =>
    intro c hc
    rw [run_append] at hc
    rw [List.map_append, List.mem_append]
    rcases place_reps item _ c hc with hold | hnew
    · obtain ⟨c', hc', heq⟩ := List.mem_map.mp hold
      exact .inl (heq ▸ ih c' hc')
    · exact .inr (by simp [hnew])

/-! ### The clusters of one key -/

section
variable [DecidableEq κ] {key : ρ → κ} (hkey : ∀ a b, near a b = true → key a = key b)
include hkey

theorem place_filter (k : κ) (item : ρ × β) : ∀ cs : List (ρ × List β),
    (place near cs item).filter (fun c => key c.1 = k) =
      if key item.1 = k then place near (cs.filter fun c => key c.1 = k) item
      else cs.filter fun c => key c.1 = k
  | [] => by
    by_cases hk : key item.1 = k <;> simp [place, hk]
  | c :: cs => by
    have ih := place_filter k item cs
    simp only [place]
    split
    · rename_i hnear
      have hsame := hkey _ _ hnear
      by_cases hk : key item.1 = k
      · simp [place, hsame, hk, hnear]
      · simp [hsame, hk]
    · rename_i hfar
      by_cases hc : key c.1 = k
      · simp only [List.filter_cons, hc, decide_true, if_true, ih]
        split
        · simp [place, hfar]
        · rfl
      · simp only [List.filter_cons, hc, decide_false, Bool.false_eq_true, if_false, ih]

/-- What first fit makes of all items shows, of one key, what it makes of the items of that key. -/
theorem run_filter (k : κ) (items : List (ρ × β)) :
    (run near items).filter (fun c => key c.1 = k) = run near (items.filter fun p => key p.1 = k) := by
  induction items using List.reverseRecOn with
  | nil => rfl
  | append_singleton items item ih =>
    rw [run_append, place_filter hkey, ih, List.filter_append]
    by_cases hk : key item.1 = k
    · simp [hk, run_append]
    · simp [hk]

end

/-! ### Buckets -/

/-- A dict of lists: the items of each key, in order of the first item. -/
def group [DecidableEq κ] (key : β → κ) (items : List β) : List (κ × List β) :=
  run (· = ·) (items.map fun x => (key x, x))

section
variable [DecidableEq κ] {key : β → κ}

theorem run_same (k : κ) : ∀ (items : List β) (held : List β),
    (items.map fun x => (k, x)).foldl (place (· = ·)) [(k, held)] = [(k, held ++ items)]
  | [], held => by simp
  | x :: items, held => by
    rw [List.map_cons, List.foldl_cons, place, if_pos (by simp), run_same k items (held ++ [x])]
    simp

/-- Items of one key are in one bucket. -/
theorem group_same {k : κ} {items : List β} (h : ∀ x ∈ items, key x = k) :
    group key items = if items = [] then [] else [(k, items)] := by
  have hkeys : (items.map fun x => (key x, x)) = items.map fun x => (k, x) :=
    List.map_congr_left fun x hx => by rw [h x hx]
  rw [group, run, hkeys]
  cases items with
  | nil => rfl
  | cons x items =>
    rw [List.map_cons, List.foldl_cons, place, run_same]
    simp

theorem group_flatten (items : List β) : ((group key items).flatMap Prod.snd).Perm items := by
  have hall : ((group key items).flatMap Prod.snd).Perm _ := run_flatten (items.map fun x => (key x, x))
  simpa [Function.comp_def] using hall

theorem group_filter (k : κ) (items : List β) :
    (group key items).filter (fun b => b.1 = k) = group key (items.filter fun x => key x = k) := by
  have hequal : ∀ a b : κ, decide (a = b) = true → id a = id b := fun a b h => of_decide_eq_true h
  rw [group, group]
  refine (run_filter hequal k _).trans ?_
  rw [List.filter_map]
  rfl

/-- A bucket has all items of its key, in their order. -/
theorem group_bucket {items : List β} {b : κ × List β} (h : b ∈ group key items) :
    b.2 = items.filter fun x => key x = b.1 := by
  have hmem : b ∈ (group key items).filter fun b' => b'.1 = b.1 := List.mem_filter.mpr ⟨h, by simp⟩
  rw [group_filter, group_same (k := b.1) fun x hx => by simpa using (List.mem_filter.mp hx).2] at hmem
  split at hmem
  · exact absurd hmem List.not_mem_nil
  · rw [List.mem_singleton.mp hmem]

/-- No key has two buckets. -/
theorem group_keys_nodup (items : List β) : ((group key items).map Prod.fst).Nodup := by
  rw [List.nodup_iff_count_le_one]
  intro k
  have hcount : ((group key items).map Prod.fst).count k =
      ((group key items).filter fun b => b.1 = k).length := by
    rw [List.count, List.countP_map, List.countP_eq_length_filter]
    rfl
  rw [hcount, group_filter, group_same (k := k) fun x hx => by simpa using (List.mem_filter.mp hx).2]
  split <;> simp

theorem mem_group_keys {items : List β} {x : β} (h : x ∈ items) : key x ∈ (group key items).map Prod.fst := by
  have hitems : x ∈ (items.map fun x => (key x, x)).map Prod.snd := by simpa using h
  obtain ⟨b, hb, hx⟩ := List.mem_flatMap.mp ((run_flatten _).mem_iff.mpr hitems)
  rw [group_bucket hb] at hx
  have hkey : key x = b.1 := by simpa using (List.mem_filter.mp hx).2
  exact List.mem_map.mpr ⟨b, hb, hkey.symm⟩

/-- No bucket is empty. -/
theorem group_ne_nil {items : List β} {b : κ × List β} (h : b ∈ group key items) : b.2 ≠ [] := by
  obtain ⟨p, hp, heq⟩ := List.mem_map.mp (run_reps _ b h)
  obtain ⟨x, hx, rfl⟩ := List.mem_map.mp hp
  have hmem : x ∈ b.2 := by
    rw [group_bucket h]
    exact List.mem_filter.mpr ⟨hx, decide_eq_true heq⟩
  exact List.ne_nil_of_mem hmem

theorem flatMap_filter_perm {γ : Type*} {f : γ → κ} : ∀ {keys : List κ} {cs : List γ}, keys.Nodup →
    (∀ c ∈ cs, f c ∈ keys) → (keys.flatMap fun k => cs.filter fun c => f c = k).Perm cs
  | [], cs, _, h => by
    cases cs with
    | nil => rfl
    | cons c cs => exact absurd (h c List.mem_cons_self) List.not_mem_nil
  | k :: keys, cs, hnodup, h => by
    obtain ⟨hk, hkeys⟩ := List.nodup_cons.mp hnodup
    have hrest : (keys.flatMap fun k' => cs.filter fun c => f c = k') =
        keys.flatMap fun k' => (cs.filter fun c => !decide (f c = k)).filter fun c => f c = k' := by
      refine List.flatMap_congr fun k' hk' => ?_
      rw [List.filter_filter]
      refine List.filter_congr fun c _ => ?_
      by_cases hc : f c = k'
      · have hne : k' ≠ k := fun heq => hk (heq ▸ hk')
        simp [hc, hne]
      · simp [hc]
    rw [List.flatMap_cons, hrest]
    refine List.Perm.trans ?_ (List.filter_append_perm (fun c => decide (f c = k)) cs)
    refine (flatMap_filter_perm hkeys fun c hc => ?_).append_left _
    obtain ⟨hmem, hne⟩ := List.mem_filter.mp hc
    exact (List.mem_cons.mp (h c hmem)).resolve_left (by simpa using hne)

end

/-- A list for each key makes the same items whatever the order of the keys is. -/
theorem flatMap_perm {γ : Type*} [DecidableEq κ] {g : κ → List γ} {keys keys' : List κ} (hkeys : keys.Nodup)
    (hkeys' : keys'.Nodup) (h : ∀ k, g k ≠ [] → k ∈ keys ∧ k ∈ keys') :
    (keys.flatMap g).Perm (keys'.flatMap g) := by
  have hfilled : ∀ ks : List κ, ks.flatMap g = (ks.filter fun k => !(g k).isEmpty).flatMap g := by
    intro ks
    induction ks with
    | nil => rfl
    | cons k ks ih =>
      cases hk : g k with
      | nil => simp [hk, ih]
      | cons x xs => simp [hk, ih]
  rw [hfilled keys, hfilled keys']
  refine List.Perm.flatMap_right g ((List.perm_ext_iff_of_nodup (hkeys.filter _) (hkeys'.filter _)).mpr ?_)
  intro k
  simp only [List.mem_filter, and_congr_left_iff]
  intro hk
  have hne : g k ≠ [] := by simpa using hk
  exact iff_of_true (h k hne).1 (h k hne).2

/-- First fit in each bucket. -/
def bucketed [DecidableEq κ] (near : ρ → ρ → Bool) (key : ρ → κ) (items : List (ρ × β)) : List (ρ × List β) :=
  (group (fun p => key p.1) items).flatMap fun b => run near b.2

/-- Where only items of one key are near each other, it finds the same clusters. -/
theorem bucketed_perm [DecidableEq κ] {key : ρ → κ} (hkey : ∀ a b, near a b = true → key a = key b)
    (items : List (ρ × β)) : (bucketed near key items).Perm (run near items) := by
  have hbuckets : bucketed near key items =
      ((group (fun p => key p.1) items).map Prod.fst).flatMap fun k =>
        (run near items).filter fun c => key c.1 = k := by
    rw [bucketed, List.flatMap_map]
    refine List.flatMap_congr fun b hb => ?_
    rw [group_bucket hb, run_filter hkey]
  rw [hbuckets]
  refine flatMap_filter_perm (group_keys_nodup items) fun c hc => ?_
  obtain ⟨p, hp, heq⟩ := List.mem_map.mp (run_reps items c hc)
  rw [← heq]
  exact @mem_group_keys _ _ _ (fun p : ρ × β => key p.1) _ _ hp

theorem bucketed_same [DecidableEq κ] {key : ρ → κ} {k : κ} {items : List (ρ × β)}
    (h : ∀ p ∈ items, key p.1 = k) : bucketed near key items = run near items := by
  rw [bucketed, group_same h]
  split
  · rename_i hnil
    rw [hnil]
    rfl
  · simp

/-! ### Other representatives -/

section
variable {ρ' β' : Type*} {near' : ρ' → ρ' → Bool} {g : ρ → ρ'} {f : β → β'} {P : ρ → Prop}

theorem place_map {item : ρ × β} (hitem : P item.1)
    (hnear : ∀ a b, P a → P b → near' (g a) (g b) = near a b) :
    ∀ {cs : List (ρ × List β)}, (∀ c ∈ cs, P c.1) →
      place near' (cs.map fun c => (g c.1, c.2.map f)) (g item.1, f item.2) =
        (place near cs item).map fun c => (g c.1, c.2.map f)
  | [], _ => by simp [place]
  | c :: cs, h => by
    obtain ⟨hc, hcs⟩ := List.forall_mem_cons.mp h
    rw [List.map_cons, place, place, hnear _ _ hc hitem]
    split
    · simp
    · rw [place_map hitem hnear hcs, List.map_cons]

/-- Clusters go by how near the items are, not by what the items and their representatives are. -/
theorem run_map {items : List (ρ × β)} (hitems : ∀ p ∈ items, P p.1)
    (hnear : ∀ a b, P a → P b → near' (g a) (g b) = near a b) :
    run near' (items.map fun p => (g p.1, f p.2)) =
      (run near items).map fun c => (g c.1, c.2.map f) := by
  induction items using List.reverseRecOn with
  | nil => rfl
  | append_singleton items item ih =>
    obtain ⟨hold, hnew⟩ := List.forall_mem_append.mp hitems
    have hreps : ∀ c ∈ run near items, P c.1 := fun c hc => by
      obtain ⟨p, hp, heq⟩ := List.mem_map.mp (run_reps items c hc)
      exact heq ▸ hold p hp
    rw [List.map_append, List.map_singleton, run_append, run_append, ih hold]
    exact place_map (hnew item List.mem_cons_self) hnear hreps

end

/-- What is done to the items of a dict of lists is done to its lists. -/
theorem group_map {β' : Type*} [DecidableEq κ] {key : β → κ} {key' : β' → κ} {f : β → β'} {items : List β}
    (h : ∀ x ∈ items, key' (f x) = key x) :
    group key' (items.map f) = (group key items).map fun b => (b.1, b.2.map f) := by
  have hitems : (items.map f).map (fun y => (key' y, y)) =
      (items.map fun x => (key x, x)).map fun p => (p.1, f p.2) := by
    rw [List.map_map, List.map_map]
    exact List.map_congr_left fun x hx => by simp [h x hx]
  rw [group, hitems]
  exact @run_map _ _ _ _ _ _ id f (fun _ => True) _ (fun _ _ => trivial) fun _ _ _ _ => rfl

end

end FirstFit
