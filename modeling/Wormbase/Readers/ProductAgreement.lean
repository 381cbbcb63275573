import Wormbase.Readers.GatewayReaders
import Wormbase.Projection.Constraints
import Wormbase.Py.UuidText

/-! The data products that the gateway reader folds are those of the projection.

    Both are dicts that change at the same entries, in the same order. So the dicts show the same
    all along. -/

namespace Readers
open Py Projection

/-! ### Entries that fold reads -/

section
variable {py : Interp} {rows : List LedgerRow} {e : LedgerRow}

theorem applied_mem : ∀ {rows : List LedgerRow} {s s' : State}, foldEntries py s rows = .ok s' →
    ∀ e ∈ rows, ∃ u u', applyEntry py u e = .ok u'
  | [], _, _, _, _, he => nomatch he
  | a :: rows, s, s', h, e, he => by
    obtain ⟨u, hu, h⟩ := foldEntries_cons.mp h
    rcases List.mem_cons.mp he with rfl | he
    · exact ⟨s, u, hu⟩
    · exact applied_mem h e he

theorem readable_dict (d : Dict) : readable (.dict d) = .ok d := by rw [readable, or_dict]

end

/-! ### Two dicts that show the same -/

section
variable {α β γ : Type} {f : α → γ} {g : β → γ} {d : Dictionary String α} {t : Dictionary String β}

/-- The same keys in the same order, and at each the same to see. -/
def Mirrors (f : α → γ) (g : β → γ) (d : Dictionary String α) (t : Dictionary String β) : Prop :=
  d.rows.map (Prod.map id f) = t.rows.map (Prod.map id g)

theorem map_putRow (f : α → γ) (k : String) (a : α) : ∀ xs : List (String × α),
    (Table.putRow Prod.fst (k, a) xs).map (Prod.map id f) =
      Table.putRow Prod.fst (k, f a) (xs.map (Prod.map id f))
  | [] => rfl
  | x :: xs => by
    by_cases hx : x.1 = k
    · simp [Table.putRow, hx]
    · simp [Table.putRow, hx, map_putRow f k a xs]

theorem Mirrors.put (h : Mirrors f g d t) (k : String) {a : α} {b : β} (hab : f a = g b) :
    Mirrors f g (d.put (k, a)) (t.put (k, b)) := by
  have hd := map_putRow f k a d.rows
  have ht := map_putRow g k b t.rows
  rw [h, hab, ← ht] at hd
  exact hd

theorem Mirrors.get? (h : Mirrors f g d t) (k : String) :
    (d.get? k).map (Prod.map id f) = (t.get? k).map (Prod.map id g) := by
  have hfind : ∀ {δ : Type} (φ : δ → γ) (xs : List (String × δ)),
      (xs.find? fun p => decide (p.1 = k)).map (Prod.map id φ) =
        (xs.map (Prod.map id φ)).find? fun p => decide (p.1 = k) := by
    intro δ φ xs
    rw [List.find?_map]
    rfl
  exact (hfind f d.rows).trans ((congrArg _ h).trans (hfind g t.rows).symm)

/-- A change of what is there, on both sides. -/
theorem Mirrors.changeAt (h : Mirrors f g d t) (k : String) {change : α → α} {change' : β → β}
    (hchange : ∀ a b, f a = g b → f (change a) = g (change' b)) :
    Mirrors f g (changeAt d k change) (changeAt t k change') := by
  have hget := h.get? k
  unfold Readers.changeAt
  cases hd : d.get? k with
  | none =>
    rw [hd, Option.map_none, eq_comm, Option.map_eq_none_iff] at hget
    rw [hget]
    exact h
  | some p =>
    obtain ⟨q, hq, hpq⟩ := Option.map_eq_some_iff.mp (hget.symm.trans (by rw [hd]; rfl))
    rw [hq]
    exact h.put k (hchange p.2 q.2 (congrArg Prod.snd hpq).symm)

end

/-! ### One entry -/

def productTools : List String :=
  ["emit_data_product_proposed", "emit_data_product_generated", "emit_data_product_archived"]

/-- The entry as it is written: args are a dict, and ids are the texts of UUIDs. -/
structure ProductWritten (e : LedgerRow) : Prop where
  args : e.kind = "execute" → ∀ payload, e.payload = .dict payload →
    ∃ args, (Dict.get payload "args").or (.dict []) = .dict args
  id : ∀ tool args, e.action = some (tool, args) → tool ∈ productTools →
    ∃ u : UUID, args.get "data_product_id" = .str u.str
  person : ∀ args, e.action = some ("emit_data_product_proposed", args) →
    ∃ u : UUID, args.get "requested_by_person_id" = .str u.str
  domain : ∀ args, e.action = some ("emit_data_product_proposed", args) →
    args.get "domain_id" = .none ∨ ∃ u : UUID, args.get "domain_id" = .str u.str

/-- What a record says of a product of the projection. -/
def factsOf (d : DataProduct) : ProductFacts where
  dataProductId := d.dataProductId.str
  name := d.name
  kind := d.kind
  status := d.status
  requestedByPersonId := some d.requestedByPersonId.str
  domainId := d.domainId.map UUID.str
  generatedAt := d.generatedAt.map DateTime.isoformat
  contentHash := d.contentHash
  contentsUri := d.contentsUri

section
variable {py : Interp} {e : LedgerRow} {args : Dict} {t t' : DataProducts} {u : UUID}

theorem updateAt_changeAt {ρ : Type} {t t' : Dictionary String ρ} {s : String} {f : ρ → Except Err ρ}
    {change : ρ → ρ} (h : updateAt t (.str s) f = .ok t') (hf : ∀ r r', f r = .ok r' → r' = change r) :
    t' = changeAt t s change := by
  obtain ⟨k, hk, h⟩ := bind_eq_ok.mp h
  obtain rfl := Except.ok.inj hk
  simp only at h
  unfold changeAt
  cases hget : t.get? s with
  | none =>
    rw [hget] at h
    exact (Except.ok.inj h).symm
  | some p =>
    rw [hget] at h
    obtain ⟨r', hr', h⟩ := bind_eq_ok.mp h
    obtain rfl := Except.ok.inj h
    exact congrArg (fun r => t.put (s, r)) (hf _ _ hr')

theorem str_ne_empty (u : UUID) : u.str ≠ "" := by
  intro h
  have hlen := congrArg String.toList h
  rw [UUID.str, String.toList_ofList] at hlen
  have := u.length_text
  rw [hlen] at this
  cases this

theorem text?_str (u : UUID) : (Val.str u.str).text? py = some u.str := by
  simp [Val.text?, Val.truthy, str_ne_empty u, Val.toStr]

theorem item_getD {name : String} {v d : Val} (h : args.item name = .ok v) : args.getD name d = v := by
  unfold Dict.item at h
  unfold Dict.getD
  cases hget : args.get? name with
  | none =>
    rw [hget] at h
    cases h
  | some w =>
    rw [hget] at h
    exact Except.ok.inj h

theorem proposed_products (hw : ProductWritten e) (hact : e.action = some ("emit_data_product_proposed", args))
    (hid : args.get "data_product_id" = .str u.str) (h : emitDataProductProposed e args t = .ok t') :
    ∃ d, t'.products = t.products.put (u.str, d) ∧
      (shapeDataProductProposed py e args).toProductFacts = factsOf d := by
  obtain ⟨person, hperson⟩ := hw.person args hact
  obtain ⟨v, hv, h⟩ := bind_eq_ok.mp h
  obtain ⟨⟨dpid, id⟩, huuid, h⟩ := bind_eq_ok.mp h
  obtain ⟨name, hname, h⟩ := bind_eq_ok.mp h
  obtain ⟨kind, hkind, h⟩ := bind_eq_ok.mp h
  obtain ⟨w, hw', h⟩ := bind_eq_ok.mp h
  obtain ⟨who, hwho, h⟩ := bind_eq_ok.mp h
  obtain ⟨dom, hdom, h⟩ := bind_eq_ok.mp h
  obtain rfl := Except.ok.inj h
  obtain rfl : v = .str u.str := (item_get hv).symm.trans hid
  obtain rfl : w = .str person.str := (item_get hw').symm.trans hperson
  rw [uuidText, UUID.toUUID_str] at huuid
  obtain ⟨rfl, rfl⟩ := Prod.mk.inj (Except.ok.inj huuid)
  rw [UUID.toUUID_str] at hwho
  obtain rfl := Except.ok.inj hwho
  refine ⟨_, rfl, ?_⟩
  have hdomain : (args.get "domain_id").text? py = dom.map UUID.str := by
    rcases hw.domain args hact with hnone | ⟨d, hd⟩
    · rw [hnone] at hdom ⊢
      obtain rfl := Except.ok.inj hdom
      rfl
    · rw [hd] at hdom ⊢
      have hsome : (Val.str d.str).toUUID? = .ok (some d) := by
        simp only [Val.toUUID?, Val.truthy, UUID.toUUID_str, ne_eq, str_ne_empty d]
        rfl
      obtain rfl := Except.ok.inj (hsome.symm.trans hdom)
      exact text?_str d
  simp only [shapeDataProductProposed, factsOf, item_getD hv, item_getD hname, item_getD hkind, hperson,
    text?_str, hdomain, Val.toStr, Option.map_none]

theorem generated_products (hid : args.get "data_product_id" = .str u.str)
    (h : emitDataProductGenerated py e args t = .ok t') :
    t'.products = changeAt t.products u.str fun d => { d with
      status := .generated
      latestRunSeq := some e.seq
      generatedAt := some e.ts
      contentHash := args.get "content_hash"
      contentsUri := args.get "contents_uri"
      lastUpdatedSeq := e.seq } := by
  obtain ⟨v, hv, h⟩ := bind_eq_ok.mp h
  obtain ⟨runId, -, h⟩ := bind_eq_ok.mp h
  obtain ⟨contentHash, hhash, h⟩ := bind_eq_ok.mp h
  obtain ⟨product, -, h⟩ := bind_eq_ok.mp h
  obtain ⟨generatedBy, -, h⟩ := bind_eq_ok.mp h
  obtain ⟨hashes, -, h⟩ := bind_eq_ok.mp h
  obtain ⟨w, -, h⟩ := bind_eq_ok.mp h
  obtain ⟨duration, -, h⟩ := bind_eq_ok.mp h
  obtain ⟨products, hproducts, h⟩ := bind_eq_ok.mp h
  obtain rfl := Except.ok.inj h
  obtain rfl : v = .str u.str := (item_get hv).symm.trans hid
  refine updateAt_changeAt hproducts fun r r' hr => ?_
  obtain ⟨uri, huri, hr⟩ := bind_eq_ok.mp hr
  rw [item_get hhash, item_get huri]
  exact (Except.ok.inj hr).symm

theorem archived_products (hid : args.get "data_product_id" = .str u.str)
    (h : emitDataProductArchived e args t = .ok t') :
    t'.products = changeAt t.products u.str fun d =>
      { d with status := .archived, lastUpdatedSeq := e.seq } := by
  obtain ⟨v, hv, h⟩ := bind_eq_ok.mp h
  obtain ⟨products, hproducts, h⟩ := bind_eq_ok.mp h
  obtain rfl := Except.ok.inj h
  obtain rfl : v = .str u.str := (item_get hv).symm.trans hid
  exact updateAt_changeAt hproducts fun r r' hr => (Except.ok.inj hr).symm

end

section
variable {py : Interp} {rows : List LedgerRow} {e : LedgerRow} {args : Dict} {tool : String} {u : UUID}
  {state : Dictionary String ProductRecord} {s s' : State} {p : Projections}

/-- A row of another tool is passed over. -/
theorem collectRow_other (h : applyEntry py s e = .ok s') (hw : ProductWritten e)
    (hother : ∀ tool args, e.action = some (tool, args) → tool ∉ productTools) :
    collectRow py state e = .ok state := by
  unfold collectRow
  by_cases hkind : e.kind = "execute"
  · obtain ⟨payload, hpayload, hcall⟩ := folded_execute h hkind
    obtain ⟨args, hargs⟩ := hw.args hkind payload hpayload
    have hread : readable (Dict.get payload "args") = .ok args := by rw [readable, hargs]
    have htool : ∀ t ∈ productTools, t ∈ Part.all.flatMap Part.tools →
        (Dict.get payload "tool").isText t = false := by
      intro t ht hmem
      cases hcase : (Dict.get payload "tool").isText t with
      | false => rfl
      | true =>
        obtain ⟨args', hact, -⟩ := hcall t (Val.isText_iff.mp hcase) hmem
        exact absurd ht (hother t args' hact)
    have hp := htool "emit_data_product_proposed" (by decide) (by decide)
    have hg := htool "emit_data_product_generated" (by decide) (by decide)
    have ha := htool "emit_data_product_archived" (by decide) (by decide)
    simp only [hkind, ne_eq, not_true_eq_false, if_false, hpayload, readable_dict, bind, Except.bind, hread]
    split
    · rfl
    · simp only [hp, hg, ha]
      rfl
  · rw [if_pos hkind]
    rfl

/-- A row that names a product. -/
theorem collectRow_product (hact : e.action = some (tool, args))
    (hid : args.get "data_product_id" = .str u.str) : collectRow py state e = .ok (
      if tool = "emit_data_product_proposed" then state.put (u.str, shapeDataProductProposed py e args)
      else if tool = "emit_data_product_generated" then
        changeAt state u.str (applyDataProductGenerated e args)
      else if tool = "emit_data_product_archived" then changeAt state u.str (applyDataProductArchived e)
      else state) := by
  obtain ⟨hkind, payload, hpayload, htool, hget⟩ := action_eq_some.mp hact
  have hread : readable (Dict.get payload "args") = .ok args := by rw [readable, or_args hget]
  have htext : ∀ t, (Dict.get payload "tool").isText t = decide (tool = t) := by
    intro t
    rw [htool]
    rfl
  unfold collectRow
  simp only [hkind, ne_eq, not_true_eq_false, if_false, hpayload, readable_dict, bind, Except.bind, hread,
    hid, htext, decide_eq_true_eq, Val.toStr]
  split
  · rfl
  · split
    · rfl
    · split
      · rfl
      · rfl

theorem mirrors_step (h : applyEntry py s e = .ok s') (hw : ProductWritten e)
    (hm : Mirrors ProductRecord.toProductFacts factsOf state (s .dataProducts).products) :
    ∃ state', collectRow py state e = .ok state' ∧
      Mirrors ProductRecord.toProductFacts factsOf state' (s' .dataProducts).products := by
  have hstep := applyEntry_at h .dataProducts
  by_cases hproduct : ∃ tool args, e.action = some (tool, args) ∧ tool ∈ productTools
  · obtain ⟨tool, args, hact, htool⟩ := hproduct
    obtain ⟨u, hid⟩ := hw.id tool args hact htool
    refine ⟨_, collectRow_product hact hid, ?_⟩
    simp only [productTools, List.mem_cons, List.not_mem_nil, or_false] at htool
    rcases htool with rfl | rfl | rfl
    · rw [stepAt_handler (by decide) hact (.head _)] at hstep
      obtain ⟨d, hd, hfacts⟩ := @proposed_products py _ _ _ _ _ hw hact hid hstep
      rw [hd, if_pos rfl]
      exact hm.put u.str hfacts
    · rw [stepAt_handler (by decide) hact (.tail _ (.head _))] at hstep
      rw [generated_products hid hstep, if_neg (by decide), if_pos rfl]
      refine hm.changeAt u.str fun a b hab => ?_
      simp only [applyDataProductGenerated, hab]
      rfl
    · rw [stepAt_handler (by decide) hact (.tail _ (.tail _ (.tail _ (.head _))))] at hstep
      rw [archived_products hid hstep, if_neg (by decide), if_neg (by decide), if_pos rfl]
      refine hm.changeAt u.str fun a b hab => ?_
      simp only [applyDataProductArchived, hab]
      rfl
  · push Not at hproduct
    refine ⟨state, collectRow_other h hw hproduct, ?_⟩
    have hsame : (s' .dataProducts).products = (s .dataProducts).products := by
      rcases stepAt_cases (by decide) hstep with ⟨heq, -⟩ | ⟨tool, args, run, hact, hmem, hrun⟩
      · rw [heq]
      · have htool := hproduct tool args hact
        simp only [Part.handlers, List.mem_cons, Prod.mk.injEq, List.not_mem_nil, or_false] at hmem
        rcases hmem with ⟨rfl, rfl⟩ | ⟨rfl, rfl⟩ | ⟨rfl, rfl⟩ | ⟨rfl, rfl⟩
        · exact absurd (by decide) htool
        · exact absurd (by decide) htool
        · exact (emitDataProductConsumed_ok hrun).1
        · exact absurd (by decide) htool
    rw [hsame]
    exact hm

theorem mirrors_run : ∀ {rows : List LedgerRow} {s s' : State} {state : Dictionary String ProductRecord},
    foldEntries py s rows = .ok s' → (∀ e ∈ rows, ProductWritten e) →
      Mirrors ProductRecord.toProductFacts factsOf state (s .dataProducts).products →
      ∃ state', rows.foldlM (collectRow py) state = .ok state' ∧
        Mirrors ProductRecord.toProductFacts factsOf state' (s' .dataProducts).products
  | [], _, _, state, h, _, hm => ⟨state, rfl, Except.ok.inj h ▸ hm⟩
  | e :: rows, s, s', state, h, hw, hm => by
    obtain ⟨v, hv, h⟩ := foldEntries_cons.mp h
    obtain ⟨he, hrows⟩ := List.forall_mem_cons.mp hw
    obtain ⟨state₁, hstate₁, hm₁⟩ := mirrors_step hv he hm
    obtain ⟨state₂, hstate₂, hm₂⟩ := mirrors_run h hrows hm₁
    refine ⟨state₂, ?_, hm₂⟩
    rw [List.foldlM_cons, hstate₁]
    exact hstate₂

/-! ### The records that are listed -/

/-- The filters of a listing. -/
def asked (domainId status : Option String) (r : ProductFacts) : Bool :=
  (domainId.all fun d => r.domainId.getD "" = d) && status.all fun s => statusText r.status = s

/-- The reader lists the products of the projection, with their states. -/
structure ProductsAgree (py : Interp) (rows : List LedgerRow) (p : Projections) : Prop where
  list : ∀ domainId status limit, ∃ out, ∃ all : List ProductFacts,
    listDataProducts py domainId status limit rows = .ok out ∧
    all.Perm ((p.dataProducts.map factsOf).filter (asked domainId status)) ∧
    out.map ProductRecord.toProductFacts = all.take limit.toNat
  get : ∀ id, ∃ found, getDataProduct py id rows = .ok found ∧
    (found = none → ∀ d ∈ p.dataProducts, d.dataProductId.str ≠ id) ∧
    ∀ r, found = some r → ∃ d ∈ p.dataProducts, d.dataProductId.str = id ∧ r.toProductFacts = factsOf d

theorem collect_agrees (hp : projectionsOf py rows = .ok p) (hw : ∀ e ∈ rows, ProductWritten e) :
    ∃ out, collectDataProducts py rows = .ok out ∧
      (out.map ProductRecord.toProductFacts).Perm (p.dataProducts.map factsOf) := by
  obtain ⟨s, hs, hout⟩ := projectionsOf_ok hp
  obtain ⟨state, hstate, hm⟩ := @mirrors_run py rows _ s Table.empty hs hw rfl
  refine ⟨_, by rw [collectDataProducts, hstate]; rfl, ?_⟩
  have hsecond := congrArg (List.map Prod.snd) hm
  simp only [List.map_map] at hsecond
  have hproducts : p.dataProducts.Perm ((s .dataProducts).products.rows.map Prod.snd) :=
    @rows_perm py ⟨0⟩ ⟨⟨0, by decide⟩, none⟩ s p hout .dataProducts
  refine (List.mergeSort_perm _ _ |>.map _).trans ?_
  refine List.Perm.trans ?_ (hproducts.map factsOf).symm
  rw [List.map_map, List.map_map]
  exact .of_eq hsecond

theorem products_agree (hp : projectionsOf py rows = .ok p) (hw : ∀ e ∈ rows, ProductWritten e) :
    ProductsAgree py rows p := by
  obtain ⟨all, hall, hperm⟩ := collect_agrees hp hw
  have hget : ∀ id, getDataProduct py id rows = .ok (all.find? fun r => r.dataProductId = id) := by
    intro id
    rw [getDataProduct, hall]
    rfl
  constructor
  · intro domainId status limit
    let shown := all.filter fun r => asked domainId status r.toProductFacts
    have hlist : listDataProducts py domainId status limit rows = .ok (shown.take limit.toNat) := by
      rw [listDataProducts, hall]
      cases domainId with
      | none =>
        cases status with
        | none =>
          have hshown : shown = all := List.filter_eq_self.mpr fun r _ => rfl
          rw [hshown]
          rfl
        | some st => rfl
      | some d =>
        cases status with
        | none =>
          have hshown : shown = all.filter fun r => r.domainId.getD "" = d :=
            List.filter_congr fun r _ => Bool.and_true _
          rw [hshown]
          rfl
        | some st =>
          have hshown : shown = (all.filter fun r => r.domainId.getD "" = d).filter fun r =>
              statusText r.status = st := by
            rw [List.filter_filter]
            exact List.filter_congr fun r _ => Bool.and_comm _ _
          rw [hshown]
          rfl
    refine ⟨_, shown.map ProductRecord.toProductFacts, hlist, ?_, List.map_take⟩
    have hmap : shown.map ProductRecord.toProductFacts =
        (all.map ProductRecord.toProductFacts).filter (asked domainId status) := by
      rw [List.filter_map]
      rfl
    rw [hmap]
    exact hperm.filter _
  · intro id
    refine ⟨_, hget id, fun hnone d hd heq => ?_, fun r hr => ?_⟩
    · obtain ⟨r, hr, hfacts⟩ := List.mem_map.mp (hperm.mem_iff.mpr (List.mem_map_of_mem hd))
      have hid : r.dataProductId = id := (congrArg ProductFacts.dataProductId hfacts).trans heq
      exact absurd (decide_eq_true hid) (List.find?_eq_none.mp hnone r hr)
    · have hid : r.dataProductId = id := by simpa using List.find?_some hr
      have hmem := hperm.mem_iff.mp (List.mem_map_of_mem (List.mem_of_find?_eq_some hr))
      obtain ⟨d, hd, hfacts⟩ := List.mem_map.mp hmem
      exact ⟨d, hd, (congrArg ProductFacts.dataProductId hfacts).trans hid, hfacts.symm⟩

end

end Readers
