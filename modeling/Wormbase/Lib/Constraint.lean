import Wormbase.Lib.Table
import Mathlib.Data.List.Pairwise

/-! Primary keys and unique columns, and what a put, a drop or a change of rows does to them. -/

/-- Columns that must tell rows apart, `none` where one of them is null. Required columns take no
    null. -/
structure Constraint (ρ γ : Type) where
  columns : ρ → Option γ
  required : Bool

namespace Constraint
variable {ρ γ : Type} {c : Constraint ρ γ}

def Holds (c : Constraint ρ γ) (rows : List ρ) : Prop :=
  (c.required = true → ∀ r ∈ rows, c.columns r ≠ none) ∧
    rows.Pairwise fun a b => c.columns a = c.columns b → c.columns a = none

instance [DecidableEq γ] (c : Constraint ρ γ) (rows : List ρ) : Decidable (c.Holds rows) :=
  inferInstanceAs (Decidable (_ ∧ _))

theorem holds_nil : c.Holds [] := ⟨fun _ _ h => absurd h List.not_mem_nil, .nil⟩

theorem Holds.sublist {xs ys : List ρ} (h : c.Holds ys) (hsub : xs.Sublist ys) : c.Holds xs :=
  ⟨fun hp r hr => h.1 hp r (hsub.subset hr), h.2.sublist hsub⟩

theorem Holds.perm {xs ys : List ρ} (h : c.Holds xs) (hperm : xs.Perm ys) : c.Holds ys := by
  refine ⟨fun hp r hr => h.1 hp r (hperm.mem_iff.mpr hr), (hperm.pairwise_iff ?_).mp h.2⟩
  intro a b hab hba
  exact hba.trans (hab hba.symm)

theorem holds_perm {xs ys : List ρ} (hperm : xs.Perm ys) : c.Holds xs ↔ c.Holds ys :=
  ⟨fun h => h.perm hperm, fun h => h.perm hperm.symm⟩

/-- Rows are looked at through their constrained columns only. -/
theorem holds_map {f : ρ → ρ} (hf : ∀ r, c.columns (f r) = c.columns r) {rows : List ρ} :
    c.Holds (rows.map f) ↔ c.Holds rows := by
  simp only [Holds, List.forall_mem_map, List.pairwise_map, hf]

theorem holds_append {xs ys : List ρ} : c.Holds (xs ++ ys) ↔ c.Holds xs ∧ c.Holds ys ∧
    ∀ x ∈ xs, ∀ y ∈ ys, c.columns x = c.columns y → c.columns x = none := by
  simp only [Holds, List.mem_append, List.pairwise_append]
  constructor
  · rintro ⟨hnull, hxs, hys, hcross⟩
    exact ⟨⟨fun hr x hx => hnull hr x (.inl hx), hxs⟩, ⟨fun hr y hy => hnull hr y (.inr hy), hys⟩,
      hcross⟩
  · rintro ⟨⟨hnull, hxs⟩, ⟨hnull', hys⟩, hcross⟩
    refine ⟨fun hr x hx => ?_, hxs, hys, hcross⟩
    rcases hx with hx | hx
    · exact hnull hr x hx
    · exact hnull' hr x hx

/-- A constraint on what is made of the rows. -/
def comap {σ : Type} (f : σ → ρ) (c : Constraint ρ γ) : Constraint σ γ :=
  ⟨fun r => c.columns (f r), c.required⟩

theorem holds_comap {σ : Type} {f : σ → ρ} {rows : List σ} :
    (c.comap f).Holds rows ↔ c.Holds (rows.map f) := by
  simp only [Holds, comap, List.forall_mem_map, List.pairwise_map]

/-- Over a table, rows that agree on the columns are one row. -/
theorem holds_table {κ : Type} {key : ρ → κ} {t : Table key} : c.Holds t.rows ↔
    (c.required = true → ∀ r ∈ t.rows, c.columns r ≠ none) ∧
      ∀ a ∈ t.rows, ∀ b ∈ t.rows, key a ≠ key b → c.columns a = c.columns b →
        c.columns a = none := by
  refine and_congr_right fun _ => ?_
  have hsymm : Std.Symm fun a b => c.columns a = c.columns b → c.columns a = none :=
    ⟨fun a b hab hba => hba.trans (hab hba.symm)⟩
  constructor
  · intro h a ha b hb hne heq
    exact h.forall ha hb (fun hab => hne (hab ▸ rfl)) heq
  · intro h
    have hpair := List.pairwise_map.mp t.nodup
    exact hpair.imp_of_mem fun ha hb hne => h _ ha _ hb hne

end Constraint

namespace Table
variable {ρ κ γ : Type} {key : ρ → κ} {cs : List (Constraint ρ γ)} {t : Table key}

/-- Every constraint holds of the rows. -/
def Satisfies (cs : List (Constraint ρ γ)) (t : Table key) : Prop := ∀ c ∈ cs, c.Holds t.rows

/-- A row that may be put: what its constrained columns hold, no row under another key holds. -/
def Admits (cs : List (Constraint ρ γ)) (t : Table key) (r : ρ) : Prop :=
  ∀ c ∈ cs, (c.required = true → c.columns r ≠ none) ∧
    ∀ y ∈ t.rows, key y ≠ key r → c.columns y = c.columns r → c.columns r = none

theorem satisfies_empty : (empty : Table key).Satisfies cs := fun _ _ => Constraint.holds_nil

theorem Satisfies.mapRows (h : t.Satisfies cs) {f : ρ → ρ} {hf : ∀ r, key (f r) = key r}
    (hcols : ∀ c ∈ cs, ∀ r, c.columns (f r) = c.columns r) : (t.mapRows f hf).Satisfies cs :=
  fun c hc => (Constraint.holds_map (hcols c hc)).mpr (h c hc)

theorem Satisfies.updateFirst (h : t.Satisfies cs) {test : ρ → Bool} {f : ρ → ρ}
    {hf : ∀ r, key (f r) = key r} (hcols : ∀ c ∈ cs, ∀ r, c.columns (f r) = c.columns r) :
    (t.updateFirst test f hf).Satisfies cs := by
  intro c hc
  obtain ⟨hnull, hpair⟩ := h c hc
  have hmap : (updateRow test f t.rows).map c.columns = t.rows.map c.columns :=
    map_updateRow (hcols c hc) t.rows
  constructor
  · intro hp r hr
    obtain ⟨y, hy, heq⟩ := List.mem_map.mp (hmap ▸ List.mem_map_of_mem hr)
    exact heq ▸ hnull hp y hy
  · have hp := List.pairwise_map (R := fun a b => a = b → a = none).mpr hpair
    exact List.pairwise_map.mp (show ((updateRow test f t.rows).map c.columns).Pairwise _ from
      hmap ▸ hp)

/-- Columns that spell the key out cannot clash. -/
theorem holds_of_key {c : Constraint ρ γ} {name : κ → γ} (hinj : Function.Injective name)
    (hcols : ∀ r, c.columns r = some (name (key r))) (t : Table key) : c.Holds t.rows :=
  Constraint.holds_table.mpr ⟨fun _ r _ => by simp [hcols], fun a _ b _ hne heq =>
    absurd (hinj (Option.some.inj (by rw [← hcols, ← hcols, heq]))) hne⟩

variable [DecidableEq κ]

theorem Satisfies.erase (h : t.Satisfies cs) (k : κ) : (t.erase k).Satisfies cs :=
  fun c hc => (h c hc).sublist List.filter_sublist

theorem satisfies_put (h : t.Satisfies cs) {r : ρ} :
    (t.put r).Satisfies cs ↔ t.Admits cs r := by
  constructor
  · intro hput c hc
    obtain ⟨hnull, hdiff⟩ := Constraint.holds_table.mp (hput c hc)
    have hr : r ∈ (t.put r).rows := mem_put.mpr (.inl rfl)
    refine ⟨fun hp => hnull hp r hr, fun y hy hne heq => ?_⟩
    exact heq ▸ hdiff y (mem_put.mpr (.inr ⟨hy, hne⟩)) r hr hne heq
  · intro hadm c hc
    obtain ⟨hr, hnew⟩ := hadm c hc
    obtain ⟨hnull, hdiff⟩ := Constraint.holds_table.mp (h c hc)
    refine Constraint.holds_table.mpr ⟨fun hp y hy => ?_, fun a ha b hb hne heq => ?_⟩
    · rcases mem_put.mp hy with rfl | ⟨hy, -⟩
      · exact hr hp
      · exact hnull hp y hy
    · rcases mem_put.mp ha with har | ⟨hat, -⟩
      · subst har
        rcases mem_put.mp hb with rfl | ⟨hbt, hbne⟩
        · exact absurd rfl hne
        · exact hnew b hbt hbne heq.symm
      · rcases mem_put.mp hb with hbr | ⟨hbt, -⟩
        · subst hbr
          exact heq.trans (hnew a hat hne heq)
        · exact hdiff a hat b hbt hne heq

/-- A new value for a row that is there, with the columns it had. -/
theorem Satisfies.put_of_get? (h : t.Satisfies cs) {r r' : ρ} (hget : t.get? (key r') = some r)
    (hcols : ∀ c ∈ cs, c.columns r' = c.columns r) : (t.put r').Satisfies cs := by
  obtain ⟨hr, hkey⟩ := get?_eq_some_iff.mp hget
  refine (satisfies_put h).mpr fun c hc => ?_
  obtain ⟨hnull, hdiff⟩ := Constraint.holds_table.mp (h c hc)
  rw [hcols c hc]
  exact ⟨fun hp => hnull hp r hr, fun y hy hne heq =>
    heq ▸ hdiff y hy r hr (hkey ▸ hne) heq⟩

theorem satisfies_putNew (h : t.Satisfies cs) {r : ρ} :
    (t.putNew r).Satisfies cs ↔ t.get? (key r) = none → t.Admits cs r := by
  rw [putNew]
  cases hget : t.get? (key r) with
  | none => simp [satisfies_put h]
  | some y => simp [h]

end Table
