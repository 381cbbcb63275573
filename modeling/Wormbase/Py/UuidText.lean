import Wormbase.Py.Coerce
import Mathlib.Data.List.Induction
import Mathlib.Data.List.ProdSigma

/-! A UUID is read back from its text, so texts of different UUIDs differ. -/

namespace Py

def hexDigits : List Char := "0123456789abcdef".toList

theorem digitChar_mem {n : ℕ} (h : n < 16) : Nat.digitChar n ∈ hexDigits := by
  have all : ∀ n : Fin 16, Nat.digitChar n ∈ hexDigits := by decide
  exact all ⟨n, h⟩

theorem digitVal_digitChar {n : ℕ} (h : n < 16) : digitVal (Nat.digitChar n) = n := by
  have all : ∀ n : Fin 16, digitVal (Nat.digitChar n) = n := by decide
  exact all ⟨n, h⟩

theorem mem_toDigits (n : ℕ) : ∀ c ∈ Nat.toDigits 16 n, c ∈ hexDigits := by
  induction n using Nat.strong_induction_on with
  | _ n ih =>
    intro c hc
    by_cases hn : n < 16
    · rw [Nat.toDigits_of_lt_base hn, List.mem_singleton] at hc
      exact hc ▸ digitChar_mem hn
    · rw [Nat.toDigits_of_base_le (by decide) (by omega), List.mem_append, List.mem_singleton] at hc
      rcases hc with hc | rfl
      · exact ih (n / 16) (by omega) c hc
      · exact digitChar_mem (Nat.mod_lt n (by decide))

/-! ### Reading hex digits -/

/-- The number that hex digits spell, after `acc`. -/
def hexValue (acc : ℕ) (cs : List Char) : ℕ := cs.foldl (fun n c => n * 16 + digitVal c) acc

theorem hexValue_toDigits (n : ℕ) : hexValue 0 (Nat.toDigits 16 n) = n := by
  induction n using Nat.strong_induction_on with
  | _ n ih =>
    by_cases hn : n < 16
    · simp [Nat.toDigits_of_lt_base hn, hexValue, digitVal_digitChar hn]
    · have hrec := ih (n / 16) (by omega)
      rw [hexValue] at hrec
      rw [Nat.toDigits_of_base_le (by decide) (by omega), hexValue, List.foldl_append, hrec]
      simp only [List.foldl_cons, List.foldl_nil, digitVal_digitChar (Nat.mod_lt n (by decide : 0 < 16))]
      omega

theorem hexValue_zeros (k : ℕ) : hexValue 0 (List.replicate k '0') = 0 := by
  induction k with
  | zero => rfl
  | succ k ih => exact ih

theorem readDigits_hex : ∀ {cs : List Char} {acc : ℕ} {seen : Bool}, (∀ c ∈ cs, c ∈ hexDigits) →
    (cs ≠ [] ∨ seen = true) → readDigits 16 cs acc seen = some (hexValue acc cs)
  | [], acc, seen, _, h => by
    obtain rfl : seen = true := by simpa using h
    rfl
  | c :: cs, acc, seen, hcs, _ => by
    have all : ∀ c ∈ hexDigits, c ≠ '_' ∧ digitVal c < 16 := List.all_iff_forall_prop.mp (by decide)
    obtain ⟨hc, hlt⟩ := all c (hcs c List.mem_cons_self)
    rw [readDigits, if_neg hc, if_pos hlt]
    exact readDigits_hex (fun d hd => hcs d (List.mem_cons_of_mem c hd)) (.inr rfl)

theorem map_asciiChar {cs : List Char} (h : ∀ c ∈ cs, c ∈ hexDigits) : cs.map asciiChar = cs := by
  have all : ∀ c ∈ hexDigits, asciiChar c = c := List.all_iff_forall_prop.mp (by decide)
  exact (List.map_congr_left fun c hc => all c (h c hc)).trans (List.map_id cs)

theorem dropWhile_none {α : Type} {p : α → Bool} : ∀ {xs : List α}, (∀ x ∈ xs, p x = false) →
    xs.dropWhile p = xs
  | [], _ => rfl
  | x :: xs, h => by rw [List.dropWhile_cons, h x List.mem_cons_self]; rfl

theorem strip_hex {cs : List Char} (h : ∀ c ∈ cs, c ∈ hexDigits) : strip cs = cs := by
  have all : ∀ c ∈ hexDigits, isSpace c = false := List.all_iff_forall_prop.mp (by decide)
  have hrev : ∀ c ∈ cs.reverse, isSpace c = false := fun c hc => all c (h c (List.mem_reverse.mp hc))
  rw [strip, dropWhile_none fun c hc => all c (h c hc), dropWhile_none hrev, List.reverse_reverse]

theorem intOfText_hex {cs : List Char} (h : ∀ c ∈ cs, c ∈ hexDigits) (hne : cs ≠ []) :
    intOfText 16 cs = some (hexValue 0 cs : ℤ) := by
  have all : ∀ c ∈ hexDigits, c ≠ '-' ∧ c ≠ '+' ∧ c ≠ 'x' ∧ c ≠ 'X' := List.all_iff_forall_prop.mp (by decide)
  have hsign : PyFloat.signOf cs = (false, cs) := by
    unfold PyFloat.signOf
    split
    · rename_i cs
      exact absurd rfl (all _ (h _ List.mem_cons_self)).1
    · exact absurd rfl (all _ (h _ List.mem_cons_self)).2.1
    · rfl
  have hmark : dropHexMark cs = cs := by
    have hx : ∀ (c : Char) (t : List Char), cs = '0' :: c :: t → c ≠ 'x' ∧ c ≠ 'X' := by
      rintro c t rfl
      exact (all c (h c (List.mem_cons_of_mem _ List.mem_cons_self))).2.2
    unfold dropHexMark
    split
    · exact absurd rfl (hx _ _ rfl).1
    · exact absurd rfl (hx _ _ rfl).2
    · exact absurd rfl (hx _ _ rfl).1
    · exact absurd rfl (hx _ _ rfl).2
    · rfl
  simp only [intOfText, map_asciiChar h, strip_hex h, hsign, if_true, hmark,
    readDigits_hex h (.inl hne)]
  rfl

/-! ### The text of a UUID -/

/-- The 32 digits of a UUID. -/
def UUID.digits (u : UUID) : List Char :=
  let ds := Nat.toDigits 16 u.val
  List.replicate (32 - ds.length) '0' ++ ds

theorem UUID.digits_length (u : UUID) : u.digits.length = 32 := by
  have h := Nat.toDigits_length 16 u.val 32 (by decide) u.val.isLt
  simp only [digits, List.length_append, List.length_replicate]
  omega

theorem UUID.digits_hex (u : UUID) : ∀ c ∈ u.digits, c ∈ hexDigits := by
  intro c hc
  rcases List.mem_append.mp hc with hc | hc
  · rw [List.eq_of_mem_replicate hc]
    decide
  · exact mem_toDigits _ c hc

theorem UUID.hexValue_digits (u : UUID) : hexValue 0 u.digits = u.val := by
  have h := hexValue_toDigits u.val
  have hz := hexValue_zeros (32 - (Nat.toDigits 16 u.val).length)
  rw [hexValue] at hz
  rw [digits, hexValue, List.foldl_append, hz]
  exact h

theorem UUID.mem_text {u : UUID} : ∀ c ∈ u.text, c ∈ hexDigits ∨ c = '-' := by
  have h := u.digits_hex
  intro c hc
  simp only [text, List.mem_append, List.mem_cons] at hc
  have hd : ∀ {n}, c ∈ u.digits.drop n → c ∈ hexDigits := fun hc => h c (List.mem_of_mem_drop hc)
  rcases hc with (((hc | rfl | hc) | rfl | hc) | rfl | hc) | rfl | hc
  · exact .inl (h c (List.mem_of_mem_take hc))
  · exact .inr rfl
  · exact .inl (hd (List.mem_of_mem_take hc))
  · exact .inr rfl
  · exact .inl (hd (List.mem_of_mem_take hc))
  · exact .inr rfl
  · exact .inl (hd (List.mem_of_mem_take hc))
  · exact .inr rfl
  · exact .inl (hd hc)

theorem UUID.filter_text (u : UUID) : u.text.filter (· ≠ '-') = u.digits := by
  have all : ∀ c ∈ hexDigits, c ≠ '-' := List.all_iff_forall_prop.mp (by decide)
  have hkeep : ∀ n m, ((u.digits.drop n).take m).filter (· ≠ '-') = (u.digits.drop n).take m := by
    intro n m
    refine List.filter_eq_self.mpr fun c hc => ?_
    simpa using all c (u.digits_hex c (List.mem_of_mem_drop (List.mem_of_mem_take hc)))
  have hlast : (u.digits.drop 20).filter (· ≠ '-') = u.digits.drop 20 :=
    List.filter_eq_self.mpr fun c hc => by
      simpa using all c (u.digits_hex c (List.mem_of_mem_drop hc))
  calc u.text.filter (· ≠ '-')
      = (u.digits.drop 0).take 8 ++ ((u.digits.drop 8).take 4 ++ ((u.digits.drop 12).take 4 ++
          ((u.digits.drop 16).take 4 ++ u.digits.drop 20))) := by
        have h0 := hkeep 0 8
        have h8 := hkeep 8 4
        have h12 := hkeep 12 4
        have h16 := hkeep 16 4
        simp only [digits, List.drop_zero] at h0 h8 h12 h16 hlast
        simp only [text, digits, List.filter_append, List.filter_cons, h0, h8, h12, h16, hlast,
          List.drop_zero, List.append_assoc, ne_eq, not_true_eq_false, decide_false,
          Bool.false_eq_true, if_false]
    _ = u.digits := by
        have hsplit : ∀ n m, (u.digits.drop n).take m ++ u.digits.drop (n + m) = u.digits.drop n :=
          fun n m => by rw [← List.drop_drop, List.take_append_drop]
        rw [hsplit 16 4, hsplit 12 4, hsplit 8 4, hsplit 0 8, List.drop_zero]

/-- `UUID(str(u)) == u`. -/
theorem UUID.ofText_text (u : UUID) : UUID.ofText u.text = some u := by
  have hplain : ∀ c ∈ u.text, c ≠ 'u' ∧ c ≠ '\x7b' ∧ c ≠ '\x7d' := by
    have all : ∀ c ∈ hexDigits, c ≠ 'u' ∧ c ≠ '\x7b' ∧ c ≠ '\x7d' := List.all_iff_forall_prop.mp (by decide)
    intro c hc
    rcases u.mem_text c hc with hc | rfl
    · exact all c hc
    · decide
  have hurn : ∀ cs : List Char, (∀ c ∈ cs, c ≠ 'u') → dropUrn cs = cs := by
    intro cs hcs
    induction cs with
    | nil => rfl
    | cons c cs ih =>
      have hc := hcs c List.mem_cons_self
      rw [dropUrn, ih fun d hd => hcs d (List.mem_cons_of_mem c hd)]
      rintro _ rfl
      exact absurd rfl hc
  have huuid : ∀ cs : List Char, (∀ c ∈ cs, c ≠ 'u') → dropUuid cs = cs := by
    intro cs hcs
    induction cs with
    | nil => rfl
    | cons c cs ih =>
      have hc := hcs c List.mem_cons_self
      rw [dropUuid, ih fun d hd => hcs d (List.mem_cons_of_mem c hd)]
      rintro _ rfl
      exact absurd rfl hc
  have hbraces : stripBraces u.text = u.text := by
    have hb : ∀ c ∈ u.text, (c = '\x7b' || c = '\x7d') = false := fun c hc => by
      simp [(hplain c hc).2.1, (hplain c hc).2.2]
    have hrev : ∀ c ∈ u.text.reverse, (c = '\x7b' || c = '\x7d') = false := fun c hc =>
      hb c (List.mem_reverse.mp hc)
    simp only [stripBraces]
    rw [dropWhile_none hb, dropWhile_none hrev, List.reverse_reverse]
  have hne : u.digits ≠ [] := by
    intro h
    have := u.digits_length
    rw [h] at this
    cases this
  have hhex : (stripBraces (dropUuid (dropUrn u.text))).filter (· ≠ '-') = u.digits := by
    rw [hurn _ fun c hc => (hplain c hc).1, huuid _ fun c hc => (hplain c hc).1, hbraces, filter_text]
  have hrange : 0 ≤ ((u.val : ℕ) : ℤ) ∧ ((u.val : ℕ) : ℤ) < 2 ^ 128 :=
    ⟨Int.natCast_nonneg _, by exact_mod_cast u.val.isLt⟩
  unfold ofText
  rw [hhex]
  dsimp only
  rw [if_pos u.digits_length, intOfText_hex u.digits_hex hne, hexValue_digits, Option.bind_some,
    dif_pos hrange]
  exact congrArg (fun v => some (UUID.mk v)) (Fin.ext (Int.toNat_natCast _))

theorem UUID.toUUID_str (u : UUID) : (Val.str u.str).toUUID = .ok u := by
  simp only [Val.toUUID, UUID.str, String.toList_ofList, ofText_text]

theorem UUID.length_text (u : UUID) : u.text.length = 36 := by
  have h := u.digits_length
  rw [digits] at h
  simp only [text, List.length_append, List.length_cons, List.length_take, List.length_drop, h]
  rfl

theorem UUID.str_injective : Function.Injective UUID.str := by
  intro u v h
  have hu := u.toUUID_str
  rw [h, v.toUUID_str] at hu
  exact (Except.ok.inj hu).symm

/-! ### Digits that are the text of a UUID -/

theorem hexValue_concat (cs : List Char) (c : Char) : hexValue 0 (cs ++ [c]) = hexValue 0 cs * 16 + digitVal c := by
  rw [hexValue, List.foldl_append]
  rfl

theorem digitVal_inj : ∀ c ∈ hexDigits, ∀ d ∈ hexDigits, digitVal c = digitVal d → c = d := by
  have all : ∀ p ∈ hexDigits ×ˢ hexDigits, digitVal p.1 = digitVal p.2 → p.1 = p.2 :=
    List.all_iff_forall_prop.mp (by decide +kernel)
  exact fun c hc d hd => all (c, d) (List.mem_product.mpr ⟨hc, hd⟩)

theorem digitVal_lt : ∀ c ∈ hexDigits, digitVal c < 16 := List.all_iff_forall_prop.mp (by decide)

/-- As many digits spell another number if they are others. -/
theorem hexValue_inj {cs : List Char} (hcs : ∀ c ∈ cs, c ∈ hexDigits) : ∀ {ds : List Char}, (∀ d ∈ ds, d ∈ hexDigits) →
    cs.length = ds.length → hexValue 0 cs = hexValue 0 ds → cs = ds := by
  induction cs using List.reverseRecOn with
  | nil =>
    intro ds _ hlength _
    exact (List.length_eq_zero_iff.mp hlength.symm).symm
  | append_singleton cs c ih =>
    intro ds hds hlength hvalue
    cases ds using List.reverseRecOn with
    | nil => simp at hlength
    | append_singleton ds d =>
      obtain ⟨hcs, hc⟩ := List.forall_mem_append.mp hcs
      obtain ⟨hds, hd⟩ := List.forall_mem_append.mp hds
      have hc := hc c List.mem_cons_self
      have hd := hd d List.mem_cons_self
      have hclt := digitVal_lt c hc
      have hdlt := digitVal_lt d hd
      rw [hexValue_concat, hexValue_concat] at hvalue
      have hlength : cs.length = ds.length := by simpa using hlength
      rw [ih hcs hds hlength (by omega), digitVal_inj c hc d hd (by omega)]

theorem hexValue_lt {cs : List Char} (hcs : ∀ c ∈ cs, c ∈ hexDigits) : hexValue 0 cs < 16 ^ cs.length := by
  induction cs using List.reverseRecOn with
  | nil => exact Nat.one_pos
  | append_singleton cs c ih =>
    obtain ⟨hcs, hc⟩ := List.forall_mem_append.mp hcs
    have ih := ih hcs
    have hlt := digitVal_lt c (hc c List.mem_cons_self)
    rw [hexValue_concat, List.length_append, List.length_singleton, Nat.pow_succ]
    omega

/-- 32 digits are those of a UUID. -/
theorem UUID.exists_digits {cs : List Char} (hlength : cs.length = 32) (hcs : ∀ c ∈ cs, c ∈ hexDigits) :
    ∃ u : UUID, u.digits = cs := by
  have hlt := hexValue_lt hcs
  rw [hlength] at hlt
  refine ⟨⟨⟨hexValue 0 cs, hlt⟩⟩, ?_⟩
  refine hexValue_inj (UUID.digits_hex _) hcs ?_ (UUID.hexValue_digits _)
  rw [UUID.digits_length, hlength]

/-- Digits in groups of 8, 4, 4, 4 and 12 are the text of a UUID. -/
theorem UUID.exists_text {a b c d e : List Char} (ha : a.length = 8) (hb : b.length = 4) (hc : c.length = 4)
    (hd : d.length = 4) (he : e.length = 12) (hhex : ∀ x ∈ a ++ (b ++ (c ++ (d ++ e))), x ∈ hexDigits) :
    ∃ u : UUID, u.text = a ++ ('-' :: (b ++ ('-' :: (c ++ ('-' :: (d ++ '-' :: e)))))) := by
  obtain ⟨u, hu⟩ := UUID.exists_digits (by simp [ha, hb, hc, hd, he]) hhex
  refine ⟨u, ?_⟩
  rw [UUID.digits] at hu
  have hdrop : ∀ {x y : List Char} {n : ℕ} m, x.length = n → (x ++ y).drop (n + m) = y.drop m := by
    rintro x y n m rfl
    rw [← List.drop_drop, List.drop_left]
  have htake : ∀ {x y : List Char} {n : ℕ}, x.length = n → (x ++ y).take n = x := by
    rintro x y n rfl
    rw [List.take_left]
  rw [UUID.text]
  simp only [hu]
  rw [htake ha, hdrop 0 ha, hdrop 4 ha, hdrop 8 ha, hdrop 12 ha, hdrop 0 hb, hdrop 4 hb, hdrop 8 hb, hdrop 0 hc,
    hdrop 4 hc, hdrop 0 hd]
  simp only [List.drop_zero]
  rw [htake hb, htake hc, htake hd]
  simp

end Py
