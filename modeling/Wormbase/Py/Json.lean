import Wormbase.Py.Value

/-! JSON texts as `json.dumps(…, separators=(",", ":"), ensure_ascii=False)` prints them.

    A text determines its tree (`render_injective`). The proof compares two texts from the left: a
    value is followed by `,`, `]`, `}` or the end, and no token runs past such a character. -/

namespace Py
open PyFloat (Plain)

/-- A token such as `null`, `-1.5` or `NaN`: no other kind of value starts like it. -/
structure Atom where
  text : List Char
  plain : Plain text
  opens : ∃ c rest, text = c :: rest ∧ c ≠ '"' ∧ c ≠ '[' ∧ c ≠ '{'

inductive Json where
  | atom (t : Atom)
  | str (s : String)
  | arr (xs : List Json)
  | obj (fields : List (String × Json))

/-! ### Strings -/

/-- One character between the quotes. Non-ASCII characters stand for themselves. -/
def escChar (c : Char) : List Char :=
  if c = '"' then ['\\', '"']
  else if c = '\\' then ['\\', '\\']
  else if c = '\n' then ['\\', 'n']
  else if c = '\r' then ['\\', 'r']
  else if c = '\t' then ['\\', 't']
  else if c = '\x0c' then ['\\', 'f']
  else if c = '\x08' then ['\\', 'b']
  else if c.toNat < 32 then
    ['\\', 'u', '0', '0', Nat.digitChar (c.toNat / 16), Nat.digitChar (c.toNat % 16)]
  else [c]

def quote (s : String) : List Char := '"' :: (s.toList.flatMap escChar ++ ['"'])

/-- Reads one escaped character back. -/
def readChar : List Char → Option (Char × List Char)
  | '\\' :: 'n' :: r => some ('\n', r)
  | '\\' :: 'r' :: r => some ('\r', r)
  | '\\' :: 't' :: r => some ('\t', r)
  | '\\' :: 'f' :: r => some ('\x0c', r)
  | '\\' :: 'b' :: r => some ('\x08', r)
  | '\\' :: 'u' :: _ :: _ :: a :: b :: r => some (Char.ofNat (16 * hexVal a + hexVal b), r)
  | '\\' :: c :: r => some (c, r)
  | '"' :: _ => none
  | c :: r => some (c, r)
  | [] => none
where
  hexVal (c : Char) : ℕ := (List.range 16).findIdx (Nat.digitChar · = c)

theorem readChar_escChar (c : Char) (r : List Char) : readChar (escChar c ++ r) = some (c, r) := by
  have hexVal_digit : ∀ d < 16, readChar.hexVal (Nat.digitChar d) = d := by decide
  unfold escChar
  split_ifs with h1 h2 h3 h4 h5 h6 h7 h8
  iterate 7 subst c; rfl
  · have hc : 16 * (c.toNat / 16) + c.toNat % 16 = c.toNat := Nat.div_add_mod ..
    have hhi := hexVal_digit (c.toNat / 16) (by omega)
    have hlo := hexVal_digit (c.toNat % 16) (by omega)
    simp only [List.cons_append, List.nil_append, readChar, hhi, hlo, hc, Char.ofNat_toNat]
  · simp [readChar, h2]

/-- Two texts that start with an escaped character agree on it and on what follows. -/
theorem escChar_inj {c d : Char} {r r' : List Char} (h : escChar c ++ r = escChar d ++ r') :
    c = d ∧ r = r' := by
  have hread := readChar_escChar c r
  rw [h, readChar_escChar] at hread
  simpa [eq_comm] using hread

theorem escChar_ne_quote (c : Char) {r r' : List Char} : escChar c ++ r ≠ '"' :: r' := by
  intro h
  have hread := readChar_escChar c r
  rw [h] at hread
  cases hread

/-- A quoted string ends at its closing quote, whatever comes next. -/
theorem escaped_inj : ∀ {s t : List Char} {r r' : List Char},
    s.flatMap escChar ++ '"' :: r = t.flatMap escChar ++ '"' :: r' → s = t ∧ r = r'
  | [], [], _, _, h => ⟨rfl, (List.cons.inj h).2⟩
  | [], d :: t, _, _, h => by
    rw [List.flatMap_cons, List.append_assoc] at h
    exact absurd h.symm (escChar_ne_quote d)
  | c :: s, [], _, _, h => by
    rw [List.flatMap_cons, List.append_assoc] at h
    exact absurd h (escChar_ne_quote c)
  | c :: s, d :: t, _, _, h => by
    rw [List.flatMap_cons, List.flatMap_cons, List.append_assoc, List.append_assoc] at h
    obtain ⟨rfl, hst⟩ := escChar_inj h
    obtain ⟨rfl, hr⟩ := escaped_inj hst
    exact ⟨rfl, hr⟩

theorem quote_inj {s t : String} {r r' : List Char} (h : quote s ++ r = quote t ++ r') :
    s = t ∧ r = r' := by
  simp only [quote, List.cons_append, List.append_assoc, List.nil_append] at h
  obtain ⟨hs, hr⟩ := escaped_inj (List.cons.inj h).2
  exact ⟨String.toList_injective hs, hr⟩

/-! ### Trees -/

mutual
def render : Json → List Char
  | .atom t => t.text
  | .str s => quote s
  | .arr [] => ['[', ']']
  | .arr (x :: xs) => '[' :: render x ++ renderItems xs
  | .obj [] => ['{', '}']
  | .obj ((k, x) :: fs) => '{' :: quote k ++ ':' :: render x ++ renderFields fs
/-- The items after the first one, and the bracket that closes them. -/
def renderItems : List Json → List Char
  | [] => [']']
  | x :: xs => ',' :: render x ++ renderItems xs
def renderFields : List (String × Json) → List Char
  | [] => ['}']
  | (k, x) :: fs => ',' :: quote k ++ ':' :: render x ++ renderFields fs
end

/-- What may stand after a value. -/
def Follow : List Char → Prop
  | [] => True
  | c :: _ => c = ',' ∨ c = ']' ∨ c = '}'

theorem follow_items : ∀ xs r, Follow (renderItems xs ++ r)
  | [], _ => by simp [renderItems, Follow]
  | _ :: _, _ => by simp [renderItems, Follow]

theorem follow_fields : ∀ fs r, Follow (renderFields fs ++ r)
  | [], _ => by simp [renderFields, Follow]
  | _ :: _, _ => by simp [renderFields, Follow]

/-- The first character of a text tells the kind of value. -/
theorem render_head (j : Json) : ∃ c rest, render j = c :: rest ∧ c ≠ ']' ∧
    (c = '"' ↔ ∃ s, j = .str s) ∧ (c = '[' ↔ ∃ xs, j = .arr xs) ∧
    (c = '{' ↔ ∃ fs, j = .obj fs) := by
  cases j with
  | atom t =>
    obtain ⟨c, rest, ht, h1, h2, h3⟩ := t.opens
    refine ⟨c, rest, ht, ?_, by simp [h1], by simp [h2], by simp [h3]⟩
    exact (t.plain c (by rw [ht]; exact List.mem_cons_self)).2.1
  | str s => exact ⟨'"', _, rfl, by simp, by simp, by simp, by simp⟩
  | arr xs => cases xs <;> exact ⟨'[', _, rfl, by simp, by simp, by simp, by simp⟩
  | obj fs =>
    rcases fs with _ | ⟨⟨k, x⟩, fs⟩ <;> exact ⟨'{', _, rfl, by simp, by simp, by simp, by simp⟩

/-- Texts that agree from the left start with values of one kind. -/
theorem same_kind {a b : Json} {r r' : List Char} (h : render a ++ r = render b ++ r') :
    ((∃ s, a = .str s) ↔ ∃ s, b = .str s) ∧ ((∃ xs, a = .arr xs) ↔ ∃ xs, b = .arr xs) ∧
    ((∃ fs, a = .obj fs) ↔ ∃ fs, b = .obj fs) := by
  obtain ⟨c, s, ha, -, h1, h2, h3⟩ := render_head a
  obtain ⟨d, t, hb, -, h1', h2', h3'⟩ := render_head b
  rw [ha, hb, List.cons_append, List.cons_append] at h
  obtain rfl := (List.cons.inj h).1
  exact ⟨h1.symm.trans h1', h2.symm.trans h2', h3.symm.trans h3'⟩

theorem plain_inj : ∀ {s t r r' : List Char}, Plain s → Plain t → Follow r → Follow r' →
    s ++ r = t ++ r' → s = t ∧ r = r'
  | [], [], _, _, _, _, _, _, h => ⟨rfl, h⟩
  | [], d :: t, _, _, _, ht, hr, _, h => by
    obtain ⟨h1, h2, h3⟩ := ht d List.mem_cons_self
    rw [List.nil_append, List.cons_append] at h
    rw [h] at hr
    exact absurd hr (by simp [Follow, h1, h2, h3])
  | c :: s, [], _, _, hs, _, _, hr, h => by
    obtain ⟨h1, h2, h3⟩ := hs c List.mem_cons_self
    rw [List.nil_append, List.cons_append] at h
    rw [← h] at hr
    exact absurd hr (by simp [Follow, h1, h2, h3])
  | c :: s, d :: t, _, _, hs, ht, hr, hr', h => by
    obtain ⟨rfl, htail⟩ := List.cons.inj h
    obtain ⟨rfl, hrest⟩ :=
      plain_inj (PyFloat.plain_cons.mp hs).2 (PyFloat.plain_cons.mp ht).2 hr hr' htail
    exact ⟨rfl, hrest⟩

mutual
theorem render_inj : ∀ {a b : Json} {r r' : List Char}, Follow r → Follow r' →
    render a ++ r = render b ++ r' → a = b ∧ r = r'
  | .atom t, b, _, _, hr, hr', h => by
    obtain ⟨h1, h2, h3⟩ := same_kind h
    cases b with
    | atom u =>
      obtain ⟨ht, hr⟩ := plain_inj t.plain u.plain hr hr' h
      obtain ⟨t, _, _⟩ := t
      obtain ⟨u, _, _⟩ := u
      subst ht
      exact ⟨rfl, hr⟩
    | str s => simp at h1
    | arr xs => simp at h2
    | obj fs => simp at h3
  | .str s, b, _, _, _, _, h => by
    obtain ⟨t, rfl⟩ := (same_kind h).1.mp ⟨s, rfl⟩
    obtain ⟨rfl, hr⟩ := quote_inj h
    exact ⟨rfl, hr⟩
  | .arr xs, b, r, r', _, _, h => by
    obtain ⟨ys, rfl⟩ := (same_kind h).2.1.mp ⟨xs, rfl⟩
    match xs, ys with
    | [], [] => exact ⟨rfl, by simpa [render] using h⟩
    | [], y :: ys =>
      obtain ⟨c, s, hc, hne, -⟩ := render_head y
      simp [render, hc, hne.symm] at h
    | x :: xs, [] =>
      obtain ⟨c, s, hc, hne, -⟩ := render_head x
      simp [render, hc, hne] at h
    | x :: xs, y :: ys =>
      simp only [render, List.cons_append, List.append_assoc, List.cons.injEq, true_and] at h
      obtain ⟨rfl, hxs⟩ := render_inj (follow_items xs r) (follow_items ys r') h
      obtain ⟨rfl, hr⟩ := renderItems_inj hxs
      exact ⟨rfl, hr⟩
  | .obj fs, b, r, r', _, _, h => by
    obtain ⟨gs, rfl⟩ := (same_kind h).2.2.mp ⟨fs, rfl⟩
    match fs, gs with
    | [], [] => exact ⟨rfl, by simpa [render] using h⟩
    | [], (_, _) :: _ => simp [render, quote] at h
    | (_, _) :: _, [] => simp [render, quote] at h
    | (k, x) :: fs, (l, y) :: gs =>
      simp only [render, List.cons_append, List.append_assoc, List.cons.injEq, true_and] at h
      obtain ⟨rfl, hx⟩ := quote_inj h
      obtain ⟨rfl, hfs⟩ :=
        render_inj (follow_fields fs r) (follow_fields gs r') (List.cons.inj hx).2
      obtain ⟨rfl, hr⟩ := renderFields_inj hfs
      exact ⟨rfl, hr⟩
theorem renderItems_inj : ∀ {xs ys : List Json} {r r' : List Char},
    renderItems xs ++ r = renderItems ys ++ r' → xs = ys ∧ r = r'
  | [], [], _, _, h => ⟨rfl, by simpa [renderItems] using h⟩
  | [], _ :: _, _, _, h => by simp [renderItems] at h
  | _ :: _, [], _, _, h => by simp [renderItems] at h
  | x :: xs, y :: ys, r, r', h => by
    simp only [renderItems, List.cons_append, List.append_assoc, List.cons.injEq, true_and] at h
    obtain ⟨rfl, hxs⟩ := render_inj (follow_items xs r) (follow_items ys r') h
    obtain ⟨rfl, hr⟩ := renderItems_inj hxs
    exact ⟨rfl, hr⟩
theorem renderFields_inj : ∀ {fs gs : List (String × Json)} {r r' : List Char},
    renderFields fs ++ r = renderFields gs ++ r' → fs = gs ∧ r = r'
  | [], [], _, _, h => ⟨rfl, by simpa [renderFields] using h⟩
  | [], (_, _) :: _, _, _, h => by simp [renderFields] at h
  | (_, _) :: _, [], _, _, h => by simp [renderFields] at h
  | (k, x) :: fs, (l, y) :: gs, r, r', h => by
    simp only [renderFields, List.cons_append, List.append_assoc, List.cons.injEq, true_and] at h
    obtain ⟨rfl, hx⟩ := quote_inj h
    obtain ⟨rfl, hfs⟩ :=
      render_inj (follow_fields fs r) (follow_fields gs r') (List.cons.inj hx).2
    obtain ⟨rfl, hr⟩ := renderFields_inj hfs
    exact ⟨rfl, hr⟩
end

/-- A JSON text determines its tree. -/
theorem render_injective {a b : Json} (h : render a = render b) : a = b :=
  (@render_inj a b [] [] trivial trivial (by rw [h])).1

end Py
