import LocalSqlAgent.Lib.PrefixCode

/-! # `json.dumps` of strings

The text `json.dumps` writes for a list of strings, with its default `ensure_ascii` and the separators
`,` and `:`: printable ASCII as it is, two-character escapes, and four hexadecimal digits for every
UTF-16 code unit of the rest. `jsonArray_prefixFree`: the text tells the list, whatever follows it. -/

namespace LocalSqlAgent

/-- `ESCAPE_DCT`: the characters with a two-character escape, and its second character. -/
def escapeDict : List (Char × Char) :=
  [('\\', '\\'), ('"', '"'), ('\x08', 'b'), ('\x0c', 'f'), ('\n', 'n'), ('\r', 'r'), ('\t', 't')]

/-- `'\\u{0:04x}'`. -/
def unitEscape (n : ℕ) : List Char :=
  ['\\', 'u', Nat.digitChar (n / 4096 % 16), Nat.digitChar (n / 256 % 16), Nat.digitChar (n / 16 % 16),
    Nat.digitChar (n % 16)]

/-- One character of a JSON string. -/
def escapeChar (c : Char) : List Char :=
  match escapeDict.lookup c with
  | some x => ['\\', x]
  | none =>
    if 32 ≤ c.toNat ∧ c.toNat ≤ 126 then [c]
    else if c.toNat < 65536 then unitEscape c.toNat
    else unitEscape (55296 + (c.toNat - 65536) / 1024) ++ unitEscape (56320 + (c.toNat - 65536) % 1024)

/-- A JSON string. -/
def jsonString (s : String) : List Char := '"' :: terminated escapeChar '"' s.toList

/-- A JSON array of strings. -/
def jsonArray (xs : List String) : List Char := '[' :: separated jsonString ',' ']' xs

/-! ## Reading a character back -/

theorem digitChar_inj {a b : ℕ} (ha : a < 16) (hb : b < 16) (h : Nat.digitChar a = Nat.digitChar b) : a = b := by
  have hall : ∀ a < 16, ∀ b < 16, Nat.digitChar a = Nat.digitChar b → a = b := by decide
  exact hall a ha b hb h

/-- Four hexadecimal digits tell a code unit. -/
theorem unitEscape_append_inj {m n : ℕ} {s t : List Char} (hm : m < 65536) (hn : n < 65536)
    (h : unitEscape m ++ s = unitEscape n ++ t) : m = n ∧ s = t := by
  unfold unitEscape at h
  simp only [List.cons_append, List.nil_append, List.cons.injEq, true_and] at h
  obtain ⟨h₁, h₂, h₃, h₄, hst⟩ := h
  have h₁ := digitChar_inj (by omega) (by omega) h₁
  have h₂ := digitChar_inj (by omega) (by omega) h₂
  have h₃ := digitChar_inj (by omega) (by omega) h₃
  have h₄ := digitChar_inj (by omega) (by omega) h₄
  exact ⟨by omega, hst⟩

/-- The second characters are distinct, and none is the one of a code unit. -/
theorem escapeDict_spec {c d x : Char} (hc : escapeDict.lookup c = some x) :
    x ≠ 'u' ∧ (escapeDict.lookup d = some x → c = d) := by
  have hmem : ∀ {c}, escapeDict.lookup c = some x → (c, x) ∈ escapeDict := fun h => by
    obtain ⟨l₁, l₂, heq, -⟩ := List.lookup_eq_some_iff.mp h
    rw [heq]
    exact List.mem_append_right _ List.mem_cons_self
  have hu : ∀ p ∈ escapeDict, p.2 ≠ 'u' := by decide
  have hinj : ∀ p ∈ escapeDict, ∀ q ∈ escapeDict, p.2 = q.2 → p.1 = q.1 := by decide
  exact ⟨hu _ (hmem hc), fun hd => hinj _ (hmem hc) _ (hmem hd) rfl⟩

/-- **The shapes of an escaped character.** -/
inductive Escaped (c : Char) : List Char → Prop
  /-- A printable character. -/
  | plain : c ≠ '\\' → c ≠ '"' → Escaped c [c]
  /-- A two-character escape. -/
  | short {x : Char} : escapeDict.lookup c = some x → Escaped c ['\\', x]
  /-- One code unit. -/
  | unit : c.toNat < 65536 → Escaped c (unitEscape c.toNat)
  /-- A surrogate pair. -/
  | pair : 65536 ≤ c.toNat → c.toNat < 1114112 →
      Escaped c (unitEscape (55296 + (c.toNat - 65536) / 1024) ++ unitEscape (56320 + (c.toNat - 65536) % 1024))

theorem escaped_escapeChar (c : Char) : Escaped c (escapeChar c) := by
  have hmax : c.toNat < 1114112 := by
    obtain h | ⟨-, h⟩ := c.valid
    · exact Nat.lt_trans h (by decide)
    · exact h
  unfold escapeChar
  split
  · exact .short ‹_›
  · rename_i hnone
    split
    · refine .plain ?_ ?_
      · rintro rfl
        exact absurd hnone (by decide)
      · rintro rfl
        exact absurd hnone (by decide)
    · split
      · exact .unit ‹_›
      · exact .pair (by omega) hmax

/-- A character is no surrogate. -/
theorem not_surrogate (c : Char) : c.toNat < 55296 ∨ 57343 < c.toNat := by
  obtain h | ⟨h, -⟩ := c.valid
  · exact .inl h
  · exact .inr h

theorem escapeChar_prefixFree : PrefixFree escapeChar := by
  intro c d s t heq
  have hc := escaped_escapeChar c
  have hd := escaped_escapeChar d
  generalize escapeChar c = ec at hc heq
  generalize escapeChar d = ed at hd heq
  cases hc with
  | plain hc₁ hc₂ =>
    cases hd with
    | plain hd₁ hd₂ =>
      obtain ⟨h₁, h₂⟩ := List.cons.inj heq
      exact ⟨h₁, h₂⟩
    | short hx => exact absurd (List.cons.inj heq).1 hc₁
    | unit hn => exact absurd (List.cons.inj heq).1 hc₁
    | pair hn => exact absurd (List.cons.inj heq).1 hc₁
  | short hx =>
    cases hd with
    | plain hd₁ hd₂ => exact absurd (List.cons.inj heq).1.symm hd₁
    | short hy =>
      obtain ⟨hxy, hst⟩ := List.cons.inj (List.cons.inj heq).2
      subst hxy
      exact ⟨(escapeDict_spec hx).2 hy, hst⟩
    | unit hn => exact absurd (List.cons.inj (List.cons.inj heq).2).1 (@escapeDict_spec c d _ hx).1
    | pair hn => exact absurd (List.cons.inj (List.cons.inj heq).2).1 (@escapeDict_spec c d _ hx).1
  | unit hn =>
    cases hd with
    | plain hd₁ hd₂ => exact absurd (List.cons.inj heq).1.symm hd₁
    | short hx => exact absurd (List.cons.inj (List.cons.inj heq).2).1.symm (@escapeDict_spec d c _ hx).1
    | unit hm =>
      obtain ⟨hcd, hst⟩ := unitEscape_append_inj hn hm heq
      exact ⟨Char.toNat_inj.mp hcd, hst⟩
    | pair hm hmax =>
      rw [List.append_assoc] at heq
      obtain ⟨hcd, -⟩ := unitEscape_append_inj hn (by omega) heq
      have := not_surrogate c
      omega
  | pair hn hmax =>
    cases hd with
    | plain hd₁ hd₂ => exact absurd (List.cons.inj heq).1.symm hd₁
    | short hx => exact absurd (List.cons.inj (List.cons.inj heq).2).1.symm (@escapeDict_spec d c _ hx).1
    | unit hm =>
      rw [List.append_assoc] at heq
      obtain ⟨hcd, -⟩ := unitEscape_append_inj (by omega) hm heq
      have := not_surrogate d
      omega
    | pair hm hmax' =>
      rw [List.append_assoc, List.append_assoc] at heq
      obtain ⟨hhigh, hrest⟩ := unitEscape_append_inj (by omega) (by omega) heq
      obtain ⟨hlow, hst⟩ := unitEscape_append_inj (by omega) (by omega) hrest
      exact ⟨Char.toNat_inj.mp (by omega), hst⟩

/-- No escaped character begins with a quotation mark. -/
theorem escapeChar_neverStarts : NeverStarts escapeChar '"' := by
  intro c s t heq
  have hc := escaped_escapeChar c
  generalize escapeChar c = ec at hc heq
  cases hc with
  | plain hc₁ hc₂ => exact hc₂ (List.cons.inj heq).1
  | _ => exact absurd (List.cons.inj heq).1 (by decide)

theorem jsonString_prefixFree : PrefixFree jsonString :=
  ((escapeChar_prefixFree.terminated escapeChar_neverStarts).opened '"').comp fun _ _ => String.toList_injective

/-- **The text of an array tells the array**, whatever follows it. -/
theorem jsonArray_prefixFree : PrefixFree jsonArray := by
  refine PrefixFree.opened (jsonString_prefixFree.separated (by decide) fun s u t heq => ?_) '['
  exact absurd (List.cons.inj heq).1 (by decide)

end LocalSqlAgent
