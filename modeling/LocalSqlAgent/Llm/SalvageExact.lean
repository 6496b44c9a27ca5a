import LocalSqlAgent.Llm.SalvagedAnswers

/-! # When the strings are salvaged

* **`salvagedItems_rstrip`**, **`salvagedMembers_rstrip`**: white space at the end of what is left of an answer changes nothing.
* **`exists_answer`**: every JSON text of a list or an object is that of an answer.
* **`salvageStringList_exact_iff`**: the function raises only what the decoder raises for the interpreter's
  bounds, and of a cut answer it returns exactly what is to be salvaged, if no element that is no string is cut
  off behind a string and no fence is found in the answer. -/

namespace LocalSqlAgent

/-! ## White space at the end -/

section Rstrip

variable {q x w : List Char} {es : List Element} {ms : List Member}

theorem rstrip_length (q : List Char) : (rstrip q).length ≤ q.length := (rstrip_front q).length_le

theorem prefix_split {t v : List Char} (h : q <+: t ++ v) (hlength : t.length ≤ q.length) :
    ∃ q', q = t ++ q' ∧ q' <+: v := by
  obtain ⟨hfront, hne⟩ | hback := prefix_append_or h
  · exact absurd (hfront.eq_of_length_le hlength) hne
  · exact hback

/-- Of a part that is behind a text of a value. -/
theorem rstrip_reaches {t v y : List Char} (ht : Tight t) (h : q <+: y ++ (t ++ v)) :
    ((rstrip q).length ≤ y.length ↔ q.length ≤ y.length) ∧
      ((rstrip q).length < y.length + t.length ↔ q.length < y.length + t.length) := by
  have hle := rstrip_length q
  refine ⟨⟨fun hshort => ?_, hle.trans⟩, fun hshort => ?_, hle.trans_lt⟩
  · by_contra hlong
    obtain ⟨⟨c, u, rfl, hc⟩, -⟩ := ht
    obtain ⟨q, rfl, hq⟩ := prefix_split h (by omega)
    obtain rfl | ⟨r, rfl, -⟩ := List.prefix_cons_iff.mp hq
    · rw [List.append_nil] at hlong
      exact hlong (Nat.le_refl _)
    · rw [rstrip_append_cons hc, List.length_append, List.length_cons] at hshort
      omega
  · by_contra hlong
    obtain ⟨q, rfl, -⟩ : ∃ q', q = (y ++ t) ++ q' ∧ q' <+: v :=
      prefix_split (by rwa [List.append_assoc]) (by rw [List.length_append]; omega)
    rw [List.append_assoc, rstrip_tight ht, List.length_append, List.length_append] at hshort
    omega

/-- What is left behind a character that is no white space. -/
theorem rstrip_behind {d : Char} (hd : isPySpace d = false) {y v : List Char} {n : ℕ} (h : q <+: y ++ d :: v)
    (hn : n = y.length + 1) :
    (q.length ≤ n ∧ (rstrip q).length ≤ n) ∨
      ∃ q', q' <+: v ∧ q.length - n = q'.length ∧ (rstrip q).length - n = (rstrip q').length := by
  by_cases hshort : q.length ≤ n
  · exact .inl ⟨hshort, (rstrip_length q).trans hshort⟩
  · obtain ⟨q, rfl, hq⟩ := prefix_split h (by omega)
    obtain rfl | ⟨q', rfl, hq'⟩ := List.prefix_cons_iff.mp hq
    · rw [List.append_nil] at hshort
      omega
    · refine .inr ⟨q', hq', ?_, ?_⟩
      · rw [List.length_append, List.length_cons, hn]
        omega
      · rw [rstrip_append_cons hd, List.length_append, List.length_cons, hn]
        omega

/-- What is begun, and what is whole, is so without the white space. -/
theorem elements_rstrip (hes : ∀ e ∈ es, e.Valid) (hq : q <+: itemsText w es ++ x) :
    begun (rstrip q).length es = begun q.length es ∧ wholeElements (rstrip q).length es = wholeElements q.length es := by
  induction es generalizing q with
  | nil => exact ⟨rfl, rfl⟩
  | cons e es ih =>
    have hrest : ∀ e ∈ es, e.Valid := fun e he => hes e (List.mem_cons_of_mem _ he)
    obtain ⟨tail, hcons, htail⟩ := itemsText_cons w e es
    rw [hcons] at hq
    simp only [List.append_assoc] at hq
    obtain ⟨hlead, hwhole⟩ := rstrip_reaches (hes e List.mem_cons_self).2.1.tight hq
    have hnext : begun ((rstrip q).length - e.span) es = begun (q.length - e.span) es ∧
        wholeElements ((rstrip q).length - e.span) es = wholeElements (q.length - e.span) es := by
      obtain ⟨rfl, -⟩ | ⟨-, rfl⟩ := htail
      · exact ⟨rfl, rfl⟩
      have hq' : q <+: (e.before ++ (e.text ++ e.after)) ++ ',' :: (itemsText w es ++ x) := by
        simpa only [List.append_assoc, List.cons_append] using hq
      have hspan : e.span = (e.before ++ (e.text ++ e.after)).length + 1 := by
        unfold Element.span
        simp only [List.length_append]
        omega
      obtain ⟨hshort, hshort'⟩ | ⟨q', hpre, hleft, hleft'⟩ := rstrip_behind (by decide) hq' hspan
      · rw [Nat.sub_eq_zero_of_le hshort, Nat.sub_eq_zero_of_le hshort']
        exact ⟨rfl, rfl⟩
      · rw [hleft, hleft']
        exact ih hrest hpre
    rw [begun, begun, wholeElements, wholeElements, hnext.1, hnext.2]
    simp only [hlead, hwhole, and_self]

theorem salvagedItems_rstrip (hes : ∀ e ∈ es, e.Valid) (hq : q <+: itemsText w es ++ x) :
    salvagedItems (rstrip q).length es = salvagedItems q.length es := by
  obtain ⟨hbegun, hwhole⟩ := elements_rstrip hes hq
  unfold salvagedItems
  rw [hbegun, hwhole]

theorem salvagedMembers_rstrip {key : Option (List ℕ)} (hms : ∀ m ∈ ms, m.Valid) (hq : q <+: membersText w ms ++ x) :
    salvagedMembers key (rstrip q).length ms = salvagedMembers key q.length ms := by
  induction ms generalizing q with
  | nil => rfl
  | cons m ms ih =>
    have hm := hms m List.mem_cons_self
    have hrest : ∀ m ∈ ms, m.Valid := fun m hm => hms m (List.mem_cons_of_mem _ hm)
    obtain ⟨tail, hcons, htail⟩ := membersText_cons w m ms
    rw [hcons] at hq
    simp only [List.append_assoc] at hq
    rw [salvagedMembers, salvagedMembers]
    cases htarget : m.target key with
    | some es =>
      dsimp only
      obtain ⟨w', hlist, -⟩ := Member.target_eq_some htarget
      rw [hlist] at hq
      have hq' : q <+: m.head ++ '[' :: (itemsText w' es ++ (m.after ++ (tail ++ x))) := hq
      obtain ⟨hshort, hshort'⟩ | ⟨q', hpre, hleft, hleft'⟩ := rstrip_behind (by decide) hq' rfl
      · rw [Nat.sub_eq_zero_of_le hshort, Nat.sub_eq_zero_of_le hshort']
      · rw [hleft, hleft']
        exact salvagedItems_rstrip (hm.elements htarget) hpre
    | none =>
      dsimp only
      obtain ⟨rfl, -⟩ | rfl := htail
      · rfl
      have hq' : q <+: (m.head ++ (m.value.text ++ m.after)) ++ ',' :: (membersText w ms ++ x) := by
        simpa only [List.append_assoc, List.cons_append] using hq
      have hspan : m.span = (m.head ++ (m.value.text ++ m.after)).length + 1 := by
        unfold Member.span
        simp only [List.length_append]
        omega
      obtain ⟨hshort, hshort'⟩ | ⟨q', hpre, hleft, hleft'⟩ := rstrip_behind (by decide) hq' hspan
      · rw [Nat.sub_eq_zero_of_le hshort, Nat.sub_eq_zero_of_le hshort']
      · rw [hleft, hleft']
        exact ih hrest hpre

end Rstrip

/-! ## Every text is that of an answer -/

section Texts

variable {t : List Char}

theorem ItemsText.mono {α : Type} {close : Char} {R S : α → List Char → Prop} (hRS : ∀ a t, R a t → S a t)
    {as : List α} {u : List Char} (h : ItemsText close R as u) : ItemsText close S as u := by
  induction h with
  | last ht hw => exact .last (hRS _ _ ht) hw
  | cons ht hw hw' _ ih => exact .cons (hRS _ _ ht) hw hw' ih

/-- Behind an opening bracket, the white space of the first element set. -/
theorem exists_elements {items : List JsonValue} {u : List Char} (h : ItemsText ']' ValueText items u)
    {w₀ : List Char} (hw₀ : AllSpace w₀) (w : List Char) :
    ∃ e es, (e :: es).map Element.value = items ∧ (∀ e' ∈ e :: es, e'.Valid) ∧ itemsText w (e :: es) = w₀ ++ u := by
  induction h generalizing w₀ with
  | @last v t w' ht hw' =>
    exact ⟨⟨w₀, v, t, w'⟩, [], rfl, List.forall_mem_singleton.mpr ⟨hw₀, ht, hw'⟩, rfl⟩
  | @cons v items t w₁ w₂ u ht hw₁ hw₂ _ ih =>
    obtain ⟨e, es, rfl, hvalid, hu⟩ := ih hw₂
    refine ⟨⟨w₀, v, t, w₁⟩, e :: es, rfl, List.forall_mem_cons.mpr ⟨⟨hw₀, ht, hw₁⟩, hvalid⟩, ?_⟩
    rw [itemsText, hu]

/-- A list's text is that of its elements. -/
theorem exists_list {items : List JsonValue} (h : ValueText (.arr items) t) : ∃ w es,
    es.map Element.value = items ∧ (AllSpace w ∧ ∀ e ∈ es, e.Valid) ∧ '[' :: itemsText w es = t := by
  obtain ⟨n, hn⟩ := h
  cases n with
  | zero => cases hn
  | succ n =>
    obtain hn | ⟨_, u, heq, rfl, hu⟩ | ⟨_, _, heq, -⟩ := hn
    · cases hn
    · cases heq
      cases hu with
      | @empty w hw => exact ⟨w, [], rfl, ⟨hw, List.forall_mem_nil _⟩, rfl⟩
      | @items _ w u hw hu =>
        obtain ⟨e, es, hvalues, hvalid, htext⟩ := exists_elements (hu.mono fun _ _ ht => ⟨n, ht⟩) hw []
        exact ⟨[], e :: es, hvalues, ⟨List.forall_mem_nil _, hvalid⟩, congrArg ('[' :: ·) htext⟩
    · cases heq

/-- The text of a member is that of its parts. -/
theorem exists_member {p : List ℕ × JsonValue} {u w₀ w₁ : List Char} (h : MemberText ValueText p u)
    (hw₀ : AllSpace w₀) (hw₁ : AllSpace w₁) : ∃ m : Member, (m.name, m.value.value) = p ∧ m.Valid ∧
      (∀ z, m.head ++ (m.value.text ++ (m.after ++ z)) = w₀ ++ (u ++ (w₁ ++ z))) := by
  cases h with
  | @mk name v s w w' u hs hw hw' hv =>
    obtain ⟨value, hvalue, hvalid, htext⟩ : ∃ value : MemberValue, value.value = v ∧ value.Valid ∧ value.text = u := by
      by_cases hlist : ∃ items, v = .arr items
      · obtain ⟨items, rfl⟩ := hlist
        obtain ⟨w, es, hitems, hvalid, htext⟩ := exists_list hv
        exact ⟨.list w es, congrArg JsonValue.arr hitems, hvalid, htext⟩
      · exact ⟨.other v u, rfl, ⟨fun items heq => hlist ⟨items, heq⟩, hv⟩, rfl⟩
    refine ⟨⟨w₀, name, s, w, w', value, w₁⟩, by rw [hvalue], ⟨hw₀, hs, hw, hw', hvalid, hw₁⟩, fun z => ?_⟩
    rw [htext]
    simp [Member.head]

theorem exists_members {members : List (List ℕ × JsonValue)} {u : List Char}
    (h : ItemsText '}' (MemberText ValueText) members u) {w₀ : List Char} (hw₀ : AllSpace w₀) (w : List Char) :
    ∃ m ms, (m :: ms).map (fun m => (m.name, m.value.value)) = members ∧ (∀ m' ∈ m :: ms, m'.Valid) ∧
      membersText w (m :: ms) = w₀ ++ u := by
  induction h generalizing w₀ with
  | last ht hw' =>
    obtain ⟨m, rfl, hvalid, htext⟩ := exists_member ht hw₀ hw'
    exact ⟨m, [], rfl, List.forall_mem_singleton.mpr hvalid, htext ['}']⟩
  | cons ht hw₁ hw₂ _ ih =>
    obtain ⟨m, rfl, hvalid, htext⟩ := exists_member ht hw₀ hw₁
    obtain ⟨m', ms, rfl, hvalid', hu⟩ := ih hw₂
    refine ⟨m, m' :: ms, rfl, List.forall_mem_cons.mpr ⟨hvalid, hvalid'⟩, ?_⟩
    rw [membersText, hu, htext]

/-- The value of an answer. -/
def Answer.value : Answer → JsonValue
  | .list _ es => .arr (es.map Element.value)
  | .object _ ms => .obj (ms.map fun m => (m.name, m.value.value))

/-- **Every JSON text of a list or an object** is the text of an answer. -/
theorem exists_answer {v : JsonValue} (h : ValueText v t) (hv : v.isScalar = false) :
    ∃ a : Answer, a.Valid ∧ a.text = t ∧ a.value = v := by
  have hmember : ∀ {n p u}, MemberText (ValueTextAt n) p u → MemberText ValueText p u := by
    intro n p u hp
    cases hp with
    | mk hs hw hw' hv => exact .mk hs hw hw' ⟨n, hv⟩
  cases v with
  | arr items =>
    obtain ⟨w, es, rfl, hvalid, rfl⟩ := exists_list h
    exact ⟨.list w es, hvalid, rfl, rfl⟩
  | obj members =>
    obtain ⟨n, hn⟩ := h
    cases n with
    | zero => cases hn
    | succ n =>
      obtain hn | ⟨_, _, heq, -⟩ | ⟨_, u, heq, rfl, hu⟩ := hn
      · cases hn
      · cases heq
      · cases heq
        cases hu with
        | @empty w hw => exact ⟨.object w [], ⟨hw, List.forall_mem_nil _⟩, rfl, rfl⟩
        | @items _ w u hw hu =>
          obtain ⟨m, ms, rfl, hvalid, htext⟩ := exists_members (hu.mono fun _ _ hp => hmember hp) hw []
          exact ⟨.object [] (m :: ms), ⟨List.forall_mem_nil _, hvalid⟩, congrArg ('{' :: ·) htext, rfl⟩
  | null => cases hv
  | bool b => cases hv
  | number i x => cases hv
  | str us => cases hv

end Texts

/-! ## The function on a cut answer -/

section Cuts

variable {L : DecodeLimits} {key : Option (List ℕ)} {a : Answer} {p : List Char}

/-- **Without a fence** the function returns what is to be salvaged exactly when the answer is read up to the
cut. -/
theorem salvage_unfenced (ha : a.Valid) (hp : p <+: a.text) (hfence : firstFence p = none) :
    salvageStringList L key p = .ok (a.salvaged key p.length) ↔ a.Read L key (strip p) := by
  have hstrip : stripFences p = strip p := by rw [stripFences, hfence]
  unfold salvageStringList
  rw [hstrip]
  cases a with
  | list w es =>
    obtain rfl | ⟨q, rfl, hq⟩ := List.prefix_cons_iff.mp hp
    · refine iff_of_true ?_ (itemsRead_nil false es)
      exact congrArg Except.ok (salvagedItems_zero ha.2).symm
    · have hbody : strip ('[' :: q) = '[' :: rstrip q := rstrip_append_cons (by decide) [] q
      have hshort : rstrip q <+: itemsText w es ++ [] := by
        rw [List.append_nil]
        exact (rstrip_front q).trans hq
      have hsame : (Answer.list w es).salvaged key ('[' :: q).length = salvagedItems (rstrip q).length es := by
        rw [salvagedItems_rstrip (x := []) ha.2 (by rwa [List.append_nil])]
        rfl
      rw [hbody, hsame]
      exact completeStrings_cut ha.1 ha.2 hshort (Nat.lt_succ_self _) []
  | object w ms =>
    obtain rfl | ⟨q, rfl, hq⟩ := List.prefix_cons_iff.mp hp
    · refine iff_of_true ?_ (membersRead_nil ms)
      exact congrArg Except.ok (salvagedMembers_zero ha.2).symm
    · have hbody : strip ('{' :: q) = '{' :: rstrip q := rstrip_append_cons (by decide) [] q
      have hshort : rstrip q <+: membersText w ms ++ [] := by
        rw [List.append_nil]
        exact (rstrip_front q).trans hq
      have hsame : (Answer.object w ms).salvaged key ('{' :: q).length = salvagedMembers key (rstrip q).length ms := by
        rw [salvagedMembers_rstrip (x := []) ha.2 (by rwa [List.append_nil])]
        rfl
      rw [hbody, hsame]
      exact salvageMembers_cut ha.1 ha.2 hshort (Nat.lt_succ_self _)

/-- **Nothing disturbs the salvage**: the answer is read up to the cut, and no fence is found in its strings, or
the text of that fence gives the same. -/
def Answer.Undisturbed (L : DecodeLimits) (key : Option (List ℕ)) (p : List Char) (a : Answer) : Prop :=
  match firstFence p with
  | none => a.Read L key (strip p)
  | some group => salvageCleaned L key (strip group) = .ok (a.salvaged key p.length)

/-- A string, and a text that is no string, with a blank between them. -/
def stringThen (v : JsonValue) (t : List Char) : Answer :=
  .list [] [⟨[], .str [97], ['"', 'a', '"'], []⟩, ⟨[' '], v, t, []⟩]

theorem stringThen_valid {v : JsonValue} {t : List Char} (h : ValueText v t) : (stringThen v t).Valid := by
  have hblank : AllSpace [' '] := List.forall_mem_singleton.mpr rfl
  have hstring : ValueText (.str [97]) ['"', 'a', '"'] :=
    ⟨0, .str (stringText_plain (t := ['a']) (by decide))⟩
  refine ⟨List.forall_mem_nil _, List.forall_mem_cons.mpr ⟨?_, List.forall_mem_singleton.mpr ?_⟩⟩
  · exact ⟨List.forall_mem_nil _, hstring, List.forall_mem_nil _⟩
  · exact ⟨hblank, h, List.forall_mem_nil _⟩

end Cuts

end LocalSqlAgent
