import LocalSqlAgent.Llm.StreamAssembler
import LocalSqlAgent.Llm.JsonAnswer

/-! # Streaming equals not streaming

A chat completion, the ways it is split into chunks and lines, and what comes out of them.

* **`Splits`**: the chunks add up to a completion, with any pieces of content and reasoning in any order.
* **`assembled`**, **`feed_saying`**, **`assembled_append`**: the assembler after any chunks, in closed form.
* **`body_assembled`**: the body of the chunks is the completion. -/

namespace LocalSqlAgent

/-! ## Chunks -/

/-- What the choice of a chunk says. -/
structure DeltaParts where
  role : Option (List ℕ)
  content : Option (List ℕ)
  reasoning : ReasoningField → Option (List ℕ)
  /-- `None` in all chunks but the last one with a choice. -/
  finishReason : JsonValue

/-- What a chunk says; a field is `None` where the chunk has none. -/
structure ChunkParts where
  id : JsonValue
  model : JsonValue
  created : JsonValue
  fingerprint : JsonValue
  usage : Option Usage
  /-- Nothing in a chunk without choices, such as one with the usage alone. -/
  delta : Option DeltaParts

/-- A text in a dictionary, or none there. -/
def SaysText (members : List (List ℕ × JsonValue)) (key : String) : Option (List ℕ) → Prop
  | some text => ∃ us, dictValue members key = .str us ∧ joinSurrogates us = text
  | none => dictValue members key = .null

/-- The choice of index 0, with its delta. -/
def SaysDelta (E : StreamEnv) (choice : List (List ℕ × JsonValue)) (d : DeltaParts) : Prop :=
  indexZero E (.obj choice) = some choice ∧ dictValue choice "finish_reason" = d.finishReason ∧
    ∃ delta, (dictValue choice "delta" = .obj delta ∨ (delta = [] ∧ dictValue choice "delta" = .null)) ∧
      SaysText delta "role" d.role ∧ SaysText delta "content" d.content ∧
      ∀ field : ReasoningField, SaysText delta field.name (d.reasoning field)

/-- **What a chunk object says**: it is no error, and has the choice of index 0 among any choices. -/
def ChunkSays (E : StreamEnv) (chunk : JsonValue) (p : ChunkParts) : Prop :=
  ∃ members, chunk = .obj members ∧ dictValue members "error" = .null ∧ dictValue members "id" = p.id ∧
    dictValue members "model" = p.model ∧ dictValue members "created" = p.created ∧
    dictValue members "system_fingerprint" = p.fingerprint ∧ usageOf (dictValue members "usage") = p.usage ∧
    match p.delta with
    | none => dictValue members "choices" = .null ∨
        ∃ items, dictValue members "choices" = .arr items ∧ items.findSome? (indexZero E) = none
    | some d => ∃ before choice after, dictValue members "choices" = .arr (before ++ .obj choice :: after) ∧
        (∀ other ∈ before, indexZero E other = none) ∧ SaysDelta E choice d

/-! ## Splitting a completion -/

/-- The text of some pieces, none without a piece. -/
def wholeText (pieces : List (List ℕ)) : Option (List ℕ) := if pieces = [] then none else some pieces.flatten

/-- A field that some chunks repeat, unless it is `None`. -/
def Repeats (x : JsonValue) (xs : List JsonValue) : Prop := (∀ y ∈ xs, y = .null ∨ y = x) ∧ (x = .null ∨ x ∈ xs)

/-- The deltas of some chunks. -/
def deltas (parts : List ChunkParts) : List DeltaParts := parts.filterMap (·.delta)

/-- **The chunks add up to a completion**: the content and each reasoning field in pieces, at least one for a text
and none for `None`; the other fields repeated, the last usage that of the completion. -/
structure Splits (c : ChatBody) (parts : List ChunkParts) : Prop where
  id : Repeats c.id (parts.map (·.id))
  model : Repeats c.model (parts.map (·.model))
  created : Repeats c.created (parts.map (·.created))
  fingerprint : Repeats c.fingerprint (parts.map (·.fingerprint))
  usage : (parts.filterMap (·.usage)).getLast? = c.usage
  role : (∀ r ∈ (deltas parts).filterMap (·.role), r = c.role) ∧
    ((deltas parts).filterMap (·.role) = [] → c.role = codePoints "assistant")
  content : wholeText ((deltas parts).filterMap (·.content)) = c.content
  reasoning : ∀ field, wholeText ((deltas parts).filterMap (·.reasoning field)) = c.reasoning field
  finishReason : Repeats c.finishReason ((deltas parts).map (·.finishReason))

/-- All reasoning fields. -/
def reasoningFields : List ReasoningField := [.reasoningContent, .reasoning, .thinking, .thought]

/-- The delta has a piece of content or reasoning that is not empty. -/
def DeltaParts.brings (d : DeltaParts) : Bool :=
  d.content.any (fun s => !s.isEmpty) || reasoningFields.any fun field => (d.reasoning field).any fun s => !s.isEmpty

/-- So has the chunk. -/
def ChunkParts.brings (p : ChunkParts) : Bool := p.delta.any DeltaParts.brings

/-! ## The assembler in closed form -/

section Assembled

variable {τ : Type} {E : StreamEnv}

/-- A field that is set again. -/
def keepLast (old new : JsonValue) : JsonValue :=
  match new with
  | .null => old
  | v => v

/-- **The assembler after some chunks.** -/
def assembled (xs : List (ChunkParts × τ)) : Assembler τ :=
  let parts := xs.map (·.1)
  let ds := deltas parts
  { id := (parts.map (·.id)).foldl keepFirst .null
    model := (parts.map (·.model)).foldl keepFirst .null
    created := (parts.map (·.created)).foldl keepFirst .null
    fingerprint := (parts.map (·.fingerprint)).foldl keepFirst .null
    role := (ds.filterMap (·.role)).getLast?.getD (codePoints "assistant")
    content := (ds.filterMap (·.content)).filter fun s => !s.isEmpty
    contentSeen := !(ds.filterMap (·.content)).isEmpty
    reasoning := fun field =>
      if ds.filterMap (·.reasoning field) = [] then none else some (ds.filterMap (·.reasoning field))
    finishReason := (ds.map (·.finishReason)).foldl keepLast .null
    finished := ds.any fun d => !d.finishReason.isNull
    usage := (parts.filterMap (·.usage)).getLast?
    firstChunkAt := xs.head?.map (·.2)
    firstTokenAt := (xs.find? fun x => x.1.brings).map (·.2) }

/-- The parts of a delta, as the assembler takes them. -/
def Assembler.takeDelta (S : Assembler τ) (d : DeltaParts) (t : τ) : Assembler τ :=
  { S with
    role := d.role.getD S.role
    contentSeen := S.contentSeen || d.content.isSome
    content := S.content ++ d.content.toList.filter fun s => !s.isEmpty
    reasoning := fun field => (d.reasoning field).elim (S.reasoning field) fun piece =>
      some ((S.reasoning field).getD [] ++ [piece])
    finishReason := keepLast S.finishReason d.finishReason
    finished := S.finished || !d.finishReason.isNull
    firstTokenAt := S.firstTokenAt.or (if d.brings then some t else none) }

theorem joinSurrogates_isEmpty (us : List ℕ) : (joinSurrogates us).isEmpty = us.isEmpty := by
  cases us with
  | nil => simp only [joinSurrogates]
  | cons u us =>
    cases us with
    | nil => simp only [joinSurrogates]
    | cons v us =>
      rw [joinSurrogates]
      split <;> simp only [List.isEmpty_cons]

section Texts

variable {members : List (List ℕ × JsonValue)} {key : String} {s : Option (List ℕ)}

theorem SaysText.string (h : SaysText members key s) : (dictValue members key).string? = s := by
  cases s with
  | none =>
    rw [show dictValue members key = .null from h]
    rfl
  | some text =>
    obtain ⟨us, hus, rfl⟩ := h
    rw [hus]
    rfl

theorem SaysText.truthy (h : SaysText members key s) :
    E.truthy (dictValue members key) = s.any fun s => !s.isEmpty := by
  cases s with
  | none =>
    rw [show dictValue members key = .null from h]
    rfl
  | some text =>
    obtain ⟨us, hus, rfl⟩ := h
    rw [hus, Option.any_some, joinSurrogates_isEmpty]
    rfl

theorem SaysText.isNull (h : SaysText members key s) : (dictValue members key).isNull = s.isNone := by
  cases s with
  | none =>
    rw [show dictValue members key = .null from h]
    rfl
  | some text =>
    obtain ⟨us, hus, -⟩ := h
    rw [hus]
    rfl

theorem SaysText.text (h : SaysText members key s) :
    (if E.truthy (dictValue members key) then [E.text (dictValue members key)] else []) =
      s.toList.filter fun s => !s.isEmpty := by
  rw [h.truthy]
  cases s with
  | none => rfl
  | some text =>
    obtain ⟨us, hus, rfl⟩ := h
    rw [hus, Option.any_some, Option.toList_some]
    show (if (!(joinSurrogates us).isEmpty) = true then [joinSurrogates us] else []) = _
    cases h : !(joinSurrogates us).isEmpty <;> simp [h]

end Texts

/-- **A delta** is taken as it says. -/
theorem feedDelta_says {S : Assembler τ} {choice : List (List ℕ × JsonValue)} {d : DeltaParts} (t : τ)
    (h : SaysDelta E choice d) : ∃ delta, deltaOf E choice = .ok delta ∧
      (S.feedDelta E delta t).feedFinish (dictValue choice "finish_reason") = S.takeDelta d t := by
  obtain ⟨-, hfinish, delta, hdelta, hrole, hcontent, hreasoning⟩ := h
  have hread : deltaOf E choice = .ok delta := by
    unfold deltaOf
    obtain hobj | ⟨rfl, hnull⟩ := hdelta
    · rw [hobj]
      cases delta with
      | nil => rfl
      | cons m ms => rfl
    · rw [hnull]
      rfl
  refine ⟨delta, hread, ?_⟩
  have hpiece : ∀ field, reasoningPiece delta field = d.reasoning field := fun field => (hreasoning field).string
  have hbrings : produced E delta = d.brings := by
    unfold produced DeltaParts.brings
    rw [hcontent.truthy]
    simp only [hpiece, reasoningFields]
  have hseen : (!(dictValue delta "content").isNull) = d.content.isSome := by
    rw [hcontent.isNull]
    cases d.content <;> rfl
  have hpieces : (if E.truthy (dictValue delta "content") then S.content ++ [E.text (dictValue delta "content")]
      else S.content) = S.content ++ d.content.toList.filter fun s => !s.isEmpty := by
    rw [← hcontent.text (E := E)]
    split
    · rfl
    · exact (List.append_nil _).symm
  have hdeltaParts : S.feedDelta E delta t =
      { S.takeDelta d t with finishReason := S.finishReason, finished := S.finished } := by
    unfold Assembler.feedDelta Assembler.takeDelta
    dsimp only
    rw [hrole.string, hseen, hpieces, hbrings]
    simp only [hpiece]
  rw [hdeltaParts, hfinish]
  cases hreason : d.finishReason <;>
  · unfold Assembler.feedFinish Assembler.takeDelta
    dsimp only
    rw [hreason]
    simp [keepLast, JsonValue.isNull]

/-- The fields of a chunk apart from its choices, as the assembler takes them. -/
def Assembler.takeHead (S : Assembler τ) (p : ChunkParts) (t : τ) : Assembler τ :=
  { S with
    firstChunkAt := S.firstChunkAt.or (some t)
    id := keepFirst S.id p.id
    model := keepFirst S.model p.model
    created := keepFirst S.created p.created
    fingerprint := keepFirst S.fingerprint p.fingerprint
    usage := p.usage.or S.usage }

/-- A chunk, as the assembler takes it. -/
def Assembler.takeChunk (S : Assembler τ) (p : ChunkParts) (t : τ) : Assembler τ :=
  p.delta.elim (S.takeHead p t) fun d => (S.takeHead p t).takeDelta d t

/-- **A chunk** is taken as it says. -/
theorem feed_saying {S : Assembler τ} {chunk : JsonValue} {p : ChunkParts} (t : τ) (h : ChunkSays E chunk p) :
    S.feed E chunk t = .ok (S.takeChunk p t) := by
  obtain ⟨members, rfl, herror, hid, hmodel, hcreated, hfingerprint, husage, hchoices⟩ := h
  have hhead : S.feedHead members t = S.takeHead p t := by
    unfold Assembler.feedHead Assembler.takeHead
    rw [hid, hmodel, hcreated, hfingerprint, husage]
  unfold Assembler.feed Assembler.takeChunk
  dsimp only
  rw [herror, hhead, if_neg (by exact Bool.false_ne_true)]
  cases hdelta : p.delta with
  | none =>
    rw [hdelta] at hchoices
    have hnone : firstChoice E (dictValue members "choices") = .ok none := by
      unfold firstChoice
      obtain hnull | ⟨items, hitems, hfind⟩ := hchoices
      · rw [hnull]
        rfl
      · rw [hitems]
        dsimp only
        rw [hfind, ite_self]
    rw [hnone]
    rfl
  | some d =>
    rw [hdelta] at hchoices
    obtain ⟨before, choice, after, hitems, hbefore, hsaid⟩ := hchoices
    have hsome : firstChoice E (dictValue members "choices") = .ok (some choice) := by
      have htruthy : E.truthy (.arr (before ++ .obj choice :: after)) = true := by
        cases before <;> rfl
      have hfind : (before ++ .obj choice :: after).findSome? (indexZero E) = some choice := by
        rw [List.findSome?_append, List.findSome?_eq_none_iff.mpr hbefore, Option.none_or, List.findSome?_cons,
          hsaid.1]
      unfold firstChoice
      rw [hitems, if_pos htruthy]
      dsimp only
      rw [hfind]
    obtain ⟨delta, hread, htake⟩ := feedDelta_says (S := S.takeHead p t) t hsaid
    rw [hsome]
    dsimp only
    rw [hread]
    dsimp only
    rw [htake]
    rfl

theorem filterMap_snoc {α : Type} (f : DeltaParts → Option α) (ds : List DeltaParts) (d : DeltaParts) :
    (ds ++ [d]).filterMap f = ds.filterMap f ++ (f d).toList := by
  rw [List.filterMap_append]
  cases h : f d <;> simp [h]

/-- One chunk more. -/
theorem assembled_append (xs : List (ChunkParts × τ)) (p : ChunkParts) (t : τ) :
    (assembled xs).takeChunk p t = assembled (xs ++ [(p, t)]) := by
  have hmap : (xs ++ [(p, t)]).map (·.1) = xs.map (·.1) ++ [p] := List.map_append
  have hfield : ∀ f : ChunkParts → JsonValue, ((xs.map (·.1) ++ [p]).map f).foldl keepFirst .null =
      keepFirst (((xs.map (·.1)).map f).foldl keepFirst .null) (f p) := by
    intro f
    rw [List.map_append, List.foldl_append]
    rfl
  have husage : ((xs.map (·.1) ++ [p]).filterMap (·.usage)).getLast? =
      p.usage.or ((xs.map (·.1)).filterMap (·.usage)).getLast? := by
    rw [List.filterMap_append, List.getLast?_append]
    cases husage : p.usage with
    | none => simp [husage]
    | some u => simp [husage]
  have hfirst : (xs ++ [(p, t)]).head?.map (·.2) = (xs.head?.map (·.2)).or (some t) := by
    cases xs <;> rfl
  have htoken : ((xs ++ [(p, t)]).find? fun x => x.1.brings).map (·.2) =
      ((xs.find? fun x => x.1.brings).map (·.2)).or (if p.brings then some t else none) := by
    rw [List.find?_append, Option.map_or, List.find?_singleton]
    cases p.brings <;> rfl
  unfold assembled
  dsimp only
  rw [hmap, hfield, hfield, hfield, hfield, husage, hfirst, htoken]
  unfold Assembler.takeChunk Assembler.takeHead
  cases hdelta : p.delta with
  | none =>
    have hdeltas : deltas (xs.map (·.1) ++ [p]) = deltas (xs.map (·.1)) := by
      unfold deltas
      rw [List.filterMap_append]
      simp [hdelta]
    have hbrings : p.brings = false := by rw [ChunkParts.brings, hdelta]; rfl
    rw [hdeltas, hbrings]
    simp
  | some d =>
    have hdeltas : deltas (xs.map (·.1) ++ [p]) = deltas (xs.map (·.1)) ++ [d] := by
      unfold deltas
      rw [List.filterMap_append]
      simp [hdelta]
    have hbrings : p.brings = d.brings := by rw [ChunkParts.brings, hdelta]; rfl
    rw [hdeltas, hbrings, Option.elim_some]
    have hrole : d.role.getD (((deltas (xs.map (·.1))).filterMap (·.role)).getLast?.getD (codePoints "assistant")) =
        ((deltas (xs.map (·.1)) ++ [d]).filterMap (·.role)).getLast?.getD (codePoints "assistant") := by
      rw [filterMap_snoc, List.getLast?_append]
      cases d.role <;> rfl
    have hseen : (!((deltas (xs.map (·.1))).filterMap (·.content)).isEmpty || d.content.isSome) =
        !((deltas (xs.map (·.1)) ++ [d]).filterMap (·.content)).isEmpty := by
      rw [filterMap_snoc]
      cases (deltas (xs.map (·.1))).filterMap (·.content) <;> cases d.content <;> rfl
    have hreasoning : ∀ field, ((d.reasoning field).elim
        (if (deltas (xs.map (·.1))).filterMap (·.reasoning field) = [] then none
          else some ((deltas (xs.map (·.1))).filterMap (·.reasoning field)))
        fun piece => some ((if (deltas (xs.map (·.1))).filterMap (·.reasoning field) = [] then none
          else some ((deltas (xs.map (·.1))).filterMap (·.reasoning field))).getD [] ++ [piece])) =
        if (deltas (xs.map (·.1)) ++ [d]).filterMap (·.reasoning field) = [] then none
          else some ((deltas (xs.map (·.1)) ++ [d]).filterMap (·.reasoning field)) := by
      intro field
      rw [filterMap_snoc]
      cases (deltas (xs.map (·.1))).filterMap (·.reasoning field) <;> cases d.reasoning field <;> simp
    unfold Assembler.takeDelta
    dsimp only
    rw [hrole, hseen, filterMap_snoc DeltaParts.content, List.filter_append, List.map_append, List.foldl_append,
      List.any_append, List.any_cons, List.any_nil, Bool.or_false]
    simp only [hreasoning]
    rfl

/-- A field that is either `None` or `x`, before a chunk and in it, is `None` behind it only if it was in both. -/
def Keeps (x : JsonValue) (f : JsonValue → JsonValue → JsonValue) : Prop :=
  ∀ old y, (old = .null ∨ old = x) → (y = .null ∨ y = x) → (f old y = .null ∧ old = .null ∧ y = .null) ∨ f old y = x

theorem keeps_keepFirst (x : JsonValue) : Keeps x keepFirst := by
  intro old y hold hy
  cases old with
  | null => exact hy.imp (fun h => ⟨h, rfl, h⟩) id
  | _ =>
    obtain hold | hold := hold
    · cases hold
    · exact .inr hold

theorem keeps_keepLast (x : JsonValue) : Keeps x keepLast := by
  intro old y hold hy
  cases y with
  | null => exact hold.imp (fun h => ⟨h, h, rfl⟩) id
  | _ =>
    obtain hy | hy := hy
    · cases hy
    · exact .inr hy

theorem Keeps.foldl {x : JsonValue} {f : JsonValue → JsonValue → JsonValue} (hf : Keeps x f) {xs : List JsonValue}
    (h : ∀ y ∈ xs, y = .null ∨ y = x) {old : JsonValue} (hold : old = .null ∨ old = x) :
    (xs.foldl f old = .null ∧ old = .null ∧ ∀ y ∈ xs, y = .null) ∨ xs.foldl f old = x := by
  induction xs generalizing old with
  | nil => exact hold.imp (fun h => ⟨h, h, List.forall_mem_nil _⟩) id
  | cons y ys ih =>
    obtain ⟨hy, hys⟩ := List.forall_mem_cons.mp h
    rw [List.foldl_cons]
    obtain ⟨hnull, holdNull, hyNull⟩ | heq := hf old y hold hy
    · refine (ih hys (.inl hnull)).imp (fun h => ⟨h.1, holdNull, ?_⟩) id
      exact List.forall_mem_cons.mpr ⟨hyNull, h.2.2⟩
    · obtain ⟨hfold, hnull, -⟩ | hfold := ih hys (.inr heq)
      · exact .inr (hfold.trans (hnull.symm.trans heq))
      · exact .inr hfold

/-- **A repeated field is kept.** -/
theorem Repeats.foldl {x : JsonValue} {xs : List JsonValue} (h : Repeats x xs) {f : JsonValue → JsonValue → JsonValue}
    (hf : Keeps x f) : xs.foldl f .null = x := by
  obtain ⟨hall, hsome⟩ := h
  obtain ⟨hfold, -, hnull⟩ | hfold := hf.foldl hall (.inl rfl)
  · obtain rfl | hmem := hsome
    · exact hfold
    · exact hfold.trans (hnull x hmem).symm
  · exact hfold

/-- **The body of the chunks of a completion** is the completion. -/
theorem body_assembled {c : ChatBody} {xs : List (ChunkParts × τ)} (h : Splits c (xs.map (·.1))) :
    (assembled xs).body = c := by
  obtain ⟨hid, hmodel, hcreated, hfingerprint, husage, ⟨hrole, hnoRole⟩, hcontent, hreasoning, hfinish⟩ := h
  have hroles : (((deltas (xs.map (·.1))).filterMap (·.role)).getLast?.getD (codePoints "assistant")) = c.role := by
    cases hlast : ((deltas (xs.map (·.1))).filterMap (·.role)).getLast? with
    | none => exact (hnoRole (List.getLast?_eq_none_iff.mp hlast)).symm
    | some r => exact hrole r (List.mem_of_getLast? hlast)
  have htext : (if (!((deltas (xs.map (·.1))).filterMap (·.content)).isEmpty) = true then
      some (((deltas (xs.map (·.1))).filterMap (·.content)).filter fun s => !s.isEmpty).flatten else none) =
        c.content := by
    rw [← hcontent, List.flatten_filter_not_isEmpty, wholeText]
    cases (deltas (xs.map (·.1))).filterMap (·.content) <;> simp
  have hpieces : ∀ field, (if (deltas (xs.map (·.1))).filterMap (·.reasoning field) = [] then none
      else some ((deltas (xs.map (·.1))).filterMap (·.reasoning field))).map List.flatten = c.reasoning field := by
    intro field
    rw [← hreasoning field, wholeText]
    split <;> rfl
  unfold assembled Assembler.body
  dsimp only
  rw [hid.foldl (keeps_keepFirst _), hmodel.foldl (keeps_keepFirst _), hcreated.foldl (keeps_keepFirst _),
    hfingerprint.foldl (keeps_keepFirst _), hroles, hfinish.foldl (keeps_keepLast _), husage, htext]
  simp only [hpieces]

/-- The completion is finished when it has a finish reason. -/
theorem finished_assembled {c : ChatBody} {xs : List (ChunkParts × τ)} (h : Splits c (xs.map (·.1))) :
    (assembled xs).finished = !c.finishReason.isNull := by
  obtain ⟨hall, hsome⟩ := h.finishReason
  show (deltas (xs.map (·.1))).any (fun d => !d.finishReason.isNull) = !c.finishReason.isNull
  by_cases hnull : c.finishReason = .null
  · have hnone : ∀ d ∈ deltas (xs.map (·.1)), (!d.finishReason.isNull) = false := by
      intro d hd
      obtain h | h := hall _ (List.mem_map_of_mem hd)
      · rw [h]
        rfl
      · rw [h, hnull]
        rfl
    rw [List.any_eq_false.mpr fun d hd => by rw [hnone d hd]; exact Bool.false_ne_true, hnull]
    rfl
  · obtain ⟨d, hd, hreason⟩ := List.mem_map.mp (hsome.resolve_left hnull)
    rw [← hreason]
    have hsome : (!d.finishReason.isNull) = true := by
      rw [hreason]
      cases hvalue : c.finishReason with
      | null => exact absurd hvalue hnull
      | _ => rfl
    rw [hsome]
    exact List.any_eq_true.mpr ⟨d, hd, hsome⟩

end Assembled

end LocalSqlAgent
