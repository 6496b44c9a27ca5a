import LocalSqlAgent.Lib.JsonReading
import LocalSqlAgent.Lib.PyText

/-! # A chat completion that is streamed

`llm.providers._StreamAssembler` puts the chunks of a streamed answer together again, `_iter_sse_events` takes them
out of the lines of the response, and `OpenAIBackend._post_streaming` does both under a time limit.

* **`Assembler.feed`**, **`Assembler.body`**: one chunk, and the body they add up to.
* **`iterSseEvents`**: the events of the lines, up to `[DONE]` or to what is raised.
* **`postStreaming`**: the body of a whole response. -/

namespace LocalSqlAgent

/-! ## Dictionaries of JSON -/

/-- The characters of a text, as numbers. -/
def codePoints (s : String) : List ℕ := s.toList.map Char.toNat

/-- `dict.get` of a decoded dictionary: the value that was assigned last. -/
def dictGet (members : List (List ℕ × JsonValue)) (key : String) : Option JsonValue :=
  (members.reverse.find? fun m => joinSurrogates m.1 = codePoints key).map (·.2)

/-- `dict.get`, with `None` for a key that is not there. -/
def dictValue (members : List (List ℕ × JsonValue)) (key : String) : JsonValue := (dictGet members key).getD .null

/-- A string, nothing for another value. -/
def JsonValue.string? : JsonValue → Option (List ℕ)
  | .str us => some (joinSurrogates us)
  | _ => none

/-- `is None`. -/
def JsonValue.isNull : JsonValue → Bool
  | .null => true
  | _ => false

/-- What the numbers of a chunk are taken for. -/
structure StreamEnv where
  /-- A number, as it is written, is zero. -/
  isZero : List Char → List Char → Bool
  /-- `str` of a value that is no string. -/
  pyStr : JsonValue → List ℕ

/-- `bool` of a value. -/
def StreamEnv.truthy (E : StreamEnv) : JsonValue → Bool
  | .null => false
  | .bool b => b
  | .number i x => !E.isZero i x
  | .str us => !us.isEmpty
  | .arr items => !items.isEmpty
  | .obj members => !members.isEmpty

/-- `str` of a value. -/
def StreamEnv.text (E : StreamEnv) : JsonValue → List ℕ
  | .str us => joinSurrogates us
  | v => E.pyStr v

/-! ## The assembler -/

/-- What goes wrong with a response. -/
inductive StreamFailure where
  /-- `StreamError`: a chunk that is no object. -/
  | notObject
  /-- `StreamError`: the endpoint reported an error, of this type or code. -/
  | endpointError (detail : JsonValue)
  /-- `StreamError`: a chunk that is no JSON. -/
  | malformed
  /-- `StreamError`: the stream ended before the response was complete. -/
  | incomplete
  /-- `requests.Timeout`. -/
  | late
  /-- `UnicodeDecodeError`. -/
  | encoding
  /-- What the decoder raises beyond `JSONDecodeError`. -/
  | bound (e : DecodeFailure)
  /-- `TypeError`: choices that cannot be gone through. -/
  | typeError
  /-- `AttributeError`: a delta that is no dictionary. -/
  | attributeError

/-- `_REASONING_FIELD_NAMES`. -/
inductive ReasoningField where
  | reasoningContent
  | reasoning
  | thinking
  | thought
  deriving DecidableEq, Repr

/-- The key of a field. -/
def ReasoningField.name : ReasoningField → String
  | .reasoningContent => "reasoning_content"
  | .reasoning => "reasoning"
  | .thinking => "thinking"
  | .thought => "thought"

/-- Token figures: a dictionary with something in it. -/
structure Usage where
  members : List (List ℕ × JsonValue)
  nonempty : members ≠ []

/-- `_StreamAssembler`. A reasoning field without an entry is `none`. -/
structure Assembler (τ : Type) where
  id : JsonValue := .null
  model : JsonValue := .null
  created : JsonValue := .null
  fingerprint : JsonValue := .null
  role : List ℕ := codePoints "assistant"
  content : List (List ℕ) := []
  contentSeen : Bool := false
  reasoning : ReasoningField → Option (List (List ℕ)) := fun _ => none
  finishReason : JsonValue := .null
  finished : Bool := false
  usage : Option Usage := none
  firstChunkAt : Option τ := none
  firstTokenAt : Option τ := none

/-- The fields of a `chat.completion` body and of its one choice. -/
structure ChatBody where
  id : JsonValue
  created : JsonValue
  model : JsonValue
  role : List ℕ
  content : Option (List ℕ)
  reasoning : ReasoningField → Option (List ℕ)
  finishReason : JsonValue
  /-- `None` when the body has none. -/
  fingerprint : JsonValue
  usage : Option Usage

section Feed

variable {τ : Type} (E : StreamEnv)

/-- A field that is set once. -/
def keepFirst (old new : JsonValue) : JsonValue :=
  match old with
  | .null => new
  | v => v

/-- A `usage` that is a dictionary with something in it. -/
def usageOf : JsonValue → Option Usage
  | .obj (m :: ms) => some ⟨m :: ms, List.cons_ne_nil m ms⟩
  | _ => none

/-- A choice that is a dictionary of index 0. -/
def indexZero : JsonValue → Option (List (List ℕ × JsonValue))
  | .obj members =>
    match dictGet members "index" with
    | none => some members
    | some (.number i x) => if E.isZero i x then some members else none
    | some (.bool false) => some members
    | some _ => none
  | _ => none

/-- The choice of index 0. -/
def firstChoice (choices : JsonValue) : Except StreamFailure (Option (List (List ℕ × JsonValue))) :=
  if E.truthy choices then
    match choices with
    | .arr items => .ok (items.findSome? (indexZero E))
    | .obj _ => .ok none
    | .str _ => .ok none
    | _ => .error .typeError
  else .ok none

/-- The delta of a choice. -/
def deltaOf (choice : List (List ℕ × JsonValue)) : Except StreamFailure (List (List ℕ × JsonValue)) :=
  if E.truthy (dictValue choice "delta") then
    match dictValue choice "delta" with
    | .obj delta => .ok delta
    | _ => .error .attributeError
  else .ok []

/-- The piece of a reasoning field in a delta. -/
def reasoningPiece (delta : List (List ℕ × JsonValue)) (field : ReasoningField) : Option (List ℕ) :=
  (dictValue delta field.name).string?

/-- The delta brings something new: a content that is not empty, or a piece of reasoning. -/
def produced (delta : List (List ℕ × JsonValue)) : Bool :=
  E.truthy (dictValue delta "content") ||
    [ReasoningField.reasoningContent, .reasoning, .thinking, .thought].any fun field =>
      (reasoningPiece delta field).any fun piece => !piece.isEmpty

/-- The role, the content and the reasoning of a delta. -/
def Assembler.feedDelta (S : Assembler τ) (delta : List (List ℕ × JsonValue)) (t : τ) : Assembler τ :=
  let content := dictValue delta "content"
  { S with
    role := (dictValue delta "role").string?.getD S.role
    contentSeen := S.contentSeen || !content.isNull
    content := if E.truthy content then S.content ++ [E.text content] else S.content
    reasoning := fun field => (reasoningPiece delta field).elim (S.reasoning field) fun piece =>
      some ((S.reasoning field).getD [] ++ [piece])
    firstTokenAt := S.firstTokenAt.or (if produced E delta then some t else none) }

/-- The finish reason of a choice. -/
def Assembler.feedFinish (S : Assembler τ) : JsonValue → Assembler τ
  | .null => S
  | reason => { S with finishReason := reason, finished := true }

/-- What a chunk says apart from its choices. -/
def Assembler.feedHead (S : Assembler τ) (members : List (List ℕ × JsonValue)) (t : τ) : Assembler τ :=
  { S with
    firstChunkAt := S.firstChunkAt.or (some t)
    id := keepFirst S.id (dictValue members "id")
    model := keepFirst S.model (dictValue members "model")
    created := keepFirst S.created (dictValue members "created")
    fingerprint := keepFirst S.fingerprint (dictValue members "system_fingerprint")
    usage := (usageOf (dictValue members "usage")).or S.usage }

/-- The type or the code of an error object, `None` for another error. -/
def errorDetail : JsonValue → JsonValue
  | .obj members => if E.truthy (dictValue members "type") then dictValue members "type" else dictValue members "code"
  | _ => .null

/-- **`_StreamAssembler.feed`**, at the time `t`. -/
def Assembler.feed (S : Assembler τ) (chunk : JsonValue) (t : τ) : Except StreamFailure (Assembler τ) :=
  match chunk with
  | .obj members =>
    if E.truthy (dictValue members "error") then .error (.endpointError (errorDetail E (dictValue members "error")))
    else
      match firstChoice E (dictValue members "choices") with
      | .error e => .error e
      | .ok none => .ok (S.feedHead members t)
      | .ok (some choice) =>
        match deltaOf E choice with
        | .error e => .error e
        | .ok delta => .ok (((S.feedHead members t).feedDelta E delta t).feedFinish (dictValue choice "finish_reason"))
  | _ => .error .notObject

/-- **`_StreamAssembler.body`.** -/
def Assembler.body (S : Assembler τ) : ChatBody where
  id := S.id
  created := S.created
  model := S.model
  role := S.role
  content := if S.contentSeen then some S.content.flatten else none
  reasoning := fun field => (S.reasoning field).map List.flatten
  finishReason := S.finishReason
  fingerprint := S.fingerprint
  usage := S.usage

end Feed

/-! ## The lines of a response -/

/-- A line of the response, a text or bytes. -/
inductive SseLine where
  | text (cs : List Char)
  | bytes (b : ByteArray)

/-- The characters of a line; bytes are UTF-8. -/
def SseLine.decoded : SseLine → Option (List Char)
  | .text cs => some cs
  | .bytes b => b.utf8Decode?.map Array.toList

/-- What `_iter_sse_events` yields. -/
inductive SseEvent where
  /-- `[DONE]`. -/
  | done
  | chunk (v : JsonValue)

/-- What `json.loads` makes of a payload. -/
def chunkEvent (L : DecodeLimits) (payload : List Char) : Except StreamFailure (Option SseEvent) :=
  match jsonLoadsText L payload with
  | .ok v => .ok (some (.chunk v))
  | .error .syntactic => .error .malformed
  | .error e => .error (.bound e)

/-- What a line gives: an event, nothing, or what is raised. -/
def sseEvent (L : DecodeLimits) (line : SseLine) : Except StreamFailure (Option SseEvent) :=
  match line.decoded with
  | none => .error .encoding
  | some cs =>
    if "data:".toList.isPrefixOf cs then
      let payload := strip (cs.drop 5)
      if payload = [] then .ok none
      else if payload = "[DONE]".toList then .ok (some .done)
      else chunkEvent L payload
    else .ok none

/-- **`_iter_sse_events`**: the events in order, at the end what is raised, if anything is. -/
def iterSseEvents (L : DecodeLimits) : List SseLine → List (Except StreamFailure SseEvent)
  | [] => []
  | line :: lines =>
    match sseEvent L line with
    | .error e => [.error e]
    | .ok none => iterSseEvents L lines
    | .ok (some .done) => [.ok .done]
    | .ok (some (.chunk v)) => .ok (.chunk v) :: iterSseEvents L lines

/-! ## The whole response -/

section Post

variable {τ : Type} [Sub τ] [LT τ] [DecidableLT τ] (E : StreamEnv) (timeout start : τ) (clock : ℕ → τ)

/-- The loop of `_post_streaming` over the events, from the `i`-th on, at the time the clock says of each: the
assembler, and whether `[DONE]` came. -/
def drainEvents : ℕ → Assembler τ → List (Except StreamFailure SseEvent) → Except StreamFailure (Assembler τ × Bool)
  | _, S, [] => .ok (S, false)
  | _, _, .error e :: _ => .error e
  | i, S, .ok event :: events =>
    if timeout < clock i - start then .error .late
    else
      match event with
      | .done => .ok (S, true)
      | .chunk v =>
        match S.feed E v (clock i) with
        | .error e => .error e
        | .ok S => drainEvents (i + 1) S events

/-- **`OpenAIBackend._post_streaming`** of a response that is no HTTP error: the body, and the time from the start
to the first token, or to the first chunk when there is no token. -/
def postStreaming (L : DecodeLimits) (lines : List SseLine) : Except StreamFailure (ChatBody × Option τ) :=
  match drainEvents E timeout start clock 0 {} (iterSseEvents L lines) with
  | .error e => .error e
  | .ok (S, done) =>
    if done || S.finished then .ok (S.body, (S.firstTokenAt.or S.firstChunkAt).map (· - start))
    else .error .incomplete

end Post

end LocalSqlAgent
