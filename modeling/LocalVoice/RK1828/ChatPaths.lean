import LocalVoice.Lib.PyText
import LocalVoice.RK1828.Splitter
import Mathlib.Data.Int.Notation

/-! The two answers of `chat_completions` to a request with tools: the reply, and the chunks of the stream.
    Both take the same bodies, as the splitter does not see how the text is cut; what `json.loads` makes of
    a body decides whether both come through. -/

namespace LocalVoice.RK1828
open LocalVoice.Lib

/-! ### JSON -/

/-- A `str` of the interpreter, by its code points: a lone surrogate may be among them. -/
abbrev Str := List ℕ

/-- It can be encoded. -/
def Str.encodes (s : Str) : Bool := s.all fun n => n < 0xD800 || 0xDFFF < n

def Str.of (s : String) : Str := s.toList.map Char.toNat

/-- What `json.loads` returns: a float with what it prints, whether it is zero and whether it is finite. -/
inductive Value where
  | null
  | bool (b : Bool)
  | int (n : ℤ)
  | float (printed : Str) (zero finite : Bool)
  | str (s : Str)
  | array (items : List Value)
  | object (items : List (Str × Value))

/-- `bool(value)`. -/
def Value.truthy : Value → Bool
  | .null => false
  | .bool b => b
  | .int n => n ≠ 0
  | .float _ zero _ => !zero
  | .str s => s ≠ []
  | .array items => !items.isEmpty
  | .object items => !items.isEmpty

mutual

/-- Something holds of every float and every `str` in a value. -/
def Value.every (float : Bool → Bool) (text : Str → Bool) : Value → Bool
  | .float _ _ finite => float finite
  | .str s => text s
  | .array items => Value.every_item float text items
  | .object items => Value.every_field float text items
  | _ => true

def Value.every_item (float : Bool → Bool) (text : Str → Bool) : List Value → Bool
  | [] => true
  | v :: items => v.every float text && Value.every_item float text items

def Value.every_field (float : Bool → Bool) (text : Str → Bool) : List (Str × Value) → Bool
  | [] => true
  | (key, v) :: items => text key && v.every float text && Value.every_field float text items

end

/-- `json.dumps` takes it with `allow_nan=False`. -/
def Value.finite (v : Value) : Bool := v.every (fun finite => finite) fun _ => true

/-- What `json.dumps` writes with `ensure_ascii=False` can be encoded. -/
def Value.encodes (v : Value) : Bool := v.every (fun _ => true) Str.encodes

/-- What `json.loads` does: it raises a `ValueError`, or something else, or returns. -/
inductive Loads where
  | value_error
  | raised
  | value (v : Value)

/-- The `json` module: `loads`, `dumps(value, ensure_ascii=False)` (`none` when it raises), and whether a
    reply, or a chunk, with a call of this name is nested too deep for it. -/
structure JsonModule where
  loads : List Char → Loads
  dumps : Value → Option Str
  deep_reply : Value → Bool
  deep_chunk : Value → Bool

/-! ### Tool calls -/

/-- A tool call, without its random id. -/
structure ToolCall where
  index : ℕ
  name : Value
  arguments : Str

/-- `obj.get(key)`. -/
def get (fields : List (Str × Value)) (key : String) : Value := (fields.lookup (Str.of key)).getD .null

/-- The `args` of a call. -/
def call_arguments (json : JsonModule) (fields : List (Str × Value)) : Option Str :=
  match get fields "arguments" with
  | .str s => some s
  | .null => json.dumps (.object [])
  | args => json.dumps args

/-- A round of `to_openai_tool_calls`; `none` when it raises. -/
def call_round (json : JsonModule) (calls : List ToolCall) (body : List Char) : Option (List ToolCall) :=
  match json.loads (PyText.strip_chars body) with
  | .value_error => some calls
  | .raised => none
  | .value (.object fields) =>
    if (get fields "name").truthy then
      (call_arguments json fields).map fun args => calls ++ [⟨calls.length, get fields "name", args⟩]
    else some calls
  | .value _ => none

def to_openai_tool_calls (json : JsonModule) (bodies : List (List Char)) : Option (List ToolCall) :=
  bodies.foldlM (call_round json) []

/-! ### The reply -/

inductive Finish where
  | tool_calls
  | stop
  deriving DecidableEq

def finish_reason (calls : List ToolCall) : Finish := if calls.isEmpty then .stop else .tool_calls

def THINK_OPEN : List Char := "<think>".toList
def THINK_CLOSE : List Char := "</think>".toList

/-- `_THINK_RE.sub("", text)`. -/
def strip_think (text : List Char) : List Char :=
  match _h : find THINK_OPEN text with
  | none => text
  | some i =>
    let rest := text.drop (i + THINK_OPEN.length)
    match find THINK_CLOSE rest with
    | none => text
    | some j => text.take i ++ strip_think ((rest.drop (j + THINK_CLOSE.length)).dropWhile PyText.is_space)
termination_by text.length
decreasing_by
  refine Nat.lt_of_le_of_lt ((List.dropWhile_suffix _).length_le) ?_
  exact Nat.lt_of_le_of_lt (List.drop_suffix _ _).length_le (drop_found (by decide) _h)

/-- The message of a reply. -/
structure Reply where
  content : Option (List Char)
  tool_calls : List ToolCall
  finish_reason : Finish

/-- `JSONResponse` takes a call. -/
def reply_takes (json : JsonModule) (tc : ToolCall) : Bool :=
  tc.name.finite && tc.name.encodes && tc.arguments.encodes && !json.deep_reply tc.name

/-- `chat_completions` without `stream`, for what the worker generates; `none` when it raises. -/
def chat_completions (json : JsonModule) (pieces : List (List Char)) : Option Reply :=
  let fed := ToolCallSplitter.init.feed (strip_think pieces.flatten)
  let last := fed.2.flush
  let text := PyText.strip_chars (fed.1 ++ last.1)
  match to_openai_tool_calls json last.2.bodies with
  | none => none
  | some calls =>
    if calls.all (reply_takes json) then
      some ⟨if text = [] then none else some text, calls, finish_reason calls⟩
    else none

/-! ### The stream -/

inductive Chunk where
  | role
  | content (text : List Char)
  | tool_call (tc : ToolCall)
  | finish (reason : Finish) (completion_tokens : ℕ)
  | done

/-- The chunks that were sent, and whether the stream ended, or broke off. -/
structure Streamed where
  chunks : List Chunk
  ended : Bool

/-- A chunk with a call can be sent. -/
def chunk_takes (json : JsonModule) (tc : ToolCall) : Bool :=
  tc.name.encodes && tc.arguments.encodes && !json.deep_chunk tc.name

/-- The loop over the pieces: the content that is sent, the count of pieces, and the splitter. -/
def stream_pieces (s : ToolCallSplitter) (n : ℕ) :
    List (List Char) → List (List Char) × ℕ × ToolCallSplitter
  | [] => ([], n, s)
  | piece :: pieces =>
    if piece = THINK_OPEN ∨ piece = THINK_CLOSE then stream_pieces s n pieces
    else
      let fed := s.feed piece
      let more := stream_pieces fed.2 (n + 1) pieces
      (if fed.1 = [] then more.1 else fed.1 :: more.1, more.2)

/-- The loop over the calls: what is sent, and whether all of them were. -/
def send_calls (json : JsonModule) : List ToolCall → List Chunk × Bool
  | [] => ([], true)
  | tc :: calls =>
    if chunk_takes json tc then
      let more := send_calls json calls
      (.tool_call tc :: more.1, more.2)
    else ([], false)

def event_stream (json : JsonModule) (pieces : List (List Char)) : Streamed :=
  let looped := stream_pieces .init 0 pieces
  let last := looped.2.2.flush
  let contents := looped.1 ++ if last.1 = [] then [] else [last.1]
  let chunks := .role :: contents.map .content
  match to_openai_tool_calls json last.2.bodies with
  | none => ⟨chunks, false⟩
  | some calls =>
    let sent := send_calls json calls
    if sent.2 then ⟨chunks ++ sent.1 ++ [.finish (finish_reason calls) looped.2.1, .done], true⟩
    else ⟨chunks ++ sent.1, false⟩

/-! ### Agreement -/

def ToolCall.call (tc : ToolCall) : Value × Str := (tc.name, tc.arguments)

/-- The call of a well-formed body: an object with a name. -/
def well_formed (json : JsonModule) (body : List Char) : Option (Value × Str) :=
  match json.loads (PyText.strip_chars body) with
  | .value (.object fields) =>
    if (get fields "name").truthy then (call_arguments json fields).map fun args => (get fields "name", args)
    else none
  | _ => none

def Chunk.call : Chunk → Option (Value × Str)
  | .tool_call tc => some tc.call
  | _ => none

def Chunk.text : Chunk → List Char
  | .content text => text
  | _ => []

def Chunk.reason : Chunk → Option Finish
  | .finish reason _ => some reason
  | _ => none

/-- The stream ends, with one finish chunk, and carries what the reply does. -/
structure Same (json : JsonModule) (bodies : List (List Char)) (reply : Reply) (stream : Streamed) : Prop where
  ended : stream.ended = true
  last : stream.chunks.getLast? = some .done
  finished : stream.chunks.filterMap Chunk.reason = [reply.finish_reason]
  calls : stream.chunks.filterMap Chunk.call = reply.tool_calls.map ToolCall.call
  well_formed : reply.tool_calls.map ToolCall.call = bodies.filterMap (well_formed json)
  reason : reply.finish_reason = .tool_calls ↔ reply.tool_calls ≠ []
  content : PyText.strip_chars (stream.chunks.flatMap Chunk.text) = reply.content.getD []

/-- The two answers to what the worker generates agree. -/
def Agrees (json : JsonModule) (pieces : List (List Char)) : Prop :=
  ∃ reply, chat_completions json pieces = some reply ∧
    Same json (split_text false pieces.flatten).bodies reply (event_stream json pieces)

/-- A body that both answers take: it is no JSON, or an object without a name, or one whose name and
    arguments can be written. -/
def Passes (json : JsonModule) (body : List Char) : Prop :=
  match json.loads (PyText.strip_chars body) with
  | .value_error => True
  | .value (.object fields) => (get fields "name").truthy = true →
      ∃ args, call_arguments json fields = some args ∧ args.encodes = true ∧
        (get fields "name").finite = true ∧ (get fields "name").encodes = true ∧
        json.deep_reply (get fields "name") = false ∧ json.deep_chunk (get fields "name") = false
  | _ => False

/-! ### The calls -/

section
variable {json : JsonModule} {body : List Char} {bodies : List (List Char)} {calls calls' : List ToolCall}

/-- Both answers can write the call. -/
def Written (json : JsonModule) (tc : ToolCall) : Prop :=
  reply_takes json tc = true ∧ chunk_takes json tc = true

theorem written_iff {tc : ToolCall} : Written json tc ↔ tc.arguments.encodes = true ∧ tc.name.finite = true ∧
    tc.name.encodes = true ∧ json.deep_reply tc.name = false ∧ json.deep_chunk tc.name = false := by
  simp only [Written, reply_takes, chunk_takes, Bool.and_eq_true, Bool.not_eq_true']
  tauto

/-- A round that does not raise adds the call of a well-formed body. -/
theorem round_some (h : call_round json calls body = some calls') :
    calls' = calls ++ ((well_formed json body).map fun x => ⟨calls.length, x.1, x.2⟩).toList := by
  unfold call_round at h
  unfold well_formed
  split at h
  · next heq =>
    rw [heq]
    exact (Option.some.inj h).symm.trans (List.append_nil _).symm
  · cases h
  · next fields heq =>
    rw [heq]
    dsimp only
    split at h
    · next hname =>
      obtain ⟨args, hargs, rfl⟩ := Option.map_eq_some_iff.1 h
      rw [if_pos hname, hargs]
      rfl
    · next hname =>
      rw [if_neg hname]
      exact (Option.some.inj h).symm.trans (List.append_nil _).symm
  · cases h

/-- A body passes when its round does not raise and its call can be written. -/
theorem passes_iff (calls : List ToolCall) : Passes json body ↔
    (∃ calls', call_round json calls body = some calls') ∧ ∀ x, well_formed json body = some x → Written json ⟨0, x.1, x.2⟩ := by
  unfold Passes call_round well_formed
  split
  · next heq => simp [heq]
  · next fields heq =>
    rw [heq]
    dsimp only
    by_cases hname : (get fields "name").truthy = true
    · simp only [hname, if_true, true_implies]
      constructor
      · rintro ⟨args, hargs, hwritten⟩
        refine ⟨⟨_, by rw [hargs]; rfl⟩, fun x hx => ?_⟩
        rw [hargs] at hx
        obtain rfl := Option.some.inj hx
        exact written_iff.2 hwritten
      · rintro ⟨⟨calls', hcalls⟩, hwritten⟩
        obtain ⟨args, hargs, -⟩ := Option.map_eq_some_iff.1 hcalls
        exact ⟨args, hargs, written_iff.1 (hwritten _ (by rw [hargs]; rfl))⟩
    · simp [hname]
  · next hne hne' =>
    split
    · next heq => exact absurd heq hne
    · simp
    · next fields heq => exact absurd heq (hne' fields)
    · simp

/-- The loop over the bodies collects the calls of the well-formed ones. -/
theorem calls_some (h : bodies.foldlM (call_round json) calls = some calls') :
    (∀ body ∈ bodies, ∃ calls calls', call_round json calls body = some calls') ∧
      calls'.map ToolCall.call = calls.map ToolCall.call ++ bodies.filterMap (well_formed json) := by
  induction bodies generalizing calls with
  | nil =>
    obtain rfl := Option.some.inj h
    exact ⟨fun body hbody => absurd hbody List.not_mem_nil, (List.append_nil _).symm⟩
  | cons body bodies ih =>
    rw [List.foldlM_cons] at h
    obtain ⟨calls₁, hround, h⟩ := Option.bind_eq_some_iff.1 h
    obtain ⟨hrounds, hcalls⟩ := ih h
    refine ⟨List.forall_mem_cons.2 ⟨⟨_, _, hround⟩, hrounds⟩, ?_⟩
    rw [hcalls, round_some hround, List.map_append, List.append_assoc, List.filterMap_cons]
    cases well_formed json body with
    | none => rfl
    | some x => rfl

theorem calls_exist (h : ∀ body ∈ bodies, Passes json body) (calls : List ToolCall) :
    ∃ calls', bodies.foldlM (call_round json) calls = some calls' := by
  induction bodies generalizing calls with
  | nil => exact ⟨calls, rfl⟩
  | cons body bodies ih =>
    obtain ⟨hbody, hbodies⟩ := List.forall_mem_cons.1 h
    obtain ⟨⟨calls₁, hround⟩, -⟩ := (passes_iff calls).1 hbody
    obtain ⟨calls', hcalls⟩ := ih hbodies calls₁
    exact ⟨calls', by rw [List.foldlM_cons, hround]; exact hcalls⟩

theorem written_call {tc tc' : ToolCall} (h : tc.call = tc'.call) : Written json tc ↔ Written json tc' := by
  obtain ⟨hname, hargs⟩ := Prod.mk.inj h
  rw [written_iff, written_iff, hname, hargs]

/-- Every body passes when the loop goes through and every call can be written. -/
theorem passes_all : (∀ body ∈ bodies, Passes json body) ↔
    ∃ calls, to_openai_tool_calls json bodies = some calls ∧ ∀ tc ∈ calls, Written json tc := by
  constructor
  · intro h
    obtain ⟨calls, hcalls⟩ := calls_exist h []
    refine ⟨calls, hcalls, fun tc htc => ?_⟩
    have hwell : calls.map ToolCall.call = bodies.filterMap (well_formed json) := (calls_some hcalls).2
    have hmem : tc.call ∈ bodies.filterMap (well_formed json) := hwell ▸ List.mem_map_of_mem htc
    obtain ⟨body, hbody, hx⟩ := List.mem_filterMap.1 hmem
    exact (written_call rfl).1 (((passes_iff []).1 (h body hbody)).2 _ hx)
  · rintro ⟨calls, hcalls, hwritten⟩ body hbody
    have hwell : calls.map ToolCall.call = bodies.filterMap (well_formed json) := (calls_some hcalls).2
    obtain ⟨before, after, hround⟩ := (calls_some hcalls).1 body hbody
    refine (passes_iff before).2 ⟨⟨after, hround⟩, fun x hx => ?_⟩
    have hmem : x ∈ calls.map ToolCall.call := by
      rw [hwell]
      exact List.mem_filterMap.2 ⟨body, hbody, hx⟩
    obtain ⟨tc, htc, rfl⟩ := List.mem_map.1 hmem
    exact (written_call rfl).1 (hwritten tc htc)

theorem send_calls_all : (send_calls json calls).2 = calls.all (chunk_takes json) ∧
    (calls.all (chunk_takes json) = true → (send_calls json calls).1 = calls.map .tool_call) := by
  induction calls with
  | nil => exact ⟨rfl, fun _ => rfl⟩
  | cons tc calls ih =>
    rw [send_calls, List.all_cons]
    cases htc : chunk_takes json tc with
    | true => exact ⟨ih.1, fun hall => congrArg (Chunk.tool_call tc :: ·) (ih.2 hall)⟩
    | false => exact ⟨rfl, fun hall => by cases hall⟩

theorem finish_reason_iff : finish_reason calls = .tool_calls ↔ calls ≠ [] := by
  cases calls with
  | nil => simp [finish_reason]
  | cons tc calls => simp [finish_reason]

end

/-! ### The text -/

theorem strip_think_none {text : List Char} (h : find THINK_OPEN text = none) : strip_think text = text := by
  rw [strip_think]
  split
  · rfl
  · next h' => rw [h] at h'; cases h'

/-- A piece of a text without the pattern is not the pattern. -/
theorem piece_ne {pat piece : List Char} {pieces : List (List Char)} (h : find pat pieces.flatten = none)
    (hmem : piece ∈ pieces) : piece ≠ pat := by
  rintro rfl
  obtain ⟨before, after, rfl⟩ := List.append_of_mem hmem
  refine find_none h before.flatten.length (by simp) ?_
  rw [List.flatten_append, List.drop_left, List.flatten_cons]
  exact List.prefix_append _ _

/-- Without think tags the stream feeds every piece. -/
theorem stream_pieces_feeds {pieces : List (List Char)}
    (h : ∀ piece ∈ pieces, piece ≠ THINK_OPEN ∧ piece ≠ THINK_CLOSE) (s : ToolCallSplitter) (n : ℕ) :
    (stream_pieces s n pieces).1.flatten = (s.feeds pieces).1.flatten ∧
      (stream_pieces s n pieces).2.2 = (s.feeds pieces).2 := by
  induction pieces generalizing s n with
  | nil => exact ⟨rfl, rfl⟩
  | cons piece pieces ih =>
    obtain ⟨hpiece, hpieces⟩ := List.forall_mem_cons.1 h
    obtain ⟨hout, hs⟩ := ih hpieces (s.feed piece).2 (n + 1)
    rw [stream_pieces, if_neg (not_or.2 hpiece), ToolCallSplitter.feeds]
    refine ⟨?_, hs⟩
    dsimp only
    split
    · next hnil => rw [hout, hnil]; rfl
    · rw [List.flatten_cons, List.flatten_cons, hout]

/-- The chunks of content carry the content, and nothing else. -/
theorem content_chunks (contents : List (List Char)) :
    (contents.map Chunk.content).flatMap Chunk.text = contents.flatten ∧
      (contents.map Chunk.content).filterMap Chunk.call = [] ∧
      (contents.map Chunk.content).filterMap Chunk.reason = [] := by
  induction contents with
  | nil => exact ⟨rfl, rfl, rfl⟩
  | cons text contents ih => exact ⟨congrArg (text ++ ·) ih.1, ih.2.1, ih.2.2⟩

theorem call_chunks (calls : List ToolCall) :
    (calls.map Chunk.tool_call).flatMap Chunk.text = [] ∧
      (calls.map Chunk.tool_call).filterMap Chunk.call = calls.map ToolCall.call ∧
      (calls.map Chunk.tool_call).filterMap Chunk.reason = [] := by
  induction calls with
  | nil => exact ⟨rfl, rfl, rfl⟩
  | cons tc calls ih => exact ⟨ih.1, congrArg (tc.call :: ·) ih.2.1, ih.2.2⟩

section
variable {json : JsonModule} {pieces : List (List Char)}

/-- The reply, from the split of the text. -/
theorem reply_split (hopen : find THINK_OPEN pieces.flatten = none) : chat_completions json pieces =
    let text := PyText.strip_chars (split_text false pieces.flatten).content
    (to_openai_tool_calls json (split_text false pieces.flatten).bodies).bind fun calls =>
      if calls.all (reply_takes json) then
        some ⟨if text = [] then none else some text, calls, finish_reason calls⟩
      else none := by
  have hsplit := ToolCallSplitter.feeds_flush [pieces.flatten]
  simp only [List.flatten_cons, List.flatten_nil, List.append_nil, ToolCallSplitter.feeds] at hsplit
  rw [hsplit, chat_completions, strip_think_none hopen]
  dsimp only
  cases to_openai_tool_calls json (ToolCallSplitter.init.feed pieces.flatten).2.flush.2.bodies with
  | none => rfl
  | some calls => rfl

/-- The stream, from the split of the text. -/
theorem stream_split (hopen : find THINK_OPEN pieces.flatten = none)
    (hclose : find THINK_CLOSE pieces.flatten = none) : ∃ (contents : List (List Char)) (n : ℕ),
    contents.flatten = (split_text false pieces.flatten).content ∧ event_stream json pieces =
      match to_openai_tool_calls json (split_text false pieces.flatten).bodies with
      | none => ⟨.role :: contents.map .content, false⟩
      | some calls =>
        if calls.all (chunk_takes json) then
          ⟨.role :: contents.map .content ++ calls.map .tool_call ++ [.finish (finish_reason calls) n, .done],
            true⟩
        else ⟨.role :: contents.map .content ++ (send_calls json calls).1, false⟩ := by
  obtain ⟨hout, hs⟩ := stream_pieces_feeds (fun piece hmem => ⟨piece_ne hopen hmem, piece_ne hclose hmem⟩)
    ToolCallSplitter.init 0
  have hsplit := ToolCallSplitter.feeds_flush pieces
  rw [← hout, ← hs] at hsplit
  rw [hsplit, event_stream]
  refine ⟨(stream_pieces .init 0 pieces).1 ++
      if (stream_pieces .init 0 pieces).2.2.flush.1 = [] then []
      else [(stream_pieces .init 0 pieces).2.2.flush.1],
    (stream_pieces .init 0 pieces).2.1, ?_, ?_⟩
  · rw [List.flatten_append]
    split
    · next hnil => rw [hnil]; rfl
    · rw [List.flatten_singleton]
  · dsimp only
    cases to_openai_tool_calls json (stream_pieces .init 0 pieces).2.2.flush.2.bodies with
    | none => rfl
    | some calls =>
      dsimp only
      obtain ⟨hall, hsent⟩ := @send_calls_all json calls
      rw [hall]
      split
      · next htakes => rw [hsent htakes]
      · rfl

end

/-- The two answers agree when, and only when, every body of the text can be taken by both. -/
theorem chat_paths_agree (json : JsonModule) (pieces : List (List Char))
    (hopen : find THINK_OPEN pieces.flatten = none) (hclose : find THINK_CLOSE pieces.flatten = none) :
    Agrees json pieces ↔ ∀ body ∈ (split_text false pieces.flatten).bodies, Passes json body := by
  obtain ⟨contents, n, hcontents, hstream⟩ := @stream_split json pieces hopen hclose
  rw [passes_all, Agrees, reply_split hopen, hstream]
  constructor
  · rintro ⟨reply, hreply, hsame⟩
    obtain ⟨calls, hcalls, hreply⟩ := Option.bind_eq_some_iff.1 hreply
    rw [hcalls] at hsame
    refine ⟨calls, hcalls, fun tc htc => ⟨?_, ?_⟩⟩
    · split at hreply
      · next hall => exact List.all_eq_true.1 hall tc htc
      · cases hreply
    · have hended := hsame.ended
      dsimp only at hended
      split at hended
      · next hall => exact List.all_eq_true.1 hall tc htc
      · cases hended
  · rintro ⟨calls, hcalls, hwritten⟩
    have hreply : calls.all (reply_takes json) = true := List.all_eq_true.2 fun tc htc => (hwritten tc htc).1
    have hchunk : calls.all (chunk_takes json) = true := List.all_eq_true.2 fun tc htc => (hwritten tc htc).2
    rw [hcalls]
    refine ⟨_, by rw [Option.bind_some, if_pos hreply], ?_⟩
    dsimp only
    rw [if_pos hchunk]
    obtain ⟨htext, hnocall, hnoreason⟩ := content_chunks contents
    obtain ⟨hnotext, hcall, hnoreason'⟩ := call_chunks calls
    refine ⟨rfl, by rw [List.getLast?_append]; rfl, ?_, ?_, (calls_some hcalls).2, finish_reason_iff, ?_⟩
    · simp [List.filterMap_cons, hnoreason, hnoreason', Chunk.reason]
    · simp [List.filterMap_cons, hnocall, hcall, Chunk.call]
    · simp only [List.flatMap_append, List.flatMap_cons, List.flatMap_nil, hnotext, htext, hcontents,
        Chunk.text, List.append_nil, List.nil_append]
      split
      · next hnil => rw [hnil]; rfl
      · rfl

/-- The `json` module, on an object with a name and a list. -/
def small_json : JsonModule where
  loads text :=
    if text = "\x7b\"name\": \"f\"\x7d".toList then .value (.object [(Str.of "name", .str (Str.of "f"))])
    else if text = "[1]".toList then .value (.array [.int 1])
    else .value_error
  dumps _ := some (Str.of "\x7b\x7d")
  deep_reply _ := false
  deep_chunk _ := false

/-- A call, some text, and a body that is no JSON. -/
def small_answer : List (List Char) :=
  ["Ok.<tool".toList, "_call>\n\x7b\"name\": \"f\"\x7d\n</tool_call><tool_call>f(".toList,
    "</tool_call>".toList]

theorem chat_paths_agree_small : Agrees small_json small_answer := by
  refine (chat_paths_agree small_json small_answer (by decide +kernel) (by decide +kernel)).2 ?_
  have hbodies : (split_text false small_answer.flatten).bodies =
      ["\n\x7b\"name\": \"f\"\x7d\n".toList, "f(".toList] := by decide +kernel
  rw [hbodies]
  refine List.forall_mem_cons.2 ⟨?_, List.forall_mem_singleton.2 ?_⟩
  · exact fun _ => ⟨_, rfl, by decide, by decide, by decide, rfl, rfl⟩
  · trivial

/-- The body is a list: the reply is an error, and the stream breaks off. -/
theorem list_body_breaks : ¬ Agrees small_json ["<tool_call>[1]</tool_call>".toList] ∧
    (event_stream small_json ["<tool_call>[1]</tool_call>".toList]).ended = false := by
  have hreply : (chat_completions small_json ["<tool_call>[1]</tool_call>".toList]).isNone = true := by
    decide +kernel
  refine ⟨?_, by decide +kernel⟩
  rintro ⟨reply, hsome, -⟩
  rw [hsome] at hreply
  cases hreply

end LocalVoice.RK1828
