import Mathlib.Data.List.Basic

/-! `session_update` of the cloud adapters in `server/core/realtime_provider.py`: how a canonical
    session object becomes the update that is sent to the provider. What an adapter has no value for
    it sets to `None`, and `_without_none` takes every `None` out again, at any depth. -/

namespace LocalVoice.RealtimeProvider

/-- A JSON value. A number is only ever passed on and tested for truth. -/
inductive Value where
  | null
  | bool (b : Bool)
  | number (printed : String) (nonzero : Bool)
  | str (s : String)
  | list (l : List Value)
  | obj (members : List (String × Value))

/-- The members of an object. -/
abbrev Obj := List (String × Value)

namespace Value

/-- `value is None`. -/
def is_none : Value → Bool
  | .null => true
  | _ => false

/-- `isinstance(value, dict)`. -/
def members? : Value → Option Obj
  | .obj kv => some kv
  | _ => none

end Value

/-! ### `_without_none` -/

mutual

/-- `_without_none`. -/
def without_none : Value → Value
  | .obj kv => .obj (without_none_members kv)
  | .list l => .list (without_none_items l)
  | .null => .null
  | .bool b => .bool b
  | .number p n => .number p n
  | .str s => .str s

def without_none_items : List Value → List Value
  | [] => []
  | v :: rest => without_none v :: without_none_items rest

def without_none_members : Obj → Obj
  | [] => []
  | (k, v) :: rest =>
    if v.is_none then without_none_members rest
    else (k, without_none v) :: without_none_members rest

end

mutual

/-- No object in the value has a `None` member. -/
def none_free : Value → Bool
  | .obj kv => none_free_members kv
  | .list l => none_free_items l
  | _ => true

def none_free_items : List Value → Bool
  | [] => true
  | v :: rest => none_free v && none_free_items rest

def none_free_members : Obj → Bool
  | [] => true
  | (_, v) :: rest => !v.is_none && none_free v && none_free_members rest

end

theorem without_none_members_length : ∀ kv, (without_none_members kv).length ≤ kv.length
  | [] => Nat.le_refl _
  | (k, v) :: rest => by
      have h := without_none_members_length rest
      rw [without_none_members]
      split
      · exact Nat.le_trans h (Nat.le_succ _)
      · simpa using h

mutual

/-- `_without_none` changes nothing exactly where there is no `None` member. -/
theorem without_none_eq_self : ∀ v : Value, without_none v = v ↔ none_free v = true
  | .null => by simp [without_none, none_free]
  | .bool _ => by simp [without_none, none_free]
  | .number _ _ => by simp [without_none, none_free]
  | .str _ => by simp [without_none, none_free]
  | .list l => by
      rw [without_none, none_free, Value.list.injEq]
      exact without_none_items_eq_self l
  | .obj kv => by
      rw [without_none, none_free, Value.obj.injEq]
      exact without_none_members_eq_self kv

theorem without_none_items_eq_self : ∀ l, without_none_items l = l ↔ none_free_items l = true
  | [] => by simp [without_none_items, none_free_items]
  | v :: rest => by
      rw [without_none_items, none_free_items, List.cons.injEq, Bool.and_eq_true,
        without_none_eq_self v, without_none_items_eq_self rest]

theorem without_none_members_eq_self :
    ∀ kv, without_none_members kv = kv ↔ none_free_members kv = true
  | [] => by simp [without_none_members, none_free_members]
  | (k, v) :: rest => by
      rw [without_none_members, none_free_members]
      cases hv : v.is_none with
      | true =>
        -- a member is dropped, so the list gets shorter
        have hlen := without_none_members_length rest
        simp only [if_true, Bool.not_true, Bool.false_and, Bool.false_eq_true, iff_false]
        intro h
        have := congrArg List.length h
        simp only [List.length_cons] at this
        omega
      | false =>
        rw [if_neg Bool.false_ne_true, List.cons.injEq, Prod.mk.injEq,
          without_none_members_eq_self rest, without_none_eq_self v]
        simp

end

/-! ### The parts of a canonical session -/

/-- `d.get(k)`, where the value is an object; empty otherwise. -/
def sub_object (k : String) (d : Obj) : Obj := ((d.lookup k).bind Value.members?).getD []

/-- `_audio_parts`. -/
def audio_in (session : Obj) : Obj := sub_object "input" (sub_object "audio" session)
def audio_out (session : Obj) : Obj := sub_object "output" (sub_object "audio" session)

/-- The entries of a tool list that are objects, each without its `x_v2v` member. -/
def tool_schemas (tools : List Value) : List Value :=
  tools.filterMap fun entry => entry.members?.map fun kv => .obj (kv.filter (·.1 ≠ "x_v2v"))

/-- `_provider_tools`; `none` when the value cannot be iterated over. -/
def provider_tools : Value → Option (List Value)
  | .list l => some (tool_schemas l)
  | .bool true => none
  | .number _ true => none
  | _ => some []

def allowed : List String :=
  ["type", "threshold", "prefix_padding_ms", "silence_duration_ms", "create_response",
    "interrupt_response", "eagerness"]

/-- `turn.get("type") in (None, "none")`. -/
def untyped (turn : Obj) : Bool :=
  match turn.lookup "type" with
  | none => true
  | some .null => true
  | some (.str s) => s = "none"
  | some _ => false

/-- The members of a turn detection that a provider knows. -/
def known_members (turn : Obj) : Obj := turn.filter fun m => allowed.contains m.1

/-- `_provider_turn_detection`. -/
def provider_turn_detection : Option Value → Value
  | some (.obj turn) => if untyped turn then .null else .obj (known_members turn)
  | _ => .null

/-! ### The adapters -/

/-- A member, where there is a value for it. -/
def member (k : String) (v : Option Value) : Obj := v.toList.map fun v => (k, v)

def text (s : String) : Value := .str s

/-- `OpenAIRealtimeAdapter.session_update`, the session it sends; `none` when it raises. -/
def openai_session (canonical : Obj) : Option Obj :=
  let audio_in := audio_in canonical
  let audio_out := audio_out canonical
  let turn := provider_turn_detection (audio_in.lookup "turn_detection")
  let session := ["type", "model", "output_modalities", "instructions"].flatMap fun k =>
    member k (canonical.lookup k)
  let session :=
    session ++ if (canonical.lookup "type").isNone then member "type" (some (text "realtime")) else []
  let transcription : Option Value := (audio_in.lookup "transcription").filter fun v =>
    (v.members?.map (!·.isEmpty)).getD false
  let audio : Value := .obj [
    ("input", .obj ([
      ("format", .obj [("type", text "audio/pcm"), ("rate", .number "24000" true)]),
      ("turn_detection", turn)] ++ member "transcription" transcription)),
    ("output", .obj [
      ("format", .obj [("type", text "audio/pcm")]),
      ("voice", (audio_out.lookup "voice").getD .null)])]
  let session := session ++ if (canonical.lookup "audio").isSome then member "audio" (some audio) else []
  match canonical.lookup "tools" with
  | none => some (without_none_members session)
  | some tools => (provider_tools tools).map fun l =>
      without_none_members (session ++ member "tools" (some (.list l)))

/-- `QwenRealtimeAdapter.session_update`, the session it sends; `none` when it raises. -/
def qwen_session (canonical : Obj) : Option Obj :=
  let audio_in := audio_in canonical
  let audio_out := audio_out canonical
  let turn := provider_turn_detection (audio_in.lookup "turn_detection")
  let modal := (canonical.lookup "output_modalities").isSome || (canonical.lookup "modalities").isSome
  let session := if modal then member "modalities" (some (.list [text "text", text "audio"])) else []
  let session := session ++ member "instructions" (canonical.lookup "instructions")
  let session := session ++
    if (canonical.lookup "audio").isSome then [
      ("voice", (audio_out.lookup "voice").getD .null),
      ("input_audio_format", text "pcm"),
      ("output_audio_format", text "pcm"),
      ("turn_detection", turn),
      ("input_audio_transcription", (audio_in.lookup "transcription").getD .null)]
    else []
  match canonical.lookup "tools" with
  | none => some (without_none_members session)
  | some tools => (provider_tools tools).map fun l =>
      without_none_members (session ++ member "tools" (some (.list l)))

/-- The two adapters. -/
inductive Provider where | openai | qwen
  deriving DecidableEq

/-- `provider.session_update`. -/
def Provider.session_update : Provider → Obj → Option Obj
  | .openai => openai_session
  | .qwen => qwen_session

end LocalVoice.RealtimeProvider
