import Mathlib.Data.Nat.Notation

/-! The texts of `deploy/asr-worker-v080/qwen3_asr_worker.cpp`: what `nlohmann::json` takes as UTF-8 when
    it dumps, how the language tag is stripped from a transcript, and the confirmed prefix that a hop
    keeps. -/

namespace LocalVoice.AsrWorker

/-- A `std::string`. -/
abbrev Bytes := List UInt8

/-- The bytes of an ASCII literal. -/
def ascii (s : String) : Bytes := s.toList.map fun c => UInt8.ofNat c.toNat

/-! ### UTF-8 -/

def within (lo hi b : UInt8) : Bool := lo ≤ b && b ≤ hi

/-- Well-formed UTF-8: nothing overlong, no surrogate, nothing above U+10FFFF. -/
def utf8 : Bytes → Bool
  | [] => true
  | a :: rest =>
    if a < 0x80 then utf8 rest
    else match rest with
    | [] => false
    | b :: rest =>
      if within 0xC2 0xDF a then within 0x80 0xBF b && utf8 rest
      else match rest with
      | [] => false
      | c :: rest =>
        if within 0xE0 0xEF a then
          within (if a = 0xE0 then 0xA0 else 0x80) (if a = 0xED then 0x9F else 0xBF) b &&
            within 0x80 0xBF c && utf8 rest
        else match rest with
        | [] => false
        | d :: rest =>
          within 0xF0 0xF4 a &&
            within (if a = 0xF0 then 0x90 else 0x80) (if a = 0xF4 then 0x8F else 0xBF) b &&
            within 0x80 0xBF c && within 0x80 0xBF d && utf8 rest

/-! ### The language tag -/

def to_lower (b : UInt8) : UInt8 := if within 0x41 0x5A b then b + 0x20 else b

/-- `asciiIEqualsAt(s, pos, lit)`. -/
def asciiIEqualsAt (s : Bytes) (pos : ℕ) (lit : Bytes) : Bool :=
  (lit.map to_lower).isPrefixOf ((s.drop pos).map to_lower)

def kLanguages : List String :=
  ["Chinese", "English", "Cantonese", "Japanese", "Korean", "French", "German", "Spanish",
    "Italian", "Portuguese", "Russian", "Arabic", "Hindi", "Bengali", "Urdu", "Indonesian",
    "Malay", "Vietnamese", "Thai", "Turkish", "Dutch", "Polish", "Ukrainian", "Swedish",
    "Norwegian", "Danish", "Finnish", "Greek", "Hebrew", "Persian", "Czech", "Slovak",
    "Hungarian", "Romanian", "Bulgarian", "Croatian", "Serbian", "Tamil", "Telugu",
    "Marathi", "Gujarati", "Kannada", "Malayalam", "Punjabi", "Nepali", "Sinhala",
    "Burmese", "Khmer", "Lao", "Mongolian", "Tibetan", "Uyghur"]

/-- `knownAsrLanguagePrefixLen(s, pos)`. -/
def knownAsrLanguagePrefixLen (s : Bytes) (pos : ℕ) : ℕ :=
  kLanguages.foldl (fun best lang =>
    if best < (ascii lang).length && asciiIEqualsAt s pos (ascii lang) then (ascii lang).length
    else best) 0

def is_blank (b : UInt8) : Bool := b = 0x20 || b = 0x09 || b = 0x0D || b = 0x0A

def kTag : Bytes := ascii "language "
def kAsrTextTag : Bytes := ascii "<asr_text>"

/-- `stripLangTag(s)`. -/
def stripLangTag (s : Bytes) : Bytes :=
  if !asciiIEqualsAt s 0 kTag then s
  else if asciiIEqualsAt s kTag.length kAsrTextTag then s.drop (kTag.length + kAsrTextTag.length)
  else
    let langLen := knownAsrLanguagePrefixLen s kTag.length
    if langLen = 0 then s
    else
      let rest := (s.drop (kTag.length + langLen)).dropWhile is_blank
      if asciiIEqualsAt rest 0 kAsrTextTag then rest.drop kAsrTextTag.length else rest

/-- What stands behind the first occurrence of `tag`. -/
def after (tag : Bytes) : Bytes → Option Bytes
  | [] => if tag = [] then some [] else none
  | b :: rest => if tag.isPrefixOf (b :: rest) then some ((b :: rest).drop tag.length) else after tag rest

/-- `parseAsrText(raw)`. -/
def parseAsrText (raw : Bytes) : Bytes := (after kAsrTextTag raw).getD (stripLangTag raw)

/-! ### The confirmed prefix -/

/-- `encode` and `decode` of the tokenizer; `none` when one of them throws. -/
structure Tokenizer where
  encode : Bytes → Option (List ℕ)
  decode : List ℕ → Option Bytes

def kUtf8Replacement : Bytes := [0xEF, 0xBF, 0xBD]

/-- The loop of `computePrefix`, where it keeps the first `stop` tokens: while the cut splits a character,
    one more token is rolled back, down to `least`. -/
def roll_back (tok : Tokenizer) (tokens : List ℕ) (least : ℕ) : ℕ → Option Bytes
  | 0 => some []
  | stop + 1 =>
    match tok.decode (tokens.take (stop + 1)) with
    | none => none
    | some keep =>
      if (after kUtf8Replacement keep).isNone || stop + 1 ≤ least then some keep
      else roll_back tok tokens least stop

/-- `computePrefix(st, isFinish)`, of the raw transcript and the number of hops so far. -/
def computePrefix (tok : Option Tokenizer) (unfixedChunkNum unfixedTokenNum : ℕ) (rawDecoded : Bytes)
    (chunkId : ℕ) (isFinish : Bool) : Option Bytes :=
  match tok with
  | none => some []
  | some tok =>
    if rawDecoded = [] || chunkId < unfixedChunkNum then some []
    else match tok.encode rawDecoded with
    | none => none
    | some tokens =>
      if tokens = [] then some []
      else
        let least := if isFinish then 1 else 0
        roll_back tok tokens least (max least (tokens.length - unfixedTokenNum))

example : stripLangTag (ascii "Language EnglishGo home.") = ascii "Go home." := by
  decide +kernel

/-! The requests of `qwen3_asr_worker.cpp`: the fields of a line, the envelope that a session replays for
    each decode, and `runOneShotCore` over an engine that is given the request and the files it can read. -/

/-! ### Lines -/

/-- What `Json::parse` returns; a number is kept as it is written. -/
inductive Json where
  | null
  | bool (b : Bool)
  | number (text : Bytes)
  | str (s : Bytes)
  | array (items : List Json)
  | object (items : List (Bytes × Json))

def Json.type_name : Json → String
  | .null => "null"
  | .bool _ => "boolean"
  | .number _ => "number"
  | .str _ => "string"
  | .array _ => "array"
  | .object _ => "object"

/-- The fields of an object. -/
abbrev Fields := List (Bytes × Json)

/-- `input.value(key, "")`; `none` when it throws. -/
def value_str (input : Fields) (key : String) : Option Bytes :=
  match input.lookup (ascii key) with
  | none => some []
  | some (.str s) => some s
  | some _ => none

/-- `input.value(key, false)`. -/
def value_bool (input : Fields) (key : String) : Option Bool :=
  match input.lookup (ascii key) with
  | none => some false
  | some (.bool b) => some b
  | some _ => none

/-- `input[key]`, where it is a string. -/
def string? (input : Fields) (key : String) : Option Bytes :=
  match input.lookup (ascii key) with
  | some (.str s) => some s
  | _ => none

/-- `mel_path`, else `audio`. -/
def carried_path (input : Fields) : Option Bytes :=
  (string? input "mel_path").or (string? input "audio")

/-! ### The engine -/

/-- What `runOneShotCore` returns: `ok`, the output texts, the error. -/
structure Core where
  ok : Bool
  responses : Option (List Bytes)
  error : Option Bytes

/-- The contents of files; `none` where there is none. -/
abbrev Disk := Bytes → Option Bytes

/-- What the engine makes of a request: something throws, or there are output texts. -/
inductive Answer where
  | threw (what : Bytes)
  | served (ok : Bool) (texts : List Bytes)

/-- An engine answers by the request, without its `id`, and the files. -/
abbrev Engine := Fields → Disk → Answer

/-- `runOneShotCore`; an `id` that is no text throws within it. -/
def runOneShotCore (input : Json) (engine : Engine) (disk : Disk) : Core :=
  match input with
  | .object fields =>
    match value_str fields "id" with
    | none => ⟨false, none, some (ascii ("[json.exception.type_error.302] type must be string, but is " ++
        (((fields.lookup (ascii "id")).map Json.type_name).getD "null")))⟩
    | some _ =>
      match engine (fields.filter (·.1 ≠ ascii "id")) disk with
      | .threw what => ⟨false, none, some what⟩
      | .served ok texts => ⟨ok, some texts, none⟩
  | input => ⟨false, none, some (ascii ("[json.exception.type_error.306] cannot use value() with " ++
      input.type_name))⟩

/-- The first output text. -/
def Core.output_text (core : Core) : Bytes := (core.responses.bind List.head?).getD []

/-- `transcriptFromCore(core)`. -/
def transcriptFromCore (core : Core) : Bytes := stripLangTag core.output_text

/-! ### The envelope -/

/-- The knobs of `begin` that are replayed. -/
def meta_keys : List String := ["batch_size", "temperature", "top_p", "top_k", "max_generate_length"]

def begin_meta (input : Fields) : Fields :=
  meta_keys.filterMap fun key => (input.lookup (ascii key)).map (ascii key, ·)

def meta_defaults : List (String × String) :=
  [("batch_size", "1"), ("temperature", "1.0"), ("top_p", "1.0"), ("top_k", "1"),
    ("max_generate_length", "256")]

/-- `if (!req.contains(key)) req[key] = value`, for each of the knobs. -/
def with_defaults (req : Fields) : Fields :=
  meta_defaults.foldl (fun req kv =>
    if (req.lookup (ascii kv.1)).isSome then req else req ++ [(ascii kv.1, .number (ascii kv.2))]) req

def text (s : String) : Json := .str (ascii s)

def object (items : List (String × Json)) : Json := .object (items.map fun kv => (ascii kv.1, kv.2))

/-- The content of the user message; it is empty without a mel file. -/
def user_content (melPath : Bytes) : Json :=
  .array (if melPath = [] then [] else [object [("type", text "audio"), ("audio", .str melPath)]])

def user_message (melPath : Bytes) : Json :=
  object [("role", text "user"), ("content", user_content melPath)]

def requests (messages : List Json) : Json :=
  .array [object [("messages", .array messages), ("reference", text "ref")]]

/-- The one-shot request for a mel file, in the envelope of `begin`. -/
def one_shot_request (sid : Bytes) (beginMeta : Fields) (melPath : Bytes) : Json :=
  .object (with_defaults beginMeta ++
    [(ascii "id", .str sid), (ascii "requests", requests [user_message melPath])])

/-- `buildPrefixRequest`, where the hop is not capped. -/
def prefix_request (sid : Bytes) (beginMeta : Fields) (melPath kept : Bytes) : Json :=
  .object (with_defaults beginMeta ++
    [(ascii "id", .str sid), (ascii "apply_chat_template", .bool true),
      (ascii "max_generate_length_override", .number (ascii "-1")),
      (ascii "add_generation_prompt", .bool (kept = [])),
      (ascii "requests", requests (user_message melPath ::
        if kept = [] then [] else [object [("role", text "assistant"), ("content", .str kept)]]))])

end LocalVoice.AsrWorker
