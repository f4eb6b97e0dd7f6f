import Mathlib.Data.Int.Notation
import LocalVoice.Lib.Dict
import LocalVoice.Lib.PyText

/-! `actions.yaml` as `ActionsManager` of `agent/ovs_agent/actuators/actions.py` reads it and writes it.

        bytes ──safe_load──▶ value ──poses collapsed──▶ sequences ──names, frames──▶ action map
          ▲                                                                            │
          └───────safe_dump─────── payload ◀──────────────serialize──────────────────┘

    What the loader passes by is kept apart here: `stray` are the poses that do not become sequences, and
    `leftover` is what an entry has that its action does not. -/

namespace LocalVoice.ActionsManager
open LocalVoice.Lib

/-! ### Values -/

/-- A key of a mapping: a text, or `str()` of anything else. -/
inductive Key where
  | str (s : String)
  | other (text : String)
  deriving DecidableEq

/-- `str(k)`. -/
def Key.text : Key → String
  | .str s => s
  | .other text => text

/-- What `yaml.safe_load` returns, over some type of floats; `other` is a date, bytes or a set, with its
    truth value. -/
inductive Yaml (F : Type) where
  | null
  | bool (b : Bool)
  | int (n : ℤ)
  | float (f : F)
  | str (s : String)
  | other (truth : Bool)
  | list (items : List (Yaml F))
  | dict (items : List (Key × Yaml F))

/-- What Python raises on a value: a `TypeError` or `ValueError`, an `OverflowError`, or that the file
    is no UTF-8. -/
inductive Raised where
  | invalid
  | overflow
  | undecodable

/-- The outcome of `yaml.safe_load` on a file; `bad` is a `YAMLError`. -/
inductive Parsed (F : Type) where
  | undecodable
  | bad
  | data (value : Yaml F)

/-- What the manager relies on: `float()` of a value that is no float yet, the test `v == 0.0`, the test
    of a delay against its bounds, the two default delays, whether the loop over `poses` raises when
    `sequences` is no mapping, PyYAML over UTF-8, and the digest of a file. -/
structure Env (F Bytes : Type) where
  convert : Yaml F → Except Raised F
  is_zero : F → Bool
  delay_ok : F → Bool
  default_delay : F
  pose_delay : F
  clash : Yaml F → List (Key × Yaml F) → Bool
  parse : Bytes → Parsed F
  dump : Yaml F → Option Bytes
  size : Bytes → ℕ
  etag : Bytes → String

section
variable {F Bytes : Type} (env : Env F Bytes)

/-- `float(v)`. -/
def float : Yaml F → Except Raised F
  | .float f => .ok f
  | .null | .list _ | .dict _ => .error .invalid
  | v => env.convert v

/-- `bool(v)`. -/
def truth : Yaml F → Bool
  | .null => false
  | .bool b => b
  | .int n => n ≠ 0
  | .float f => !env.is_zero f
  | .str s => s ≠ ""
  | .other t => t
  | .list items => !items.isEmpty
  | .dict items => !items.isEmpty

/-- `v or {}`. -/
def or_empty (v : Option (Yaml F)) : Yaml F := (v.filter (truth env)).getD (.dict [])

/-- The dictionary, if the value is one. -/
def Yaml.as_dict : Yaml F → Option (Dict Key (Yaml F))
  | .dict items => some (Dict.empty.update items)
  | _ => none

/-! ### Actions -/

def is_lower (c : Char) : Bool := 'a' ≤ c && c ≤ 'z'

def is_word (c : Char) : Bool := is_lower c || ('0' ≤ c && c ≤ '9') || c = '_'

/-- `NAME_RE.match(name)`; the `$` of the pattern is met in front of a last line break, too. -/
def name_ok (s : String) : Bool :=
  match s.toList with
  | [] => false
  | c :: rest => is_lower c && (if rest.getLast? = some '\n' then rest.dropLast else rest).all is_word

/-- A name that the manager accepts. -/
structure Name where
  text : String
  ok : name_ok text = true
  deriving DecidableEq

instance : LE Name := ⟨fun a b => a.text ≤ b.text⟩

instance : DecidableLE Name := fun a b => inferInstanceAs (Decidable (a.text ≤ b.text))

def Key.name? : Key → Option Name
  | .str s => if h : name_ok s = true then some ⟨s, h⟩ else none
  | .other _ => none

/-- A text with no space at its ends. -/
structure Stripped where
  text : String
  stripped : PyText.strip text = text
  deriving DecidableEq

/-- `s.strip()`. -/
def Stripped.of (s : String) : Stripped := ⟨PyText.strip s, PyText.strip_strip s⟩

def Stripped.empty : Stripped := ⟨"", by decide⟩

structure Frame (F : Type) where
  joints : Dict String F
  delay : F

/-- An action; an empty `response_mode` or `completion_text` is one that is not there. -/
structure Entry (F : Type) where
  description : Stripped
  frames : List (Frame F)
  response_mode : Stripped
  completion_text : Stripped

/-- `_action_map`. -/
abbrev ActionMap (F : Type) := Dict Name (Entry F)

/-! ### Loading -/

/-- `{str(k): float(v) for k, v in items}`. -/
def floats (items : List (Key × Yaml F)) : Except Raised (Dict String F) :=
  (items.mapM fun p => (float env p.2).map fun f => (p.1.text, f)).map Dict.empty.update

/-- A frame of `_coerce_frames`: without a dictionary of joints, all but the delay are joints. -/
def coerce_frame (frame : Dict Key (Yaml F)) : Except Raised (Frame F) := do
  let joints ← floats env <| match (frame.get? (.str "joints")).bind Yaml.as_dict with
    | some joints => joints.items
    | none => (frame.erase (.str "delay")).items
  let delay ← match frame.get? (.str "delay") with
    | some v => float env v
    | none => .ok env.default_delay
  return ⟨joints, delay⟩

/-- The frames of an entry, in either shape. -/
def frame_list : Yaml F → Option (List (Yaml F))
  | .list items => some items
  | .dict items => match (Dict.empty.update items).get? (.str "frames") with
    | some (.list frames) => some frames
    | _ => none
  | _ => none

/-- `_coerce_frames`. -/
def coerce_frames (sdata : Yaml F) : Except Raised (Option (List (Frame F))) :=
  match frame_list sdata with
  | some items => ((items.filterMap Yaml.as_dict).mapM (coerce_frame env)).map some
  | none => .ok none

/-- `sdata.get(key, "").strip()`, of a mapping that has a text there. -/
def text_of (key : String) (sdata : Yaml F) : Stripped :=
  match sdata.as_dict.bind (·.get? (.str key)) with
  | some (.str s) => .of s
  | _ => .empty

/-- What an entry is read as. -/
def read_entry (sdata : Yaml F) : Except Raised (Option (Entry F)) :=
  (coerce_frames env sdata).map fun frames => frames.map fun frames =>
    ⟨text_of "description" sdata, frames, text_of "response_mode" sdata, text_of "completion_text" sdata⟩

/-- The loop over `sequences.items()`. -/
def read : List (Key × Yaml F) → ActionMap F → Except Raised (ActionMap F)
  | [], map => .ok map
  | (sname, sdata) :: rest, map => do
    let entry ← read_entry env sdata
    read rest <| match entry, sname.name? with
      | some entry, some name => map.set name entry
      | _, _ => map

/-- What a file has for the loader, after the poses, and what the loader does not look at. -/
structure Document (F : Type) where
  sequences : Dict Key (Yaml F)
  stray : List (Key × Yaml F)

def Document.empty : Document F := ⟨.empty, []⟩

/-- The loop over `poses.items()`: a pose with joints becomes a sequence of one frame, if there is none
    of its name yet. -/
def collapse : List (Key × Yaml F) → Document F → Document F
  | [], doc => doc
  | (pname, pdata) :: rest, doc =>
    if (doc.sequences.get? pname).isSome then
      collapse rest { doc with stray := doc.stray ++ [(pname, pdata)] }
    else match pdata.as_dict.bind (·.get? (.str "joints")) with
    | some (.dict joints) => collapse rest ⟨doc.sequences.set pname
        (.list [.dict [(.str "joints", .dict joints), (.str "delay", .float env.pose_delay)]]),
        doc.stray ++ (if pdata.as_dict.all fun d => d.keys.all (· = .str "joints") then []
          else [(pname, pdata)])⟩
    | _ => collapse rest { doc with stray := doc.stray ++ [(pname, pdata)] }

/-- The part of `_load_from_disk` up to the loop over the sequences. -/
def open_document (file : Option Bytes) : Except Raised (Document F) :=
  match file.map env.parse with
  | none => .ok .empty
  | some .undecodable => .error .undecodable
  | some .bad => .ok .empty
  | some (.data value) =>
    match (or_empty env value).as_dict with
    | none => .ok .empty
    | some data =>
      let sequences := or_empty env (data.get? (.str "sequences"))
      let poses := (((or_empty env (data.get? (.str "poses"))).as_dict).map Dict.items).getD []
      match sequences.as_dict with
      | some sequences => .ok (collapse env poses ⟨sequences, []⟩)
      | none => if env.clash sequences poses then .error .invalid else .ok ⟨.empty, poses⟩

/-- `_load_from_disk`. -/
def load (file : Option Bytes) : Except Raised (ActionMap F) := do
  let doc ← open_document env file
  read env doc.sequences.items .empty

/-! ### What the loader passes by -/

/-- What a frame has that is read neither as a joint nor as the delay. -/
def leftover_frame (frame : Yaml F) : List (Yaml F) :=
  match frame.as_dict with
  | none => [frame]
  | some d => match (d.get? (.str "joints")).bind Yaml.as_dict with
    | some _ => (d.items.filter fun p => p.1 ≠ .str "joints" && p.1 ≠ .str "delay").map Prod.snd
    | none => []

/-- The value is read under the key of an entry. -/
def is_read : Key × Yaml F → Bool
  | (.str "frames", .list _) => true
  | (.str "description", .str _) => true
  | (.str "response_mode", .str _) => true
  | (.str "completion_text", .str _) => true
  | _ => false

/-- What an entry has that its action does not. -/
def leftover (sdata : Yaml F) : List (Yaml F) :=
  ((sdata.as_dict.map fun d => (d.items.filter fun p => !is_read p).map Prod.snd).getD []) ++
    ((frame_list sdata).getD []).flatMap leftover_frame

/-! ### Serialising -/

def serialize_frame (frame : Frame F) : Yaml F :=
  .dict [(.str "joints", .dict (frame.joints.items.map fun p => (.str p.1, .float p.2))),
    (.str "delay", .float frame.delay)]

/-- A key that is written when its text is not empty. -/
def optional (key : String) (text : Stripped) : List (Key × Yaml F) :=
  if text.text = "" then [] else [(.str key, .str text.text)]

/-- `out` of `_serialize_entry`. -/
def mapping (entry : Entry F) : List (Key × Yaml F) :=
  optional "description" entry.description ++ optional "response_mode" entry.response_mode ++
    optional "completion_text" entry.completion_text ++
    [(.str "frames", .list (entry.frames.map serialize_frame))]

/-- `_serialize_entry`. -/
def serialize_entry (entry : Entry F) : Yaml F :=
  if entry.description.text = "" ∧ entry.response_mode.text = "" ∧ entry.completion_text.text = "" then
    .list (entry.frames.map serialize_frame)
  else .dict (mapping entry)

/-- `{"sequences": {k: self._serialize_entry(new_map[k]) for k in sorted(new_map.keys())}}`. -/
def payload (map : ActionMap F) : Yaml F :=
  .dict [(.str "sequences",
    .dict (map.sort_keys.items.map fun p => (.str p.1.text, serialize_entry p.2)))]

end

end LocalVoice.ActionsManager
