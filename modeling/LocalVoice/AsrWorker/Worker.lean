import LocalVoice.Lib.Dict
import LocalVoice.Lib.Run
import LocalVoice.AsrWorker.Requests
import Mathlib.Data.Nat.Digits.Defs

/-! The stdin loop of `qwen3_asr_worker.cpp`: sessions that begin, get chunks and end, each on a lane of
    its own, one-shot requests, and the idle sweep. A handler that throws ends the process, and so does
    a text that `dump()` does not take; what the engine makes of a request is up to it. -/

namespace LocalVoice.AsrWorker
open LocalVoice.Lib

/-- What happens while a line is handled: the engine, the files that others wrote, whether
    `pcmB64ToMelSafetensors` fails, and else the ticks since the mel file before, the lane the pool gives,
    and the clock. -/
structure Env where
  engine : Engine
  disk : Disk
  mel : Except Bytes ℕ
  pick : ℕ
  now : ℕ

/-! ### Sessions -/

/-- A `SessionState`. The grant is not in the code: it numbers what the pool gave. -/
structure Session where
  laneId : ℕ
  melPath : Bytes
  melPathOwned : Bytes
  pcmB64 : Bytes
  beginMeta : Fields
  lastActivity : ℕ
  rawDecoded : Bytes
  chunkId : ℕ
  grant : ℕ

/-- The events on stdout, with the texts in them that are no literals. -/
inductive Event where
  | json_parse_failed (what : Bytes)
  | response (id : Bytes) (core : Core)
  | begin_missing_id
  | begin_ack (id : Bytes) (lane : ℕ)
  | pool_saturated (id : Bytes)
  | unknown_session (id : Bytes)
  | pcm_input_unsupported (id : Bytes)
  | pcm_to_mel_failed (id detail : Bytes)
  | chunk_ack (id : Bytes)
  | partial_text (id text : Bytes)
  | partial_decode_failed (id : Bytes) (detail : Option Bytes)
  | final (id : Bytes) (ok : Bool) (responses : List Bytes) (text error : Option Bytes)
  | no_audio_accumulated (id : Bytes)
  | unknown_event (received id : Bytes)
  | timeout (id : Bytes)

def Core.texts (core : Core) : List Bytes := core.responses.getD [] ++ core.error.toList

def Event.texts : Event → List Bytes
  | .json_parse_failed what => [what]
  | .response id core => id :: core.texts
  | .begin_missing_id => []
  | .begin_ack id _ | .pool_saturated id | .unknown_session id | .pcm_input_unsupported id
  | .chunk_ack id | .no_audio_accumulated id | .timeout id => [id]
  | .pcm_to_mel_failed id detail => [id, detail]
  | .partial_text id text => [id, text]
  | .partial_decode_failed id detail => id :: detail.toList
  | .final id _ responses text error => id :: responses ++ text.toList ++ error.toList
  | .unknown_event received id => [received, id]

/-- `dump()` takes it. -/
def Event.dumps (ev : Event) : Bool := ev.texts.all utf8

/-- The flags and assets a worker runs with: `mel` is `gMelExtractor`, as the contents of the mel file that
    it makes of a pcm. -/
structure Config where
  max_slots : ℕ
  mel : Option (Bytes → Bytes)
  prefix_path : Bool
  final_one_shot : Bool
  tokenizer : Option Tokenizer
  unfixedChunkNum : ℕ
  unfixedTokenNum : ℕ
  temp_dir : Bytes

/-- A worker: `sessions` is `gSessions`, `held` are the lanes that are acquired, `files` the mel files it
    made and that exist, `ticks` the clock in the name of the last one, `events` what it wrote, with the
    number of the line that was handled. The grants given and released, the number of lines that were
    handled and the flag are not in the code. -/
structure Worker where
  sessions : Dict Bytes Session
  held : List ℕ
  granted : ℕ
  released : List ℕ
  files : Dict Bytes Bytes
  ticks : ℕ
  events : List (Option ℕ × Event)
  lines : ℕ
  aborted : Bool

namespace Worker
variable (cfg : Config) (w : Worker)

def init : Worker := ⟨.empty, [], 0, [], .empty, 0, [], 0, false⟩

/-- `std::cout << ev.dump()`, in the handling of a line. -/
def print (ev : Event) : Option Worker :=
  if ev.dumps then some { w with events := w.events ++ [(some w.lines, ev)] } else none

/-- `SessionLaneManager::acquire`: some free lane, if there is one. -/
def acquire (pick : ℕ) : Option ℕ :=
  let free := (List.range cfg.max_slots).filter (· ∉ w.held)
  if pick ∈ free then some pick else free.head?

/-- `gSessions.emplace` on a lane that was acquired. -/
def emplace (sid : Bytes) (lane now : ℕ) (beginMeta : Fields) : Worker :=
  { w with
    sessions := w.sessions.set sid ⟨lane, [], [], [], beginMeta, now, [], 0, w.granted⟩
    held := w.held ++ [lane]
    granted := w.granted + 1 }

def put (sid : Bytes) (st : Session) : Worker := { w with sessions := w.sessions.set sid st }

/-- `std::filesystem::remove`. -/
def remove (path : Bytes) : Worker := { w with files := w.files.erase path }

/-- What the engine can read. -/
def readable (disk : Disk) : Disk := fun path => (w.files.get? path).or (disk path)

/-- The lane is released, and the session dropped. -/
def drop (sid : Bytes) (st : Session) : Worker :=
  { w with
    sessions := w.sessions.erase sid
    held := w.held.filter (· ≠ st.laneId)
    released := w.released ++ [st.grant] }

end Worker

/-! ### Handlers -/

/-- `safeId` of `pcmB64ToMelSafetensors`. -/
def safe_id (sid : Bytes) : Bytes :=
  (if sid = [] then ascii "s" else sid).map fun b =>
    if within 0x30 0x39 b || within 0x61 0x7A b || within 0x41 0x5A b || b = 0x5F || b = 0x2D then b
    else 0x5F

/-- `std::to_string`. -/
def to_string (n : ℕ) : Bytes := (Nat.digits 10 n).reverse.map fun d => UInt8.ofNat (0x30 + d)

/-- The name of the file that `pcmB64ToMelSafetensors` writes. -/
def mel_file (cfg : Config) (sid : Bytes) (ticks : ℕ) : Bytes :=
  cfg.temp_dir ++ ascii "/qwen3_asr_pcm_mel_" ++ safe_id sid ++ ascii "_" ++ to_string ticks ++
    ascii ".safetensors"

/-- What `pcmB64ToMelSafetensors` leaves; the clock has gone on since the file before. -/
def Worker.write_mel (cfg : Config) (w : Worker) (extract : Bytes → Bytes) (sid pcmB64 : Bytes)
    (elapsed : ℕ) : Worker × Bytes :=
  let path := mel_file cfg sid (w.ticks + elapsed + 1)
  ({ w with files := w.files.set path (extract pcmB64), ticks := w.ticks + elapsed + 1 }, path)

/-- The audio that a line carries. -/
def Session.carry (st : Session) (input : Fields) : Session :=
  { st with
    melPath := (carried_path input).getD st.melPath
    pcmB64 := (string? input "pcm_b64").getD st.pcmB64 }

/-- `st.lastActivity = now`. -/
def Session.touch (st : Session) (now : ℕ) : Session := { st with lastActivity := now }

/-- What `runPrefixHop` returns: the continuation, or the error. -/
structure HopOut where
  ok : Bool
  generated : Bytes
  error : Option Bytes

/-- `buildFinalizeRequest`. -/
def buildFinalizeRequest (sid : Bytes) (st : Session) : Json :=
  one_shot_request sid st.beginMeta st.melPath

/-- `buildPrefixRequest`. -/
def buildPrefixRequest (sid : Bytes) (st : Session) (kept : Bytes) : Json :=
  prefix_request sid st.beginMeta st.melPath kept

def runPrefixHop (sid : Bytes) (st : Session) (kept : Bytes) (engine : Engine) (disk : Disk) : HopOut :=
  let core := runOneShotCore (buildPrefixRequest sid st kept) engine disk
  ⟨core.ok, if core.ok then parseAsrText core.output_text else [], if core.ok then none else core.error⟩

/-- `computePrefix` of a session. -/
def prefix_of (cfg : Config) (st : Session) (isFinish : Bool) : Option Bytes :=
  computePrefix cfg.tokenizer cfg.unfixedChunkNum cfg.unfixedTokenNum st.rawDecoded st.chunkId isFinish

namespace Worker
variable (cfg : Config) (w : Worker)

/-- `handleBegin`. -/
def handleBegin (input : Fields) (env : Env) : Option Worker := do
  let sid ← value_str input "id"
  if sid = [] then w.print .begin_missing_id
  else match w.sessions.get? sid with
  | some st => (w.put sid (st.touch env.now)).print (.begin_ack sid st.laneId)
  | none => match w.acquire cfg env.pick with
    | none => w.print (.pool_saturated sid)
    | some lane => (w.emplace sid lane env.now (begin_meta input)).print (.begin_ack sid lane)

/-- The pcm that an `end` carries, as a mel file: the session, the files, and the final event if that
    fails. -/
def end_pcm (sid : Bytes) (st : Session) (carried : Bool) (env : Env) : Worker × Session × Option Event :=
  if carried then
    match cfg.mel with
    | none => (w, st, some (.pcm_input_unsupported sid))
    | some extract =>
      let w := w.remove st.melPathOwned
      match env.mel with
      | .ok elapsed =>
        let (w, path) := w.write_mel cfg extract sid st.pcmB64 elapsed
        (w, { st with melPathOwned := path, melPath := path }, none)
      | .error what => (w, { st with melPath := [] }, some (.pcm_to_mel_failed sid what))
  else (w, st, none)

/-- The `final` that a one-shot response is shaped into. -/
def final_of (sid : Bytes) (core : Core) : Event :=
  .final sid core.ok (core.responses.getD []) (if core.ok then some (transcriptFromCore core) else none)
    core.error

/-- The final event of a session; `none` when the tokenizer throws. -/
def final_event (sid : Bytes) (st : Session) (env : Env) : Option Event :=
  if st.melPath = [] then some (.no_audio_accumulated sid)
  else if cfg.prefix_path && !cfg.final_one_shot then
    (prefix_of cfg st true).map fun kept =>
      let hop := runPrefixHop sid st kept env.engine (w.readable env.disk)
      let finalRaw := kept ++ hop.generated
      .final sid hop.ok (if hop.ok then [finalRaw] else [])
        (if hop.ok then some (stripLangTag finalRaw) else none) hop.error
  else some (final_of sid
    (runOneShotCore (buildFinalizeRequest sid st) env.engine (w.readable env.disk)))

/-- `handleEnd`. -/
def handleEnd (input : Fields) (env : Env) : Option Worker := do
  let sid ← value_str input "id"
  match w.sessions.get? sid with
  | none => w.print (.unknown_session sid)
  | some session =>
    let (w, st, failed) := w.end_pcm cfg sid (session.carry input) (string? input "pcm_b64").isSome env
    let finalEv ← failed.or (w.final_event cfg sid st env)
    (((w.remove session.melPathOwned).remove st.melPathOwned).drop sid st).print finalEv

/-- The pcm so far, as a mel file, for a hop: the session, the files, and the error event. -/
def hop_pcm (sid : Bytes) (st : Session) (env : Env) : Worker × Session × Option Event :=
  if st.pcmB64 = [] then (w, st, none)
  else match cfg.mel with
    | none => (w, st, some (.pcm_input_unsupported sid))
    | some extract =>
      let w := w.remove st.melPathOwned
      match env.mel with
      | .ok elapsed =>
        let (w, path) := w.write_mel cfg extract sid st.pcmB64 elapsed
        (w, { st with melPathOwned := path, melPath := path }, none)
      | .error what => (w, st, some (.pcm_to_mel_failed sid what))

/-- A hop of the session: the session after it and its event; `none` when the tokenizer throws. -/
def hop (sid : Bytes) (st : Session) (env : Env) : Option (Session × Event) :=
  if st.melPath = [] && st.pcmB64 = [] then some (st, .chunk_ack sid)
  else if cfg.prefix_path then
    (prefix_of cfg st false).map fun kept =>
      let hop := runPrefixHop sid st kept env.engine (w.readable env.disk)
      if hop.ok then
        ({ st with rawDecoded := kept ++ hop.generated, chunkId := st.chunkId + 1 },
          .partial_text sid (stripLangTag (kept ++ hop.generated)))
      else (st, .partial_decode_failed sid hop.error)
  else
    let core := runOneShotCore (buildFinalizeRequest sid st) env.engine (w.readable env.disk)
    some (st, if core.ok then .partial_text sid (transcriptFromCore core)
      else .partial_decode_failed sid core.error)

/-- `handleChunk`. -/
def handleChunk (input : Fields) (env : Env) : Option Worker := do
  let sid ← value_str input "id"
  match w.sessions.get? sid with
  | none => w.print (.unknown_session sid)
  | some session =>
    let st := (session.carry input).touch env.now
    let w := w.put sid st
    let isLast ← value_bool input "last"
    if isLast then w.handleEnd cfg input env
    else match w.hop_pcm cfg sid st env with
    | (w, st, some failed) => (w.put sid st).print failed
    | (w, st, none) => do
      let (st, ev) ← w.hop cfg sid st env
      (w.put sid st).print ev

/-- A line that `Json::parse` took. -/
def handle (parsed : Json) (env : Env) : Option Worker :=
  match parsed with
  | .object input =>
    if (input.lookup (ascii "event")).isNone then
      w.print (.response ((value_str input "id").getD [])
        (runOneShotCore parsed env.engine (w.readable env.disk)))
    else do
      let event ← value_str input "event"
      if event = ascii "begin" then w.handleBegin cfg input env
      else if event = ascii "chunk" then w.handleChunk cfg input env
      else if event = ascii "end" then w.handleEnd cfg input env
      else do
        let evId ← value_str input "id"
        w.print (.unknown_event event evId)
  | parsed => w.print (.response [] (runOneShotCore parsed env.engine (w.readable env.disk)))

/-- A line. -/
def handle_line (parse : Bytes → Except Bytes Json) (line : Bytes) (env : Env) : Option Worker :=
  match parse line with
  | .error what => w.print (.json_parse_failed what)
  | .ok parsed => w.handle cfg parsed env

def kIdleTimeoutMs : ℕ := 30000

/-- The sessions that are reaped by a sweep. -/
def idle (now : ℕ) : List (Bytes × Session) :=
  w.sessions.items.filter fun e => e.2.lastActivity + kIdleTimeoutMs < now

/-- One session is reaped. -/
def reap (e : Bytes × Session) : Option Worker :=
  if (Event.timeout e.1).dumps then
    let w := (w.remove e.2.melPathOwned).drop e.1 e.2
    some { w with events := w.events ++ [(none, .timeout e.1)] }
  else none

/-- `sweepIdleSessions`. -/
def sweep (now : ℕ) : Option Worker := (w.idle now).foldlM reap w

end Worker

inductive Label where
  | line (line : Bytes) (env : Env)
  | sweep (now : ℕ)

/-- A step of the loop; a process that ended takes none. -/
def Worker.next (cfg : Config) (parse : Bytes → Except Bytes Json) (w : Worker) : Label → Option Worker
  | .line line env =>
    if w.aborted then none
    else if line = [] then some w
    else some (((w.handle_line cfg parse line env).map fun w => { w with lines := w.lines + 1 }).getD
      { w with aborted := true })
  | .sweep now => if w.aborted then none else some ((w.sweep now).getD { w with aborted := true })

def step (cfg : Config) (parse : Bytes → Except Bytes Json) (w : Worker) (a : Label) (w' : Worker) : Prop :=
  w.next cfg parse a = some w'

end LocalVoice.AsrWorker
