import LocalVoice.Lib.Run
import LocalVoice.Lib.Utf8
import LocalVoice.RK1828.Lines

/-! `Qwen3Worker.generate` and `_run_request` of `services/rk1828-llm/rk1828_llm_server.py` against the
    request loop of `patches/Qwen3-cpp-main.cc`: calls, each with a thread of its own that takes the
    lock, writes its line and reads the answer; the worker, which answers line by line and may die at
    any byte; the pipes between them. A request is one line (`request_line_clean`), so it stands here
    by its number.

        waiting ─▶ locked ─▶ header ⇄ body ─▶ leaving ─▶ ended
                      └──(not ready, no line)──▲ -/

namespace LocalVoice.RK1828
open LocalVoice.Lib

/-! ### Frames

On the worker's stdout: a length of four bytes and a token piece, or the EOS marker. A piece of at most
`MAX_FRAME_BYTES` bytes is read back (`unpack_le32`). -/

def END_OF_STREAM : ℕ := 0xFFFFFFFE
def MAX_FRAME_BYTES : ℕ := 8 * 1024 * 1024

/-- A `uint32_t` in the byte order of the wire; greater lengths lose what is above. -/
def le32 (n : ℕ) : Bytes :=
  [UInt8.ofNat n, UInt8.ofNat (n / 2 ^ 8), UInt8.ofNat (n / 2 ^ 16), UInt8.ofNat (n / 2 ^ 24)]

/-- `_LEN.unpack`. -/
def unpack : Bytes → ℕ
  | [a, b, c, d] => a.toNat + 2 ^ 8 * b.toNat + 2 ^ 16 * c.toNat + 2 ^ 24 * d.toNat
  | _ => 0

/-- `emit_token_frame`. -/
def emit_token_frame (piece : Bytes) : Bytes :=
  if piece = [] then [] else le32 piece.length ++ piece

/-- `emit_eos_frame`. -/
def emit_eos_frame : Bytes := le32 END_OF_STREAM

/-- What an answer puts on the wire. -/
def wire (frames : List Bytes) (answered : Bool) : Bytes :=
  frames.flatMap emit_token_frame ++ if answered then emit_eos_frame else []

theorem length_le32 (n : ℕ) : (le32 n).length = 4 := rfl

theorem unpack_le32 {n : ℕ} (h : n < 2 ^ 32) : unpack (le32 n) = n := by
  simp only [le32, unpack, UInt8.toNat_ofNat']
  omega

theorem wire_cons {piece : Bytes} (hne : piece ≠ []) (frames : List Bytes) (answered : Bool) :
    wire (piece :: frames) answered = le32 piece.length ++ (piece ++ wire frames answered) := by
  simp [wire, emit_token_frame, hne]

theorem wire_concat (frames : List Bytes) (piece : Bytes) :
    wire (frames ++ [piece]) false = wire frames false ++ emit_token_frame piece := by
  simp [wire]

theorem wire_answered (frames : List Bytes) :
    wire frames true = wire frames false ++ emit_eos_frame := by
  simp [wire]

/-! ### Requests -/

/-- An item of a request's queue. -/
inductive Item where
  | text (piece : List Char)
  | error
  | done
  deriving DecidableEq

def Item.piece : Item → Option (List Char)
  | .text piece => some piece
  | .error | .done => none

/-- Where the thread of a request is; in `header` and `body` with its decoder, behind them with
    whether it came to its EOS marker. -/
inductive Phase where
  | waiting
  | locked
  | header (dec : Option Utf8.Pending)
  | body (length : ℕ) (dec : Option Utf8.Pending)
  | leaving (complete : Bool)
  | ended (complete : Bool)
  deriving DecidableEq

/-- The thread is inside `with self._lock`. -/
def Phase.holds : Phase → Bool
  | .locked | .header _ | .body _ _ => true
  | .waiting | .leaving _ | .ended _ => false

/-- A call of `generate`: its thread, if its line was written, the queue between them, what the caller
    got, and the worker's answer to the line so far. -/
structure Call where
  phase : Phase
  written : Bool
  queue : List Item
  listening : Bool
  delivered : List (List Char)
  frames : List Bytes
  answered : Bool
  deriving DecidableEq

def Call.init : Call := ⟨.waiting, false, [], true, [], [], false⟩

/-- The texts that the thread put into the queue. -/
def Call.put (c : Call) : List (List Char) := c.delivered ++ c.queue.filterMap Item.piece

/-- `q.put(("text", piece))`, for a piece that is not empty. -/
def Call.put_text (c : Call) (piece : List Char) : Call :=
  if piece = [] then c else { c with queue := c.queue ++ [.text piece] }

/-- `q.get` in `generate`, and what is done with the item. -/
def Call.get (c : Call) : Option Call :=
  if c.listening = true then
    match c.queue with
    | .text piece :: rest => some { c with queue := rest, delivered := c.delivered ++ [piece] }
    | _ :: rest => some { c with queue := rest, listening := false }
    | [] => none
  else none

/-- The calls, the worker with the line it answers and the bytes it has still to write, and the two
    pipes. -/
structure World where
  calls : List Call
  lock : Option ℕ
  alive : Bool
  stdin : List ℕ
  answering : Option ℕ
  unwritten : Bytes
  stdout : Bytes
  deriving DecidableEq

def World.init : World := ⟨[], none, true, [], none, [], []⟩

inductive Act where
  | generate
  | acquire (r : ℕ)
  | fail (r : ℕ)
  | write (r : ℕ)
  | read (r : ℕ)
  | eof (r : ℕ)
  | finish (r : ℕ)
  | get (r : ℕ)
  | stop (r : ℕ)
  | take_line
  | emit (piece : Bytes)
  | emit_eos
  | flush (n : ℕ)
  | die
  deriving DecidableEq

namespace World

def set_call (s : World) (r : ℕ) (c : Call) : World := { s with calls := s.calls.set r c }

/-- The thread leaves `with self._lock`. -/
def leave (s : World) (r : ℕ) (c : Call) (complete : Bool) : World :=
  { s.set_call r { c with phase := .leaving complete } with lock := none }

/-- One round of the reader, with all the bytes it needs in the pipe. -/
def read (s : World) (r : ℕ) (c : Call) : Option World :=
  match c.phase with
  | .header dec =>
    if s.stdout.length < 4 then none
    else
      let length := unpack (s.stdout.take 4)
      let s := { s with stdout := s.stdout.drop 4 }
      if length = END_OF_STREAM then some (s.leave r (c.put_text (Utf8.flush dec)) true)
      else if MAX_FRAME_BYTES < length then some (s.leave r c false)
      else some (s.set_call r { c with phase := .body length dec })
  | .body length dec =>
    if s.stdout.length < length then none
    else
      let piece := Utf8.decode dec (s.stdout.take length)
      some ({ s with stdout := s.stdout.drop length }.set_call r
        { c.put_text piece.1 with phase := .header piece.2 })
  | _ => none

/-- How many bytes the reader waits for. -/
def needs (c : Call) : ℕ :=
  match c.phase with
  | .header _ => 4
  | .body length _ => length
  | _ => 0

/-- The next state. `fail` is a worker that is not ready, a line that cannot be encoded, or a write
    that finds no reader. -/
def next (s : World) : Act → Option World
  | .generate => some { s with calls := s.calls ++ [.init] }
  | .acquire r =>
    s.calls[r]?.bind fun c =>
      if c.phase = .waiting ∧ s.lock = none then
        some { s.set_call r { c with phase := .locked } with lock := some r }
      else none
  | .fail r =>
    s.calls[r]?.bind fun c => if c.phase = .locked then some (s.leave r c false) else none
  | .write r =>
    s.calls[r]?.bind fun c =>
      if c.phase = .locked ∧ s.alive = true then
        some { s.set_call r { c with phase := .header none, written := true } with
          stdin := s.stdin ++ [r] }
      else none
  | .read r => s.calls[r]?.bind fun c => s.read r c
  | .eof r =>
    s.calls[r]?.bind fun c =>
      if s.alive = false ∧ s.stdout.length < needs c then
        some ({ s with stdout := [] }.leave r c false)
      else none
  | .finish r =>
    s.calls[r]?.bind fun c =>
      match c.phase with
      | .leaving complete => some (s.set_call r { c with
          phase := .ended complete
          queue := c.queue ++ if complete then [.done] else [.error, .done] })
      | _ => none
  | .get r => s.calls[r]?.bind fun c => c.get.map (s.set_call r)
  | .stop r => s.calls[r]?.map fun c => s.set_call r { c with listening := false }
  | .take_line =>
    match s.stdin with
    | r :: rest =>
      if s.alive = true ∧ s.answering = none then
        some { s with stdin := rest, answering := some r }
      else none
    | [] => none
  | .emit piece =>
    s.answering.bind fun r => s.calls[r]?.bind fun c =>
      if s.alive = true ∧ s.unwritten = [] then
        some { s.set_call r (if piece = [] then c else { c with frames := c.frames ++ [piece] }) with
          unwritten := emit_token_frame piece }
      else none
  | .emit_eos =>
    s.answering.bind fun r => s.calls[r]?.bind fun c =>
      if s.alive = true ∧ s.unwritten = [] then
        some { s.set_call r { c with answered := true } with
          answering := none
          unwritten := emit_eos_frame }
      else none
  | .flush n =>
    some { s with stdout := s.stdout ++ s.unwritten.take n, unwritten := s.unwritten.drop n }
  | .die => some { s with alive := false, unwritten := [] }

end World

/-- The worker's pieces are within the bound. -/
def Act.fits : Act → Bool
  | .emit piece => piece.length ≤ MAX_FRAME_BYTES
  | _ => true

/-- The steps of the server and its worker. -/
abbrev World.Steps : World → Act → World → Prop := fun s a t => s.next a = some t

/-- Those in which the worker's pieces are within the bound. -/
abbrev World.Fitting : World → Act → World → Prop :=
  restrict (fun _ a => a.fits = true) World.Steps

end LocalVoice.RK1828
