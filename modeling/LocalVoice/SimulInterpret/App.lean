import LocalVoice.Lib.PyText
import LocalVoice.Lib.Run
import Mathlib.Data.Int.Notation
import Mathlib.Data.List.Basic

/-! `SegmentCommitter` of `agent/ovs_agent/streaming_translate/committer.py`: partials and finals of
    the ASR become segments that are ready to be translated. What it commits depends on the texts of
    the utterance alone, once it starts from empty buffers. -/

namespace LocalVoice.SimulInterpret
open LocalVoice.Lib

abbrev Text := List Char

inductive Strategy where
  | retranslation
  | monotonic
  deriving DecidableEq

inductive Kind where
  | commit
  | tail
  deriving DecidableEq

/-- The arguments of `SegmentCommitter`; an `agreement_n` below 1 raises. -/
structure Settings where
  agreement_n : ℕ
  strategy : Strategy
  min_commit_chars : ℤ
  agreement_pos : 1 ≤ agreement_n

structure SegmentEvent where
  seq : ℕ
  source_text : Text
  committed_source : Text
  tail_source : Text
  is_final : Bool
  revision : ℕ
  kind : Kind
  deriving DecidableEq

structure Committer where
  partials : List Text
  committed_source : Text
  tail_source : Text
  seq : ℕ
  revision : ℕ
  deriving DecidableEq

/-! ### Targets -/

def clause_punct : List Char := "。！？；，,.?;".toList

/-- Two texts agree up to here. -/
def agreed : Text → Text → Text
  | a :: s, b :: t => if a = b then a :: agreed s t else []
  | _, _ => []

def common_prefix : List Text → Text
  | [] => []
  | head :: strings => strings.foldl agreed head

/-- The index after the last clause punctuation of the text. -/
def last_clause_end (text : Text) : ℕ :=
  (text.reverse.dropWhile fun c => !clause_punct.contains c).length

namespace Committer
variable (k : Settings) (c : Committer)

def init : Committer := ⟨[], [], [], 0, 0⟩

/-- `self._partials[-self.agreement_n:]`. -/
def window (partials : List Text) : List Text := partials.drop (partials.length - k.agreement_n)

/-- `_commit_target`, for the partials that `push_partial` has kept. -/
def commit_target (partials : List Text) (text : Text) : Text :=
  let agreement := if k.agreement_n ≤ partials.length then common_prefix (window k partials) else []
  let clause := text.take (last_clause_end text)
  if clause.length ≤ agreement.length then agreement else clause

def push_partial (text : Text) : Committer × List SegmentEvent :=
  let partials := window k (c.partials ++ [text])
  let target := commit_target k partials text
  let tail := text.drop c.committed_source.length
  if c.committed_source.length < target.length ∧
      k.min_commit_chars ≤ (target.length : ℤ) - c.committed_source.length then
    (⟨partials, target, text.drop target.length, c.seq + 1, c.revision⟩,
      [⟨c.seq + 1, target.drop c.committed_source.length, target, text.drop target.length, false,
        c.revision, .commit⟩])
  else if k.strategy = .retranslation ∧ tail ≠ c.tail_source then
    (⟨partials, c.committed_source, tail, c.seq, c.revision + 1⟩,
      [⟨c.seq, tail, c.committed_source, tail, false, c.revision + 1, .tail⟩])
  else ({ c with partials := partials }, [])

def finalize (text : Text) : Committer × List SegmentEvent :=
  if c.committed_source.length < text.length then
    (⟨[], [], [], c.seq + 1, c.revision⟩,
      [⟨c.seq + 1, text.drop c.committed_source.length, text, [], true, c.revision, .commit⟩])
  else (⟨[], [], [], c.seq, c.revision⟩, [])

/-! ### The segments of an utterance -/

end Committer

/-- The partials of an utterance, one after the other. -/
def Committer.push_all (k : Settings) (c : Committer) : List Text → Committer × List SegmentEvent
  | [] => (c, [])
  | text :: texts =>
    (((c.push_partial k text).1.push_all k texts).1,
      (c.push_partial k text).2 ++ ((c.push_partial k text).1.push_all k texts).2)

def sources (events : List SegmentEvent) : List Text := events.map SegmentEvent.source_text

/-- What a committer commits that has heard these partials and nothing before them. -/
def committed (k : Settings) (partials : List Text) : List Text :=
  sources (Committer.init.push_all k partials).2

/-- What it commits by the end of the utterance. -/
def clauses (k : Settings) (partials : List Text) (text : Text) : List Text :=
  committed k partials ++ sources ((Committer.init.push_all k partials).1.finalize text).2

/-- The same texts are buffered; the counters may differ. -/
structure Committer.SameTexts (c d : Committer) : Prop where
  partials : c.partials = d.partials
  committed_source : c.committed_source = d.committed_source
  tail_source : c.tail_source = d.tail_source

section
variable {k : Settings} {c d : Committer}

/-- The counters do not matter for what is committed. -/
theorem Committer.SameTexts.push_partial (h : c.SameTexts d) (text : Text) :
    (c.push_partial k text).1.SameTexts (d.push_partial k text).1 ∧
      sources (c.push_partial k text).2 = sources (d.push_partial k text).2 := by
  obtain ⟨hpartials, hcommitted, htail⟩ := h
  simp only [Committer.push_partial, hpartials, hcommitted, htail]
  split
  · exact ⟨⟨rfl, rfl, rfl⟩, rfl⟩
  · split
    · exact ⟨⟨rfl, rfl, rfl⟩, rfl⟩
    · exact ⟨⟨rfl, rfl, rfl⟩, rfl⟩

theorem Committer.SameTexts.finalize (h : c.SameTexts d) (text : Text) :
    sources (c.finalize text).2 = sources (d.finalize text).2 := by
  simp only [Committer.finalize, h.committed_source]
  split <;> rfl

/-- However an utterance has ended, the next one starts from empty buffers. -/
theorem finalize_init (text : Text) : (c.finalize text).1.SameTexts .init := by
  unfold Committer.finalize
  split <;> exact ⟨rfl, rfl, rfl⟩

theorem push_all_concat (texts : List Text) (text : Text) :
    c.push_all k (texts ++ [text]) =
      ((Committer.push_partial k (c.push_all k texts).1 text).1,
        (c.push_all k texts).2 ++ (Committer.push_partial k (c.push_all k texts).1 text).2) := by
  induction texts generalizing c with
  | nil => simp [Committer.push_all]
  | cons t texts ih => simp [Committer.push_all, ih]

theorem committed_concat (texts : List Text) (text : Text) :
    committed k (texts ++ [text]) = committed k texts ++
      sources (Committer.push_partial k (Committer.init.push_all k texts).1 text).2 := by
  simp [committed, push_all_concat, sources]

@[simp] theorem committed_nil : committed k [] = [] := rfl

end

/-! `SimulInterpretApp` of `agent/ovs_agent/apps/simul_interpret/app.py` under the dispatch of partials
    and finals of `app_base.py`. The dispatch loop awaits `on_user_partial`; `on_user_utterance` is a
    task of its own. Both are cut at their awaits.

        on_user_partial:   translating ──▶ speaking ──▶ ended
                               └───────────────────────▲            (clause lag: the text is pending)
        on_user_utterance: called ──▶ translating ──▶ speaking ──▶ ended
                                          └─────────▶ flushing ────▲ -/

/-- What the config says, and what `BaseApp` makes of a text. -/
structure Config where
  agreement_n : ℕ
  agreement_pos : 1 ≤ agreement_n
  min_commit_chars : ℤ
  overlap : Bool
  low_signal : Text → Bool
  is_stop_intent : Text → Bool

def Config.settings (g : Config) : Settings :=
  ⟨g.agreement_n, .monotonic, g.min_commit_chars, g.agreement_pos⟩

/-- A clause that was translated, and the utterance that it was committed in. -/
structure Piece where
  utterance : ℕ
  source : Text
  translated : Text
  deriving DecidableEq

/-- A call of `send_text`, by a handler of this utterance. -/
structure Send where
  utterance : ℕ
  pieces : List Piece
  deriving DecidableEq

/-- `not text.strip()`. -/
def blank (text : Text) : Bool := text.all PyText.is_space

def text_of (pieces : List Piece) : Text := pieces.flatMap Piece.translated

inductive Await where
  | send_text
  | flush_tts
  | broadcast
  deriving DecidableEq

/-- Where a handler is. The segments are those it has still to go through. -/
inductive Stage where
  | called (text : Text)
  | translating (ev : SegmentEvent) (rest : List SegmentEvent)
  | speaking (a : Await) (rest : List SegmentEvent)
  | flushing (a : Await)
  | ended
  deriving DecidableEq

/-- An utterance ends with a final that is routed to its handler, or it is dropped as a whole. -/
inductive Fate where
  | current
  | dropped
  | routed (text : Text)
  deriving DecidableEq

/-- The app. `_pending_translation` is the text of `pending_translation`. The last four fields say what
    belongs to which utterance; the code holds none of them. -/
structure State where
  committer : Committer
  pending_translation : List Piece
  pending_source : Text
  partial_stage : Stage
  utterance_stage : Stage
  handled : ℕ
  sends : List Send
  utterance : ℕ
  translations : List Piece
  partials : ℕ → List Text
  fate : ℕ → Fate

namespace State
variable (g : Config) (c : State) (u : ℕ)

def init : State :=
  ⟨.init, [], [], .ended, .ended, 0, [], 0, [], fun _ => [], fun _ => .current⟩

def reset_pending : State := { c with pending_translation := [], pending_source := [] }

def send_text (pieces : List Piece) : State := { c with sends := c.sends ++ [⟨u, pieces⟩] }

def translated (p : Piece) : State := { c with translations := c.translations ++ [p] }

def add_pending (p : Piece) (committed_source : Text) : State :=
  { c with
    pending_translation := c.pending_translation ++ [p]
    pending_source := committed_source }

/-- The rest of a handler after its loop: `on_user_utterance` (`final`) flushes what is pending. -/
def after_loop (final : Bool) : State × Stage :=
  if final then
    if !g.overlap && !blank (text_of c.pending_translation) then
      (c.send_text u c.pending_translation, .flushing .send_text)
    else (c.reset_pending, .ended)
  else (c, .ended)

/-- The loop over the segments. `answer` is what the translator has made of the first one; a text that
    is blank is not handed to it. -/
def loop (final : Bool) : State → List SegmentEvent → Option Text → State × Stage
  | c, [], _ => c.after_loop g u final
  | c, ev :: rest, answer =>
    match if blank ev.source_text then some [] else answer with
    | none => (c, .translating ev rest)
    | some text =>
      if g.overlap then
        if blank text then loop final (c.translated ⟨u, ev.source_text, text⟩) rest none
        else ((c.translated ⟨u, ev.source_text, text⟩).send_text u [⟨u, ev.source_text, text⟩],
          .speaking .send_text rest)
      else
        loop final ((c.translated ⟨u, ev.source_text, text⟩).add_pending ⟨u, ev.source_text, text⟩
          ev.committed_source) rest none

/-- A handler goes on after an await that has returned, with what the translator answers. -/
def resume (final : Bool) : Stage → Text → Option (State × Stage)
  | .translating ev rest, text => some (c.loop g u final (ev :: rest) (some text))
  | .speaking .send_text rest, _ => some (c, .speaking .flush_tts rest)
  | .speaking .flush_tts rest, _ => some (c, .speaking .broadcast rest)
  | .speaking .broadcast rest, _ => some (c.loop g u final rest none)
  | .flushing .send_text, _ => some (c, .flushing .flush_tts)
  | .flushing .flush_tts, _ => some (c, .flushing .broadcast)
  | .flushing .broadcast, _ => some (c.reset_pending, .ended)
  | .called _, _ => none
  | .ended, _ => none

/-- `on_user_partial`, up to its first await, on the text of a partial that is no echo. -/
def on_user_partial (text : Text) : State × Stage :=
  loop g c.utterance false
    { c with
      committer := (c.committer.push_partial g.settings text).1
      partials := fun v => if v = c.utterance then c.partials v ++ [text] else c.partials v }
    (c.committer.push_partial g.settings text).2 none

/-- `on_user_utterance`, up to its first await. -/
def on_user_utterance (text : Text) (echo : Bool) : State × Stage :=
  if echo then
    ({ c with
      committer := (c.committer.finalize text).1
      pending_translation := []
      pending_source := []
      fate := fun v => if v = c.handled then .dropped else c.fate v }, .ended)
  else
    loop g c.handled true { c with committer := (c.committer.finalize text).1 }
      (c.committer.finalize text).2 none

/-- The utterance has ended. -/
def close (fate : Fate) : State :=
  { c with
    utterance := c.utterance + 1
    fate := fun v => if v = c.utterance then fate else c.fate v }

/-- `_dispatch_one` on a final: asleep, as a duplicate, without a signal and as a stop it does not get
    to the app; the last two cancel the turn that runs. -/
def dispatch_final (asleep duplicate : Bool) (text : Text) : State :=
  if asleep then c.close .dropped
  else if duplicate then c
  else if blank text || g.low_signal text then c.close .dropped
  else if g.is_stop_intent text then { c.close .dropped with utterance_stage := .ended }
  else { c.close (.routed text) with utterance_stage := .called text, handled := c.utterance }

end State

/-- A partial or a final is dispatched, and whether it is taken for an echo; the task of
    `on_user_utterance` begins, a handler goes on after an await (`none`: it raises), or the task is
    cancelled. -/
inductive Label where
  | asr_partial (text : Text) (echo : Bool)
  | asr_final (asleep duplicate : Bool) (text : Text)
  | begin (echo : Bool)
  | resume_partial (answer : Option Text)
  | resume_utterance (answer : Option Text)
  | cancel
  deriving DecidableEq

namespace State
variable (g : Config) (c : State)

def at_partial (r : State × Stage) : State := { r.1 with partial_stage := r.2 }

def at_utterance (r : State × Stage) : State := { r.1 with utterance_stage := r.2 }

def next : Label → Option State
  | Label.asr_partial text echo =>
    if c.partial_stage ≠ .ended then none
    else if echo then some c
    else some (State.at_partial (c.on_user_partial g text))
  | .asr_final asleep duplicate text =>
    if c.partial_stage ≠ .ended then none else some (c.dispatch_final g asleep duplicate text)
  | .begin echo =>
    match c.utterance_stage with
    | .called text => some (at_utterance (c.on_user_utterance g text echo))
    | _ => none
  | Label.resume_partial (some text) =>
    (c.resume g c.utterance false c.partial_stage text).map at_partial
  | Label.resume_partial none =>
    if c.partial_stage = .ended then none else some { c with partial_stage := .ended }
  | .resume_utterance (some text) =>
    (c.resume g c.handled true c.utterance_stage text).map at_utterance
  | .resume_utterance none =>
    match c.utterance_stage with
    | .called _ => none
    | .ended => none
    | _ => some { c with utterance_stage := .ended }
  | .cancel => some { c with utterance_stage := .ended }

end State

def step (g : Config) (c : State) (a : Label) (c' : State) : Prop := c.next g a = some c'

end LocalVoice.SimulInterpret
