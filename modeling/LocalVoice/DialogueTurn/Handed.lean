import LocalVoice.Lib.Run
import Mathlib.Data.List.Basic
import Mathlib.Data.Nat.Notation

/-! `ModeContext.run_default_dialogue_turn` of `agent/ovs_agent/app_mode.py`, from its `try` on, and
    what its turns write to SLV, one turn after the other. The driver calls the callbacks of the turn
    in any order; a frame may be written before its send returns, and at each `await` the turn may be
    cancelled, or what it waits for may raise.

        driving ──token──▶ announcing ──▶ sending ─┐        ┌─ completed ─▶ flushing ─┐
           ▲  └─preamble, completion_text──▶ sending        │                         ▼
           └────────────────────────────────────┘  driving ─┤        aborting ─▶ stopping ─▶ reporting ─▶ ended
                                                            └─ cancelled, failed ─▲ (if text was sent)

    The client sends on the socket that is open, drops what it cannot send, and a new socket is a new
    session. -/

namespace LocalVoice.DialogueTurn
open LocalVoice.Lib

/-! ### Frames -/

/-- `CLIENT_TEXT`, `CLIENT_ABORT` and `CLIENT_TTS_FLUSH`. -/
inductive Kind where
  | text (s : String)
  | abort
  | tts_flush
  deriving DecidableEq

def Kind.is_text : Kind → Bool
  | .text _ => true
  | _ => false

/-- A frame that was written to a socket, by a turn or by the app itself. -/
structure Frame where
  socket : ℕ
  turn : Option ℕ
  kind : Kind
  deriving DecidableEq

/-- The socket of the client, whether it is open, and all that was written. -/
structure Wire where
  socket : ℕ
  live : Bool
  frames : List Frame

def Wire.write (w : Wire) (turn : Option ℕ) (kind : Kind) : Wire :=
  { w with frames := w.frames ++ [⟨w.socket, turn, kind⟩] }

/-! ### A turn -/

/-- The callback that sends a text. -/
inductive Source where
  | token
  | preamble
  | completion
  deriving DecidableEq

/-- The `await` a turn stands at. -/
inductive Stage where
  | driving
  | announcing (token : String)
  | sending (src : Source) (text : String) (written : Bool)
  | aborting (written : Bool)
  | stopping
  | flushing (written : Bool)
  | reporting
  | ended
  deriving DecidableEq

/-- The locals of a turn; `handed` is not in the code: the frames of its calls of `send_text`, `abort`
    and `flush_tts`. -/
structure Turn where
  stage : Stage
  chunks : List String
  sent_any_text : Bool
  cancelled : Bool
  completed : Bool
  handed : List Kind
  deriving DecidableEq

def Turn.init : Turn := ⟨.driving, [], false, false, false, []⟩

/-- What happens at the `await` of a turn: the driver calls back or returns; what is awaited returns,
    has its frame written, or raises, which the driver may swallow; or the turn is cancelled. -/
inductive Event where
  | token (s : String)
  | preamble (s : String)
  | completion (s : String)
  | finish
  | returned
  | written
  | raised (swallowed : Bool)
  | cancelled
  deriving DecidableEq

namespace Turn
variable (t : Turn)

def at_stage (stage : Stage) : Turn := { t with stage := stage }

/-- A call of the client. -/
def send (kind : Kind) (stage : Stage) : Turn := { t with stage := stage, handed := t.handed ++ [kind] }

/-- The common part of `_on_tool_preamble` and `_on_tool_completion_text`. -/
def send_tool_text (src : Source) (text : String) : Turn :=
  if text = "" then t else t.send (.text text) (.sending src text false)

def on_tool_preamble (text : String) : Turn := t.send_tool_text .preamble text

def on_tool_completion_text (text : String) : Turn := t.send_tool_text .completion text

def on_token (token : String) : Turn :=
  { t with stage := .announcing token, chunks := t.chunks ++ [token] }

/-- `chunks or sent_any_text`. -/
def sent : Bool := !t.chunks.isEmpty || t.sent_any_text

/-- The `finally` arm. -/
def finally_arm : Turn :=
  if t.completed && !t.cancelled then t.send .tts_flush (.flushing false) else t.at_stage .reporting

/-- The `except` arms: an abort if text was sent. -/
def unwind : Turn :=
  if t.sent then t.send .abort (.aborting false) else t.finally_arm

/-- `except asyncio.CancelledError`. -/
def cancel : Turn := { t with cancelled := true }.unwind

/-- `stream_with_tools` returns. -/
def finish : Turn := { t with completed := true }.finally_arm

/-- What is left of a turn when its `await` is over. -/
def returned (live : Bool) : Option Turn :=
  match t.stage with
  | .announcing s => some (t.send (.text s) (.sending .token s false))
  | .sending _ _ w => if w || !live then some { t with stage := .driving, sent_any_text := true } else none
  | .aborting w => if w || !live then some (t.at_stage .stopping) else none
  | .stopping => some t.finally_arm
  | .flushing w => if w || !live then some (t.at_stage .reporting) else none
  | .reporting => some (t.at_stage .ended)
  | _ => none

/-- The frame that waits to be written, and the stage after that. -/
def pending : Option (Kind × Stage) :=
  match t.stage with
  | .sending src s false => some (.text s, .sending src s true)
  | .aborting false => some (.abort, .aborting true)
  | .flushing false => some (.tts_flush, .flushing true)
  | _ => none

/-- An exception; a send raises one when it finds no socket and cannot open one. The tool texts, the
    abort, `stop_playback` and the flush are best effort. -/
def raised (live swallowed : Bool) : Option Turn :=
  match t.stage with
  | .driving => if swallowed then none else some t.unwind
  | .announcing _ => some (if swallowed then t.at_stage .driving else t.unwind)
  | .sending src _ w =>
    if w || live then none
    else some (if src ≠ .token || swallowed then t.at_stage .driving else t.unwind)
  | .aborting w => if w || live then none else some (t.at_stage .stopping)
  | .stopping => some t.finally_arm
  | .flushing w => if w || live then none else some (t.at_stage .reporting)
  | .reporting => some (t.at_stage .ended)
  | .ended => none

/-- `CancelledError`, also where an `except Exception` stands around the `await`. -/
def interrupted : Option Turn :=
  match t.stage with
  | .driving | .announcing _ | .sending .. => some t.cancel
  | .aborting _ | .stopping => some t.finally_arm
  | .flushing _ | .reporting => some (t.at_stage .ended)
  | .ended => none

/-- An event of the turn, and the frame it writes. -/
def react (live : Bool) : Event → Option (Turn × Option Kind)
  | .token s => if t.stage = .driving then some (t.on_token s, none) else none
  | .preamble s => if t.stage = .driving then some (t.on_tool_preamble s, none) else none
  | .completion s => if t.stage = .driving then some (t.on_tool_completion_text s, none) else none
  | .finish => if t.stage = .driving then some (t.finish, none) else none
  | .returned => (t.returned live).map fun u => (u, none)
  | .written => if live then t.pending.map fun p => (t.at_stage p.2, some p.1) else none
  | .raised swallowed => (t.raised live swallowed).map fun u => (u, none)
  | .cancelled => t.interrupted.map fun u => (u, none)

end Turn

/-! ### One turn after the other -/

/-- The turns that are over, in order, and the one that runs. -/
structure State where
  wire : Wire
  past : List Turn
  turn : Option Turn

def State.init : State := ⟨⟨0, true, []⟩, [], none⟩

/-- A turn begins, or reacts; the app sends an abort of its own (`_interrupt_current_turn_for_barge_in`
    and others); the socket closes; or the client has a new one. -/
inductive Label where
  | begin
  | turn (e : Event)
  | interrupt
  | die
  | reopen
  deriving DecidableEq

/-- A turn goes on, or is over. -/
def State.put (c : State) (wire : Wire) (t : Turn) : State :=
  if t.stage = .ended then ⟨wire, c.past ++ [t], none⟩ else ⟨wire, c.past, some t⟩

/-- The wire after a turn wrote a frame, or none. -/
def State.wrote (c : State) : Option Kind → Wire
  | none => c.wire
  | some kind => c.wire.write (some c.past.length) kind

def State.step (c : State) : Label → Option State
  | .begin => if c.turn.isSome then none else some { c with turn := some Turn.init }
  | .turn e => match c.turn with
    | none => none
    | some t => (t.react c.wire.live e).map fun r => c.put (c.wrote r.2) r.1
  | .interrupt => if c.wire.live then some { c with wire := c.wire.write none .abort } else none
  | .die => some { c with wire := { c.wire with live := false } }
  | .reopen =>
    if c.wire.live then none
    else some { c with wire := { c.wire with socket := c.wire.socket + 1, live := true } }

def step (c : State) (a : Label) (c' : State) : Prop := c.step a = some c'

/-! What a turn hands to the client: its texts, and at the end one `tts_flush` if it was completed, one
    `abort` if it was not and there may be text of it. -/

/-! ### Stages -/

/-- The stages in `stream_with_tools`. -/
def Stage.early : Stage → Bool
  | .driving | .announcing _ | .sending .. => true
  | _ => false

/-- The abort or the flush of the turn was written, or is over. -/
def Stage.answered : Stage → Bool
  | .aborting w | .flushing w => w
  | .stopping | .reporting | .ended => true
  | _ => false

/-- A text was written, and its send has not returned. -/
def Stage.unreturned : Stage → Bool
  | .sending _ _ w => w
  | _ => false

/-- A cancellation is not noticed here: a text was written that the turn does not know of, or the abort
    or the flush is yet to be written. -/
def Turn.exposed (t : Turn) : Bool :=
  match t.stage with
  | .sending _ _ w => w && !t.sent
  | .aborting w | .flushing w => !w
  | _ => false

/-- The texts of a turn, and then these frames. -/
def Turn.handed_is (t : Turn) (closing : List Kind) : Prop :=
  ∃ texts, (∀ k ∈ texts, k.is_text = true) ∧ t.handed = texts ++ closing

/-- The frames after the texts of a turn. -/
def Turn.closing (t : Turn) : List Kind :=
  if t.completed then [.tts_flush] else if t.sent then [.abort] else []

/-- What a turn handed over, by its stage. -/
def Turn.Fits (t : Turn) : Prop :=
  match t.stage with
  | .driving | .announcing _ | .sending .. => t.completed = false ∧ t.cancelled = false ∧ t.handed_is []
  | .aborting _ | .stopping => t.completed = false ∧ t.sent = true ∧ t.handed_is [.abort]
  | .flushing _ => t.completed = true ∧ t.handed_is [.tts_flush]
  | .reporting | .ended => t.handed_is t.closing

section
variable {t u : Turn} {live : Bool} {e : Event}

theorem fits_early (h : t.Fits) (hearly : t.stage.early = true) :
    t.completed = false ∧ t.cancelled = false ∧ t.handed_is [] := by
  unfold Turn.Fits at h
  cases hs : t.stage <;> rw [hs] at h hearly <;> first | exact h | cases hearly

theorem handed_text (h : t.handed_is []) (s : String) (stage : Stage) :
    (t.send (.text s) stage).handed_is [] := by
  obtain ⟨texts, htexts, hhanded⟩ := h
  refine ⟨texts ++ [.text s], fun k hk => ?_, by simp [Turn.send, hhanded]⟩
  rcases List.mem_append.1 hk with hk | hk
  · exact htexts k hk
  · obtain rfl := List.mem_singleton.1 hk
    rfl

theorem handed_send (h : t.handed_is []) (kind : Kind) (stage : Stage) :
    (t.send kind stage).handed_is [kind] := by
  obtain ⟨texts, htexts, hhanded⟩ := h
  exact ⟨texts, htexts, by simp [Turn.send, hhanded]⟩

/-- A turn that comes to its end uncompleted, with what it had to hand over. -/
theorem fits_uncompleted (hcompleted : t.completed = false)
    (h : t.handed_is (if t.sent then [.abort] else [])) : t.finally_arm.Fits := by
  have harm : t.finally_arm = t.at_stage .reporting := by simp [Turn.finally_arm, hcompleted]
  rw [harm]
  have hclosing : (t.at_stage .reporting).closing = if t.sent then [.abort] else [] := by
    simp only [Turn.closing, Turn.at_stage, hcompleted]
    rfl
  simp only [Turn.Fits]
  rw [hclosing]
  exact h

theorem fits_unwind (hcompleted : t.completed = false) (h : t.handed_is []) : t.unwind.Fits := by
  unfold Turn.unwind
  cases hsent : t.sent with
  | true => exact ⟨hcompleted, hsent, handed_send h .abort _⟩
  | false =>
    refine fits_uncompleted hcompleted ?_
    rw [hsent]
    exact h

theorem fits_finish (hcancelled : t.cancelled = false) (h : t.handed_is []) : t.finish.Fits := by
  have harm : t.finish = { t with completed := true }.send .tts_flush (.flushing false) := by
    simp [Turn.finish, Turn.finally_arm, hcancelled]
  rw [harm]
  exact ⟨rfl, handed_send (t := { t with completed := true }) h _ _⟩

theorem fits_stopping (hcompleted : t.completed = false) (hsent : t.sent = true)
    (h : t.handed_is [.abort]) : t.finally_arm.Fits :=
  fits_uncompleted hcompleted (by rw [hsent]; exact h)

theorem fits_reporting (hcompleted : t.completed = true) (h : t.handed_is [.tts_flush]) (stage : Stage)
    (hstage : stage = .reporting ∨ stage = .ended) : (t.at_stage stage).Fits := by
  have hclosing : (t.at_stage stage).closing = [.tts_flush] := by
    simp [Turn.closing, Turn.at_stage, hcompleted]
  rcases hstage with rfl | rfl
  · simp only [Turn.Fits]
    rw [hclosing]
    exact h
  · simp only [Turn.Fits]
    rw [hclosing]
    exact h

theorem fits_cancel (hcompleted : t.completed = false) (h : t.handed_is []) : t.cancel.Fits :=
  fits_unwind (t := { t with cancelled := true }) hcompleted h

/-! ### What a turn does -/

/-- The events of a turn, with what is left of it and the frame it writes. -/
inductive Reacted (t : Turn) (live : Bool) : Event → Turn → Option Kind → Prop where
  | token {s : String} (hs : t.stage = .driving) : Reacted t live (.token s) (t.on_token s) none
  | tool_text {e : Event} (src : Source) (s : String) (hs : t.stage = .driving) (he : e ≠ .cancelled) :
      Reacted t live e (t.send_tool_text src s) none
  | finish (hs : t.stage = .driving) : Reacted t live .finish t.finish none
  | announced {s : String} (hs : t.stage = .announcing s) :
      Reacted t live .returned (t.send (.text s) (.sending .token s false)) none
  | sent {src : Source} {s : String} {w : Bool} (hs : t.stage = .sending src s w) :
      Reacted t live .returned { t with stage := .driving, sent_any_text := true } none
  | aborted {e : Event} {w : Bool} (hs : t.stage = .aborting w) (hover : w = true ∨ live = false) :
      Reacted t live e (t.at_stage .stopping) none
  | flushed {e : Event} {w : Bool} (hs : t.stage = .flushing w) (hover : w = true ∨ live = false) :
      Reacted t live e (t.at_stage .reporting) none
  | stopped {e : Event} (hs : t.stage = .stopping) : Reacted t live e t.finally_arm none
  | reported {e : Event} (hs : t.stage = .reporting) : Reacted t live e (t.at_stage .ended) none
  | written {kind : Kind} {stage : Stage} (hlive : live = true) (hp : t.pending = some (kind, stage)) :
      Reacted t live .written (t.at_stage stage) (some kind)
  | swallowed {b : Bool} (hearly : t.stage.early = true) (hw : t.stage.unreturned = false) :
      Reacted t live (.raised b) (t.at_stage .driving) none
  | failed {b : Bool} (hearly : t.stage.early = true) (hw : t.stage.unreturned = false) :
      Reacted t live (.raised b) t.unwind none
  | cancelled (hearly : t.stage.early = true) : Reacted t live .cancelled t.cancel none
  | cancelled_abort {w : Bool} (hs : t.stage = .aborting w) : Reacted t live .cancelled t.finally_arm none
  | cancelled_flush {w : Bool} (hs : t.stage = .flushing w) :
      Reacted t live .cancelled (t.at_stage .ended) none

theorem returned_cases (hr : t.returned live = some u) : Reacted t live .returned u none := by
  cases hs : t.stage with
  | announcing s =>
    simp only [Turn.returned, hs, Option.some.injEq] at hr
    subst hr
    exact .announced hs
  | sending src s w =>
    simp only [Turn.returned, hs, Option.ite_none_right_eq_some, Option.some.injEq] at hr
    obtain ⟨-, rfl⟩ := hr
    exact .sent hs
  | aborting w =>
    simp only [Turn.returned, hs, Option.ite_none_right_eq_some, Option.some.injEq] at hr
    obtain ⟨hover, rfl⟩ := hr
    exact .aborted hs (by simpa using hover)
  | stopping =>
    simp only [Turn.returned, hs, Option.some.injEq] at hr
    subst hr
    exact .stopped hs
  | flushing w =>
    simp only [Turn.returned, hs, Option.ite_none_right_eq_some, Option.some.injEq] at hr
    obtain ⟨hover, rfl⟩ := hr
    exact .flushed hs (by simpa using hover)
  | reporting =>
    simp only [Turn.returned, hs, Option.some.injEq] at hr
    subst hr
    exact .reported hs
  | _ => simp [Turn.returned, hs] at hr

theorem raised_cases {b : Bool} (hr : t.raised live b = some u) : Reacted t live (.raised b) u none := by
  have hopen : ∀ {w : Bool}, ¬ (w || live) = true → w = true ∨ live = false := by
    intro w h
    simp only [Bool.or_eq_true, not_or, Bool.not_eq_true] at h
    exact Or.inr h.2
  cases hs : t.stage with
  | driving =>
    simp only [Turn.raised, hs, Option.ite_none_left_eq_some, Option.some.injEq] at hr
    obtain ⟨-, rfl⟩ := hr
    exact .failed (by rw [hs]; rfl) (by rw [hs]; rfl)
  | announcing s =>
    simp only [Turn.raised, hs, Option.some.injEq] at hr
    subst hr
    split
    · exact .swallowed (by rw [hs]; rfl) (by rw [hs]; rfl)
    · exact .failed (by rw [hs]; rfl) (by rw [hs]; rfl)
  | sending src s w =>
    simp only [Turn.raised, hs, Option.ite_none_left_eq_some, Option.some.injEq] at hr
    obtain ⟨hover, rfl⟩ := hr
    have hw : w = false := by
      simp only [Bool.or_eq_true, not_or, Bool.not_eq_true] at hover
      exact hover.1
    split
    · exact .swallowed (by rw [hs]; rfl) (by rw [hs]; exact hw)
    · exact .failed (by rw [hs]; rfl) (by rw [hs]; exact hw)
  | aborting w =>
    simp only [Turn.raised, hs, Option.ite_none_left_eq_some, Option.some.injEq] at hr
    obtain ⟨hover, rfl⟩ := hr
    exact .aborted hs (hopen hover)
  | stopping =>
    simp only [Turn.raised, hs, Option.some.injEq] at hr
    subst hr
    exact .stopped hs
  | flushing w =>
    simp only [Turn.raised, hs, Option.ite_none_left_eq_some, Option.some.injEq] at hr
    obtain ⟨hover, rfl⟩ := hr
    exact .flushed hs (hopen hover)
  | reporting =>
    simp only [Turn.raised, hs, Option.some.injEq] at hr
    subst hr
    exact .reported hs
  | ended => simp [Turn.raised, hs] at hr

theorem interrupted_cases (hr : t.interrupted = some u) : Reacted t live .cancelled u none := by
  cases hs : t.stage with
  | aborting w =>
    simp only [Turn.interrupted, hs, Option.some.injEq] at hr
    subst hr
    exact .cancelled_abort hs
  | stopping =>
    simp only [Turn.interrupted, hs, Option.some.injEq] at hr
    subst hr
    exact .stopped hs
  | flushing w =>
    simp only [Turn.interrupted, hs, Option.some.injEq] at hr
    subst hr
    exact .cancelled_flush hs
  | reporting =>
    simp only [Turn.interrupted, hs, Option.some.injEq] at hr
    subst hr
    exact .reported hs
  | ended => simp [Turn.interrupted, hs] at hr
  | _ =>
    simp only [Turn.interrupted, hs, Option.some.injEq] at hr
    subst hr
    exact .cancelled (by rw [hs]; rfl)

/-- Every event is one of those. -/
theorem react_cases {k : Option Kind} (hr : t.react live e = some (u, k)) : Reacted t live e u k := by
  cases e with
  | token s =>
    simp only [Turn.react, Option.ite_none_right_eq_some, Option.some.injEq, Prod.mk.injEq] at hr
    obtain ⟨hs, rfl, rfl⟩ := hr
    exact .token hs
  | preamble s =>
    simp only [Turn.react, Option.ite_none_right_eq_some, Option.some.injEq, Prod.mk.injEq] at hr
    obtain ⟨hs, rfl, rfl⟩ := hr
    exact .tool_text .preamble s hs nofun
  | completion s =>
    simp only [Turn.react, Option.ite_none_right_eq_some, Option.some.injEq, Prod.mk.injEq] at hr
    obtain ⟨hs, rfl, rfl⟩ := hr
    exact .tool_text .completion s hs nofun
  | finish =>
    simp only [Turn.react, Option.ite_none_right_eq_some, Option.some.injEq, Prod.mk.injEq] at hr
    obtain ⟨hs, rfl, rfl⟩ := hr
    exact .finish hs
  | returned =>
    obtain ⟨v, hv, heq⟩ := Option.map_eq_some_iff.1 hr
    cases heq
    exact returned_cases hv
  | written =>
    simp only [Turn.react, Option.ite_none_right_eq_some] at hr
    obtain ⟨hlive, hr⟩ := hr
    obtain ⟨⟨kind, stage⟩, hp, heq⟩ := Option.map_eq_some_iff.1 hr
    cases heq
    exact .written hlive hp
  | raised b =>
    obtain ⟨v, hv, heq⟩ := Option.map_eq_some_iff.1 hr
    cases heq
    exact raised_cases hv
  | cancelled =>
    obtain ⟨v, hv, heq⟩ := Option.map_eq_some_iff.1 hr
    cases heq
    exact interrupted_cases hv

/-! ### What it handed over -/

theorem fits_tool_text (h : t.Fits) (hstage : t.stage = .driving) (src : Source) (s : String) :
    (t.send_tool_text src s).Fits := by
  obtain ⟨hcompleted, hcancelled, hhanded⟩ := fits_early h (by rw [hstage]; rfl)
  unfold Turn.send_tool_text
  split
  · exact h
  · exact ⟨hcompleted, hcancelled, handed_text hhanded s _⟩

theorem fits_written (h : t.Fits) {kind : Kind} {stage : Stage} (hp : t.pending = some (kind, stage)) :
    (t.at_stage stage).Fits := by
  cases hs : t.stage with
  | sending src s w =>
    cases w <;> simp only [Turn.pending, hs, Option.some.injEq, Prod.mk.injEq, reduceCtorEq] at hp
    obtain ⟨-, rfl⟩ := hp
    simp only [Turn.Fits, hs] at h
    exact h
  | aborting w =>
    cases w <;> simp only [Turn.pending, hs, Option.some.injEq, Prod.mk.injEq, reduceCtorEq] at hp
    obtain ⟨-, rfl⟩ := hp
    simp only [Turn.Fits, hs] at h
    exact h
  | flushing w =>
    cases w <;> simp only [Turn.pending, hs, Option.some.injEq, Prod.mk.injEq, reduceCtorEq] at hp
    obtain ⟨-, rfl⟩ := hp
    simp only [Turn.Fits, hs] at h
    exact h
  | _ => simp [Turn.pending, hs] at hp

/-- Whatever a turn does, what it handed over fits its stage. -/
theorem fits_react {k : Option Kind} (h : t.Fits) (hr : Reacted t live e u k) : u.Fits := by
  cases hr with
  | token hs =>
    have hopen := fits_early h (by rw [hs]; rfl)
    exact hopen
  | tool_text src s hs => exact fits_tool_text h hs src s
  | finish hs =>
    obtain ⟨-, hcancelled, hhanded⟩ := fits_early h (by rw [hs]; rfl)
    exact fits_finish hcancelled hhanded
  | @announced s hs =>
    obtain ⟨hcompleted, hcancelled, hhanded⟩ := fits_early h (by rw [hs]; rfl)
    exact ⟨hcompleted, hcancelled, handed_text hhanded s _⟩
  | sent hs =>
    have hopen := fits_early h (by rw [hs]; rfl)
    exact hopen
  | aborted hs =>
    simp only [Turn.Fits, hs] at h
    exact h
  | flushed hs =>
    simp only [Turn.Fits, hs] at h
    exact fits_reporting h.1 h.2 _ (Or.inl rfl)
  | stopped hs =>
    simp only [Turn.Fits, hs] at h
    exact fits_stopping h.1 h.2.1 h.2.2
  | reported hs =>
    simp only [Turn.Fits, hs] at h
    exact h
  | written _ hp => exact fits_written h hp
  | swallowed hearly =>
    have hopen := fits_early h hearly
    exact hopen
  | failed hearly =>
    obtain ⟨hcompleted, -, hhanded⟩ := fits_early h hearly
    exact fits_unwind hcompleted hhanded
  | cancelled hearly =>
    obtain ⟨hcompleted, -, hhanded⟩ := fits_early h hearly
    exact fits_cancel hcompleted hhanded
  | cancelled_abort hs =>
    simp only [Turn.Fits, hs] at h
    exact fits_stopping h.1 h.2.1 h.2.2
  | cancelled_flush hs =>
    simp only [Turn.Fits, hs] at h
    exact fits_reporting h.1 h.2 _ (Or.inr rfl)

end

end LocalVoice.DialogueTurn
