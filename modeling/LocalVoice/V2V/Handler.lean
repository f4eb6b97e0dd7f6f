import LocalVoice.Lib.Flow
import Mathlib.Data.Nat.Notation

/-! The life of a `/v2v/stream` handler after admission, as far as its resources go: the session
    token, the handle in the WebSocket sets of the managers and in `_V2V_HOLDERS`, the gauge. What
    decides an `if` is left open; every call and every await may raise anything. The early returns
    give everything back through `_v2v_release_early`, as does the outer `except BaseException`; the
    `finally` of the orchestration does it by itself and leaves the handle in `_V2V_HOLDERS`. -/

namespace LocalVoice.V2V.Handler
open LocalVoice.Lib Flow

/-- The exceptions the handler tells apart. `base` is a `BaseException` that is neither an
    `Exception` nor a `CancelledError`. -/
inductive Exc where
  | timeout
  | disconnect
  | value_error
  | type_error
  | exception
  | cancelled
  | base
  deriving DecidableEq

/-- `except Exception`. -/
def Exc.is_exception : Exc → Bool
  | .cancelled | .base => false
  | _ => true

/-- `except (ValueError, TypeError)`. -/
def Exc.is_value_or_type : Exc → Bool
  | .value_error | .type_error => true
  | _ => false

/-- What the handler holds. `guarded` is not in the source: the outer `try` has been entered. -/
structure Res where
  /-- There are managers to register with. -/
  asr_mgr : Bool
  tts_mgr : Bool
  token : Bool
  asr_ws : Bool
  tts_ws : Bool
  /-- The handle is in `_V2V_HOLDERS`. -/
  holder : Bool
  ws_metric_taken : Bool
  /-- The increments and decrements of the gauge. -/
  incs : ℕ
  decs : ℕ
  /-- `_v2v_released["done"]`. -/
  released : Bool
  guarded : Bool
  deriving DecidableEq

/-- Right after admission. -/
def Res.admitted (asr_mgr tts_mgr : Bool) : Res :=
  ⟨asr_mgr, tts_mgr, true, false, false, false, false, 0, 0, false, false⟩

namespace Res

def inc_active_ws_sessions (s : Res) : Res := { s with incs := s.incs + 1, ws_metric_taken := true }

def register (s : Res) : Res := { s with asr_ws := s.asr_mgr, tts_ws := s.tts_mgr, holder := true }

def unregister_ws (s : Res) : Res :=
  { s with
    asr_ws := if s.asr_mgr then false else s.asr_ws
    tts_ws := if s.tts_mgr then false else s.tts_ws }

def dec_active_ws_sessions (s : Res) : Res :=
  if s.ws_metric_taken then { s with decs := s.decs + 1 } else s

/-- The release in the `finally` of the orchestration. -/
def release_admission (s : Res) : Res :=
  { s.unregister_ws.dec_active_ws_sessions with token := false, ws_metric_taken := false }

/-- `_v2v_release_early`. -/
def v2v_release_early (s : Res) : Res :=
  if s.released then s
  else { s.unregister_ws.dec_active_ws_sessions with
    released := true
    holder := false
    token := false }

end Res

abbrev Code := Flow Res Exc

def release_early : Code := .act Res.v2v_release_early

/-- `except Exception: pass`, and `except BaseException: pass`. -/
def try_call : Code := .handle Exc.is_exception .call fun _ => .skip
def try_call_base : Code := .handle (fun _ => true) .call fun _ => .skip

def release_and_return : Code := .seq release_early .ret

/-- `await ws.close(..); _v2v_release_early(); return`. -/
def close_and_return : Code := .seq .call release_and_return

/-- An error is sent before the close. -/
def reject : Code := .seq .call close_and_return

/-! ### Stage 1: the config frame -/

def receive_config : Code :=
  .seq (.handle (fun e => e = .timeout ∨ e = .disconnect) .call fun _ => release_and_return) <|
  .seq (.maybe close_and_return) <|
  .seq (.handle Exc.is_value_or_type .call fun _ => close_and_return) <|
  -- the frame need not be an object
  .seq .call <|
  .choose
    -- `realtime_v2`: not a `session.update`, or not one that can be converted
    (.seq (.maybe reject) (.handle Exc.is_value_or_type .call fun _ => reject))
    (.maybe reject)

def parse_config : Code :=
  .seq (.handle Exc.is_value_or_type .call fun _ =>
    .seq try_call (.seq try_call release_and_return)) <|
  .maybe reject

/-- A relay or an engine takes the session over; its `finally` gives back. -/
def hand_over : Code := .seq (.ensure .call release_early) .ret

/-- `realtime_v2`: a cloud provider takes the session over, or `session.updated` is sent. -/
def realtime : Code :=
  .maybe <| .seq (.maybe (.seq .call hand_over)) <| .seq (.maybe reject) .call

/-- `OVS_V2V_ENGINE`. -/
def engine : Code := .maybe hand_over

/-! ### Stage 2: the backends -/

/-- A backend is not ready: the close may raise. -/
def not_ready : Code := .seq .call (.seq try_call_base release_and_return)

def create_vad : Code :=
  .handle Exc.is_exception .call fun e => if e = .value_error then reject else .skip

def backends : Code :=
  .seq (.maybe (.seq .call (.seq (.maybe not_ready) (.seq .call create_vad)))) <|
  .maybe (.seq .call (.seq (.maybe not_ready) .call))

/-! ### Stages 3 and 5: the tasks and their end -/

/-- The `finally` of the orchestration. The cancels are there if there is something to cancel. -/
def teardown : Code :=
  .seq (.maybe (.handle (fun e => e.is_exception || e = .cancelled) .call fun _ => .skip)) <|
  .seq (.maybe try_call) <|
  .seq (.act Res.release_admission) <|
  .seq (.maybe try_call) <|
  .seq try_call <|
  .act Res.release_admission

def orchestrate : Code :=
  .ensure
    (.handle Exc.is_exception
      (.choose
        -- a cancellation after the client has closed is the dispatcher's
        (.handle (fun e => e = .cancelled) .call fun e => .maybe (.throw e))
        .call)
      fun _ => try_call)
    teardown

def setup : Code :=
  .seq receive_config <| .seq parse_config <| .seq realtime <| .seq engine <| .seq backends .call

/-- From admission to the outer `try`. -/
def opening : Code :=
  .seq (.maybe (.act Res.inc_active_ws_sessions)) <|
  .seq (.act Res.register) <|
  -- `realtime_v2`: the provider's adapter is made, `session.created` is sent
  .maybe (.seq .call .call)

def v2v_stream : Code :=
  .seq opening <|
  .handle (fun _ => true)
    (.seq (.act fun s => { s with guarded := true }) (.seq setup orchestrate))
    fun e => .seq release_early (.throw e)

/-! What is held and given back -/

/-- Everything has been given back, the gauge decremented once for its one increment. -/
structure GivenBack (s : Res) : Prop where
  token : s.token = false
  asr : s.asr_ws = false
  tts : s.tts_ws = false
  holder : s.holder = false
  gauge : s.decs = s.incs
  once : s.incs ≤ 1

/-- The handle is in `_V2V_HOLDERS`, and `_v2v_release_early` would give back what is held. -/
structure Holding (s : Res) : Prop where
  holder : s.holder = true
  released : s.released = false
  asr : s.asr_mgr = false → s.asr_ws = false
  tts : s.tts_mgr = false → s.tts_ws = false
  gauge : s.decs + s.ws_metric_taken.toNat = s.incs
  once : s.incs ≤ 1

/-- Before the outer `try`. -/
structure Opened (s : Res) : Prop extends Holding s where
  token : s.token = true
  guarded : s.guarded = false

/-- Under the outer `try`. -/
structure Held (s : Res) : Prop extends Holding s where
  guarded : s.guarded = true

/-- Given back early, under the outer `try`. -/
structure Early (s : Res) : Prop extends GivenBack s where
  released : s.released = true
  guarded : s.guarded = true

/-- The ends of a part of the setup: it goes on with everything held, or has given it back. -/
def SetupEnds : Outcome Exc → Res → Prop
  | .done, s => Held s
  | .returned, s => Early s
  | .raised _, s => Held s ∨ Early s

/-- The ends of the handler. -/
def Ends : Outcome Exc → Res → Prop
  | .done, s => s.holder = true
  | .returned, s => Early s
  | .raised _, s => Early s ∨ Opened s

/-- The handle is in `_V2V_HOLDERS`. -/
def Listed (s : Res) : Prop := s.holder = true

def Setup (p : Code) : Prop := Triple Listed Held p SetupEnds

/-- A part that leaves everything held, and does not return. -/
def Keeps (p : Code) : Prop := Triple Listed Held p fun o s => o ≠ .returned ∧ Held s

section
variable {s : Res} {p q : Code} {catches : Exc → Bool} {h : Exc → Code}

theorem Res.dec_active_ws_sessions_eq :
    s.dec_active_ws_sessions = { s with decs := s.decs + s.ws_metric_taken.toNat } := by
  obtain ⟨_, _, _, _, _, _, metric, _, _, _, _⟩ := s
  cases metric <;> rfl

theorem Held.unregister_ws (hs : Held s) :
    s.unregister_ws.asr_ws = false ∧ s.unregister_ws.tts_ws = false := by
  constructor
  · cases hm : s.asr_mgr <;> simp [Res.unregister_ws, hm, hs.asr]
  · cases hm : s.tts_mgr <;> simp [Res.unregister_ws, hm, hs.tts]

theorem Held.release_early (hs : Held s) : Early s.v2v_release_early := by
  obtain ⟨hasr, htts⟩ := hs.unregister_ws
  rw [Res.v2v_release_early, hs.released, if_neg nofun, Res.dec_active_ws_sessions_eq]
  exact ⟨⟨rfl, hasr, htts, rfl, hs.gauge, hs.once⟩, rfl, hs.guarded⟩

/-- The second release does nothing. -/
theorem Early.release_early (hs : Early s) : Early s.v2v_release_early := by
  rw [Res.v2v_release_early, if_pos hs.released]
  exact hs

theorem Held.release_admission (hs : Held s) : Held s.release_admission := by
  obtain ⟨hasr, htts⟩ := hs.unregister_ws
  rw [Res.release_admission, Res.dec_active_ws_sessions_eq]
  exact ⟨⟨hs.holder, hs.released, fun _ => hasr, fun _ => htts, hs.gauge, hs.once⟩, hs.guarded⟩

/-! The setup -/

theorem setup_call : Setup .call :=
  triple_call (fun _ hs => hs.holder) (fun _ hs => hs) fun _ _ hs => .inl hs

theorem setup_seq (hp : Setup p) (hq : Setup q) : Setup (.seq p q) :=
  triple_seq (hp.mono (fun _ hs => hs) fun o _ hs => by cases o <;> exact hs) hq

theorem setup_choose (hp : Setup p) (hq : Setup q) : Setup (.choose p q) := triple_choose hp hq

theorem setup_maybe (hp : Setup p) : Setup (.maybe p) := triple_maybe hp fun _ hs => hs

theorem setup_skip : Setup .skip := triple_skip fun _ hs => hs

theorem setup_handle (hh : ∀ e, catches e = true → Setup (h e)) :
    Setup (.handle catches .call h) := by
  refine triple_handle (triple_call (fun _ hs => hs.holder) (fun _ hs => hs) fun e s hs => ?_) hh
  simp only [Caught]
  split
  · exact hs
  · exact .inl hs

theorem setup_release_and_return : Setup release_and_return := by
  refine triple_seq (M := Early) (triple_act fun s hs => hs.release_early) ?_
  exact triple_ret fun _ hs => hs

theorem setup_close_and_return : Setup close_and_return :=
  setup_seq setup_call setup_release_and_return

theorem setup_reject : Setup reject := setup_seq setup_call setup_close_and_return

theorem setup_try_call : Setup try_call := setup_handle fun _ _ => setup_skip

theorem setup_try_call_base : Setup try_call_base := setup_handle fun _ _ => setup_skip

/-- A session handed over gives everything back however it ends. -/
theorem setup_hand_over : Setup hand_over := by
  refine triple_seq (M := Early) ?_ (triple_ret fun _ hs => hs)
  refine triple_ensure (M := fun o s => o ≠ .returned ∧ Held s) ?_ fun o => triple_act fun s hs => ?_
  · exact triple_call (fun _ hs => hs.holder) (fun _ hs => ⟨nofun, hs⟩) fun _ _ hs => ⟨nofun, hs⟩
  · cases o with
    | done => exact hs.2.release_early
    | returned => exact absurd rfl hs.1
    | raised e => exact .inr hs.2.release_early

theorem setup_receive_config : Setup receive_config := by
  refine setup_seq (setup_handle fun _ _ => setup_release_and_return) ?_
  refine setup_seq (setup_maybe setup_close_and_return) ?_
  refine setup_seq (setup_handle fun _ _ => setup_close_and_return) ?_
  refine setup_seq setup_call (setup_choose ?_ (setup_maybe setup_reject))
  exact setup_seq (setup_maybe setup_reject) (setup_handle fun _ _ => setup_reject)

theorem setup_parse_config : Setup parse_config := by
  refine setup_seq (setup_handle fun _ _ => ?_) (setup_maybe setup_reject)
  exact setup_seq setup_try_call (setup_seq setup_try_call setup_release_and_return)

theorem setup_realtime : Setup realtime :=
  setup_maybe <| setup_seq (setup_maybe (setup_seq setup_call setup_hand_over)) <|
    setup_seq (setup_maybe setup_reject) setup_call

theorem setup_backends : Setup backends := by
  have hready : Setup not_ready :=
    setup_seq setup_call (setup_seq setup_try_call_base setup_release_and_return)
  have hvad : Setup create_vad := by
    refine setup_handle fun e _ => ?_
    split
    · exact setup_reject
    · exact setup_skip
  refine setup_seq (setup_maybe (setup_seq setup_call ?_)) (setup_maybe (setup_seq setup_call ?_))
  · exact setup_seq (setup_maybe hready) (setup_seq setup_call hvad)
  · exact setup_seq (setup_maybe hready) setup_call

theorem setup_setup : Setup setup :=
  setup_seq setup_receive_config <| setup_seq setup_parse_config <| setup_seq setup_realtime <|
    setup_seq (setup_maybe setup_hand_over) <| setup_seq setup_backends setup_call

/-! The orchestration -/

theorem keeps_seq (hp : Keeps p) (hq : Keeps q) : Keeps (.seq p q) := by
  refine triple_seq (M := Held) (hp.mono (fun _ hs => hs) fun o _ hs => ?_) hq
  cases o with
  | done => exact hs.2
  | returned | raised => exact hs

theorem keeps_skip : Keeps .skip := triple_skip fun _ hs => ⟨nofun, hs⟩

theorem keeps_call : Keeps .call :=
  triple_call (fun _ hs => hs.holder) (fun _ hs => ⟨nofun, hs⟩) fun _ _ hs => ⟨nofun, hs⟩

theorem keeps_maybe (hp : Keeps p) : Keeps (.maybe p) := triple_maybe hp fun _ hs => ⟨nofun, hs⟩

theorem keeps_handle (hp : Keeps p) (hh : ∀ e, catches e = true → Keeps (h e)) :
    Keeps (.handle catches p h) := by
  refine triple_handle (M := fun _ => Held) (hp.mono (fun _ hs => hs) fun o s hs => ?_) hh
  cases o with
  | raised e =>
    simp only [Caught]
    split
    · exact hs.2
    · exact hs
  | done | returned => exact hs

theorem keeps_release : Keeps (.act Res.release_admission) :=
  triple_act fun _ hs => ⟨nofun, hs.release_admission⟩

theorem keeps_teardown : Keeps teardown := by
  have htry : Keeps try_call := keeps_handle keeps_call fun _ _ => keeps_skip
  refine keeps_seq (keeps_maybe (keeps_handle keeps_call fun _ _ => keeps_skip)) ?_
  refine keeps_seq (keeps_maybe htry) (keeps_seq keeps_release ?_)
  exact keeps_seq (keeps_maybe htry) (keeps_seq htry keeps_release)

theorem keeps_orchestrate : Keeps orchestrate := by
  have hthrow : ∀ e : Exc, Keeps (.throw e) := fun _ => triple_throw fun _ hs => ⟨nofun, hs⟩
  have htry : Keeps try_call := keeps_handle keeps_call fun _ _ => keeps_skip
  refine triple_ensure (M := fun o s => o ≠ .returned ∧ Held s) ?_ fun o s l o' t hs hrun => ?_
  · refine keeps_handle (triple_choose ?_ keeps_call) fun _ _ => htry
    exact keeps_handle keeps_call fun e _ => keeps_maybe (hthrow e)
  · obtain ⟨hl, ht⟩ := keeps_teardown s l o' t hs.2 hrun
    cases o' with
    | done => exact ⟨hl, hs.1, ht.2⟩
    | returned | raised => exact ⟨hl, ht⟩

/-! The handler -/

theorem opening_ends {asr_mgr tts_mgr : Bool} :
    Triple Listed (· = Res.admitted asr_mgr tts_mgr) opening (Then Opened Ends) := by
  have hsent : Triple Listed Opened (.maybe (.seq .call .call)) (Then Opened Ends) := by
    refine triple_maybe (triple_seq (M := Opened) ?_ ?_) fun _ hs => hs
    · exact triple_call (fun _ hs => hs.holder) (fun _ hs => hs) fun _ _ hs => .inr hs
    · exact triple_call (fun _ hs => hs.holder) (fun _ hs => hs) fun _ _ hs => .inr hs
  refine triple_seq (M := fun s => s = .admitted asr_mgr tts_mgr ∨
    s = (Res.admitted asr_mgr tts_mgr).inc_active_ws_sessions) ?_ (triple_seq (M := Opened) ?_ hsent)
  · exact triple_maybe (triple_act fun s hs => .inr (hs ▸ rfl)) fun _ hs => .inl hs
  · refine triple_act fun s hs => ?_
    rcases hs with rfl | rfl
    · exact ⟨⟨rfl, rfl, id, id, rfl, Nat.zero_le 1⟩, rfl, rfl⟩
    · exact ⟨⟨rfl, rfl, id, id, rfl, Nat.le_refl 1⟩, rfl, rfl⟩

theorem v2v_stream_ends {asr_mgr tts_mgr : Bool} :
    Triple Listed (· = Res.admitted asr_mgr tts_mgr) v2v_stream Ends := by
  refine triple_seq opening_ends ?_
  refine triple_handle (M := fun _ s => Held s ∨ Early s) ?_ fun e _ => ?_
  · have henter : ∀ s, Opened s → Held { s with guarded := true } := by
      intro s hs
      exact ⟨⟨hs.holder, hs.released, hs.asr, hs.tts, hs.gauge, hs.once⟩, rfl⟩
    refine triple_seq (M := Held) (triple_act henter) ?_
    refine triple_seq (M := Held) (setup_setup.mono (fun _ hs => hs) fun o _ hs => ?_) ?_
    · cases o <;> exact hs
    · refine keeps_orchestrate.mono (fun _ hs => hs) fun o _ hs => ?_
      cases o with
      | done => exact hs.2.holder
      | returned => exact absurd rfl hs.1
      | raised e => exact .inl hs.2
  · refine triple_seq (M := Early) (triple_act fun s hs => ?_) (triple_throw fun _ hs => .inl hs)
    exact hs.elim (·.release_early) (·.release_early)

end

/-! The sessions of the server -/

/-- A session since its admission; `ended` is how its handler ended, if it has. -/
structure Session where
  asr_mgr : Bool
  tts_mgr : Bool
  ended : Option (Outcome Exc)
  res : Res
  deriving DecidableEq

/-- The handler has come to its end, or is suspended on the way to one. -/
def Session.Possible (h : Session) : Prop :=
  ∃ l o t, Exec v2v_stream (.admitted h.asr_mgr h.tts_mgr) l o t ∧
    match h.ended with
    | some o' => o' = o ∧ h.res = t
    | none => h.res ∈ l

def V2V_HOLDERS (S : List Session) : List Session := S.filter (·.res.holder)

def live (S : List Session) : List Session := S.filter (·.ended.isNone)

/-- The sessions that have ended hold nothing, and the holders are the live ones. -/
def Resources (S : List Session) : Prop :=
  (∀ h ∈ S, h.ended ≠ none → GivenBack h.res) ∧ V2V_HOLDERS S = live S

theorem Session.Possible.holder {h : Session} (hp : h.Possible) (hl : h.ended = none) :
    h.res.holder = true := by
  obtain ⟨l, o, t, hrun, hm⟩ := hp
  rw [hl] at hm
  exact (v2v_stream_ends _ _ _ _ rfl hrun).1 _ hm

theorem Session.Possible.given_back_iff {h : Session} {o : Outcome Exc} (hp : h.Possible)
    (ho : h.ended = some o) : GivenBack h.res ↔ o ≠ .done ∧ h.res.guarded = true := by
  obtain ⟨l, o', t, hrun, hm⟩ := hp
  rw [ho] at hm
  obtain ⟨rfl, rfl⟩ := hm
  have hends := (v2v_stream_ends _ _ _ _ rfl hrun).2
  constructor
  · intro hg
    cases o with
    | done => exact absurd (hg.holder.symm.trans hends) nofun
    | returned => exact ⟨nofun, hends.guarded⟩
    | raised e =>
      rcases hends with hearly | hopen
      · exact ⟨nofun, hearly.guarded⟩
      · exact absurd (hg.holder.symm.trans hopen.holder) nofun
  · rintro ⟨hne, hguarded⟩
    cases o with
    | done => exact absurd rfl hne
    | returned => exact hends.toGivenBack
    | raised e =>
      rcases hends with hearly | hopen
      · exact hearly.toGivenBack
      · exact absurd (hguarded.symm.trans hopen.guarded) nofun

/-- Everything is given back just when no handler has run to the end of the orchestration's
    `finally`, and none has been left before the outer `try`. -/
theorem resources_iff (S : List Session) (hS : ∀ h ∈ S, h.Possible) :
    Resources S ↔ ∀ h ∈ S, ∀ o, h.ended = some o → o ≠ .done ∧ h.res.guarded = true := by
  constructor
  · rintro ⟨hgiven, -⟩ h hh o ho
    exact ((hS h hh).given_back_iff ho).1 (hgiven h hh (ho ▸ nofun))
  · intro hc
    have hgiven : ∀ h ∈ S, h.ended ≠ none → GivenBack h.res := by
      intro h hh hne
      obtain ⟨o, ho⟩ := Option.ne_none_iff_exists'.1 hne
      exact ((hS h hh).given_back_iff ho).2 (hc h hh o ho)
    refine ⟨hgiven, List.filter_congr fun h hh => ?_⟩
    cases ho : h.ended with
    | none => exact (hS h hh).holder ho
    | some o => exact (hgiven h hh (ho ▸ nofun)).holder

/-- A client that closes before it has sent its config. -/
theorem resources_unconfigured : Resources [⟨true, true, some .returned,
    ⟨true, true, false, false, false, false, true, 1, 1, true, true⟩⟩] := by
  refine (resources_iff _ fun h hh => ?_).2 fun h hh o ho => ?_
  · obtain rfl := List.mem_singleton.1 hh
    exact ⟨_, _, _, exec_of_replay [.left, .right, .raises .disconnect] rfl, rfl, rfl⟩
  · obtain rfl := List.mem_singleton.1 hh
    obtain rfl := Option.some.inj ho
    exact ⟨nofun, rfl⟩

/-- A session with ASR whose client closes after its config: the work tasks are cancelled and the
    `finally` comes to its end. A `realtime_v2` session whose client is gone before
    `session.created` can be sent. -/
theorem resources_kept : ∃ closed unsent : Session, closed.Possible ∧ unsent.Possible ∧
    closed.ended = some .done ∧ closed.res.holder = true ∧
    unsent.ended = some (.raised .disconnect) ∧ unsent.res.token = true ∧
    V2V_HOLDERS [closed, unsent] = [closed, unsent] ∧ live [closed, unsent] = [] ∧
    ¬ ∀ S, (∀ h ∈ S, h.Possible) → Resources S := by
  have hclosed : Session.Possible
      ⟨true, false, some .done, ⟨true, false, false, false, false, true, false, 1, 1, false, true⟩⟩ :=
    ⟨_, _, _, exec_of_replay
      [.left, .right, .finishes, .right, .finishes, .finishes, .right, .right, .finishes, .right,
        .right, .right, .left, .finishes, .right, .finishes, .finishes, .right, .finishes,
        .left, .raises .cancelled, .right,
        .left, .raises .cancelled, .left, .finishes, .right, .finishes] rfl, rfl, rfl⟩
  have hunsent : Session.Possible
      ⟨true, true, some (.raised .disconnect),
        ⟨true, true, true, true, true, true, true, 1, 0, false, false⟩⟩ :=
    ⟨_, _, _, exec_of_replay [.left, .left, .finishes, .raises .disconnect] rfl, rfl, rfl⟩
  refine ⟨_, _, hclosed, hunsent, rfl, rfl, rfl, rfl, rfl, rfl, fun hall => ?_⟩
  have hgiven := (hall _ fun h hh => List.mem_singleton.1 hh ▸ hclosed).1 _
    List.mem_cons_self nofun
  exact absurd hgiven.holder nofun

end LocalVoice.V2V.Handler
