import LocalVoice.V2V.Adapter
import LocalVoice.V2V.Line

/-! Exact speech in a realtime V2 session: the TTS side together with the adapter that translates its
    events. A direct request sets one flag, which tags the next response that is created and goes when
    a response is finished. The tag is right as long as each request finds nothing unfinished, or a
    turn that is tagged, has something to say, and one of its sentences opens the response
    (`direct_speech_tagged`). -/

namespace LocalVoice.V2V.Speech
open LocalVoice.Lib RealtimeV2EventAdapter

/-! ### The session and its adapter -/

/-- A response that was created: its tag, and the sentences whose audio it carries. -/
structure Response where
  tagged : Bool
  sentences : List Sentence
  deriving DecidableEq

/-- The numbers of the sentences that direct requests have queued, and the responses, the last one
    first, are not in the source. -/
structure Tagging where
  session : Session
  adapter : Adapter
  direct : List ℕ
  responses : List Response

def Tagging.init : Tagging := ⟨.init, .init, [], []⟩

inductive Act where
  | speech (a : Action)
  /-- `mark_cancelled`, in front of an abort. -/
  | cancelled (reason : String)
  /-- An event of the engine that is not of the TTS side. -/
  | engine (payload : Payload)
  /-- The `tts_done` behind the loop of `tts_out_task`. -/
  | closing (session_complete : Option Json)

/-- The tag of a response that an event creates. -/
def created : RealtimeV2EventAdapter.Event → Option Bool
  | .response_created _ _ direct_speak => some direct_speak
  | _ => none

/-- An event that `tts_out_task` sends. -/
def of_tts : Payload → Bool
  | .tts_started _ | .tts_done _ => true
  | _ => false

namespace Tagging
variable (id_factory : String → ℕ → String) (cfg : Config)

/-- `send_json`: the event is translated. -/
def send (S : Tagging) (payload : Payload) : Tagging :=
  { S with
    adapter := (exec (translate id_factory payload) S.adapter).2
    responses := ((exec (translate id_factory payload) S.adapter).1.filterMap created).map (⟨·, []⟩) ++
      S.responses }

/-- The audio of a sentence follows. -/
def speak (S : Tagging) (x : Sentence) : Tagging :=
  { S with
    responses := match S.responses with
      | [] => []
      | r :: rest => { r with sentences := r.sentences ++ [x] } :: rest }

/-- What else happens when the TTS side goes from one state to the next. -/
def follow (S : Tagging) (t : Session) : Action → Tagging
  | .direct_speak _ =>
    { S with
      session := t
      adapter := (exec mark_direct_speak S.adapter).2
      direct := S.direct ++ List.range' S.session.queued (t.queued - S.session.queued) }
  | .synth_starts => match S.session.current_tts_task with
    | some d =>
      (({ S with session := t } : Tagging).send id_factory
        (.tts_started (some (.str (String.ofList (d.sentence.text.map Prod.fst)))))).speak d.sentence
    | none => { S with session := t }
  | .done_sent =>
    ({ S with session := t } : Tagging).send id_factory (.tts_done (some (.bool false)))
  | _ => { S with session := t }

def step (S : Tagging) : Act → Option Tagging
  | .speech a => (S.session.step cfg a).map fun t => S.follow id_factory t a
  | .cancelled reason => some { S with adapter := (exec (mark_cancelled reason) S.adapter).2 }
  | .engine payload => if of_tts payload then none else some (S.send id_factory payload)
  | .closing session_complete =>
    if S.session.tts_out = .head ∧ S.session.tts_flush = true ∧ S.session.tts_q = [] then
      some (({ S with session := { S.session with tts_out := .ended } } : Tagging).send id_factory
        (.tts_done session_complete))
    else none

end Tagging

def Tags (id_factory : String → ℕ → String) (cfg : Config) (S : Tagging) (a : Act) (T : Tagging) : Prop :=
  S.step id_factory cfg a = some T

/-! ### When the tag is right -/

/-- The responses that carry the audio of a direct request are tagged, and no others. -/
def Labelled (S : Tagging) : Prop :=
  ∀ r ∈ S.responses, r.tagged = true ↔ ∃ x ∈ r.sentences, x.number ∈ S.direct

/-- The tag waits for a response. -/
def Tagging.armed (S : Tagging) : Prop :=
  S.adapter.direct_speak = true ∧ S.adapter.active_response_id = none

/-- A direct request comes when no `tts_done` is on its way and nothing is unfinished or open, unless
    the turn is a direct one itself, and it brings a sentence; while the tag waits, the next in line is
    of a direct request, and no tool call opens a response. -/
def Exact (cfg : Config) (S : Tagging) : Act → Prop
  | .speech (.direct_speak text) =>
    S.session.tts_out ≠ .sending_done ∧ text ≠ [] ∧
      S.session.queued < ((S.session.add cfg text).flush cfg).queued ∧
      (S.adapter.direct_speak = true ∨ S.session.line = [] ∧ S.adapter.active_response_id = none)
  | .speech a => S.armed → (S.session.remains a).head?.any fun x => x.number ∈ S.direct
  | .engine (.tool_call ..) => ¬S.armed
  | _ => True

instance (S : Tagging) : Decidable (Labelled S) := inferInstanceAs (Decidable (∀ _ ∈ _, _))

instance (S : Tagging) : Decidable S.armed := inferInstanceAs (Decidable (_ ∧ _))

instance (cfg : Config) (S : Tagging) (a : Act) : Decidable (Exact cfg S a) := by
  unfold Exact
  split <;> infer_instance

/-! ### What the adapter sends -/

section
variable (id_factory : String → ℕ → String) (s : Adapter)

/-- The tags of the responses that a call creates. -/
def tags (out : List RealtimeV2EventAdapter.Event × Adapter) : List Bool := out.1.filterMap created

/-- A response is there after a call: the one that was open, or a new one. -/
structure Opens (s : Adapter) (out : List RealtimeV2EventAdapter.Event × Adapter) : Prop where
  opened : out.2.active_response_id ≠ none
  flag : out.2.direct_speak = s.direct_speak
  created : tags out = if s.active_response_id = none then [s.direct_speak] else []

theorem ensure_opens : Opens s (exec (ensure_response_created id_factory) s) := by
  cases hid : s.active_response_id with
  | none => constructor <;> simp [ensure_response_created, hid, tags, created]
  | some id => constructor <;> simp [ensure_response_created, hid, tags]

theorem started_opens (sentence : Option Json) :
    Opens s (exec (translate id_factory (.tts_started sentence)) s) := by
  obtain ⟨hopened, hflag, hcreated⟩ := ensure_opens id_factory s
  rw [tags] at hcreated
  by_cases hann : (exec (ensure_response_created id_factory) s).2.audio_item_announced = true
  · constructor <;> simp [RealtimeV2EventAdapter.translate, ensure_audio_item_added, tags, created, *]
  · constructor <;> simp [RealtimeV2EventAdapter.translate, ensure_audio_item_added, tags, created, *]

theorem tool_call_opens (call_id id name timeout_s : Option Json) (arguments : Arguments) :
    Opens s (exec (translate id_factory (.tool_call call_id id name timeout_s arguments)) s) := by
  obtain ⟨hopened, hflag, hcreated⟩ := ensure_opens id_factory s
  rw [tags] at hcreated
  constructor <;> simp [RealtimeV2EventAdapter.translate, tags, created, *]

/-- A response is finished, which is created if there is none. -/
theorem finish_closes : (exec (finish_response id_factory) s).2.active_response_id = none ∧
    (exec (finish_response id_factory) s).2.direct_speak = false ∧
    tags (exec (finish_response id_factory) s) =
      if s.active_response_id = none then [s.direct_speak] else [] := by
  have haudio : ∀ (t : Adapter) (id : String),
      (exec (audio_done_pair id_factory id) t).1.filterMap created = [] := by
    intro t id
    cases hann : t.audio_item_announced <;> simp [audio_done_pair, hann, created]
  obtain ⟨-, -, hcreated⟩ := ensure_opens id_factory s
  rw [tags] at hcreated
  refine ⟨rfl, rfl, ?_⟩
  rw [finish_response, tags]
  simp [List.filterMap_append, haudio, created, hcreated]

/-- Any other event leaves the responses alone. -/
theorem other_quiet {payload : Payload} (hother : of_tts payload = false)
    (hcall : ∀ a b c d e, payload ≠ .tool_call a b c d e) :
    (exec (translate id_factory payload) s).2.active_response_id = s.active_response_id ∧
      (exec (translate id_factory payload) s).2.direct_speak = s.direct_speak ∧
      tags (exec (translate id_factory payload) s) = [] := by
  have hitem : (exec (input_item id_factory) s).2.active_response_id = s.active_response_id ∧
      (exec (input_item id_factory) s).2.direct_speak = s.direct_speak := by
    simp only [input_item, exec_bind, exec_get]
    split <;> exact ⟨rfl, rfl⟩
  cases payload with
  | tts_started sentence => cases hother
  | tts_done session_complete => cases hother
  | tool_call a b c d e => exact absurd rfl (hcall a b c d e)
  | vad_event event =>
    by_cases hstart : event = some (.str "speech_start") <;> simp [RealtimeV2EventAdapter.translate, hstart, tags, created]
  | tts_sentence_done sentence => exact ⟨rfl, rfl, rfl⟩
  | asr_endpoint => exact ⟨hitem.1, hitem.2, rfl⟩
  | asr_partial text is_stable => exact ⟨hitem.1, hitem.2, rfl⟩
  | asr_final text language => exact ⟨hitem.1, hitem.2, rfl⟩
  | error error code param => exact ⟨rfl, rfl, rfl⟩

end

/-! ### What stays true of the tags -/

section
variable {cfg : Config} {s t : Session} {x : Sentence} {new : List Sentence}

/-- While the flag is set, a direct sentence is next or the open response is tagged; otherwise nothing
    of a direct request is unfinished. -/
structure Exactly (S : Tagging) : Prop where
  orderly : Orderly S.session
  speaking : S.session.synthesizing → S.adapter.active_response_id ≠ none
  opened : S.adapter.active_response_id ≠ none →
    ∃ r rest, S.responses = r :: rest ∧ r.tagged = S.adapter.direct_speak
  labelled : Labelled S
  armed : S.armed → (S.session.line.head?.any fun x => x.number ∈ S.direct) = true
  calm : S.adapter.direct_speak = false → ∀ x ∈ S.session.line, x.number ∉ S.direct
  sending : S.session.tts_out = .sending_done → ∀ x ∈ S.session.line, x.number ∉ S.direct
  fresh : ∀ x ∈ S.session.line, x.number < S.session.queued
  known : ∀ n ∈ S.direct, n < S.session.queued
  heard : ∀ r ∈ S.responses, ∀ x ∈ r.sentences, x.number < S.session.queued

theorem exactly_init : Exactly .init := by
  refine ⟨⟨fun _ => rfl, nofun⟩, ?_, fun h => absurd rfl h, nofun, nofun, nofun, nofun, nofun, nofun,
    nofun⟩
  rintro ⟨d, hd, -⟩
  cases hd

variable {S : Tagging} {left : List Sentence}

/-- A tag that waits has its own sentences in line. -/
theorem Exactly.not_armed (h : Exactly S) (hline : ∀ x ∈ S.session.line, x.number ∉ S.direct) :
    ¬S.armed := by
  intro harmed
  obtain ⟨x, hx, hdirect⟩ := (Option.any_eq_true _ _).1 (h.armed harmed)
  exact hline x (List.mem_of_mem_head? hx) (of_decide_eq_true hdirect)

/-- The session goes on, and the line is no longer than it was. -/
theorem Exactly.leaves (h : Exactly S) (hleaves : Leaves S.session t left)
    (hsub : ∀ x ∈ left, x ∈ S.session.line)
    (harmed : S.armed → (left.head?.any fun x => x.number ∈ S.direct) = true) :
    Exactly { S with session := t } := by
  obtain ⟨hline, hqueued, horderly, hsynth, hsending⟩ := hleaves
  constructor
  case orderly => exact horderly
  case speaking => exact fun hs => h.speaking (hsynth hs)
  case opened => exact h.opened
  case labelled => exact h.labelled
  case armed =>
    intro ha
    dsimp only
    rw [hline]
    exact harmed ha
  case calm =>
    intro hflag x hx
    rw [hline] at hx
    exact h.calm hflag x (hsub x hx)
  case sending =>
    intro hout x hx
    dsimp only at hout hx
    rw [hline] at hx
    rcases hsending hout with hs | rfl
    · exact h.sending hs x (hsub x hx)
    · cases hx
  case fresh =>
    intro x hx
    dsimp only at hx ⊢
    rw [hqueued]
    rw [hline] at hx
    exact h.fresh x (hsub x hx)
  case known =>
    intro n hn
    dsimp only
    rw [hqueued]
    exact h.known n hn
  case heard =>
    intro r hr x hx
    dsimp only
    rw [hqueued]
    exact h.heard r hr x hx

/-- Sentences of no direct request are queued. -/
theorem Exactly.queues (h : Exactly S) (hqueues : Queues S.session t new) :
    Exactly { S with session := t } := by
  have hle : S.session.queued ≤ t.queued := by
    rw [hqueues.queued]
    exact Nat.le_add_right _ _
  have hnew : ∀ x ∈ new, x.number ∉ S.direct := fun x hx hdirect =>
    Nat.not_lt_of_le (hqueues.numbers x hx).1 (h.known _ hdirect)
  have hline := hqueues.line
  constructor
  case orderly => exact hqueues.orderly h.orderly
  case speaking =>
    rintro ⟨d, hd, hstage⟩
    exact h.speaking ⟨d, hqueues.task ▸ hd, hstage⟩
  case opened => exact h.opened
  case labelled => exact h.labelled
  case armed =>
    intro ha
    have hold := h.armed ha
    dsimp only
    rw [hline]
    cases hl : S.session.line with
    | nil =>
      rw [hl] at hold
      cases hold
    | cons x rest =>
      rw [hl] at hold
      exact hold
  case calm =>
    intro hflag x hx
    dsimp only at hx
    rw [hline] at hx
    exact (List.mem_append.1 hx).elim (h.calm hflag x) (hnew x)
  case sending =>
    intro hout x hx
    dsimp only at hout hx
    rw [hqueues.out] at hout
    rw [hline] at hx
    exact (List.mem_append.1 hx).elim (h.sending hout x) (hnew x)
  case fresh =>
    intro x hx
    dsimp only at hx ⊢
    rw [hline] at hx
    rcases List.mem_append.1 hx with hx | hx
    · exact Nat.lt_of_lt_of_le (h.fresh x hx) hle
    · exact (hqueues.numbers x hx).2
  case known => exact fun n hn => Nat.lt_of_lt_of_le (h.known n hn) hle
  case heard => exact fun r hr x hx => Nat.lt_of_lt_of_le (h.heard r hr x hx) hle

/-- A direct request is accepted. -/
theorem Exactly.direct_speak (h : Exactly S) (hqueues : Queues S.session t new)
    (hsending : S.session.tts_out ≠ .sending_done) (hsome : new ≠ [])
    (hquiet : S.adapter.direct_speak = true ∨
      S.session.line = [] ∧ S.adapter.active_response_id = none) :
    Exactly { S with
      session := t
      adapter := (exec mark_direct_speak S.adapter).2
      direct := S.direct ++ List.range' S.session.queued (t.queued - S.session.queued) } := by
  have hold := h.queues hqueues
  have hline := hqueues.line
  have hrange : ∀ n, n ∈ List.range' S.session.queued (t.queued - S.session.queued) ↔
      S.session.queued ≤ n ∧ n < t.queued := by
    intro n
    rw [List.mem_range'_1]
    omega
  have hsame : ∀ r ∈ S.responses, ∀ x ∈ r.sentences,
      x.number ∈ S.direct ++ List.range' S.session.queued (t.queued - S.session.queued) ↔
        x.number ∈ S.direct := by
    intro r hr x hx
    have hlt := h.heard r hr x hx
    rw [List.mem_append, hrange]
    exact or_iff_left fun hge => Nat.not_lt_of_le hge.1 hlt
  constructor
  case orderly => exact hold.orderly
  case speaking => exact hold.speaking
  case opened =>
    intro hopen
    obtain ⟨r, rest, hr, htag⟩ := h.opened hopen
    refine ⟨r, rest, hr, ?_⟩
    rcases hquiet with hflag | ⟨-, hclosed⟩
    · rw [htag, hflag]
      rfl
    · exact absurd hclosed hopen
  case labelled =>
    intro r hr
    rw [h.labelled r hr]
    exact exists_congr fun x => and_congr_right fun hx => (hsame r hr x hx).symm
  case armed =>
    rintro ⟨-, hclosed⟩
    dsimp only
    rw [hline]
    rcases hquiet with hflag | ⟨hnil, -⟩
    · obtain ⟨x, hx, hdirect⟩ := (Option.any_eq_true _ _).1 (h.armed ⟨hflag, hclosed⟩)
      refine (Option.any_eq_true _ _).2 ⟨x, ?_, decide_eq_true ?_⟩
      · rw [List.head?_append, hx]
        rfl
      · exact List.mem_append_left _ (of_decide_eq_true hdirect)
    · rw [hnil, List.nil_append]
      cases new with
      | nil => exact absurd rfl hsome
      | cons x rest =>
        refine decide_eq_true (List.mem_append_right _ ((hrange _).2 ?_))
        exact hqueues.numbers x List.mem_cons_self
  case calm => exact nofun
  case sending =>
    intro hout
    dsimp only at hout
    rw [hqueues.out] at hout
    exact absurd hout hsending
  case fresh => exact hold.fresh
  case known =>
    intro n hn
    rcases List.mem_append.1 hn with hn | hn
    · exact hold.known n hn
    · exact ((hrange n).1 hn).2
  case heard => exact hold.heard

variable {id_factory : String → ℕ → String}

/-- A response that was just created or was open already, with the tag of the flag. -/
theorem Exactly.newest (h : Exactly S) {payload : Payload}
    (hopens : Opens S.adapter (exec (translate id_factory payload) S.adapter)) :
    ∃ r rest, (S.send id_factory payload).responses = r :: rest ∧
      r.tagged = S.adapter.direct_speak ∧
      ((S.responses = r :: rest) ∨ (rest = S.responses ∧ r.sentences = [] ∧
        S.adapter.active_response_id = none)) := by
  have hcreated := hopens.created
  rw [tags] at hcreated
  rw [Tagging.send, hcreated]
  by_cases hid : S.adapter.active_response_id = none
  · rw [if_pos hid]
    exact ⟨_, _, rfl, rfl, .inr ⟨rfl, rfl, hid⟩⟩
  · rw [if_neg hid]
    obtain ⟨r, rest, hr, htag⟩ := h.opened hid
    exact ⟨r, rest, hr, htag, .inl hr⟩

/-- A tool call opens a response that is not tagged, or adds to one. -/
theorem Exactly.tool_call (h : Exactly S) (harmed : ¬S.armed) {payload : Payload}
    (hopens : Opens S.adapter (exec (translate id_factory payload) S.adapter)) :
    Exactly (S.send id_factory payload) := by
  obtain ⟨r, rest, hresponses, htag, hcases⟩ := h.newest hopens
  have hmem : ∀ q ∈ (S.send id_factory payload).responses,
      q ∈ S.responses ∨ q.sentences = [] ∧ q.tagged = false := by
    intro q hq
    rw [hresponses] at hq
    rcases hcases with hold | ⟨rfl, hnil, hid⟩
    · exact .inl (hold ▸ hq)
    · rcases List.mem_cons.1 hq with rfl | hq
      · refine .inr ⟨hnil, ?_⟩
        rw [htag]
        exact Bool.eq_false_iff.2 fun hflag => harmed ⟨hflag, hid⟩
      · exact .inl hq
  constructor
  case orderly => exact h.orderly
  case speaking => exact fun _ => hopens.opened
  case opened => exact fun _ => ⟨r, rest, hresponses, htag.trans hopens.flag.symm⟩
  case labelled =>
    intro q hq
    rcases hmem q hq with hold | ⟨hnil, htagged⟩
    · exact h.labelled q hold
    · rw [hnil, htagged]
      simp
  case armed => exact fun ha => absurd ha.2 hopens.opened
  case calm => exact fun hflag => h.calm (hopens.flag.symm.trans hflag)
  case sending => exact h.sending
  case fresh => exact h.fresh
  case known => exact h.known
  case heard =>
    intro q hq x hx
    rcases hmem q hq with hold | ⟨hnil, -⟩
    · exact h.heard q hold x hx
    · rw [hnil] at hx
      cases hx

/-- A sentence starts: its response has the right tag. -/
theorem Exactly.starts (h : Exactly S) (hstarts : Starts S.session t x) {payload : Payload}
    (hopens : Opens S.adapter (exec (translate id_factory payload) S.adapter)) :
    Exactly ((({ S with session := t } : Tagging).send id_factory payload).speak x) := by
  obtain ⟨r, rest, hresponses, htag, hcases⟩ := h.newest hopens
  have hsend : (({ S with session := t } : Tagging).send id_factory payload).responses = r :: rest :=
    hresponses
  have hx : x ∈ S.session.line := List.mem_of_mem_head? hstarts.first
  have hall : ((({ S with session := t } : Tagging).send id_factory payload).speak x).responses =
      { r with sentences := r.sentences ++ [x] } :: rest := by
    rw [Tagging.speak, hsend]
  have hrest : ∀ q ∈ rest, q ∈ S.responses := by
    rcases hcases with hold | ⟨rfl, -, -⟩
    · rw [hold]
      exact fun q hq => List.mem_cons_of_mem _ hq
    · exact fun q hq => hq
  have hr : r ∈ S.responses ∨ r.sentences = [] := by
    rcases hcases with hold | ⟨-, hnil, -⟩
    · rw [hold]
      exact .inl List.mem_cons_self
    · exact .inr hnil
  have hfirst : r.tagged = true ↔ ∃ y ∈ r.sentences ++ [x], y.number ∈ S.direct := by
    rw [htag]
    constructor
    · intro hflag
      rcases hcases with hold | ⟨-, -, hid⟩
      · have hlabel := h.labelled r (by rw [hold]; exact List.mem_cons_self)
        obtain ⟨y, hy, hdirect⟩ := hlabel.1 (htag.trans hflag)
        exact ⟨y, List.mem_append_left _ hy, hdirect⟩
      · have hhead := h.armed ⟨hflag, hid⟩
        rw [hstarts.first] at hhead
        exact ⟨x, List.mem_append_right _ (List.mem_singleton_self x), of_decide_eq_true hhead⟩
    · rintro ⟨y, hy, hdirect⟩
      by_contra hflag
      have hflag := Bool.eq_false_iff.2 hflag
      rcases List.mem_append.1 hy with hy | hy
      · rcases hr with hr | hnil
        · have htagged := (h.labelled r hr).2 ⟨y, hy, hdirect⟩
          rw [htag, hflag] at htagged
          cases htagged
        · rw [hnil] at hy
          cases hy
      · rw [List.mem_singleton.1 hy] at hdirect
        exact h.calm hflag x hx hdirect
  constructor
  case orderly => exact hstarts.orderly
  case speaking => exact fun _ => hopens.opened
  case opened => exact fun _ => ⟨_, rest, hall, htag.trans hopens.flag.symm⟩
  case labelled =>
    intro q hq
    rw [hall] at hq
    rcases List.mem_cons.1 hq with rfl | hq
    · exact hfirst
    · exact h.labelled q (hrest q hq)
  case armed => exact fun ha => absurd ha.2 hopens.opened
  case calm =>
    intro hflag y hy
    exact h.calm (hopens.flag.symm.trans hflag) y (hstarts.line ▸ hy)
  case sending =>
    intro hout y hy
    exact h.sending (hstarts.out.symm.trans hout) y (hstarts.line ▸ hy)
  case fresh =>
    intro y hy
    exact Nat.lt_of_lt_of_eq (h.fresh y (hstarts.line ▸ hy)) hstarts.queued.symm
  case known => exact fun n hn => Nat.lt_of_lt_of_eq (h.known n hn) hstarts.queued.symm
  case heard =>
    intro q hq y hy
    refine Nat.lt_of_lt_of_eq ?_ hstarts.queued.symm
    rw [hall] at hq
    rcases List.mem_cons.1 hq with rfl | hq
    · rcases List.mem_append.1 hy with hy | hy
      · rcases hr with hr | hnil
        · exact h.heard r hr y hy
        · rw [hnil] at hy
          cases hy
      · rw [List.mem_singleton.1 hy]
        exact h.fresh x hx
    · exact h.heard q (hrest q hq) y hy

/-- A `tts_done` closes the response, or is left out. -/
theorem Exactly.done (h : Exactly S) (hcalm : ∀ x ∈ S.session.line, x.number ∉ S.direct)
    (hidle : S.session.current_tts_task = none) (session_complete : Option Json) :
    Exactly (S.send id_factory (.tts_done session_complete)) := by
  have harmed := h.not_armed hcalm
  by_cases hquiet : S.adapter.active_response_id = none ∧ session_complete = some (.bool true)
  · have hsame : exec (translate id_factory (.tts_done session_complete)) S.adapter = ([], S.adapter) := by
      change exec (if S.adapter.active_response_id = none ∧ session_complete = some (.bool true) then
        pure [] else finish_response id_factory) S.adapter = _
      rw [if_pos hquiet]
      rfl
    rw [Tagging.send, hsame]
    exact h
  · have hfinish : exec (translate id_factory (.tts_done session_complete)) S.adapter =
        exec (finish_response id_factory) S.adapter := by
      change exec (if S.adapter.active_response_id = none ∧ session_complete = some (.bool true) then
        pure [] else finish_response id_factory) S.adapter = _
      rw [if_neg hquiet]
    obtain ⟨hclosed, hflag, hcreated⟩ := finish_closes id_factory S.adapter
    rw [tags] at hcreated
    rw [Tagging.send, hfinish]
    have hmem : ∀ q ∈ ((exec (finish_response id_factory) S.adapter).1.filterMap created).map
        (⟨·, []⟩) ++ S.responses, q ∈ S.responses ∨ q = ⟨false, []⟩ := by
      intro q hq
      rw [hcreated] at hq
      rcases List.mem_append.1 hq with hq | hq
      · split at hq
        · next hid =>
          have hoff : S.adapter.direct_speak = false :=
            Bool.eq_false_iff.2 fun hon => harmed ⟨hon, hid⟩
          rw [hoff] at hq
          exact .inr (List.mem_singleton.1 hq)
        · cases hq
      · exact .inl hq
    constructor
    case orderly => exact h.orderly
    case speaking =>
      rintro ⟨d, hd, -⟩
      rw [hidle] at hd
      cases hd
    case opened => exact fun hopen => absurd hclosed hopen
    case labelled =>
      intro q hq
      rcases hmem q hq with hold | rfl
      · exact h.labelled q hold
      · simp
    case armed => exact fun ha => absurd (hflag.symm.trans ha.1) nofun
    case calm => exact fun _ => hcalm
    case sending => exact h.sending
    case fresh => exact h.fresh
    case known => exact h.known
    case heard =>
      intro q hq x hx
      rcases hmem q hq with hold | rfl
      · exact h.heard q hold x hx
      · cases hx

/-! ### Runs -/

/-- A direct request that brings a sentence. -/
theorem direct_queues (text : List Char) (h : Steps cfg s (.direct_speak text) t)
    (hsome : text ≠ []) (hmore : s.queued < ((s.add cfg text).flush cfg).queued) :
    ∃ new, Queues s t new ∧ new ≠ [] := by
  obtain ⟨new, hnew⟩ := queues_spec rfl h
  refine ⟨new, hnew, ?_⟩
  rintro rfl
  have hqueued := hnew.queued
  simp only [Steps, Session.step] at h
  split at h
  · cases h
    exact Nat.ne_of_gt hmore hqueued
  · cases h

/-- A step of the TTS side. -/
theorem Exactly.speech (h : Exactly S) {a : Action} (hexact : Exact cfg S (.speech a))
    (hst : Steps cfg S.session a t) : Exactly (S.follow id_factory t a) := by
  by_cases hqueues : a.queues = true
  · obtain ⟨new, hnew⟩ := queues_spec hqueues hst
    cases a with
    | direct_speak text =>
      obtain ⟨hsending, hsome, hmore, hquiet⟩ := hexact
      obtain ⟨new, hnew, hne⟩ := direct_queues text hst hsome hmore
      exact h.direct_speak hnew hsending hne hquiet
    | text text => exact h.queues hnew
    | tts_flush => exact h.queues hnew
    | _ => cases hqueues
  · have hqueues := Bool.eq_false_iff.2 hqueues
    by_cases hstart : a = .synth_starts
    · subst hstart
      obtain ⟨d, hd, hstarts⟩ := synth_starts_spec h.orderly hst
      rw [Tagging.follow, hd]
      exact h.starts hstarts (started_opens id_factory S.adapter _)
    · have hleaves := leaves_spec h.orderly hqueues hstart hst
      have hsub : ∀ x ∈ S.session.remains a, x ∈ S.session.line := fun x hx =>
        (remains_sublist S.session a).mem hx
      have hnext : Exact cfg S (.speech a) → Exactly { S with session := t } := by
        cases a with
        | direct_speak text => cases hqueues
        | _ => exact fun hexact => h.leaves hleaves hsub hexact
      have hgone := hnext hexact
      cases a with
      | done_sent =>
        obtain ⟨hout, rfl⟩ := guarded hst
        refine hgone.done (fun x hx => h.sending hout x (hsub x ?_)) (hgone.orderly.idle rfl) _
        rw [← hleaves.line]
        exact hx
      | direct_speak text => cases hqueues
      | synth_starts => exact absurd rfl hstart
      | _ => exact hgone

theorem cancelled_quiet (reason : String) (s : Adapter) :
    (exec (mark_cancelled reason) s).2.active_response_id = s.active_response_id ∧
      (exec (mark_cancelled reason) s).2.direct_speak = s.direct_speak := by
  cases hid : s.active_response_id <;> simp [mark_cancelled, hid]

theorem Exactly.cancelled (h : Exactly S) (reason : String) :
    Exactly { S with adapter := (exec (mark_cancelled reason) S.adapter).2 } := by
  obtain ⟨hid, hflag⟩ := cancelled_quiet reason S.adapter
  constructor
  case orderly => exact h.orderly
  case speaking => exact fun hs => hid ▸ h.speaking hs
  case opened =>
    intro hopen
    obtain ⟨r, rest, hr, htag⟩ := h.opened (hid ▸ hopen)
    exact ⟨r, rest, hr, htag.trans hflag.symm⟩
  case labelled => exact h.labelled
  case armed => exact fun ha => h.armed ⟨hflag.symm.trans ha.1, hid.symm.trans ha.2⟩
  case calm => exact fun hoff => h.calm (hflag.symm.trans hoff)
  case sending => exact h.sending
  case fresh => exact h.fresh
  case known => exact h.known
  case heard => exact h.heard

/-- An event that has nothing to do with responses. -/
theorem Exactly.other (h : Exactly S) {payload : Payload} (hother : of_tts payload = false)
    (hcall : ∀ a b c d e, payload ≠ .tool_call a b c d e) : Exactly (S.send id_factory payload) := by
  obtain ⟨hid, hflag, hcreated⟩ := other_quiet id_factory S.adapter hother hcall
  rw [tags] at hcreated
  have hsame : (S.send id_factory payload).responses = S.responses := by
    rw [Tagging.send, hcreated]
    rfl
  constructor
  case orderly => exact h.orderly
  case speaking => exact fun hs => hid ▸ h.speaking hs
  case opened =>
    intro hopen
    obtain ⟨r, rest, hr, htag⟩ := h.opened (hid ▸ hopen)
    exact ⟨r, rest, hsame.trans hr, htag.trans hflag.symm⟩
  case labelled => exact fun r hr => h.labelled r (hsame ▸ hr)
  case armed => exact fun ha => h.armed ⟨hflag.symm.trans ha.1, hid.symm.trans ha.2⟩
  case calm => exact fun hoff => h.calm (hflag.symm.trans hoff)
  case sending => exact h.sending
  case fresh => exact h.fresh
  case known => exact h.known
  case heard => exact fun r hr => h.heard r (hsame ▸ hr)

/-- The step lemma. -/
theorem step_exactly {a : Act} {T : Tagging} (hexact : Exact cfg S a)
    (hst : Tags id_factory cfg S a T) (h : Exactly S) : Exactly T := by
  cases a with
  | speech a =>
    obtain ⟨t, ht, rfl⟩ := Option.map_eq_some_iff.1 hst
    exact h.speech hexact ht
  | cancelled reason =>
    cases hst
    exact h.cancelled reason
  | engine payload =>
    simp only [Tags, Tagging.step] at hst
    split at hst
    · cases hst
    · next hother =>
      cases hst
      have hother := Bool.eq_false_iff.2 hother
      cases payload with
      | tool_call a b c d e =>
        rw [Exact] at hexact
        exact h.tool_call hexact (tool_call_opens id_factory S.adapter a b c d e)
      | _ =>
        refine h.other hother ?_
        intro _ _ _ _ _ heq
        cases heq
  | closing session_complete =>
    simp only [Tags, Tagging.step] at hst
    split at hst
    · next hclosing =>
      cases hst
      obtain ⟨hhead, -, hqueue⟩ := hclosing
      have hidle := h.orderly.idle (by rw [hhead]; rfl)
      have hline : S.session.line = [] := by
        rw [Session.line, Session.spoken, Session.taken, hidle, hhead, hqueue]
        rfl
      have hended : Leaves S.session { S.session with tts_out := .ended } S.session.line := by
        refine ⟨?_, rfl, ⟨fun _ => hidle, (by intro h; cases h)⟩, id, (by intro h; cases h)⟩
        rw [Session.line, Session.line, Session.taken, Session.taken, hhead]
        rfl
      have hgone := h.leaves hended (fun x hx => hx) h.armed
      refine hgone.done (fun x hx => ?_) hidle _
      have hx : x ∈ Session.line _ := hx
      rw [hended.line, hline] at hx
      cases hx
    · cases hst

end

/-- In a run whose direct requests are exact, the responses that carry the audio of a direct request
    are tagged, and no others are. -/
theorem direct_speech_tagged {id_factory : String → ℕ → String} {cfg : Config} {as : List Act}
    {S : Tagging} (h : Run (restrict (Exact cfg) (Tags id_factory cfg)) .init as S) : Labelled S :=
  (h.invariant (I := Exactly) (fun hs hst => step_exactly hst.1 hst.2 hs) exactly_init).labelled

/-- A factory whose ids are numbered. -/
def numbered (kind : String) (n : ℕ) : String := kind ++ "_" ++ toString n

/-- The next sentence is taken and starts, and it is over. -/
def said : List Act := spoken_next.map .speech

/-- Two exact turns, and a reply between them. -/
def exact_turns : List Act :=
  [.speech (.direct_speak "One!".toList)] ++ said ++ [.speech .pass, .speech .done_sent] ++
    [.speech (.text "Two!".toList), .speech .tts_flush] ++ said ++ [.speech .pass, .speech .done_sent] ++
    [.speech (.direct_speak "Three!".toList)] ++ said

theorem direct_speech_tagged_exact_turns :
    ∃ S, Run (restrict (Exact english) (Tags numbered english)) .init exact_turns S ∧
      S.responses.map Response.tagged = [true, false, true] ∧ Labelled S := by
  obtain ⟨S, hrun, htags⟩ := Run.of_replay_any
    (fun S a => if Exact english S a then S.step numbered english a else none) .init exact_turns
    (fun S => S.responses.map Response.tagged = [true, false, true]) (by decide +kernel)
  have hrun' : Run (restrict (Exact english) (Tags numbered english)) .init exact_turns S :=
    Run.restrict_mono hrun
  exact ⟨S, hrun', of_decide_eq_true htags, direct_speech_tagged hrun'⟩

/-- The request comes while a reply is spoken. -/
def request_in_reply : List Act :=
  [.speech (.text "One!".toList)] ++ said ++ [.speech (.direct_speak "Two!".toList)] ++ said

/-- What it says is part of the reply's response, which is not tagged. -/
theorem request_joins_reply :
    ¬ ∀ (id_factory : String → ℕ → String) (cfg : Config) (as : List Act) (S : Tagging),
      Run (Tags id_factory cfg) .init as S → Labelled S := by
  intro hall
  obtain ⟨S, hrun, hlabels⟩ := Run.of_replay_any (fun S a => S.step numbered english a) .init
    request_in_reply (fun S => ¬Labelled S) (by decide +kernel)
  exact of_decide_eq_true hlabels (hall numbered english request_in_reply S hrun)

end LocalVoice.V2V.Speech
