import LocalVoice.AsrStream.Backend

/-! What a session of `/asr/stream` does with its streams and with the audio. A stream that was replaced
    was closed once, and each piece of audio is accepted by one stream. A final is given the audio since
    the final before it: the windows are in order and apart, and where no utterance is dropped they leave
    out nothing.

        received   │ final │ dropped │ final │ final │ _seg │
                   0                                        t -/

namespace LocalVoice.AsrStream
open LocalVoice.Lib Flow

/-- The audio of the final is what was received in its window. -/
def Slice (s : Session) (f : Final) : Prop :=
  f.seg_start ≤ f.seg_end ∧ f.seg_end ≤ s.t_samples ∧
    f.seg.flatten = (s.received.flatten.take f.seg_end).drop f.seg_start

/-- What holds of a session also where it is suspended, and where it ends; `all` is the audio of the
    messages, and the last stream was closed at most `n` times. -/
structure Over (all : List Chunk) (n : ℕ) (s : Session) : Prop where
  old_closed : ∀ x ∈ s.old, x.closes = 1
  at_most : s.stream.closes ≤ n
  fed : s.fed <+: s.received
  within : s.received <+: all
  heard : s.t_samples ≤ s.received.flatten.length
  sliced : ∀ f ∈ s.finals, Slice s f
  ordered : s.finals.Pairwise fun f g => f.seg_end ≤ g.seg_start

section
variable (all : List Chunk) (spk_on : Bool) (received : List Chunk) (closes : ℕ)

/-- Nothing is between the buffer and the stream, and the finals end where the segment begins. -/
structure Ready (kept : Bool) (s : Session) : Prop extends Over all 1 s where
  is_closed : s.stream.closes = closes
  all_fed : s.fed = received
  taken : s.received = received
  counted : spk_on = true → s.t_samples = received.flatten.length
  seg_le : s.seg.flatten.length ≤ s.t_samples
  seg_slice : s.seg.flatten = (received.flatten.take s.t_samples).drop (s.t_samples - s.seg.flatten.length)
  before : ∀ f ∈ s.finals, f.seg_end ≤ s.t_samples - s.seg.flatten.length
  whole : kept = true → s.finals.flatMap Final.seg ++ s.seg = received

/-- When the final is sent and the segment cleared, all is as before. -/
def Built (kept : Bool) (s : Session) : Prop :=
  Over all 1 s ∧ Ready all spk_on received closes kept s.send_payload.clear_seg

end

variable {all received : List Chunk} {spk_on kept : Bool} {closes : ℕ} {s : Session}

/-! ### The operations -/

theorem finals_sent {f : Frame} (hf : ∀ g, f ≠ .final g) : (s.sent f).finals = s.finals := by
  have hnone : [f].filterMap Frame.final? = [] := by
    cases f with
    | final g => exact absurd rfl (hf g)
    | reset | partial_text | vad_endpoint | busy | summary | error | close => rfl
  rw [Session.finals, Session.sent, List.filterMap_append, hnone, List.append_nil]
  rfl

theorem fed_close (s : Session) : s.close_stream.fed = s.fed := by simp [Session.fed, Session.close_stream]

theorem fed_create (s : Session) : s.create_stream.fed = s.fed := by
  simp [Session.fed, Session.create_stream, fresh]

theorem Over.sent {n : ℕ} (h : Over all n s) {f : Frame} (hf : ∀ g, f ≠ .final g) : Over all n (s.sent f) :=
  { h with sliced := (finals_sent hf).symm ▸ h.sliced, ordered := (finals_sent hf).symm ▸ h.ordered }

theorem Ready.sent (h : Ready all spk_on received closes kept s) {f : Frame} (hf : ∀ g, f ≠ .final g) :
    Ready all spk_on received closes kept (s.sent f) :=
  { h.toOver.sent hf, h with
    before := (finals_sent hf).symm ▸ h.before, whole := (finals_sent hf).symm ▸ h.whole }

theorem Ready.close (h : Ready all spk_on received 0 kept s) :
    Ready all spk_on received 1 kept s.close_stream := by
  have hone : s.close_stream.stream.closes = 1 := congrArg (· + 1) h.is_closed
  exact { h with
    at_most := Nat.le_of_eq hone, fed := (fed_close s).symm ▸ h.fed, is_closed := hone,
    all_fed := (fed_close s).trans h.all_fed }

theorem Ready.create (h : Ready all spk_on received 1 kept s) :
    Ready all spk_on received 0 kept s.create_stream := by
  refine { h with
    old_closed := fun x hx => ?_, at_most := Nat.zero_le _, fed := (fed_create s).symm ▸ h.fed,
    is_closed := rfl, all_fed := (fed_create s).trans h.all_fed }
  rcases List.mem_append.1 hx with hx | hx
  · exact h.old_closed x hx
  · rw [List.mem_singleton.1 hx]
    exact h.is_closed

/-- The segment that is empty is the slice behind all samples. -/
theorem nil_slice (n : ℕ) (l : Chunk) : [] = (l.take n).drop n :=
  (List.drop_eq_nil_of_le (List.length_take_le n l)).symm

theorem Ready.clear (h : Ready all spk_on received closes false s) :
    Ready all spk_on received closes false s.clear_seg :=
  { h with
    seg_le := Nat.zero_le _, seg_slice := nil_slice _ _, before := fun f hf => (h.sliced f hf).2.1,
    whole := fun hh => by cases hh }

theorem Ready.build (h : Ready all spk_on received closes kept s) (text : String)
    (language endpoint : Option String) :
    Built all spk_on received closes kept (s.build text language endpoint) := by
  have hslice := h.seg_slice
  rw [← h.taken] at hslice
  have hfinals : (s.build text language endpoint).send_payload.clear_seg.finals = s.finals ++
      [⟨text, language, endpoint, s.seg, s.t_samples - s.seg.flatten.length, s.t_samples⟩] :=
    List.filterMap_append
  have hsliced : ∀ f ∈ (s.build text language endpoint).send_payload.clear_seg.finals, Slice s f := by
    rw [hfinals]
    intro f hf
    rcases List.mem_append.1 hf with hf | hf
    · exact h.sliced f hf
    · rw [List.mem_singleton.1 hf]
      exact ⟨Nat.sub_le _ _, Nat.le_refl _, hslice⟩
  refine ⟨{ h with }, { h with
    sliced := hsliced, ordered := ?_, seg_le := Nat.zero_le _, seg_slice := nil_slice _ _,
    before := fun f hf => (hsliced f hf).2.1, whole := fun hkept => ?_ }⟩
  · rw [hfinals, List.pairwise_append]
    refine ⟨h.ordered, List.pairwise_singleton _ _, fun f hf g hg => ?_⟩
    rw [List.mem_singleton.1 hg]
    exact h.before f hf
  · rw [hfinals, List.flatMap_append, List.flatMap_singleton]
    exact (List.append_nil _).trans (h.whole hkept)

/-! ### Audio -/

section
variable {samples : Chunk}

/-- The audio is in the buffer, and not yet in the stream. -/
theorem Ready.buffer (h : Ready all spk_on received 0 kept s) (hall : received ++ [samples] <+: all) :
    Over all 1 (s.buffer spk_on samples) := by
  have hsamples : s.t_samples ≤ (s.buffer spk_on samples).t_samples := by
    simp only [Session.buffer]
    split <;> omega
  refine { h with fed := ?_, within := ?_, heard := ?_, sliced := fun f hf => ?_ }
  · have hfed : s.fed = s.received := h.all_fed.trans h.taken.symm
    exact (show (s.buffer spk_on samples).fed = s.received from hfed) ▸ List.prefix_append _ _
  · rwa [Session.buffer, h.taken]
  · have hheard := h.heard
    simp only [Session.buffer, List.flatten_append, List.flatten_singleton, List.length_append]
    split <;> omega
  -- what was received of a window is as it was
  · obtain ⟨hle, hend, hseg⟩ := h.sliced f hf
    refine ⟨hle, Nat.le_trans hend hsamples, ?_⟩
    rw [hseg, Session.buffer, List.flatten_append, List.take_append_of_le_length (Nat.le_trans hend h.heard)]

/-- The audio is in the stream too. -/
theorem Ready.accept (h : Ready all spk_on received 0 kept s) (hall : received ++ [samples] <+: all)
    (hkept : kept = true → spk_on = true) :
    Ready all spk_on (received ++ [samples]) 0 kept ((s.buffer spk_on samples).accept_waveform samples) := by
  have hfed : ((s.buffer spk_on samples).accept_waveform samples).fed = received ++ [samples] := by
    rw [← h.all_fed]
    simp [Session.fed, Session.accept_waveform, Session.buffer]
  have hreceived : ((s.buffer spk_on samples).accept_waveform samples).received = received ++ [samples] :=
    congrArg (· ++ [samples]) h.taken
  have hover : Over all 1 ((s.buffer spk_on samples).accept_waveform samples) :=
    { h.buffer hall with fed := hfed.trans hreceived.symm ▸ List.prefix_rfl }
  have hlen := h.seg_le
  have hslice := h.seg_slice
  cases spk_on with
  | false =>
    have hheard := h.heard
    rw [h.taken] at hheard
    refine { hover, h with
      all_fed := hfed, taken := hreceived, counted := fun hh => (by cases hh), seg_slice := ?_,
      whole := fun hh => by cases hkept hh }
    have hgoal : s.seg.flatten =
        ((received ++ [samples]).flatten.take s.t_samples).drop (s.t_samples - s.seg.flatten.length) := by
      rw [List.flatten_append, List.take_append_of_le_length hheard]
      exact hslice
    exact hgoal
  | true =>
    have hcount := h.counted rfl
    rw [hcount, List.take_length] at hslice
    have hflat : (s.seg ++ [samples]).flatten = s.seg.flatten ++ samples := by
      rw [List.flatten_append, List.flatten_singleton]
    have hsum : s.t_samples + samples.length = (received ++ [samples]).flatten.length := by
      rw [List.flatten_append, List.flatten_singleton, List.length_append, hcount]
    have hless : (s.seg ++ [samples]).flatten.length ≤ s.t_samples + samples.length := by
      rw [hflat, List.length_append]
      omega
    have hback : s.t_samples + samples.length - (s.seg ++ [samples]).flatten.length =
        s.t_samples - s.seg.flatten.length := by
      rw [hflat, List.length_append]
      omega
    refine { hover, h with
      all_fed := hfed, taken := hreceived, counted := fun _ => hsum, seg_le := hless, seg_slice := ?_,
      before := fun f hf => hback.symm ▸ h.before f hf, whole := fun hh => ?_ }
    · have hgoal : (s.seg ++ [samples]).flatten = ((received ++ [samples]).flatten.take
          (s.t_samples + samples.length)).drop (s.t_samples - s.seg.flatten.length) := by
        rw [hsum, List.take_length, hflat, List.flatten_append, List.flatten_singleton,
          List.drop_append_of_le_length (by omega), hcount]
        exact congrArg (· ++ samples) hslice
      rw [← hback] at hgoal
      exact hgoal
    · rw [← h.whole hh, List.append_assoc]
      rfl

end

/-! ### The code -/

section
/-- Code that finishes in states of `Q`. -/
def Leads (all : List Chunk) (P Q : Session → Prop) (p : Code) : Prop :=
  Triple (Over all 1) P p (Ends Q (Over all 1))

/-- Code that begins where all of `received` is taken, and finishes where all of `received'` is. -/
def Serves (all : List Chunk) (spk_on kept : Bool) (received received' : List Chunk) : Code → Prop :=
  Leads all (Ready all spk_on received 0 kept) (Ready all spk_on received' 0 kept)

variable {o : Options} {P : Session → Prop}

/-- A frame that is no final. -/
theorem send_ready {f : Frame} (hf : ∀ g, f ≠ .final g) : Triple (Over all 1)
    (Ready all spk_on received 0 kept) (send f)
    (Ends (Ready all spk_on received 0 kept) (Ready all spk_on received 0 kept)) :=
  ends_send (fun _ h => h.toOver) fun _ h => h.sent hf

theorem ready_over {p : Code} {Q : Session → Prop} (hp : Triple (Over all 1) P p
    (Ends Q (Ready all spk_on received 0 kept))) : Leads all P Q p :=
  ends_weaken hp fun _ h => h.toOver

theorem busy_ready (reason : String) : Serves all spk_on kept received received (send_asr_busy reason) :=
  ready_over (ends_attempt (send_ready fun _ => nofun))

theorem call_over (hP : ∀ s, P s → Over all 1 s) : Leads all P P .call :=
  ends_call hP hP

theorem finalize_over (hP : ∀ s, P s → Over all 1 s) : Leads all P P finalize :=
  ends_seq (call_over hP) (ends_seq (call_over hP) (call_over hP))

theorem augment_over (hP : ∀ s, P s → Over all 1 s) : Leads all P P (augment_final_payload o) := by
  rw [augment_final_payload]
  split
  · exact ends_weaken (ends_attempt (ends_call hP fun _ h => h)) hP
  · exact triple_skip fun _ h => h

theorem rearm_ready : Serves all spk_on kept received received rearm :=
  ends_seq (ends_act fun _ h => h.close) (ends_seq (call_over fun _ h => h.toOver) (ends_act fun _ h => h.create))

theorem rearm_clear_ready : Serves all spk_on false received received rearm_clear :=
  ends_seq rearm_ready (ends_act fun _ h => h.clear)

/-- What is in the buffer was sent. -/
theorem rearm_clear_sent : Leads all (fun s => Ready all spk_on received 0 kept s.clear_seg)
    (Ready all spk_on received 0 kept) rearm_clear :=
  ends_seq (M := fun s => Ready all spk_on received 0 kept s.clear_seg)
    (ends_seq (M := fun s => Ready all spk_on received 1 kept s.clear_seg) (ends_act fun _ h => h.close)
      (ends_seq (call_over fun _ h => { h with }) (ends_act fun _ h => h.create)))
    (ends_act fun _ h => h)

theorem final_and_clear_ready (text : String) (language : Option String) :
    Serves all spk_on kept received received (final_and_clear o text language) :=
  ends_seq (M := Built all spk_on received 0 kept) (ends_act fun _ h => h.build text language none) <|
    ends_seq (augment_over fun _ h => h.1) <|
    ends_seq (M := fun s => Over all 1 s ∧ Ready all spk_on received 0 kept s.send_payload)
      (ends_act fun _ h => ⟨{ h.1 with }, h.2⟩) <|
    ends_seq (call_over fun _ h => h.1) (ends_act fun _ h => h.2)

variable {t : Turn} (hdrop : kept = true → drops t = false)
include hdrop

theorem not_kept (h : t.queue_full = true ∨ t.message = .text .reset) : kept = false := by
  cases kept with
  | false => rfl
  | true =>
    have hno := hdrop rfl
    rcases h with h | h
    · simp [drops, h] at hno
    · simp [drops, h] at hno

/-- The gate is full: the client is told, and the utterance dropped. -/
theorem busy_rearm (reason : String) (h : t.queue_full = true) :
    Serves all spk_on kept received received (.seq (send_asr_busy reason) rearm_clear) := by
  rw [not_kept hdrop (.inl h)]
  exact ends_seq (busy_ready reason) rearm_clear_ready

theorem on_command_ready {cmd : Command} (hcmd : t.message = .text cmd) :
    Serves all spk_on kept received received (on_command o t cmd) := by
  cases cmd with
  | not_json | other => exact triple_skip fun _ h => h
  | not_object | bad_type => exact triple_throw fun _ h => h.toOver
  | reset =>
    rw [not_kept hdrop (.inr hcmd)]
    exact ends_seq rearm_clear_ready (ready_over (send_ready fun _ => nofun))
  | end_utterance =>
    rw [on_command]
    split
    · next hfull => exact busy_rearm hdrop _ hfull
    · split
      · exact ends_seq (ends_seq (call_over fun _ h => h.toOver) (call_over fun _ h => h.toOver))
          (final_and_clear_ready _ _)
      · exact ends_seq (finalize_over fun _ h => h.toOver) (final_and_clear_ready _ _)

omit hdrop in
theorem on_end_ready : Serves all spk_on kept received received (on_end o t) := by
  have hret : Serves all spk_on kept received received .ret := triple_ret fun _ h => h.toOver
  rw [on_end]
  split
  · exact ends_seq (busy_ready _) hret
  · refine ends_seq (finalize_over fun _ h => h.toOver) (ends_seq (final_and_clear_ready _ _) (ends_seq ?_ hret))
    split
    · exact ready_over (ends_attempt (send_ready fun _ => nofun))
    · exact triple_skip fun _ h => h

theorem on_speech_end_ready : Serves all spk_on kept received received (on_speech_end o t) := by
  refine ends_seq (ready_over (send_ready fun _ => nofun)) ?_
  split
  · next hfull => exact busy_rearm hdrop _ hfull
  · refine ends_seq (finalize_over fun _ h => h.toOver) (ends_seq ?_ rearm_clear_sent)
    have hfinal : Leads all (Ready all spk_on received 0 kept)
        (fun s => Ready all spk_on received 0 kept s.clear_seg)
        (.seq (.act (·.build t.final_text t.language (some "vad")))
          (.seq (augment_final_payload o) (.seq .call (.act .send_payload)))) :=
      ends_seq (M := Built all spk_on received 0 kept) (ends_act fun _ h => h.build _ _ _) <|
        ends_seq (augment_over fun _ h => h.1) <| ends_seq (call_over fun _ h => h.1) (ends_act fun _ h => h.2)
    exact ends_handle hfinal fun _ => triple_ret fun _ h => h

omit hdrop in
theorem on_result_ready : Serves all spk_on kept received received (on_result o t) := by
  refine ends_seq (call_over fun _ h => h.toOver) ?_
  split
  · exact triple_skip fun _ h => h
  · split
    · exact ends_seq (final_and_clear_ready _ _) rearm_ready
    · exact ready_over (send_ready fun _ => nofun)

theorem on_audio_ready {samples : Chunk} (hall : received ++ [samples] <+: all)
    (hkept : kept = true → o.spk_on = true) :
    Serves all o.spk_on kept received (received ++ [samples]) (on_audio o t samples) := by
  let Heard : Session → Prop := fun s =>
    ∃ s₀, Ready all o.spk_on received 0 kept s₀ ∧ s = s₀.buffer o.spk_on samples
  have hover : ∀ s, Heard s → Over all 1 s := by
    rintro _ ⟨s₀, h, rfl⟩
    exact h.buffer hall
  refine ends_seq (M := Heard) (ends_act fun s h => ⟨s, h, rfl⟩) (ends_seq (call_over hover) ?_)
  refine ends_seq (M := Ready all o.spk_on (received ++ [samples]) 0 kept) (ends_act ?_)
    (ends_seq (M := Ready all o.spk_on (received ++ [samples]) 0 kept) ?_ ?_)
  · rintro _ ⟨s₀, h, rfl⟩
    exact h.accept hall hkept
  · split
    · exact call_over fun _ h => h.toOver
    · exact triple_skip fun _ h => h
  · split
    · exact on_speech_end_ready hdrop
    · exact on_result_ready

theorem on_message_ready (hall : received ++ audio t <+: all) (hkept : kept = true → o.spk_on = true) :
    Serves all o.spk_on kept received (received ++ audio t) (on_message o t) := by
  rw [on_message]
  rw [audio] at hall ⊢
  cases hmessage : t.message with
  | text cmd =>
    simp only [List.append_nil]
    exact on_command_ready hdrop hmessage
  | disconnect =>
    simp only [List.append_nil]
    exact triple_ret fun _ h => h.toOver
  | no_data =>
    simp only [List.append_nil]
    exact triple_skip fun _ h => h
  | bytes data =>
    cases data with
    | nil =>
      simp only [List.append_nil]
      exact on_end_ready
    | cons b data =>
      simp only [hmessage] at hall ⊢
      cases hsamples : frombuffer (b :: data) with
      | none => exact triple_throw fun _ h => h.toOver
      | some samples =>
        rw [hsamples] at hall
        exact on_audio_ready hdrop hall hkept

omit hdrop in
theorem rounds_ready {turns : List Turn} (hdrops : kept = true → ∀ t ∈ turns, drops t = false)
    (hkept : kept = true → o.spk_on = true) (hall : received ++ turns.flatMap audio = all) :
    Serves all o.spk_on kept received all (rounds o turns) := by
  induction turns generalizing received with
  | nil =>
    rw [List.flatMap_nil, List.append_nil] at hall
    subst hall
    exact triple_skip fun _ h => h
  | cons t turns ih =>
    rw [List.flatMap_cons, ← List.append_assoc] at hall
    have hprefix : received ++ audio t <+: all := hall ▸ List.prefix_append _ _
    exact ends_seq (call_over fun _ h => h.toOver) <|
      ends_seq (on_message_ready (fun hh => hdrops hh t List.mem_cons_self) hprefix hkept)
        (ih (fun hh t' ht' => hdrops hh t' (List.mem_cons_of_mem _ ht')) hall)

end

theorem ready_init (kept : Bool) : Ready all spk_on [] 0 kept init :=
  ⟨⟨fun _ h => absurd h List.not_mem_nil, Nat.zero_le _, List.prefix_rfl, List.nil_prefix, Nat.zero_le _,
    fun _ h => absurd h List.not_mem_nil, List.Pairwise.nil⟩, rfl, rfl, rfl, fun _ => rfl, Nat.zero_le _, rfl,
    fun _ h => absurd h List.not_mem_nil, fun _ => rfl⟩

/-! ### Sessions -/

theorem triple_more {A A' P : Session → Prop} {p : Code} {Q : Outcome Failure → Session → Prop}
    (h : Triple A P p Q) (hA : ∀ s, A s → A' s) : Triple A' P p Q := fun s l o t hs hrun =>
  ⟨fun u hu => hA u ((h s l o t hs hrun).1 u hu), (h s l o t hs hrun).2⟩

theorem Over.two (h : Over all 1 s) : Over all 2 s := { h with at_most := Nat.le_succ_of_le h.at_most }

/-- The last stream is closed too. -/
def Ended (all : List Chunk) (s : Session) : Prop := Over all 2 s ∧ 1 ≤ s.stream.closes

/-- The close of the `finally`. -/
theorem Over.close (h : Over all 1 s) : Ended all s.close_stream :=
  ⟨{ h with at_most := Nat.succ_le_succ h.at_most, fed := (fed_close s).symm ▸ h.fed }, Nat.le_add_left 1 _⟩

theorem on_failure_over (e : Failure) : Leads all (Over all 1) (Over all 1) (on_failure e) := by
  cases e with
  | pool_saturated => exact triple_act fun _ h => { h with }
  | error => exact ends_attempt (ends_send (fun _ h => h) fun _ h => h.sent fun _ => nofun)
  | disconnect | cancelled => exact triple_skip fun _ h => h

theorem asr_stream_backend_over {o : Options} {turns : List Turn} (hall : turns.flatMap audio = all) :
    Triple (Over all 2) (Ready all o.spk_on [] 0 false) (asr_stream_backend o turns) fun _ => Ended all := by
  have hloop : Leads all (Ready all o.spk_on [] 0 false) (Over all 1)
      (.seq (rounds o turns) (.seq .call (.throw .disconnect))) :=
    ends_seq (rounds_ready (fun hh => by cases hh) (fun hh => by cases hh) hall)
      (ends_seq (call_over fun _ h => h.toOver) (triple_throw fun _ h => h.toOver))
  have hclose : Triple (Over all 2) (Ended all) (attempt close_ws) (Ends (Ended all) (Ended all)) :=
    ends_attempt <| ends_seq (ends_call (fun _ h => h.1) fun _ h => h) <|
      ends_act fun _ h => ⟨h.1.sent fun _ => nofun, h.2⟩
  refine triple_ensure (M := fun _ => Over all 1) (triple_more (A := Over all 1) ?_ fun _ h => h.two) fun _ => ?_
  · exact (ends_handle hloop on_failure_over).mono (fun _ h => h) fun _ _ => ends_same
  · exact (ends_seq (ends_act fun _ h => h.close) hclose).mono (fun _ h => h) fun o _ h => by cases o <;> exact h

theorem exec_over {o : Options} {turns : List Turn} {l : List Session} {outcome : Outcome Failure} {s : Session}
    (h : Exec (asr_stream_backend o turns) init l outcome s) :
    (∀ u ∈ s :: l, Over (turns.flatMap audio) 2 u) ∧ 1 ≤ s.stream.closes := by
  obtain ⟨hsuspended, hend, hclosed⟩ := asr_stream_backend_over rfl _ _ _ _ (ready_init false) h
  exact ⟨List.forall_mem_cons.2 ⟨hend, hsuspended⟩, hclosed⟩

/-- One message of audio, and the client is gone. -/
def one_message : List Turn := [⟨.bytes [1, 0], false, "", none, false, "", false, false⟩]

/-- The finals of a session have disjoint windows in order, and the audio that was received in them. While
    no utterance is dropped, the finals and the segment that is open have all of the audio. -/
theorem finals_tile (o : Options) (turns : List Turn) :
    (∀ l outcome s, Exec (asr_stream_backend o turns) init l outcome s → ∀ u ∈ s :: l,
      u.finals.Pairwise (fun f g => f.seg_end ≤ g.seg_start) ∧ ∀ f ∈ u.finals, f.seg_start ≤ f.seg_end ∧
        f.seg.flatten = ((turns.flatMap audio).flatten.take f.seg_end).drop f.seg_start) ∧
    (o.spk_on = true → (∀ t ∈ turns, drops t = false) → ∀ l s, Exec (rounds o turns) init l .done s →
      s.finals.flatMap Final.seg ++ s.seg = turns.flatMap audio) := by
  refine ⟨fun l outcome s h u hu => ?_, fun hspk hdrops l s h => ?_⟩
  · have hu := (exec_over h).1 u hu
    refine ⟨hu.ordered, fun f hf => ?_⟩
    obtain ⟨hle, hstop, hseg⟩ := hu.sliced f hf
    obtain ⟨rest, hrest⟩ := hu.within
    refine ⟨hle, ?_⟩
    rw [hseg, ← hrest, List.flatten_append, List.take_append_of_le_length (Nat.le_trans hstop hu.heard)]
  · exact (rounds_ready (fun _ => hdrops) (fun _ => hspk) rfl _ _ _ _ (ready_init true) h).2.whole rfl

end LocalVoice.AsrStream
