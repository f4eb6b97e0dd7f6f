import LocalVoice.V2V.Turns

/-! The sentences of a session that are not finished, in their order: the one that is spoken, the one
    off the queue and those on it. What one step does to this line: a frame puts new sentences at its
    end (`queues_spec`), the start of a sentence is about its head (`synth_starts_spec`), any other step
    leaves it or takes sentences of it (`leaves_spec`). -/

namespace LocalVoice.V2V.Speech

/-- The sentences that are not finished, in their order. -/
def Session.line (s : Session) : List Sentence := s.spoken.toList ++ s.taken.toList ++ s.tts_q

/-- Those that are left after a step, without what it queues. -/
def Session.remains (s : Session) : Action → List Sentence
  | .abort _ | .reset_sent _ => s.spoken.toList ++ s.taken.toList
  | .drain_stops | .drain_fails | .synth_ends => s.line.tail
  | _ => s.line

section
variable {cfg : Config} {s t u : Session} {x : Sentence} {new : List Sentence}

/-- New sentences stand at the end of the line, with numbers that follow on each other. -/
structure Queues (s t : Session) (new : List Sentence) : Prop where
  queue : t.tts_q = s.tts_q ++ new
  queued : t.queued = s.queued + new.length
  numbers : ∀ x ∈ new, s.queued ≤ x.number ∧ x.number < t.queued
  sorted : new.Pairwise fun x y => x.number < y.number
  out : t.tts_out = s.tts_out
  task : t.current_tts_task = s.current_tts_task

theorem Queues.trans {new' : List Sentence} (h : Queues s t new) (h' : Queues t u new') :
    Queues s u (new ++ new') := by
  refine ⟨?_, ?_, fun x hx => ?_, ?_, h'.out.trans h.out, h'.task.trans h.task⟩
  · rw [h'.queue, h.queue, List.append_assoc]
  · rw [h'.queued, h.queued, List.length_append, Nat.add_assoc]
  · have hlen := h.queued
    have hlen' := h'.queued
    rcases List.mem_append.1 hx with hx | hx
    · have := h.numbers x hx
      omega
    · have := h'.numbers x hx
      omega
  · refine List.pairwise_append.2 ⟨h.sorted, h'.sorted, fun x hx y hy => ?_⟩
    exact Nat.lt_of_lt_of_le (h.numbers x hx).2 (h'.numbers y hy).1

theorem put_all_queues (s : Session) (out : List (List Mark) × List Mark) :
    ∃ new, Queues s (s.put_all out) new := by
  have hfold : ∀ (parts : List (List Mark)) (u : Session), ∃ new,
      Queues u (parts.foldl Session.put u) new := by
    intro parts
    induction parts with
    | nil => exact fun u => ⟨[], (List.append_nil _).symm, rfl, nofun, .nil, rfl, rfl⟩
    | cons part parts ih =>
      intro u
      have hput : Queues u (u.put part) [⟨u.queued, part, u.flushes⟩] := by
        refine ⟨rfl, rfl, fun x hx => ?_, List.pairwise_singleton .., rfl, rfl⟩
        rw [List.mem_singleton.1 hx]
        exact ⟨Nat.le_refl _, Nat.lt_succ_self _⟩
      obtain ⟨new, hnew⟩ := ih (u.put part)
      exact ⟨_, hput.trans hnew⟩
  obtain ⟨new, hnew⟩ := hfold out.1 { s with buffer := out.2 }
  exact ⟨new, hnew.queue, hnew.queued, hnew.numbers, hnew.sorted, hnew.out, hnew.task⟩

theorem set_flush_queues (s : Session) : Queues s s.set_flush [] :=
  ⟨(List.append_nil _).symm, rfl, nofun, .nil, rfl, rfl⟩

theorem Queues.line (h : Queues s t new) : t.line = s.line ++ new := by
  rw [Session.line, Session.line, Session.spoken, Session.spoken, Session.taken, Session.taken, h.out,
    h.task, h.queue, List.append_assoc, List.append_assoc, List.append_assoc]

/-- What holds of `tts_out_task` and its drain between any two steps. -/
structure Orderly (s : Session) : Prop where
  idle : s.tts_out.drains = false → s.current_tts_task = none
  reporting : s.tts_out = .reporting → s.spoken = none

theorem Queues.orderly (h : Queues s t new) (ho : Orderly s) : Orderly t := by
  refine ⟨fun hidle => ?_, fun hrep => ?_⟩
  · rw [h.out] at hidle
    rw [h.task, ho.idle hidle]
  · rw [h.out] at hrep
    rw [Session.spoken, h.task]
    exact ho.reporting hrep

/-- A sentence is being synthesized. -/
def Session.synthesizing (s : Session) : Prop :=
  ∃ d, s.current_tts_task = some d ∧ d.stage = .synthesizing

/-- A step that queues nothing: what is left in line, where the loop is, and the drain. -/
structure Leaves (s t : Session) (left : List Sentence) : Prop where
  line : t.line = left
  queued : t.queued = s.queued
  orderly : Orderly t
  synthesizing : t.synthesizing → s.synthesizing
  sending : t.tts_out = .sending_done → s.tts_out = .sending_done ∨ left = []

theorem cancel_current_leaves (h : Orderly s) : Leaves s s.cancel_current s.line := by
  refine ⟨?_, rfl, ⟨fun hidle => ?_, fun hrep => cancel_current_spoken.trans (h.reporting hrep)⟩, ?_,
    .inl⟩
  · rw [Session.line, cancel_current_spoken]
    rfl
  · rw [Session.cancel_current, h.idle hidle]
    rfl
  · rintro ⟨d, hd, hstage⟩
    obtain ⟨d', hd', rfl⟩ := Option.map_eq_some_iff.1 hd
    refine ⟨d', hd', ?_⟩
    rw [← hstage, Drain.cancel]
    split <;> rfl

theorem abort_leaves (h : Orderly s) (asr : Bool) :
    Leaves s (s.abort asr) (s.spoken.toList ++ s.taken.toList) := by
  obtain ⟨-, -, horderly, hsynth, -⟩ := cancel_current_leaves h
  have hspoken : (s.abort asr).spoken = s.cancel_current.spoken := by
    cases asr <;> rfl
  have htask : (s.abort asr).current_tts_task = s.cancel_current.current_tts_task := by
    cases asr <;> rfl
  have hout : (s.abort asr).tts_out = s.cancel_current.tts_out := by
    cases asr <;> rfl
  have hqueue : (s.abort asr).tts_q = [] := by
    cases asr <;> rfl
  refine ⟨?_, by cases asr <;> rfl, ⟨fun hidle => ?_, fun hrep => ?_⟩, ?_, fun hsend => .inl ?_⟩
  · rw [Session.line, hspoken, hqueue, cancel_current_spoken, List.append_nil, Session.taken, hout]
    rfl
  · rw [hout] at hidle
    rw [htask, horderly.idle hidle]
  · rw [hout] at hrep
    rw [hspoken, horderly.reporting hrep]
  · rw [Session.synthesizing, htask]
    exact hsynth
  · rwa [hout] at hsend

/-- `tts_out_task` goes on from a place where it has no drain. -/
theorem idle_leaves (h : Orderly s) {out : TtsOut} {queue : List Sentence} {flag : Bool}
    (hidle : s.tts_out.drains = false)
    (hline : (Session.taken { s with tts_out := out }).toList ++ queue = s.taken.toList ++ s.tts_q)
    (hsend : out = .sending_done → s.taken.toList ++ s.tts_q = []) :
    Leaves s { s with tts_flush := flag, tts_q := queue, tts_out := out } s.line := by
  have hnone := h.idle hidle
  have hspoken : s.spoken = none := by rw [Session.spoken, hnone]
  refine ⟨?_, rfl, ⟨fun _ => hnone, fun _ => hspoken⟩, id, fun heq => .inr ?_⟩
  · rw [Session.line, Session.line, List.append_assoc, List.append_assoc, ← hline]
    rfl
  · rw [Session.line, hspoken, List.append_assoc, hsend heq]
    rfl

/-- The drain is done with, and the loop goes on. -/
theorem drained_leaves (htaken : s.taken = none) (h : s.drained = some t) : Leaves s t s.line := by
  obtain ⟨d, out, hd, hdone, hout, rfl⟩ := drained_cases h
  have hspoken : s.spoken = none := by simp [Session.spoken, hd, hdone]
  have hnone : Session.taken { s with current_tts_task := none, tts_out := out } = none := by
    rcases hout with rfl | rfl <;> rfl
  refine ⟨?_, rfl, ⟨fun _ => rfl, fun _ => rfl⟩, ?_, ?_⟩
  · rw [Session.line, Session.line, hspoken, htaken, hnone]
    rfl
  · rintro ⟨d', hd', -⟩
    cases hd'
  · rcases hout with rfl | rfl <;> exact (by intro h; cases h)

/-- A drain that is not done, when it is done. -/
theorem drain_over_leaves (h : Orderly s) {ready : Drain → Bool} {stage : Stage}
    (hstage : stage = .over ∨ stage = .failed) (hready : ∀ d, ready d = true → d.done = false)
    (hdrain : s.drain ready stage (fun d => .finished d.sentence) = some t) :
    Leaves s t s.line.tail := by
  obtain ⟨d, hd, hr, rfl⟩ := drain_cases hdrain
  have hspoken := spoken_eq_some.2 ⟨d, hd, hready d hr, rfl⟩
  have hnone : Session.spoken { s with
      current_tts_task := some { d with stage := stage }
      log := s.log ++ [Event.finished d.sentence] } = none := by
    rcases hstage with rfl | rfl <;> rfl
  refine ⟨?_, rfl, ⟨fun hidle => ?_, fun _ => hnone⟩, ?_, .inl⟩
  · rw [Session.line, Session.line, hnone, hspoken]
    rfl
  · rw [h.idle hidle] at hd
    cases hd
  · rintro ⟨d', hd', hsynth⟩
    obtain rfl := Option.some.inj hd'
    rcases hstage with rfl | rfl <;> cases hsynth

/-- A sentence starts to be spoken. -/
structure Starts (s t : Session) (x : Sentence) : Prop where
  line : t.line = s.line
  first : s.line.head? = some x
  queued : t.queued = s.queued
  orderly : Orderly t
  out : t.tts_out = s.tts_out

theorem synth_starts_spec (ho : Orderly s) (h : Steps cfg s .synth_starts t) :
    ∃ d, s.current_tts_task = some d ∧ Starts s t d.sentence := by
  obtain ⟨d, hd, hready, rfl⟩ := drain_cases h
  obtain ⟨hstage, -⟩ := of_decide_eq_true hready
  have hdone : d.done = false := done_eq_false (hstage ▸ nofun) (hstage ▸ nofun)
  have hspoken := spoken_eq_some.2 ⟨d, hd, hdone, rfl⟩
  have hspoken' : Session.spoken { s with
      current_tts_task := some { d with stage := .synthesizing }
      log := s.log ++ [Event.started d.sentence s.aborts] } = some d.sentence :=
    spoken_eq_some.2 ⟨_, rfl, rfl, rfl⟩
  refine ⟨d, hd, ?_, ?_, rfl, ⟨fun hidle => ?_, fun hrep => ?_⟩, rfl⟩
  · rw [Session.line, Session.line, hspoken, hspoken']
    rfl
  · rw [Session.line, hspoken]
    rfl
  · rw [ho.idle hidle] at hd
    cases hd
  · rw [ho.reporting hrep] at hspoken
    cases hspoken

/-- The frames that queue sentences. -/
def Action.queues : Action → Bool
  | .text _ | .tts_flush | .direct_speak _ => true
  | _ => false

theorem queues_spec {a : Action} (ha : a.queues = true) (h : Steps cfg s a t) :
    ∃ new, Queues s t new := by
  cases a with
  | text text =>
    obtain ⟨-, rfl⟩ := guarded h
    exact put_all_queues s _
  | tts_flush =>
    obtain ⟨-, rfl⟩ := guarded h
    obtain ⟨new, hnew⟩ := put_all_queues s (cfg.tts_buffer.flush Prod.fst cfg.isalnum s.buffer)
    exact ⟨_, hnew.trans (set_flush_queues _)⟩
  | direct_speak text =>
    simp only [Steps, Session.step] at h
    split at h
    · split at h <;> cases h
      · exact ⟨_, set_flush_queues s⟩
      · obtain ⟨new, hnew⟩ := put_all_queues s (s.added cfg text)
        obtain ⟨new', hnew'⟩ := put_all_queues (s.add cfg text)
          (cfg.tts_buffer.flush Prod.fst cfg.isalnum (s.add cfg text).buffer)
        exact ⟨_, (hnew.trans hnew').trans (set_flush_queues _)⟩
    · cases h
  | _ => cases ha

/-- Any other step but the start of a sentence leaves the line, or takes of it. -/
theorem leaves_spec (ho : Orderly s) {a : Action} (ha : a.queues = false) (hstart : a ≠ .synth_starts)
    (h : Steps cfg s a t) : Leaves s t (s.remains a) := by
  cases a with
  | text text => cases ha
  | tts_flush => cases ha
  | direct_speak text => cases ha
  | synth_starts => exact absurd rfl hstart
  | abort asr =>
    obtain ⟨-, rfl⟩ := guarded h
    exact abort_leaves ho asr
  | conversation_reset =>
    obtain ⟨-, rfl⟩ := guarded h
    exact ⟨rfl, rfl, ⟨ho.idle, ho.reporting⟩, id, .inl⟩
  | reset_sent asr =>
    obtain ⟨-, rfl⟩ := guarded h
    exact abort_leaves ho asr
  | asr_cancelled =>
    obtain ⟨-, rfl⟩ := guarded h
    exact ⟨rfl, rfl, ⟨ho.idle, ho.reporting⟩, id, .inl⟩
  | barge_in =>
    obtain ⟨-, rfl⟩ := guarded h
    exact cancel_current_leaves ho
  | pass =>
    obtain ⟨hout, rfl⟩ := guarded h
    have htaken : s.taken = none := by rw [Session.taken, hout]
    rw [Session.pass]
    split
    · next hflush =>
      refine idle_leaves ho (by rw [hout]; rfl) ?_ fun _ => ?_
      · rw [htaken]
        rfl
      · rw [htaken, hflush.2]
        rfl
    · refine idle_leaves ho (by rw [hout]; rfl) ?_ (by intro h; cases h)
      rw [htaken]
      rfl
  | done_sent =>
    obtain ⟨hout, rfl⟩ := guarded h
    have hnone := ho.idle (by rw [hout]; rfl)
    have htaken : s.taken = none := by rw [Session.taken, hout]
    refine ⟨?_, rfl, ⟨fun _ => hnone, (by intro h; cases h)⟩, id, (by intro h; cases h)⟩
    change Session.line _ = s.line
    rw [Session.line, Session.line, htaken]
    rfl
  | get =>
    simp only [Steps, Session.step] at h
    split at h
    · next x rest hout hqueue =>
      cases h
      have htaken : s.taken = none := by rw [Session.taken, hout]
      refine idle_leaves ho (by rw [hout]; rfl) ?_ (by intro h; cases h)
      rw [htaken, hqueue]
      rfl
    · cases h
  | get_timeout =>
    obtain ⟨hout, rfl⟩ := guarded h
    have htaken : s.taken = none := by rw [Session.taken, hout]
    refine idle_leaves ho (by rw [hout]; rfl) ?_ (by intro h; cases h)
    rw [htaken]
    rfl
  | take_up =>
    simp only [Steps, Session.step] at h
    split at h
    · next x hout =>
      cases h
      have hnone := ho.idle (by rw [hout]; rfl)
      have htaken : s.taken = some x := by rw [Session.taken, hout]
      have hspoken : s.spoken = none := by rw [Session.spoken, hnone]
      refine ⟨?_, rfl, ⟨(by intro h; cases h), (by intro h; cases h)⟩, ?_, (by intro h; cases h)⟩
      · change Session.line _ = s.line
        rw [Session.line, Session.line, htaken, hspoken]
        rfl
      · rintro ⟨d, hd, hstage⟩
        obtain rfl := Option.some.inj hd
        cases hstage
    · cases h
  | drain_over =>
    simp only [Steps, Session.step] at h
    split at h
    · next hout => exact drained_leaves (by rw [Session.taken, hout]) h
    · cases h
  | deadline =>
    obtain ⟨hout, rfl⟩ := guarded h
    obtain ⟨hline, hqueued, horderly, hsynth, -⟩ := cancel_current_leaves ho
    have htaken : s.cancel_current.taken = none := by
      rw [Session.taken, show s.cancel_current.tts_out = s.tts_out from rfl, hout]
    refine ⟨?_, hqueued, ⟨(by intro h; cases h), (by intro h; cases h)⟩, hsynth,
      (by intro h; cases h)⟩
    change Session.line _ = s.line
    rw [← hline, Session.line, Session.line, htaken]
    rfl
  | expired_over late =>
    simp only [Steps, Session.step] at h
    split at h
    · next hout =>
      have htaken : s.taken = none := by rw [Session.taken, hout]
      split at h
      · split at h
        · next hdone =>
          cases h
          obtain ⟨d, hd, hdone⟩ := (Option.any_eq_true _ _).1 hdone
          have hspoken : s.spoken = none := by simp [Session.spoken, hd, hdone]
          refine ⟨?_, rfl, ⟨(by intro h; cases h), fun _ => hspoken⟩, id,
            (by intro h; cases h)⟩
          change Session.line _ = s.line
          rw [Session.line, Session.line, htaken]
          rfl
        · cases h
      · exact drained_leaves htaken h
    · cases h
  | reported =>
    obtain ⟨hout, rfl⟩ := guarded h
    have hspoken := ho.reporting hout
    have htaken : s.taken = none := by rw [Session.taken, hout]
    refine ⟨?_, rfl, ⟨fun _ => rfl, (by intro h; cases h)⟩, ?_, (by intro h; cases h)⟩
    · change Session.line _ = s.line
      rw [Session.line, Session.line, htaken, hspoken]
      rfl
    · rintro ⟨d, hd, -⟩
      cases hd
  | synth_ends =>
    refine drain_over_leaves ho (.inl rfl) (fun d hd => ?_) h
    have hstage : d.stage = .synthesizing := of_decide_eq_true hd
    exact done_eq_false (by rw [hstage]; decide) (by rw [hstage]; decide)
  | drain_stops => exact drain_over_leaves ho (.inl rfl) (fun d hd => (of_decide_eq_true hd).1) h
  | drain_fails => exact drain_over_leaves ho (.inr rfl) (fun d hd => of_decide_eq_true hd) h

/-- The line after a step that queues nothing is a part of the line before. -/
theorem remains_sublist (s : Session) (a : Action) : (s.remains a).Sublist s.line := by
  cases a with
  | abort _ => exact List.sublist_append_left ..
  | reset_sent _ => exact List.sublist_append_left ..
  | drain_stops => exact List.tail_sublist _
  | drain_fails => exact List.tail_sublist _
  | synth_ends => exact List.tail_sublist _
  | _ => exact List.Sublist.refl _

end

end LocalVoice.V2V.Speech
