import LocalVoice.V2V.Speech

/-! What an abort leaves behind. Text waits in four places: the chunking buffer, the queue, the
    sentence just taken, the drain that has not started its synthesis. An abort empties the queue and
    cancels the drain; where the other two are empty as well, all text that waits afterwards came
    after it (`Fresh`). -/

namespace LocalVoice.V2V.Speech
open LocalVoice.Lib

/-- All of the text was received after the first `n` aborts had been handled. -/
def Since (n : ℕ) (text : List Mark) : Prop := ∀ c ∈ text, n ≤ c.2

instance (n : ℕ) (text : List Mark) : Decidable (Since n text) :=
  inferInstanceAs (Decidable (∀ c ∈ text, n ≤ c.2))

/-- Every sentence whose synthesis has started was built from text received after the last abort
    that had been handled then. -/
def Discards (s : Session) : Prop := ∀ x n, Event.started x n ∈ s.log → Since n x.text

/-- The sentence of a drain that may still start its synthesis. -/
def Session.unstarted (s : Session) : Option Sentence :=
  match s.current_tts_task with
  | some ⟨x, .preparing, false⟩ => some x
  | _ => none

/-- The sentences that may still be spoken. -/
def Session.waiting (s : Session) : List Sentence :=
  s.tts_q ++ (s.taken.toList ++ s.unstarted.toList)

/-- What waits was said after the last abort that has been handled. -/
structure Fresh (s : Session) : Prop where
  buffer : Since s.aborts s.buffer
  waiting : ∀ x ∈ s.waiting, Since s.aborts x.text
  aborting : s.dispatcher = .aborting → s.tts_q = []
  discards : Discards s

/-- The step after which an abort is handled. -/
def Action.handles : Action → Bool
  | .abort asr | .reset_sent asr => !asr
  | .asr_cancelled => true
  | _ => false

/-- An abort is handled with nothing in the chunking buffer, no sentence taken that has no drain yet,
    and, where it had to wait for the ASR, no drain made meanwhile that may still start. -/
def Clean (s : Session) (a : Action) : Prop :=
  a.handles = true →
    s.buffer = [] ∧ s.taken = none ∧ (a = .asr_cancelled → s.unstarted = none)

instance (s : Session) (a : Action) : Decidable (Clean s a) := inferInstanceAs (Decidable (_ → _))

section
variable {cfg : Config} {s t : Session}

theorem Since.nil (n : ℕ) : Since n [] := nofun

theorem mem_waiting {x : Sentence} :
    x ∈ s.waiting ↔ x ∈ s.tts_q ∨ s.taken = some x ∨ s.unstarted = some x := by
  simp [Session.waiting]

theorem unstarted_eq_some {x : Sentence} :
    s.unstarted = some x ↔ s.current_tts_task = some ⟨x, .preparing, false⟩ := by
  unfold Session.unstarted
  split
  · next h => simp [h]
  · next hne =>
    simp only [reduceCtorEq, false_iff]
    exact fun h => hne x h

/-- What moves on between the four places stays fresh. -/
theorem Fresh.of_sub (hs : Fresh s) (haborts : t.aborts = s.aborts) (hbuffer : t.buffer = s.buffer)
    (hwaiting : ∀ x ∈ t.waiting, x ∈ s.waiting)
    (haborting : t.dispatcher = .aborting → t.tts_q = []) (hdiscards : Discards t) : Fresh t where
  buffer := by
    rw [haborts, hbuffer]
    exact hs.buffer
  waiting := by
    rw [haborts]
    exact fun x hx => hs.waiting x (hwaiting x hx)
  aborting := haborting
  discards := hdiscards

theorem Discards.concat {e : Event} (hs : Discards s) (hlog : t.log = s.log ++ [e])
    (he : ∀ x n, e = .started x n → Since n x.text) : Discards t := by
  intro x n hx
  rw [hlog] at hx
  rcases List.mem_append.1 hx with hx | hx
  · exact hs x n hx
  · exact he x n (List.mem_singleton.1 hx).symm

/-- A call of the chunking buffer passes on what it was given. -/
theorem Fresh.put_all {out : List (List Mark) × List Mark} (hs : Fresh s)
    (hd : s.dispatcher = .receive) (hout : Since s.aborts (out.1.flatten ++ out.2)) :
    Fresh (s.put_all out) := by
  obtain ⟨new, heq, htext, _⟩ := put_all_spec (s := s) out
  rw [heq]
  refine ⟨fun c hc => hout c (List.mem_append_right _ hc), ?_, ?_, ?_⟩
  · intro x hx
    rcases mem_waiting.1 hx with hx | hx | hx
    · rcases List.mem_append.1 hx with hx | hx
      · exact hs.waiting x (mem_waiting.2 (.inl hx))
      · intro c hc
        have hpart : x.text ∈ out.1 := htext ▸ List.mem_map_of_mem hx
        exact hout c (List.mem_append_left _ (List.mem_flatten_of_mem hpart hc))
    · exact hs.waiting x (mem_waiting.2 (.inr (.inl hx)))
    · exact hs.waiting x (mem_waiting.2 (.inr (.inr hx)))
  · intro hab
    rw [hd] at hab
    cases hab
  · intro x n hx
    rcases List.mem_append.1 hx with hx | hx
    · exact hs.discards x n hx
    · obtain ⟨y, _, hy⟩ := List.mem_map.1 hx
      cases hy

theorem Fresh.add {text : List Char} (hs : Fresh s) (hd : s.dispatcher = .receive) :
    Fresh (s.add cfg text) := by
  refine hs.put_all hd ?_
  unfold Session.added LowLatencyTTSBuffer.add
  split
  · simpa using hs.buffer
  · intro c hc
    have hmem := (LowLatencyTTSBuffer.emit_ready_sublist _).subset hc
    rcases List.mem_append.1 hmem with hmem | hmem
    · exact hs.buffer c hmem
    · obtain ⟨d, _, rfl⟩ := List.mem_map.1 hmem
      exact Nat.le_refl _

theorem Fresh.flush (hs : Fresh s) (hd : s.dispatcher = .receive) : Fresh (s.flush cfg) :=
  hs.put_all hd fun c hc => hs.buffer c ((LowLatencyTTSBuffer.emit_ready_sublist _).subset hc)

theorem Fresh.set_flush (hs : Fresh s) : Fresh s.set_flush :=
  ⟨hs.buffer, hs.waiting, hs.aborting, hs.discards.concat rfl nofun⟩

theorem cancel_current_unstarted : s.cancel_current.unstarted = none := by
  rw [Option.eq_none_iff_forall_ne_some]
  intro x hx
  rw [unstarted_eq_some] at hx
  obtain ⟨d, _, hd⟩ := Option.map_eq_some_iff.1 hx
  unfold Drain.cancel at hd
  split at hd
  · next hdone =>
    rw [hd] at hdone
    cases hdone
  · exact absurd (congrArg Drain.cancelled hd) (by simp)

/-- What waits after an abort that is handled was not there before it. -/
theorem Fresh.abort {asr : Bool} (hs : Fresh s)
    (hclean : asr = false → s.buffer = [] ∧ s.taken = none) : Fresh (s.abort asr) := by
  unfold Session.abort
  have hun := cancel_current_unstarted (s := s)
  cases asr with
  | true =>
    refine hs.of_sub rfl rfl ?_ (fun _ => rfl) hs.discards
    intro x hx
    rcases mem_waiting.1 hx with hx | hx | hx
    · cases hx
    · exact mem_waiting.2 (.inr (.inl hx))
    · exact absurd (hun.symm.trans hx) nofun
  | false =>
    obtain ⟨hbuf, htaken⟩ := hclean rfl
    refine ⟨?_, ?_, fun _ => rfl, hs.discards⟩
    · intro c hc
      exact absurd (hbuf ▸ hc : c ∈ []) List.not_mem_nil
    · intro x hx
      rcases mem_waiting.1 hx with hx | hx | hx
      · cases hx
      · exact absurd (htaken.symm.trans hx) nofun
      · exact absurd (hun.symm.trans hx) nofun

/-- A step that leaves the queue and the current task alone, and takes nothing. -/
theorem Fresh.move (hs : Fresh s) (out : TtsOut) (hout : ∀ x, out ≠ .taken x) :
    Fresh { s with tts_out := out } := by
  refine hs.of_sub rfl rfl ?_ hs.aborting hs.discards
  intro x hx
  rcases mem_waiting.1 hx with hx | hx | hx
  · exact mem_waiting.2 (.inl hx)
  · unfold Session.taken at hx
    split at hx
    · next heq => exact absurd heq (hout _)
    · cases hx
  · exact mem_waiting.2 (.inr (.inr hx))

theorem Fresh.drained (hs : Fresh s) (h : s.drained = some t) : Fresh t := by
  obtain ⟨d, out, _, _, hout, rfl⟩ := drained_cases h
  have hmove : Fresh { s with tts_out := out } := hs.move out (by rcases hout with rfl | rfl <;> simp)
  refine hmove.of_sub rfl rfl ?_ hs.aborting hs.discards
  intro x hx
  rcases mem_waiting.1 hx with hx | hx | hx
  · exact mem_waiting.2 (.inl hx)
  · exact mem_waiting.2 (.inr (.inl hx))
  · cases hx

theorem Fresh.cancel_current (hs : Fresh s) : Fresh s.cancel_current := by
  refine hs.of_sub rfl rfl ?_ hs.aborting hs.discards
  intro x hx
  rcases mem_waiting.1 hx with hx | hx | hx
  · exact mem_waiting.2 (.inl hx)
  · exact mem_waiting.2 (.inr (.inl hx))
  · exact absurd (cancel_current_unstarted.symm.trans hx) nofun

/-- The drain moves on; only a sentence that waited starts. -/
theorem Fresh.drain {ready : Drain → Bool} {stage : Stage} {e : Drain → Event} (hs : Fresh s)
    (h : s.drain ready stage e = some t) (hstage : stage ≠ .preparing)
    (he : ∀ d, ready d = true → s.current_tts_task = some d →
      ∀ x n, e d = .started x n → Since n x.text) : Fresh t := by
  obtain ⟨d, hd, hready, rfl⟩ := drain_cases h
  refine hs.of_sub rfl rfl ?_ hs.aborting (hs.discards.concat rfl (he d hready hd))
  intro x hx
  rcases mem_waiting.1 hx with hx | hx | hx
  · exact mem_waiting.2 (.inl hx)
  · exact mem_waiting.2 (.inr (.inl hx))
  · rw [unstarted_eq_some] at hx
    obtain rfl : stage = .preparing := congrArg Drain.stage (Option.some.inj hx)
    exact absurd rfl hstage

theorem step_fresh {a : Action} (h : Steps cfg s a t) (hclean : Clean s a) (hs : Fresh s) :
    Fresh t := by
  cases a with
  | text text =>
    obtain ⟨hd, h⟩ := guarded h
    exact h ▸ hs.add hd
  | tts_flush =>
    obtain ⟨hd, h⟩ := guarded h
    exact h ▸ (hs.flush hd).set_flush
  | direct_speak text =>
    simp only [Steps, Session.step] at h
    split at h
    · next hd =>
      split at h <;> cases h
      · exact hs.set_flush
      · have hd' : (s.add cfg text).dispatcher = .receive := (put_all_frame _).1.trans hd
        exact ((hs.add hd).flush hd').set_flush
    · cases h
  | abort asr =>
    obtain ⟨_, h⟩ := guarded h
    refine h ▸ hs.abort fun hasr => ?_
    obtain ⟨hbuf, htaken, _⟩ := hclean (by simp [Action.handles, hasr])
    exact ⟨hbuf, htaken⟩
  | conversation_reset =>
    obtain ⟨_, h⟩ := guarded h
    exact h ▸ hs.of_sub rfl rfl (fun _ hx => hx) nofun hs.discards
  | reset_sent asr =>
    obtain ⟨_, h⟩ := guarded h
    refine h ▸ hs.abort fun hasr => ?_
    obtain ⟨hbuf, htaken, _⟩ := hclean (by simp [Action.handles, hasr])
    exact ⟨hbuf, htaken⟩
  | asr_cancelled =>
    obtain ⟨hd, rfl⟩ := guarded h
    obtain ⟨hbuf, htaken, hun⟩ := hclean rfl
    refine ⟨?_, ?_, nofun, hs.discards⟩
    · intro c hc
      exact absurd (hbuf ▸ hc : c ∈ []) List.not_mem_nil
    · intro x hx
      rcases mem_waiting.1 hx with hx | hx | hx
      · exact absurd (hs.aborting hd ▸ hx : x ∈ []) List.not_mem_nil
      · exact absurd (htaken.symm.trans hx) nofun
      · exact absurd ((hun rfl).symm.trans hx) nofun
  | barge_in =>
    obtain ⟨_, h⟩ := guarded h
    exact h ▸ hs.cancel_current
  | pass =>
    obtain ⟨_, rfl⟩ := guarded h
    unfold Session.pass
    split
    · exact (hs.move .sending_done nofun).of_sub rfl rfl (fun _ hx => hx) hs.aborting hs.discards
    · exact hs.move .waiting nofun
  | done_sent =>
    obtain ⟨_, rfl⟩ := guarded h
    exact (hs.move .head nofun).of_sub rfl rfl (fun _ hx => hx) hs.aborting
      (hs.discards.concat rfl nofun)
  | get =>
    simp only [Steps, Session.step] at h
    split at h
    · next x rest _ hq =>
      cases h
      refine hs.of_sub rfl rfl ?_ ?_ hs.discards
      · intro y hy
        rcases mem_waiting.1 hy with hy | hy | hy
        · exact mem_waiting.2 (.inl (hq ▸ List.mem_cons_of_mem x hy))
        · obtain rfl : x = y := Option.some.inj hy
          exact mem_waiting.2 (.inl (hq ▸ List.mem_cons_self))
        · exact mem_waiting.2 (.inr (.inr hy))
      · intro hab
        have hnil := hs.aborting hab
        rw [hq] at hnil
        cases hnil
    · cases h
  | get_timeout =>
    obtain ⟨_, rfl⟩ := guarded h
    exact hs.move .head nofun
  | take_up =>
    simp only [Steps, Session.step] at h
    split at h
    · next x hx =>
      cases h
      refine hs.of_sub rfl rfl ?_ hs.aborting hs.discards
      intro y hy
      rcases mem_waiting.1 hy with hy | hy | hy
      · exact mem_waiting.2 (.inl hy)
      · cases hy
      · obtain rfl : x = y := by
          have heq := unstarted_eq_some.1 hy
          exact congrArg Drain.sentence (Option.some.inj heq)
        exact mem_waiting.2 (.inr (.inl (by simp [Session.taken, hx])))
    · cases h
  | drain_over =>
    simp only [Steps, Session.step] at h
    split at h
    · exact hs.drained h
    · cases h
  | deadline =>
    obtain ⟨_, rfl⟩ := guarded h
    exact hs.cancel_current.move .expired nofun
  | expired_over late =>
    simp only [Steps, Session.step] at h
    split at h
    · split at h
      · split at h <;> cases h
        exact hs.move .reporting nofun
      · exact hs.drained h
    · cases h
  | reported =>
    obtain ⟨_, rfl⟩ := guarded h
    refine (hs.move .head nofun).of_sub rfl rfl ?_ hs.aborting hs.discards
    intro x hx
    rcases mem_waiting.1 hx with hx | hx | hx
    · exact mem_waiting.2 (.inl hx)
    · cases hx
    · cases hx
  | synth_starts =>
    refine hs.drain h nofun fun d hready hd x n he => ?_
    cases he
    refine hs.waiting _ (mem_waiting.2 (.inr (.inr ?_)))
    obtain ⟨hstage, hcan⟩ := of_decide_eq_true hready
    rw [unstarted_eq_some, hd, ← hstage, ← hcan]
  | synth_ends => exact hs.drain h nofun fun _ _ _ _ _ he => by cases he
  | drain_stops => exact hs.drain h nofun fun _ _ _ _ _ he => by cases he
  | drain_fails => exact hs.drain h nofun fun _ _ _ _ _ he => by cases he

end

theorem fresh_init : Fresh .init := ⟨Since.nil 0, nofun, nofun, nofun⟩

/-- In a run whose aborts are all handled with nothing left behind, no sentence whose synthesis
    starts after an abort holds text from before it. -/
theorem abort_discards {cfg : Config} {as : List Action} {s : Session}
    (h : Run (restrict Clean (Steps cfg)) .init as s) : Discards s :=
  (h.invariant (I := Fresh) (fun hs hst => step_fresh hst.2 hst.1 hs) fresh_init).discards

/-- A text received after `n` aborts. -/
def marked (n : ℕ) (text : String) : List Mark := text.toList.map fun c => (c, n)

/-- The beginning of a sentence is aborted while it is still in the chunking buffer. -/
def aborted_halfway : List Action :=
  [.text "Hold on".toList, .abort false, .text " please".toList, .tts_flush, .pass, .get, .take_up,
    .synth_starts]

theorem abort_keeps_text :
    ¬ ∀ (cfg : Config) (as : List Action) (s : Session), Runs cfg as s → Discards s := by
  intro hall
  obtain ⟨s, hrun, hlog⟩ := Run.of_replay_any (Session.step english) .init aborted_halfway
    (fun s => Event.started ⟨0, marked 0 "Hold on" ++ marked 1 " please", 0⟩ 1 ∈ s.log)
    (by decide +kernel)
  exact absurd (hall english aborted_halfway s hrun _ _ (of_decide_eq_true hlog)) (by decide)

/-- The aborted sentence is on the queue, and the buffer is empty. -/
def aborted_queued : List Action :=
  [.text "Hold on!".toList, .abort false, .text "Go on!".toList, .pass, .get, .take_up,
    .synth_starts]

theorem abort_discards_queued :
    ∃ s, Run (restrict Clean (Steps english)) .init aborted_queued s ∧
      Event.started ⟨1, marked 1 "Go on!", 0⟩ 1 ∈ s.log ∧ Discards s := by
  obtain ⟨s, hrun, hlog⟩ := Run.of_replay_any
    (fun s a => if Clean s a then Session.step english s a else none) .init aborted_queued
    (fun s => Event.started ⟨1, marked 1 "Go on!", 0⟩ 1 ∈ s.log) (by decide +kernel)
  have hclean : Run (restrict Clean (Steps english)) .init aborted_queued s :=
    Run.restrict_mono hrun
  exact ⟨s, hclean, of_decide_eq_true hlog, abort_discards hclean⟩

end LocalVoice.V2V.Speech
