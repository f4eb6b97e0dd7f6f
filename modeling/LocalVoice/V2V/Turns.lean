import LocalVoice.V2V.Speech

/-! How the turns of a session are acknowledged. One flag stands for all flushes that are pending,
    so two of them get one `tts_done` when the second comes, or a sentence after the first, before
    the flag is looked at. Where none does, every sentence that is not finished belongs to the turn
    to be acknowledged next, and a `tts_done` answers its own flush (`InStep`). -/

namespace LocalVoice.V2V.Speech
open LocalVoice.Lib

def dones (l : List Event) : ℕ := l.count .done
def flushes (l : List Event) : ℕ := l.count .flushed

/-- Each `tts_done` comes after its own flush and after all sentences queued before that flush are
    finished, and before any later sentence is started. -/
def Acknowledged (l : List Event) : Prop :=
  ∀ before after, l = before ++ Event.done :: after →
    dones before < flushes before ∧
    (∀ x, .queued x ∈ l → x.turn ≤ dones before → .finished x ∈ before) ∧
    ∀ x n, .started x n ∈ before → x.turn ≤ dones before

/-- The action stops what is being said. -/
def Action.aborts : Action → Bool
  | .abort _ | .reset_sent _ => true
  | _ => false

/-- The frame queues a sentence, or is a flush. -/
def Session.speaks (cfg : Config) (s : Session) : Action → Bool
  | .text text => (s.added cfg text).1 ≠ []
  | .tts_flush | .direct_speak _ => true
  | _ => false

/-- Nothing more is said while a flush is pending. -/
def InTurn (cfg : Config) (s : Session) (a : Action) : Prop :=
  s.tts_flush = true → s.speaks cfg a = false

instance (cfg : Config) (s : Session) (a : Action) : Decidable (InTurn cfg s a) :=
  inferInstanceAs (Decidable (_ → _))

/-- The sentence being spoken. -/
def Session.spoken (s : Session) : Option Sentence :=
  match s.current_tts_task with
  | some d => if d.done then none else some d.sentence
  | none => none

/-- The sentences that are not finished. -/
def Session.unfinished (s : Session) : List Sentence :=
  s.tts_q ++ (s.taken.toList ++ s.spoken.toList)

/-- `tts_out_task` has a drain. -/
def TtsOut.drains : TtsOut → Bool
  | .draining | .expired | .reporting => true
  | _ => false

/-- A `tts_done` is on its way. -/
def TtsOut.sending : TtsOut → ℕ
  | .sending_done => 1
  | _ => 0

/-- All is spoken, no flush is pending and no `tts_done` is on its way. -/
def Drained (s : Session) : Prop :=
  s.unfinished = [] ∧ s.tts_flush = false ∧ s.tts_out.sending = 0

instance (s : Session) : Decidable (Drained s) := inferInstanceAs (Decidable (_ ∧ _ ∧ _))

/-- Every flush has its own `tts_done`, which is sent, or being sent, or called for by the flag, and
    what is not finished is to be acknowledged by the next one. -/
structure InStep (s : Session) : Prop where
  counted : flushes s.log = s.flushes
  pending : s.flushes = dones s.log + s.tts_flush.toNat + s.tts_out.sending
  turn : ∀ x ∈ s.unfinished, x.turn = dones s.log + s.tts_out.sending
  idle : s.tts_out.drains = false → s.current_tts_task = none
  reporting : s.tts_out = .reporting → s.spoken = none
  queued : ∀ x, .queued x ∈ s.log → .finished x ∈ s.log ∨ x ∈ s.unfinished
  started : ∀ x n, .started x n ∈ s.log → x.turn ≤ dones s.log
  acknowledged : Acknowledged s.log

section
variable {cfg : Config} {s t : Session} {l : List Event} {e : Event}

theorem mem_unfinished {x : Sentence} :
    x ∈ s.unfinished ↔ x ∈ s.tts_q ∨ s.taken = some x ∨ s.spoken = some x := by
  simp [Session.unfinished]

theorem dones_concat : dones (l ++ [e]) = dones l + if e = .done then 1 else 0 := by
  simp [dones, List.count_append, List.count_singleton]

theorem flushes_concat : flushes (l ++ [e]) = flushes l + if e = .flushed then 1 else 0 := by
  simp [flushes, List.count_append, List.count_singleton]

theorem dones_other (h : e ≠ .done) : dones (l ++ [e]) = dones l := by
  rw [dones_concat, if_neg h, Nat.add_zero]

theorem flushes_other (h : e ≠ .flushed) : flushes (l ++ [e]) = flushes l := by
  rw [flushes_concat, if_neg h, Nat.add_zero]

theorem mem_of_mem_concat {e' : Event} (h : e ∈ l ++ [e']) (hne : e ≠ e') : e ∈ l :=
  (List.mem_append.1 h).resolve_right fun he => hne (List.mem_singleton.1 he)

/-- One more event keeps the turns in order: a new sentence belongs to a turn that is not
    acknowledged, and a new `tts_done` finds its turn finished. -/
theorem Acknowledged.concat (hl : Acknowledged l)
    (hq : ∀ x, e = .queued x → flushes l ≤ x.turn)
    (hd : e = .done → dones l < flushes l ∧
      (∀ x, .queued x ∈ l → x.turn ≤ dones l → .finished x ∈ l) ∧
      ∀ x n, .started x n ∈ l → x.turn ≤ dones l) : Acknowledged (l ++ [e]) := by
  intro before after heq
  rcases List.eq_nil_or_concat after with rfl | ⟨rest, last, rfl⟩
  · obtain ⟨rfl, he⟩ := List.append_inj' heq rfl
    obtain rfl : e = .done := (List.cons.inj he).1
    obtain ⟨hlt, hfin, hstart⟩ := hd rfl
    refine ⟨hlt, fun x hx => ?_, hstart⟩
    exact hfin x (mem_of_mem_concat hx (by simp))
  · have hsplit : l ++ [e] = (before ++ Event.done :: rest) ++ [last] := by simpa using heq
    obtain ⟨rfl, _⟩ := List.append_inj' hsplit rfl
    obtain ⟨hlt, hfin, hstart⟩ := hl before rest rfl
    refine ⟨hlt, fun x hx hturn => ?_, hstart⟩
    rcases List.mem_append.1 hx with hx | hx
    · exact hfin x hx hturn
    · have hnew := hq x (List.mem_singleton.1 hx).symm
      have hle : flushes before ≤ flushes (before ++ Event.done :: rest) := by
        simp [flushes, List.count_append]
      omega

theorem acknowledged_queued {new : List Sentence} (hl : Acknowledged l)
    (hnew : ∀ x ∈ new, flushes l ≤ x.turn) : Acknowledged (l ++ new.map .queued) := by
  induction new generalizing l with
  | nil => simpa using hl
  | cons x new ih =>
    have hx : Acknowledged (l ++ [Event.queued x]) := by
      refine hl.concat (fun y hy => ?_) (by simp)
      obtain rfl := Event.queued.inj hy
      exact hnew x List.mem_cons_self
    have hrest : ∀ y ∈ new, flushes (l ++ [Event.queued x]) ≤ y.turn := by
      intro y hy
      rw [flushes_concat]
      exact hnew y (List.mem_cons_of_mem x hy)
    simpa using ih hx hrest

/-- A step that logs nothing and finishes nothing. -/
theorem InStep.move (hs : InStep s) (hlog : t.log = s.log) (hflushes : t.flushes = s.flushes)
    (hpending : t.tts_flush.toNat + t.tts_out.sending = s.tts_flush.toNat + s.tts_out.sending)
    (hunf : ∀ x, x ∈ t.unfinished ↔ x ∈ s.unfinished)
    (hsending : t.tts_out.sending = s.tts_out.sending ∨ s.unfinished = [])
    (hidle : t.tts_out.drains = false → t.current_tts_task = none)
    (hreporting : t.tts_out = .reporting → t.spoken = none) : InStep t := by
  constructor
  case counted => rw [hlog, hflushes, hs.counted]
  case pending =>
    have hpend := hs.pending
    rw [hlog, hflushes]
    omega
  case turn =>
    intro x hx
    have hmem := (hunf x).1 hx
    rw [hlog]
    rcases hsending with hsame | hnil
    · rw [hsame]
      exact hs.turn x hmem
    · exact absurd (hnil ▸ hmem) List.not_mem_nil
  case idle => exact hidle
  case reporting => exact hreporting
  case queued =>
    intro x hx
    rw [hlog] at hx ⊢
    exact (hs.queued x hx).imp_right (hunf x).2
  case started =>
    rw [hlog]
    exact hs.started
  case acknowledged =>
    rw [hlog]
    exact hs.acknowledged

/-- Sentences are queued while no flush is pending. -/
theorem InStep.put_all {out : List (List Mark) × List Mark} (hs : InStep s)
    (hflag : s.tts_flush = false ∨ out.1 = []) : InStep (s.put_all out) := by
  obtain ⟨new, heq, htext, hturn⟩ := put_all_spec (s := s) out
  have hnew : ∀ x ∈ new, x.turn = dones s.log + s.tts_out.sending := by
    intro x hx
    rcases hflag with hflag | hnil
    · have hpend := hs.pending
      rw [hflag] at hpend
      rw [hturn x hx, hpend]
      rfl
    · obtain rfl : new = [] := by simpa [hnil] using htext
      cases hx
  have hdones : dones (s.log ++ new.map .queued) = dones s.log := by
    simp [dones, List.count_append, List.count_eq_zero]
  have hflushes : flushes (s.log ++ new.map .queued) = flushes s.log := by
    simp [flushes, List.count_append, List.count_eq_zero]
  rw [heq]
  constructor
  case counted => exact hflushes.trans hs.counted
  case pending =>
    rw [hdones]
    exact hs.pending
  case turn =>
    intro x hx
    rw [hdones]
    rcases mem_unfinished.1 hx with hx | hx | hx
    · rcases List.mem_append.1 hx with hx | hx
      · exact hs.turn x (mem_unfinished.2 (.inl hx))
      · exact hnew x hx
    · exact hs.turn x (mem_unfinished.2 (.inr (.inl hx)))
    · exact hs.turn x (mem_unfinished.2 (.inr (.inr hx)))
  case idle => exact hs.idle
  case reporting => exact hs.reporting
  case queued =>
    intro x hx
    rcases List.mem_append.1 hx with hx | hx
    · rcases hs.queued x hx with hfin | hunf
      · exact .inl (List.mem_append_left _ hfin)
      · rcases mem_unfinished.1 hunf with hx | hx | hx
        · exact .inr (mem_unfinished.2 (.inl (List.mem_append_left _ hx)))
        · exact .inr (mem_unfinished.2 (.inr (.inl hx)))
        · exact .inr (mem_unfinished.2 (.inr (.inr hx)))
    · obtain ⟨y, hy, hyx⟩ := List.mem_map.1 hx
      obtain rfl : y = x := Event.queued.inj hyx
      exact .inr (mem_unfinished.2 (.inl (List.mem_append_right _ hy)))
  case started =>
    intro x n hx
    rw [hdones]
    rcases List.mem_append.1 hx with hx | hx
    · exact hs.started x n hx
    · obtain ⟨y, _, hyx⟩ := List.mem_map.1 hx
      cases hyx
  case acknowledged =>
    have hle : ∀ x ∈ new, flushes s.log ≤ x.turn := by
      intro x hx
      exact Nat.le_of_eq (by rw [hturn x hx, hs.counted])
    exact acknowledged_queued hs.acknowledged hle

theorem InStep.set_flush (hs : InStep s) (hflag : s.tts_flush = false) : InStep s.set_flush := by
  have hdones : dones (s.log ++ [Event.flushed]) = dones s.log := dones_other (by simp)
  have hflushes : flushes (s.log ++ [Event.flushed]) = flushes s.log + 1 := flushes_concat
  constructor
  case counted => exact hflushes.trans (by rw [hs.counted]; rfl)
  case pending =>
    have hpend := hs.pending
    simp only [Session.set_flush, hdones]
    simp only [hflag, Bool.toNat_false] at hpend
    simp only [Bool.toNat_true]
    omega
  case turn =>
    intro x hx
    have hturn := hs.turn x hx
    simp only [Session.set_flush, hdones]
    exact hturn
  case idle => exact hs.idle
  case reporting => exact hs.reporting
  case queued =>
    intro x hx
    exact (hs.queued x (mem_of_mem_concat hx (by simp))).imp_left (List.mem_append_left _)
  case started =>
    intro x n hx
    simp only [Session.set_flush, hdones]
    exact hs.started x n (mem_of_mem_concat hx (by simp))
  case acknowledged => exact hs.acknowledged.concat (by simp) (by simp)

theorem done_eq_false {d : Drain} (hover : d.stage ≠ .over) (hfailed : d.stage ≠ .failed) :
    d.done = false := decide_eq_false (not_or.2 ⟨hover, hfailed⟩)

theorem spoken_eq_some {x : Sentence} : s.spoken = some x ↔
    ∃ d, s.current_tts_task = some d ∧ d.done = false ∧ d.sentence = x := by
  unfold Session.spoken
  split
  · next d hd =>
    split
    · next hdone => simp [hd, hdone]
    · next hdone => simp [hd, hdone]
  · next hnone => simp [hnone]

/-- A drain that is not done is somewhere between `draining` and `expired`. -/
theorem InStep.drains {d : Drain} (hs : InStep s) (hd : s.current_tts_task = some d)
    (hdone : d.done = false) : s.tts_out.sending = 0 ∧ s.tts_out ≠ .reporting := by
  constructor
  · cases hout : s.tts_out with
    | sending_done =>
      have hnone := hs.idle (by rw [hout]; rfl)
      rw [hd] at hnone
      cases hnone
    | _ => rfl
  · intro hout
    have hnone := hs.reporting hout
    rw [spoken_eq_some.2 ⟨d, hd, hdone, rfl⟩] at hnone
    cases hnone

theorem InStep.synth_starts (hs : InStep s) (h : Steps cfg s .synth_starts t) : InStep t := by
  obtain ⟨d, hd, hready, rfl⟩ := drain_cases h
  obtain ⟨hstage, _⟩ := of_decide_eq_true hready
  have hdone : d.done = false := done_eq_false (hstage ▸ nofun) (hstage ▸ nofun)
  obtain ⟨hsend, hrep⟩ := hs.drains hd hdone
  have hspoken := spoken_eq_some.2 ⟨d, hd, hdone, rfl⟩
  have hdones : dones (s.log ++ [Event.started d.sentence s.aborts]) = dones s.log := dones_other (by simp)
  constructor
  case counted =>
    rw [flushes_other (by simp)]
    exact hs.counted
  case pending =>
    rw [hdones]
    exact hs.pending
  case turn =>
    intro x hx
    rw [hdones]
    refine hs.turn x (mem_unfinished.2 ?_)
    refine (mem_unfinished.1 hx).imp_right (Or.imp_right fun hx => ?_)
    obtain ⟨d', hd', _, rfl⟩ := spoken_eq_some.1 hx
    obtain rfl := Option.some.inj hd'
    exact hspoken
  case idle =>
    intro hidle
    rw [hs.idle hidle] at hd
    cases hd
  case reporting => exact fun hr => absurd hr hrep
  case queued =>
    intro x hx
    refine (hs.queued x (mem_of_mem_concat hx (by simp))).imp (List.mem_append_left _) fun hx => ?_
    refine mem_unfinished.2 ((mem_unfinished.1 hx).imp_right (Or.imp_right fun hx => ?_))
    rw [hspoken] at hx
    exact spoken_eq_some.2 ⟨_, rfl, rfl, Option.some.inj hx⟩
  case started =>
    intro x n hx
    rw [hdones]
    rcases List.mem_append.1 hx with hx | hx
    · exact hs.started x n hx
    · obtain ⟨rfl, _⟩ := Event.started.inj (List.mem_singleton.1 hx)
      have hturn := hs.turn _ (mem_unfinished.2 (.inr (.inr hspoken)))
      omega
  case acknowledged => exact hs.acknowledged.concat (by simp) (by simp)

/-- The drain is done with its sentence. -/
theorem InStep.finish {ready : Drain → Bool} {stage : Stage} (hs : InStep s)
    (h : s.drain ready stage (fun d => .finished d.sentence) = some t)
    (hready : ∀ d, ready d = true → d.done = false) (hstage : stage = .over ∨ stage = .failed) :
    InStep t := by
  obtain ⟨d, hd, hr, rfl⟩ := drain_cases h
  have hdone := hready d hr
  obtain ⟨hsend, hrep⟩ := hs.drains hd hdone
  have hspoken := spoken_eq_some.2 ⟨d, hd, hdone, rfl⟩
  have hdones : dones (s.log ++ [Event.finished d.sentence]) = dones s.log := dones_other (by simp)
  have hnone : ∀ x, Session.spoken { s with
      current_tts_task := some { d with stage := stage }
      log := s.log ++ [Event.finished d.sentence] } ≠ some x := by
    intro x hx
    obtain ⟨d', hd', hdone', _⟩ := spoken_eq_some.1 hx
    obtain rfl := Option.some.inj hd'
    rcases hstage with rfl | rfl <;> cases hdone'
  constructor
  case counted =>
    rw [flushes_other (by simp)]
    exact hs.counted
  case pending =>
    rw [hdones]
    exact hs.pending
  case turn =>
    intro x hx
    rw [hdones]
    refine hs.turn x (mem_unfinished.2 ?_)
    rcases mem_unfinished.1 hx with hx | hx | hx
    · exact .inl hx
    · exact .inr (.inl hx)
    · exact absurd hx (hnone x)
  case idle =>
    intro hidle
    rw [hs.idle hidle] at hd
    cases hd
  case reporting => exact fun hr => absurd hr hrep
  case queued =>
    intro x hx
    rcases hs.queued x (mem_of_mem_concat hx (by simp)) with hfin | hunf
    · exact .inl (List.mem_append_left _ hfin)
    · rcases mem_unfinished.1 hunf with hx | hx | hx
      · exact .inr (mem_unfinished.2 (.inl hx))
      · exact .inr (mem_unfinished.2 (.inr (.inl hx)))
      · rw [hspoken] at hx
        obtain rfl := Option.some.inj hx
        exact .inl (List.mem_append_right _ List.mem_cons_self)
  case started =>
    intro x n hx
    rw [hdones]
    exact hs.started x n (mem_of_mem_concat hx (by simp))
  case acknowledged => exact hs.acknowledged.concat (by simp) (by simp)

theorem InStep.done_sent (hs : InStep s) (hout : s.tts_out = .sending_done) :
    InStep { s with tts_out := .head, log := s.log ++ [Event.done] } := by
  have hdones : dones (s.log ++ [Event.done]) = dones s.log + 1 := dones_concat
  have hsend : s.tts_out.sending = 1 := by rw [hout]; rfl
  have hidle := hs.idle (by rw [hout]; rfl)
  have htaken : s.taken = none := by rw [Session.taken, hout]
  have hturn := hs.turn
  have hpend := hs.pending
  have hcount := hs.counted
  rw [hsend] at hturn hpend
  constructor
  case counted =>
    rw [flushes_other (by simp)]
    exact hs.counted
  case pending =>
    simp only [hdones, TtsOut.sending]
    omega
  case turn =>
    intro x hx
    simp only [hdones, TtsOut.sending]
    refine hturn x (mem_unfinished.2 ?_)
    rcases mem_unfinished.1 hx with hx | hx | hx
    · exact .inl hx
    · cases hx
    · exact .inr (.inr hx)
  case idle => exact fun _ => hidle
  case reporting => exact nofun
  case queued =>
    intro x hx
    rcases hs.queued x (mem_of_mem_concat hx (by simp)) with hfin | hunf
    · exact .inl (List.mem_append_left _ hfin)
    · rcases mem_unfinished.1 hunf with hx | hx | hx
      · exact .inr (mem_unfinished.2 (.inl hx))
      · exact absurd (htaken.symm.trans hx) nofun
      · exact .inr (mem_unfinished.2 (.inr (.inr hx)))
  case started =>
    intro x n hx
    rw [hdones]
    exact Nat.le_succ_of_le (hs.started x n (mem_of_mem_concat hx (by simp)))
  case acknowledged =>
    refine hs.acknowledged.concat (by simp) fun _ => ⟨by omega, fun x hx hle => ?_, hs.started⟩
    rcases hs.queued x hx with hfin | hunf
    · exact hfin
    · have hnext := hturn x hunf
      omega

theorem cancel_current_spoken : s.cancel_current.spoken = s.spoken := by
  cases hd : s.current_tts_task with
  | none => simp [Session.spoken, Session.cancel_current, hd]
  | some d =>
    have hcancel : d.cancel.done = d.done ∧ d.cancel.sentence = d.sentence := by
      unfold Drain.cancel
      split <;> exact ⟨rfl, rfl⟩
    simp [Session.spoken, Session.cancel_current, hd, hcancel]

/-- A cancelled drain is as far as it was. -/
theorem InStep.cancel_current (hs : InStep s) : InStep s.cancel_current := by
  refine hs.move rfl rfl rfl (fun x => ?_) (.inl rfl) (fun hidle => ?_) fun hr => ?_
  · rw [mem_unfinished, mem_unfinished, cancel_current_spoken]
    rfl
  · simp [Session.cancel_current, hs.idle hidle]
  · exact cancel_current_spoken.trans (hs.reporting hr)

/-- `tts_out_task` goes on with no sentence in its hands. -/
theorem InStep.go (hs : InStep s) (out : TtsOut) (htaken : s.taken = none)
    (hout : ∀ x, out ≠ .taken x) (hsending : out.sending = s.tts_out.sending)
    (hidle : out.drains = false → s.current_tts_task = none)
    (hreporting : out = .reporting → s.spoken = none) : InStep { s with tts_out := out } := by
  refine hs.move rfl rfl (by rw [hsending]) (fun x => ?_) (.inl hsending) hidle hreporting
  have hnone : Session.taken { s with tts_out := out } = none := by
    unfold Session.taken
    split
    · next heq => exact absurd heq (hout _)
    · rfl
  rw [mem_unfinished, mem_unfinished, hnone, htaken]
  rfl

theorem InStep.drained (hs : InStep s) (htaken : s.taken = none) (h : s.drained = some t) :
    InStep t := by
  obtain ⟨d, out, hd, hdone, hout, rfl⟩ := drained_cases h
  have hspoken : s.spoken = none := by simp [Session.spoken, hd, hdone]
  have hsend : s.tts_out.sending = 0 := by
    cases ho : s.tts_out with
    | sending_done =>
      have hnone := hs.idle (by rw [ho]; rfl)
      rw [hd] at hnone
      cases hnone
    | _ => rfl
  have hsend' : out.sending = s.tts_out.sending := by
    rw [hsend]
    rcases hout with rfl | rfl <;> rfl
  have hnone : Session.taken { s with current_tts_task := none, tts_out := out } = none := by
    rcases hout with rfl | rfl <;> rfl
  refine hs.move rfl rfl (by rw [hsend']) (fun x => ?_) (.inl hsend') (fun _ => rfl) fun _ => rfl
  rw [mem_unfinished, mem_unfinished, hnone, htaken, hspoken]
  simp [Session.spoken]

theorem step_in_step {a : Action} (h : Steps cfg s a t) (hturn : InTurn cfg s a)
    (habort : a.aborts = false) (hs : InStep s) : InStep t := by
  have hmove : ∀ {u : Session}, u.log = s.log → u.flushes = s.flushes → u.tts_flush = s.tts_flush →
      u.tts_out = s.tts_out → u.current_tts_task = s.current_tts_task → u.tts_q = s.tts_q →
      InStep u := by
    intro u hlog hflushes hflag hout htask hq
    have htaken : u.taken = s.taken := by rw [Session.taken, hout, ← Session.taken]
    have hspoken : u.spoken = s.spoken := by rw [Session.spoken, htask, ← Session.spoken]
    refine hs.move hlog hflushes (by rw [hflag, hout]) ?_ (.inl (by rw [hout])) ?_ ?_
    · intro x
      rw [mem_unfinished, mem_unfinished, hq, htaken, hspoken]
    · rw [hout, htask]
      exact hs.idle
    · rw [hout, hspoken]
      exact hs.reporting
  cases a with
  | text text =>
    obtain ⟨_, rfl⟩ := guarded h
    refine hs.put_all ?_
    cases hflag : s.tts_flush with
    | false => exact .inl rfl
    | true => exact .inr (by simpa [Session.speaks] using hturn hflag)
  | tts_flush =>
    obtain ⟨_, rfl⟩ := guarded h
    have hflag : s.tts_flush = false := by
      cases hflag : s.tts_flush with
      | false => rfl
      | true => cases hturn hflag
    exact (hs.put_all (.inl hflag)).set_flush ((put_all_frame _).2.trans hflag)
  | direct_speak text =>
    have hflag : s.tts_flush = false := by
      cases hflag : s.tts_flush with
      | false => rfl
      | true => cases hturn hflag
    simp only [Steps, Session.step] at h
    split at h
    · split at h <;> cases h
      · exact hs.set_flush hflag
      · have hadd : (s.add cfg text).tts_flush = false := (put_all_frame _).2.trans hflag
        exact ((hs.put_all (.inl hflag)).put_all (.inl hadd)).set_flush
          ((put_all_frame _).2.trans hadd)
    · cases h
  | abort | reset_sent => cases habort
  | conversation_reset =>
    obtain ⟨_, rfl⟩ := guarded h
    exact hmove rfl rfl rfl rfl rfl rfl
  | asr_cancelled =>
    obtain ⟨_, rfl⟩ := guarded h
    exact hmove rfl rfl rfl rfl rfl rfl
  | barge_in =>
    obtain ⟨_, rfl⟩ := guarded h
    exact hs.cancel_current
  | pass =>
    obtain ⟨hout, rfl⟩ := guarded h
    have htaken : s.taken = none := by rw [Session.taken, hout]
    have hidle := hs.idle (by rw [hout]; rfl)
    unfold Session.pass
    split
    · next hflush =>
      have hnil : s.unfinished = [] := by
        simp [Session.unfinished, hflush.2, htaken, Session.spoken, hidle]
      refine hs.move rfl rfl ?_ (fun x => ?_) (.inr hnil) (fun _ => hidle) nofun
      · simp [hflush.1, hout, TtsOut.sending]
      · rw [mem_unfinished, mem_unfinished, htaken]
        rfl
    · exact hs.go .waiting htaken nofun (by rw [hout]; rfl) (fun _ => hidle) nofun
  | done_sent =>
    obtain ⟨hout, rfl⟩ := guarded h
    exact hs.done_sent hout
  | get =>
    simp only [Steps, Session.step] at h
    split at h
    · next x rest hout hq =>
      cases h
      have hidle := hs.idle (by rw [hout]; rfl)
      have hsend : TtsOut.sending (.taken x) = s.tts_out.sending := by rw [hout]; rfl
      refine hs.move rfl rfl (by rw [hsend]) (fun y => ?_) (.inl hsend) (fun _ => hidle) nofun
      have htaken : s.taken = none := by rw [Session.taken, hout]
      rw [mem_unfinished, mem_unfinished, hq, htaken, List.mem_cons]
      simp only [Session.taken, Option.some.injEq, reduceCtorEq, false_or]
      tauto
    · cases h
  | get_timeout =>
    obtain ⟨hout, rfl⟩ := guarded h
    have hidle := hs.idle (by rw [hout]; rfl)
    exact hs.go .head (by rw [Session.taken, hout]) nofun (by rw [hout]; rfl) (fun _ => hidle) nofun
  | take_up =>
    simp only [Steps, Session.step] at h
    split at h
    · next x hout =>
      cases h
      have hidle := hs.idle (by rw [hout]; rfl)
      have hsend : TtsOut.sending .draining = s.tts_out.sending := by rw [hout]; rfl
      refine hs.move rfl rfl (by rw [hsend]) (fun y => ?_) (.inl hsend) nofun nofun
      have htaken : s.taken = some x := by rw [Session.taken, hout]
      have hspoken : s.spoken = none := by rw [Session.spoken, hidle]
      rw [mem_unfinished, mem_unfinished, htaken, hspoken]
      exact or_congr_right or_comm
    · cases h
  | drain_over =>
    simp only [Steps, Session.step] at h
    split at h
    · next hout => exact hs.drained (by rw [Session.taken, hout]) h
    · cases h
  | deadline =>
    obtain ⟨hout, rfl⟩ := guarded h
    have hsend : TtsOut.sending .expired = s.cancel_current.tts_out.sending := by
      rw [show s.cancel_current.tts_out = s.tts_out from rfl, hout]
      rfl
    exact hs.cancel_current.go .expired (by simp [Session.taken, Session.cancel_current, hout]) nofun
      hsend nofun nofun
  | expired_over late =>
    simp only [Steps, Session.step] at h
    split at h
    · next hout =>
      have htaken : s.taken = none := by rw [Session.taken, hout]
      split at h
      · split at h <;> cases h
        next hdone =>
        refine hs.go .reporting htaken nofun (by rw [hout]; rfl) nofun fun _ => ?_
        obtain ⟨d, hd, hdone⟩ := (Option.any_eq_true _ _).1 hdone
        simp [Session.spoken, hd, hdone]
      · exact hs.drained htaken h
    · cases h
  | reported =>
    obtain ⟨hout, rfl⟩ := guarded h
    have hspoken := hs.reporting hout
    have hsend : TtsOut.sending .head = s.tts_out.sending := by rw [hout]; rfl
    refine hs.move rfl rfl (by rw [hsend]) (fun x => ?_) (.inl hsend) (fun _ => rfl) nofun
    have htaken : s.taken = none := by rw [Session.taken, hout]
    rw [mem_unfinished, mem_unfinished, htaken, hspoken]
    simp [Session.taken, Session.spoken]
  | synth_starts => exact hs.synth_starts h
  | synth_ends =>
    refine hs.finish h (fun d hd => ?_) (.inl rfl)
    have hstage : d.stage = .synthesizing := of_decide_eq_true hd
    exact done_eq_false (hstage ▸ nofun) (hstage ▸ nofun)
  | drain_stops => exact hs.finish h (fun d hd => (of_decide_eq_true hd).1) (.inl rfl)
  | drain_fails => exact hs.finish h (fun d hd => of_decide_eq_true hd) (.inr rfl)

end
theorem in_step_init : InStep .init :=
  ⟨rfl, rfl, nofun, fun _ => rfl, nofun, nofun, nofun, fun before after h => by simp [Session.init] at h⟩

theorem runs_in_step {cfg : Config} {as : List Action} {s : Session}
    (h : Run (restrict (InTurn cfg) (Steps cfg)) .init as s) (hno : ∀ a ∈ as, a.aborts = false) :
    InStep s := by
  induction h with
  | nil => exact in_step_init
  | snoc _ hst ih =>
    have hs := ih fun a ha => hno a (List.mem_append_left _ ha)
    exact step_in_step hst.2 hst.1 (hno _ (by simp)) hs

/-- In a run without aborts in which nothing more is said while a flush is pending, every `tts_done`
    answers its own flush in its own place, and once all is spoken there are as many of them as
    flushes. -/
theorem turns_acknowledged {cfg : Config} {as : List Action} {s : Session}
    (h : Run (restrict (InTurn cfg) (Steps cfg)) .init as s) (hno : ∀ a ∈ as, a.aborts = false) :
    Acknowledged s.log ∧ (Drained s → dones s.log = flushes s.log) := by
  have hs := runs_in_step h hno
  refine ⟨hs.acknowledged, fun ⟨_, hflag, hsend⟩ => ?_⟩
  have hpend := hs.pending
  have hcount := hs.counted
  simp only [hflag, Bool.toNat_false, hsend] at hpend
  omega

/-- A sentence is taken off the queue and spoken. -/
def spoken_next : List Action :=
  [.pass, .get, .take_up, .synth_starts, .synth_ends, .drain_over]

/-- The second turn comes while the first one is waiting. -/
def two_turns_at_once : List Action :=
  [.text "One!".toList, .tts_flush, .text "Two!".toList, .tts_flush] ++ spoken_next ++
    spoken_next ++ [.pass, .done_sent, .pass]

theorem two_flushes_one_done :
    ¬ ∀ (cfg : Config) (as : List Action) (s : Session), Runs cfg as s →
      (∀ a ∈ as, a.aborts = false) →
      Acknowledged s.log ∧ (Drained s → dones s.log = flushes s.log) := by
  intro hall
  obtain ⟨s, hrun, hlog⟩ := Run.of_replay_any (Session.step english) .init two_turns_at_once
    (fun s => Drained s ∧ dones s.log = 1 ∧ flushes s.log = 2) (by decide +kernel)
  obtain ⟨hdrained, hdones, hflushes⟩ := of_decide_eq_true hlog
  have heq := (hall english two_turns_at_once s hrun (by decide)).2 hdrained
  omega

/-- The second turn comes while the first one is being acknowledged. -/
def turn_by_turn : List Action :=
  [.text "One!".toList, .tts_flush] ++ spoken_next ++
    [.pass, .text "Two!".toList, .tts_flush, .done_sent] ++ spoken_next ++ [.pass, .done_sent]

theorem turns_acknowledged_turn_by_turn :
    ∃ s, Run (restrict (InTurn english) (Steps english)) .init turn_by_turn s ∧ Drained s ∧
      flushes s.log = 2 ∧ Acknowledged s.log ∧ dones s.log = flushes s.log := by
  obtain ⟨s, hrun, hlog⟩ := Run.of_replay_any
    (fun s a => if InTurn english s a then Session.step english s a else none) .init turn_by_turn
    (fun s => Drained s ∧ flushes s.log = 2) (by decide +kernel)
  obtain ⟨hdrained, hflushes⟩ := of_decide_eq_true hlog
  have hrun' : Run (restrict (InTurn english) (Steps english)) .init turn_by_turn s :=
    Run.restrict_mono hrun
  obtain ⟨hack, hcount⟩ := turns_acknowledged hrun' (by decide)
  exact ⟨s, hrun', hdrained, hflushes, hack, hcount hdrained⟩

end LocalVoice.V2V.Speech
