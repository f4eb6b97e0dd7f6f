import LocalVoice.SlvClient.Client

/-! What a move of a task does, case by case, and what a step of the client is. -/

namespace LocalVoice.SlvClient
open LocalVoice.Lib

/-- The phases a call is cut off in by an exception, or by a cancellation. -/
def Phase.stops (m : Move) : Phase → Prop
  | .closing_reader .. | .burying_reader .. | .ended | .ending_reader _ | .ending_ws _ => False
  | .dialing _ | .configuring .. | .writing _ => m = .cancel ∨ m = .fail
  | _ => m = .cancel

/-- The moves, with the state each leaves. -/
inductive Moved (c : Shared) (job : Job) : Move → Phase → Phase → Shared → Prop where
  | handled : Moved c job .go .handling .waiting c
  | send_open {p : Payload} {s : ℕ} (hjob : job = .send p) (hws : c.ws = some s) :
      Moved c job .go .waiting (.writing s) c
  | send_dead {p : Payload} (hjob : job = .send p) (hws : c.ws = none) :
      Moved c job .go .waiting .ended c
  | revive {p : Payload} (hjob : job = .send p) (hws : c.ws = none) (hclosed : c.closed = false)
      (hp : p.connect_if_dead = true) : Moved c job .go .waiting (.dialing backoffs) c.begin_attempt
  | too_late (hjob : job = .reconnect) : Moved c job .go .waiting .ended c
  | lock (hjob : job = .reconnect) (hclosed : c.closed = false) : Moved c job .go .waiting .locked c
  | wrote_result {origin s : ℕ} (hjob : job = .send (.tool_result origin)) (hlive : c.live s = true) :
      Moved c job .wrote (.writing s) .ended { c with written := c.written ++ [(origin, s)] }
  | wrote {s : ℕ} (hlive : c.live s = true) : Moved c job .wrote (.writing s) .ended c
  | failed {s : ℕ} (hlive : c.live s = false) :
      Moved c job .failed (.writing s) .ended { c with ws := none }
  | tear_wait {r : ℕ} (htask : c.reader_task = some r) (halive : c.alive r = true) :
      Moved c job .go .locked (.closing_reader r c.ws) c.detach
  | tear (hdone : ∀ r, c.reader_task = some r → c.alive r = false) :
      Moved c job .go .locked (after_reader c.ws) c.detach
  | reader_closed {r : ℕ} {w : Option ℕ} (hdone : c.alive r = false) :
      Moved c job .go (.closing_reader r w) (after_reader w) c
  | ws_closed {w : ℕ} : Moved c job .go (.closing_ws w) .pausing (c.close_sock w)
  | paused : Moved c job .go .pausing (.dialing backoffs) c.begin_attempt
  | connected {k : ℕ} : Moved c job .connected (.dialing k) (.configuring k c.opened) c.assign
  | configured {k n : ℕ} {rate : Option ℕ} (hrate : c.v2 = false → rate = none) :
      Moved c job (.configured rate) (.configuring k n)
        (.grace k n (if c.reader_done then none else some c.sets)) (c.create_reader n rate)
  | slammed {k n : ℕ} (hlive : c.live n = false) : Moved c job .slam (.configuring k n) (.slammed k n) c
  | refused {k n : ℕ} : Moved c job .refuse (.configuring k n) (.refused n) c
  | slam_closed {k n : ℕ} : Moved c job .go (.slammed k n) (retry k) c.drop_ws
  | refuse_closed {n : ℕ} : Moved c job .go (.refused n) .ended c.drop_ws
  | healthy {k n : ℕ} {since : Option ℕ} (hwoken : c.woken since = false) :
      Moved c job .healthy (.grace k n since) (job.after_open c.ws) (c.accept n)
  | reject_wait {k n r : ℕ} {since : Option ℕ} (hwoken : c.woken since = true)
      (htask : c.reader_task = some r) (halive : c.alive r = true) :
      Moved c job .reject (.grace k n since) (.burying_reader k r c.ws) (c.judge n)
  | reject {k n : ℕ} {since : Option ℕ} (hwoken : c.woken since = true)
      (hdone : ∀ r, c.reader_task = some r → c.alive r = false) :
      Moved c job .reject (.grace k n since) (after_burial k c.ws) ((c.judge n).drain c.ws)
  | reader_buried {k r : ℕ} {w : Option ℕ} (hdone : c.alive r = false) :
      Moved c job .go (.burying_reader k r w) (after_burial k w) (c.drain w)
  | ws_buried {k w : ℕ} : Moved c job .go (.burying_ws k w) (retry k) ((c.close_sock w).drain none)
  | backed_off {k : ℕ} : Moved c job .go (.backing_off k) (.dialing (k - 1)) c.begin_attempt
  | reader_ended {r : ℕ} (hdone : c.alive r = false) :
      Moved c job .go (.ending_reader r) (close_ws c.ws) c
  | ws_ended {w : ℕ} : Moved c job .go (.ending_ws w) .ended { c.close_sock w with ws := none }
  | stopped {m : Move} {ph : Phase} (hstops : ph.stops m) : Moved c job m ph .ended c

section
variable {c c' : Shared} {job : Job} {m : Move} {ph ph' : Phase}

/-- Every move is one of those. -/
theorem move_cases (h : ph.move job m c = some (ph', c')) : Moved c job m ph ph' c' := by
  unfold Phase.move at h
  split at h
  case h_1 => cases h; exact .handled
  case h_2 =>
    cases job with
    | send p =>
      simp only at h
      cases hws : c.ws with
      | some s =>
        rw [hws] at h
        cases h
        exact .send_open rfl hws
      | none =>
        rw [hws] at h
        simp only at h
        split at h
        · cases h
          exact .send_dead rfl hws
        · next hopen =>
          cases h
          simp only [Bool.or_eq_true, Bool.not_eq_true', not_or, Bool.not_eq_true,
            Bool.not_eq_false] at hopen
          exact .revive rfl hws hopen.1 hopen.2
    | reconnect =>
      simp only at h
      split at h
      · cases h
        exact .too_late rfl
      · next hopen =>
        cases h
        exact .lock rfl (Bool.eq_false_iff.2 hopen)
    | _ => cases h
  case h_3 s =>
    split at h
    · next hlive =>
      split at h
      · cases h
        exact .wrote_result rfl hlive
      · cases h
        exact .wrote hlive
    · cases h
  case h_4 s =>
    split at h
    · cases h
    · next hlive =>
      cases h
      exact .failed (Bool.eq_false_iff.2 hlive)
  case h_5 => cases h; exact .stopped (Or.inr rfl)
  case h_6 =>
    cases htask : c.reader_task with
    | some r =>
      rw [htask] at h
      simp only at h
      split at h
      · next halive =>
        cases h
        exact .tear_wait htask halive
      · next hdone =>
        cases h
        refine .tear fun r' hr' => ?_
        obtain rfl := Option.some.inj (hr'.symm.trans htask)
        exact Bool.eq_false_iff.2 hdone
    | none =>
      rw [htask] at h
      cases h
      exact .tear fun r hr => by rw [hr] at htask; cases htask
  case h_7 =>
    split at h
    · cases h
    · next hdone =>
      cases h
      exact .reader_closed (Bool.eq_false_iff.2 hdone)
  case h_8 => cases h; exact .ws_closed
  case h_9 => cases h; exact .paused
  case h_10 => cases h; exact .connected
  case h_11 => cases h; exact .stopped (Or.inr rfl)
  case h_12 =>
    split at h
    · cases h
    · next hrate =>
      cases h
      refine .configured fun hv => ?_
      rw [hv] at hrate
      simpa using hrate
  case h_13 =>
    split at h
    · cases h
    · next hlive =>
      cases h
      exact .slammed (Bool.eq_false_iff.2 hlive)
  case h_14 =>
    split at h
    · cases h
      exact .refused
    · cases h
  case h_15 => cases h; exact .stopped (Or.inr rfl)
  case h_16 => cases h; exact .slam_closed
  case h_17 => cases h; exact .refuse_closed
  case h_18 =>
    split at h
    · cases h
    · next hwoken =>
      cases h
      exact .healthy (Bool.eq_false_iff.2 hwoken)
  case h_19 =>
    split at h
    · cases h
    · next hwoken =>
      rw [Bool.not_eq_true', Bool.not_eq_false] at hwoken
      cases htask : c.reader_task with
      | some r =>
        rw [htask] at h
        simp only at h
        split at h
        · next halive =>
          cases h
          exact .reject_wait hwoken htask halive
        · next hdone =>
          cases h
          refine .reject hwoken fun r' hr' => ?_
          obtain rfl := Option.some.inj (hr'.symm.trans htask)
          exact Bool.eq_false_iff.2 hdone
      | none =>
        rw [htask] at h
        cases h
        exact .reject hwoken fun r hr => by rw [hr] at htask; cases htask
  case h_20 =>
    split at h
    · cases h
    · next hdone =>
      cases h
      exact .reader_buried (Bool.eq_false_iff.2 hdone)
  case h_21 =>
    cases h
    exact .ws_buried
  case h_22 => cases h; exact .backed_off
  case h_23 =>
    split at h
    · cases h
    · next hdone =>
      cases h
      exact .reader_ended (Bool.eq_false_iff.2 hdone)
  case h_24 => cases h; exact .ws_ended
  case h_30 =>
    cases h
    refine .stopped ?_
    cases ph <;> first | rfl | exact Or.inl rfl | simp_all
  all_goals cases h

/-- A move of the client is a move of one task, with the locks it wants free. -/
theorem client_move_cases {c c' : Client} {i : ℕ} (h : c.move i m = some c') : ∃ t ph,
    c.tasks[i]? = some t ∧ Moved c.shared t.job m t.phase ph c'.shared ∧
    c'.tasks = c.tasks.set i ⟨t.job, ph⟩ ∧ (t.wants_send m = true → c.send_lock = none) ∧
    c'.send_lock = after_move i (t.wants_send m) ph c.send_lock := by
  unfold Client.move at h
  split at h
  · cases h
  · next t ht =>
    split at h
    · cases h
    · next hlocks =>
      obtain ⟨⟨ph, shared⟩, hmove, rfl⟩ := Option.map_eq_some_iff.1 h
      refine ⟨t, ph, ht, move_cases hmove, rfl, fun hwants => ?_, rfl⟩
      cases hlock : c.send_lock with
      | none => rfl
      | some j =>
        rw [hwants, hlock] at hlocks
        exact absurd rfl hlocks

end

/-! ### Steps -/

/-- What happens to the readers and the sockets. -/
inductive Happened (c : Shared) : Label → Shared → Prop where
  | die {s : ℕ} (hs : s < c.opened) : Happened c (.die s) (c.close_sock s)
  | start {s t : ℕ} (hreader : c.reader s = .created) (hws : c.ws = some t) :
      Happened c (.reader_start s) (c.set_reader s (.running t))
  | start_dead {s : ℕ} (hreader : c.reader s = .created) (hws : c.ws = none) :
      Happened c (.reader_start s) (c.set_reader s .done)
  | frame {s t : ℕ} {f : Shared.Frame} (hreader : c.reader s = .running t) :
      Happened c (.frame s f) (c.read s t f)
  | reader_end {s t : ℕ} {normal : Bool} {code : Option ℕ} (hreader : c.reader s = .running t)
      (hlive : c.live t = false) : Happened c (.reader_end s normal code) (c.reach_end s t normal code)
  | dropped {s : ℕ} (hreader : c.reader s = .cancelled none) :
      Happened c (.reader_cancel s) (c.set_reader s .done)
  | cancelled {s t : ℕ} (hreader : c.reader s = .cancelled (some t)) :
      Happened c (.reader_cancel s) ((c.end_reader s).acted t)
  | cleared : Happened c .events_clear { c with reader_done := false }

inductive Stepped (c : Client) : Label → Client → Prop where
  | call {job : Job} (hjob : ∀ origin, job ≠ .send (.tool_result origin)) :
      Stepped c (.call job) { c with
        shared := (job.start c.shared).2, tasks := c.tasks ++ [⟨job, (job.start c.shared).1⟩] }
  | task {i : ℕ} {m : Move} {t : Task} {ph : Phase} {c' : Client} (ht : c.tasks[i]? = some t)
      (hmoved : Moved c.shared t.job m t.phase ph c'.shared)
      (htasks : c'.tasks = c.tasks.set i ⟨t.job, ph⟩)
      (hlock : t.wants_send m = true → c.send_lock = none)
      (hlock' : c'.send_lock = after_move i (t.wants_send m) ph c.send_lock) : Stepped c (.task i m) c'
  | happened {a : Label} {shared : Shared} (h : Happened c.shared a shared) :
      Stepped c a (c.with_shared shared)
  | take {s : ℕ} {e : Event} {rest : List (ℕ × Event)} (hqueue : c.shared.queue = (s, e) :: rest) :
      Stepped c .take (c.with_shared { c.shared with queue := rest })
  | take_call {s : ℕ} {rest : List (ℕ × Event)} (hqueue : c.shared.queue = (s, .tool_call) :: rest) :
      Stepped c .take { c with
        shared := { c.shared with queue := rest }
        tasks := c.tasks ++ [⟨.send (.tool_result s), .handling⟩] }

/-- Every step is one of those. -/
theorem step_cases {c c' : Client} {a : Label} (h : c.step a = some c') : Stepped c a c' := by
  cases a with
  | call job =>
    cases job with
    | send p =>
      cases p with
      | tool_result origin => cases h
      | other connect =>
        cases h
        exact .call fun origin hjob => by cases hjob
    | connect =>
      cases h
      exact .call fun origin hjob => by cases hjob
    | reconnect =>
      cases h
      exact .call fun origin hjob => by cases hjob
    | close =>
      cases h
      exact .call fun origin hjob => by cases hjob
  | task i m =>
    obtain ⟨t, ph, ht, hmoved, htasks, hlock, hlock'⟩ := client_move_cases h
    exact .task ht hmoved htasks hlock hlock'
  | die s =>
    simp only [Client.step] at h
    split at h
    · next hs =>
      cases h
      exact .happened (.die hs)
    · cases h
  | reader_start s =>
    simp only [Client.step] at h
    split at h
    · next hreader =>
      cases hws : c.shared.ws with
      | some t =>
        rw [hws] at h
        cases h
        exact .happened (.start hreader hws)
      | none =>
        rw [hws] at h
        cases h
        exact .happened (.start_dead hreader hws)
    · cases h
  | frame s f =>
    simp only [Client.step] at h
    split at h
    · next t hreader =>
      cases h
      exact .happened (.frame hreader)
    · cases h
  | reader_end s normal code =>
    simp only [Client.step] at h
    split at h
    · next t hreader =>
      split at h
      · cases h
      · next hlive =>
        cases h
        exact .happened (.reader_end hreader (Bool.eq_false_iff.2 hlive))
    · cases h
  | reader_cancel s =>
    simp only [Client.step] at h
    split at h
    · next hreader =>
      cases h
      exact .happened (.dropped hreader)
    · next t hreader =>
      cases h
      exact .happened (.cancelled hreader)
    · cases h
  | take =>
    simp only [Client.step] at h
    split at h
    · cases h
    · next s e rest hqueue =>
      by_cases he : e = .tool_call
      · subst he
        cases h
        exact .take_call hqueue
      · rw [if_neg he] at h
        cases h
        exact .take hqueue
  | events_clear =>
    simp only [Client.step] at h
    split at h
    · cases h
      exact .happened .cleared
    · cases h

end LocalVoice.SlvClient
