import LocalVoice.SlvClient.Openings

/-! What `close()`, a cancellation or an exception leaves behind. A socket that is open is in `_ws`, or in
    the hands of the busy call; the one in `_ws` has its reader in `_reader_task`, but for the steps of
    `_open_with_retry` between the two assignments; and `close()` is safe while the busy call can open no
    further socket. -/

namespace LocalVoice.SlvClient
open LocalVoice.Lib

/-! ### Phases -/

/-- The socket that a call took out of `_ws`, to close it. -/
def Phase.held : Phase → Option ℕ
  | .closing_reader _ w | .burying_reader _ _ w => w
  | .closing_ws w | .burying_ws _ w => some w
  | _ => none

/-- The reader that a call took out of `_reader_task`, and waits for. -/
def Phase.awaits : Phase → Option ℕ
  | .closing_reader r _ | .burying_reader _ r _ => some r
  | _ => none

/-- `_ws` is assigned, and has no reader yet. -/
def Phase.unread : Phase → Bool
  | .configuring .. | .slammed .. | .refused _ => true
  | _ => false

/-- `_ws` is `None`. -/
def Phase.detached : Phase → Bool
  | .closing_reader .. | .closing_ws _ | .pausing | .dialing _ | .burying_reader .. | .burying_ws ..
  | .backing_off _ => true
  | _ => false

/-- No attempt is left, and no reader is still to be created. -/
def Phase.spent : Phase → Bool
  | .slammed 0 _ | .refused _ | .grace 0 _ _ | .burying_reader 0 _ _ | .burying_ws 0 _ => true
  | _ => false

/-- `close()` is at the reader, or at the socket. -/
def Phase.ending : Phase → Bool
  | .ending_reader _ | .ending_ws _ => true
  | _ => false

/-- The socket that a send writes to, or that `close()` closes. -/
def Phase.target : Phase → Option ℕ
  | .writing s | .ending_ws s => some s
  | _ => none

/-- A call that is cut off here leaves nothing open. -/
def Phase.cut_safe (c : Shared) : Phase → Bool
  | .configuring .. | .slammed .. | .refused _ => c.ws.isNone
  | .closing_ws w | .burying_ws _ w => !c.live w
  | _ => true

/-- No opening gets in the way of a send; nothing that opens a socket begins when the client is closed,
    or is left when `close()` begins; and no call is cut off between a socket and its reader, or before
    it has closed a socket that it took. -/
def tidy (c : Client) : Label → Bool
  | .call .connect => c.shared.ws.isSome || !c.shared.closed
  | .call .close => c.tasks.all fun t => !t.phase.busy || t.phase.spent
  | .task i .go => match c.tasks[i]? with
    | some ⟨.send _, .waiting⟩ => c.idle
    | some ⟨_, .locked⟩ => !c.shared.closed
    | _ => true
  | .task i .cancel | .task i .fail => c.tasks[i]?.all fun t => t.phase.cut_safe c.shared
  | _ => true

/-- What is open is in `_ws` or held by the busy call; and once the client is closed, that call opens
    nothing more. -/
structure Kept (c : Shared) (b : Option Phase) : Prop where
  live : ∀ s, c.live s = true → c.ws = some s ∨ ∃ ph, b = some ph ∧ ph.held = some s
  detached : ∀ ph, b = some ph → ph.detached = true → c.ws = none
  read : ∀ s, c.ws = some s → (c.reader_task = some s ∧ c.reader s ≠ .absent) ∨
    ∃ ph, b = some ph ∧ ph.unread = true
  awaited : ∀ s, c.alive s = true → c.reader_task = some s ∨ ∃ ph, b = some ph ∧ ph.awaits = some s
  spent : c.closed = true → ∀ ph, b = some ph → ph.spent = true
  keepalive : c.closed = true → c.keepalive = false

section
variable {c c' : Shared} {b : Option Phase} {job : Job} {m : Move} {ph ph' : Phase}

theorem held_busy {s : ℕ} (h : ph.held = some s) : ph.busy = true := by
  cases ph <;> first | rfl | cases h

theorem awaits_busy {s : ℕ} (h : ph.awaits = some s) : ph.busy = true := by
  cases ph <;> first | rfl | cases h

theorem unread_busy (h : ph.unread = true) : ph.busy = true := by
  cases ph <;> first | rfl | cases h

theorem ending_calm (h : ph.ending = true) : ph.busy = false := by
  cases ph <;> first | rfl | cases h

theorem as_busy_of_busy (h : ph.busy = true) : ph.as_busy = some ph := by
  rw [Phase.as_busy, if_pos h]

/-- What there is to say when a call is in a phase. -/
theorem Kept.at_phase (p : Phase) (hlive : ∀ s, c.live s = true → c.ws = some s ∨ p.held = some s)
    (hdetached : p.detached = true → c.ws = none)
    (hread : ∀ s, c.ws = some s → (c.reader_task = some s ∧ c.reader s ≠ .absent) ∨ p.unread = true)
    (hawaited : ∀ s, c.alive s = true → c.reader_task = some s ∨ p.awaits = some s)
    (hspent : c.closed = true → p.busy = true → p.spent = true)
    (hkeepalive : c.closed = true → c.keepalive = false) : Kept c p.as_busy where
  live := fun s hs => (hlive s hs).imp_right fun h => ⟨p, as_busy_of_busy (held_busy h), h⟩
  detached := by
    intro ph hb hph
    unfold Phase.as_busy at hb
    split at hb
    · obtain rfl := Option.some.inj hb
      exact hdetached hph
    · cases hb
  read := fun s hs => (hread s hs).imp_right fun h => ⟨p, as_busy_of_busy (unread_busy h), h⟩
  awaited := fun s hs => (hawaited s hs).imp_right fun h => ⟨p, as_busy_of_busy (awaits_busy h), h⟩
  spent := by
    intro hclosed ph hb
    unfold Phase.as_busy at hb
    split at hb
    · next hbusy =>
      obtain rfl := Option.some.inj hb
      exact hspent hclosed hbusy
    · cases hb
  keepalive := hkeepalive

/-- A step that the busy call has no part in: sockets may close, `_ws` may be cleared if it is closed,
    and readers may end. -/
theorem Kept.congr (h : Kept c b) (hlive : ∀ s, c'.live s = true → c.live s = true)
    (hws : c'.ws = c.ws ∨ c'.ws = none ∧ ∀ s, c.ws = some s → c'.live s = false)
    (hreader : ∀ s, c.reader s ≠ .absent → c'.reader s ≠ .absent)
    (halive : ∀ s, c'.alive s = true → c.alive s = true) (htask : c'.reader_task = c.reader_task)
    (hclosed : c'.closed = c.closed) (hkeepalive : c'.keepalive = c.keepalive) : Kept c' b where
  live := by
    intro s hs
    rcases h.live s (hlive s hs) with hin | hheld
    · rcases hws with heq | ⟨-, hshut⟩
      · exact Or.inl (heq.trans hin)
      · rw [hshut s hin] at hs
        cases hs
    · exact Or.inr hheld
  detached := by
    intro ph hb hph
    rcases hws with heq | ⟨hnone, -⟩
    · exact heq.trans (h.detached ph hb hph)
    · exact hnone
  read := by
    intro s hs
    rw [htask]
    rcases hws with heq | ⟨hnone, -⟩
    · exact (h.read s (heq ▸ hs)).imp_left fun hr => ⟨hr.1, hreader s hr.2⟩
    · rw [hnone] at hs
      cases hs
  awaited := by
    intro s hs
    rw [htask]
    exact h.awaited s (halive s hs)
  spent := by
    rw [hclosed]
    exact h.spent
  keepalive := by
    rw [hclosed, hkeepalive]
    exact h.keepalive

theorem Kept.live_of {p : Phase} (h : Kept c (some p)) {s : ℕ} (hs : c.live s = true) :
    c.ws = some s ∨ p.held = some s :=
  (h.live s hs).imp_right fun ⟨_, hb, hheld⟩ => Option.some.inj hb ▸ hheld

theorem Kept.live_idle (h : Kept c none) {s : ℕ} (hs : c.live s = true) : c.ws = some s :=
  (h.live s hs).resolve_right fun ⟨_, hb, _⟩ => Option.some_ne_none _ hb.symm

theorem Kept.read_of {p : Phase} (h : Kept c (some p)) (hp : p.unread = false) {s : ℕ}
    (hs : c.ws = some s) : c.reader_task = some s ∧ c.reader s ≠ .absent :=
  (h.read s hs).resolve_right fun ⟨_, hb, hunread⟩ => by
    obtain rfl := Option.some.inj hb
    rw [hp] at hunread
    cases hunread

theorem Kept.read_idle (h : Kept c none) {s : ℕ} (hs : c.ws = some s) :
    c.reader_task = some s ∧ c.reader s ≠ .absent :=
  (h.read s hs).resolve_right fun ⟨_, hb, _⟩ => Option.some_ne_none _ hb.symm

theorem Kept.awaited_of {p : Phase} (h : Kept c (some p)) {s : ℕ} (hs : c.alive s = true) :
    c.reader_task = some s ∨ p.awaits = some s :=
  (h.awaited s hs).imp_right fun ⟨_, hb, hawaits⟩ => Option.some.inj hb ▸ hawaits

theorem Kept.awaited_idle (h : Kept c none) {s : ℕ} (hs : c.alive s = true) :
    c.reader_task = some s :=
  (h.awaited s hs).resolve_right fun ⟨_, hb, _⟩ => Option.some_ne_none _ hb.symm

/-- A phase that is not spent is not left when the client is closed. -/
theorem Kept.open_of {p : Phase} (h : Kept c (some p)) (hp : p.spent = false) : c.closed = false := by
  by_contra hclosed
  rw [Bool.not_eq_false] at hclosed
  rw [h.spent hclosed p rfl] at hp
  cases hp

theorem not_closed {P : Prop} (hopen : c.closed = false) (hclosed : c.closed = true) : P := by
  rw [hopen] at hclosed
  cases hclosed

theorem close_sock_live_iff {w s : ℕ} :
    (c.close_sock w).live s = true ↔ s ≠ w ∧ c.live s = true := by
  by_cases hs : s = w
  · simp [Shared.close_sock, hs]
  · simp [Shared.close_sock, hs]

theorem drop_ws_live_iff {s : ℕ} : c.drop_ws.live s = true ↔ c.ws ≠ some s ∧ c.live s = true := by
  cases hws : c.ws with
  | none => simp [Shared.drop_ws, hws]
  | some w =>
    by_cases hs : s = w
    · simp [Shared.drop_ws, hws, hs]
    · simp [Shared.drop_ws, hws, hs, Ne.symm hs]

/-! ### Moves -/

theorem Kept.begin_attempt (h : Kept c b) (hws : c.ws = none) (hheld : ∀ ph, b = some ph → ph.held = none)
    (hnone : ∀ s, c.alive s = false) (hopen : c.closed = false) (k : ℕ) :
    Kept c.begin_attempt (some (.dialing k)) := by
  refine Kept.at_phase (c := c.begin_attempt) (.dialing k) (fun s hs => ?_) (fun _ => hws)
    (fun s hs => ?_) (fun s hs => ?_) (not_closed hopen) h.keepalive
  · rcases h.live s hs with hin | ⟨ph, hb, hin⟩
    · exact Or.inl hin
    · rw [hheld ph hb] at hin
      cases hin
  · rw [show c.begin_attempt.ws = c.ws from rfl, hws] at hs
    cases hs
  · rw [show c.begin_attempt.alive s = c.alive s from rfl, hnone s] at hs
    cases hs

theorem Kept.assign {k : ℕ} (h : Kept c (some (.dialing k))) (hcore : Core c (some (.dialing k))) :
    Kept c.assign (some (.configuring k c.opened)) := by
  refine Kept.at_phase (c := c.assign) (.configuring k c.opened) (fun s hs => ?_) nofun
    (fun _ _ => Or.inr rfl) (fun s hs => ?_) (not_closed (h.open_of rfl)) h.keepalive
  · by_cases hlast : s = c.opened
    · exact Or.inl (congrArg some hlast.symm)
    · have hold : c.live s = true := by simpa [Shared.assign, hlast] using hs
      rcases h.live_of hold with hws | hheld
      · rw [h.detached _ rfl rfl] at hws
        cases hws
      · cases hheld
  · rw [show c.assign.alive s = c.alive s from rfl, hcore.calm _ rfl rfl s] at hs
    cases hs

theorem Kept.create_reader {k n : ℕ} (h : Kept c (some (.configuring k n)))
    (hcore : Core c (some (.configuring k n))) (rate since : Option ℕ) :
    Kept (c.create_reader n rate) (some (.grace k n since)) := by
  have hlast := hcore.sock _ n rfl rfl
  refine Kept.at_phase (c := c.create_reader n rate) (.grace k n since) (fun s hs => ?_) nofun
    (fun s hs => ?_) (fun s hs => ?_) (not_closed (h.open_of rfl)) h.keepalive
  · exact (h.live_of hs).imp_right nofun
  · have hlatest := hcore.ws_latest s hs
    obtain rfl : s = n := by omega
    exact Or.inl ⟨rfl, by simp [Shared.create_reader, Shared.set_reader]⟩
  · by_cases hsn : s = n
    · exact Or.inl (congrArg some hsn.symm)
    · have hold : c.alive s = true := by
        simpa [Shared.alive, Shared.create_reader, Shared.set_reader, hsn] using hs
      rw [hcore.calm _ rfl rfl s] at hold
      cases hold

theorem Kept.retry {k : ℕ} (hlive : ∀ s, c.live s = false) (hws : c.ws = none)
    (hnone : ∀ s, c.alive s = false) (hspent : c.closed = true → k = 0)
    (hkeepalive : c.closed = true → c.keepalive = false) : Kept c (retry k).as_busy := by
  refine Kept.at_phase (SlvClient.retry k) (fun s hs => ?_) (fun _ => hws) (fun s hs => ?_)
    (fun s hs => ?_) (fun hclosed hbusy => ?_) hkeepalive
  · rw [hlive s] at hs
    cases hs
  · rw [hws] at hs
    cases hs
  · rw [hnone s] at hs
    cases hs
  · obtain rfl := hspent hclosed
    cases hbusy

theorem Kept.after_burial {k : ℕ} {w : Option ℕ} (hlive : ∀ s, c.live s = true → w = some s)
    (hws : c.ws = none) (hnone : ∀ s, c.alive s = false) (hspent : c.closed = true → k = 0)
    (hkeepalive : c.closed = true → c.keepalive = false) : Kept c (after_burial k w).as_busy := by
  cases w with
  | none =>
    refine Kept.retry (fun s => ?_) hws hnone hspent hkeepalive
    by_contra hs
    rw [Bool.not_eq_false] at hs
    cases hlive s hs
  | some w =>
    refine Kept.at_phase (.burying_ws k w) (fun s hs => Or.inr (hlive s hs)) (fun _ => hws)
      (fun s hs => ?_) (fun s hs => ?_) (fun hclosed _ => ?_) hkeepalive
    · rw [hws] at hs
      cases hs
    · rw [hnone s] at hs
      cases hs
    · obtain rfl := hspent hclosed
      rfl

theorem Kept.after_reader {w : Option ℕ} (hlive : ∀ s, c.live s = true → w = some s)
    (hws : c.ws = none) (hnone : ∀ s, c.alive s = false) (hopen : c.closed = false) :
    Kept c (after_reader w).as_busy := by
  have hheld : (SlvClient.after_reader w).held = w := by cases w <;> rfl
  refine Kept.at_phase (SlvClient.after_reader w) (fun s hs => ?_) (fun _ => hws) (fun s hs => ?_)
    (fun s hs => ?_) (not_closed hopen) (not_closed hopen)
  · rw [hheld]
    exact Or.inr (hlive s hs)
  · rw [hws] at hs
    cases hs
  · rw [hnone s] at hs
    cases hs

theorem grace_spent {k n : ℕ} {since : Option ℕ} (h : (Phase.grace k n since).spent = true) : k = 0 := by
  cases k with
  | zero => rfl
  | succ k => cases h

theorem slammed_spent {k n : ℕ} (h : (Phase.slammed k n).spent = true) : k = 0 := by
  cases k with
  | zero => rfl
  | succ k => cases h

theorem burying_reader_spent {k r : ℕ} {w : Option ℕ} (h : (Phase.burying_reader k r w).spent = true) :
    k = 0 := by
  cases k with
  | zero => rfl
  | succ k => cases h

theorem burying_ws_spent {k w : ℕ} (h : (Phase.burying_ws k w).spent = true) : k = 0 := by
  cases k with
  | zero => rfl
  | succ k => cases h

theorem Kept.accept {k n : ℕ} {since : Option ℕ} (h : Kept c (some (.grace k n since))) :
    Kept (c.accept n) none := by
  refine Kept.at_phase (c := c.accept n) .ended (fun s hs => ?_) nofun (fun s hs => ?_) (fun s hs => ?_)
    nofun fun hclosed => ?_
  · exact (h.live_of hs).imp_right nofun
  · exact Or.inl (h.read_of rfl hs)
  · exact (h.awaited_of hs).imp_right nofun
  · rw [show (c.accept n).keepalive = !c.closed from rfl, show c.closed = true from hclosed]
    rfl

/-- A socket that the call took is closed where it may be cut off. -/
theorem cut_held (hstops : ph.stops m) (hcut : ph.cut_safe c = true) {s : ℕ} (h : ph.held = some s) :
    c.live s = false := by
  cases ph with
  | closing_reader => exact hstops.elim
  | burying_reader => exact hstops.elim
  | closing_ws w =>
    obtain rfl := Option.some.inj h
    simpa [Phase.cut_safe] using hcut
  | burying_ws k w =>
    obtain rfl := Option.some.inj h
    simpa [Phase.cut_safe] using hcut
  | _ => cases h

theorem cut_unread (hcut : ph.cut_safe c = true) (h : ph.unread = true) : c.ws = none := by
  cases ph with
  | configuring => simpa [Phase.cut_safe] using hcut
  | slammed => simpa [Phase.cut_safe] using hcut
  | refused => simpa [Phase.cut_safe] using hcut
  | _ => cases h

/-- A call is cut off where it leaves nothing open. -/
theorem Kept.stop (h : Kept c (some ph)) (hstops : ph.stops m) (hcut : ph.cut_safe c = true) :
    Kept c none := by
  have hawaits : ph.awaits = none := by cases ph <;> first | rfl | cases hstops
  refine Kept.at_phase .ended (fun s hs => ?_) nofun (fun s hs => ?_) (fun s hs => ?_) nofun h.keepalive
  · refine Or.inl ((h.live_of hs).resolve_right fun hheld => ?_)
    rw [cut_held hstops hcut hheld] at hs
    cases hs
  · refine Or.inl (h.read_of (Bool.eq_false_iff.2 fun hunread => ?_) hs)
    rw [cut_unread hcut hunread] at hs
    cases hs
  · refine Or.inl ((h.awaited_of hs).resolve_right ?_)
    rw [hawaits]
    nofun

/-- A move keeps what is open in `_ws`, or with the busy call. -/
theorem Kept.moved (h : Kept c b) (hcore : Core c b) (ha : Admitted c b ph ph')
    (hm : Moved c job m ph ph' c') (hopen : ph = .locked → m = .go → c.closed = false)
    (hcut : ph.stops m → ph.cut_safe c = true)
    (htarget : ∀ s t, ph.target = some s → c.ws = some t → t = s) : Kept c' (busy_after b ph ph') := by
  cases hm with
  | handled => exact h
  | send_open => exact h
  | send_dead => exact h
  | too_late => exact h
  | lock => exact h
  | wrote_result => exact h.congr (fun _ hs => hs) (Or.inl rfl) (fun _ hs => hs) (fun _ hs => hs) rfl rfl rfl
  | wrote => exact h
  | @failed s hlive =>
    refine h.congr (fun _ hs => hs) (Or.inr ⟨rfl, fun t ht => ?_⟩) (fun _ hs => hs) (fun _ hs => hs) rfl
      rfl rfl
    obtain rfl := htarget s t rfl ht
    exact hlive
  | revive _ hws hclosed _ =>
    have hb := ha.idle rfl rfl
    subst hb
    exact h.begin_attempt hws nofun (ha.revive rfl rfl) hclosed backoffs
  | @tear_wait r htask =>
    have hb := ha.idle rfl rfl
    subst hb
    refine Kept.at_phase (c := c.detach) (.closing_reader r c.ws) (fun s hs => ?_) (fun _ => rfl) nofun
      (fun s hs => ?_) (not_closed (hopen rfl rfl)) h.keepalive
    · exact Or.inr (h.live_idle hs)
    · rw [alive_detach] at hs
      exact Or.inr (htask.symm.trans (h.awaited_idle hs))
  | tear hdone =>
    have hbusy : (SlvClient.after_reader c.ws).busy = true := by cases c.ws <;> rfl
    have hb := ha.idle rfl hbusy
    subst hb
    rw [busy_after_begin hbusy]
    refine Kept.after_reader (c := c.detach) (fun s hs => h.live_idle hs) rfl (fun s => ?_) (hopen rfl rfl)
    rw [alive_detach]
    by_contra hs
    rw [Bool.not_eq_false] at hs
    rw [hdone s (h.awaited_idle hs)] at hs
    cases hs
  | @reader_closed r w hdone =>
    have hb := ha.busy rfl
    subst hb
    rw [busy_after_busy rfl]
    have hws := h.detached _ rfl rfl
    refine Kept.after_reader (fun s hs => ?_) hws (hcore.none_alive (hcore.sock _ r rfl rfl) hdone)
      (h.open_of rfl)
    rcases h.live_of hs with hin | hheld
    · rw [hws] at hin
      cases hin
    · exact hheld
  | @ws_closed w =>
    have hb := ha.busy rfl
    subst hb
    have hws := h.detached _ rfl rfl
    refine Kept.at_phase (c := c.close_sock w) .pausing (fun s hs => ?_) (fun _ => hws) (fun s hs => ?_)
      (fun s hs => ?_) (not_closed (h.open_of rfl)) h.keepalive
    · obtain ⟨hne, hold⟩ := close_sock_live_iff.1 hs
      rcases h.live_of hold with hin | hheld
      · exact Or.inl hin
      · exact absurd (Option.some.inj hheld).symm hne
    · rw [show (c.close_sock w).ws = c.ws from rfl, hws] at hs
      cases hs
    · rw [show (c.close_sock w).alive s = c.alive s from rfl, hcore.calm _ rfl rfl s] at hs
      cases hs
  | paused =>
    have hb := ha.busy rfl
    subst hb
    refine h.begin_attempt (h.detached _ rfl rfl) ?_ (hcore.calm _ rfl rfl) (h.open_of rfl) backoffs
    rintro ph ⟨⟩
    rfl
  | connected =>
    have hb := ha.busy rfl
    subst hb
    exact h.assign hcore
  | configured =>
    have hb := ha.busy rfl
    subst hb
    exact h.create_reader hcore _ _
  | @slammed k n =>
    have hb := ha.busy rfl
    subst hb
    exact Kept.at_phase (.slammed k n) (fun s hs => h.live_of hs) nofun (fun _ _ => Or.inr rfl)
      (fun s hs => h.awaited_of hs) (not_closed (h.open_of rfl)) h.keepalive
  | @refused k n =>
    have hb := ha.busy rfl
    subst hb
    exact Kept.at_phase (.refused n) (fun s hs => h.live_of hs) nofun (fun _ _ => Or.inr rfl)
      (fun s hs => h.awaited_of hs) (not_closed (h.open_of rfl)) h.keepalive
  | @slam_closed k n =>
    have hb := ha.busy rfl
    subst hb
    rw [busy_after_busy rfl]
    refine Kept.retry (c := c.drop_ws) (fun s => ?_) rfl (hcore.calm _ rfl rfl)
      (fun hclosed => slammed_spent (h.spent hclosed _ rfl)) h.keepalive
    by_contra hs
    rw [Bool.not_eq_false] at hs
    obtain ⟨hne, hold⟩ := drop_ws_live_iff.1 hs
    exact hne ((h.live_of hold).resolve_right nofun)
  | @refuse_closed n =>
    have hb := ha.busy rfl
    subst hb
    refine Kept.at_phase (c := c.drop_ws) .ended (fun s hs => ?_) nofun nofun (fun s hs => ?_) nofun
      h.keepalive
    · obtain ⟨hne, hold⟩ := drop_ws_live_iff.1 hs
      exact absurd ((h.live_of hold).resolve_right nofun) hne
    · rw [show c.drop_ws.alive s = c.alive s from rfl, hcore.calm _ rfl rfl s] at hs
      cases hs
  | healthy =>
    have hb := ha.busy rfl
    subst hb
    rw [busy_after_busy rfl, as_busy_calm (after_open_calm _ _)]
    exact h.accept
  | @reject_wait k n r since _ htask halive =>
    have hb := ha.busy rfl
    subst hb
    refine Kept.at_phase (c := c.judge n) (.burying_reader k r c.ws) (fun s hs => ?_) (fun _ => rfl) nofun
      (fun s hs => ?_) (fun hclosed _ => ?_) h.keepalive
    · exact Or.inr ((h.live_of hs).resolve_right nofun)
    · rw [alive_judge] at hs
      exact Or.inr (htask.symm.trans ((h.awaited_of hs).resolve_right nofun))
    · obtain rfl := grace_spent (h.spent hclosed _ rfl)
      rfl
  | @reject k n since _ hdone =>
    have hb := ha.busy rfl
    subst hb
    rw [busy_after_busy rfl]
    refine Kept.after_burial (c := (c.judge n).drain c.ws) (fun s hs => ?_) rfl (fun s => ?_)
      (fun hclosed => grace_spent (h.spent hclosed _ rfl)) h.keepalive
    · exact (h.live_of hs).resolve_right nofun
    · rw [show ((c.judge n).drain c.ws).alive s = (c.judge n).alive s from rfl, alive_judge]
      exact hcore.none_alive (hcore.sock _ n rfl rfl) (hdone n (hcore.grace k n since rfl)) s
  | @reader_buried k r w hdone =>
    have hb := ha.busy rfl
    subst hb
    rw [busy_after_busy rfl]
    have hws := h.detached _ rfl rfl
    refine Kept.after_burial (c := c.drain w) (fun s hs => ?_) hws
      (hcore.none_alive (hcore.sock _ r rfl rfl) hdone)
      (fun hclosed => burying_reader_spent (h.spent hclosed _ rfl)) h.keepalive
    rcases h.live_of hs with hin | hheld
    · rw [hws] at hin
      cases hin
    · exact hheld
  | @ws_buried k w =>
    have hb := ha.busy rfl
    subst hb
    rw [busy_after_busy rfl]
    have hws := h.detached _ rfl rfl
    refine Kept.retry (c := (c.close_sock w).drain none) (fun s => ?_) hws (hcore.calm _ rfl rfl)
      (fun hclosed => burying_ws_spent (h.spent hclosed _ rfl)) h.keepalive
    by_contra hs
    rw [Bool.not_eq_false] at hs
    obtain ⟨hne, hold⟩ := close_sock_live_iff.1 hs
    rcases h.live_of hold with hin | hheld
    · rw [hws] at hin
      cases hin
    · exact hne (Option.some.inj hheld).symm
  | @backed_off k =>
    have hb := ha.busy rfl
    subst hb
    refine h.begin_attempt (h.detached _ rfl rfl) ?_ (hcore.calm _ rfl rfl) (h.open_of rfl) (k - 1)
    rintro ph ⟨⟩
    rfl
  | reader_ended =>
    rw [busy_after_calm rfl (close_ws_calm _)]
    exact h
  | @ws_ended w =>
    refine h.congr (fun s hs => (close_sock_live_iff.1 hs).2) (Or.inr ⟨rfl, fun t ht => ?_⟩)
      (fun _ hs => hs) (fun _ hs => hs) rfl rfl rfl
    obtain rfl := htarget w t rfl ht
    simp [Shared.close_sock]
  | stopped hstops =>
    cases hph : ph.busy with
    | true =>
      have hb := ha.busy hph
      subst hb
      rw [busy_after_busy hph]
      exact h.stop hstops (hcut hstops)
    | false =>
      rw [busy_after_calm hph rfl]
      exact h

/-! ### Readers and `close()` -/

theorem Kept.set_reader (h : Kept c b) {s : ℕ} {r : Reader} (hs : c.alive s = true)
    (hr : r ≠ .absent) : Kept (c.set_reader s r) b := by
  refine h.congr (fun _ ht => ht) (Or.inl rfl) (fun t ht => ?_) (fun t ht => ?_) rfl rfl rfl
  · by_cases hts : t = s
    · simpa [Shared.set_reader, hts] using hr
    · simpa [Shared.set_reader, hts] using ht
  · by_cases hts : t = s
    · rwa [hts]
    · rwa [alive_set_reader, if_neg hts] at ht

/-- Readers, rates, events and effects say nothing about sockets. -/
theorem Kept.idle_congr (h : Kept c b) (hlive : c'.live = c.live) (hws : c'.ws = c.ws)
    (hreader : c'.reader = c.reader) (htask : c'.reader_task = c.reader_task)
    (hclosed : c'.closed = c.closed) (hkeepalive : c'.keepalive = c.keepalive) : Kept c' b := by
  refine h.congr (fun s hs => ?_) (Or.inl hws) (fun s hs => ?_) (fun s hs => ?_) htask hclosed hkeepalive
  · rwa [hlive] at hs
  · rwa [hreader]
  · rwa [Shared.alive, hreader] at hs

theorem Kept.end_reader (h : Kept c b) {s : ℕ} (hs : c.alive s = true) : Kept (c.end_reader s) b :=
  (h.set_reader hs (r := .done) nofun).idle_congr rfl rfl rfl rfl rfl rfl

theorem Kept.happened (h : Kept c b) {a : Label} (hh : Happened c a c') : Kept c' b := by
  cases hh with
  | die =>
    exact h.congr (fun s hs => (close_sock_live_iff.1 hs).2) (Or.inl rfl) (fun _ hs => hs)
      (fun _ hs => hs) rfl rfl rfl
  | start hreader => exact h.set_reader (alive_of_reader hreader rfl) nofun
  | start_dead hreader => exact h.set_reader (alive_of_reader hreader rfl) nofun
  | @frame s t f hreader =>
    cases f with
    | crash =>
      exact (h.end_reader (alive_of_reader hreader rfl)).idle_congr rfl rfl rfl rfl rfl rfl
    | _ => exact h.idle_congr rfl rfl rfl rfl rfl rfl
  | @reader_end s t normal code hreader =>
    have hended := h.end_reader (alive_of_reader hreader rfl)
    cases normal <;> exact hended.idle_congr rfl rfl rfl rfl rfl rfl
  | dropped hreader => exact h.set_reader (alive_of_reader hreader rfl) nofun
  | cancelled hreader =>
    exact (h.end_reader (alive_of_reader hreader rfl)).idle_congr rfl rfl rfl rfl rfl rfl
  | cleared => exact h.idle_congr rfl rfl rfl rfl rfl rfl

theorem Kept.shut (h : Kept c b) (hspent : ∀ ph, b = some ph → ph.spent = true) : Kept c.shut b where
  live := h.live
  detached := h.detached
  read := by
    intro s hs
    refine (h.read s hs).imp_left fun ⟨htask, hreader⟩ => ⟨htask, fun habsent => ?_⟩
    exact hreader (cancelled_absent.1 habsent)
  awaited := by
    intro s hs
    rw [alive_shut] at hs
    exact h.awaited s hs
  spent := fun _ => hspent
  keepalive := fun _ => rfl

/-! ### Tasks -/

/-- What there is to say about a task: who holds the lock, and what `_ws` is while it is used. -/
structure Task.Fits (c : Shared) (b : Option Phase) (lock : Option ℕ) (i : ℕ) (t : Task) : Prop where
  locked : t.phase = .locked → t.job = .reconnect
  busy : ∀ p, t.job = .send p → t.phase.busy = true → lock = some i
  writing : ∀ s, t.phase = .writing s → lock = some i ∧ (c.closed = true ∨ c.ws = some s ∧ b = none)
  ending : t.phase.ending = true → c.closed = true
  target : ∀ s u, t.phase.target = some s → c.ws = some u → u = s

/-- Another task has moved. -/
theorem Task.Fits.frame {b' : Option Phase} {lock lock' : Option ℕ} {j : ℕ} {t : Task}
    (h : t.Fits c b lock j) (hlock : lock = some j → lock' = some j)
    (hclosed : c.closed = true → c'.closed = true)
    (hws : c'.ws = c.ws ∨ c'.ws = none ∨ c.closed = false ∧ b ≠ none)
    (hquiet : ∀ s, lock = some j → c.closed = false → c.ws = some s → b = none →
      c'.closed = true ∨ c'.ws = some s ∧ b' = none) : t.Fits c' b' lock' j where
  locked := h.locked
  busy := fun p hp hbusy => hlock (h.busy p hp hbusy)
  writing := by
    intro s hs
    obtain ⟨hheld, hopen⟩ := h.writing s hs
    refine ⟨hlock hheld, ?_⟩
    cases hc : c.closed with
    | true => exact Or.inl (hclosed hc)
    | false =>
      rw [hc] at hopen
      obtain ⟨hin, hb⟩ := hopen.resolve_left nofun
      exact hquiet s hheld hc hin hb
  ending := fun hending => hclosed (h.ending hending)
  target := by
    intro s u hs hu
    rcases hws with heq | hnone | ⟨hopen, hb⟩
    · exact h.target s u hs (heq ▸ hu)
    · rw [hnone] at hu
      cases hu
    · exfalso
      have hclosed' : c.closed = true ∨ b = none := by
        cases hph : t.phase with
        | writing v => exact (h.writing v hph).2.imp_right And.right
        | ending_ws v => exact Or.inl (h.ending (by rw [hph]; rfl))
        | _ =>
          rw [hph] at hs
          cases hs
      rcases hclosed' with hc | hnone
      · rw [hopen] at hc
        cases hc
      · exact hb hnone

/-- A lock that a task holds stays with it when another one moves. -/
theorem after_move_other {i j : ℕ} {wants : Bool} {holder : Option ℕ} (hne : j ≠ i)
    (hwants : wants = true → holder = none) (hj : holder = some j) :
    after_move i wants ph holder = some j := by
  unfold after_move
  split
  · rw [if_neg]
    · exact hj
    · rw [hj]
      exact fun hij => hne (Option.some.inj hij)
  · split
    · next hw =>
      rw [hwants hw] at hj
      cases hj
    · exact hj

/-- A task that goes on with a lock has it, or takes it. -/
theorem after_move_self {i : ℕ} {wants : Bool} {holder : Option ℕ} (hph : ph ≠ .ended)
    (h : wants = true ∨ holder = some i) : after_move i wants ph holder = some i := by
  rw [after_move, if_neg hph]
  rcases h with hwants | hholder
  · rw [if_pos hwants]
  · rw [hholder, ite_self]

theorem after_reader_next (w : Option ℕ) : (after_reader w).busy = true := by
  cases w <;> rfl

theorem retry_next (k : ℕ) : (retry k).busy = true ∨ retry k = .ended := by
  cases k with
  | zero => exact Or.inr rfl
  | succ k => exact Or.inl rfl

theorem after_burial_next (k : ℕ) (w : Option ℕ) :
    (after_burial k w).busy = true ∨ after_burial k w = .ended := by
  cases w with
  | none => exact retry_next k
  | some w => exact Or.inl rfl

/-- A busy call stays so, or ends, or goes on to write. -/
theorem moved_on (hm : Moved c job m ph ph' c') (hph : ph.busy = true) :
    ph'.busy = true ∨ ph' = .ended ∨
      ∃ p s, job = .send p ∧ c.ws = some s ∧ c'.ws = some s ∧ ph' = .writing s := by
  cases hm with
  | healthy =>
    cases job with
    | send p =>
      cases hws : c.ws with
      | none => exact Or.inr (Or.inl rfl)
      | some s => exact Or.inr (Or.inr ⟨p, s, rfl, rfl, hws, rfl⟩)
    | _ => exact Or.inr (Or.inl rfl)
  | reader_closed => exact Or.inl (after_reader_next _)
  | slam_closed => exact (retry_next _).imp_right Or.inl
  | reject => exact (after_burial_next _ _).imp_right Or.inl
  | reader_buried => exact (after_burial_next _ _).imp_right Or.inl
  | ws_buried => exact (retry_next _).imp_right Or.inl
  | refuse_closed => exact Or.inr (Or.inl rfl)
  | stopped => exact Or.inr (Or.inl rfl)
  | _ => first | exact Or.inl rfl | cases hph

/-- A task gets to write on a socket that is in `_ws`. -/
theorem moved_writing (hm : Moved c job m ph ph' c') {s : ℕ} (h : ph' = .writing s) :
    (∃ p, job = .send p) ∧ c.ws = some s ∧ c'.ws = some s ∧ (m = .go ∧ ph = .waiting ∨ ph.busy = true) := by
  cases hph : ph.busy with
  | true =>
    rcases moved_on hm hph with hbusy | hended | ⟨p, u, hjob, hws, hws', hu⟩
    · rw [h] at hbusy
      cases hbusy
    · rw [h] at hended
      cases hended
    · obtain rfl := Phase.writing.inj (hu.symm.trans h)
      exact ⟨⟨p, hjob⟩, hws, hws', Or.inr rfl⟩
  | false =>
    cases hm with
    | @send_open p _ hjob hws =>
      obtain rfl := Phase.writing.inj h
      exact ⟨⟨p, hjob⟩, hws, hws, Or.inl ⟨rfl, rfl⟩⟩
    | tear =>
      have hbusy := after_reader_next c.ws
      rw [h] at hbusy
      cases hbusy
    | reader_ended => cases hw : c.ws <;> rw [hw] at h <;> cases h
    | _ => first | cases h | cases hph

/-- `close()` comes to the socket when its reader has ended. -/
theorem moved_ending (hm : Moved c job m ph ph' c') (h : ph'.ending = true) :
    ph.ending = true ∧ c' = c ∧ ph' = close_ws c.ws := by
  cases hph : ph.busy with
  | true =>
    rcases moved_on hm hph with hbusy | rfl | ⟨p, u, -, -, -, rfl⟩
    · rw [ending_calm h] at hbusy
      cases hbusy
    · cases h
    · cases h
  | false =>
    cases hm with
    | reader_ended => exact ⟨rfl, rfl, rfl⟩
    | tear => cases hw : c.ws <;> rw [hw] at h <;> cases h
    | _ => first | cases h | cases hph

theorem moved_locked (hm : Moved c job m ph ph' c') (h : ph' = .locked) : job = .reconnect := by
  cases hph : ph.busy with
  | true =>
    rcases moved_on hm hph with hbusy | rfl | ⟨p, u, -, -, -, rfl⟩
    · rw [h] at hbusy
      cases hbusy
    · cases h
    · cases h
  | false =>
    cases hm with
    | lock hjob => exact hjob
    | tear => cases hw : c.ws <;> rw [hw] at h <;> cases h
    | reader_ended => cases hw : c.ws <;> rw [hw] at h <;> cases h
    | _ => first | cases h | cases hph

theorem moved_closed (hm : Moved c job m ph ph' c') : c'.closed = c.closed := by
  cases hm <;> rfl

/-- `_ws` is assigned by an attempt. -/
theorem moved_assigns (hm : Moved c job m ph ph' c') :
    c'.ws = c.ws ∨ c'.ws = none ∨ ∃ k, ph = .dialing k := by
  cases hm with
  | connected => exact Or.inr (Or.inr ⟨_, rfl⟩)
  | _ => first | exact Or.inl rfl | exact Or.inr (Or.inl rfl)

/-- Of the calls that are not busy, a send and `close()` clear `_ws`. -/
theorem moved_clears (hm : Moved c job m ph ph' c') (hph : ph.busy = false) (hph' : ph'.busy = false) :
    c'.ws = c.ws ∨ (∃ s, ph = .writing s) ∨ ph.ending = true := by
  cases hm with
  | failed => exact Or.inr (Or.inl ⟨_, rfl⟩)
  | ws_ended => exact Or.inr (Or.inr rfl)
  | tear =>
    rw [after_reader_next] at hph'
    cases hph'
  | _ => first | exact Or.inl rfl | (cases hph; done) | cases hph'

/-- Where a reader is awaited, only its end goes on. -/
theorem moved_awaits (hm : Moved c job m ph ph' c') {r : ℕ}
    (h : ph.awaits = some r ∨ ph = .ending_reader r) : c'.alive r = false := by
  cases hm with
  | reader_closed hdone =>
    obtain rfl := Option.some.inj (h.resolve_right nofun)
    exact hdone
  | reader_buried hdone =>
    obtain rfl := Option.some.inj (h.resolve_right nofun)
    exact hdone
  | reader_ended hdone =>
    obtain rfl := Phase.ending_reader.inj (h.resolve_left nofun)
    exact hdone
  | stopped hstops =>
    cases ph <;> first | exact hstops.elim | (rcases h with h | h <;> cases h)
  | _ => rcases h with h | h <;> cases h

/-- A reader is created by an attempt. -/
theorem moved_alive (hm : Moved c job m ph ph' c') {s : ℕ} (h : c'.alive s = true) :
    c.alive s = true ∨ ∃ k n, ph = .configuring k n := by
  cases hm with
  | configured => exact Or.inr ⟨_, _, rfl⟩
  | tear_wait => exact Or.inl (by rwa [alive_detach] at h)
  | tear => exact Or.inl (by rwa [alive_detach] at h)
  | reject_wait => exact Or.inl (by rwa [alive_judge] at h)
  | @reject k n => exact Or.inl ((alive_judge n s).symm.trans h)
  | _ => exact Or.inl h

/-- The task that moved. -/
theorem Task.Fits.moved {lock : Option ℕ} {i : ℕ} {t : Task} (h : t.Fits c b lock i)
    (hm : Moved c t.job m t.phase ph' c')
    (hidle : ∀ p, t.job = .send p → t.phase = .waiting → m = .go → b = none) :
    Task.Fits c' (busy_after b t.phase ph') (after_move i (t.wants_send m) ph' lock) i ⟨t.job, ph'⟩ where
  locked := moved_locked hm
  busy := by
    intro p hp hbusy
    have hne : ph' ≠ .ended := by
      rintro rfl
      cases hbusy
    refine after_move_self hne ?_
    cases hph : t.phase.busy with
    | true => exact Or.inr (h.busy p hp hph)
    | false =>
      obtain ⟨rfl, ⟨q, hjob, hwaiting, -⟩ | hlocked⟩ := moved_begins hm hph hbusy
      · refine Or.inl ?_
        simp only [Task.wants_send, hjob, hwaiting]
      · rw [h.locked hlocked] at hp
        cases hp
  writing := by
    intro s hs
    obtain rfl : ph' = .writing s := hs
    obtain ⟨⟨p, hjob⟩, -, hws, ⟨rfl, hwaiting⟩ | hbusy⟩ := moved_writing hm rfl
    · refine ⟨after_move_self nofun (Or.inl ?_), Or.inr ⟨hws, ?_⟩⟩
      · simp only [Task.wants_send, hjob, hwaiting]
      · rw [busy_after_calm (by rw [hwaiting]; rfl) rfl]
        exact hidle p hjob hwaiting rfl
    · refine ⟨after_move_self nofun (Or.inr (h.busy p hjob hbusy)), Or.inr ⟨hws, ?_⟩⟩
      rw [busy_after_busy hbusy]
      rfl
  ending := by
    intro hending
    obtain ⟨hwas, rfl, -⟩ := moved_ending hm hending
    exact h.ending hwas
  target := by
    intro s u hs hu
    cases ph' with
    | writing v =>
      obtain rfl : v = s := Option.some.inj hs
      obtain ⟨-, -, hws, -⟩ := moved_writing hm rfl
      exact Option.some.inj (hu.symm.trans hws)
    | ending_ws v =>
      obtain rfl : v = s := Option.some.inj hs
      obtain ⟨-, rfl, hph⟩ := moved_ending hm rfl
      rw [hu] at hph
      exact (Phase.ending_ws.inj hph).symm
    | _ => cases hs

/-- The tasks that did not move. -/
theorem Task.Fits.other {lock : Option ℕ} {i j : ℕ} {t u : Task} (h : u.Fits c b lock j) (hne : j ≠ i)
    (ht : t.Fits c b lock i) (hkept : Kept c b) (ha : Admitted c b t.phase ph')
    (hm : Moved c t.job m t.phase ph' c') (hwants : t.wants_send m = true → lock = none) :
    u.Fits c' (busy_after b t.phase ph') (after_move i (t.wants_send m) ph' lock) j := by
  refine h.frame (after_move_other hne hwants) (fun hc => (moved_closed hm).trans hc) ?_ ?_
  · rcases moved_assigns hm with hsame | hnone | ⟨k, hk⟩
    · exact Or.inl hsame
    · exact Or.inr (Or.inl hnone)
    · have hb := ha.busy (by rw [hk]; rfl)
      rw [hk] at hb
      subst hb
      exact Or.inr (Or.inr ⟨hkept.open_of rfl, nofun⟩)
  · intro s hheld hopen hws hb
    cases hph : t.phase.busy with
    | true =>
      rw [ha.busy hph] at hb
      cases hb
    | false =>
      cases hph' : ph'.busy with
      | true =>
        exfalso
        obtain ⟨rfl, ⟨p, -, -, hrevives⟩ | hlocked⟩ := moved_begins hm hph hph'
        · simp [Shared.revives, hws] at hrevives
        · have hnone := hwants (by simp only [Task.wants_send, hlocked, ht.locked hlocked])
          rw [hheld] at hnone
          cases hnone
      | false =>
        rw [busy_after_calm hph hph']
        rcases moved_clears hm hph hph' with hsame | ⟨v, hv⟩ | hending
        · exact Or.inr ⟨hsame.trans hws, hb⟩
        · have hlock := (ht.writing v hv).1
          rw [hheld] at hlock
          exact absurd (Option.some.inj hlock) hne
        · rw [ht.ending hending] at hopen
          cases hopen

/-- What `close()` leaves is over when `_ws` is cleared. -/
theorem moved_ends (hm : Moved c job m ph ph' c') (h : ph.ending = true) {w : ℕ} (hws : c'.ws = some w) :
    ph'.ending = true := by
  cases hm with
  | reader_ended =>
    rw [hws]
    rfl
  | ws_ended => cases hws
  | stopped hstops =>
    cases ph <;> first | exact hstops.elim | cases h
  | _ => cases h

theorem moved_opened (hm : Moved c job m ph ph' c') :
    c'.opened = c.opened ∨ ∃ k, ph = .dialing k := by
  cases hm with
  | connected => exact Or.inr ⟨_, rfl⟩
  | _ => exact Or.inl rfl

theorem stops_move (h : ph.stops m) : m = .cancel ∨ m = .fail := by
  cases ph <;> first | exact h.elim | exact Or.inl h | exact h

theorem happened_shared {a : Label} (hh : Happened c a c') :
    c'.ws = c.ws ∧ c'.closed = c.closed ∧ c'.opened = c.opened ∧
      ∀ s, c'.alive s = true → c.alive s = true := by
  have hset : ∀ {s : ℕ} {r : Reader}, c.alive s = true →
      ∀ t, (c.set_reader s r).alive t = true → c.alive t = true := by
    intro s r hs t ht
    by_cases hts : t = s
    · rwa [hts]
    · rwa [alive_set_reader, if_neg hts] at ht
  cases hh with
  | die => exact ⟨rfl, rfl, rfl, fun _ hs => hs⟩
  | start hreader => exact ⟨rfl, rfl, rfl, hset (alive_of_reader hreader rfl)⟩
  | start_dead hreader => exact ⟨rfl, rfl, rfl, hset (alive_of_reader hreader rfl)⟩
  | @frame s t f hreader =>
    cases f with
    | crash => exact ⟨rfl, rfl, rfl, hset (r := .done) (alive_of_reader hreader rfl)⟩
    | _ => exact ⟨rfl, rfl, rfl, fun _ hs => hs⟩
  | @reader_end s t normal code hreader =>
    have hended := hset (r := .done) (alive_of_reader hreader rfl)
    cases normal <;> exact ⟨rfl, rfl, rfl, hended⟩
  | dropped hreader => exact ⟨rfl, rfl, rfl, hset (alive_of_reader hreader rfl)⟩
  | cancelled hreader => exact ⟨rfl, rfl, rfl, hset (r := .done) (alive_of_reader hreader rfl)⟩
  | cleared => exact ⟨rfl, rfl, rfl, fun _ hs => hs⟩

end

/-! ### The client -/

/-- What is open belongs to someone, each task fits, and `close()` is not over before the socket and
    the reader are. -/
structure Settled (c : Client) (b : Option Phase) : Prop where
  kept : Kept c.shared b
  fits : ∀ (i : ℕ) t, c.tasks[i]? = some t → t.Fits c.shared b c.send_lock i
  ends : c.shared.closed = true → c.shared.ws = none ∨
    ∃ (i : ℕ) (t : Task), c.tasks[i]? = some t ∧ t.phase.ending = true
  awaited : c.shared.closed = true → ∀ s, c.shared.alive s = true →
    (∃ (i : ℕ) (t : Task), c.tasks[i]? = some t ∧ t.phase = .ending_reader s) ∨
      ∃ ph, b = some ph ∧ ph.awaits = some s

section
variable {c c' : Client} {b : Option Phase}

theorem tidy_cut {i : ℕ} {m : Move} {t : Task} (ht : c.tasks[i]? = some t)
    (htidy : tidy c (.task i m) = true) (hstops : t.phase.stops m) :
    t.phase.cut_safe c.shared = true := by
  rcases stops_move hstops with rfl | rfl <;> simpa [tidy, ht] using htidy

theorem Settled.moved (h : Settled c b) (hcore : Core c.shared b) {i : ℕ} {m : Move} {t : Task}
    {ph : Phase} (ht : c.tasks[i]? = some t) (hm : Moved c.shared t.job m t.phase ph c'.shared)
    (ha : Admitted c.shared b t.phase ph) (hidle : Busy c.tasks b) (htidy : tidy c (.task i m) = true)
    (htasks : c'.tasks = c.tasks.set i ⟨t.job, ph⟩) (hlock : t.wants_send m = true → c.send_lock = none)
    (hlock' : c'.send_lock = after_move i (t.wants_send m) ph c.send_lock) :
    Settled c' (busy_after b t.phase ph) where
  kept := by
    refine h.kept.moved hcore ha hm (fun hlocked hgo => ?_) (tidy_cut ht htidy) (h.fits i t ht).target
    have hjob := (h.fits i t ht).locked hlocked
    obtain ⟨job, phase⟩ := t
    cases hlocked
    cases hjob
    subst hgo
    simpa [tidy, ht] using htidy
  fits := by
    intro j u hu
    rw [htasks] at hu
    rw [hlock']
    rcases (get_set_iff ht).1 hu with ⟨rfl, rfl⟩ | ⟨hne, hu⟩
    · refine (h.fits _ t ht).moved hm fun p hjob hwaiting hgo => ?_
      obtain ⟨job, phase⟩ := t
      cases hjob
      cases hwaiting
      subst hgo
      simp only [tidy, ht] at htidy
      exact hidle.eq_none (idle_iff.1 htidy)
    · exact (h.fits j u hu).other (Ne.symm hne) (h.fits i t ht) h.kept ha hm hlock
  ends := by
    intro hclosed
    rw [moved_closed hm] at hclosed
    cases hws : c'.shared.ws with
    | none => exact Or.inl rfl
    | some w =>
      have hsame : c'.shared.ws = c.shared.ws := by
        rcases moved_assigns hm with hsame | hnone | ⟨k, hk⟩
        · exact hsame
        · rw [hws] at hnone
          cases hnone
        · have hb := ha.busy (by rw [hk]; rfl)
          rw [hk] at hb
          subst hb
          exact not_closed (h.kept.open_of rfl) hclosed
      rcases h.ends hclosed with hnone | ⟨j, u, hu, hending⟩
      · rw [← hsame, hws] at hnone
        cases hnone
      · rw [htasks]
        by_cases hij : i = j
        · subst hij
          obtain rfl := Option.some.inj (hu.symm.trans ht)
          exact Or.inr ⟨i, _, (get_set_iff ht).2 (Or.inl ⟨rfl, rfl⟩), moved_ends hm hending hws⟩
        · exact Or.inr ⟨j, u, (get_set_iff ht).2 (Or.inr ⟨hij, hu⟩), hending⟩
  awaited := by
    intro hclosed s hs
    rw [moved_closed hm] at hclosed
    have hold : c.shared.alive s = true := by
      rcases moved_alive hm hs with hold | ⟨k, n, hk⟩
      · exact hold
      · have hb := ha.busy (by rw [hk]; rfl)
        rw [hk] at hb
        subst hb
        exact not_closed (h.kept.open_of rfl) hclosed
    rcases h.awaited hclosed s hold with ⟨j, u, hu, hph⟩ | ⟨p, hb, hp⟩
    · rw [htasks]
      by_cases hij : i = j
      · subst hij
        obtain rfl := Option.some.inj (hu.symm.trans ht)
        rw [moved_awaits hm (Or.inr hph)] at hs
        cases hs
      · exact Or.inl ⟨j, u, (get_set_iff ht).2 (Or.inr ⟨hij, hu⟩), hph⟩
    · refine Or.inr ⟨p, ?_, hp⟩
      cases hph : t.phase.busy with
      | true =>
        obtain rfl := Option.some.inj ((ha.busy hph).symm.trans hb)
        rw [moved_awaits hm (Or.inl hp)] at hs
        cases hs
      | false =>
        cases hph' : ph.busy with
        | true =>
          rw [ha.idle hph hph'] at hb
          cases hb
        | false => rwa [busy_after_calm hph hph']

/-- A call begins. -/
theorem Settled.called (h : Settled c b) {shared : Shared} {b' : Option Phase} {t : Task}
    (hkept : Kept shared b') (hclosed : c.shared.closed = true → shared.closed = true)
    (hws : shared.ws = c.shared.ws)
    (hquiet : ∀ s, c.shared.closed = false → c.shared.ws = some s → b = none →
      shared.closed = true ∨ b' = none)
    (hfits : ∀ i, t.Fits shared b' c.send_lock i)
    (hends : shared.closed = true → c.shared.closed = true ∨ shared.ws = none ∨ t.phase.ending = true)
    (hawaited : shared.closed = true → ∀ s, shared.alive s = true →
      (c.shared.closed = true ∧ c.shared.alive s = true ∧ b' = b) ∨ t.phase = .ending_reader s ∨
        ∃ ph, b' = some ph ∧ ph.awaits = some s) :
    Settled { c with shared := shared, tasks := c.tasks ++ [t] } b' where
  kept := hkept
  fits := by
    intro i u hu
    rcases get_concat_iff.1 hu with hu | ⟨-, rfl⟩
    · refine (h.fits i u hu).frame (fun hi => hi) hclosed (Or.inl hws) fun s _ hopen hin hb => ?_
      exact (hquiet s hopen hin hb).imp_right fun hb' => ⟨hws.trans hin, hb'⟩
    · exact hfits i
  ends := by
    intro hshut
    rcases hends hshut with hold | hnone | hending
    · rcases h.ends hold with hnone | ⟨i, u, hu, hending⟩
      · exact Or.inl (hws.trans hnone)
      · exact Or.inr ⟨i, u, get_concat_iff.2 (Or.inl hu), hending⟩
    · exact Or.inl hnone
    · exact Or.inr ⟨_, t, get_concat_iff.2 (Or.inr ⟨rfl, rfl⟩), hending⟩
  awaited := by
    intro hshut s hs
    rcases hawaited hshut s hs with ⟨hold, hin, rfl⟩ | hph | hb
    · rcases h.awaited hold s hin with ⟨i, u, hu, hph⟩ | hb
      · exact Or.inl ⟨i, u, get_concat_iff.2 (Or.inl hu), hph⟩
      · exact Or.inr hb
    · exact Or.inl ⟨_, t, get_concat_iff.2 (Or.inr ⟨rfl, rfl⟩), hph⟩
    · exact Or.inr hb

/-- A call that only waits. -/
theorem Settled.waits (h : Settled c b) {shared : Shared} {t : Task} (hkept : Kept shared b)
    (hclosed : shared.closed = c.shared.closed) (hws : shared.ws = c.shared.ws)
    (halive : shared.alive = c.shared.alive)
    (hph : t.phase = .waiting ∨ t.phase = .handling ∨ t.phase = .ended) :
    Settled { c with shared := shared, tasks := c.tasks ++ [t] } b := by
  refine h.called hkept (fun hc => hclosed.trans hc) hws (fun s _ _ hb => Or.inr hb) (fun i => ?_)
    (fun hc => Or.inl (hclosed.symm.trans hc))
    (fun hc s hs => Or.inl ⟨hclosed.symm.trans hc, halive ▸ hs, rfl⟩)
  obtain ⟨job, phase⟩ := t
  rcases hph with rfl | rfl | rfl <;> exact ⟨nofun, nofun, nofun, nofun, nofun⟩

/-- Something that no task does. -/
theorem Settled.passed (h : Settled c b) {shared : Shared} (hkept : Kept shared b)
    (hclosed : shared.closed = c.shared.closed) (hws : shared.ws = c.shared.ws)
    (halive : ∀ s, shared.alive s = true → c.shared.alive s = true) :
    Settled (c.with_shared shared) b where
  kept := hkept
  fits := fun i t ht => (h.fits i t ht).frame (fun hi => hi) (fun hc => hclosed.trans hc) (Or.inl hws)
    fun _ _ _ hin hb => Or.inr ⟨hws.trans hin, hb⟩
  ends := fun hc => (h.ends (hclosed.symm.trans hc)).imp_left fun hnone => hws.trans hnone
  awaited := fun hc s hs => h.awaited (hclosed.symm.trans hc) s (halive s hs)

/-- `close()` waits for the reader of `_reader_task`, or goes on to the socket in `_ws`. -/
theorem close_start (c : Shared) : (Job.close.start c).2 = c.shut ∧
    ((∃ r, c.reader_task = some r ∧ (Job.close.start c).1 = .ending_reader r) ∨
      (∀ r, c.reader_task = some r → c.alive r = false) ∧ (Job.close.start c).1 = close_ws c.ws) := by
  refine ⟨rfl, ?_⟩
  simp only [Job.start]
  cases htask : c.reader_task with
  | none => exact Or.inr ⟨by simp, rfl⟩
  | some r =>
    cases halive : c.alive r with
    | true => exact Or.inl ⟨r, rfl, if_pos halive⟩
    | false =>
      refine Or.inr ⟨fun r' hr' => ?_, if_neg (Bool.eq_false_iff.1 halive)⟩
      obtain rfl := Option.some.inj hr'
      exact halive

/-- `close()` begins. -/
theorem Settled.shut (h : Settled c b) (hspent : ∀ ph, b = some ph → ph.spent = true) :
    Settled { c with
      shared := c.shared.shut, tasks := c.tasks ++ [⟨.close, (Job.close.start c.shared).1⟩] } b := by
  obtain ⟨-, ⟨r, htask, hph⟩ | ⟨hdone, hph⟩⟩ := close_start c.shared
  · rw [hph]
    refine h.called (h.kept.shut hspent) (fun _ => rfl) rfl (fun _ _ _ _ => Or.inl rfl)
      (fun i => ⟨nofun, nofun, nofun, fun _ => rfl, nofun⟩) (fun _ => Or.inr (Or.inr rfl))
      fun _ s hs => Or.inr ?_
    rw [alive_shut] at hs
    refine (h.kept.awaited s hs).imp_left fun hs => ?_
    obtain rfl : r = s := Option.some.inj (htask.symm.trans hs)
    rfl
  · rw [hph]
    refine h.called (h.kept.shut hspent) (fun _ => rfl) rfl (fun _ _ _ _ => Or.inl rfl) (fun i => ?_)
      (fun _ => Or.inr ?_) fun _ s hs => Or.inr (Or.inr ?_)
    · cases hws : c.shared.ws with
      | none => exact ⟨nofun, nofun, nofun, nofun, nofun⟩
      | some w =>
        refine ⟨nofun, nofun, nofun, fun _ => rfl, fun s u hs hu => ?_⟩
        obtain rfl : w = s := Option.some.inj hs
        exact Option.some.inj (hu.symm.trans hws)
    · cases hws : c.shared.ws with
      | none => exact Or.inl hws
      | some w => exact Or.inr rfl
    · rw [alive_shut] at hs
      refine (h.kept.awaited s hs).resolve_left fun hin => ?_
      rw [hdone s hin] at hs
      cases hs

/-- `connect()` begins an attempt. -/
theorem Settled.dial (h : Settled c none) (hws : c.shared.ws = none)
    (hnone : ∀ s, c.shared.alive s = false) (hopen : c.shared.closed = false) :
    Settled { c with
      shared := c.shared.begin_attempt, tasks := c.tasks ++ [⟨.connect, .dialing backoffs⟩] }
      (some (.dialing backoffs)) := by
  refine h.called (h.kept.begin_attempt hws nofun hnone hopen backoffs) (not_closed hopen) rfl
    (fun s _ hin => ?_) (fun i => ⟨nofun, nofun, nofun, nofun, nofun⟩) (not_closed hopen)
    (not_closed hopen)
  rw [hws] at hin
  cases hin

/-! ### Runs -/

/-- The steps under which nothing is left behind. -/
def careful (c : Client) (a : Label) : Bool := orderly c a && tidy c a

/-- One call at most is busy, and what is open belongs to someone. -/
def Quiet (c : Client) : Prop := ∃ b, Busy c.tasks b ∧ Core c.shared b ∧ Settled c b

theorem quiet_init (v2 : Bool) : Quiet (Client.init v2) := by
  refine ⟨none, nofun, ⟨nofun, nofun, nofun, fun _ _ => rfl, nofun, nofun, nofun, nofun, nofun, nofun⟩,
    ⟨nofun, nofun, nofun, nofun, nofun, nofun⟩, nofun, nofun, nofun⟩

theorem spent_of {c : Client} {b : Option Phase} (hb : Busy c.tasks b) (htidy : tidy c (.call .close) = true)
    (ph : Phase) (hph : b = some ph) : ph.spent = true := by
  subst hph
  obtain ⟨hbusy, i, ⟨job, hi⟩, -⟩ := hb
  simp only [tidy, List.all_eq_true] at htidy
  have hspent := htidy _ (List.mem_of_getElem? hi)
  simpa [hbusy] using hspent

theorem quiet_step {c c' : Client} {a : Label} (h : Quiet c) (ha : careful c a = true)
    (hstep : step c a c') : Quiet c' := by
  obtain ⟨b, hb, hcore, hs⟩ := h
  rw [careful, Bool.and_eq_true] at ha
  obtain ⟨horder, htidy⟩ := ha
  cases step_cases hstep with
  | @task i m t ph _ ht hm htasks hlock hlock' =>
    have hadmitted := admitted_of hb hcore horder ht hm
    refine ⟨busy_after b t.phase ph, ?_, hcore.moved hadmitted hm,
      hs.moved hcore ht hm hadmitted hb htidy htasks hlock hlock'⟩
    rw [htasks]
    exact hb.set_after ht hadmitted
  | @call job =>
    cases job with
    | send p => exact ⟨b, hb.concat_calm rfl, hcore, hs.waits hs.kept rfl rfl rfl (Or.inl rfl)⟩
    | reconnect =>
      have hph : (Job.reconnect.start c.shared).1 = .waiting ∨
          (Job.reconnect.start c.shared).1 = .ended := by
        simp only [Job.start]
        split
        · exact Or.inr rfl
        · exact Or.inl rfl
      refine ⟨b, hb.concat_calm ?_, hcore, hs.waits hs.kept rfl rfl rfl (hph.imp_right Or.inr)⟩
      rcases hph with hph | hph <;> rw [hph] <;> rfl
    | connect =>
      simp only [Job.start]
      split
      · exact ⟨b, hb.concat_calm rfl, hcore, hs.waits hs.kept rfl rfl rfl (Or.inr (Or.inr rfl))⟩
      · next hws =>
        simp only [orderly, hws, Bool.false_or, Bool.and_eq_true] at horder
        simp only [tidy, hws, Bool.false_or, Bool.not_eq_true'] at htidy
        have hidle := hb.eq_none (idle_iff.1 horder.1)
        subst hidle
        have hnone := none_alive_of hcore horder.2
        exact ⟨_, hb.concat_idle, hcore.begin_attempt backoffs hnone,
          hs.dial (by simpa using hws) hnone htidy⟩
    | close =>
      refine ⟨b, hb.concat_calm ?_, hcore.shut, hs.shut (spent_of hb htidy)⟩
      obtain ⟨-, ⟨r, -, hph⟩ | ⟨-, hph⟩⟩ := close_start c.shared
      · rw [hph]
        rfl
      · rw [hph]
        exact close_ws_calm _
  | happened hh =>
    obtain ⟨hws, hclosed, -, halive⟩ := happened_shared hh
    exact ⟨b, hb, hcore.happened hh, hs.passed (hs.kept.happened hh) hclosed hws halive⟩
  | take =>
    exact ⟨b, hb, hcore.congr (Or.inl rfl) rfl rfl (Or.inl rfl) (Or.inl rfl),
      hs.passed (hs.kept.idle_congr rfl rfl rfl rfl rfl rfl) rfl rfl fun _ hs => hs⟩
  | take_call =>
    exact ⟨b, hb.concat_calm rfl, hcore.congr (Or.inl rfl) rfl rfl (Or.inl rfl) (Or.inl rfl),
      hs.waits (hs.kept.idle_congr rfl rfl rfl rfl rfl rfl) rfl rfl rfl (Or.inr (Or.inl rfl))⟩

/-- No socket is opened once the client is closed. -/
theorem opened_step {a : Label} (h : Quiet c) (hclosed : c.shared.closed = true)
    (ha : careful c a = true) (hstep : step c a c') :
    c'.shared.closed = true ∧ c'.shared.opened = c.shared.opened := by
  obtain ⟨b, hb, hcore, hs⟩ := h
  rw [careful, Bool.and_eq_true] at ha
  obtain ⟨horder, -⟩ := ha
  cases step_cases hstep with
  | task ht hm =>
    refine ⟨(moved_closed hm).trans hclosed, ?_⟩
    rcases moved_opened hm with hsame | ⟨k, hk⟩
    · exact hsame
    · have hdialing := (admitted_of hb hcore horder ht hm).busy (by rw [hk]; rfl)
      rw [hk] at hdialing
      subst hdialing
      exact not_closed (hs.kept.open_of rfl) hclosed
  | @call job =>
    cases job with
    | connect =>
      simp only [Job.start]
      split <;> exact ⟨hclosed, rfl⟩
    | close => exact ⟨rfl, rfl⟩
    | _ => exact ⟨hclosed, rfl⟩
  | happened hh =>
    obtain ⟨-, hclosed', hopened, -⟩ := happened_shared hh
    exact ⟨hclosed'.trans hclosed, hopened⟩
  | take => exact ⟨hclosed, rfl⟩
  | take_call => exact ⟨hclosed, rfl⟩

end

/-- A call of `close()` is not over. -/
def Client.closing (c : Client) : Bool := c.tasks.any fun t => t.phase.ending

/-- While no call is busy, what is in `_ws` has its reader, and every other socket is closed. -/
def Client.consistent (c : Client) : Prop :=
  (∀ s, c.shared.ws = some s → c.shared.reader_task = some s ∧ c.shared.reader s ≠ .absent) ∧
    ∀ s, c.shared.live s = true → c.shared.ws = some s

/-- No socket is open, no reader is left, and nothing keeps the session alive. -/
def Client.dark (c : Client) : Prop :=
  (∀ s, c.shared.live s = false) ∧ (∀ s, c.shared.alive s = false) ∧ c.shared.keepalive = false

theorem Settled.dark {c : Client} (h : Settled c none) (hclosed : c.shared.closed = true)
    (hdone : c.closing = false) : c.dark := by
  have hnone : ∀ (i : ℕ) t, c.tasks[i]? = some t → t.phase.ending = false := fun i t ht =>
    Bool.eq_false_iff.2 (List.any_eq_false.1 hdone t (List.mem_of_getElem? ht))
  refine ⟨fun s => ?_, fun s => ?_, h.kept.keepalive hclosed⟩
  · by_contra hs
    rw [Bool.not_eq_false] at hs
    have hws := h.kept.live_idle hs
    rcases h.ends hclosed with hcleared | ⟨i, t, ht, hending⟩
    · rw [hws] at hcleared
      cases hcleared
    · rw [hnone i t ht] at hending
      cases hending
  · by_contra hs
    rw [Bool.not_eq_false] at hs
    rcases h.awaited hclosed s hs with ⟨i, t, ht, hph⟩ | ⟨ph, hb, -⟩
    · have hending := hnone i t ht
      rw [hph] at hending
      cases hending
    · cases hb

/-- In a careful run: when no call is busy, the client is consistent; once it is closed and no call is
    left, it is dark; and from then on no socket is opened. -/
theorem nothing_left_behind {v2 : Bool} {as : List Label} {c : Client}
    (h : Run (restrict (fun c a => careful c a = true) step) (Client.init v2) as c) :
    (c.idle = true → c.consistent) ∧
    (c.shared.closed = true → c.idle = true → c.closing = false → c.dark) ∧
    (c.shared.closed = true → ∀ as' c', Run (restrict (fun c a => careful c a = true) step) c as' c' →
      c'.shared.opened = c.shared.opened) := by
  have hquiet : Quiet c :=
    Run.invariant (I := Quiet) (fun hq hst => quiet_step hq hst.1 hst.2) (quiet_init v2) h
  refine ⟨fun hidle => ?_, fun hclosed hidle hdone => ?_, fun hclosed as' c' hrun => ?_⟩
  · obtain ⟨b, hb, -, hs⟩ := hquiet
    have hnone := hb.eq_none (idle_iff.1 hidle)
    subst hnone
    exact ⟨fun s hws => hs.kept.read_idle hws, fun s hlive => hs.kept.live_idle hlive⟩
  · obtain ⟨b, hb, -, hs⟩ := hquiet
    have hnone := hb.eq_none (idle_iff.1 hidle)
    subst hnone
    exact hs.dark hclosed hdone
  · have hkept : Quiet c' ∧ c'.shared.closed = true ∧ c'.shared.opened = c.shared.opened := by
      refine Run.invariant
        (I := fun d => Quiet d ∧ d.shared.closed = true ∧ d.shared.opened = c.shared.opened)
        (fun ⟨hq, hc, ho⟩ hst => ?_) ⟨hquiet, hclosed, rfl⟩ hrun
      obtain ⟨hc', ho'⟩ := opened_step hq hc hst.1 hst.2
      exact ⟨quiet_step hq hst.1 hst.2, hc', ho'.trans ho⟩
    exact hkept.2.2

/-! ### A client that is closed in the middle of an opening -/

/-- A session, and then `close()`. -/
def opened_closed : List Label :=
  [.call .connect, .task 0 .connected, .task 0 (.configured none), .reader_start 0, .task 0 .healthy,
    .call .close, .reader_cancel 0, .task 1 .go, .task 1 .go]

theorem nothing_left_behind_closed : ∃ c, Run (restrict (fun c a => careful c a = true) step)
      (Client.init false) opened_closed c ∧ c.dark ∧ c.consistent ∧
    ∀ as' c', Run (restrict (fun c a => careful c a = true) step) c as' c' →
      c'.shared.opened = c.shared.opened := by
  obtain ⟨c, hrun, hend⟩ := Run.of_replay_any
    (fun c a => if careful c a = true then Client.step c a else none) (Client.init false) opened_closed
    (fun c => c.shared.closed && c.idle && !c.closing) (by decide +kernel)
  have hrestricted := Run.restrict_mono hrun
  simp only [Bool.and_eq_true, Bool.not_eq_true'] at hend
  obtain ⟨⟨hclosed, hidle⟩, hdone⟩ := hend
  obtain ⟨hconsistent, hdark, hopened⟩ := nothing_left_behind hrestricted
  exact ⟨c, hrestricted, hdark hclosed hidle hdone, hconsistent hidle, hopened hclosed⟩

/-- `close()` takes no lock: an attempt that waits for its socket goes on, and is accepted. And an
    attempt that is cancelled while it sends its configuration leaves a socket that nobody reads. -/
theorem closed_too_early :
    (¬ ∀ as c, Run step (Client.init false) as c → c.shared.closed = true → c.idle = true →
      c.closing = false → c.dark) ∧
    ¬ ∀ as c, Run step (Client.init false) as c → c.idle = true → c.consistent := by
  refine ⟨fun hall => ?_, fun hall => ?_⟩
  · obtain ⟨c, hrun, hend⟩ := Run.of_replay_any Client.step (Client.init false)
      [.call .connect, .call .close, .task 0 .connected, .task 0 (.configured none), .reader_start 0,
        .task 0 .healthy]
      (fun c => c.shared.closed && c.idle && !c.closing && c.shared.live 0) (by decide +kernel)
    simp only [Bool.and_eq_true, Bool.not_eq_true'] at hend
    obtain ⟨⟨⟨hclosed, hidle⟩, hdone⟩, hlive⟩ := hend
    have hdark := hall _ c hrun hclosed hidle hdone
    rw [hdark.1 0] at hlive
    cases hlive
  · obtain ⟨c, hrun, hend⟩ := Run.of_replay_any Client.step (Client.init false)
      [.call .connect, .task 0 .connected, .task 0 .cancel]
      (fun c => c.idle && decide (c.shared.ws = some 0 ∧ c.shared.reader_task = none)) (by decide +kernel)
    simp only [Bool.and_eq_true, decide_eq_true_eq] at hend
    obtain ⟨hidle, hws, htask⟩ := hend
    have hread := (hall _ c hrun hidle).1 0 hws
    rw [htask] at hread
    cases hread.1

end LocalVoice.SlvClient
