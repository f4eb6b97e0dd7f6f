import LocalVoice.SlvClient.Openings

/-! What readers do to the session. One event, one rate and one close code serve all sockets. In an
    orderly run the only reader that is left is the one of the last socket, so what it does is about
    the session that was accepted on it, and an attempt is rejected when its own socket closed. -/

namespace LocalVoice.SlvClient
open LocalVoice.Lib

/-! ### Audio -/

/-- The audio events of a socket. -/
def audio_of (s : ℕ) (l : List (ℕ × Event)) : List (List UInt8 × ℕ) :=
  l.filterMap fun e => match e with
    | (t, .audio pcm rate) => if t = s then some (pcm, rate) else none
    | _ => none

/-- The rate of a socket: its handshake gave it, or its first binary frame says it. -/
def announced (rate : Option ℕ) (frames : List (List UInt8)) : Option ℕ :=
  match rate with
  | some r => some r
  | none => frames.head?.map Shared.unpack

/-- The audio in the frames of a socket: without a rate from the handshake, the first one has a header
    of four bytes. -/
def heard (rate : Option ℕ) (frames : List (List UInt8)) : List (List UInt8 × ℕ) :=
  match rate, frames with
  | some r, frames => frames.map fun f => (f, r)
  | none, [] => []
  | none, f :: rest =>
    (if f.drop 4 = [] then [] else [(f.drop 4, Shared.unpack f)]) ++
      rest.map fun f' => (f', Shared.unpack f)

section
variable {s t : ℕ} {rate : Option ℕ} {frames : List (List UInt8)} {data : List UInt8}

theorem audio_of_append (l m : List (ℕ × Event)) : audio_of s (l ++ m) = audio_of s l ++ audio_of s m :=
  List.filterMap_append

theorem audio_of_other (h : t ≠ s) (l : List Event) : audio_of s (l.map fun e => (t, e)) = [] := by
  induction l with
  | nil => rfl
  | cons e rest ih =>
    cases e <;> simp_all [audio_of]

theorem decode_announced (h : (announced rate frames).isSome = true ∨ 4 ≤ data.length) :
    (Shared.decode (announced rate frames) data).1 = announced rate (frames ++ [data]) := by
  cases rate with
  | some r => rfl
  | none =>
    cases frames with
    | cons f rest => rfl
    | nil =>
      have hlong : 4 ≤ data.length := by
        rcases h with h | h
        · cases h
        · exact h
      simp [announced, Shared.decode, Nat.not_lt.2 hlong]

theorem decode_heard (h : (announced rate frames).isSome = true ∨ 4 ≤ data.length) :
    heard rate frames ++
      audio_of s ((Shared.decode (announced rate frames) data).2.map fun e => (s, e)) =
      heard rate (frames ++ [data]) := by
  cases rate with
  | some r => simp [announced, Shared.decode, heard, audio_of]
  | none =>
    cases frames with
    | cons f rest => simp [announced, Shared.decode, heard, audio_of]
    | nil =>
      have hlong : 4 ≤ data.length := by
        rcases h with h | h
        · cases h
        · exact h
      by_cases hempty : data.drop 4 = []
      · simp [announced, Shared.decode, heard, audio_of, Nat.not_lt.2 hlong, hempty]
      · simp [announced, Shared.decode, heard, audio_of, Nat.not_lt.2 hlong, hempty]

end

/-! ### What is sound about a session -/

/-- The phases before the reader is created. -/
def Phase.fresh : Phase → Bool
  | .dialing _ | .configuring .. => true
  | _ => false

/-- What the readers did is attributed to the session of their own socket; a rejected socket is closed;
    and the audio of a socket is what its frames say. -/
structure Sound (c : Shared) (b : Option Phase) : Prop where
  fresh : ∀ ph, b = some ph → ph.fresh = true → c.reader_done = false ∧ c.tts_sample_rate = none
  woken : ∀ k n since, b = some (.grace k n since) → c.woken since = true → c.live n = false
  uncut : ∀ k n since, b = some (.grace k n since) → ∀ t, c.reader n ≠ .cancelled t
  attributed : ∀ e ∈ c.effects, ∀ g, e.session = some g → e.reader = g
  rejected : ∀ n ∈ c.rejected, n < c.opened ∧ c.live n = false
  rate : ∀ s, c.alive s = true → c.tts_sample_rate = announced (c.rate s) (c.frames s)
  silent : ∀ s, c.reader s = .absent ∨ c.reader s = .created → c.frames s = []
  audio : ∀ s, audio_of s c.emitted = heard (c.rate s) (c.frames s)

/-- The frames a server may send: none that the reader fails on while an attempt is judged, and a
    first binary frame that has a header. -/
def well_fed (c : Client) : Label → Bool
  | .frame _ .crash => c.tasks.all fun t => match t.phase with
    | .grace .. => false
    | _ => true
  | .frame _ (.binary data) => c.shared.tts_sample_rate.isSome || 4 ≤ data.length
  | _ => true

section
variable {c c' : Shared} {b : Option Phase} {job : Job} {m : Move} {ph ph' : Phase}

theorem Sound.rest (h : Sound c b) : Sound c none :=
  { h with
    fresh := nofun
    woken := nofun
    uncut := nofun }

/-- A step that no reader, frame or effect is touched by, and after which no call is busy, or one in a
    phase that nothing is said about. -/
theorem Sound.congr (h : Sound c b) {b' : Option Phase}
    (hphase : ∀ ph, b' = some ph → ph.fresh = false ∧ ∀ k n since, ph ≠ .grace k n since)
    (hlive : ∀ s, s < c.opened → c.live s = false → c'.live s = false) (hopened : c'.opened = c.opened)
    (hreader : c'.reader = c.reader ∨ c'.reader = c.cancelled_readers)
    (heffects : c'.effects = c.effects)
    (hrejected : c'.rejected = c.rejected ∨ ∃ n, c'.rejected = c.rejected ++ [n] ∧ n < c.opened ∧
      c.live n = false)
    (hrate : c'.tts_sample_rate = c.tts_sample_rate ∨ ∀ s, c.alive s = false)
    (hrates : c'.rate = c.rate) (hframes : c'.frames = c.frames) (hemitted : c'.emitted = c.emitted) :
    Sound c' b' where
  fresh := by
    intro ph hb hfresh
    rw [(hphase ph hb).1] at hfresh
    cases hfresh
  woken := by
    intro k n since hb
    exact absurd rfl ((hphase _ hb).2 k n since)
  uncut := by
    intro k n since hb
    exact absurd rfl ((hphase _ hb).2 k n since)
  attributed := by
    rw [heffects]
    exact h.attributed
  rejected := by
    rw [hopened]
    have hold : ∀ n ∈ c.rejected, n < c.opened ∧ c'.live n = false := fun n hn =>
      ⟨(h.rejected n hn).1, hlive n (h.rejected n hn).1 (h.rejected n hn).2⟩
    rcases hrejected with heq | ⟨n, heq, hn, hclosed⟩
    · rw [heq]
      exact hold
    · rw [heq]
      intro m hm
      rcases List.mem_append.1 hm with hm | hm
      · exact hold m hm
      · obtain rfl := List.mem_singleton.1 hm
        exact ⟨hn, hlive _ hn hclosed⟩
  rate := by
    intro s hs
    have halive : c.alive s = true := by
      rcases hreader with hr | hr
      · rwa [Shared.alive, hr] at hs
      · rwa [Shared.alive, hr, alive_cancelled] at hs
    rw [hrates, hframes]
    rcases hrate with hrate | hnone
    · rw [hrate]
      exact h.rate s halive
    · rw [hnone s] at halive
      cases halive
  silent := by
    intro s hs
    rw [hframes]
    refine h.silent s ?_
    rcases hreader with hr | hr
    · rwa [hr] at hs
    · rw [hr] at hs
      rcases cancelled_readers_eq (c := c) s with heq | ⟨-, heq⟩
      · rwa [heq] at hs
      · rw [heq] at hs
        cases hreader : c.reader s <;> simp_all [Reader.cancel]
  audio := by
    rw [hrates, hframes, hemitted]
    exact h.audio

/-- A step that leaves the busy call where it is, and closes sockets at most. -/
theorem Sound.keep (h : Sound c b) (hdone : c'.reader_done = c.reader_done ∨ c'.reader_done = false)
    (hsets : c'.sets = c.sets) (htts : c'.tts_sample_rate = c.tts_sample_rate)
    (hlive : ∀ s, c.live s = false → c'.live s = false) (hopened : c'.opened = c.opened)
    (hreader : c'.reader = c.reader) (heffects : c'.effects = c.effects)
    (hrejected : c'.rejected = c.rejected) (hrates : c'.rate = c.rate) (hframes : c'.frames = c.frames)
    (hemitted : c'.emitted = c.emitted) : Sound c' b where
  fresh := by
    intro ph hb hfresh
    obtain ⟨hfalse, hnone⟩ := h.fresh ph hb hfresh
    refine ⟨?_, htts.trans hnone⟩
    rcases hdone with hdone | hdone
    · exact hdone.trans hfalse
    · exact hdone
  woken := by
    intro k n since hb hwoken
    rw [Shared.woken, hsets] at hwoken
    exact hlive n (h.woken k n since hb hwoken)
  uncut := by
    rw [hreader]
    exact h.uncut
  attributed := by
    rw [heffects]
    exact h.attributed
  rejected := by
    rw [hrejected, hopened]
    exact fun n hn => ⟨(h.rejected n hn).1, hlive n (h.rejected n hn).2⟩
  rate := by
    intro s hs
    rw [htts, hrates, hframes]
    rw [Shared.alive, hreader] at hs
    exact h.rate s hs
  silent := by
    rw [hreader, hframes]
    exact h.silent
  audio := by
    rw [hrates, hframes, hemitted]
    exact h.audio

theorem close_sock_live (w s : ℕ) (h : c.live s = false) : (c.close_sock w).live s = false := by
  by_cases hs : s = w
  · simp [Shared.close_sock, hs]
  · simp [Shared.close_sock, hs, h]

theorem drop_ws_live (s : ℕ) (h : c.live s = false) : c.drop_ws.live s = false := by
  cases hws : c.ws with
  | none =>
    simp only [Shared.drop_ws, hws]
    exact h
  | some w =>
    simp only [Shared.drop_ws, hws]
    exact close_sock_live w s h

/-! ### Moves -/

theorem Sound.begin_attempt (h : Sound c b) (k : ℕ) (hnone : ∀ s, c.alive s = false) :
    Sound c.begin_attempt (some (.dialing k)) :=
  { h.rest with
    fresh := fun _ _ _ => ⟨rfl, rfl⟩
    woken := nofun
    uncut := nofun
    rate := by
      intro s hs
      rw [show c.begin_attempt.alive s = c.alive s from rfl, hnone s] at hs
      cases hs }

theorem Sound.assign {k : ℕ} (h : Sound c (some (.dialing k))) :
    Sound c.assign (some (.configuring k c.opened)) :=
  { h.rest with
    fresh := fun _ _ _ => h.fresh _ rfl rfl
    woken := nofun
    uncut := nofun
    rejected := by
      intro n hn
      obtain ⟨hlt, hclosed⟩ := h.rejected n hn
      refine ⟨Nat.lt_succ_of_lt hlt, ?_⟩
      simp [Shared.assign, Nat.ne_of_lt hlt, hclosed] }

theorem Sound.create_reader {k n : ℕ} (h : Sound c (some (.configuring k n)))
    (hcore : Core c (some (.configuring k n))) {rate : Option ℕ} (hrate : c.v2 = false → rate = none) :
    Sound (c.create_reader n rate)
      (some (.grace k n (if c.reader_done then none else some c.sets))) := by
  obtain ⟨hdone, htts⟩ := h.fresh _ rfl rfl
  have hsilent : c.frames n = [] := h.silent n (Or.inl (hcore.unread k n rfl))
  have hself : (c.create_reader n rate).reader n = .created := by
    simp [Shared.create_reader, Shared.set_reader]
  have hother : ∀ s, s ≠ n → (c.create_reader n rate).reader s = c.reader s := fun s hs => by
    simp [Shared.create_reader, Shared.set_reader, hs]
  have hrate_self : (c.create_reader n rate).rate n = rate := by
    simp [Shared.create_reader]
  have hrate_other : ∀ s, s ≠ n → (c.create_reader n rate).rate s = c.rate s := fun s hs => by
    simp [Shared.create_reader, hs]
  exact {
    fresh := by
      intro ph hb hfresh
      cases hb
      cases hfresh
    woken := by
      intro k' n' since hb hwoken
      cases hb
      rw [hdone] at hwoken
      simp [Shared.woken, Shared.create_reader, Shared.set_reader] at hwoken
    uncut := by
      intro k' n' since hb t
      cases hb
      simp [hself]
    attributed := h.attributed
    rejected := h.rejected
    rate := by
      intro s hs
      by_cases hsn : s = n
      · subst hsn
        rw [hrate_self, show (c.create_reader s rate).frames = c.frames from rfl, hsilent]
        cases hv : c.v2 with
        | true =>
          simp only [Shared.create_reader, hv, if_true]
          cases rate <;> rfl
        | false =>
          simp only [Shared.create_reader, hv, Bool.false_eq_true, if_false, htts, hrate hv]
          rfl
      · rw [Shared.alive, hother s hsn] at hs
        have hdead := hcore.calm _ rfl rfl s
        rw [Shared.alive, hs] at hdead
        cases hdead
    silent := by
      intro s hs
      by_cases hsn : s = n
      · rw [hsn]
        exact hsilent
      · rw [hother s hsn] at hs
        exact h.silent s hs
    audio := by
      intro s
      by_cases hsn : s = n
      · subst hsn
        have haudio := h.audio s
        rw [hsilent] at haudio
        rw [hrate_self, show (c.create_reader s rate).frames = c.frames from rfl, hsilent,
          show (c.create_reader s rate).emitted = c.emitted from rfl, haudio]
        cases c.rate s <;> cases rate <;> rfl
      · rw [hrate_other s hsn]
        exact h.audio s }

/-- The phases that nothing is said about. -/
def Phase.plain : Phase → Bool
  | .dialing _ | .configuring .. | .grace .. => false
  | _ => true

theorem plain_of {p : Phase} (hp : p.plain = true) : ∀ ph, p.as_busy = some ph →
    ph.fresh = false ∧ ∀ k n since, ph ≠ .grace k n since := by
  intro ph hph
  unfold Phase.as_busy at hph
  split at hph
  · obtain rfl := Option.some.inj hph
    refine ⟨?_, ?_⟩
    · cases p <;> first | rfl | cases hp
    · rintro k n since rfl
      cases hp
  · cases hph

theorem retry_plain (k : ℕ) : (retry k).plain = true := by
  cases k <;> rfl

theorem after_burial_plain (k : ℕ) (w : Option ℕ) : (after_burial k w).plain = true := by
  cases w with
  | none => exact retry_plain k
  | some w => rfl

theorem after_reader_plain (w : Option ℕ) : (after_reader w).plain = true := by
  cases w <;> rfl

/-- A busy call goes on, and only closes sockets. -/
theorem Sound.go_on (h : Sound c b) {p : Phase} (hp : p.plain = true)
    (hlive : ∀ s, c.live s = false → c'.live s = false) (hopened : c'.opened = c.opened)
    (hreader : c'.reader = c.reader ∨ c'.reader = c.cancelled_readers)
    (heffects : c'.effects = c.effects) (hrejected : c'.rejected = c.rejected)
    (htts : c'.tts_sample_rate = c.tts_sample_rate) (hrates : c'.rate = c.rate)
    (hframes : c'.frames = c.frames) (hemitted : c'.emitted = c.emitted) : Sound c' p.as_busy :=
  h.congr (plain_of hp) (fun s _ => hlive s) hopened hreader heffects (Or.inl hrejected) (Or.inl htts)
    hrates hframes hemitted

/-- A judged attempt was on a socket that is closed. -/
theorem Sound.rejects {k n : ℕ} {since : Option ℕ} (h : Sound c (some (.grace k n since)))
    (hcore : Core c (some (.grace k n since))) (hwoken : c.woken since = true) {p : Phase}
    (hp : p.plain = true) (w : Option ℕ) :
    Sound (c.judge n) p.as_busy ∧ Sound ((c.judge n).drain w) p.as_busy := by
  have hlast : n < c.opened := Nat.lt_of_succ_le (Nat.le_of_eq (hcore.sock _ n rfl rfl))
  have hclosed := h.woken k n since rfl hwoken
  constructor
  · exact h.congr (plain_of hp) (fun _ _ hs => hs) rfl (Or.inr rfl) rfl
      (Or.inr ⟨n, rfl, hlast, hclosed⟩) (Or.inl rfl) rfl rfl rfl
  · exact h.congr (plain_of hp) (fun _ _ hs => hs) rfl (Or.inr rfl) rfl
      (Or.inr ⟨n, rfl, hlast, hclosed⟩) (Or.inl rfl) rfl rfl rfl

/-- A move keeps a session sound. -/
theorem Sound.moved (h : Sound c b) (hcore : Core c b) (ha : Admitted c b ph ph')
    (hm : Moved c job m ph ph' c') : Sound c' (busy_after b ph ph') := by
  cases hm with
  | handled => exact h
  | send_open => exact h
  | send_dead => exact h
  | too_late => exact h
  | lock => exact h
  | wrote_result => exact h.keep (Or.inl rfl) rfl rfl (fun _ hs => hs) rfl rfl rfl rfl rfl rfl rfl
  | wrote => exact h
  | failed => exact h.keep (Or.inl rfl) rfl rfl (fun _ hs => hs) rfl rfl rfl rfl rfl rfl rfl
  | revive => exact h.begin_attempt backoffs (ha.revive rfl rfl)
  | @tear_wait r =>
    exact h.go_on (p := .closing_reader r c.ws) rfl (fun _ hs => hs) rfl (Or.inr rfl) rfl rfl rfl rfl rfl
      rfl
  | tear =>
    rw [busy_after_begin (by cases c.ws <;> rfl)]
    exact h.go_on (after_reader_plain _) (fun _ hs => hs) rfl (Or.inr rfl) rfl rfl rfl rfl rfl rfl
  | reader_closed =>
    rw [busy_after_busy rfl]
    exact h.go_on (after_reader_plain _) (fun _ hs => hs) rfl (Or.inl rfl) rfl rfl rfl rfl rfl rfl
  | ws_closed =>
    exact h.go_on (p := .pausing) rfl (close_sock_live _) rfl (Or.inl rfl) rfl rfl rfl rfl rfl rfl
  | paused => exact h.begin_attempt backoffs (hcore.calm _ (ha.busy rfl) rfl)
  | connected =>
    have hb := ha.busy rfl
    subst hb
    exact h.assign
  | configured hrate =>
    have hb := ha.busy rfl
    subst hb
    exact h.create_reader hcore hrate
  | @slammed k n =>
    exact h.go_on (p := .slammed k n) rfl (fun _ hs => hs) rfl (Or.inl rfl) rfl rfl rfl rfl rfl rfl
  | @refused k n =>
    exact h.go_on (p := .refused n) rfl (fun _ hs => hs) rfl (Or.inl rfl) rfl rfl rfl rfl rfl rfl
  | slam_closed =>
    rw [busy_after_busy rfl]
    exact h.go_on (retry_plain _) drop_ws_live rfl (Or.inl rfl) rfl rfl rfl rfl rfl rfl
  | refuse_closed =>
    exact h.go_on (p := .ended) rfl drop_ws_live rfl (Or.inl rfl) rfl rfl rfl rfl rfl rfl
  | healthy =>
    rw [busy_after_busy rfl, as_busy_calm (after_open_calm _ _)]
    exact h.go_on (p := .ended) rfl (fun _ hs => hs) rfl (Or.inl rfl) rfl rfl rfl rfl rfl rfl
  | @reject_wait k n r since hwoken =>
    have hb := ha.busy rfl
    subst hb
    exact (h.rejects hcore hwoken (p := .burying_reader k r c.ws) rfl none).1
  | reject hwoken =>
    have hb := ha.busy rfl
    subst hb
    rw [busy_after_busy rfl]
    exact (h.rejects hcore hwoken (after_burial_plain _ _) _).2
  | reader_buried =>
    rw [busy_after_busy rfl]
    exact h.go_on (after_burial_plain _ _) (fun _ hs => hs) rfl (Or.inl rfl) rfl rfl rfl rfl rfl rfl
  | ws_buried =>
    rw [busy_after_busy rfl]
    exact h.go_on (retry_plain _) (close_sock_live _) rfl (Or.inl rfl) rfl rfl rfl rfl rfl rfl
  | backed_off => exact h.begin_attempt _ (hcore.calm _ (ha.busy rfl) rfl)
  | reader_ended =>
    rw [busy_after_calm rfl (close_ws_calm _)]
    exact h
  | ws_ended => exact h.keep (Or.inl rfl) rfl rfl (close_sock_live _) rfl rfl rfl rfl rfl rfl rfl
  | stopped =>
    unfold busy_after
    split
    · exact h.rest
    · exact h

/-! ### Readers -/

/-- A reader that was alive begins, or comes to its end. -/
theorem Sound.set_reader (h : Sound c b) {s : ℕ} {r : Reader} (hs : c.alive s = true)
    (hcut : ∀ t, r ≠ .cancelled t) (hbegun : r ≠ .absent ∧ r ≠ .created) :
    Sound (c.set_reader s r) b := by
  have hself : (c.set_reader s r).reader s = r := by simp [Shared.set_reader]
  have hother : ∀ t, t ≠ s → (c.set_reader s r).reader t = c.reader t := fun t ht => by
    simp [Shared.set_reader, ht]
  exact
    { h with
      uncut := by
        intro k n since hb t
        by_cases hn : n = s
        · rw [hn, hself]
          exact hcut t
        · rw [hother n hn]
          exact h.uncut k n since hb t
      rate := by
        intro t ht
        by_cases hts : t = s
        · exact h.rate t (hts ▸ hs)
        · rw [alive_set_reader, if_neg hts] at ht
          exact h.rate t ht
      silent := by
        intro t ht
        by_cases hts : t = s
        · rw [hts, hself] at ht
          exact absurd ht (not_or.2 hbegun)
        · rw [hother t hts] at ht
          exact h.silent t ht }

/-- The end of a reader, if no attempt is judged or its socket is closed. -/
theorem Sound.end_reader (h : Sound c b) (hcore : Core c b) {s : ℕ} (hs : c.alive s = true)
    (hgrace : ∀ k n since, b = some (.grace k n since) → c.live n = false) :
    Sound (c.end_reader s) b :=
  { h.set_reader hs (r := .done) nofun ⟨nofun, nofun⟩ with
    fresh := by
      intro ph hb hfresh
      have hcalm : ph.calm = true := by
        cases ph <;> first | rfl | cases hfresh
      rw [hcore.calm ph hb hcalm s] at hs
      cases hs
    woken := fun k n since hb _ => hgrace k n since hb }

theorem Sound.acted (h : Sound c b) {t : ℕ} (ht : ∀ g, c.session = some g → t = g) :
    Sound (c.acted t) b :=
  { h with
    attributed := by
      intro e he g hg
      rcases List.mem_append.1 he with he | he
      · exact h.attributed e he g hg
      · obtain rfl := List.mem_singleton.1 he
        exact ht g hg }

theorem Sound.put (h : Sound c b) {t : ℕ} {e : Event} (he : ∀ s, audio_of s [(t, e)] = []) :
    Sound (c.put t e) b :=
  { h with
    audio := by
      intro s
      rw [show (c.put t e).emitted = c.emitted ++ [(t, e)] from rfl, audio_of_append, he,
        List.append_nil]
      exact h.audio s }

theorem Sound.handle_binary (h : Sound c b) (hcore : Core c b) {s : ℕ} (hs : c.reader s = .running s)
    {data : List UInt8} (hfed : c.tts_sample_rate.isSome = true ∨ 4 ≤ data.length) :
    Sound (c.handle_binary s data) b := by
  have halive : c.alive s = true := alive_of_reader hs rfl
  have hrate := h.rate s halive
  have hself : (c.handle_binary s data).frames s = c.frames s ++ [data] := by
    simp [Shared.handle_binary]
  have hother : ∀ t, t ≠ s → (c.handle_binary s data).frames t = c.frames t := fun t ht => by
    simp [Shared.handle_binary, ht]
  rw [hrate] at hfed
  exact
    { h with
      fresh := by
        intro ph hb hfresh
        have hcalm : ph.calm = true := by
          cases ph <;> first | rfl | cases hfresh
        rw [hcore.calm ph hb hcalm s] at halive
        cases halive
      rate := by
        intro t ht
        have hlast := hcore.alive_latest s halive
        have hlast' := hcore.alive_latest t ht
        obtain rfl : t = s := by omega
        rw [hself, show (c.handle_binary t data).rate = c.rate from rfl, ← decode_announced hfed,
          ← hrate]
        rfl
      silent := by
        intro t ht
        by_cases hts : t = s
        · rw [hts] at ht
          rw [show (c.handle_binary s data).reader = c.reader from rfl, hs] at ht
          rcases ht with ht | ht <;> cases ht
        · rw [hother t hts]
          exact h.silent t ht
      audio := by
        intro t
        rw [show (c.handle_binary s data).emitted =
          c.emitted ++ (Shared.decode c.tts_sample_rate data).2.map fun e => (s, e) from rfl,
          audio_of_append, show (c.handle_binary s data).rate = c.rate from rfl, h.audio]
        by_cases hts : t = s
        · subst hts
          rw [hself, hrate]
          exact decode_heard hfed
        · rw [hother t hts, audio_of_other (Ne.symm hts), List.append_nil] }

/-- What a reader does is about its own session. -/
theorem attributed_of (hcore : Core c b) {s t : ℕ} {r : Reader} (hreader : c.reader s = r)
    (halive : r.alive = true) (htarget : r.target = some t) :
    t = s ∧ ∀ g, c.session = some g → t = g := by
  have hs := hcore.alive_latest s (alive_of_reader hreader halive)
  have ht : t = s := hcore.target s t (by rw [hreader, htarget])
  refine ⟨ht, fun g hg => ?_⟩
  have hlast := hcore.session_latest g hg
  omega

/-- What happens keeps a session sound, if no frame fails while an attempt is judged, and the first
    binary frame has a header. -/
theorem Sound.happened (h : Sound c b) (hcore : Core c b) {a : Label} (hh : Happened c a c')
    (hcrash : ∀ s, a = .frame s .crash → ∀ k n since, b ≠ some (.grace k n since))
    (hfed : ∀ s data, a = .frame s (.binary data) → c.tts_sample_rate.isSome = true ∨ 4 ≤ data.length) :
    Sound c' b := by
  cases hh with
  | die =>
    exact h.keep (Or.inl rfl) rfl rfl (close_sock_live _) rfl rfl rfl rfl rfl rfl rfl
  | start hreader => exact h.set_reader (alive_of_reader hreader rfl) nofun ⟨nofun, nofun⟩
  | start_dead hreader => exact h.set_reader (alive_of_reader hreader rfl) nofun ⟨nofun, nofun⟩
  | @frame s t f hreader =>
    obtain ⟨rfl, hown⟩ := attributed_of hcore hreader rfl rfl
    cases f with
    | binary data => exact (h.handle_binary hcore hreader (hfed t data rfl)).acted hown
    | tool_call => exact (h.put fun _ => rfl).acted hown
    | other => exact (h.put fun _ => rfl).acted hown
    | crash =>
      have hput : Sound (c.put t .error) b := h.put fun _ => rfl
      have hcore' : Core (c.put t .error) b := hcore.congr (Or.inl rfl) rfl rfl (Or.inl rfl) (Or.inl rfl)
      refine (hput.end_reader hcore' (alive_of_reader hreader rfl) fun k n since hb => ?_).acted hown
      exact absurd hb (hcrash t rfl k n since)
  | @reader_end s t normal code hreader hlive =>
    obtain ⟨rfl, hown⟩ := attributed_of hcore hreader rfl rfl
    have halive := alive_of_reader hreader rfl
    have hgrace : ∀ k n since, b = some (.grace k n since) → c.live n = false := by
      intro k n since hb
      have hn := hcore.sock _ n hb rfl
      have ht := hcore.alive_latest t halive
      obtain rfl : n = t := by omega
      exact hlive
    cases normal with
    | true => exact (h.end_reader hcore halive hgrace).acted hown
    | false =>
      have hcoded : Sound { c with last_close_code := code } b :=
        h.keep (Or.inl rfl) rfl rfl (fun _ hs => hs) rfl rfl rfl rfl rfl rfl rfl
      have hput : Sound (Shared.put { c with last_close_code := code } t .error) b :=
        hcoded.put fun _ => rfl
      have hcore' : Core (Shared.put { c with last_close_code := code } t .error) b :=
        hcore.congr (Or.inl rfl) rfl rfl (Or.inl rfl) (Or.inl rfl)
      exact (hput.end_reader hcore' halive hgrace).acted hown
  | dropped hreader => exact h.set_reader (alive_of_reader hreader rfl) nofun ⟨nofun, nofun⟩
  | @cancelled s t hreader =>
    obtain ⟨rfl, hown⟩ := attributed_of hcore hreader rfl rfl
    have halive := alive_of_reader hreader rfl
    refine (h.end_reader hcore halive fun k n since hb => ?_).acted hown
    have hn := hcore.sock _ n hb rfl
    have ht := hcore.alive_latest t halive
    obtain rfl : n = t := by omega
    exact absurd hreader (h.uncut k n since hb _)
  | cleared => exact h.keep (Or.inr rfl) rfl rfl (fun _ hs => hs) rfl rfl rfl rfl rfl rfl rfl

/-- A step of an orderly run keeps a session sound. -/
theorem Sound.turned (h : Sound c b) (hcore : Core c b) {a : Label} {b' : Option Phase}
    (ht : Turned c b a c' b')
    (hcrash : ∀ s, a = .frame s .crash → ∀ k n since, b ≠ some (.grace k n since))
    (hfed : ∀ s data, a = .frame s (.binary data) → c.tts_sample_rate.isSome = true ∨ 4 ≤ data.length)
    (hclose : a = .call .close → b = none) : Sound c' b' := by
  cases ht with
  | moved ha hm => exact h.moved hcore ha hm
  | call => exact h
  | dial _ _ hnone => exact h.begin_attempt backoffs hnone
  | shut =>
    rw [hclose rfl]
    exact h.go_on (p := .ended) rfl (fun _ hs => hs) rfl (Or.inr rfl) rfl rfl rfl rfl rfl rfl
  | happened hh => exact h.happened hcore hh hcrash hfed
  | taken => exact h.keep (Or.inl rfl) rfl rfl (fun _ hs => hs) rfl rfl rfl rfl rfl rfl rfl

end

/-! ### Runs -/

/-- One call at most is busy, what is about a socket is about the last one, and the session is sound. -/
def Isolated (c : Client) : Prop := ∃ b, Busy c.tasks b ∧ Core c.shared b ∧ Sound c.shared b

theorem core_init (v2 : Bool) : Core (Shared.init v2) none := by
  refine ⟨nofun, nofun, nofun, fun _ _ => rfl, nofun, nofun, nofun, nofun, nofun, nofun⟩

theorem sound_init (v2 : Bool) : Sound (Shared.init v2) none := by
  refine ⟨nofun, nofun, nofun, nofun, nofun, nofun, fun _ _ => rfl, fun _ => rfl⟩

theorem isolated_init (v2 : Bool) : Isolated (Client.init v2) :=
  ⟨none, nofun, core_init v2, sound_init v2⟩

/-- No call gets in the way of another, nor `close()` of any, and the server sends what a reader can
    read. -/
def undisturbed (c : Client) (a : Label) : Bool :=
  orderly c a && well_fed c a && (a ≠ .call .close || c.idle)

theorem well_fed_crash {c : Client} {b : Option Phase} {s : ℕ} (hb : Busy c.tasks b)
    (h : well_fed c (.frame s .crash) = true) (k n : ℕ) (since : Option ℕ) :
    b ≠ some (.grace k n since) := by
  rintro rfl
  obtain ⟨-, i, ⟨job, hi⟩, -⟩ := hb
  simp only [well_fed, List.all_eq_true] at h
  have hgrace := h _ (List.mem_of_getElem? hi)
  cases hgrace

theorem isolated_step {c c' : Client} {a : Label} (h : Isolated c) (ha : undisturbed c a = true)
    (hstep : step c a c') : Isolated c' := by
  obtain ⟨b, hb, hcore, hsound⟩ := h
  rw [undisturbed, Bool.and_eq_true, Bool.and_eq_true] at ha
  obtain ⟨⟨horder, hfed⟩, hclose⟩ := ha
  obtain ⟨b', hb', hturned⟩ := turned_of hb hcore horder (step_cases hstep)
  refine ⟨b', hb', hcore.turned hturned, hsound.turned hcore hturned ?_ ?_ ?_⟩
  · rintro s rfl
    exact well_fed_crash hb hfed
  · rintro s data rfl
    simpa [well_fed] using hfed
  · rintro rfl
    simp only [ne_eq, not_true_eq_false, decide_false, Bool.false_or] at hclose
    exact hb.eq_none (idle_iff.1 hclose)

/-- In an undisturbed run, whatever a reader did while a session was accepted, it was the reader of
    that session; the audio of a socket is what its own frames say; and a rejected socket is closed. -/
theorem sessions_isolated {v2 : Bool} {as : List Label} {c : Client}
    (h : Run (restrict (fun c a => undisturbed c a = true) step) (Client.init v2) as c) :
    (∀ e ∈ c.shared.effects, ∀ g, e.session = some g → e.reader = g) ∧
    (∀ s, audio_of s c.shared.emitted = heard (c.shared.rate s) (c.shared.frames s)) ∧
    ∀ n ∈ c.shared.rejected, c.shared.live n = false := by
  have hisolated : Isolated c :=
    Run.invariant (I := Isolated) (fun hi hst => isolated_step hi hst.1 hst.2) (isolated_init v2) h
  obtain ⟨b, -, -, hsound⟩ := hisolated
  exact ⟨hsound.attributed, hsound.audio, fun n hn => (hsound.rejected n hn).2⟩

/-! ### A reader that comes to its end too late -/

/-- A socket speaks, and closes; `reconnect()` opens the next one, which speaks too. -/
def spoken_twice : List Label :=
  [.call .connect, .task 0 .connected, .task 0 (.configured none), .reader_start 0, .task 0 .healthy,
    .frame 0 (.binary [128, 62, 0, 0, 1, 2]), .frame 0 (.binary [3, 4]), .die 0,
    .reader_end 0 false (some 1006), .call .reconnect, .task 1 .go, .task 1 .go, .task 1 .go,
    .task 1 .go, .task 1 .connected, .task 1 (.configured none), .reader_start 1, .task 1 .healthy,
    .frame 1 (.binary [192, 93, 0, 0, 5, 6])]

theorem sessions_isolated_twice : ∃ c, Run (restrict (fun c a => undisturbed c a = true) step)
      (Client.init false) spoken_twice c ∧
    audio_of 1 c.shared.emitted = [([5, 6], 24000)] ∧
    (∀ e ∈ c.shared.effects, ∀ g, e.session = some g → e.reader = g) ∧
    (∀ s, audio_of s c.shared.emitted = heard (c.shared.rate s) (c.shared.frames s)) ∧
    ∀ n ∈ c.shared.rejected, c.shared.live n = false := by
  obtain ⟨c, hrun, haudio⟩ := Run.of_replay_any
    (fun c a => if undisturbed c a = true then Client.step c a else none) (Client.init false)
    spoken_twice (fun c => decide (audio_of 1 c.shared.emitted = [([5, 6], 24000)]))
    (by decide +kernel)
  have hrestricted := Run.restrict_mono hrun
  exact ⟨c, hrestricted, of_decide_eq_true haudio, sessions_isolated hrestricted⟩

/-- A send finds out that the socket is dead before its reader does, and the next one opens another. -/
def revived_early : List Label :=
  [.call .connect, .task 0 .connected, .task 0 (.configured none), .reader_start 0, .task 0 .healthy,
    .frame 0 (.binary [128, 62, 0, 0, 1, 2]), .die 0, .call (.send (.other true)), .task 1 .go,
    .task 1 .failed, .call (.send (.other true)), .task 2 .go, .task 2 .connected,
    .task 2 (.configured none), .reader_start 1]

/-- The old reader comes to its end after the new session was accepted, or reads a last frame without a
    rate, or wakes the attempt on a socket that is open. -/
theorem late_reader_interferes :
    (¬ ∀ as c, Run step (Client.init false) as c →
      ∀ e ∈ c.shared.effects, ∀ g, e.session = some g → e.reader = g) ∧
    (¬ ∀ as c, Run step (Client.init false) as c →
      ∀ s, audio_of s c.shared.emitted = heard (c.shared.rate s) (c.shared.frames s)) ∧
    ¬ ∀ as c, Run step (Client.init false) as c → ∀ n ∈ c.shared.rejected, c.shared.live n = false := by
  refine ⟨fun hall => ?_, fun hall => ?_, fun hall => ?_⟩
  · obtain ⟨c, hrun, heffect⟩ := Run.of_replay_any Client.step (Client.init false)
      (revived_early ++ [.task 2 .healthy, .reader_end 0 false (some 1006)])
      (fun c => decide (⟨0, some 1⟩ ∈ c.shared.effects)) (by decide +kernel)
    have hself := hall _ c hrun _ (of_decide_eq_true heffect) 1 rfl
    cases hself
  · obtain ⟨c, hrun, haudio⟩ := Run.of_replay_any Client.step (Client.init false)
      (revived_early ++ [.frame 0 (.binary [1, 2, 3, 4, 5, 6])])
      (fun c => decide (audio_of 0 c.shared.emitted ≠ heard (c.shared.rate 0) (c.shared.frames 0)))
      (by decide +kernel)
    exact of_decide_eq_true haudio (hall _ c hrun 0)
  · obtain ⟨c, hrun, hlive⟩ := Run.of_replay_any Client.step (Client.init false)
      (revived_early ++ [.reader_end 0 false (some 1006), .task 2 .reject])
      (fun c => decide (1 ∈ c.shared.rejected ∧ c.shared.live 1 = true)) (by decide +kernel)
    obtain ⟨hrejected, hlive⟩ := of_decide_eq_true hlive
    rw [hall _ c hrun 1 hrejected] at hlive
    cases hlive

end LocalVoice.SlvClient
