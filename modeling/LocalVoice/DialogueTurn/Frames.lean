import LocalVoice.DialogueTurn.Handed
import LocalVoice.Lib.Log

/-! The frames of the turns, in the order they were written. A text that stays unanswered in a session
    is spoken with the text of the next turn; so between two of them there has to be the flush of the
    first turn if it was completed, and an abort if not. -/

namespace LocalVoice.DialogueTurn
open LocalVoice.Lib

/-! ### Answers -/

/-- A text of the turn in the session that is open. -/
def Wire.holds (w : Wire) (id : ℕ) (f : Frame) : Prop :=
  w.live = true ∧ f.socket = w.socket ∧ f.turn = some id ∧ f.kind.is_text = true

instance (w : Wire) (id : ℕ) (f : Frame) : Decidable (w.holds id f) :=
  inferInstanceAs (Decidable (_ ∧ _ ∧ _ ∧ _))

/-- What ends the text of a turn: its flush if it was completed, any abort if not. -/
def Turn.answered_by (t : Turn) (id : ℕ) (f e : Frame) : Prop :=
  e.socket = f.socket ∧ if t.completed = true then e.turn = some id ∧ e.kind = .tts_flush else e.kind = .abort

/-- The frame ends the text of a turn that is over. -/
def answers (past : List Turn) (f e : Frame) : Prop :=
  ∃ i t, f.turn = some i ∧ past[i]? = some t ∧ t.answered_by i f e

/-- Two texts in one session, of different turns. -/
def Frame.of_another (f g : Frame) : Prop :=
  f.kind.is_text = true ∧ g.kind.is_text = true ∧ f.socket = g.socket ∧ f.turn ≠ g.turn

/-- What a turn wrote, in order. -/
def Wire.written (w : Wire) (id : ℕ) : List Kind :=
  (w.frames.filter fun f => f.turn = some id).map Frame.kind

/-- No turn with text in the session is cancelled where it does not notice. -/
def steady (c : State) : Label → Bool
  | .turn .cancelled => match c.turn with
    | some t => !t.exposed || c.wire.frames.all fun f => !decide (c.wire.holds c.past.length f)
    | none => true
  | _ => true

/-! ### One event -/

section
variable {t u : Turn} {live : Bool} {e : Event}

/-- The turn knows that it may have written a text, or will when the send returns. -/
def Turn.aware (t : Turn) : Prop := t.sent = true ∨ t.stage.unreturned = true

@[simp] theorem sent_at_stage (stage : Stage) : (t.at_stage stage).sent = t.sent := rfl

@[simp] theorem sent_send (k : Kind) (stage : Stage) : (t.send k stage).sent = t.sent := rfl

@[simp] theorem sent_finally : t.finally_arm.sent = t.sent := by
  unfold Turn.finally_arm
  split <;> rfl

@[simp] theorem sent_unwind : t.unwind.sent = t.sent := by
  unfold Turn.unwind
  split
  · rfl
  · exact sent_finally

@[simp] theorem completed_finally : t.finally_arm.completed = t.completed := by
  unfold Turn.finally_arm
  split <;> rfl

theorem Turn.aware.sent (h : t.aware) (hexposed : t.exposed = false) : t.sent = true := by
  rcases h with hknown | hw
  · exact hknown
  · cases hs : t.stage with
    | sending src s w =>
      rw [hs] at hw
      obtain rfl : w = true := hw
      simpa [Turn.exposed, hs] using hexposed
    | _ =>
      rw [hs] at hw
      cases hw

theorem Turn.aware.sent_of (h : t.aware) (hw : t.stage.unreturned = false) : t.sent = true :=
  h.resolve_right (by simp [hw])

theorem aware_react (hr : Reacted t live e u none) (h : t.aware)
    (hcut : e = .cancelled → t.exposed = false) : u.aware := by
  have hsent : t.stage.unreturned = false → t.sent = true := h.sent_of
  cases hr with
  | token => exact Or.inl (by simp [Turn.sent, Turn.on_token])
  | tool_text src s hs =>
    refine Or.inl ?_
    unfold Turn.send_tool_text
    split <;> exact hsent (by rw [hs]; rfl)
  | finish hs => exact Or.inl (sent_finally.trans (hsent (by rw [hs]; rfl)))
  | announced hs => exact Or.inl (hsent (by rw [hs]; rfl))
  | sent => exact Or.inl (by simp [Turn.sent])
  | aborted hs => exact Or.inl (hsent (by rw [hs]; rfl))
  | flushed hs => exact Or.inl (hsent (by rw [hs]; rfl))
  | stopped hs => exact Or.inl (sent_finally.trans (hsent (by rw [hs]; rfl)))
  | reported hs => exact Or.inl (hsent (by rw [hs]; rfl))
  | swallowed _ hw => exact Or.inl (hsent hw)
  | failed _ hw => exact Or.inl (sent_unwind.trans (hsent hw))
  | cancelled =>
    have hsent : t.sent = true := h.sent (hcut rfl)
    exact Or.inl (sent_unwind.trans hsent)
  | cancelled_abort hs => exact Or.inl (sent_finally.trans (hsent (by rw [hs]; rfl)))
  | cancelled_flush hs => exact Or.inl (hsent (by rw [hs]; rfl))

/-- A turn that is aware of its text, and is not cut off, is past its abort or its flush only when that
    is written. -/
theorem answered_react (hfits : t.Fits) (hr : Reacted t true e u none) (h : t.aware)
    (hcut : e = .cancelled → t.exposed = false) (hu : u.stage.answered = true) :
    t.stage.answered = true ∧ u.completed = t.completed := by
  have hunwind : ∀ v : Turn, v.sent = true → v.unwind.stage.answered = false := fun v hv => by
    simp [Turn.unwind, hv, Turn.send, Stage.answered]
  cases hr with
  | token => cases hu
  | tool_text src s hs =>
    unfold Turn.send_tool_text at hu
    split at hu
    · rw [hs] at hu
      cases hu
    · cases hu
  | finish hs =>
    obtain ⟨-, hcancelled, -⟩ := fits_early hfits (by rw [hs]; rfl)
    simp [Turn.finish, Turn.finally_arm, hcancelled, Turn.send, Stage.answered] at hu
  | announced => cases hu
  | sent => cases hu
  | @aborted _ w hs hover =>
    obtain rfl := hover.resolve_right (by simp)
    exact ⟨by rw [hs]; rfl, rfl⟩
  | @flushed _ w hs hover =>
    obtain rfl := hover.resolve_right (by simp)
    exact ⟨by rw [hs]; rfl, rfl⟩
  | stopped hs => exact ⟨by rw [hs]; rfl, completed_finally⟩
  | reported hs => exact ⟨by rw [hs]; rfl, rfl⟩
  | swallowed => cases hu
  | failed _ hw =>
    rw [hunwind t (h.sent_of hw)] at hu
    cases hu
  | cancelled =>
    have hsent : t.sent = true := h.sent (hcut rfl)
    rw [Turn.cancel, hunwind { t with cancelled := true } hsent] at hu
    cases hu
  | @cancelled_abort w hs =>
    have hw := hcut rfl
    simp only [Turn.exposed, hs, Bool.not_eq_false'] at hw
    subst hw
    exact ⟨by rw [hs]; rfl, completed_finally⟩
  | @cancelled_flush w hs =>
    have hw := hcut rfl
    simp only [Turn.exposed, hs, Bool.not_eq_false'] at hw
    subst hw
    exact ⟨by rw [hs]; rfl, rfl⟩

/-- The frame that was handed over and is not written yet. -/
def Turn.waiting (t : Turn) : List Kind := (t.pending.map Prod.fst).toList

theorem waiting_of_stage (h : ∀ src s, t.stage ≠ .sending src s false) (ha : t.stage ≠ .aborting false)
    (hf : t.stage ≠ .flushing false) : t.waiting = [] := by
  cases hs : t.stage with
  | sending src s w =>
    cases w with
    | false => exact absurd hs (h src s)
    | true => simp [Turn.waiting, Turn.pending, hs]
  | aborting w =>
    cases w with
    | false => exact absurd hs ha
    | true => simp [Turn.waiting, Turn.pending, hs]
  | flushing w =>
    cases w with
    | false => exact absurd hs hf
    | true => simp [Turn.waiting, Turn.pending, hs]
  | _ => simp [Turn.waiting, Turn.pending, hs]

/-- A turn hands one frame over that waits to be written, or none. -/
def Turn.hands (t u : Turn) : Prop :=
  (u.handed = t.handed ∧ u.waiting = []) ∨ ∃ k, u.handed = t.handed ++ [k] ∧ u.waiting = [k]

theorem hands_finally : t.hands t.finally_arm := by
  unfold Turn.finally_arm
  split
  · exact Or.inr ⟨.tts_flush, rfl, rfl⟩
  · exact Or.inl ⟨rfl, rfl⟩

theorem hands_unwind : t.hands t.unwind := by
  unfold Turn.unwind
  split
  · exact Or.inr ⟨.abort, rfl, rfl⟩
  · exact hands_finally

theorem hands_react (hr : Reacted t live e u none) : t.hands u := by
  cases hr with
  | token => exact Or.inl ⟨rfl, rfl⟩
  | tool_text src s hs =>
    unfold Turn.send_tool_text
    split
    · exact Or.inl ⟨rfl, waiting_of_stage (by simp [hs]) (by simp [hs]) (by simp [hs])⟩
    · exact Or.inr ⟨.text s, rfl, rfl⟩
  | finish => exact hands_finally (t := { t with completed := true })
  | @announced s => exact Or.inr ⟨.text s, rfl, rfl⟩
  | sent => exact Or.inl ⟨rfl, rfl⟩
  | aborted => exact Or.inl ⟨rfl, rfl⟩
  | flushed => exact Or.inl ⟨rfl, rfl⟩
  | stopped => exact hands_finally
  | reported => exact Or.inl ⟨rfl, rfl⟩
  | swallowed => exact Or.inl ⟨rfl, rfl⟩
  | failed => exact hands_unwind
  | cancelled => exact hands_unwind (t := { t with cancelled := true })
  | cancelled_abort => exact hands_finally
  | cancelled_flush => exact Or.inl ⟨rfl, rfl⟩

/-- What was written, and what waits to be, was handed over in that order. -/
theorem sublist_react {l : List Kind} (h : List.Sublist (l ++ t.waiting) t.handed) (hands : t.hands u) :
    List.Sublist (l ++ u.waiting) u.handed := by
  have hl : List.Sublist l t.handed := (List.sublist_append_left l t.waiting).trans h
  rcases hands with ⟨hhanded, hwaiting⟩ | ⟨k, hhanded, hwaiting⟩
  · rw [hhanded, hwaiting, List.append_nil]
    exact hl
  · rw [hhanded, hwaiting]
    exact hl.append (List.Sublist.refl [k])

/-- What the pending frame of a turn is, and where the turn is when it is written. -/
theorem pending_cases {kind : Kind} {stage : Stage} (hp : t.pending = some (kind, stage)) :
    (∃ src s, kind = .text s ∧ stage = .sending src s true) ∨
      (t.stage = .aborting false ∧ kind = .abort ∧ stage = .aborting true) ∨
      (t.stage = .flushing false ∧ kind = .tts_flush ∧ stage = .flushing true) := by
  cases hs : t.stage with
  | sending src s w =>
    cases w <;> simp only [Turn.pending, hs, Option.some.injEq, Prod.mk.injEq, reduceCtorEq] at hp
    obtain ⟨rfl, rfl⟩ := hp
    exact Or.inl ⟨src, s, rfl, rfl⟩
  | aborting w =>
    cases w <;> simp only [Turn.pending, hs, Option.some.injEq, Prod.mk.injEq, reduceCtorEq] at hp
    obtain ⟨rfl, rfl⟩ := hp
    exact Or.inr (Or.inl ⟨rfl, rfl, rfl⟩)
  | flushing w =>
    cases w <;> simp only [Turn.pending, hs, Option.some.injEq, Prod.mk.injEq, reduceCtorEq] at hp
    obtain ⟨rfl, rfl⟩ := hp
    exact Or.inr (Or.inr ⟨rfl, rfl, rfl⟩)
  | _ => simp [Turn.pending, hs] at hp

end

/-! ### All turns -/

/-- The frames, told apart by the turns that wrote them. -/
structure Separate (c : State) : Prop where
  parted : Parted Frame.of_another (answers c.past) c.wire.frames
  old : Answered (fun f => ∃ i, i < c.past.length ∧ c.wire.holds i f) (answers c.past) c.wire.frames
  sockets : ∀ f ∈ c.wire.frames, f.socket ≤ c.wire.socket
  turns : ∀ f ∈ c.wire.frames, ∀ i, f.turn = some i →
    i < c.past.length ∨ i = c.past.length ∧ c.turn ≠ none
  texts : ∀ f ∈ c.wire.frames, f.kind.is_text = true → f.turn ≠ none
  ended : ∀ (i : ℕ) t, c.past[i]? = some t →
    t.handed_is t.closing ∧ List.Sublist (c.wire.written i) t.handed
  fits : ∀ t, c.turn = some t → t.Fits
  mine : ∀ t, c.turn = some t → t.stage.answered = true →
    Answered (c.wire.holds c.past.length) (t.answered_by c.past.length) c.wire.frames
  aware : ∀ t, c.turn = some t → ∀ f ∈ c.wire.frames, c.wire.holds c.past.length f → t.aware
  handed : ∀ t, c.turn = some t → List.Sublist (c.wire.written c.past.length ++ t.waiting) t.handed

section
variable {c : State} {t u : Turn}

theorem answers_append {past : List Turn} {f e : Frame} (h : answers past f e) :
    answers (past ++ [u]) f e := by
  obtain ⟨i, t, hf, ht, he⟩ := h
  obtain ⟨hlt, rfl⟩ := List.getElem?_eq_some_iff.1 ht
  exact ⟨i, _, hf, by rw [List.getElem?_append_left hlt, ht], he⟩

theorem written_write (w : Wire) (id i : ℕ) (kind : Kind) :
    (w.write (some id) kind).written i = if i = id then w.written i ++ [kind] else w.written i := by
  by_cases h : i = id
  · simp [Wire.written, Wire.write, h]
  · simp [Wire.written, Wire.write, Ne.symm h, h]

/-- A turn that goes on, or is over. -/
theorem Separate.put (h : Separate c) (hfits : u.Fits)
    (hanswered : u.stage.answered = true →
      Answered (c.wire.holds c.past.length) (u.answered_by c.past.length) c.wire.frames)
    (haware : ∀ f ∈ c.wire.frames, c.wire.holds c.past.length f → u.aware)
    (hhanded : List.Sublist (c.wire.written c.past.length ++ u.waiting) u.handed) :
    Separate (c.put c.wire u) := by
  unfold State.put
  split
  · next hended =>
    have hover : u.stage.answered = true := by rw [hended]; rfl
    refine
      { parted := h.parted.mono fun _ _ => answers_append
        old := ?_
        sockets := h.sockets
        turns := fun f hf i hi => Or.inl ?_
        texts := h.texts
        ended := fun i v hv => ?_
        fits := by rintro v ⟨⟩
        mine := by rintro v ⟨⟩
        aware := by rintro v ⟨⟩
        handed := by rintro v ⟨⟩ }
    · rintro pre f post heq ⟨i, hi, hholds⟩
      rw [List.length_append, List.length_singleton] at hi
      rcases Nat.lt_succ_iff_lt_or_eq.1 hi with hi | rfl
      · obtain ⟨e, he, hans⟩ := h.old pre f post heq ⟨i, hi, hholds⟩
        exact ⟨e, he, answers_append hans⟩
      · obtain ⟨e, he, hans⟩ := hanswered hover pre f post heq hholds
        exact ⟨e, he, c.past.length, u, hholds.2.2.1, by simp, hans⟩
    · rw [List.length_append, List.length_singleton]
      rcases h.turns f hf i hi with hlt | ⟨rfl, -⟩
      · exact Nat.lt_succ_of_lt hlt
      · exact Nat.lt_succ_self _
    · by_cases hi : i < c.past.length
      · rw [List.getElem?_append_left hi] at hv
        exact h.ended i v hv
      · obtain ⟨hlt, -⟩ := List.getElem?_eq_some_iff.1 hv
        rw [List.length_append, List.length_singleton] at hlt
        obtain rfl : i = c.past.length := by omega
        obtain rfl : u = v := by simpa using hv
        have hclosed : u.handed_is u.closing := by
          simp only [Turn.Fits, hended] at hfits
          exact hfits
        exact ⟨hclosed, (List.sublist_append_left _ _).trans hhanded⟩
  · refine
      { h with
        turns := fun f hf i hi => (h.turns f hf i hi).imp_right fun hi => ⟨hi.1, by simp⟩
        fits := fun v hv => ?_
        mine := fun v hv => ?_
        aware := fun v hv => ?_
        handed := fun v hv => ?_ }
    all_goals
      obtain rfl := Option.some.inj hv
    · exact hfits
    · exact hanswered
    · exact haware
    · exact hhanded

/-- The turn writes the frame that it handed over. -/
theorem Separate.write (h : Separate c) (ht : c.turn = some t) (hlive : c.wire.live = true) {kind : Kind}
    {stage : Stage} (hp : t.pending = some (kind, stage)) :
    Separate ⟨c.wire.write (some c.past.length) kind, c.past, some (t.at_stage stage)⟩ := by
  have hfits := h.fits t ht
  have hcases := pending_cases hp
  have hunheld : kind.is_text = false → ¬ c.wire.holds c.past.length ⟨c.wire.socket, some c.past.length, kind⟩ :=
    fun hkind hholds => by
      rw [hholds.2.2.2] at hkind
      cases hkind
  refine
    { parted := h.parted.concat ?_
      old := h.old.concat ?_
      sockets := fun f hf => ?_
      turns := fun f hf i hi => ?_
      texts := fun f hf hkind => ?_
      ended := fun i v hv => ?_
      fits := fun v hv => ?_
      mine := fun v hv hanswered => ?_
      aware := fun v hv f hf hholds => ?_
      handed := fun v hv => ?_ }
  · -- an earlier text of this session is of a turn that is over, and was answered
    refine h.old.mono (fun f hf hof => ?_) fun _ _ hq => hq
    obtain ⟨hkind, -, hsocket, hne⟩ := hof
    cases hturn : f.turn with
    | none => exact absurd hturn (h.texts f hf hkind)
    | some i =>
      rcases h.turns f hf i hturn with hlt | ⟨rfl, -⟩
      · exact ⟨i, hlt, hlive, hsocket, hturn, hkind⟩
      · exact absurd hturn hne
  · rintro ⟨i, hi, -, -, hturn, -⟩
    obtain rfl := Option.some.inj hturn
    exact Nat.lt_irrefl _ hi
  · rcases List.mem_append.1 hf with hf | hf
    · exact h.sockets f hf
    · obtain rfl := List.mem_singleton.1 hf
      exact Nat.le_refl _
  · rcases List.mem_append.1 hf with hf | hf
    · exact (h.turns f hf i hi).imp_right fun ⟨hi, _⟩ => ⟨hi, nofun⟩
    · obtain rfl := List.mem_singleton.1 hf
      obtain rfl := Option.some.inj hi
      exact Or.inr ⟨rfl, nofun⟩
  · rcases List.mem_append.1 hf with hf | hf
    · exact h.texts f hf hkind
    · obtain rfl := List.mem_singleton.1 hf
      nofun
  · have hlt : i < c.past.length := (List.getElem?_eq_some_iff.1 hv).1
    rw [written_write, if_neg (Nat.ne_of_lt hlt)]
    exact h.ended i v hv
  · obtain rfl := Option.some.inj hv
    exact fits_written hfits hp
  · obtain rfl := Option.some.inj hv
    rcases hcases with ⟨src, s, rfl, rfl⟩ | ⟨hs, rfl, rfl⟩ | ⟨hs, rfl, rfl⟩
    · cases hanswered
    · simp only [Turn.Fits, hs] at hfits
      refine Answered.of_last (hunheld rfl) fun f _ hholds => ⟨hholds.2.1.symm, ?_⟩
      rw [if_neg]
      simp [Turn.at_stage, hfits.1]
    · simp only [Turn.Fits, hs] at hfits
      refine Answered.of_last (hunheld rfl) fun f _ hholds => ⟨hholds.2.1.symm, ?_⟩
      rw [if_pos]
      · exact ⟨rfl, rfl⟩
      · exact hfits.1
  · obtain rfl := Option.some.inj hv
    rcases hcases with ⟨src, s, rfl, rfl⟩ | ⟨hs, rfl, rfl⟩ | ⟨hs, rfl, rfl⟩
    · exact Or.inr rfl
    all_goals
      rcases List.mem_append.1 hf with hf | hf
      · refine Or.inl ((h.aware t ht f hf hholds).sent_of ?_)
        rw [hs]
        rfl
      · obtain rfl := List.mem_singleton.1 hf
        exact absurd hholds (hunheld rfl)
  · obtain rfl := Option.some.inj hv
    have hwaiting : t.waiting = [kind] := by simp [Turn.waiting, hp]
    have hrest : (t.at_stage stage).waiting = [] := by
      rcases hcases with ⟨src, s, -, rfl⟩ | ⟨-, -, rfl⟩ | ⟨-, -, rfl⟩ <;> rfl
    rw [written_write, if_pos rfl, hrest, List.append_nil, ← hwaiting]
    exact h.handed t ht

/-- The app writes an abort. -/
theorem Separate.interrupt (h : Separate c) :
    Separate { c with wire := c.wire.write none .abort } := by
  have hunheld : ∀ id, ¬ c.wire.holds id ⟨c.wire.socket, none, .abort⟩ := fun id hholds => by
    cases hholds.2.2.1
  have hwritten : ∀ i, (c.wire.write none .abort).written i = c.wire.written i := fun i => by
    simp [Wire.written, Wire.write]
  refine
    { parted := h.parted.concat (Answered.of_none fun f _ hof => ?_)
      old := h.old.concat fun ⟨i, _, hholds⟩ => hunheld i hholds
      sockets := fun f hf => ?_
      turns := fun f hf i hi => ?_
      texts := fun f hf hkind => ?_
      ended := fun i v hv => ?_
      fits := h.fits
      mine := fun v hv hanswered => (h.mine v hv hanswered).concat (hunheld _)
      aware := fun v hv f hf hholds => ?_
      handed := fun v hv => ?_ }
  · cases hof.2.1
  · rcases List.mem_append.1 hf with hf | hf
    · exact h.sockets f hf
    · obtain rfl := List.mem_singleton.1 hf
      exact Nat.le_refl _
  · rcases List.mem_append.1 hf with hf | hf
    · exact h.turns f hf i hi
    · obtain rfl := List.mem_singleton.1 hf
      cases hi
  · rcases List.mem_append.1 hf with hf | hf
    · exact h.texts f hf hkind
    · obtain rfl := List.mem_singleton.1 hf
      cases hkind
  · rw [hwritten]
    exact h.ended i v hv
  · rcases List.mem_append.1 hf with hf | hf
    · exact h.aware v hv f hf hholds
    · obtain rfl := List.mem_singleton.1 hf
      exact absurd hholds (hunheld _)
  · rw [hwritten]
    exact h.handed v hv

/-- A session that has none of the texts written so far. -/
theorem Separate.rewire (h : Separate c) {w : Wire} (hframes : w.frames = c.wire.frames)
    (hsocket : c.wire.socket ≤ w.socket) (hnone : ∀ f ∈ c.wire.frames, ∀ id, ¬ w.holds id f) :
    Separate { c with wire := w } := by
  have hwritten : ∀ i, w.written i = c.wire.written i := fun i => by simp only [Wire.written, hframes]
  refine
    { parted := hframes ▸ h.parted
      old := hframes ▸ Answered.of_none fun f hf ⟨i, _, hholds⟩ => hnone f hf i hholds
      sockets := fun f hf => Nat.le_trans (h.sockets f (hframes ▸ hf)) hsocket
      turns := fun f hf => h.turns f (hframes ▸ hf)
      texts := fun f hf => h.texts f (hframes ▸ hf)
      ended := fun i v hv => hwritten i ▸ h.ended i v hv
      fits := h.fits
      mine := fun v hv _ => hframes ▸ Answered.of_none fun f hf => hnone f hf _
      aware := fun v hv f hf hholds => absurd hholds (hnone f (hframes ▸ hf) _)
      handed := fun v hv => hwritten _ ▸ h.handed v hv }

/-- A turn begins. -/
theorem Separate.begin (h : Separate c) (ht : c.turn = none) :
    Separate { c with turn := some Turn.init } := by
  have hnone : ∀ f ∈ c.wire.frames, f.turn ≠ some c.past.length := fun f hf hturn => by
    rcases h.turns f hf _ hturn with hlt | ⟨-, hsome⟩
    · exact Nat.lt_irrefl _ hlt
    · exact hsome ht
  have hwritten : c.wire.written c.past.length = [] := by
    simpa [Wire.written, List.filter_eq_nil_iff] using hnone
  refine
    { h with
      turns := fun f hf i hi => (h.turns f hf i hi).imp_right fun hi => ⟨hi.1, by simp⟩
      fits := fun v hv => ?_
      mine := fun v hv hanswered => ?_
      aware := fun v hv f hf hholds => absurd hholds.2.2.1 (hnone f hf)
      handed := fun v hv => ?_ }
  · obtain rfl := Option.some.inj hv
    exact ⟨rfl, rfl, [], nofun, rfl⟩
  · obtain rfl := Option.some.inj hv
    cases hanswered
  · obtain rfl := Option.some.inj hv
    rw [hwritten]
    exact List.Sublist.refl []

theorem steady_cut {e : Event} (ht : c.turn = some t) (h : steady c (.turn e) = true) {f : Frame}
    (hf : f ∈ c.wire.frames) (hholds : c.wire.holds c.past.length f) (he : e = .cancelled) :
    t.exposed = false := by
  subst he
  simp only [steady, ht, Bool.or_eq_true, Bool.not_eq_true', List.all_eq_true, decide_eq_false_iff_not]
    at h
  exact h.resolve_right fun hnone => hnone f hf hholds

theorem separate_init : Separate State.init where
  parted := .nil
  old := .nil
  sockets := nofun
  turns := nofun
  texts := nofun
  ended := nofun
  fits := nofun
  mine := nofun
  aware := nofun
  handed := nofun

theorem separate_step {c' : State} {a : Label} (h : Separate c) (ha : steady c a = true)
    (hstep : step c a c') : Separate c' := by
  cases a with
  | begin =>
    simp only [step, State.step, Option.ite_none_left_eq_some, Option.some.injEq] at hstep
    obtain ⟨hnone, rfl⟩ := hstep
    exact h.begin (by simpa using hnone)
  | turn e =>
    simp only [step, State.step] at hstep
    cases ht : c.turn with
    | none =>
      rw [ht] at hstep
      cases hstep
    | some t =>
      rw [ht] at hstep
      obtain ⟨⟨u, k⟩, hr, rfl⟩ := Option.map_eq_some_iff.1 hstep
      have hreacted := react_cases hr
      cases k with
      | none =>
        refine h.put (fits_react (h.fits t ht) hreacted) (fun hanswered => ?_) (fun f hf hholds => ?_) ?_
        · by_cases hheld : ∃ f ∈ c.wire.frames, c.wire.holds c.past.length f
          · obtain ⟨f, hf, hholds⟩ := hheld
            rw [hholds.1] at hreacted
            obtain ⟨hwas, hcompleted⟩ := answered_react (h.fits t ht) hreacted (h.aware t ht f hf hholds)
              (steady_cut ht ha hf hholds) hanswered
            refine (h.mine t ht hwas).mono (fun _ _ hp => hp) fun g e' hq => ?_
            rwa [Turn.answered_by, hcompleted]
          · exact Answered.of_none fun f hf hholds => hheld ⟨f, hf, hholds⟩
        · exact aware_react hreacted (h.aware t ht f hf hholds) (steady_cut ht ha hf hholds)
        · exact sublist_react (h.handed t ht) (hands_react hreacted)
      | some kind =>
        cases hreacted with
        | @written _ stage hlive hp =>
          have hput : c.put (c.wrote (some kind)) (t.at_stage stage) =
              ⟨c.wire.write (some c.past.length) kind, c.past, some (t.at_stage stage)⟩ := by
            rw [State.put, if_neg]
            · rfl
            · rcases pending_cases hp with ⟨src, s, -, rfl⟩ | ⟨-, -, rfl⟩ | ⟨-, -, rfl⟩ <;> nofun
          rw [hput]
          exact h.write ht hlive hp
  | interrupt =>
    simp only [step, State.step, Option.ite_none_right_eq_some, Option.some.injEq] at hstep
    obtain ⟨-, rfl⟩ := hstep
    exact h.interrupt
  | die =>
    cases hstep
    exact h.rewire rfl (Nat.le_refl _) fun f _ id hholds => by cases hholds.1
  | reopen =>
    simp only [step, State.step, Option.ite_none_left_eq_some, Option.some.injEq] at hstep
    obtain ⟨-, rfl⟩ := hstep
    refine h.rewire rfl (Nat.le_succ _) fun f hf id hholds => ?_
    have hle := h.sockets f hf
    rw [hholds.2.1] at hle
    exact Nat.not_succ_le_self _ hle

end

/-- In a steady run: between two texts of different turns in one session there is the flush of the first
    turn if it was completed, or an abort if it was not; and a turn that is over handed over its texts,
    and after them one flush if it was completed, one abort if it was not and may have sent text. -/
theorem turns_apart {as : List Label} {c : State}
    (h : Run (restrict (fun c a => steady c a = true) step) State.init as c) :
    Parted Frame.of_another (answers c.past) c.wire.frames ∧
    ∀ (i : ℕ) t, c.past[i]? = some t →
      t.handed_is t.closing ∧ List.Sublist (c.wire.written i) t.handed := by
  have hseparate : Separate c :=
    Run.invariant (I := Separate) (fun hs hst => separate_step hs hst.1 hst.2) separate_init h
  exact ⟨hseparate.parted, hseparate.ended⟩

/-! ### A preamble that is cut off -/

/-- A turn is cancelled after its second token, and the next one is completed. -/
def barged_in : List Label :=
  [.begin, .turn (.token "a"), .turn .returned, .turn .written, .turn .returned, .turn (.token "b"),
    .turn .cancelled, .turn .written, .turn .returned, .turn .returned, .turn .returned, .begin,
    .turn (.token "c"), .turn .returned, .turn .written, .turn .returned, .turn .finish, .turn .written,
    .turn .returned, .turn .returned]

theorem turns_apart_barged_in : ∃ c,
    Run (restrict (fun c a => steady c a = true) step) State.init barged_in c ∧
    c.wire.written 0 = [.text "a", .abort] ∧ c.wire.written 1 = [.text "c", .tts_flush] ∧
    Parted Frame.of_another (answers c.past) c.wire.frames ∧
    ∀ (i : ℕ) t, c.past[i]? = some t →
      t.handed_is t.closing ∧ List.Sublist (c.wire.written i) t.handed := by
  obtain ⟨c, hrun, hwritten⟩ := Run.of_replay_any
    (fun c a => if steady c a = true then State.step c a else none) State.init barged_in
    (fun c => decide (c.wire.written 0 = [.text "a", .abort] ∧ c.wire.written 1 = [.text "c", .tts_flush]))
    (by decide +kernel)
  have hrestricted := Run.restrict_mono hrun
  obtain ⟨hfirst, hsecond⟩ := of_decide_eq_true hwritten
  exact ⟨c, hrestricted, hfirst, hsecond, turns_apart hrestricted⟩

/-- A preamble was written when its turn is cancelled, and its send has not returned: there is no abort
    before the text of the next turn. And a turn that sends no text is flushed. -/
theorem preamble_left_over :
    (¬ ∀ as c, Run step State.init as c → Parted Frame.of_another (answers c.past) c.wire.frames) ∧
    ¬ ∀ as c, Run step State.init as c → ∀ t ∈ c.past, (∀ k ∈ t.handed, k.is_text = false) →
      t.handed = [] := by
  refine ⟨fun hall => ?_, fun hall => ?_⟩
  · obtain ⟨c, hrun, hframes⟩ := Run.of_replay_any State.step State.init
      [.begin, .turn (.preamble "a"), .turn .written, .turn .cancelled, .turn .returned, .begin,
        .turn (.token "b"), .turn .returned, .turn .written]
      (fun c => decide (c.wire.frames = [⟨0, some 0, .text "a"⟩, ⟨0, some 1, .text "b"⟩]))
      (by decide +kernel)
    have hsplit : c.wire.frames = [] ++ ⟨0, some 0, .text "a"⟩ :: ([] ++ ⟨0, some 1, .text "b"⟩ :: []) :=
      of_decide_eq_true hframes
    obtain ⟨e, he, -⟩ := hall _ c hrun [] _ [] _ [] hsplit ⟨rfl, rfl, rfl, nofun⟩
    cases he
  · obtain ⟨c, hrun, hhanded⟩ := Run.of_replay_any State.step State.init
      [.begin, .turn .finish, .turn .written, .turn .returned, .turn .returned]
      (fun c => decide (c.past.map Turn.handed = [[.tts_flush]])) (by decide +kernel)
    have hmap : c.past.map Turn.handed = [[.tts_flush]] := of_decide_eq_true hhanded
    obtain ⟨t, ht, hflush⟩ : ∃ t ∈ c.past, t.handed = [.tts_flush] := by
      have hmem : [Kind.tts_flush] ∈ c.past.map Turn.handed := by rw [hmap]; exact List.mem_singleton.2 rfl
      obtain ⟨t, ht, heq⟩ := List.mem_map.1 hmem
      exact ⟨t, ht, heq⟩
    have hempty := hall _ c hrun t ht (by rw [hflush]; simp [Kind.is_text])
    rw [hflush] at hempty
    cases hempty

end LocalVoice.DialogueTurn
