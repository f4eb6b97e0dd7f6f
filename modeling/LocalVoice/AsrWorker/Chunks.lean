import LocalVoice.AsrWorker.MelFiles

/-! What a session of `qwen3_asr_worker.cpp` was sent: its audio, by the lines alone, and the utterance
    from its `begin` on. The audio is cumulative, so the last one that was accepted is all of it. -/

namespace LocalVoice.AsrWorker
open LocalVoice.Lib

/-! ### The audio -/

/-- A mel file by its path, or a pcm. -/
inductive Audio where
  | mel (path : Bytes)
  | pcm (pcmB64 : Bytes)
  deriving DecidableEq

/-- The path that a line carries, if that says anything. -/
def path? (input : Fields) : Option Bytes := (carried_path input).filter (· ≠ [])

/-- The pcm of a line is made into a mel file. -/
def converts (cfg : Config) (env : Env) : Bool := cfg.mel.isSome && env.mel.isOk

/-- The pcm that is to be decoded, once it can be converted, and the audio accepted last. -/
structure Supply where
  offered : Bytes
  accepted : Option Audio

namespace Supply
variable (s : Supply) (cfg : Config) (input : Fields) (env : Env)

/-- The audio of a chunk: a path takes the place of what was sent before, a pcm that of both. -/
def chunk : Supply :=
  let offered := (string? input "pcm_b64").getD (if (path? input).isSome then [] else s.offered)
  { offered := offered
    accepted := if offered ≠ [] && converts cfg env then some (.pcm offered)
      else ((path? input).map .mel).or s.accepted }

/-- The audio at an end, which may carry the last of it. -/
def last : Option Audio :=
  ((string? input "pcm_b64").map .pcm).or (((path? input).map .mel).or s.accepted)

end Supply

/-! ### The lines of a session -/

/-- The object on a line, and what happens while it is handled. -/
def Label.input (parse : Bytes → Except Bytes Json) : Label → Option (Fields × Env)
  | .line bytes env =>
    if bytes = [] then none
    else match parse bytes with
      | .ok (.object input) => some (input, env)
      | _ => none
  | .sweep _ => none

def is_event (input : Fields) (kind : String) (sid : Bytes) : Bool :=
  string? input "event" = some (ascii kind) && value_str input "id" = some sid

/-- An `end`, or a `last` chunk. -/
def closes (input : Fields) (sid : Bytes) : Bool :=
  is_event input "end" sid || (is_event input "chunk" sid && value_bool input "last" = some true)

/-- A label as the session `sid` hears it. -/
def Supply.hear (cfg : Config) (parse : Bytes → Except Bytes Json) (sid : Bytes) (s : Supply)
    (a : Label) : Supply :=
  match a.input parse with
  | some (input, env) => if is_event input "chunk" sid then s.chunk cfg input env else s
  | none => s

/-- What the session heard since its `begin`. -/
def heard (cfg : Config) (parse : Bytes → Except Bytes Json) (sid : Bytes) (as : List Label) : Supply :=
  as.foldl (Supply.hear cfg parse sid) ⟨[], none⟩

theorem heard_concat (cfg : Config) (parse : Bytes → Except Bytes Json) (sid : Bytes) (as : List Label)
    (a : Label) :
    heard cfg parse sid (as ++ [a]) = (heard cfg parse sid as).hear cfg parse sid a := by
  rw [heard, List.foldl_append]
  rfl

/-! ### Lines that fit -/

/-- A chunk that the session takes well. An empty path would forget its audio; a path beside a pcm of an
    earlier chunk would be overwritten, as that pcm is converted again; and a conversion that fails has
    removed the mel file that is to be decoded. -/
def Session.fits_chunk (cfg : Config) (st : Session) (input : Fields) (env : Env) : Prop :=
  (carried_path input = some [] →
    st.melPath = [] ∨ ((st.carry input).pcmB64 ≠ [] ∧ converts cfg env = true)) ∧
  (cfg.mel.isSome = true → (path? input).isSome = true → string? input "pcm_b64" = none →
    st.pcmB64 = []) ∧
  (cfg.mel.isSome = true → (st.carry input).pcmB64 ≠ [] → env.mel.isOk = false →
    st.melPathOwned = [] ∨ (st.carry input).melPath ≠ st.melPathOwned)

instance (cfg : Config) (st : Session) (input : Fields) (env : Env) :
    Decidable (st.fits_chunk cfg input env) :=
  inferInstanceAs (Decidable (_ ∧ _))

/-- An end that the session takes well: the pcm that it carries can be converted, and else it has no
    empty path. -/
def Session.fits_end (cfg : Config) (st : Session) (input : Fields) (env : Env) : Prop :=
  ((string? input "pcm_b64").isSome = true → converts cfg env = true) ∧
  (string? input "pcm_b64" = none → carried_path input = some [] → st.melPath = [])

instance (cfg : Config) (st : Session) (input : Fields) (env : Env) :
    Decidable (st.fits_end cfg input env) :=
  inferInstanceAs (Decidable (_ ∧ _))

/-- A label that `sid` takes well, or that is not for it. -/
def fits (cfg : Config) (parse : Bytes → Except Bytes Json) (sid : Bytes) (w : Worker) (a : Label) :
    Prop :=
  match a.input parse, w.sessions.get? sid with
  | some (input, env), some st =>
    if closes input sid then st.fits_end cfg input env
    else if is_event input "chunk" sid then st.fits_chunk cfg input env
    else True
  | _, _ => True

instance (cfg : Config) (parse : Bytes → Except Bytes Json) (sid : Bytes) (w : Worker) (a : Label) :
    Decidable (fits cfg parse sid w a) := by
  unfold fits
  split
  · split
    · infer_instance
    · split <;> infer_instance
  · infer_instance

/-! ### Utterances -/

/-- The worker runs, and the session is there. -/
def Worker.knows (w : Worker) (sid : Bytes) : Prop :=
  w.aborted = false ∧ (w.sessions.get? sid).isSome = true

instance (w : Worker) (sid : Bytes) : Decidable (w.knows sid) := inferInstanceAs (Decidable (_ ∧ _))

/-- The session `sid` was begun with `beginMeta`, in any state that a run reaches, and is there since;
    meanwhile the worker took the labels `as`, of it and of other sessions. -/
inductive Utterance (cfg : Config) (parse : Bytes → Except Bytes Json) (sid : Bytes) :
    Fields → List Label → Worker → Prop where
  | begins {before : List Label} {w₀ w : Worker} {a : Label} {input : Fields} {env : Env}
      (hbefore : Run (step cfg parse) .init before w₀) (hnew : w₀.sessions.get? sid = none)
      (hinput : a.input parse = some (input, env)) (hstep : step cfg parse w₀ a w)
      (hknows : w.knows sid) : Utterance cfg parse sid (begin_meta input) [] w
  | goes_on {beginMeta : Fields} {as : List Label} {w w' : Worker} {a : Label}
      (h : Utterance cfg parse sid beginMeta as w) (hfits : fits cfg parse sid w a)
      (hstep : step cfg parse w a w') (hknows : w'.knows sid) :
      Utterance cfg parse sid beginMeta (as ++ [a]) w'

/-- What can be replayed while the session is there prolongs the utterance. -/
theorem Utterance.of_replay {cfg : Config} {parse : Bytes → Except Bytes Json} {sid : Bytes}
    {beginMeta : Fields} {as bs : List Label} {w w' : Worker} (h : Utterance cfg parse sid beginMeta as w)
    (hreplay : replay (fun w a => if fits cfg parse sid w a then
      (w.next cfg parse a).filter fun w => w.knows sid else none) w bs = some w') :
    Utterance cfg parse sid beginMeta (as ++ bs) w' := by
  induction bs generalizing as w with
  | nil =>
    obtain rfl := Option.some.inj hreplay
    rwa [List.append_nil]
  | cons a bs ih =>
    obtain ⟨w₁, hfirst, hrest⟩ := Option.bind_eq_some_iff.1 hreplay
    dsimp only at hfirst
    split at hfirst
    · next hfits =>
      obtain ⟨hstep, hknows⟩ := Option.filter_eq_some_iff.1 hfirst
      have hnext := ih (h.goes_on hfits hstep (of_decide_eq_true hknows)) hrest
      rwa [List.append_assoc] at hnext
    · cases hfirst

/-! What a session of `qwen3_asr_worker.cpp` is set to decode. A chunk that fits sets it to the audio that
    it heard last, whether the hop fails or not; the lines of other sessions, repeated begins and the
    sweep leave it alone. -/

/-- A session is set to decode what it heard. -/
structure Meets (cfg : Config) (files : Dict Bytes Bytes) (st : Session) (s : Supply) : Prop where
  offered : cfg.mel.isSome = true → st.pcmB64 = s.offered
  nothing : s.accepted = none → st.melPath = []
  mel : ∀ path, s.accepted = some (.mel path) → path ≠ [] ∧ st.melPath = path
  pcm : ∀ b, s.accepted = some (.pcm b) → st.melPath ≠ [] ∧ st.melPath = st.melPathOwned ∧
    ∃ extract, cfg.mel = some extract ∧ files.get? st.melPath = some (extract b)

namespace Meets
variable {cfg : Config} {files files' : Dict Bytes Bytes} {st st' : Session} {s : Supply} {input : Fields}

/-- Only the audio fields count, and the file of the session. -/
theorem same (h : Meets cfg files st s) (hpath : st'.melPath = st.melPath)
    (howned : st'.melPathOwned = st.melPathOwned) (hpcm : st'.pcmB64 = st.pcmB64)
    (hfiles : st.melPathOwned ≠ [] → files'.get? st.melPathOwned = files.get? st.melPathOwned) :
    Meets cfg files' st' s where
  offered := fun hmel => hpcm.trans (h.offered hmel)
  nothing := fun hs => hpath.trans (h.nothing hs)
  mel := fun path hs => ⟨(h.mel path hs).1, hpath.trans (h.mel path hs).2⟩
  pcm := fun b hs => by
    obtain ⟨hne, heq, extract, hmel, hget⟩ := h.pcm b hs
    rw [hpath, howned]
    refine ⟨hne, heq, extract, hmel, ?_⟩
    rw [heq] at hne hget ⊢
    rw [hfiles hne, hget]

/-- A session that was just begun. -/
theorem fresh (files : Dict Bytes Bytes) (h : st.melPath = []) (h' : st.pcmB64 = []) :
    Meets cfg files st ⟨[], none⟩ where
  offered := fun _ => h'
  nothing := fun _ => h
  mel := fun _ hs => by cases hs
  pcm := fun _ hs => by cases hs

theorem path?_some {path : Bytes} (h : path? input = some path) :
    carried_path input = some path ∧ path ≠ [] := by
  obtain ⟨hsome, hne⟩ := Option.filter_eq_some_iff.1 h
  exact ⟨hsome, by simpa using hne⟩

theorem path?_none (h : path? input = none) : carried_path input = none ∨ carried_path input = some [] := by
  cases hpath : carried_path input with
  | none => exact .inl rfl
  | some path =>
    rw [path?, hpath] at h
    cases path with
    | nil => exact .inr rfl
    | cons b rest => simp [Option.filter] at h

/-- The path that a line carries is decoded next. -/
theorem carry_path (h : Meets cfg files st s) (hempty : carried_path input = some [] → st.melPath = []) :
    Meets cfg files (st.carry input) ⟨(st.carry input).pcmB64, ((path? input).map .mel).or s.accepted⟩ := by
  cases hpath : path? input with
  | some path =>
    obtain ⟨hcarried, hne⟩ := path?_some hpath
    refine ⟨fun _ => rfl, fun hs => by simp at hs, fun path' hs => ?_, fun b hs => by simp at hs⟩
    obtain rfl := Audio.mel.inj (Option.some.inj hs)
    exact ⟨hne, by simp [Session.carry, hcarried]⟩
  | none =>
    have hsame : (st.carry input).melPath = st.melPath := by
      rcases path?_none hpath with hcarried | hcarried
      · simp [Session.carry, hcarried]
      · simp [Session.carry, hcarried, hempty hcarried]
    refine ⟨fun _ => rfl, fun hs => hsame.trans (h.nothing hs), fun path hs => ?_, fun b hs => ?_⟩
    · exact ⟨(h.mel path hs).1, hsame.trans (h.mel path hs).2⟩
    · rw [hsame]
      exact h.pcm b hs

/-- The pcm that a chunk leaves is the one that is to be decoded. -/
theorem carry_offered (h : Meets cfg files st s) (hmel : cfg.mel.isSome = true)
    (hfits : cfg.mel.isSome = true → (path? input).isSome = true → string? input "pcm_b64" = none →
      st.pcmB64 = []) (env : Env) :
    (st.carry input).pcmB64 = (s.chunk cfg input env).offered := by
  cases hpcm : string? input "pcm_b64" with
  | some b => simp [Session.carry, Supply.chunk, hpcm]
  | none =>
    simp only [Session.carry, Supply.chunk, hpcm, Option.getD_none]
    split
    · next hpath => exact hfits hmel hpath hpcm
    · exact h.offered hmel

end Meets

namespace Worker
variable {cfg : Config} {w w' : Worker} {sid : Bytes} {st : Session} {s : Supply} {input : Fields}
  {env : Env}

theorem print_files {ev : Event} (h : w.print ev = some w') : w'.files = w.files := by
  unfold print at h
  split at h
  · obtain rfl := Option.some.inj h
    rfl
  · cases h

/-- The pcm of a chunk is decoded next, if it can be converted. -/
theorem hop_pcm_meets (hm : Meets cfg w.files st s) (hfits : st.fits_chunk cfg input env) (now : ℕ) :
    Meets cfg (w.hop_pcm cfg sid ((st.carry input).touch now) env).1.files
        (w.hop_pcm cfg sid ((st.carry input).touch now) env).2.1 (s.chunk cfg input env) ∧
      (w.hop_pcm cfg sid ((st.carry input).touch now) env).2.1.beginMeta = st.beginMeta := by
  obtain ⟨hempty, hold, hfail⟩ := hfits
  -- what is decoded when nothing is converted
  have hkeep : (((st.carry input).pcmB64 ≠ [] ∧ converts cfg env = true) → False) →
      Meets cfg w.files ((st.carry input).touch now) (s.chunk cfg input env) := by
    intro hno
    have hcarry := hm.carry_path fun hnil => (hempty hnil).resolve_right hno
    have haccepted : (s.chunk cfg input env).accepted = ((path? input).map .mel).or s.accepted := by
      refine if_neg fun hconv => ?_
      simp only [Bool.and_eq_true, decide_eq_true_eq] at hconv
      obtain ⟨hne, hconv⟩ := hconv
      have hmel : cfg.mel.isSome = true := (Bool.and_eq_true _ _ ▸ hconv).1
      exact hno ⟨(hm.carry_offered hmel hold env).trans_ne hne, hconv⟩
    refine ⟨fun hmel => hm.carry_offered hmel hold env, fun hs => ?_, fun path hs => ?_, fun b hs => ?_⟩
    · exact hcarry.nothing (haccepted.symm.trans hs)
    · exact hcarry.mel path (haccepted.symm.trans hs)
    · exact hcarry.pcm b (haccepted.symm.trans hs)
  unfold hop_pcm
  split
  · next hnil => exact ⟨hkeep fun hno => hno.1 hnil, rfl⟩
  · next hne =>
    split
    · next hmel =>
      refine ⟨hkeep fun hno => ?_, rfl⟩
      simp [converts, hmel] at hno
    · next extract hmel =>
      have hsome : cfg.mel.isSome = true := by rw [hmel]; rfl
      have hoffered := hm.carry_offered hsome hold env
      dsimp only
      split
      · next elapsed hok =>
        have hconv : converts cfg env = true := by simp [converts, hmel, hok, Except.isOk, Except.toBool]
        have haccepted : (s.chunk cfg input env).accepted = some (.pcm (s.chunk cfg input env).offered) := by
          have hne' : (s.chunk cfg input env).offered ≠ [] := hoffered.symm.trans_ne hne
          refine if_pos ?_
          rw [hconv, Bool.and_true, decide_eq_true_eq]
          exact hne'
        refine ⟨⟨fun _ => hoffered, fun hs => ?_, fun path hs => ?_, fun b hs => ?_⟩, rfl⟩
        · rw [haccepted] at hs
          cases hs
        · rw [haccepted] at hs
          cases hs
        · obtain rfl := Audio.pcm.inj (Option.some.inj (haccepted.symm.trans hs))
          refine ⟨mel_file_ne_nil _ _ _, rfl, extract, hmel, ?_⟩
          rw [← hoffered]
          simp [write_mel, Session.touch]
      · next what herr =>
        have hconv : converts cfg env = false := by
          simp [converts, herr, Except.isOk, Except.toBool]
        have hkept := hkeep fun hno => by rw [hconv] at hno; cases hno.2
        refine ⟨⟨hkept.offered, hkept.nothing, hkept.mel, fun b hs => ?_⟩, rfl⟩
        obtain ⟨hpath, heq, -⟩ := hkept.pcm b hs
        rcases hfail hsome hne (by rw [herr]; rfl) with hnil | hdiff
        · exact (hpath (heq.trans hnil)).elim
        · exact (hdiff heq).elim

/-- A chunk that fits, and is not the last. -/
theorem chunk_meets (hid : value_str input "id" = some sid) (hget : w.sessions.get? sid = some st)
    (hlast : value_bool input "last" ≠ some true) (hm : Meets cfg w.files st s)
    (hfits : st.fits_chunk cfg input env) (h : w.handleChunk cfg input env = some w') :
    ∃ st', w'.sessions.get? sid = some st' ∧ Meets cfg w'.files st' (s.chunk cfg input env) ∧
      st'.beginMeta = st.beginMeta := by
  simp only [handleChunk, hid, hget, Option.bind_eq_bind, Option.bind_some] at h
  obtain ⟨isLast, hisLast, h⟩ := Option.bind_eq_some_iff.1 h
  have hnot : isLast = false := by
    cases isLast with
    | true => exact (hlast hisLast).elim
    | false => rfl
  have hpcm := @hop_pcm_meets cfg (w.put sid ((st.carry input).touch env.now)) sid st s input env hm hfits
    env.now
  rw [hnot, if_neg Bool.false_ne_true] at h
  split at h
  · next w₁ st₁ failed heq =>
    rw [heq] at hpcm
    refine ⟨st₁, ?_, ?_, hpcm.2⟩
    · rw [print_sessions h, put, Dict.get?_set, if_pos rfl]
    · rw [print_files h]
      exact hpcm.1
  · next w₁ st₁ heq =>
    rw [heq] at hpcm
    obtain ⟨⟨st₂, ev⟩, hhop, h⟩ := Option.bind_eq_some_iff.1 h
    obtain ⟨rawDecoded, chunkId, rfl⟩ := hop_keeps hhop
    refine ⟨{ st₁ with rawDecoded := rawDecoded, chunkId := chunkId }, ?_, ?_, hpcm.2⟩
    · rw [print_sessions h, put, Dict.get?_set, if_pos rfl]
    · rw [print_files h]
      exact hpcm.1.same rfl rfl rfl fun _ => rfl

/-- What another session does leaves this one alone. -/
theorem others_meet {sid' own' : Bytes} (howned : Owned cfg w) (hne : sid ≠ sid')
    (htouch : Touches cfg sid' (w.owned sid') w own' w') (hget : w.sessions.get? sid = some st)
    (hm : Meets cfg w.files st s) :
    w'.sessions.get? sid = some st ∧ Meets cfg w'.files st s := by
  refine ⟨(htouch.others sid hne).trans hget, hm.same rfl rfl rfl fun hown => ?_⟩
  refine htouch.files _ (fun heq => hown ?_) (howned.not_fresh hget)
  cases hget' : w.sessions.get? sid' with
  | none => simpa [owned, hget'] using heq
  | some st' => exact howned.apart sid sid' st st' hne hget hget' (heq.trans (owned_of_get hget'))

/-- A repeated `begin` is acknowledged. -/
theorem begin_meets (hid : value_str input "id" = some sid) (hget : w.sessions.get? sid = some st)
    (hm : Meets cfg w.files st s) (h : w.handleBegin cfg input env = some w') :
    ∃ st', w'.sessions.get? sid = some st' ∧ Meets cfg w'.files st' s ∧ st'.beginMeta = st.beginMeta := by
  simp only [handleBegin, hid, hget, Option.bind_eq_bind, Option.bind_some] at h
  split at h
  · refine ⟨st, by rw [print_sessions h, hget], ?_, rfl⟩
    rw [print_files h]
    exact hm
  · refine ⟨st.touch env.now, by rw [print_sessions h, put, Dict.get?_set, if_pos rfl], ?_, rfl⟩
    rw [print_files h]
    exact hm.same rfl rfl rfl fun _ => rfl

/-- The sweep leaves a session alone that it does not reap. -/
theorem sweep_meets {now : ℕ} (howned : Owned cfg w) (hget : w.sessions.get? sid = some st)
    (hm : Meets cfg w.files st s) (h : w.sweep now = some w') (hknown : (w'.sessions.get? sid).isSome = true) :
    w'.sessions.get? sid = some st ∧ Meets cfg w'.files st s := by
  obtain ⟨-, hgone, hold, hfiles⟩ := sweep_spec h
  obtain ⟨st', hget'⟩ := Option.isSome_iff_exists.1 hknown
  obtain rfl := Option.some.inj ((hold sid st' hget').symm.trans hget)
  refine ⟨hget', hm.same rfl rfl rfl fun hown => hfiles _ fun e he heq => ?_⟩
  have hin : (e.1, e.2) ∈ w.sessions.items := (List.mem_filter.1 he).1
  have hne : e.1 ≠ sid := by
    rintro rfl
    rw [hgone e he] at hget'
    cases hget'
  exact hown (heq.symm.trans (howned.apart e.1 sid e.2 st' hne (Dict.mem_items.1 hin) hget heq))

end Worker

end LocalVoice.AsrWorker
