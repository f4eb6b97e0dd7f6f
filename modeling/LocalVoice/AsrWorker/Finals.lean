import LocalVoice.AsrWorker.Chunks

/-! The final of an utterance. While every line fits, a session is set to decode what it heard last, so
    its `final` is what a one-shot request for that audio gives. Where lines do not fit, it can be that
    of a pcm from before the last path, or of a mel file that a failed conversion has removed. -/

namespace LocalVoice.AsrWorker
open LocalVoice.Lib

/-- A one-shot request that names `path` is for the audio, where the engine reads `disk`: these are the
    files of the worker, but for those of the session itself. -/
def Audio.served (cfg : Config) (w : Worker) (env : Env) (sid path : Bytes) (disk : Disk) : Audio → Prop
  | .mel given => path = given ∧ disk = w.readable env.disk
  | .pcm b => (∃ extract, cfg.mel = some extract ∧ disk path = some (extract b)) ∧
      ∀ p, p ≠ path → p ≠ w.owned sid → disk p = w.readable env.disk p

/-- The final event of a session is that of a one-shot request for the audio, in the envelope of its
    `begin`; without audio there is nothing to decode. -/
def OneShot (cfg : Config) (w : Worker) (env : Env) (sid : Bytes) (beginMeta : Fields) :
    Option Audio → Event → Prop
  | none, ev => ev = .no_audio_accumulated sid
  | some audio, ev => ∃ path disk, audio.served cfg w env sid path disk ∧
      ev = Worker.final_of sid (runOneShotCore (one_shot_request sid beginMeta path) env.engine disk)

theorem OneShot.same {cfg : Config} {w w' : Worker} {env : Env} {sid : Bytes} {beginMeta : Fields}
    {audio : Option Audio} {ev : Event} (h : OneShot cfg w env sid beginMeta audio ev)
    (hfiles : w.files = w'.files) (howned : w.owned sid = w'.owned sid) :
    OneShot cfg w' env sid beginMeta audio ev := by
  have hread : w.readable env.disk = w'.readable env.disk := by
    funext path
    simp only [Worker.readable, hfiles]
  cases audio with
  | none => exact h
  | some audio =>
    obtain ⟨path, disk, hserved, rfl⟩ := h
    refine ⟨path, disk, ?_, rfl⟩
    cases audio with
    | mel given => exact ⟨hserved.1, hserved.2.trans hread⟩
    | pcm b =>
      refine ⟨hserved.1, fun p hp hp' => ?_⟩
      rw [hserved.2 p hp (howned ▸ hp'), hread]

/-- The session is dropped and the event printed, or else the process ends on a text that is no UTF-8. -/
def Worker.ends_with (w w' : Worker) (sid : Bytes) (ev : Event) : Prop :=
  if ev.dumps = true then
    w'.events = w.events ++ [(some w.lines, ev)] ∧ w'.sessions.get? sid = none ∧ w'.aborted = false
  else w' = { w with aborted := true }

namespace Worker
variable {cfg : Config} {parse : Bytes → Except Bytes Json} {w w' : Worker} {sid : Bytes} {st : Session}
  {s : Supply} {input : Fields} {env : Env}

theorem string?_lookup {key : String} {value : Bytes} (h : string? input key = some value) :
    input.lookup (ascii key) = some (.str value) := by
  unfold string? at h
  split at h
  · next heq =>
    obtain rfl := Option.some.inj h
    exact heq
  · cases h

/-- The handler that is called. -/
theorem handle_event {kind : String} (h : string? input "event" = some (ascii kind)) :
    w.handle cfg (.object input) env =
      (if ascii kind = ascii "begin" then w.handleBegin cfg input env
      else if ascii kind = ascii "chunk" then w.handleChunk cfg input env
      else if ascii kind = ascii "end" then w.handleEnd cfg input env
      else (value_str input "id").bind fun evId => w.print (.unknown_event (ascii kind) evId)) := by
  have hlookup := string?_lookup h
  simp [handle, value_str, hlookup]

theorem input_line {a : Label} (h : a.input parse = some (input, env)) :
    ∃ line, a = .line line env ∧ line ≠ [] ∧ parse line = .ok (.object input) := by
  unfold Label.input at h
  split at h
  · next line env' =>
    split at h
    · cases h
    · next hne =>
      split at h
      · next input' hparse =>
        obtain ⟨rfl, rfl⟩ := Prod.mk.inj (Option.some.inj h)
        exact ⟨line, rfl, hne, hparse⟩
      · cases h
  · cases h

theorem is_event_iff {kind : String} :
    is_event input kind sid = true ↔
      string? input "event" = some (ascii kind) ∧ value_str input "id" = some sid := by
  simp [is_event]

/-- What the session heard changes with its chunks only. -/
theorem hear_other {a : Label}
    (h : ∀ input env, a.input parse = some (input, env) → is_event input "chunk" sid = false) :
    s.hear cfg parse sid a = s := by
  unfold Supply.hear
  split
  · next input env hinput => rw [if_neg (by rw [h input env hinput]; exact Bool.false_ne_true)]
  · rfl

/-- The last chunk is an `end`, of a session that has its audio. -/
theorem chunk_last (hid : value_str input "id" = some sid) (hget : w.sessions.get? sid = some st)
    (hlast : value_bool input "last" = some true) :
    w.handleChunk cfg input env =
      (w.put sid ((st.carry input).touch env.now)).handleEnd cfg input env := by
  simp [handleChunk, hid, hget, hlast]

/-- A line of the session, or of another, in a worker that knows the session before and after it. -/
theorem handled_meets (howned : Owned cfg w) (hget : w.sessions.get? sid = some st)
    (hm : Meets cfg w.files st s) {line : Bytes} (hline : line ≠ [])
    (hfits : fits cfg parse sid w (.line line env)) (h : Handled cfg w env (parse line) w')
    (hknown : (w'.sessions.get? sid).isSome = true) :
    ∃ st', w'.sessions.get? sid = some st' ∧
      Meets cfg w'.files st' (s.hear cfg parse sid (.line line env)) ∧ st'.beginMeta = st.beginMeta := by
  have hinput : ∀ input, parse line = .ok (.object input) →
      (Label.line line env).input parse = some (input, env) := by
    intro input hparse
    simp only [Label.input, if_neg hline, hparse]
  have hquiet : (∀ input, parse line = .ok (.object input) → is_event input "chunk" sid = false) →
      s.hear cfg parse sid (.line line env) = s := by
    intro hno
    refine hear_other fun input' env' hin => ?_
    obtain ⟨line', heq, -, hparse⟩ := input_line hin
    obtain ⟨rfl, rfl⟩ := Label.line.inj heq
    exact hno input' hparse
  cases h with
  | printed ev h hkind =>
    rw [hquiet fun input hparse => ?_]
    · exact ⟨st, by rw [print_sessions h, hget], by rw [print_files h]; exact hm, rfl⟩
    · have hno := hkind input hparse "chunk" (by simp)
      simp [is_event, hno]
  | begins input hparsed hkind h =>
    rw [hquiet fun input' hparse => ?_]
    · have hid := h
      unfold handleBegin at hid
      obtain ⟨sid', hid, -⟩ := Option.bind_eq_some_iff.1 hid
      by_cases hsid : sid = sid'
      · subst hsid
        exact begin_meets hid hget hm h
      · obtain ⟨hget', hm'⟩ := others_meet howned hsid (begin_touches hid h).1 hget hm
        exact ⟨st, hget', hm', rfl⟩
    · obtain rfl := Json.object.inj (Except.ok.inj (hparsed.symm.trans hparse))
      have hne : ascii "begin" ≠ ascii "chunk" := by decide
      simp [is_event, hkind, hne]
  | chunk input hparsed hkind h =>
    have hid := h
    unfold handleChunk at hid
    obtain ⟨sid', hid, -⟩ := Option.bind_eq_some_iff.1 hid
    by_cases hsid : sid = sid'
    · subst hsid
      have hchunk : is_event input "chunk" sid = true := is_event_iff.2 ⟨hkind, hid⟩
      have hlast : value_bool input "last" ≠ some true := by
        intro hlast
        rw [chunk_last hid hget hlast] at h
        simp [(end_touches hid h).2] at hknown
      have hcloses : closes input sid = false := by
        have hne : ascii "chunk" ≠ ascii "end" := by decide
        simp [closes, is_event, hkind, hne, hlast]
      have hfits' : st.fits_chunk cfg input env := by
        simpa [fits, hinput input hparsed, hget, hcloses, hchunk] using hfits
      have hhear : s.hear cfg parse sid (.line line env) = s.chunk cfg input env := by
        simp [Supply.hear, hinput input hparsed, hchunk]
      rw [hhear]
      exact chunk_meets hid hget hlast hm hfits' h
    · rw [hquiet fun input' hparse => ?_]
      · obtain ⟨own', htouch, -⟩ := chunk_touches hid h
        obtain ⟨hget', hm'⟩ := others_meet howned hsid htouch hget hm
        exact ⟨st, hget', hm', rfl⟩
      · obtain rfl := Json.object.inj (Except.ok.inj (hparsed.symm.trans hparse))
        simp [is_event, hid, Ne.symm hsid]
  | ends input hparsed hkind h =>
    have hid := h
    unfold handleEnd at hid
    obtain ⟨sid', hid, -⟩ := Option.bind_eq_some_iff.1 hid
    obtain ⟨⟨own', htouch⟩, hgone⟩ := end_touches hid h
    have hsid : sid ≠ sid' := by
      rintro rfl
      simp [hgone] at hknown
    rw [hquiet fun input' hparse => ?_]
    · obtain ⟨hget', hm'⟩ := others_meet howned hsid htouch hget hm
      exact ⟨st, hget', hm', rfl⟩
    · obtain rfl := Json.object.inj (Except.ok.inj (hparsed.symm.trans hparse))
      simp [is_event, hid, Ne.symm hsid]

/-- Only `begin` makes a session. -/
theorem handled_new (hnew : w.sessions.get? sid = none) (h : Handled cfg w env (.ok (.object input)) w')
    (hknown : (w'.sessions.get? sid).isSome = true) :
    ∃ st, w'.sessions.get? sid = some st ∧ Meets cfg w'.files st ⟨[], none⟩ ∧
      st.beginMeta = begin_meta input := by
  have hnone : w'.sessions.get? sid ≠ none := Option.isSome_iff_ne_none.1 hknown
  cases h with
  | printed ev h _ => exact (hnone (by rw [print_sessions h, hnew])).elim
  | begins input' hparsed _ h =>
    obtain rfl := Json.object.inj (Except.ok.inj hparsed)
    have hid := h
    unfold handleBegin at hid
    obtain ⟨sid', hid, -⟩ := Option.bind_eq_some_iff.1 hid
    by_cases hsid : sid = sid'
    · subst hsid
      simp only [handleBegin, hid, hnew, Option.bind_eq_bind, Option.bind_some] at h
      split at h
      · exact (hnone (by rw [print_sessions h, hnew])).elim
      · split at h
        · exact (hnone (by rw [print_sessions h, hnew])).elim
        · refine ⟨_, by rw [print_sessions h, emplace, Dict.get?_set, if_pos rfl], .fresh _ rfl rfl, rfl⟩
    · exact (hnone (((begin_touches hid h).1.others sid hsid).trans hnew)).elim
  | chunk input' _ _ h =>
    have hid := h
    unfold handleChunk at hid
    obtain ⟨sid', hid, -⟩ := Option.bind_eq_some_iff.1 hid
    by_cases hsid : sid = sid'
    · subst hsid
      simp only [handleChunk, hid, hnew, Option.bind_eq_bind, Option.bind_some] at h
      exact (hnone (by rw [print_sessions h, hnew])).elim
    · obtain ⟨own', htouch, -⟩ := chunk_touches hid h
      exact (hnone ((htouch.others sid hsid).trans hnew)).elim
  | ends input' _ _ h =>
    have hid := h
    unfold handleEnd at hid
    obtain ⟨sid', hid, -⟩ := Option.bind_eq_some_iff.1 hid
    obtain ⟨⟨own', htouch⟩, hgone⟩ := end_touches hid h
    by_cases hsid : sid = sid'
    · subst hsid
      exact (hnone hgone).elim
    · exact (hnone ((htouch.others sid hsid).trans hnew)).elim

theorem final_event_eq (hcfg : cfg.prefix_path = true → cfg.final_one_shot = true)
    (hne : st.melPath ≠ []) :
    w.final_event cfg sid st env = some (final_of sid
      (runOneShotCore (one_shot_request sid st.beginMeta st.melPath) env.engine (w.readable env.disk))) := by
  have hpath : (cfg.prefix_path && !cfg.final_one_shot) = false := by
    cases hprefix : cfg.prefix_path with
    | false => rfl
    | true => simp [hcfg hprefix]
  rw [final_event, if_neg hne, hpath, if_neg Bool.false_ne_true]
  rfl

/-- An end that fits, of a session that may have its audio already. -/
theorem end_final (hcfg : cfg.prefix_path = true → cfg.final_one_shot = true)
    (hid : value_str input "id" = some sid) (hget : w.sessions.get? sid = some st) {st₀ : Session}
    (now : ℕ) (hcarry : st.carry input = (st₀.carry input).touch now) (hm : Meets cfg w.files st₀ s)
    (hfits : st₀.fits_end cfg input env) :
    ∃ (ev : Event) (w₁ : Worker), w.handleEnd cfg input env = w₁.print ev ∧
      OneShot cfg w env sid st₀.beginMeta (s.last input) ev ∧ w₁.events = w.events ∧
      w₁.lines = w.lines ∧ w₁.aborted = w.aborted ∧ w₁.sessions.get? sid = none := by
  have hmeta : (st.carry input).beginMeta = st₀.beginMeta := by rw [hcarry]; rfl
  cases hpcm : string? input "pcm_b64" with
  | some b =>
    have hconv := hfits.1 (by rw [hpcm]; rfl)
    obtain ⟨hmel, hok⟩ := Bool.and_eq_true_iff.1 hconv
    obtain ⟨extract, hmel⟩ := Option.isSome_iff_exists.1 hmel
    cases henv : env.mel with
    | error what => simp [henv, Except.isOk, Except.toBool] at hok
    | ok elapsed =>
      have hlast : s.last input = some (.pcm b) := by simp [Supply.last, hpcm]
      have hb : (st.carry input).pcmB64 = b := by simp [Session.carry, hpcm]
      have hown : (st.carry input).melPathOwned = w.owned sid := (owned_of_get hget).symm
      rw [hlast]
      simp only [handleEnd, hid, hget, hpcm, end_pcm, hmel, henv, Option.bind_eq_bind, Option.bind_some,
        Option.isSome_some, if_true, Option.none_or]
      rw [final_event_eq hcfg (mel_file_ne_nil _ _ _), Option.bind_some]
      refine ⟨_, _, rfl, ⟨_, _, ⟨⟨extract, hmel, ?_⟩, fun p hp hp' => ?_⟩, by rw [hmeta]⟩, rfl, rfl, rfl, ?_⟩
      · simp [readable, write_mel, hb]
      · rw [← hown] at hp'
        have hp : p ≠ mel_file cfg sid (w.ticks + elapsed + 1) := hp
        simp [readable, write_mel, remove, hp, hp']
      · simp [drop]
  | none =>
    have hlast : s.last input = ((path? input).map .mel).or s.accepted := by simp [Supply.last, hpcm]
    have hcarried := hm.carry_path (hfits.2 hpcm)
    have hpath : (st.carry input).melPath = (st₀.carry input).melPath := by rw [hcarry]; rfl
    rw [hlast]
    simp only [handleEnd, hid, hget, hpcm, end_pcm, Option.bind_eq_bind, Option.bind_some,
      Option.isSome_none, Bool.false_eq_true, if_false, Option.none_or]
    cases haudio : ((path? input).map .mel).or s.accepted with
    | none =>
      have hnil : (st.carry input).melPath = [] := hpath.trans (hcarried.nothing haudio)
      rw [final_event, if_pos hnil, Option.bind_some]
      refine ⟨_, _, rfl, rfl, rfl, rfl, rfl, ?_⟩
      simp [drop]
    | some audio =>
      have hserved : ∃ path, (st.carry input).melPath = path ∧ path ≠ [] ∧
          audio.served cfg w env sid path (w.readable env.disk) := by
        refine ⟨_, hpath, ?_⟩
        cases audio with
        | mel given =>
          obtain ⟨hne, heq⟩ := hcarried.mel given haudio
          exact ⟨heq.trans_ne hne, heq, rfl⟩
        | pcm b =>
          obtain ⟨hne, -, extract, hmel, hfile⟩ := hcarried.pcm b haudio
          exact ⟨hne, ⟨extract, hmel, by simp [readable, hfile]⟩, fun _ _ _ => rfl⟩
      obtain ⟨path, rfl, hne, hserved⟩ := hserved
      rw [final_event_eq hcfg hne, Option.bind_some]
      refine ⟨_, _, rfl, ⟨_, _, hserved, by rw [hmeta]⟩, rfl, rfl, rfl, ?_⟩
      simp [drop]

end Worker

section
variable {cfg : Config} {parse : Bytes → Except Bytes Json} {sid : Bytes} {beginMeta : Fields}
  {as : List Label} {w w' : Worker} {a : Label} {st : Session} {s : Supply}

/-- A step of a worker that still runs after it. -/
theorem step_cases (hstep : step cfg parse w a w') (halive : w'.aborted = false) :
    w.aborted = false ∧
      ((∃ env, a = .line [] env ∧ w' = w) ∨
        (∃ line env w₁, a = .line line env ∧ line ≠ [] ∧ Worker.Handled cfg w env (parse line) w₁ ∧
          w' = { w₁ with lines := w₁.lines + 1 }) ∨
        ∃ now, a = .sweep now ∧ w.sweep now = some w') := by
  unfold step at hstep
  cases a with
  | line line env =>
    simp only [Worker.next] at hstep
    split at hstep
    · cases hstep
    · next hrun =>
      refine ⟨by simpa using hrun, ?_⟩
      split at hstep
      · next hnil =>
        subst hnil
        exact .inl ⟨env, rfl, (Option.some.inj hstep).symm⟩
      · next hne =>
        obtain rfl := Option.some.inj hstep
        cases hline : w.handle_line cfg parse line env with
        | none => simp [hline] at halive
        | some w₁ => exact .inr (.inl ⟨line, env, w₁, rfl, hne, Worker.handled_of hline, rfl⟩)
  | sweep now =>
    simp only [Worker.next] at hstep
    split at hstep
    · cases hstep
    · next hrun =>
      refine ⟨by simpa using hrun, .inr (.inr ⟨now, rfl, ?_⟩)⟩
      obtain rfl := Option.some.inj hstep
      cases hsweep : w.sweep now with
      | none => simp [hsweep] at halive
      | some w₁ => rfl

/-- A step that fits. -/
theorem step_meets (howned : Owned cfg w) (hget : w.sessions.get? sid = some st)
    (hm : Meets cfg w.files st s) (hfits : fits cfg parse sid w a) (hstep : step cfg parse w a w')
    (hknows : w'.knows sid) :
    ∃ st', w'.sessions.get? sid = some st' ∧ Meets cfg w'.files st' (s.hear cfg parse sid a) ∧
      st'.beginMeta = st.beginMeta := by
  rcases (step_cases hstep hknows.1).2 with ⟨env, rfl, rfl⟩ | ⟨line, env, w₁, rfl, hne, hline, rfl⟩ |
    ⟨now, rfl, hsweep⟩
  · exact ⟨st, hget, hm, rfl⟩
  · obtain ⟨st', hst⟩ := Worker.handled_meets howned hget hm hne hfits hline hknows.2
    exact ⟨st', hst⟩
  · obtain ⟨hget', hm'⟩ := Worker.sweep_meets howned hget hm hsweep hknows.2
    exact ⟨st, hget', hm', rfl⟩

/-- A session that was not there has just begun. -/
theorem begins_meets {w₀ : Worker} {input : Fields} {env : Env} (hnew : w₀.sessions.get? sid = none)
    (hinput : a.input parse = some (input, env)) (hstep : step cfg parse w₀ a w) (hknows : w.knows sid) :
    ∃ st, w.sessions.get? sid = some st ∧ Meets cfg w.files st ⟨[], none⟩ ∧
      st.beginMeta = begin_meta input := by
  obtain ⟨line, rfl, hne, hparse⟩ := Worker.input_line hinput
  rcases (step_cases hstep hknows.1).2 with ⟨env', heq, rfl⟩ | ⟨line', env', w₁, heq, -, hline, rfl⟩ |
    ⟨now, heq, -⟩
  · exact (hne (Label.line.inj heq).1).elim
  · obtain ⟨rfl, rfl⟩ := Label.line.inj heq
    rw [hparse] at hline
    obtain ⟨st, hst⟩ := Worker.handled_new hnew hline hknows.2
    exact ⟨st, hst⟩
  · cases heq

/-- All along an utterance. -/
theorem utterance_meets (h : Utterance cfg parse sid beginMeta as w) :
    Owned cfg w ∧ ∃ st, w.sessions.get? sid = some st ∧
      Meets cfg w.files st (heard cfg parse sid as) ∧ st.beginMeta = beginMeta := by
  induction h with
  | begins hbefore hnew hinput hstep hknows =>
    exact ⟨(Owned.reached hbefore).step hstep, begins_meets hnew hinput hstep hknows⟩
  | goes_on _ hfits hstep hknows ih =>
    obtain ⟨howned, st, hget, hm, hmeta⟩ := ih
    obtain ⟨st', hget', hm', hmeta'⟩ := step_meets howned hget hm hfits hstep hknows
    refine ⟨howned.step hstep, st', hget', ?_, hmeta'.trans hmeta⟩
    rw [heard_concat]
    exact hm'

/-- What is printed last, and by whom. -/
theorem ends_with_print {w₁ : Worker} {ev : Event} (hevents : w₁.events = w.events)
    (hlines : w₁.lines = w.lines) (haborted : w₁.aborted = false)
    (hgone : w₁.sessions.get? sid = none)
    (h : w' = ((w₁.print ev).map fun w => { w with lines := w.lines + 1 }).getD { w with aborted := true }) :
    w.ends_with w' sid ev := by
  unfold Worker.ends_with
  unfold Worker.print at h
  split
  · next hdumps =>
    rw [if_pos hdumps] at h
    rw [h]
    exact ⟨by simp [hevents, hlines], hgone, haborted⟩
  · next hdumps =>
    rw [if_neg hdumps] at h
    exact h

theorem final_one_shot (hcfg : cfg.prefix_path = true → cfg.final_one_shot = true) {input : Fields}
    {env : Env} (h : Utterance cfg parse sid beginMeta as w) (hinput : a.input parse = some (input, env))
    (hcloses : closes input sid = true) (hfits : fits cfg parse sid w a)
    (hstep : step cfg parse w a w') :
    ∃ ev, OneShot cfg w env sid beginMeta ((heard cfg parse sid as).last input) ev ∧
      w.ends_with w' sid ev := by
  obtain ⟨-, st, hget, hm, rfl⟩ := utterance_meets h
  obtain ⟨line, rfl, hline, hparse⟩ := Worker.input_line hinput
  have hfits' : st.fits_end cfg input env := by
    simpa [fits, hinput, hget, hcloses] using hfits
  have halive : w.aborted = false := by
    cases haborted : w.aborted with
    | false => rfl
    | true => simp [step, Worker.next, haborted] at hstep
  have hw' : w' = ((w.handle cfg (.object input) env).map fun w => { w with lines := w.lines + 1 }).getD
      { w with aborted := true } := by
    simp only [step, Worker.next, halive, Bool.false_eq_true, if_false, if_neg hline,
      Worker.handle_line, hparse] at hstep
    exact (Option.some.inj hstep).symm
  rcases Bool.or_eq_true_iff.1 hcloses with hend | hlast
  · obtain ⟨hkind, hid⟩ := Worker.is_event_iff.1 hend
    obtain ⟨ev, w₁, heq, hone, hevents, hlines, haborted, hgone⟩ :=
      Worker.end_final hcfg hid hget st.lastActivity rfl hm hfits'
    have hhandle : w.handle cfg (.object input) env = w₁.print ev := by
      have hne : ascii "end" ≠ ascii "begin" := by decide
      have hne' : ascii "end" ≠ ascii "chunk" := by decide
      rw [Worker.handle_event hkind, if_neg hne, if_neg hne', if_pos rfl, heq]
    rw [hhandle] at hw'
    exact ⟨ev, hone, ends_with_print hevents hlines (haborted.trans halive) hgone hw'⟩
  · obtain ⟨hchunk, hlast⟩ := Bool.and_eq_true_iff.1 hlast
    obtain ⟨hkind, hid⟩ := Worker.is_event_iff.1 hchunk
    -- the chunk has put its audio into the session that the end finds
    have hagain : ((st.carry input).touch env.now).carry input = (st.carry input).touch env.now := by
      cases hpath : carried_path input <;> cases hpcm : string? input "pcm_b64" <;>
        simp [Session.carry, Session.touch, hpath, hpcm]
    have hput : (w.put sid ((st.carry input).touch env.now)).sessions.get? sid =
        some ((st.carry input).touch env.now) := by
      rw [Worker.put, Dict.get?_set, if_pos rfl]
    obtain ⟨ev, w₁, heq, hone, hevents, hlines, haborted, hgone⟩ :=
      Worker.end_final hcfg hid hput env.now hagain hm hfits'
    have hhandle : w.handle cfg (.object input) env = w₁.print ev := by
      have hne : ascii "chunk" ≠ ascii "begin" := by decide
      rw [Worker.handle_event hkind, if_neg hne, if_pos rfl,
        Worker.chunk_last hid hget (of_decide_eq_true hlast), heq]
    rw [hhandle] at hw'
    have howned : (w.put sid ((st.carry input).touch env.now)).owned sid = w.owned sid := by
      rw [Worker.owned_of_get hput, Worker.owned_of_get hget]
      rfl
    exact ⟨ev, hone.same rfl howned, ends_with_print hevents hlines (haborted.trans halive) hgone hw'⟩

end

/-! ### Two utterances -/

/-- The mel file that a request names. -/
def named (req : Fields) : Option Bytes :=
  match req.lookup (ascii "requests") with
  | some (.array [.object call]) =>
    match call.lookup (ascii "messages") with
    | some (.array [.object message]) =>
      match message.lookup (ascii "content") with
      | some (.array [.object content]) => string? content "audio"
      | _ => none
    | _ => none
  | _ => none

/-- An engine that gives back what stands in the mel file. -/
def reads : Engine := fun req disk =>
  match (named req).bind disk with
  | some contents => .served true [contents]
  | none => .threw (ascii "Failed to load audio file")

/-- The lines that are sent. -/
def sent : Bytes → Except Bytes Json
  | [1] => .ok (object [("event", text "begin"), ("id", text "u")])
  | [2] => .ok (object [("event", text "chunk"), ("id", text "u"), ("pcm_b64", text "old")])
  | [3] => .ok (object [("event", text "chunk"), ("id", text "u"), ("mel_path", text "new")])
  | [4] => .ok (object [("event", text "end"), ("id", text "u")])
  | _ => .error (ascii "syntax error")

def plain : Config := ⟨1, some fun pcm => pcm, false, true, none, 0, 0, ascii "/tmp"⟩

def given : Disk := fun path => if path = ascii "new" then some path else none

def at_once (mel : Except Bytes ℕ) : Env := ⟨reads, given, mel, 0, 0⟩

def send (line : UInt8) : Label := .line [line] (at_once (.ok 0))

/-- A chunk whose pcm cannot be converted, as there is no room for the file. -/
def send_full (line : UInt8) : Label := .line [line] (at_once (.error (ascii "writeMelSafetensors")))

/-- What the last final says. -/
def last_final (w : Worker) : Option (Bool × Option Bytes) :=
  match w.events.getLast? with
  | some (_, .final _ ok _ said _) => some (ok, said)
  | _ => none

/-- A path that is sent after a pcm is not what is decoded, and neither is a pcm whose mel file was
    removed by a later conversion that failed. -/
theorem older_audio_decoded :
    ((∃ w, Run (step plain sent) .init [send 1, send 2, send 3, send 4] w ∧
        last_final w = some (true, some (ascii "old"))) ∧
      (heard plain sent (ascii "u") [send 2, send 3]).accepted = some (.mel (ascii "new")) ∧
      transcriptFromCore (runOneShotCore (one_shot_request (ascii "u") [] (ascii "new")) reads given) =
        ascii "new") ∧
    ((∃ w, Run (step plain sent) .init [send 1, send 2, send_full 2, send 4] w ∧
        last_final w = some (false, none)) ∧
      (heard plain sent (ascii "u") [send 2, send_full 2]).accepted = some (.pcm (ascii "old"))) := by
  have hpath := Run.of_replay_any (Worker.next plain sent) .init [send 1, send 2, send 3, send 4]
    (fun w => last_final w = some (true, some (ascii "old"))) (by decide +kernel)
  have hfull := Run.of_replay_any (Worker.next plain sent) .init [send 1, send 2, send_full 2, send 4]
    (fun w => last_final w = some (false, none)) (by decide +kernel)
  refine ⟨⟨?_, by decide +kernel, by decide +kernel⟩, ?_, by decide +kernel⟩
  · obtain ⟨w, hrun, hfinal⟩ := hpath
    exact ⟨w, hrun, of_decide_eq_true hfinal⟩
  · obtain ⟨w, hrun, hfinal⟩ := hfull
    exact ⟨w, hrun, of_decide_eq_true hfinal⟩

/-- The final of a pcm that is followed by nothing else. -/
theorem final_one_shot_pcm : ∃ (w w' : Worker) (ev : Event),
    OneShot plain w (at_once (.ok 0)) (ascii "u") [] (some (.pcm (ascii "old"))) ev ∧
      w.ends_with w' (ascii "u") ev := by
  have hruns : ((Worker.next plain sent .init (send 1)).any fun w => decide (w.knows (ascii "u")) &&
      (replay (fun w a => if fits plain sent (ascii "u") w a then
        (w.next plain sent a).filter fun w => w.knows (ascii "u") else none) w [send 2]).any fun w =>
        decide (fits plain sent (ascii "u") w (send 4)) && (w.next plain sent (send 4)).isSome) = true := by
    decide +kernel
  obtain ⟨w, hbegin, hruns⟩ := (Option.any_eq_true _ _).1 hruns
  obtain ⟨hknows, hruns⟩ := Bool.and_eq_true_iff.1 hruns
  obtain ⟨w', hreplay, hruns⟩ := (Option.any_eq_true _ _).1 hruns
  obtain ⟨hfits, hend⟩ := Bool.and_eq_true_iff.1 hruns
  obtain ⟨w'', hend⟩ := Option.isSome_iff_exists.1 hend
  have hbegun : Utterance plain sent (ascii "u")
      (begin_meta [(ascii "event", text "begin"), (ascii "id", text "u")]) [] w :=
    .begins .nil rfl rfl hbegin (of_decide_eq_true hknows)
  exact ⟨w', w'', final_one_shot (by decide) (hbegun.of_replay hreplay) rfl (by decide)
    (of_decide_eq_true hfits) hend⟩

end LocalVoice.AsrWorker
