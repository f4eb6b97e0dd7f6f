import LocalVoice.AsrWorker.Lanes

/-! Which lines a worker survives, and what holds between lines. Fields of a wrong type, and texts that
    are not UTF-8, are thrown out of the loop; where neither comes (`Tame`), every line is answered, the
    lanes that are held are those of the sessions, each is released once, and no mel file outlives its
    session (`worker_survives`). -/

namespace LocalVoice.AsrWorker
open LocalVoice.Lib

/-! ### What the engine and the tokenizer say -/

/-- Whatever the engine says is UTF-8. -/
def Speaks (engine : Engine) : Prop :=
  ∀ req disk, match engine req disk with
    | .threw what => utf8 what = true
    | .served _ texts => ∀ text ∈ texts, utf8 text = true

/-- The tokenizer does not throw, and decodes into UTF-8. -/
structure Tokenizer.Sound (tok : Tokenizer) : Prop where
  encodes : ∀ s, ∃ tokens, tok.encode s = some tokens
  decodes : ∀ tokens, ∃ s, tok.decode tokens = some s ∧ utf8 s = true

theorem utf8_type_name (item : Json) : utf8 (ascii item.type_name) = true := by
  have hnames : ∀ name ∈ ["null", "boolean", "number", "string", "array", "object"],
      utf8 (ascii name) = true := by decide +kernel
  refine hnames _ ?_
  cases item <;> simp [Json.type_name]

theorem ascii_append (s t : String) : ascii (s ++ t) = ascii s ++ ascii t := by
  rw [ascii, String.toList_append, List.map_append]
  rfl

section
variable {engine : Engine} {disk : Disk} {input : Json}

theorem core_texts (h : Speaks engine) : ∀ text ∈ (runOneShotCore input engine disk).texts,
    utf8 text = true := by
  have herror : ∀ s item, utf8 (ascii s) = true → utf8 (ascii (s ++ Json.type_name item)) = true :=
    fun s item hs => ascii_append _ _ ▸ utf8_append hs (utf8_type_name item)
  intro text htext
  unfold runOneShotCore at htext
  split at htext
  · next fields =>
    split at htext
    · obtain rfl := List.mem_singleton.1 htext
      have hprefix : utf8 (ascii "[json.exception.type_error.302] type must be string, but is ") = true := by
        decide +kernel
      cases hid : fields.lookup (ascii "id") with
      | none => exact herror _ .null hprefix
      | some item => exact herror _ item hprefix
    · have hsays := h (fields.filter (·.1 ≠ ascii "id")) disk
      split at htext
      · next what hthrew =>
        rw [hthrew] at hsays
        obtain rfl := List.mem_singleton.1 htext
        exact hsays
      · next ok texts hserved =>
        rw [hserved] at hsays
        exact hsays text ((List.append_nil texts).symm ▸ htext)
  · obtain rfl := List.mem_singleton.1 htext
    have hprefix : utf8 (ascii "[json.exception.type_error.306] cannot use value() with ") = true := by
      decide +kernel
    exact herror _ _ hprefix

theorem output_text_utf8 (h : Speaks engine) :
    utf8 (runOneShotCore input engine disk).output_text = true := by
  rw [Core.output_text]
  cases hhead : (runOneShotCore input engine disk).responses.bind List.head? with
  | none => rfl
  | some text =>
    obtain ⟨texts, htexts, hmem⟩ := Option.bind_eq_some_iff.1 hhead
    refine @core_texts engine disk input h text (List.mem_append_left _ ?_)
    rw [htexts]
    exact List.mem_of_head? hmem

end

theorem roll_back_some {tok : Tokenizer} (htok : tok.Sound) (tokens : List ℕ) (least stop : ℕ) :
    ∃ kept, roll_back tok tokens least stop = some kept ∧ utf8 kept = true := by
  induction stop with
  | zero => exact ⟨[], rfl, rfl⟩
  | succ stop ih =>
    obtain ⟨keep, hkeep, hutf8⟩ := htok.decodes (tokens.take (stop + 1))
    rw [roll_back, hkeep]
    dsimp only
    split
    · exact ⟨keep, rfl, hutf8⟩
    · exact ih

/-- A prefix is kept. -/
theorem prefix_of_some {cfg : Config} (htok : ∀ tok, cfg.tokenizer = some tok → tok.Sound) (st : Session)
    (isFinish : Bool) : ∃ kept, prefix_of cfg st isFinish = some kept ∧ utf8 kept = true := by
  unfold prefix_of computePrefix
  split
  · exact ⟨[], rfl, rfl⟩
  · next tok hsome =>
    split
    · exact ⟨[], rfl, rfl⟩
    · obtain ⟨tokens, htokens⟩ := (htok tok hsome).encodes st.rawDecoded
      rw [htokens]
      dsimp only
      split
      · exact ⟨[], rfl, rfl⟩
      · exact roll_back_some (htok tok hsome) ..

/-! ### Lines that are answered -/

/-- The fields that a handler reads are of the types that it reads them as. -/
structure Typed (w : Worker) (input : Fields) : Prop where
  event : ∃ event, value_str input "event" = some event
  id : (input.lookup (ascii "event")).isSome = true → ∃ sid, value_str input "id" = some sid
  last : ∀ sid st, value_str input "event" = some (ascii "chunk") → value_str input "id" = some sid →
    w.sessions.get? sid = some st → ∃ isLast, value_bool input "last" = some isLast

/-- What the line says, and what is said while it is handled, is UTF-8. -/
structure Clean (cfg : Config) (input : Fields) (env : Env) : Prop where
  fields : ∀ key s, value_str input key = some s → utf8 s = true
  engine : Speaks env.engine
  mel : ∀ what, env.mel = .error what → utf8 what = true
  tokenizer : ∀ tok, cfg.tokenizer = some tok → tok.Sound

/-- The step throws nothing out of the loop. -/
def Tame (cfg : Config) (parse : Bytes → Except Bytes Json) (w : Worker) : Label → Prop
  | .line line env => line = [] ∨ match parse line with
    | .error what => utf8 what = true
    | .ok (.object input) => Typed w input ∧ Clean cfg input env
    | .ok _ => Speaks env.engine
  | .sweep _ => True

namespace Worker
variable {cfg : Config} {w : Worker} {input : Fields} {env : Env} {sid : Bytes}

theorem print_some {ev : Event} (h : ev.dumps = true) : ∃ w', w.print ev = some w' := ⟨_, if_pos h⟩

theorem begin_some (hid : value_str input "id" = some sid) (hsid : utf8 sid = true) :
    ∃ w', w.handleBegin cfg input env = some w' := by
  have hdumps : ∀ lane, (Event.begin_ack sid lane).dumps = true := fun lane => by
    rw [Event.dumps, Event.texts, List.all_cons, hsid]
    rfl
  simp only [handleBegin, hid, Option.bind_eq_bind, Option.bind_some]
  split
  · exact print_some rfl
  · split
    · exact print_some (hdumps _)
    · split
      · exact print_some (hdumps 0)
      · exact print_some (hdumps _)

/-- An event of a session and one more text. -/
theorem dumps_two {a b : Bytes} (ha : utf8 a = true) (hb : utf8 b = true) : [a, b].all utf8 = true := by
  rw [List.all_cons, List.all_cons, ha, hb]
  rfl

theorem end_pcm_dumps {st : Session} {carried : Bool} {ev : Event} (hsid : utf8 sid = true)
    (hmel : ∀ what, env.mel = .error what → utf8 what = true)
    (h : (w.end_pcm cfg sid st carried env).2.2 = some ev) : ev.dumps = true := by
  unfold end_pcm at h
  split at h
  · split at h
    · obtain rfl := Option.some.inj h
      rw [Event.dumps, Event.texts, List.all_cons, hsid]
      rfl
    · dsimp only at h
      split at h
      · cases h
      · next what hwhat =>
        obtain rfl := Option.some.inj h
        exact dumps_two hsid (hmel what hwhat)
  · cases h

theorem hop_pcm_dumps {st : Session} {ev : Event} (hsid : utf8 sid = true)
    (hmel : ∀ what, env.mel = .error what → utf8 what = true)
    (h : (w.hop_pcm cfg sid st env).2.2 = some ev) : ev.dumps = true := by
  unfold hop_pcm at h
  split at h
  · cases h
  · split at h
    · obtain rfl := Option.some.inj h
      rw [Event.dumps, Event.texts, List.all_cons, hsid]
      rfl
    · dsimp only at h
      split at h
      · cases h
      · next what hwhat =>
        obtain rfl := Option.some.inj h
        exact dumps_two hsid (hmel what hwhat)

theorem hop_generated_utf8 {st : Session} {kept : Bytes} {disk : Disk} (hengine : Speaks env.engine) :
    utf8 (runPrefixHop sid st kept env.engine disk).generated = true := by
  rw [runPrefixHop]
  dsimp only
  split
  · exact utf8_parse (output_text_utf8 hengine)
  · rfl

theorem hop_error_utf8 {st : Session} {kept : Bytes} {disk : Disk} (hengine : Speaks env.engine) :
    ∀ what ∈ (runPrefixHop sid st kept env.engine disk).error.toList, utf8 what = true := by
  intro what hwhat
  rw [runPrefixHop] at hwhat
  dsimp only at hwhat
  split at hwhat
  · cases hwhat
  · exact core_texts hengine what (List.mem_append_right _ hwhat)

/-- The texts of what is shown of a response. -/
theorem shown_utf8 {raw text : Bytes} {ok : Bool} (hraw : utf8 raw = true)
    (h : text ∈ (if ok then some (stripLangTag raw) else none).toList) : utf8 text = true := by
  split at h
  · rw [List.mem_singleton.1 h]
    exact utf8_strip hraw
  · cases h

/-- The final of a session can be dumped. -/
theorem final_some {st : Session} (hsid : utf8 sid = true) (hengine : Speaks env.engine)
    (htok : ∀ tok, cfg.tokenizer = some tok → tok.Sound) :
    ∃ ev, w.final_event cfg sid st env = some ev ∧ ev.dumps = true := by
  unfold final_event
  split
  · refine ⟨_, rfl, ?_⟩
    rw [Event.dumps, Event.texts, List.all_cons, hsid]
    rfl
  · split
    · obtain ⟨kept, hkept, hutf8⟩ := prefix_of_some htok st true
      rw [hkept]
      refine ⟨_, rfl, List.all_eq_true.2 fun text htext => ?_⟩
      dsimp only at htext
      have hraw := utf8_append hutf8
        (@hop_generated_utf8 env sid st kept (w.readable env.disk) hengine)
      simp only [Event.texts, List.mem_append, List.mem_cons] at htext
      rcases htext with ((rfl | hmem) | hmem) | hmem
      · exact hsid
      · split at hmem
        · rw [List.mem_singleton.1 hmem]
          exact hraw
        · cases hmem
      · exact shown_utf8 hraw hmem
      · exact hop_error_utf8 hengine text hmem
    · refine ⟨_, rfl, List.all_eq_true.2 fun text htext => ?_⟩
      simp only [final_of, Event.texts, List.mem_append, List.mem_cons] at htext
      rcases htext with ((rfl | hmem) | hmem) | hmem
      · exact hsid
      · exact core_texts hengine text (List.mem_append_left _ hmem)
      · exact shown_utf8 (output_text_utf8 hengine) hmem
      · exact core_texts hengine text (List.mem_append_right _ hmem)

theorem end_some (hid : value_str input "id" = some sid) (h : Clean cfg input env) :
    ∃ w', w.handleEnd cfg input env = some w' := by
  have hsid := h.fields "id" sid hid
  simp only [handleEnd, hid, Option.bind_eq_bind, Option.bind_some]
  split
  · refine print_some ?_
    rw [Event.dumps, Event.texts, List.all_cons, hsid]
    rfl
  · next session _ =>
    cases hfailed : (w.end_pcm cfg sid (session.carry input) (string? input "pcm_b64").isSome env).2.2 with
    | some ev => exact print_some (end_pcm_dumps hsid h.mel hfailed)
    | none =>
      obtain ⟨ev, hev, hdumps⟩ := @final_some cfg _ env sid _ hsid h.engine h.tokenizer
      rw [Option.none_or, hev]
      exact print_some hdumps

/-- The event of a hop can be dumped. -/
theorem hop_some {st : Session} (hsid : utf8 sid = true) (hengine : Speaks env.engine)
    (htok : ∀ tok, cfg.tokenizer = some tok → tok.Sound) :
    ∃ st' ev, w.hop cfg sid st env = some (st', ev) ∧ ev.dumps = true := by
  have hfailed : ∀ detail : Option Bytes, (∀ what ∈ detail.toList, utf8 what = true) →
      (Event.partial_decode_failed sid detail).dumps = true := by
    intro detail hdetail
    refine List.all_eq_true.2 fun text htext => ?_
    rcases List.mem_cons.1 htext with rfl | hmem
    · exact hsid
    · exact hdetail text hmem
  unfold hop
  split
  · refine ⟨_, _, rfl, ?_⟩
    rw [Event.dumps, Event.texts, List.all_cons, hsid]
    rfl
  · split
    · obtain ⟨kept, hkept, hutf8⟩ := prefix_of_some htok st false
      rw [hkept, Option.map_some]
      dsimp only
      have hraw := utf8_append hutf8
        (@hop_generated_utf8 env sid st kept (w.readable env.disk) hengine)
      split
      · exact ⟨_, _, rfl, dumps_two hsid (utf8_strip hraw)⟩
      · exact ⟨_, _, rfl, hfailed _ (hop_error_utf8 hengine)⟩
    · refine ⟨_, _, rfl, ?_⟩
      split
      · exact dumps_two hsid (utf8_strip (output_text_utf8 hengine))
      · exact hfailed _ fun what hwhat => core_texts hengine what (List.mem_append_right _ hwhat)

theorem chunk_some (hid : value_str input "id" = some sid) (h : Clean cfg input env)
    (hlast : ∀ st, w.sessions.get? sid = some st → ∃ isLast, value_bool input "last" = some isLast) :
    ∃ w', w.handleChunk cfg input env = some w' := by
  have hsid := h.fields "id" sid hid
  simp only [handleChunk, hid, Option.bind_eq_bind, Option.bind_some]
  split
  · refine print_some ?_
    rw [Event.dumps, Event.texts, List.all_cons, hsid]
    rfl
  · next session hget =>
    obtain ⟨isLast, hisLast⟩ := hlast session hget
    rw [hisLast, Option.bind_some]
    split
    · exact end_some hid h
    · have hpcm := @hop_pcm_dumps cfg (w.put sid ((session.carry input).touch env.now)) env sid
        ((session.carry input).touch env.now)
      split
      · next w₁ st₁ failed heq =>
        rw [heq] at hpcm
        exact print_some (hpcm hsid h.mel rfl)
      · next w₁ st₁ heq =>
        obtain ⟨st₂, ev, hhop, hdumps⟩ := @hop_some cfg w₁ env sid st₁ hsid h.engine h.tokenizer
        rw [hhop, Option.bind_some]
        exact print_some hdumps

/-- A tame line is handled to its end. -/
theorem handle_line_some {parse : Bytes → Except Bytes Json} {line : Bytes} (hline : line ≠ [])
    (h : Tame cfg parse w (.line line env)) : ∃ w', w.handle_line cfg parse line env = some w' := by
  have htame := h.resolve_left hline
  unfold handle_line
  split at htame
  · next what hparse =>
    rw [hparse]
    refine print_some ?_
    rw [Event.dumps, Event.texts, List.all_cons, htame]
    rfl
  · next input hparse =>
    rw [hparse]
    obtain ⟨htyped, hclean⟩ := htame
    simp only [handle]
    split
    · refine print_some (List.all_eq_true.2 fun text htext => ?_)
      rcases List.mem_cons.1 htext with rfl | hmem
      · cases hid : value_str input "id" with
        | none => rfl
        | some sid => exact hclean.fields "id" sid hid
      · exact core_texts hclean.engine text hmem
    · next hevent =>
      obtain ⟨event, hev⟩ := htyped.event
      obtain ⟨sid, hid⟩ := htyped.id (by simpa [Option.isSome_iff_ne_none] using hevent)
      rw [hev]
      simp only [Option.bind_eq_bind, Option.bind_some]
      split
      · exact begin_some hid (hclean.fields "id" sid hid)
      · split
        · next hchunk => exact chunk_some hid hclean fun st hst => htyped.last sid st (hchunk ▸ hev) hid hst
        · split
          · exact end_some hid hclean
          · rw [hid, Option.bind_some]
            exact print_some (dumps_two (hclean.fields "event" event hev) (hclean.fields "id" sid hid))
  · next item hno hparse =>
    rw [hparse]
    cases item with
    | object input => exact (hno input rfl).elim
    | _ =>
      refine print_some (List.all_eq_true.2 fun text htext => ?_)
      rcases List.mem_cons.1 htext with rfl | hmem
      · rfl
      · exact core_texts htame text hmem

end Worker

/-! ### Lines keep what holds -/

namespace Worker
variable {cfg : Config} {w₀ w w' : Worker} {input : Fields} {env : Env} {sid : Bytes}

theorem begin_answered (h : Holds cfg w₀ sid (w.own_files sid) w) (hid : value_str input "id" = some sid)
    (hsid : utf8 sid = true) (hw : w.handleBegin cfg input env = some w') : Answered cfg w₀ w' := by
  simp only [handleBegin, hid, Option.bind_eq_bind, Option.bind_some] at hw
  split at hw
  · exact h.print (fun path => mem_own_files.1) hw
  · split at hw
    · next st hget =>
      rw [own_files_some hget] at h
      have hput := @Holds.put cfg w₀ w sid _ st (st.touch env.now) h hget rfl rfl
      refine hput.print (fun path hmem => ?_) hw
      refine ⟨st.touch env.now, by rw [put, Dict.get?_set, if_pos rfl], (List.mem_singleton.1 hmem).symm⟩
    · next hget =>
      have hnone : w.own_files sid = [] := by rw [own_files, hget]; rfl
      rw [hnone] at h
      split at hw
      · exact h.print (fun path hmem => absurd hmem List.not_mem_nil) hw
      · next lane hlane =>
        exact (h.emplace hget (acquire_free hlane) hsid _ _).print
          (fun path hmem => absurd hmem List.not_mem_nil) hw

/-- What the conversion of a pcm keeps. -/
structure Converts (cfg : Config) (w₀ : Worker) (sid : Bytes) (w : Worker) (st : Session) (w₁ : Worker)
    (st₁ : Session) : Prop where
  holds : Holds cfg w₀ sid [st₁.melPathOwned] w₁
  sessions : w₁.sessions = w.sessions
  laneId : st₁.laneId = st.laneId
  grant : st₁.grant = st.grant

theorem hop_pcm_converts {st : Session} (h : Holds cfg w₀ sid [st.melPathOwned] w) :
    Converts cfg w₀ sid w st (w.hop_pcm cfg sid st env).1 (w.hop_pcm cfg sid st env).2.1 := by
  unfold hop_pcm
  split
  · exact ⟨h, rfl, rfl, rfl⟩
  · split
    · exact ⟨h, rfl, rfl, rfl⟩
    · next extract _ =>
      dsimp only
      split
      · exact ⟨h.remove_own.write_mel extract sid st.pcmB64 _, rfl, rfl, rfl⟩
      · exact ⟨h.remove_own.weaken fun path hmem => absurd hmem List.not_mem_nil, rfl, rfl, rfl⟩

theorem end_pcm_converts {st : Session} (h : Holds cfg w₀ sid [st.melPathOwned] w) (carried : Bool) :
    Converts cfg w₀ sid w st (w.end_pcm cfg sid st carried env).1
      (w.end_pcm cfg sid st carried env).2.1 := by
  unfold end_pcm
  split
  · split
    · exact ⟨h, rfl, rfl, rfl⟩
    · next extract _ =>
      dsimp only
      split
      · exact ⟨h.remove_own.write_mel extract sid st.pcmB64 _, rfl, rfl, rfl⟩
      · exact ⟨h.remove_own.weaken fun path hmem => absurd hmem List.not_mem_nil, rfl, rfl, rfl⟩
  · exact ⟨h, rfl, rfl, rfl⟩

theorem end_answered (h : Holds cfg w₀ sid (w.own_files sid) w) (hid : value_str input "id" = some sid)
    (hw : w.handleEnd cfg input env = some w') : Answered cfg w₀ w' := by
  simp only [handleEnd, hid, Option.bind_eq_bind, Option.bind_some] at hw
  split at hw
  · exact h.print (fun path => mem_own_files.1) hw
  · next session hget =>
    rw [own_files_some hget] at h
    have hpcm := @end_pcm_converts cfg w₀ w env sid (session.carry input) h
      (string? input "pcm_b64").isSome
    obtain ⟨ev, -, hw⟩ := Option.bind_eq_some_iff.1 hw
    have hremoved := ((hpcm.holds.remove session.melPathOwned).weaken
      fun path hmem => (List.mem_filter.1 hmem).1).remove_own
    have hget₁ := (congrArg (Dict.get? · sid) hpcm.sessions).trans hget
    have hdrop := @Holds.drop cfg w₀ _ sid _ session _ hremoved hget₁ hpcm.laneId hpcm.grant
    exact hdrop.print (fun path hmem => absurd hmem List.not_mem_nil) hw

theorem chunk_answered (h : Holds cfg w₀ sid (w.own_files sid) w) (hid : value_str input "id" = some sid)
    (hw : w.handleChunk cfg input env = some w') : Answered cfg w₀ w' := by
  simp only [handleChunk, hid, Option.bind_eq_bind, Option.bind_some] at hw
  split at hw
  · exact h.print (fun path => mem_own_files.1) hw
  · next session hget =>
    rw [own_files_some hget] at h
    obtain ⟨isLast, -, hw⟩ := Option.bind_eq_some_iff.1 hw
    have hput := @Holds.put cfg w₀ w sid _ session ((session.carry input).touch env.now) h hget rfl rfl
    have hget' : (w.put sid ((session.carry input).touch env.now)).sessions.get? sid =
        some ((session.carry input).touch env.now) := by rw [put, Dict.get?_set, if_pos rfl]
    split at hw
    · refine end_answered ?_ hid hw
      rw [own_files_some hget']
      exact hput
    · have hpcm := @hop_pcm_converts cfg w₀ _ env sid ((session.carry input).touch env.now) hput
      -- the session is put back, with the mel file that it has now
      have hback : ∀ {w₁ : Worker} {st₁ : Session} (st₂ : Session) {ev : Event},
          Converts cfg w₀ sid (w.put sid ((session.carry input).touch env.now))
            ((session.carry input).touch env.now) w₁ st₁ →
          st₂.laneId = st₁.laneId → st₂.grant = st₁.grant → st₂.melPathOwned = st₁.melPathOwned →
          (w₁.put sid st₂).print ev = some w' → Answered cfg w₀ w' := by
        intro w₁ st₁ st₂ ev hc hlane hgrant hown hprint
        have hget₁ := (congrArg (Dict.get? · sid) hc.sessions).trans hget'
        refine (hc.holds.put hget₁ (hlane.trans hc.laneId) (hgrant.trans hc.grant)).print
          (fun path hmem => ?_) hprint
        exact ⟨st₂, by rw [put, Dict.get?_set, if_pos rfl], hown.trans (List.mem_singleton.1 hmem).symm⟩
      split at hw
      · next w₁ st₁ failed heq =>
        rw [heq] at hpcm
        exact hback st₁ hpcm rfl rfl rfl hw
      · next w₁ st₁ heq =>
        rw [heq] at hpcm
        obtain ⟨⟨st₂, ev⟩, hhop, hw⟩ := Option.bind_eq_some_iff.1 hw
        obtain ⟨rawDecoded, chunkId, rfl⟩ := hop_keeps hhop
        exact hback { st₁ with rawDecoded := rawDecoded, chunkId := chunkId } hpcm rfl rfl rfl hw

/-- A line that is handled to its end is answered. -/
theorem line_answered {parse : Bytes → Except Bytes Json} {line : Bytes} (h : Kept cfg w)
    (hclean : ∀ input sid, parse line = .ok (.object input) → value_str input "id" = some sid →
      utf8 sid = true)
    (hw : w.handle_line cfg parse line env = some w') : Answered cfg w w' := by
  unfold handle_line at hw
  split at hw
  · exact (h.holds []).print (fun path => mem_own_files.1) hw
  · next parsed hparse =>
    unfold handle at hw
    split at hw
    · next input =>
      split at hw
      · exact (h.holds []).print (fun path => mem_own_files.1) hw
      · simp only [Option.bind_eq_bind] at hw
        obtain ⟨event, -, hw⟩ := Option.bind_eq_some_iff.1 hw
        split at hw
        · cases hid : value_str input "id" with
          | none => simp [handleBegin, hid] at hw
          | some sid => exact begin_answered (h.holds sid) hid (hclean input sid hparse hid) hw
        · split at hw
          · cases hid : value_str input "id" with
            | none => simp [handleChunk, hid] at hw
            | some sid => exact chunk_answered (h.holds sid) hid hw
          · split at hw
            · cases hid : value_str input "id" with
              | none => simp [handleEnd, hid] at hw
              | some sid => exact end_answered (h.holds sid) hid hw
            · obtain ⟨evId, -, hw⟩ := Option.bind_eq_some_iff.1 hw
              exact (h.holds []).print (fun path => mem_own_files.1) hw
    · exact (h.holds []).print (fun path => mem_own_files.1) hw

/-! ### The sweep -/

/-- A session is reaped, and no other. -/
theorem reap_kept {e : Bytes × Session} (h : Kept cfg w) (hget : w.sessions.get? e.1 = some e.2) :
    ∃ w', w.reap e = some w' ∧ Kept cfg w' ∧ w'.lines = w.lines ∧ w'.aborted = w.aborted ∧
      (∀ x ∈ w.events, x ∈ w'.events) ∧
      ∀ s, s ≠ e.1 → w'.sessions.get? s = w.sessions.get? s := by
  have hdumps : (Event.timeout e.1).dumps = true := by
    rw [Event.dumps, Event.texts, List.all_cons, h.known e.1 e.2 hget]
    rfl
  have hholds := h.holds e.1
  rw [own_files_some hget] at hholds
  have hdrop := (hholds.remove_own.drop hget rfl rfl).kept fun path hmem => absurd hmem List.not_mem_nil
  refine ⟨_, if_pos hdumps, ⟨hdrop.lanes.same rfl rfl rfl rfl, hdrop.known, hdrop.files⟩, rfl, rfl,
    fun x => List.mem_append_left _, fun s hs => ?_⟩
  exact (Dict.get?_erase ..).trans (if_neg hs)

theorem reap_all_kept {idle : List (Bytes × Session)} (hnodup : (idle.map Prod.fst).Nodup)
    (hget : ∀ e ∈ idle, w.sessions.get? e.1 = some e.2) (h : Kept cfg w) :
    ∃ w', idle.foldlM reap w = some w' ∧ Kept cfg w' ∧ w'.lines = w.lines ∧ w'.aborted = w.aborted ∧
      ∀ x ∈ w.events, x ∈ w'.events := by
  induction idle generalizing w with
  | nil => exact ⟨w, rfl, h, rfl, rfl, fun _ => id⟩
  | cons e idle ih =>
    rw [List.map_cons, List.nodup_cons] at hnodup
    obtain ⟨w₁, hreap, hkept, hlines, haborted, hevents, hothers⟩ :=
      reap_kept h (hget e List.mem_cons_self)
    have hget₁ : ∀ e' ∈ idle, w₁.sessions.get? e'.1 = some e'.2 := by
      intro e' he'
      have hne : e'.1 ≠ e.1 := fun heq => hnodup.1 (heq ▸ List.mem_map_of_mem he')
      exact (hothers e'.1 hne).trans (hget e' (List.mem_cons_of_mem _ he'))
    obtain ⟨w₂, hfold, hkept₂, hlines₂, haborted₂, hevents₂⟩ := ih hnodup.2 hget₁ hkept
    refine ⟨w₂, ?_, hkept₂, hlines₂.trans hlines, haborted₂.trans haborted,
      fun x hx => hevents₂ x (hevents x hx)⟩
    rw [List.foldlM_cons, hreap]
    exact hfold

/-- The sweep never throws: the ids of the sessions were printed before. -/
theorem sweep_kept (h : Kept cfg w) (now : ℕ) : ∃ w', w.sweep now = some w' ∧ Kept cfg w' ∧
    w'.lines = w.lines ∧ w'.aborted = w.aborted ∧ ∀ x ∈ w.events, x ∈ w'.events := by
  refine reap_all_kept ?_ (fun e he => Dict.mem_items.1 (List.mem_filter.1 he).1) h
  exact (List.filter_sublist.map _).nodup w.sessions.nodup

end Worker

/-! ### Runs -/

/-- What holds between lines of a worker that goes on: the non-empty lines so far are answered, the lanes
    that are held are those of the sessions, each grant of one is released once, when its session ends,
    and the mel files that exist are files of sessions. -/
structure Serves (cfg : Config) (w : Worker) : Prop where
  goes_on : w.aborted = false
  answered : ∀ n < w.lines, ∃ ev, (some n, ev) ∈ w.events
  lanes : Lanes cfg w
  files : ∀ path data, w.files.get? path = some data →
    ∃ sid st, w.sessions.get? sid = some st ∧ st.melPathOwned = path

/-- And the ids of the sessions can be printed. -/
def Running (cfg : Config) (w : Worker) : Prop :=
  Serves cfg w ∧ ∀ sid st, w.sessions.get? sid = some st → utf8 sid = true

section
variable {cfg : Config} {parse : Bytes → Except Bytes Json} {w w' : Worker} {as : List Label}

theorem running_init (cfg : Config) : Running cfg .init := by
  refine ⟨⟨rfl, fun n hn => absurd hn (Nat.not_lt_zero n), lanes_init cfg, fun path data hpath => ?_⟩,
    fun sid st hget => ?_⟩
  · cases hpath
  · cases hget

theorem running_step {a : Label} (h : Running cfg w) (htame : Tame cfg parse w a)
    (hst : step cfg parse w a w') : Running cfg w' := by
  obtain ⟨hserves, hknown⟩ := h
  have hkept : Kept cfg w := ⟨hserves.lanes, hknown, hserves.files⟩
  rw [step] at hst
  cases a with
  | line line env =>
    rw [Worker.next, hserves.goes_on, if_neg Bool.false_ne_true] at hst
    split at hst
    · cases hst
      exact ⟨hserves, hknown⟩
    · next hline =>
      obtain ⟨w₁, hw₁⟩ := Worker.handle_line_some hline htame
      have hclean : ∀ input sid, parse line = .ok (.object input) → value_str input "id" = some sid →
          utf8 sid = true := by
        intro input sid hparse hid
        have hobject := htame.resolve_left hline
        rw [hparse] at hobject
        exact hobject.2.fields "id" sid hid
      have hanswered := Worker.line_answered hkept hclean hw₁
      rw [hw₁] at hst
      cases hst
      obtain ⟨hkept₁, hlines, ⟨ev, hevents⟩, hgoes_on⟩ := hanswered
      refine ⟨⟨hgoes_on.trans hserves.goes_on, fun n hn => ?_, hkept₁.lanes.same rfl rfl rfl rfl,
        hkept₁.files⟩, hkept₁.known⟩
      change ∃ ev, (some n, ev) ∈ w₁.events
      rw [hevents]
      rcases Nat.lt_or_eq_of_le (Nat.le_of_lt_succ hn) with hlt | rfl
      · obtain ⟨ev', hmem⟩ := hserves.answered n (hlines ▸ hlt)
        exact ⟨ev', List.mem_append_left _ hmem⟩
      · exact ⟨ev, List.mem_append_right _ (List.mem_singleton.2 (by rw [hlines]))⟩
  | sweep now =>
    rw [Worker.next, hserves.goes_on, if_neg Bool.false_ne_true] at hst
    obtain ⟨w₁, hw₁, hkept₁, hlines, haborted, hevents⟩ := Worker.sweep_kept hkept now
    rw [hw₁] at hst
    cases hst
    refine ⟨⟨haborted.trans hserves.goes_on, fun n hn => ?_, hkept₁.lanes, hkept₁.files⟩, hkept₁.known⟩
    obtain ⟨ev, hmem⟩ := hserves.answered n (Nat.lt_of_lt_of_eq hn hlines)
    exact ⟨ev, hevents _ hmem⟩

/-- A worker whose lines are all tame goes on to the end of its input, and serves them. -/
theorem worker_survives (h : Run (restrict (Tame cfg parse) (step cfg parse)) .init as w) :
    Serves cfg w :=
  (h.invariant (I := Running cfg) (fun hs hst => running_step hs hst.1 hst.2) (running_init cfg)).1

end

/-! ### A worker that serves, and two that do not -/

/-- A string is UTF-8. -/
def Json.spelled : Json → Bool
  | .str s => utf8 s
  | _ => true

theorem fields_utf8 {input : Fields} (h : (input.all fun kv => kv.2.spelled) = true) (key : String)
    (s : Bytes) (hs : value_str input key = some s) : utf8 s = true := by
  unfold value_str at hs
  split at hs
  · obtain rfl := Option.some.inj hs
    rfl
  · next s' hlookup =>
    obtain rfl := Option.some.inj hs
    obtain ⟨pre, post, rfl, -⟩ := List.lookup_eq_some_iff.1 hlookup
    exact List.all_eq_true.1 h _ (List.mem_append_right _ List.mem_cons_self)
  · cases hs

/-- One lane, and a mel file for a pcm. -/
def one_lane : Config := ⟨1, some fun pcm => pcm, false, true, none, 0, 0, ascii "/tmp"⟩

def line_of (event : String) (more : Fields) : Fields :=
  [(ascii "event", text event), (ascii "id", text "s")] ++ more

/-- The lines of a session, and one that is no JSON. -/
def spoken : Bytes → Except Bytes Json
  | [0x62] => .ok (.object (line_of "begin" []))
  | [0x63] => .ok (.object (line_of "chunk" [(ascii "pcm_b64", text "AAAAAA==")]))
  | [0x65] => .ok (.object (line_of "end" []))
  | _ => .error (ascii "syntax error")

/-- Whatever is asked, the engine says this. -/
def hears (heard : Bytes) : Env := ⟨fun _ _ => .served true [heard], fun _ => none, .ok 0, 0, 0⟩

theorem hears_speaks {heard : Bytes} (h : utf8 heard = true) : Speaks (hears heard).engine := by
  intro req disk text htext
  rw [List.mem_singleton.1 htext]
  exact h

/-- A session that ends, a line that is no JSON, and a session that is reaped. -/
def two_sessions : List Label :=
  [.line [0x62] (hears (ascii "Hi.")), .line [0x63] (hears (ascii "Hi.")),
    .line [0x65] (hears (ascii "Hi.")), .line [0x7B] (hears (ascii "Hi.")),
    .line [0x62] (hears (ascii "Hi.")), .sweep 30001]

theorem two_sessions_tame (w : Worker) : ∀ a ∈ two_sessions, Tame one_lane spoken w a := by
  have hclean : ∀ input : Fields, (input.all fun kv => kv.2.spelled) = true →
      Clean one_lane input (hears (ascii "Hi.")) := by
    intro input hall
    refine ⟨fields_utf8 hall, hears_speaks (by decide +kernel), fun what hwhat => ?_, fun tok htok => ?_⟩
    · cases hwhat
    · cases htok
  have htyped : ∀ (event : String) (more : Fields),
      (∃ isLast, value_bool (line_of event more) "last" = some isLast) →
      Typed w (line_of event more) := by
    intro event more hlast
    refine ⟨⟨ascii event, ?_⟩, fun _ => ⟨ascii "s", ?_⟩, fun _ _ _ _ _ => hlast⟩
    · rfl
    · rfl
  intro a ha
  simp only [two_sessions, List.mem_cons, List.not_mem_nil, or_false] at ha
  rcases ha with rfl | rfl | rfl | rfl | rfl | rfl
  · exact .inr ⟨htyped "begin" [] ⟨false, by decide +kernel⟩, hclean _ (by decide +kernel)⟩
  · exact .inr ⟨htyped "chunk" _ ⟨false, by decide +kernel⟩, hclean _ (by decide +kernel)⟩
  · exact .inr ⟨htyped "end" [] ⟨false, by decide +kernel⟩, hclean _ (by decide +kernel)⟩
  · exact .inr (show utf8 (ascii "syntax error") = true by decide +kernel)
  · exact .inr ⟨htyped "begin" [] ⟨false, by decide +kernel⟩, hclean _ (by decide +kernel)⟩
  · trivial

theorem worker_survives_two_sessions : ∃ w,
    Run (restrict (Tame one_lane spoken) (step one_lane spoken)) .init two_sessions w ∧
      w.events.length = 6 ∧ w.lines = 5 ∧ w.held = [] ∧ w.released = [0, 1] ∧ Serves one_lane w := by
  obtain ⟨w, hrun, hend⟩ := Run.of_replay_any (Worker.next one_lane spoken) .init two_sessions
    (fun w => w.events.length = 6 ∧ w.lines = 5 ∧ w.held = [] ∧ w.released = [0, 1]) (by decide +kernel)
  have hrun' : Run (restrict (Tame one_lane spoken) (step one_lane spoken)) .init two_sessions w :=
    Run.restrict_of hrun fun a ha u => two_sessions_tame u a ha
  obtain ⟨hevents, hlines, hheld, hreleased⟩ := of_decide_eq_true hend
  exact ⟨w, hrun', hevents, hlines, hheld, hreleased, worker_survives hrun'⟩

/-- `event` is a number, and a hop's text ends inside a character. -/
theorem worker_thrown_out :
    (∃ w, Run (step one_lane fun _ => .ok (.object [(ascii "event", .number (ascii "1"))])) .init
      [.line (ascii "\x7b\"event\": 1\x7d") (hears [])] w ∧ ¬ Serves one_lane w) ∧
    ∃ w, Run (step one_lane spoken) .init
      [.line [0x62] (hears []), .line [0x63] (hears [0xE4, 0xBD])] w ∧ ¬ Serves one_lane w := by
  refine ⟨?_, ?_⟩
  · obtain ⟨w, hrun, hend⟩ := Run.of_replay_any
      (Worker.next one_lane fun _ => .ok (.object [(ascii "event", .number (ascii "1"))])) .init
      [.line (ascii "\x7b\"event\": 1\x7d") (hears [])] (fun w => w.aborted) (by decide +kernel)
    exact ⟨w, hrun, fun h => absurd (h.goes_on.symm.trans hend) Bool.false_ne_true⟩
  · obtain ⟨w, hrun, hend⟩ := Run.of_replay_any (Worker.next one_lane spoken) .init
      [.line [0x62] (hears []), .line [0x63] (hears [0xE4, 0xBD])] (fun w => w.aborted) (by decide +kernel)
    exact ⟨w, hrun, fun h => absurd (h.goes_on.symm.trans hend) Bool.false_ne_true⟩

end LocalVoice.AsrWorker
