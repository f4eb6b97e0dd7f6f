import LocalVoice.RealtimeProvider.Adapters
import Mathlib.Data.List.Induction

/-! Sequences of session updates through an adapter, to a provider that merges each update into its
    session. Absent, `null` and `none` are three different requests of a client; on the wire the last
    two are gone, because `_without_none` takes out the `None` that should have switched the setting
    off. `settings_follow_iff` says for which sequences the provider's session still is what the client
    asked for.

        client      turn_detection: {type: server_vad}    turn_detection: null
        wire        turn_detection: {type: server_vad}    (absent)
        provider    server_vad                            server_vad, still -/

namespace LocalVoice.RealtimeProvider

/-- The settings of a session that a client chooses; the audio formats are the relay's. -/
inductive Setting where
  | type | model | modalities | instructions | turn_detection | transcription | voice | tools
  deriving DecidableEq

/-- What a canonical session says about a setting. -/
def mention (canonical : Obj) : Setting → Option Value
  | .type => canonical.lookup "type"
  | .model => canonical.lookup "model"
  | .modalities => (canonical.lookup "output_modalities").or (canonical.lookup "modalities")
  | .instructions => canonical.lookup "instructions"
  | .turn_detection => (audio_in canonical).lookup "turn_detection"
  | .transcription => (audio_in canonical).lookup "transcription"
  | .voice => (audio_out canonical).lookup "voice"
  | .tools => canonical.lookup "tools"

/-- The settings a provider has: the model and the session type are fixed for Qwen. -/
def Provider.supports : Provider → Setting → Bool
  | .qwen, .type => false
  | .qwen, .model => false
  | _, _ => true

/-- What the client asks for with a value: `none` is off. Of a turn detection the members a provider
    knows count, of the tools their schemas. -/
def meaning : Setting → Value → Option Value
  | .tools, .null => some (.list [])
  | .tools, .list l => some (.list (tool_schemas l))
  | _, .null => none
  | .turn_detection, .obj turn =>
    match turn.lookup "type" with
    | some .null => none
    | some (.str "none") => none
    | _ => some (.obj (known_members turn))
  | _, v => some v

/-! ### The provider -/

/-- Where a provider reads a setting in an update. -/
def Provider.read : Provider → Setting → Obj → Option Value
  | .openai, .type, u => u.lookup "type"
  | .openai, .model, u => u.lookup "model"
  | .openai, .modalities, u => u.lookup "output_modalities"
  | .openai, .instructions, u => u.lookup "instructions"
  | .openai, .turn_detection, u => (audio_in u).lookup "turn_detection"
  | .openai, .transcription, u => (audio_in u).lookup "transcription"
  | .openai, .voice, u => (audio_out u).lookup "voice"
  | .openai, .tools, u => u.lookup "tools"
  | .qwen, .type, _ => none
  | .qwen, .model, _ => none
  | .qwen, .modalities, u => u.lookup "modalities"
  | .qwen, .instructions, u => u.lookup "instructions"
  | .qwen, .turn_detection, u => u.lookup "turn_detection"
  | .qwen, .transcription, u => u.lookup "input_audio_transcription"
  | .qwen, .voice, u => u.lookup "voice"
  | .qwen, .tools, u => u.lookup "tools"

/-- The provider's session: the settings that are on. -/
abbrev Session := Setting → Option Value

/-- A setting after an update: an absent key keeps it, a `null` switches it off. -/
def merged (current : Option Value) : Option Value → Option Value
  | none => current
  | some .null => none
  | some v => some v

/-- The relay's connection: the provider's session, and whether the relay still runs. -/
structure Connection where
  session : Session
  is_open : Bool

/-- A client's `session.update` through the relay; an adapter that raises ends it. -/
def Connection.update (p : Provider) (c : Connection) (canonical : Obj) : Connection :=
  if c.is_open then
    match p.session_update canonical with
    | some u => ⟨fun s => merged (c.session s) (p.read s u), true⟩
    | none => ⟨c.session, false⟩
  else c

/-- The connection after updates. -/
def Connection.after (p : Provider) (c : Connection) (updates : List Obj) : Connection :=
  updates.foldl (Connection.update p) c

/-- What the client asked for last. -/
def expected (start : Session) (updates : List Obj) (s : Setting) : Option Value :=
  (updates.filterMap fun u => mention u s).getLast?.elim (start s) (meaning s)

/-! ### What the adapters send -/

/-- What is left of a member after `_without_none`. -/
def kept (v : Option Value) : Option Value := (v.filter (!·.is_none)).map without_none

@[simp] theorem without_none_append (a b : Obj) :
    without_none_members (a ++ b) = without_none_members a ++ without_none_members b := by
  induction a with
  | nil => rfl
  | cons m a ih =>
    obtain ⟨k, v⟩ := m
    rw [List.cons_append, without_none_members, without_none_members]
    split
    · exact ih
    · rw [ih, List.cons_append]

@[simp] theorem without_none_member (k : String) (v : Option Value) :
    without_none_members (member k v) = member k (kept v) := by
  cases v with
  | none => rfl
  | some v => cases v <;> rfl

@[simp] theorem without_none_cons (k : String) (v : Value) (rest : Obj) :
    without_none_members ((k, v) :: rest) =
      member k (kept (some v)) ++ without_none_members rest := by
  rw [← without_none_member, ← without_none_append]
  rfl

@[simp] theorem lookup_member (k k' : String) (v : Option Value) :
    (member k v).lookup k' = if k' = k then v else none := by
  cases v with
  | none => simp [member]
  | some v =>
    by_cases h : k' = k
    · simp [member, h]
    · simp [member, h, List.lookup_cons, beq_false_of_ne h]

@[simp] theorem kept_none : kept none = none := rfl

@[simp] theorem kept_null : kept (some .null) = none := rfl

@[simp] theorem kept_text (s : String) : kept (some (text s)) = some (text s) := rfl

@[simp] theorem kept_obj (kv : Obj) : kept (some (.obj kv)) = some (.obj (without_none_members kv)) := rfl

/-- What an adapter sends for a setting. -/
def sends : Provider → Obj → Setting → Option Value
  | .openai, c, .type => kept (some ((c.lookup "type").getD (text "realtime")))
  | .openai, c, .model => kept (c.lookup "model")
  | .openai, c, .modalities => kept (c.lookup "output_modalities")
  | .openai, c, .transcription => kept (((audio_in c).lookup "transcription").filter fun v =>
      (v.members?.map (!·.isEmpty)).getD false)
  | .qwen, _, .type => none
  | .qwen, _, .model => none
  | .qwen, c, .modalities =>
    if (mention c .modalities).isSome then some (.list [text "text", text "audio"]) else none
  | .qwen, c, .transcription => kept ((audio_in c).lookup "transcription")
  | _, c, .instructions => kept (c.lookup "instructions")
  | _, c, .turn_detection =>
    kept (some (provider_turn_detection ((audio_in c).lookup "turn_detection")))
  | _, c, .voice => kept ((audio_out c).lookup "voice")
  | _, c, .tools => kept (((c.lookup "tools").bind provider_tools).map .list)

/-- The tools of an update, where the adapter does not raise. -/
def sent_tools (c : Obj) : Option Value := ((c.lookup "tools").bind provider_tools).map .list

/-- The audio block of an OpenAI update. -/
def openai_audio (c : Obj) : Value :=
  .obj [
    ("input", .obj ([
      ("format", .obj [("type", text "audio/pcm"), ("rate", .number "24000" true)]),
      ("turn_detection", provider_turn_detection ((audio_in c).lookup "turn_detection"))] ++
        member "transcription" (((audio_in c).lookup "transcription").filter fun v =>
          (v.members?.map (!·.isEmpty)).getD false))),
    ("output", .obj [
      ("format", .obj [("type", text "audio/pcm")]),
      ("voice", ((audio_out c).lookup "voice").getD .null)])]

/-- An OpenAI update, member by member. -/
theorem openai_session_eq {c u : Obj} (h : openai_session c = some u) :
    u = without_none_members (
      ((member "type" (c.lookup "type") ++ (member "model" (c.lookup "model") ++
        (member "output_modalities" (c.lookup "output_modalities") ++
          member "instructions" (c.lookup "instructions")))) ++
        (if (c.lookup "type").isNone then member "type" (some (text "realtime")) else []) ++
        (if (c.lookup "audio").isSome then member "audio" (some (openai_audio c)) else [])) ++
        member "tools" (sent_tools c)) := by
  unfold openai_session at h
  dsimp only at h
  cases htools : c.lookup "tools" with
  | none =>
    rw [htools] at h
    obtain rfl := Option.some.inj h
    simp [sent_tools, htools, member, openai_audio]
  | some tools =>
    rw [htools] at h
    obtain ⟨l, hl, rfl⟩ := Option.map_eq_some_iff.1 h
    simp [sent_tools, htools, hl, member, openai_audio]

/-- A Qwen update, member by member. -/
theorem qwen_session_eq {c u : Obj} (h : qwen_session c = some u) :
    u = without_none_members (
      ((if (mention c .modalities).isSome then
          member "modalities" (some (.list [text "text", text "audio"])) else []) ++
        member "instructions" (c.lookup "instructions") ++
        (if (c.lookup "audio").isSome then [
          ("voice", ((audio_out c).lookup "voice").getD .null),
          ("input_audio_format", text "pcm"),
          ("output_audio_format", text "pcm"),
          ("turn_detection", provider_turn_detection ((audio_in c).lookup "turn_detection")),
          ("input_audio_transcription", ((audio_in c).lookup "transcription").getD .null)]
          else [])) ++
        member "tools" (sent_tools c)) := by
  unfold qwen_session at h
  dsimp only at h
  have hmodal : ((c.lookup "output_modalities").isSome || (c.lookup "modalities").isSome) =
      (mention c .modalities).isSome := by
    simp [mention]
  rw [hmodal] at h
  cases htools : c.lookup "tools" with
  | none =>
    rw [htools] at h
    obtain rfl := Option.some.inj h
    simp [sent_tools, htools, member]
  | some tools =>
    rw [htools] at h
    obtain ⟨l, hl, rfl⟩ := Option.map_eq_some_iff.1 h
    simp [sent_tools, htools, hl, member]

@[simp] theorem kept_getD (v : Option Value) : kept (some (v.getD .null)) = kept v := by
  cases v <;> rfl

/-- Without an audio block nothing is said about the settings in it. -/
theorem no_audio {c : Obj} (h : c.lookup "audio" = none) : audio_in c = [] ∧ audio_out c = [] := by
  simp [audio_in, audio_out, sub_object, h]

@[simp] theorem without_none_if (b : Bool) (m : Obj) :
    without_none_members (if b then m else []) = if b then without_none_members m else [] := by
  cases b <;> rfl

@[simp] theorem lookup_if (b : Bool) (m : Obj) (k : String) :
    (if b then m else []).lookup k = if b then m.lookup k else none := by
  cases b <;> rfl

@[simp] theorem without_none_nil : without_none_members [] = [] := rfl

theorem kept_text_audio :
    kept (some (.list [text "text", text "audio"])) = some (.list [text "text", text "audio"]) := rfl

/-- What an OpenAI provider reads in an update is what `sends` says. -/
theorem read_sends_openai {c u : Obj} (h : openai_session c = some u) (s : Setting) :
    Provider.openai.read s u = sends .openai c s := by
  obtain rfl := openai_session_eq h
  cases haudio : c.lookup "audio" with
  | none =>
    cases htype : c.lookup "type" <;> cases s <;>
      simp [Provider.read, sends, List.lookup_append, htype, haudio, audio_in, audio_out, sub_object,
        sent_tools, provider_turn_detection]
  | some a =>
    have hblock : kept (some (openai_audio c)) = some (.obj (without_none_members _)) := rfl
    cases htype : c.lookup "type" <;> cases s <;>
      simp [Provider.read, sends, List.lookup_append, htype, haudio, hblock, audio_in, audio_out,
        sub_object, sent_tools, Value.members?]

theorem read_sends_qwen {c u : Obj} (h : qwen_session c = some u) (s : Setting) :
    Provider.qwen.read s u = sends .qwen c s := by
  obtain rfl := qwen_session_eq h
  cases haudio : c.lookup "audio" with
  | none =>
    obtain ⟨hin, hout⟩ := no_audio haudio
    cases s <;>
      simp [Provider.read, sends, List.lookup_append, hin, hout, sent_tools,
        provider_turn_detection, kept_text_audio]
  | some a =>
    cases s <;>
      simp [Provider.read, sends, List.lookup_append, sent_tools, kept_text_audio]

/-! ### One update -/

/-- The modalities every Qwen session gets. -/
def is_text_audio : Value → Bool
  | .list [.str a, .str b] => a = "text" && b = "audio"
  | _ => false

/-- The adapter sends the value as it is. -/
def passed (p : Provider) (c : Obj) : Setting → Value → Bool
  | .turn_detection, .obj turn => !untyped turn && none_free_members (known_members turn)
  | .turn_detection, _ => false
  | .tools, .null => true
  | .tools, .list l => none_free_items (tool_schemas l)
  | .tools, _ => false
  | .transcription, v =>
    (p = .qwen || (v.members?.map (!·.isEmpty)).getD false) && !v.is_none && none_free v
  | .modalities, v =>
    match p with
    | .openai => (c.lookup "output_modalities").isSome && !v.is_none && none_free v
    | .qwen => is_text_audio v
  | _, v => !v.is_none && none_free v

/-- The adapter sends nothing for the value. -/
def withheld (p : Provider) (c : Obj) : Setting → Value → Bool
  | .turn_detection, .obj turn => untyped turn
  | .turn_detection, _ => true
  | .tools, _ => false
  | .transcription, v => v.is_none || p = .openai && !(v.members?.map (!·.isEmpty)).getD false
  | .modalities, v => p = .openai && (v.is_none || (c.lookup "output_modalities").isNone)
  | _, v => v.is_none

/-- The adapter raises: the tools are neither a list nor anything else that can be iterated over. -/
def raises (c : Obj) : Bool := ((c.lookup "tools").map fun v => (provider_tools v).isNone).getD false

/-- What the value `v` of a setting stands for where only `null` is special. -/
def plain (v : Value) : Option Value := if v.is_none then none else some v

theorem merged_kept (current : Option Value) {v : Value} (hv : v.is_none = false) :
    merged current (kept (some v)) = some (without_none v) := by
  cases v with
  | null => simp [Value.is_none] at hv
  | bool _ => rfl
  | number _ _ => rfl
  | str _ => rfl
  | list _ => rfl
  | obj _ => rfl

theorem kept_is_none {v : Value} (hv : v.is_none = true) : kept (some v) = none := by
  simp [kept, hv]

/-- A value that is kept as it is, or one that is off where the setting was off. -/
theorem kept_iff (current : Option Value) (v : Value) :
    merged current (kept (some v)) = plain v ↔
      (!v.is_none && none_free v) = true ∨ v.is_none = true ∧ current = plain v := by
  cases hv : v.is_none with
  | true => simp [kept_is_none hv, merged, plain, hv]
  | false => simp [merged_kept current hv, plain, hv, without_none_eq_self]

theorem meaning_plain {s : Setting} (hturn : s ≠ .turn_detection) (htools : s ≠ .tools) (v : Value) :
    meaning s v = plain v := by
  cases s <;> cases v <;> first | rfl | contradiction

/-- A turn detection without a type that says which is off, or is none a provider knows. -/
theorem untyped_turn {turn : Obj} (h : untyped turn = false) :
    meaning .turn_detection (.obj turn) = some (.obj (known_members turn)) := by
  unfold untyped at h
  unfold meaning
  dsimp only
  split at h <;> simp_all

theorem turn_iff (current : Option Value) (p : Provider) (c : Obj) (v : Value) :
    merged current (kept (some (provider_turn_detection (some v)))) = meaning .turn_detection v ↔
      passed p c .turn_detection v = true ∨
        withheld p c .turn_detection v = true ∧ current = meaning .turn_detection v := by
  have hnothing : kept (some .null) = none := rfl
  cases v with
  | obj turn =>
    cases hturn : untyped turn with
    | true => simp [provider_turn_detection, hturn, merged, passed, withheld]
    | false =>
      simp only [provider_turn_detection, hturn, untyped_turn hturn, passed, withheld, kept_obj,
        merged, Bool.false_eq_true, if_false, Bool.not_false, Bool.true_and, false_and, or_false,
        Option.some.injEq, Value.obj.injEq]
      exact without_none_members_eq_self _
  | null => simp [provider_turn_detection, merged, passed, withheld]
  | bool b => simp [provider_turn_detection, merged, passed, withheld]
  | number t n => simp [provider_turn_detection, merged, passed, withheld]
  | str t => simp [provider_turn_detection, merged, passed, withheld]
  | list l => simp [provider_turn_detection, merged, passed, withheld]

theorem tools_iff (current : Option Value) (p : Provider) (c : Obj) {v : Value} {l : List Value}
    (hl : provider_tools v = some l) :
    merged current (kept (some (.list l))) = meaning .tools v ↔
      passed p c .tools v = true ∨ withheld p c .tools v = true ∧ current = meaning .tools v := by
  have hsent : merged current (kept (some (.list l))) = some (.list (without_none_items l)) := rfl
  rw [hsent]
  cases v with
  | null =>
    obtain rfl := Option.some.inj hl
    simp [meaning, passed, without_none_items]
  | list entries =>
    obtain rfl := Option.some.inj hl
    simpa [meaning, passed, withheld] using without_none_items_eq_self _
  | bool b => simp [meaning, passed, withheld]
  | number t n => simp [meaning, passed, withheld]
  | str t => simp [meaning, passed, withheld]
  | obj kv => simp [meaning, passed, withheld]

theorem text_audio_iff (current : Option Value) (v : Value) :
    merged current (some (.list [text "text", text "audio"])) = plain v ↔
      is_text_audio v = true ∨ false = true ∧ current = plain v := by
  have hsent : merged current (some (.list [text "text", text "audio"])) =
      some (.list [text "text", text "audio"]) := rfl
  rw [hsent, Bool.false_eq_true, false_and, or_false]
  unfold is_text_audio
  split
  · rename_i a b
    have hplain : plain (.list [.str a, .str b]) = some (.list [.str a, .str b]) := rfl
    rw [hplain]
    simp [text, @eq_comm _ a, @eq_comm _ b]
  · rename_i hne
    cases v with
    | list l =>
      simp only [plain, Value.is_none, Bool.false_eq_true, if_false, iff_false]
      intro h
      exact hne "text" "audio" (Option.some.inj h).symm
    | _ => simp [plain, Value.is_none]

/-- A setting that is mentioned has the value that was asked for exactly when the adapter sends it as
    it is, or sends nothing and the setting has it already. -/
theorem mentioned_iff {p : Provider} {c : Obj} {s : Setting} {v : Value} (current : Option Value)
    (hp : p.supports s = true) (hm : mention c s = some v) (hr : raises c = false) :
    merged current (sends p c s) = meaning s v ↔
      passed p c s v = true ∨ withheld p c s v = true ∧ current = meaning s v := by
  cases s with
  | type =>
    cases p with
    | qwen => cases hp
    | openai =>
      have hm : c.lookup "type" = some v := hm
      simp only [sends, hm, Option.getD_some]
      rw [meaning_plain (by simp) (by simp)]
      exact kept_iff current v
  | model =>
    cases p with
    | qwen => cases hp
    | openai =>
      have hm : c.lookup "model" = some v := hm
      simp only [sends, hm]
      rw [meaning_plain (by simp) (by simp)]
      exact kept_iff current v
  | instructions =>
    have hm : c.lookup "instructions" = some v := hm
    have hsends : sends p c .instructions = kept (some v) := by cases p <;> simp [sends, hm]
    rw [hsends, meaning_plain (by simp) (by simp)]
    exact kept_iff current v
  | voice =>
    have hm : (audio_out c).lookup "voice" = some v := hm
    have hsends : sends p c .voice = kept (some v) := by cases p <;> simp [sends, hm]
    rw [hsends, meaning_plain (by simp) (by simp)]
    exact kept_iff current v
  | turn_detection =>
    have hm : (audio_in c).lookup "turn_detection" = some v := hm
    have hsends : sends p c .turn_detection = kept (some (provider_turn_detection (some v))) := by
      cases p <;> simp [sends, hm]
    rw [hsends]
    exact turn_iff current p c v
  | tools =>
    have hm : c.lookup "tools" = some v := hm
    obtain ⟨l, hl⟩ : ∃ l, provider_tools v = some l := by
      simpa [raises, hm, Option.isSome_iff_exists] using hr
    have hsends : sends p c .tools = kept (some (.list l)) := by cases p <;> simp [sends, hm, hl]
    rw [hsends]
    exact tools_iff current p c hl
  | transcription =>
    have hm : (audio_in c).lookup "transcription" = some v := hm
    rw [meaning_plain (by simp) (by simp)]
    cases p with
    | qwen =>
      have hsends : sends .qwen c .transcription = kept (some v) := by simp [sends, hm]
      simpa [hsends, passed, withheld] using kept_iff current v
    | openai =>
      cases hv : (v.members?.map (!·.isEmpty)).getD false with
      | true =>
        have hsends : sends .openai c .transcription = kept (some v) := by
          simp [sends, hm, Option.filter, hv]
        simpa [hsends, passed, withheld, hv] using kept_iff current v
      | false =>
        have hsends : sends .openai c .transcription = none := by
          simp [sends, hm, Option.filter, hv]
        simp [hsends, merged, passed, withheld, hv]
  | modalities =>
    rw [meaning_plain (by simp) (by simp)]
    cases p with
    | openai =>
      cases hout : c.lookup "output_modalities" with
      | none => simp [sends, hout, merged, passed, withheld]
      | some w =>
        obtain rfl : w = v := by simpa [mention, hout] using hm
        simpa [sends, hout, passed, withheld] using kept_iff current w
    | qwen =>
      have hsends : sends .qwen c .modalities = some (.list [text "text", text "audio"]) := by
        simp only [sends, hm, Option.isSome_some, if_true]
      rw [hsends]
      exact text_audio_iff current v

/-- A setting that is not mentioned is not sent, but for the session type of OpenAI. -/
theorem sends_unmentioned {p : Provider} {c : Obj} {s : Setting} (hm : mention c s = none) :
    sends p c s = if p = .openai ∧ s = .type then some (text "realtime") else none := by
  cases s with
  | modalities =>
    cases p with
    | qwen => simp [sends, hm]
    | openai =>
      obtain ⟨hout, -⟩ := Option.or_eq_none_iff.1 hm
      simp [sends, hout]
  | _ =>
    simp only [mention] at hm
    cases p <;> simp [sends, hm, provider_turn_detection]

/-- When an update leaves every setting as the client means it: the values it mentions are sent as they
    are, or are what the settings are at already; and OpenAI's session type, which every update
    sets to `realtime`, is that or is mentioned. -/
def Faithful (p : Provider) (conn : Connection) (c : Obj) : Prop :=
  ∀ s, p.supports s = true →
    match mention c s with
    | some v =>
      if conn.is_open = true ∧ raises c = false then
        passed p c s v = true ∨ withheld p c s v = true ∧ conn.session s = meaning s v
      else conn.session s = meaning s v
    | none =>
      conn.is_open = true → raises c = false → p = .openai → s = .type →
        conn.session .type = some (text "realtime")

theorem session_update_isSome (p : Provider) (c : Obj) :
    (p.session_update c).isSome = !raises c := by
  cases p <;> cases htools : c.lookup "tools" with
  | none => simp [Provider.session_update, openai_session, qwen_session, raises, htools]
  | some v =>
    cases hv : provider_tools v <;>
      simp [Provider.session_update, openai_session, qwen_session, raises, htools, hv]

theorem read_sends {p : Provider} {c u : Obj} (h : p.session_update c = some u) (s : Setting) :
    p.read s u = sends p c s := by
  cases p with
  | openai => exact read_sends_openai h s
  | qwen => exact read_sends_qwen h s

/-- What a client means a setting to be after one more update. -/
def meant (session : Session) (c : Obj) (s : Setting) : Option Value :=
  (mention c s).elim (session s) (meaning s)

/-- The session after an update. -/
theorem update_session (p : Provider) (conn : Connection) (c : Obj) (s : Setting) :
    (conn.update p c).session s =
      if conn.is_open = true ∧ raises c = false then merged (conn.session s) (sends p c s)
      else conn.session s := by
  have hsome := session_update_isSome p c
  unfold Connection.update
  cases hopen : conn.is_open with
  | false => simp
  | true =>
    cases hu : p.session_update c with
    | none =>
      have hr : raises c = true := by simpa [hu] using hsome
      simp [hr]
    | some u =>
      have hr : raises c = false := by simpa [hu] using hsome
      simp [hr, read_sends hu]

/-- One update leaves the settings as the client means them exactly when it is faithful. -/
theorem update_faithful_iff (p : Provider) (conn : Connection) (c : Obj) :
    (∀ s, p.supports s = true → (conn.update p c).session s = meant conn.session c s) ↔
      Faithful p conn c := by
  refine forall_congr' fun s => forall_congr' fun hp => ?_
  rw [update_session, meant]
  cases hm : mention c s with
  | some v =>
    by_cases hreach : conn.is_open = true ∧ raises c = false
    · simpa only [if_pos hreach, Option.elim_some] using mentioned_iff _ hp hm hreach.2
    · simp only [if_neg hreach, Option.elim_some]
  | none =>
    simp only [Option.elim_none]
    by_cases hreach : conn.is_open = true ∧ raises c = false
    · rw [if_pos hreach, sends_unmentioned hm]
      by_cases htype : p = .openai ∧ s = .type
      · obtain ⟨rfl, rfl⟩ := htype
        simp only [and_self, if_true, hreach.1, hreach.2, forall_const]
        exact eq_comm
      · simp only [if_neg htype, merged, true_iff]
        intro _ _ h1 h2
        exact absurd ⟨h1, h2⟩ htype
    · simp only [if_neg hreach, true_iff]
      intro h1 h2
      exact absurd ⟨h1, h2⟩ hreach

/-! ### Sequences of updates -/

theorem after_concat (p : Provider) (conn : Connection) (updates : List Obj) (c : Obj) :
    conn.after p (updates ++ [c]) = (conn.after p updates).update p c := by
  simp [Connection.after]

theorem expected_concat (start : Session) (updates : List Obj) (c : Obj) (s : Setting) :
    expected start (updates ++ [c]) s = meant (fun s => expected start updates s) c s := by
  unfold expected meant
  cases hm : mention c s <;> simp [hm]

/-- After every update each supported setting of the provider's session is what the last canonical
    update that mentioned it asked for, and one that was never mentioned is what it was, exactly when
    every update is faithful where it arrives. -/
theorem settings_follow_iff (p : Provider) (start : Session) (updates : List Obj) :
    (∀ pre post, updates = pre ++ post → ∀ s, p.supports s = true →
      ((⟨start, true⟩ : Connection).after p pre).session s = expected start pre s) ↔
    ∀ pre c post, updates = pre ++ c :: post →
      Faithful p ((⟨start, true⟩ : Connection).after p pre) c := by
  constructor
  · intro h pre c post heq
    rw [← update_faithful_iff]
    intro s hp
    have hnow := h pre (c :: post) heq
    have hnext := h (pre ++ [c]) post (by simp [heq]) s hp
    rw [after_concat, expected_concat] at hnext
    rw [hnext, meant, meant, hnow s hp]
  · intro h pre
    induction pre using List.reverseRecOn with
    | nil => intro post _ s _; rfl
    | append_singleton pre c ih =>
      intro post heq s hp
      have heq' : updates = pre ++ c :: post := by simp [heq]
      have hstep := (update_faithful_iff p _ c).2 (h pre c post heq') s hp
      rw [after_concat, expected_concat, hstep, meant, meant, ih (c :: post) heq' s hp]

/-- Server VAD, then turn detection set to `null`. -/
def vad_on : Obj :=
  [("audio", .obj [("input", .obj [("turn_detection", .obj [("type", text "server_vad")])])])]

def vad_off : Obj := [("audio", .obj [("input", .obj [("turn_detection", .null)])])]

/-- The `null` does not reach the provider: its turn detection stays on. -/
theorem vad_off_is_lost :
    ¬ ∀ (p : Provider) (start : Session) (updates : List Obj) (s : Setting), p.supports s = true →
      ((⟨start, true⟩ : Connection).after p updates).session s = expected start updates s := by
  intro h
  have hoff := h .openai (fun _ => none) [vad_on, vad_off] .turn_detection rfl
  have hleft : ((⟨fun _ => none, true⟩ : Connection).after .openai [vad_on, vad_off]).session
      .turn_detection = some (.obj [("type", text "server_vad")]) := rfl
  have hmeant : expected (fun _ => none) [vad_on, vad_off] .turn_detection = none := rfl
  rw [hleft, hmeant] at hoff
  cases hoff

end LocalVoice.RealtimeProvider
