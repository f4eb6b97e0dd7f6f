import LocalVoice.AsrWorker.Lanes

/-! The chunk-and-confirm rollback of `qwen3_asr_worker.cpp`. `computePrefix` keeps the longest prefix of
    tokens that drops as many as are unconfirmed and splits no character; a hop puts its continuation
    behind it. A replacement character in a partial comes from the engine, since none is kept. -/

namespace LocalVoice.AsrWorker
open LocalVoice.Lib

/-- A replacement character is in the text. -/
def replaced (s : Bytes) : Bool := (after kUtf8Replacement s).isSome

/-- A tokenizer that never throws. -/
def Tokenizer.total (encode : Bytes → List ℕ) (decode : List ℕ → Bytes) : Tokenizer :=
  ⟨fun s => some (encode s), fun tokens => some (decode tokens)⟩

section
variable (decode : List ℕ → Bytes) (tokens : List ℕ) (unfixedTokenNum : ℕ)

/-- A prefix of `n` tokens may be confirmed. -/
structure Confirmable (n : ℕ) : Prop where
  pos : 1 ≤ n
  proper : n < tokens.length
  drops : n + unfixedTokenNum ≤ tokens.length
  whole : replaced (decode (tokens.take n)) = false

/-- What is kept of a transcript: the longest prefix that may be confirmed, or the first token of a last
    hop, or nothing. -/
def Confirmed (isFinish : Bool) (kept : Bytes) : Prop :=
  (∃ n, Confirmable decode tokens unfixedTokenNum n ∧ kept = decode (tokens.take n) ∧
      ∀ m, Confirmable decode tokens unfixedTokenNum m → m ≤ n) ∨
    (∀ n, ¬ Confirmable decode tokens unfixedTokenNum n) ∧
      kept = if isFinish then decode (tokens.take 1) else []

end

section
variable {encode : Bytes → List ℕ} {decode : List ℕ → Bytes} {tokens : List ℕ} {unfixedTokenNum : ℕ}

/-- The loop ends, at the longest prefix that splits no character, or at the least one. -/
theorem roll_back_keeps (least stop : ℕ) : ∃ kept,
    roll_back (.total encode decode) tokens least stop = some kept ∧
      ((∃ n, 1 ≤ n ∧ n ≤ stop ∧ kept = decode (tokens.take n) ∧
          (replaced kept = false ∨ n ≤ least) ∧
          ∀ m, n < m → m ≤ stop → replaced (decode (tokens.take m)) = true) ∨
        kept = [] ∧ ∀ m, 1 ≤ m → m ≤ stop → least < m ∧ replaced (decode (tokens.take m)) = true) := by
  induction stop with
  | zero => exact ⟨[], rfl, .inr ⟨rfl, fun m hpos hle => absurd (hpos.trans hle) (by decide)⟩⟩
  | succ stop ih =>
    rw [roll_back]
    simp only [Tokenizer.total]
    split
    · next hkeep =>
      refine ⟨_, rfl, .inl ⟨stop + 1, Nat.succ_pos stop, Nat.le_refl _, rfl, ?_, fun m hlt hle => ?_⟩⟩
      · simpa [replaced] using hkeep
      · exact absurd hlt (Nat.not_lt_of_le hle)
    · next hsplit =>
      obtain ⟨hstop, hleast⟩ : replaced (decode (tokens.take (stop + 1))) = true ∧ least < stop + 1 := by
        simpa [replaced, Option.isSome_iff_ne_none] using hsplit
      obtain ⟨kept, hkept, hend⟩ := ih
      refine ⟨kept, hkept, ?_⟩
      rcases hend with ⟨n, hpos, hle, heq, hok, hlonger⟩ | ⟨hnil, hall⟩
      · refine .inl ⟨n, hpos, Nat.le_succ_of_le hle, heq, hok, fun m hlt hm => ?_⟩
        rcases Nat.lt_or_eq_of_le hm with hm | rfl
        · exact hlonger m hlt (Nat.le_of_lt_succ hm)
        · exact hstop
      · refine .inr ⟨hnil, fun m hpos hm => ?_⟩
        rcases Nat.lt_or_eq_of_le hm with hm | rfl
        · exact hall m hpos (Nat.le_of_lt_succ hm)
        · exact ⟨hleast, hstop⟩

theorem roll_back_confirmed (hunfixed : 0 < unfixedTokenNum) (isFinish : Bool) : ∃ kept,
    roll_back (.total encode decode) tokens (if isFinish then 1 else 0)
        (max (if isFinish then 1 else 0) (tokens.length - unfixedTokenNum)) = some kept ∧
      Confirmed decode tokens unfixedTokenNum isFinish kept := by
  obtain ⟨kept, hkept, hend⟩ := @roll_back_keeps encode decode tokens (if isFinish then 1 else 0)
    (max (if isFinish then 1 else 0) (tokens.length - unfixedTokenNum))
  refine ⟨kept, hkept, ?_⟩
  have hle : ∀ {m}, Confirmable decode tokens unfixedTokenNum m →
      m ≤ max (if isFinish then 1 else 0) (tokens.length - unfixedTokenNum) :=
    fun h => Nat.le_trans (Nat.le_sub_of_add_le h.drops) (Nat.le_max_right ..)
  rcases hend with ⟨n, hpos, hstop, rfl, hok, hlonger⟩ | ⟨rfl, hall⟩
  · have hlongest : ∀ m, Confirmable decode tokens unfixedTokenNum m → m ≤ n := by
      intro m hm
      refine Nat.le_of_not_lt fun hlt => ?_
      exact absurd (hm.whole.symm.trans (hlonger m hlt (hle hm))) (by decide)
    by_cases hn : Confirmable decode tokens unfixedTokenNum n
    · exact .inl ⟨n, hn, rfl, hlongest⟩
    · -- what is kept may not be confirmed: it is the first token of a last hop
      cases isFinish with
      | false =>
        refine absurd ⟨hpos, ?_, ?_, ?_⟩ hn
        · simp only [Bool.false_eq_true, if_false] at hstop
          omega
        · simp only [Bool.false_eq_true, if_false] at hstop
          omega
        · exact hok.resolve_right (by simp only [Bool.false_eq_true, if_false]; omega)
      | true =>
        simp only [if_true] at hstop hok
        have hone : n = 1 := by
          rcases hok with hwhole | hone
          · by_contra hne
            refine hn ⟨hpos, ?_, ?_, hwhole⟩ <;> omega
          · omega
        subst hone
        refine .inr ⟨fun m hm => hn ?_, rfl⟩
        rwa [Nat.le_antisymm (hlongest m hm) hm.pos] at hm
  · refine .inr ⟨fun m hm => ?_, ?_⟩
    · exact absurd (hm.whole.symm.trans (hall m hm.pos (hle hm)).2) (by decide)
    · cases isFinish with
      | false => rfl
      | true => exact absurd (hall 1 (Nat.le_refl 1) (Nat.le_max_left ..)).1 (Nat.lt_irrefl 1)

/-- The rollback ends; it keeps nothing in the warm-up, or of a text without tokens. -/
theorem computePrefix_confirmed (unfixedChunkNum : ℕ) (hunfixed : 0 < unfixedTokenNum) (rawDecoded : Bytes)
    (chunkId : ℕ) (isFinish : Bool) : ∃ kept,
    computePrefix (some (.total encode decode)) unfixedChunkNum unfixedTokenNum rawDecoded chunkId
        isFinish = some kept ∧
      if chunkId < unfixedChunkNum ∨ rawDecoded = [] ∨ encode rawDecoded = [] then kept = []
      else Confirmed decode (encode rawDecoded) unfixedTokenNum isFinish kept := by
  unfold computePrefix
  dsimp only
  split
  · next hnone =>
    refine ⟨[], rfl, ?_⟩
    simp only [Bool.or_eq_true, decide_eq_true_eq] at hnone
    rw [if_pos (hnone.elim (fun h => .inr (.inl h)) .inl)]
  · next hsome =>
    simp only [Bool.or_eq_true, decide_eq_true_eq, not_or] at hsome
    dsimp only [Tokenizer.total]
    split
    · next htokens => exact ⟨[], rfl, by rw [if_pos (.inr (.inr htokens))]⟩
    · next htokens =>
      obtain ⟨kept, hkept, hconfirmed⟩ :=
        @roll_back_confirmed encode decode (encode rawDecoded) _ hunfixed isFinish
      refine ⟨kept, hkept, ?_⟩
      rw [if_neg (not_or.2 ⟨hsome.2, not_or.2 ⟨hsome.1, htokens⟩⟩)]
      exact hconfirmed

end

/-! ### Replacement characters -/

theorem replaced_iff {s : Bytes} : replaced s = true ↔ ∃ u v, s = u ++ (kUtf8Replacement ++ v) := by
  rw [replaced, Option.isSome_iff_exists]
  constructor
  · rintro ⟨v, hv⟩
    obtain ⟨u, hu⟩ := after_spec hv
    exact ⟨u, v, hu⟩
  · rintro ⟨u, v, rfl⟩
    induction u with
    | nil => exact ⟨v, rfl⟩
    | cons b u ih =>
      rw [List.cons_append, after]
      split
      · exact ⟨_, rfl⟩
      · exact ih

theorem replaced_suffix {s t : Bytes} (hsuffix : s <:+ t) (h : replaced s = true) : replaced t = true := by
  obtain ⟨u, v, rfl⟩ := replaced_iff.1 h
  obtain ⟨w, rfl⟩ := hsuffix
  exact replaced_iff.2 ⟨w ++ u, v, (List.append_assoc ..).symm⟩

/-- Behind its first byte a character has continuations, and then the next one begins. -/
theorem utf8_first {a : UInt8} {s : Bytes} (h : utf8 (a :: s) = true) :
    ∃ conts rest, s = conts ++ rest ∧ utf8 rest = true ∧ ∀ b ∈ conts, b ≤ 0xBF := by
  have hle : ∀ {lo hi b : UInt8}, within lo hi b = true → hi ≤ 0xBF → b ≤ 0xBF :=
    fun hb hhi => UInt8.le_trans (of_decide_eq_true (Bool.and_eq_true_iff.1 hb).2) hhi
  rw [utf8.eq_def] at h
  dsimp only at h
  split at h
  · exact ⟨[], s, rfl, h, by simp⟩
  · split at h
    · cases h
    · next b s =>
      split at h
      · obtain ⟨hb, hrest⟩ := Bool.and_eq_true_iff.1 h
        exact ⟨[b], s, rfl, hrest, by simpa using hle hb (by decide)⟩
      · split at h
        · cases h
        · next c s =>
          split at h
          · simp only [Bool.and_eq_true] at h
            obtain ⟨⟨hb, hc⟩, hrest⟩ := h
            refine ⟨[b, c], s, rfl, hrest, ?_⟩
            simp only [List.mem_cons, List.not_mem_nil, or_false, forall_eq_or_imp, forall_eq]
            exact ⟨hle hb (by split <;> decide), hle hc (by decide)⟩
          · split at h
            · cases h
            · next d s =>
              simp only [Bool.and_eq_true] at h
              obtain ⟨⟨⟨⟨-, hb⟩, hc⟩, hd⟩, hrest⟩ := h
              refine ⟨[b, c, d], s, rfl, hrest, ?_⟩
              simp only [List.mem_cons, List.not_mem_nil, or_false, forall_eq_or_imp, forall_eq]
              exact ⟨hle hb (by split <;> decide), hle hc (by decide), hle hd (by decide)⟩

/-- A text does not end inside a replacement character. -/
theorem not_utf8_cut {u cut : Bytes} (hcut : cut = [0xEF] ∨ cut = [0xEF, 0xBF]) :
    utf8 (u ++ cut) ≠ true := by
  have hself : utf8 cut ≠ true := by rcases hcut with rfl | rfl <;> decide
  generalize hn : u.length = n
  induction n using Nat.strongRecOn generalizing u with
  | ind n ih =>
    intro h
    cases u with
    | nil => exact hself h
    | cons a u =>
      obtain ⟨conts, rest, heq, hrest, hconts⟩ := utf8_first h
      rcases List.append_eq_append_iff.1 heq with ⟨w, hw, hcutw⟩ | ⟨w, rfl, hrestw⟩
      · cases w with
        | nil =>
          rw [← show cut = rest from hcutw] at hrest
          exact hself hrest
        | cons b w =>
          -- the first byte of the cut would go on a character
          have hb : b = 0xEF := by
            rcases hcut with rfl | rfl <;> exact (List.cons.inj hcutw).1.symm
          have hmem : b ∈ conts := hw ▸ List.mem_append_right _ List.mem_cons_self
          exact absurd (hb ▸ hconts b hmem) (by decide)
      · rw [hrestw] at hrest
        refine ih w.length ?_ rfl hrest
        simp only [List.length_cons, List.length_append] at hn
        omega

/-- What is put behind a text of whole characters makes no replacement character with it. -/
theorem replaced_append {kept s : Bytes} (hkept : utf8 kept = true) (hwhole : replaced kept = false)
    (h : replaced (kept ++ s) = true) : replaced s = true := by
  obtain ⟨u, v, heq⟩ := replaced_iff.1 h
  rcases List.append_eq_append_iff.1 heq with ⟨w, -, rfl⟩ | ⟨w, rfl, hw⟩
  · exact replaced_iff.2 ⟨w, v, rfl⟩
  · rw [kUtf8Replacement] at hw
    match w with
    | [] => exact replaced_iff.2 ⟨[], v, hw.symm⟩
    | [a] =>
      obtain rfl := (List.cons.inj hw).1
      exact absurd hkept (not_utf8_cut (.inl rfl))
    | [a, b] =>
      simp only [List.cons_append, List.cons.injEq] at hw
      obtain ⟨rfl, rfl, -⟩ := hw
      exact absurd hkept (not_utf8_cut (.inr rfl))
    | a :: b :: c :: w =>
      simp only [List.cons_append, List.cons.injEq] at hw
      obtain ⟨rfl, rfl, rfl, -⟩ := hw
      exact absurd (hwhole.symm.trans (replaced_iff.2 ⟨u, w, rfl⟩)) (by decide)

theorem strip_suffix (s : Bytes) : stripLangTag s <:+ s := by
  unfold stripLangTag
  split
  · exact List.suffix_refl s
  · split
    · exact List.drop_suffix _ s
    · dsimp only
      split
      · exact List.suffix_refl s
      · have hrest := (List.dropWhile_suffix is_blank).trans
          (List.drop_suffix (kTag.length + knownAsrLanguagePrefixLen s kTag.length) s)
        split
        · exact (List.drop_suffix _ _).trans hrest
        · exact hrest

theorem parse_suffix (raw : Bytes) : parseAsrText raw <:+ raw := by
  unfold parseAsrText
  cases hafter : after kAsrTextTag raw with
  | none => exact strip_suffix raw
  | some t =>
    obtain ⟨u, rfl⟩ := after_spec hafter
    exact ⟨u ++ kAsrTextTag, by rw [List.append_assoc]; rfl⟩

/-! ### Hops -/

/-- The session and the text of a partial. -/
def Event.hop_text : Event → Option (Bytes × Bytes)
  | .partial_text id text => some (id, text)
  | _ => none

namespace Worker
variable {cfg : Config} {w w' : Worker} {sid text : Bytes} {st st' : Session} {env : Env} {input : Fields}

/-- What a hop with a prefix keeps: it is cut at whole characters, and no replacement character is in it. -/
theorem roll_back_whole {tok : Tokenizer} (hdecode : ∀ tokens s, tok.decode tokens = some s → utf8 s = true)
    {tokens : List ℕ} {stop : ℕ} {kept : Bytes} (h : roll_back tok tokens 0 stop = some kept) :
    utf8 kept = true ∧ replaced kept = false := by
  induction stop with
  | zero =>
    obtain rfl := Option.some.inj h
    exact ⟨rfl, rfl⟩
  | succ stop ih =>
    rw [roll_back] at h
    split at h
    · cases h
    · next keep hkeep =>
      split at h
      · next hwhole =>
        obtain rfl := Option.some.inj h
        refine ⟨hdecode _ _ hkeep, ?_⟩
        simpa [replaced] using hwhole
      · exact ih h

theorem prefix_whole (hdecode : ∀ tok, cfg.tokenizer = some tok → ∀ tokens s, tok.decode tokens = some s →
    utf8 s = true) {kept : Bytes} (h : prefix_of cfg st false = some kept) :
    utf8 kept = true ∧ replaced kept = false := by
  unfold prefix_of computePrefix at h
  split at h
  · obtain rfl := Option.some.inj h
    exact ⟨rfl, rfl⟩
  · next tok htok =>
    split at h
    · obtain rfl := Option.some.inj h
      exact ⟨rfl, rfl⟩
    · split at h
      · cases h
      · split at h
        · obtain rfl := Option.some.inj h
          exact ⟨rfl, rfl⟩
        · exact roll_back_whole (hdecode tok htok) h

/-- What a hop that gives a partial does: the continuation goes behind what it keeps. -/
theorem hop_revises (hpath : cfg.prefix_path = true) {sid' : Bytes}
    (h : w.hop cfg sid st env = some (st', .partial_text sid' text)) :
    sid' = sid ∧ ∃ kept, prefix_of cfg st false = some kept ∧
      st' = { st with
        rawDecoded := kept ++ (runPrefixHop sid st kept env.engine (w.readable env.disk)).generated
        chunkId := st.chunkId + 1 } ∧
      text = stripLangTag st'.rawDecoded := by
  simp only [hop, hpath, if_true] at h
  split at h
  · cases h
  · obtain ⟨kept, hkept, h⟩ := Option.map_eq_some_iff.1 h
    split at h
    · obtain ⟨rfl, htext⟩ := Prod.mk.inj h
      obtain ⟨rfl, rfl⟩ := Event.partial_text.inj htext
      exact ⟨rfl, kept, hkept, rfl, rfl⟩
    · cases (Prod.mk.inj h).2

/-- A replacement character in the continuation is one of the engine's. -/
theorem generated_replaced {kept : Bytes} {engine : Engine} {disk : Disk}
    (h : replaced (runPrefixHop sid st kept engine disk).generated = true) :
    replaced (runOneShotCore (buildPrefixRequest sid st kept) engine disk).output_text = true := by
  simp only [runPrefixHop] at h
  split at h
  · exact replaced_suffix (parse_suffix _) h
  · cases h

/-- A partial is that of a hop: it begins with what the hop keeps of the transcript before, and a
    replacement character in it is one of what the engine gave in that hop. -/
def Revised (cfg : Config) (w w' : Worker) (env : Env) (sid text : Bytes) : Prop :=
  ∃ st st' kept, w.sessions.get? sid = some st ∧ w'.sessions.get? sid = some st' ∧
    prefix_of cfg st false = some kept ∧ kept <+: st'.rawDecoded ∧ text = stripLangTag st'.rawDecoded ∧
    (replaced text = true → replaced (runOneShotCore (buildPrefixRequest sid st' kept) env.engine
      (w'.readable env.disk)).output_text = true)

/-- What is written on the way from one worker to another: no partial but of a hop. -/
def Writes (cfg : Config) (env : Env) (w w' : Worker) : Prop :=
  ∃ es, w'.events = w.events ++ es ∧
    ∀ e ∈ es, ∀ sid text, e.2.hop_text = some (sid, text) → Revised cfg w w' env sid text

theorem Writes.print {w₁ : Worker} {ev : Event} (h : w₁.print ev = some w')
    (hevents : w₁.events = w.events)
    (hev : ∀ sid text, ev.hop_text = some (sid, text) → Revised cfg w w₁ env sid text) :
    Writes cfg env w w' := by
  unfold Worker.print at h
  split at h
  · obtain rfl := Option.some.inj h
    refine ⟨[(some w₁.lines, ev)], congrArg (· ++ _) hevents, fun e he => ?_⟩
    rw [List.mem_singleton.1 he]
    exact hev
  · cases h

/-- What is no partial is written. -/
theorem Writes.other {w₁ : Worker} {ev : Event} (h : w₁.print ev = some w')
    (hevents : w₁.events = w.events) (hev : ev.hop_text = none) : Writes cfg env w w' :=
  .print h hevents fun _ _ htext => by rw [hev] at htext; cases htext

theorem begin_writes (h : w.handleBegin cfg input env = some w') : Writes cfg env w w' := by
  unfold handleBegin at h
  obtain ⟨sid, -, h⟩ := Option.bind_eq_some_iff.1 h
  split at h
  · exact .other h rfl rfl
  · split at h
    · exact .other h rfl rfl
    · split at h
      · exact .other h rfl rfl
      · exact .other h rfl rfl

theorem end_pcm_events {carried : Bool} : (w.end_pcm cfg sid st carried env).1.events = w.events ∧
    ∀ ev, (w.end_pcm cfg sid st carried env).2.2 = some ev → ev.hop_text = none := by
  unfold end_pcm
  split
  · split
    · exact ⟨rfl, fun ev hev => by obtain rfl := Option.some.inj hev; rfl⟩
    · dsimp only
      split
      · exact ⟨rfl, fun ev hev => by cases hev⟩
      · exact ⟨rfl, fun ev hev => by obtain rfl := Option.some.inj hev; rfl⟩
  · exact ⟨rfl, fun ev hev => by cases hev⟩

theorem final_no_hop {ev : Event} (h : w.final_event cfg sid st env = some ev) : ev.hop_text = none := by
  unfold final_event at h
  split at h
  · obtain rfl := Option.some.inj h
    rfl
  · split at h
    · obtain ⟨kept, -, rfl⟩ := Option.map_eq_some_iff.1 h
      rfl
    · obtain rfl := Option.some.inj h
      rfl

theorem end_writes {w₁ : Worker} (h : w₁.handleEnd cfg input env = some w')
    (hw : w₁.events = w.events) : Writes cfg env w w' := by
  unfold handleEnd at h
  obtain ⟨sid, -, h⟩ := Option.bind_eq_some_iff.1 h
  dsimp only at h
  split at h
  · exact .other h hw rfl
  · next session hget =>
    obtain ⟨hevents, hfailed⟩ := @end_pcm_events cfg w₁ sid (session.carry input) env
      (string? input "pcm_b64").isSome
    obtain ⟨ev, hev, h⟩ := Option.bind_eq_some_iff.1 h
    refine .other h (hevents.trans hw) ?_
    rcases Option.or_eq_some_iff.1 hev with hev | ⟨-, hev⟩
    · exact hfailed ev hev
    · exact final_no_hop hev

/-- The mel file of a hop: the transcript is as it was. -/
theorem hop_pcm_events : (w.hop_pcm cfg sid st env).1.events = w.events ∧
    (w.hop_pcm cfg sid st env).2.1.rawDecoded = st.rawDecoded ∧
    (w.hop_pcm cfg sid st env).2.1.chunkId = st.chunkId ∧
    ∀ ev, (w.hop_pcm cfg sid st env).2.2 = some ev → ev.hop_text = none := by
  unfold hop_pcm
  split
  · exact ⟨rfl, rfl, rfl, fun ev hev => by cases hev⟩
  · split
    · exact ⟨rfl, rfl, rfl, fun ev hev => by obtain rfl := Option.some.inj hev; rfl⟩
    · dsimp only
      split
      · exact ⟨rfl, rfl, rfl, fun ev hev => by cases hev⟩
      · exact ⟨rfl, rfl, rfl, fun ev hev => by obtain rfl := Option.some.inj hev; rfl⟩

section
variable (hdecode : ∀ tok, cfg.tokenizer = some tok → ∀ tokens s, tok.decode tokens = some s →
  utf8 s = true) (hpath : cfg.prefix_path = true)
include hdecode hpath

/-- A hop on the audio of a session that was put. -/
theorem hop_revised {st₀ : Session} {w₁ : Worker} {ev : Event} (hget : w.sessions.get? sid = some st₀)
    (hraw : st.rawDecoded = st₀.rawDecoded) (hchunk : st.chunkId = st₀.chunkId)
    (h : w₁.hop cfg sid st env = some (st', ev)) {sid' : Bytes}
    (htext : ev.hop_text = some (sid', text)) : Revised cfg w (w₁.put sid st') env sid' text := by
  cases ev with
  | partial_text sid₁ text₁ =>
    obtain ⟨rfl, rfl⟩ := Prod.mk.inj (Option.some.inj htext)
    obtain ⟨rfl, kept, hkept, rfl, rfl⟩ := hop_revises hpath h
    refine ⟨st₀, _, kept, hget, by rw [put, Dict.get?_set, if_pos rfl], ?_, List.prefix_append _ _, rfl,
      fun hreplaced => ?_⟩
    · rw [prefix_of, ← hraw, ← hchunk]
      exact hkept
    · -- what is kept ends with a whole character, so the mark is in the continuation
      obtain ⟨hutf8, hwhole⟩ := prefix_whole hdecode hkept
      exact generated_replaced
        (replaced_append hutf8 hwhole (replaced_suffix (strip_suffix _) hreplaced))
  | _ => cases htext

theorem chunk_writes (h : w.handleChunk cfg input env = some w') : Writes cfg env w w' := by
  unfold handleChunk at h
  obtain ⟨sid, -, h⟩ := Option.bind_eq_some_iff.1 h
  dsimp only at h
  split at h
  · exact .other h rfl rfl
  · next session hget =>
    obtain ⟨isLast, -, h⟩ := Option.bind_eq_some_iff.1 h
    split at h
    · exact end_writes h rfl
    · obtain ⟨hevents, hraw, hchunk, hfailed⟩ := @hop_pcm_events cfg
        (w.put sid ((session.carry input).touch env.now)) sid ((session.carry input).touch env.now) env
      split at h
      · next w₁ st₁ failed heq =>
        rw [heq] at hevents hfailed
        exact .other h hevents (hfailed failed rfl)
      · next w₁ st₁ heq =>
        rw [heq] at hevents hraw hchunk
        obtain ⟨⟨st₂, ev⟩, hhop, h⟩ := Option.bind_eq_some_iff.1 h
        exact .print h hevents fun _ _ htext =>
          hop_revised hdecode hpath hget hraw hchunk hhop htext

theorem line_writes {parse : Bytes → Except Bytes Json} {line : Bytes}
    (h : w.handle_line cfg parse line env = some w') : Writes cfg env w w' := by
  unfold handle_line at h
  split at h
  · exact .other h rfl rfl
  · unfold handle at h
    split at h
    · split at h
      · exact .other h rfl rfl
      · obtain ⟨event, -, h⟩ := Option.bind_eq_some_iff.1 h
        split at h
        · exact begin_writes h
        · split at h
          · exact chunk_writes hdecode hpath h
          · split at h
            · exact end_writes h rfl
            · obtain ⟨evId, -, h⟩ := Option.bind_eq_some_iff.1 h
              exact .other h rfl rfl
    · exact .other h rfl rfl

end

/-- A sweep writes no partial. -/
theorem reaped_events {idle : List (Bytes × Session)} (h : idle.foldlM reap w = some w') :
    ∃ es, w'.events = w.events ++ es ∧ ∀ e ∈ es, e.2.hop_text = none := by
  induction idle generalizing w with
  | nil =>
    obtain rfl := Option.some.inj h
    exact ⟨[], (List.append_nil _).symm, fun e he => absurd he List.not_mem_nil⟩
  | cons first idle ih =>
    rw [List.foldlM_cons] at h
    obtain ⟨w₁, hreap, h⟩ := Option.bind_eq_some_iff.1 h
    obtain ⟨es, hes, hnone⟩ := ih h
    unfold reap at hreap
    split at hreap
    · obtain rfl := Option.some.inj hreap
      refine ⟨(none, .timeout first.1) :: es, by rw [hes]; simp [drop, remove], fun e he => ?_⟩
      rcases List.mem_cons.1 he with rfl | he
      · rfl
      · exact hnone e he
    · cases hreap

end Worker

/-- Where a partial was written: on a line, which ran a hop. -/
def Hopped (cfg : Config) (parse : Bytes → Except Bytes Json) (as : List Label) (sid text : Bytes) : Prop :=
  ∃ as₁ line env as₂ w₁ w₂, as = as₁ ++ .line line env :: as₂ ∧ Run (step cfg parse) .init as₁ w₁ ∧
    step cfg parse w₁ (.line line env) w₂ ∧ Worker.Revised cfg w₁ w₂ env sid text

theorem Hopped.snoc {cfg : Config} {parse : Bytes → Except Bytes Json} {as : List Label} {sid text : Bytes}
    (h : Hopped cfg parse as sid text) (a : Label) : Hopped cfg parse (as ++ [a]) sid text := by
  obtain ⟨as₁, line, env, as₂, w₁, w₂, rfl, h⟩ := h
  exact ⟨as₁, line, env, as₂ ++ [a], w₁, w₂, by simp, h⟩

theorem run_hopped {cfg : Config} {parse : Bytes → Except Bytes Json}
    (hdecode : ∀ tok, cfg.tokenizer = some tok → ∀ tokens s, tok.decode tokens = some s → utf8 s = true)
    (hpath : cfg.prefix_path = true) {as : List Label} {w : Worker} (h : Run (step cfg parse) .init as w) :
    ∀ e ∈ w.events, ∀ sid text, e.2.hop_text = some (sid, text) → Hopped cfg parse as sid text := by
  induction h with
  | nil => exact fun e he => absurd he List.not_mem_nil
  | @snoc as w w' a hrun hstep ih =>
    intro e he sid text htext
    cases a with
    | line line env =>
      have hnext := hstep
      simp only [step, Worker.next] at hnext
      split at hnext
      · cases hnext
      · split at hnext
        · obtain rfl := Option.some.inj hnext
          exact (ih e he sid text htext).snoc _
        · cases hline : w.handle_line cfg parse line env with
          | none =>
            rw [hline] at hnext
            obtain rfl := Option.some.inj hnext
            exact (ih e he sid text htext).snoc _
          | some w₁ =>
            rw [hline] at hnext
            obtain rfl := Option.some.inj hnext
            obtain ⟨es, hes, hnew⟩ := Worker.line_writes hdecode hpath hline
            rcases List.mem_append.1 (hes ▸ he : e ∈ w.events ++ es) with he | he
            · exact (ih e he sid text htext).snoc _
            · exact ⟨as, line, env, [], w, _, rfl, hrun, hstep, hnew e he sid text htext⟩
    | sweep now =>
      simp only [step, Worker.next] at hstep
      split at hstep
      · cases hstep
      · obtain rfl := Option.some.inj hstep
        cases hsweep : w.sweep now with
        | none =>
          rw [hsweep] at he
          exact (ih e he sid text htext).snoc _
        | some w₁ =>
          rw [hsweep] at he
          obtain ⟨es, hes, hnone⟩ := Worker.reaped_events hsweep
          rcases List.mem_append.1 (hes ▸ he : e ∈ w.events ++ es) with he | he
          · exact (ih e he sid text htext).snoc _
          · rw [hnone e he] at htext
            cases htext

/-- The rollback is safe: it ends, nothing is kept in the warm-up, and else the longest prefix that may
    be confirmed; in each run a partial begins with what its hop keeps, and a replacement character in it
    is one of the engine's. -/
theorem rollback_safe (cfg : Config) (encode : Bytes → List ℕ) (decode : List ℕ → Bytes)
    (htok : cfg.tokenizer = some (.total encode decode)) (hdecode : ∀ tokens, utf8 (decode tokens) = true)
    (hunfixed : 0 < cfg.unfixedTokenNum) (hpath : cfg.prefix_path = true) :
    (∀ st isFinish, ∃ kept, prefix_of cfg st isFinish = some kept ∧
      if st.chunkId < cfg.unfixedChunkNum ∨ st.rawDecoded = [] ∨ encode st.rawDecoded = [] then kept = []
      else Confirmed decode (encode st.rawDecoded) cfg.unfixedTokenNum isFinish kept) ∧
    ∀ parse as w, Run (step cfg parse) .init as w → ∀ n sid text,
      (n, .partial_text sid text) ∈ w.events → Hopped cfg parse as sid text := by
  refine ⟨fun st isFinish => ?_, fun parse as w hrun n sid text hmem => ?_⟩
  · obtain ⟨kept, hkept, hconfirmed⟩ := @computePrefix_confirmed encode decode _
      cfg.unfixedChunkNum hunfixed st.rawDecoded st.chunkId isFinish
    exact ⟨kept, by rw [prefix_of, htok]; exact hkept, hconfirmed⟩
  · refine run_hopped (fun tok heq tokens s hs => ?_) hpath hrun _ hmem sid text rfl
    obtain rfl := Option.some.inj (htok.symm.trans heq)
    obtain rfl := Option.some.inj hs
    exact hdecode tokens

/-- A token is a byte; what is no character by itself is decoded as U+FFFD. -/
def byte_decode (tokens : List ℕ) : Bytes :=
  tokens.flatMap fun n => if n < 0x80 then [UInt8.ofNat n] else kUtf8Replacement

theorem byte_decode_utf8 (tokens : List ℕ) : utf8 (byte_decode tokens) = true := by
  induction tokens with
  | nil => rfl
  | cons n tokens ih =>
    refine utf8_append ?_ ih
    dsimp only
    split
    · next hn =>
      rw [utf8_ascii_cons]
      · rfl
      · rw [UInt8.lt_iff_toNat_lt, UInt8.toNat_ofNat']
        exact Nat.lt_of_le_of_lt (Nat.mod_le ..) hn
    · decide

def bytewise : Config :=
  ⟨1, none, true, false, some (.total (·.map UInt8.toNat) byte_decode), 2, 1, ascii "/tmp"⟩

/-- A cut inside the last character is rolled back to the one before. -/
theorem rollback_safe_bytes :
    (∀ tokens, utf8 (byte_decode tokens) = true) ∧
    computePrefix bytewise.tokenizer 2 1 [0x61, 0x62, 0xC3, 0xA9] 2 false = some [0x61, 0x62] ∧
    ∀ parse as w, Run (step bytewise parse) .init as w → ∀ n sid text,
      (n, .partial_text sid text) ∈ w.events → Hopped bytewise parse as sid text :=
  ⟨byte_decode_utf8, by decide,
    (rollback_safe bytewise _ byte_decode rfl byte_decode_utf8 Nat.one_pos rfl).2⟩

/-- A tokenizer begins every text with a token: of an empty transcript nothing is kept. -/
theorem empty_transcript_dropped :
    computePrefix (some (.total (fun s => 0x20 :: s.map UInt8.toNat ++ [0x20]) byte_decode)) 2 1 [] 2 false =
      some [] ∧
    Confirmable byte_decode [0x20, 0x20] 1 1 ∧ ¬ Confirmed byte_decode [0x20, 0x20] 1 false [] := by
  have hone : Confirmable byte_decode [0x20, 0x20] 1 1 := ⟨by decide, by decide, by decide, by decide⟩
  refine ⟨rfl, hone, ?_⟩
  rintro (⟨n, hn, hnil, -⟩ | ⟨hnone, -⟩)
  · obtain rfl : n = 1 := Nat.le_antisymm (Nat.le_of_lt_succ hn.proper) hn.pos
    exact absurd hnil (by decide)
  · exact hnone 1 hone

end LocalVoice.AsrWorker
