import LocalVoice.V2V.Chunks
import LocalVoice.WyomingTts.Clause

/-! `ClauseBuffer` against the `LowLatencyTTSBuffer` of the server, which it mirrors. They part in two
    places: the adapter takes the characters of extension A for CJK, and the server does not give on a
    remainder without a letter or a digit. Elsewhere they go in lockstep. -/

namespace LocalVoice.WyomingTts
open LocalVoice.Lib LocalVoice.Lib.PyText
open LocalVoice.V2V (LowLatencyTTSBuffer)
open LocalVoice.V2V.LowLatencyTTSBuffer (hard_cut soft_cut)

/-- The arguments of a buffer, and the `OVS_TTS_LOW_LATENCY_*_CHARS` of the environment for a CJK language
    or not, where they are set. -/
structure Settings where
  language : Option String
  min_chars : Option ℤ
  target_chars : Option ℤ
  max_chars : Option ℤ
  env_min : Bool → Option ℤ
  env_target : Bool → Option ℤ
  env_max : Bool → Option ℤ

/-- A `ClauseBuffer` with these arguments. -/
def ClauseBuffer.init (s : Settings) : ClauseBuffer :=
  .new (fun cjk =>
    ⟨s.min_chars.getD ((s.env_min cjk).getD (if cjk then 15 else 24)),
      s.target_chars.getD ((s.env_target cjk).getD (if cjk then 24 else 48)),
      s.max_chars.getD ((s.env_max cjk).getD (if cjk then 40 else 80))⟩) s.language

/-- A `LowLatencyTTSBuffer` with these arguments. -/
def server_init (s : Settings) : LowLatencyTTSBuffer :=
  let cjk := cjk_langs.contains (lower (strip (s.language.getD "")))
  .post_init (s.language.getD "") (s.min_chars.or (s.env_min cjk)) (s.target_chars.or (s.env_target cjk))
    (s.max_chars.or (s.env_max cjk))

/-- The same language and limits. -/
structure Mirrors (c : ClauseBuffer) (b : LowLatencyTTSBuffer) : Prop where
  language : c.language = b.language
  min_chars : c.min_chars = b.min_chars
  target_chars : c.target_chars = b.target_chars
  max_chars : c.max_chars = b.max_chars

theorem init_mirrors (s : Settings) : Mirrors (.init s) (server_init s) := by
  have hor : ∀ (a b : Option ℤ) (d : ℤ), (a.or b).getD d = a.getD (b.getD d) := by
    intro a b d
    cases a <;> rfl
  have hmin : (ClauseBuffer.init s).min_chars = (server_init s).min_chars := by
    simp only [ClauseBuffer.init, ClauseBuffer.new, server_init, LowLatencyTTSBuffer.post_init, hor]
    rfl
  have htarget : (ClauseBuffer.init s).target_chars = (server_init s).target_chars := by
    simp only [ClauseBuffer.init, ClauseBuffer.new, server_init, LowLatencyTTSBuffer.post_init, hor]
    rfl
  have hmax : (ClauseBuffer.init s).max_chars = (server_init s).max_chars := by
    simp only [ClauseBuffer.init, ClauseBuffer.new, server_init, LowLatencyTTSBuffer.post_init, hor]
    rfl
  exact ⟨rfl, hmin, htarget, hmax⟩

/-! ### A round -/

/-- A pending text that both treat alike: it has a hard break to cut at, or the language is CJK, or both
    find a CJK character in it, or neither does. -/
def Alike (language : String) (text : List Char) : Prop :=
  (hard_cut id text).isSome = true ∨ cjk_langs.contains (lower language) = true ∨
    contains_cjk text = text.any V2V.contains_cjk

instance (language : String) (text : List Char) : Decidable (Alike language text) :=
  inferInstanceAs (Decidable (_ ∨ _ ∨ _))

section
variable {c : ClauseBuffer} {b : LowLatencyTTSBuffer} {isalnum : Char → Bool} {text : List Char}

theorem strip_id (text : List Char) : LowLatencyTTSBuffer.strip id text = strip_chars text := rfl

theorem cjk_id (hm : Mirrors c b)
    (h : cjk_langs.contains (lower c.language) = true ∨ contains_cjk text = text.any V2V.contains_cjk) :
    b.is_cjk id text = c.is_cjk text := by
  have hlangs : LowLatencyTTSBuffer.cjk_languages.contains (lower b.language) =
      cjk_langs.contains (lower c.language) := by rw [hm.language]; rfl
  rw [LowLatencyTTSBuffer.is_cjk, ClauseBuffer.is_cjk, hlangs]
  rcases h with hcjk | hsame
  · rw [hcjk, Bool.or_true, Bool.or_true]
  · rw [hsame]
    rfl

theorem hard_id (text : List Char) : hard_cut id text = ((first_break text hard_breaks).filter fun i =>
    min_sentence_chars ≤ (strip_chars (text.take (i + 1))).length).map (· + 1) := by
  unfold hard_cut
  rw [show LowLatencyTTSBuffer.first_index id LowLatencyTTSBuffer.hard_breaks.contains text =
    first_break text hard_breaks from rfl]
  cases first_break text hard_breaks with
  | none => rfl
  | some i =>
    simp only [Option.bind_some, Option.filter_some, strip_id, LowLatencyTTSBuffer.default_min_sentence_chars,
      min_sentence_chars]
    by_cases hlen : 2 ≤ (strip_chars (text.take (i + 1))).length
    · simp [hlen]
    · simp [hlen]

theorem last_id (text : List Char) (p : Char → Bool) :
    LowLatencyTTSBuffer.last_index id p text = last_index text p := rfl

theorem length_cut_id (hm : Mirrors c b) (hcjk : b.is_cjk id text = c.is_cjk text) :
    b.choose_length_cut id text = c.length_cut text := by
  simp only [LowLatencyTTSBuffer.choose_length_cut, ClauseBuffer.length_cut, hcjk, hm.min_chars,
    hm.target_chars, hm.max_chars, last_id, last_break]
  rfl

/-- Where the texts are taken alike they are cut alike. -/
theorem cut_id (hm : Mirrors c b) (halike : Alike c.language text) :
    c.cut text = (hard_cut id text).or ((b.soft_cut id text).or (b.length_cut id text)) := by
  unfold ClauseBuffer.cut
  dsimp only
  rw [hard_id]
  cases hhard : (first_break text hard_breaks).filter fun i =>
      min_sentence_chars ≤ (strip_chars (text.take (i + 1))).length with
  | some i => rfl
  | none =>
    have hcjk := cjk_id hm (halike.resolve_left (by rw [hard_id, hhard]; exact Bool.false_ne_true))
    have hsoft : b.soft_cut id text =
        (last_break text (if c.is_cjk text then cjk_soft_breaks else latin_soft_breaks) text.length).bind
          fun i => if c.min_chars ≤ (strip_chars (text.take (i + 1))).length then some (i + 1)
            else if c.target_chars ≤ (strip_chars text).length then some text.length else none := by
      simp only [soft_cut, hcjk, hm.min_chars, hm.target_chars, last_id, last_break, List.take_length, strip_id]
      rfl
    rw [hsoft]
    cases hlast : (last_break text (if c.is_cjk text then cjk_soft_breaks else latin_soft_breaks)
        text.length).bind fun i =>
        if c.min_chars ≤ (strip_chars (text.take (i + 1))).length then some (i + 1)
        else if c.target_chars ≤ (strip_chars text).length then some text.length else none with
    | some n => rfl
    | none =>
      simp only [LowLatencyTTSBuffer.length_cut, hcjk, length_cut_id hm hcjk, hm.max_chars, hm.target_chars,
        strip_id]
      rfl

/-- A round before the end of the reply. -/
theorem next_id (hm : Mirrors c b) (halike : Alike c.language (lstrip c.buf)) :
    c.next false = ((b.next_chunk id isalnum false c.buf).1,
      { c with buf := (b.next_chunk id isalnum false c.buf).2 }) := by
  have hcut := cut_id hm halike
  unfold ClauseBuffer.next LowLatencyTTSBuffer.next_chunk LowLatencyTTSBuffer.chunk_of
  rw [show LowLatencyTTSBuffer.lstrip id c.buf = lstrip c.buf from rfl]
  dsimp only
  split
  · rfl
  · simp only [Bool.false_eq_true, if_false]
    rw [hcut]
    cases (hard_cut id (lstrip c.buf)).or ((b.soft_cut id (lstrip c.buf)).or
        (b.length_cut id (lstrip c.buf))) with
    | none => rfl
    | some n => rfl

/-! ### A run -/

namespace ClauseBuffer

/-- The pending texts of the rounds of `_emit`. -/
def rounds : ℕ → ClauseBuffer → List (List Char)
  | 0, _ => []
  | n + 1, c =>
    lstrip c.buf :: match c.next false with
    | (none, _) => []
    | (some _, c') => rounds n c'

/-- The pieces of each `add`, and the buffer after them. -/
def adds (c : ClauseBuffer) : List (List Char) → List (List (List Char)) × ClauseBuffer
  | [] => ([], c)
  | chunk :: chunks =>
    ((c.add chunk).1 :: ((c.add chunk).2.adds chunks).1, ((c.add chunk).2.adds chunks).2)

/-- The pending texts of all the rounds. -/
def pending (c : ClauseBuffer) : List (List Char) → List (List Char)
  | [] => []
  | chunk :: chunks =>
    (if chunk = [] then [] else rounds ((c.buf ++ chunk).length + 1) { c with buf := c.buf ++ chunk }) ++
      (c.add chunk).2.pending chunks

end ClauseBuffer

/-- The pieces of each `add` of the server's buffer, and what is left in it. -/
def server_adds (b : LowLatencyTTSBuffer) (isalnum : Char → Bool) (buf : List Char) :
    List (List Char) → List (List (List Char)) × List Char
  | [] => ([], buf)
  | chunk :: chunks =>
    ((b.add id isalnum buf chunk).1 :: (server_adds b isalnum (b.add id isalnum buf chunk).2 chunks).1,
      (server_adds b isalnum (b.add id isalnum buf chunk).2 chunks).2)

/-- The rounds of an `add` go in lockstep. -/
theorem emit_id (hm : Mirrors c b) {n : ℕ} (h : ∀ text ∈ ClauseBuffer.rounds n c, Alike c.language text) :
    ClauseBuffer.emit false n c = ((b.emit id isalnum false n c.buf).1,
      { c with buf := (b.emit id isalnum false n c.buf).2 }) := by
  induction n generalizing c with
  | zero => rfl
  | succ n ih =>
    rw [ClauseBuffer.rounds] at h
    obtain ⟨hfirst, hrest⟩ := List.forall_mem_cons.1 h
    have hnext := @next_id c b isalnum hm hfirst
    rw [ClauseBuffer.emit, LowLatencyTTSBuffer.emit, hnext]
    rw [hnext] at hrest
    rcases hchunk : b.next_chunk id isalnum false c.buf with ⟨_ | part, rest⟩
    · rfl
    · rw [hchunk] at hrest
      have hemit := ih (c := { c with buf := rest }) ⟨hm.language, hm.min_chars, hm.target_chars, hm.max_chars⟩
        hrest
      dsimp only
      rw [hemit]

theorem add_id (hm : Mirrors c b) {chunk : List Char} (h : chunk ≠ [] → ∀ text ∈
    ClauseBuffer.rounds ((c.buf ++ chunk).length + 1) { c with buf := c.buf ++ chunk }, Alike c.language text) :
    c.add chunk = ((b.add id isalnum c.buf chunk).1, { c with buf := (b.add id isalnum c.buf chunk).2 }) := by
  unfold ClauseBuffer.add LowLatencyTTSBuffer.add
  split
  · rfl
  · next hne =>
    exact emit_id (c := { c with buf := c.buf ++ chunk })
      ⟨hm.language, hm.min_chars, hm.target_chars, hm.max_chars⟩ (h hne)

/-- So do the chunks of a reply. -/
theorem adds_id (hm : Mirrors c b) {chunks : List (List Char)}
    (h : ∀ text ∈ c.pending chunks, Alike c.language text) :
    c.adds chunks = ((server_adds b isalnum c.buf chunks).1,
      { c with buf := (server_adds b isalnum c.buf chunks).2 }) := by
  induction chunks generalizing c with
  | nil => rfl
  | cons chunk chunks ih =>
    rw [ClauseBuffer.pending] at h
    obtain ⟨hfirst, hrest⟩ := List.forall_mem_append.1 h
    have hadd := @add_id c b isalnum hm chunk fun hne => by rwa [if_neg hne] at hfirst
    rw [hadd] at hrest
    have hadds := ih (c := { c with buf := (b.add id isalnum c.buf chunk).2 })
      ⟨hm.language, hm.min_chars, hm.target_chars, hm.max_chars⟩ hrest
    rw [ClauseBuffer.adds, server_adds, hadd, hadds]

theorem strip_lstrip (text : List Char) : strip_chars (lstrip text) = strip_chars text :=
  congrArg rstrip (dropWhile_dropWhile text)

/-- A flush is one round, and gives on what is left. -/
theorem flush_pieces (c : ClauseBuffer) : c.flush.1 = (ClauseBuffer.or_none (strip_chars c.buf)).toList := by
  have hempty : ∀ n, (ClauseBuffer.emit true n { c with buf := [] }).1 = [] := by
    intro n
    cases n <;> rfl
  rw [ClauseBuffer.flush, ClauseBuffer.emit, ClauseBuffer.next, ← strip_lstrip c.buf]
  split
  · next hnext =>
    split at hnext
    · next hnil => rw [hnil]; rfl
    · rw [(Prod.mk.inj hnext).1]
      rfl
  · next part c' hnext =>
    split at hnext
    · cases (Prod.mk.inj hnext).1
    · obtain ⟨hpart, rfl⟩ := Prod.mk.inj hnext
      rw [hpart, hempty]
      rfl

/-- The server gives on what is left when it can be spoken. -/
theorem server_flush_pieces (b : LowLatencyTTSBuffer) (isalnum : Char → Bool) (buf : List Char) :
    (b.flush id isalnum buf).1 =
      if (strip_chars buf).any isalnum then (ClauseBuffer.or_none (strip_chars buf)).toList else [] := by
  have hempty : (b.emit_ready id isalnum true []).1 = [] := rfl
  rw [LowLatencyTTSBuffer.flush, LowLatencyTTSBuffer.emit_ready_eq, LowLatencyTTSBuffer.next_chunk,
    LowLatencyTTSBuffer.chunk_of, ← strip_lstrip buf]
  rw [show LowLatencyTTSBuffer.lstrip id buf = lstrip buf from rfl]
  split
  · next rest hnext =>
    split at hnext
    · next hnil => rw [hnil]; rfl
    · rw [if_pos rfl] at hnext
      have hnone : (if (strip_chars (lstrip buf)).any isalnum then
          ClauseBuffer.or_none (strip_chars (lstrip buf)) else none) = none := (Prod.mk.inj hnext).1
      split at hnone
      · next hspoken => rw [if_pos hspoken, hnone]; rfl
      · next hspoken => rw [if_neg hspoken]
  · next part rest hnext =>
    split at hnext
    · cases (Prod.mk.inj hnext).1
    · rw [if_pos rfl] at hnext
      obtain ⟨hpart, rfl⟩ := Prod.mk.inj hnext
      have hsome : (if (strip_chars (lstrip buf)).any isalnum then
          ClauseBuffer.or_none (strip_chars (lstrip buf)) else none) = some part := hpart
      rw [hempty]
      split at hsome
      · next hspoken => rw [if_pos hspoken, hsome]; rfl
      · cases hsome

end

/-- In a reply whose pending texts are treated alike the pieces are the same after every `add`; they are the
    same at the flush when nothing is left, or something that can be spoken, and only then. -/
theorem mirrors_server (s : Settings) (isalnum : Char → Bool) (chunks : List (List Char))
    (h : ∀ text ∈ (ClauseBuffer.init s).pending chunks, Alike (s.language.getD "") text) :
    ((ClauseBuffer.init s).adds chunks).1 = (server_adds (server_init s) isalnum [] chunks).1 ∧
      (((ClauseBuffer.init s).adds chunks).2.flush.1 =
          ((server_init s).flush id isalnum (server_adds (server_init s) isalnum [] chunks).2).1 ↔
        strip_chars ((ClauseBuffer.init s).adds chunks).2.buf = [] ∨
          (strip_chars ((ClauseBuffer.init s).adds chunks).2.buf).any isalnum = true) := by
  have hadds := @adds_id (.init s) (server_init s) isalnum (init_mirrors s) chunks h
  have hbuf : ((ClauseBuffer.init s).adds chunks).2.buf = (server_adds (server_init s) isalnum [] chunks).2 :=
    congrArg (fun r => r.2.buf) hadds
  refine ⟨congrArg Prod.fst hadds, ?_⟩
  rw [flush_pieces, server_flush_pieces, ← hbuf]
  generalize strip_chars ((ClauseBuffer.init s).adds chunks).2.buf = text
  cases hspoken : text.any isalnum with
  | true => simp
  | false =>
    cases text with
    | nil => simp [ClauseBuffer.or_none]
    | cons a text => simp [ClauseBuffer.or_none]

/-- Nothing but the defaults. -/
def plain_settings : Settings := ⟨none, none, none, none, fun _ => none, fun _ => none, fun _ => none⟩

theorem mirrors_server_plain :
    ((ClauseBuffer.init plain_settings).adds ["Well".toList, ", ok! And".toList]).1 =
        (server_adds (server_init plain_settings) Char.isAlphanum [] ["Well".toList, ", ok! And".toList]).1 ∧
      (((ClauseBuffer.init plain_settings).adds ["Well".toList, ", ok! And".toList]).2.flush.1 =
          ((server_init plain_settings).flush id Char.isAlphanum (server_adds (server_init plain_settings)
            Char.isAlphanum [] ["Well".toList, ", ok! And".toList]).2).1 ↔
        strip_chars ((ClauseBuffer.init plain_settings).adds ["Well".toList, ", ok! And".toList]).2.buf = [] ∨
          (strip_chars ((ClauseBuffer.init plain_settings).adds ["Well".toList, ", ok! And".toList]).2.buf).any
            Char.isAlphanum = true) :=
  mirrors_server plain_settings Char.isAlphanum ["Well".toList, ", ok! And".toList] (by decide +kernel)

/-- A full stop is left at the end of a reply; and an ideograph of extension A in a Latin text. -/
theorem mirror_breaks :
    ((ClauseBuffer.init plain_settings).adds [['。']]).2.flush.1 = [['。']] ∧
      ((server_init plain_settings).flush id Char.isAlphanum
        (server_adds (server_init plain_settings) Char.isAlphanum [] [['。']]).2).1 = [] ∧
      ((ClauseBuffer.init plain_settings).adds ['㐀' :: List.replicate 47 'a']).1 = [[]] ∧
      (server_adds (server_init plain_settings) Char.isAlphanum [] ['㐀' :: List.replicate 47 'a']).1 =
        [['㐀' :: List.replicate 47 'a']] := by
  decide +kernel

end LocalVoice.WyomingTts
