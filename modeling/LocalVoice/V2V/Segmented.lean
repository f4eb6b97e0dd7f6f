import LocalVoice.V2V.Sentences

/-! `SentenceBuffer` with a segmenter, where one is to be had for its language, and on its regex path.
    What `add` and `flush` emit has the letters and digits of what was added, in their order, but for
    the sentences the segmenter cuts off that are shorter than `min_chars`, which are swallowed. -/

namespace LocalVoice.V2V
open LocalVoice.Lib LocalVoice.Lib.PyText

/-! ### The segmenter -/

/-- A `pysbd.Segmenter`: it cuts a text into pieces. -/
structure Segmenter where
  segment : List Char → List (List Char)
  joins : ∀ text, (segment text).flatten = text

def pysbd_langs : List String :=
  ["am", "ar", "bg", "da", "de", "el", "en", "es", "fa", "fr", "hi", "hy", "it", "ja", "kk", "mr", "my",
    "nl", "pl", "ru", "ur", "zh"]

def lang_aliases : List (String × String) :=
  [("english", "en"), ("chinese", "zh"), ("japanese", "ja"), ("korean", "ko"), ("spanish", "es"),
    ("french", "fr"), ("german", "de"), ("italian", "it"), ("portuguese", "pt"), ("russian", "ru"),
    ("arabic", "ar"), ("hindi", "hi"), ("dutch", "nl"), ("polish", "pl"), ("greek", "el"),
    ("burmese", "my"), ("marathi", "mr")]

/-- `_normalize_lang`. -/
def normalize_lang (lang : Option String) : Option String :=
  (lang.filter (· ≠ "")).bind fun lang =>
    let lc := lower (strip lang)
    let code := (lang_aliases.lookup lc).getD lc
    if pysbd_langs.contains code then some code else none

namespace SentenceBuffer

/-- `__post_init__`: the segmenter for the language, if the library is there and makes one. -/
def post_init (pysbd : Option (String → Option Segmenter)) (language : Option String) :
    Option Segmenter :=
  pysbd.bind fun make => (normalize_lang language).bind make

section
variable (b : SentenceBuffer) (seg : Option Segmenter) (isalnum : Char → Bool)

/-- `_emit_pysbd`: what it emits, and what is left in the buffer. -/
def emit_pysbd (g : Segmenter) (buf : List Char) : List (List Char) × List Char :=
  if 1 < (g.segment buf).length then
    (((g.segment buf).dropLast.map strip_chars).filter fun stripped => b.min_chars ≤ stripped.length,
      (g.segment buf).getLastD [])
  else if b.max_buffer ≤ buf.length then
    (if strip_chars buf = [] then [] else [strip_chars buf], [])
  else ([], buf)

/-- `add`, with a segmenter or without one. -/
def Stream.feed (s : Stream) (chunk : List Char) : Stream :=
  match seg with
  | none => s.add b chunk
  | some g =>
    if chunk = [] then s
    else ⟨s.pieces ++ (b.emit_pysbd g (s.buf ++ chunk)).1, (b.emit_pysbd g (s.buf ++ chunk)).2⟩

/-- A stream of chunks, flushed at its end. -/
def emitted (chunks : List (List Char)) : List (List Char) :=
  ((chunks.foldl (Stream.feed b seg) .new).flush isalnum).pieces

end

/-! ### What is kept -/

/-- The letters and digits of a text. -/
def letters (isalnum : Char → Bool) (text : List Char) : List Char := text.filter isalnum

section
variable {b : SentenceBuffer} {seg : Option Segmenter} {isalnum : Char → Bool} {s : Stream}
  {buf rest text chunk : List Char} {chunks : List (List Char)}

theorem letters_append (isalnum : Char → Bool) (l m : List Char) :
    letters isalnum (l ++ m) = letters isalnum l ++ letters isalnum m := List.filter_append l m

theorem letters_strip (hspace : ∀ c, is_space c = true → isalnum c = false) (text : List Char) :
    letters isalnum (strip_chars text) = letters isalnum text := by
  obtain ⟨sp, sp', hsplit, hsp, hsp'⟩ := LowLatencyTTSBuffer.strip_split id text
  have hnone : ∀ l : List Char, (∀ c ∈ l, is_space c = true) → letters isalnum l = [] := fun l hl =>
    List.filter_eq_nil_iff.2 fun c hc => by simp [hspace c (hl c hc)]
  have hletters := congrArg (letters isalnum) hsplit
  rw [letters_append, letters_append, hnone sp hsp, hnone sp' hsp', List.nil_append,
    List.append_nil] at hletters
  exact hletters.symm

/-- The pieces that were cut off, each with whether it was emitted: the emitted ones are the stream's,
    the others are short, and with what is pending they have the letters of what was added. -/
structure Logged (b : SentenceBuffer) (seg : Option Segmenter) (isalnum : Char → Bool)
    (chunks : List (List Char)) (s : Stream) (log : List (List Char × Bool)) : Prop where
  emitted : s.pieces = (log.filter Prod.snd).map Prod.fst
  swallowed : ∀ e ∈ log, e.2 = false → seg.isSome = true ∧ e.1.length < b.min_chars
  letters : letters isalnum ((log.map Prod.fst).flatten ++ s.buf) = letters isalnum chunks.flatten

/-- More pieces are cut off a buffer. -/
theorem Logged.more {log new : List (List Char × Bool)} {chunk rest : List Char}
    (h : Logged b seg isalnum chunks s log)
    (hnew : ∀ e ∈ new, e.2 = false → seg.isSome = true ∧ e.1.length < b.min_chars)
    (hletters : SentenceBuffer.letters isalnum ((new.map Prod.fst).flatten ++ rest) =
      SentenceBuffer.letters isalnum (s.buf ++ chunk)) :
    Logged b seg isalnum (chunks ++ [chunk]) ⟨s.pieces ++ (new.filter Prod.snd).map Prod.fst, rest⟩
      (log ++ new) := by
  refine ⟨?_, fun e he => ?_, ?_⟩
  · dsimp only
    rw [h.emitted, List.filter_append, List.map_append]
  · rcases List.mem_append.1 he with he | he
    · exact h.swallowed e he
    · exact hnew e he
  · have hold := h.letters
    rw [letters_append] at hold
    rw [List.map_append, List.flatten_append, List.append_assoc, letters_append, hletters,
      letters_append, ← List.append_assoc, hold, List.flatten_append, letters_append,
      List.flatten_singleton]

/-- A round of the regex path that emits nothing leaves the buffer, or empties one of spaces. -/
theorem extract_none (h : b.extract_next_sentence_regex buf = (none, rest)) :
    rest = buf ∨ (rest = [] ∧ strip_chars buf = []) := by
  rw [extract_next_sentence_regex] at h
  split at h
  · cases h
  · split at h
    · obtain ⟨hpiece, rfl⟩ := Prod.mk.inj h
      split at hpiece
      · next hnil => exact .inr ⟨rfl, hnil⟩
      · cases hpiece
    · exact .inl (Prod.mk.inj h).2.symm

/-- The regex path keeps the letters. -/
theorem emit_letters (hspace : ∀ c, is_space c = true → isalnum c = false) (n : ℕ) :
    letters isalnum ((b.emit n buf).1.flatten ++ (b.emit n buf).2) = letters isalnum buf := by
  induction n generalizing buf with
  | zero => rfl
  | succ n ih =>
    rw [emit]
    split
    · next rest h =>
      rw [List.flatten_nil, List.nil_append]
      rcases extract_none h with rfl | ⟨rfl, hnil⟩
      · rfl
      · rw [← letters_strip hspace buf, hnil]
    · next piece rest h =>
      rw [List.flatten_cons, List.append_assoc, letters_append, ih]
      rcases extract_some h with ⟨front, rfl, rfl, -, -⟩ | ⟨rfl, -, rfl, -⟩
      · rw [letters_strip hspace, letters_append]
      · rw [letters_strip hspace]
        exact List.append_nil _

theorem emit_log (hspace : ∀ c, is_space c = true → isalnum c = false) (n : ℕ) (buf : List Char) :
    ∃ new : List (List Char × Bool), (b.emit n buf).1 = (new.filter Prod.snd).map Prod.fst ∧
      (∀ e ∈ new, e.2 = true) ∧
        letters isalnum ((new.map Prod.fst).flatten ++ (b.emit n buf).2) = letters isalnum buf := by
  have hall : ∀ e ∈ (b.emit n buf).1.map fun piece => (piece, true), e.2 = true := fun e he => by
    obtain ⟨piece, -, rfl⟩ := List.mem_map.1 he
    rfl
  have hpieces : ((b.emit n buf).1.map fun piece => (piece, true)).map Prod.fst =
      (b.emit n buf).1 := by
    rw [List.map_map]
    exact List.map_id _
  refine ⟨(b.emit n buf).1.map fun piece => (piece, true), ?_, hall, ?_⟩
  · rw [List.filter_eq_self.2 hall, hpieces]
  · rw [hpieces]
    exact emit_letters hspace n

/-- What the segmenter cuts off. -/
theorem emit_pysbd_log (hspace : ∀ c, is_space c = true → isalnum c = false) (g : Segmenter)
    (buf : List Char) : ∃ new : List (List Char × Bool),
      (b.emit_pysbd g buf).1 = (new.filter Prod.snd).map Prod.fst ∧
        (∀ e ∈ new, e.2 = false → e.1.length < b.min_chars) ∧
          letters isalnum ((new.map Prod.fst).flatten ++ (b.emit_pysbd g buf).2) =
            letters isalnum buf := by
  rw [emit_pysbd]
  split
  · next hmany =>
    refine ⟨(g.segment buf).dropLast.map fun piece =>
      (strip_chars piece, decide (b.min_chars ≤ (strip_chars piece).length)), ?_, ?_, ?_⟩
    · rw [List.filter_map, List.filter_map, List.map_map]
      rfl
    · intro e he hno
      obtain ⟨piece, -, rfl⟩ := List.mem_map.1 he
      exact Nat.lt_of_not_le (of_decide_eq_false hno)
    · have hstrip : ∀ pieces : List (List Char),
          letters isalnum (pieces.map strip_chars).flatten = letters isalnum pieces.flatten := by
        intro pieces
        induction pieces with
        | nil => rfl
        | cons piece pieces ih =>
          rw [List.map_cons, List.flatten_cons, List.flatten_cons, letters_append, letters_append, ih,
            letters_strip hspace]
      have hne : g.segment buf ≠ [] := by
        intro hnil
        rw [hnil] at hmany
        cases hmany
      have hjoin : (g.segment buf).dropLast.flatten ++ (g.segment buf).getLastD [] = buf := by
        conv_rhs => rw [← g.joins buf, ← List.dropLast_append_getLast hne, List.flatten_append,
          List.flatten_singleton]
        rw [List.getLastD_eq_getLast?, List.getLast?_eq_some_getLast hne]
        rfl
      rw [List.map_map, letters_append]
      conv_rhs => rw [← hjoin, letters_append, ← hstrip]
      rfl
  · split
    · refine ⟨if strip_chars buf = [] then [] else [(strip_chars buf, true)], ?_, ?_, ?_⟩
      · split <;> rfl
      · split
        · exact nofun
        · intro e he hno
          obtain rfl := List.mem_singleton.1 he
          cases hno
      · rw [← letters_strip hspace buf]
        split
        · next hnil => rw [hnil]; rfl
        · rw [List.map_singleton, List.flatten_singleton, List.append_nil]
    · exact ⟨[], rfl, nofun, rfl⟩

theorem feed_logged (hspace : ∀ c, is_space c = true → isalnum c = false) (b : SentenceBuffer)
    (seg : Option Segmenter) (chunks : List (List Char)) :
    ∃ log, Logged b seg isalnum chunks (chunks.foldl (Stream.feed b seg) .new) log := by
  induction chunks using List.reverseRecOn with
  | nil => exact ⟨[], rfl, nofun, rfl⟩
  | append_singleton chunks chunk ih =>
    obtain ⟨log, hlog⟩ := ih
    rw [List.foldl_append, List.foldl_cons, List.foldl_nil]
    generalize chunks.foldl (Stream.feed b seg) .new = s at hlog ⊢
    by_cases hchunk : chunk = []
    · subst hchunk
      have hsame : s.feed b seg [] = s := by
        cases seg <;> rfl
      rw [hsame]
      refine ⟨log, hlog.emitted, hlog.swallowed, ?_⟩
      rw [hlog.letters, List.flatten_append, List.flatten_singleton, List.append_nil]
    · cases seg with
      | none =>
        obtain ⟨new, hnew, hall, hletters⟩ :=
          emit_log hspace (b := b) ((s.buf ++ chunk).length + 1) (s.buf ++ chunk)
        refine ⟨log ++ new, ?_⟩
        rw [Stream.feed, Stream.add, if_neg hchunk, hnew]
        refine hlog.more (fun e he hno => ?_) hletters
        rw [hall e he] at hno
        cases hno
      | some g =>
        obtain ⟨new, hnew, hshort, hletters⟩ := emit_pysbd_log hspace (b := b) g (s.buf ++ chunk)
        refine ⟨log ++ new, ?_⟩
        rw [Stream.feed, if_neg hchunk, hnew]
        exact hlog.more (fun e he hno => ⟨rfl, hshort e he hno⟩) hletters

/-- What the emitted pieces have is what the pieces have that were cut off, without the swallowed. -/
theorem flush_logged (hspace : ∀ c, is_space c = true → isalnum c = false)
    {log : List (List Char × Bool)} (h : Logged b seg isalnum chunks s log) :
    ∃ log : List (List Char × Bool),
      (s.flush isalnum).pieces = (log.filter Prod.snd).map Prod.fst ∧
      (∀ e ∈ log, e.2 = false → seg.isSome = true ∧ e.1.length < b.min_chars) ∧
        letters isalnum (log.map Prod.fst).flatten = letters isalnum chunks.flatten := by
  by_cases hany : (strip_chars s.buf).any isalnum = true
  · refine ⟨log ++ [(strip_chars s.buf, true)], ?_, fun e he hno => ?_, ?_⟩
    · rw [Stream.flush, if_pos hany, h.emitted, List.filter_append, List.map_append]
      rfl
    · rcases List.mem_append.1 he with he | he
      · exact h.swallowed e he hno
      · obtain rfl := List.mem_singleton.1 he
        cases hno
    · rw [← h.letters, List.map_append, List.flatten_append, letters_append, letters_append,
        List.map_singleton, List.flatten_singleton, letters_strip hspace]
  · have hnone : letters isalnum s.buf = [] := by
      rw [← letters_strip hspace]
      refine List.filter_eq_nil_iff.2 fun c hc hletter => hany ?_
      exact List.any_eq_true.2 ⟨c, hc, hletter⟩
    refine ⟨log, ?_, h.swallowed, ?_⟩
    · rw [Stream.flush, if_neg hany, List.append_nil, h.emitted]
    · rw [← h.letters, letters_append, hnone, List.append_nil]

end

end SentenceBuffer

/-- The letters and digits of what is added come out in order, but for the pieces that a segmenter cuts
    off and that are too short; on the regex path there are none, and its loops end. -/
theorem letters_kept {isalnum : Char → Bool} (hspace : ∀ c, is_space c = true → isalnum c = false)
    (b : SentenceBuffer) (pysbd : Option (String → Option Segmenter)) (language : Option String)
    (chunks : List (List Char)) :
    (∃ log : List (List Char × Bool),
      b.emitted (SentenceBuffer.post_init pysbd language) isalnum chunks =
          (log.filter Prod.snd).map Prod.fst ∧
        (∀ e ∈ log, e.2 = false →
          (SentenceBuffer.post_init pysbd language).isSome = true ∧ e.1.length < b.min_chars) ∧
        SentenceBuffer.letters isalnum (log.map Prod.fst).flatten =
          SentenceBuffer.letters isalnum chunks.flatten) ∧
      ∀ buf n, buf.length < n → b.emit n buf = b.emit (buf.length + 1) buf ∧
        ∀ seen, SentenceBuffer.sentence_cut b.min_chars n seen buf =
          SentenceBuffer.sentence_cut b.min_chars (buf.length + 1) seen buf := by
  refine ⟨?_, fun buf n hn => ⟨SentenceBuffer.emit_enough hn (Nat.lt_succ_self _), fun seen =>
    SentenceBuffer.sentence_cut_enough hn (Nat.lt_succ_self _)⟩⟩
  obtain ⟨log, hlog⟩ := SentenceBuffer.feed_logged hspace b _ chunks
  exact SentenceBuffer.flush_logged hspace hlog

theorem letters_kept_hello :
    (∃ log : List (List Char × Bool),
      (⟨2, 200⟩ : SentenceBuffer).emitted (SentenceBuffer.post_init none none) Char.isAlphanum
          ["I\nam".toList, " here".toList] = (log.filter Prod.snd).map Prod.fst ∧
        (∀ e ∈ log, e.2 = false →
          (SentenceBuffer.post_init none none).isSome = true ∧ e.1.length < 2) ∧
        SentenceBuffer.letters Char.isAlphanum (log.map Prod.fst).flatten =
          SentenceBuffer.letters Char.isAlphanum ["I\nam".toList, " here".toList].flatten) ∧
      ∀ buf n, buf.length < n →
        (⟨2, 200⟩ : SentenceBuffer).emit n buf =
            (⟨2, 200⟩ : SentenceBuffer).emit (buf.length + 1) buf ∧
          ∀ seen, SentenceBuffer.sentence_cut 2 n seen buf =
            SentenceBuffer.sentence_cut 2 (buf.length + 1) seen buf :=
  letters_kept LowLatencyTTSBuffer.ascii_alnum.space ⟨2, 200⟩ none none
    ["I\nam".toList, " here".toList]

/-- The lines of a text, each with its end. -/
def lines : List Char → List (List Char)
  | [] => []
  | c :: rest =>
    if c = '\n' then [c] :: lines rest
    else match lines rest with
      | [] => [[c]]
      | line :: more => (c :: line) :: more

theorem lines_join (text : List Char) : (lines text).flatten = text := by
  induction text with
  | nil => rfl
  | cons c rest ih =>
    rw [lines]
    split
    · rw [List.flatten_cons, ih]
      rfl
    · split
      · next hnil =>
        rw [hnil] at ih
        rw [← ih]
        rfl
      · next line more hcons =>
        rw [hcons] at ih
        rw [List.flatten_cons, List.cons_append, ← List.flatten_cons, ih]

/-- A segmenter that ends a sentence where a line ends: the one letter of the first line is lost. -/
theorem short_sentence_swallowed :
    SentenceBuffer.letters Char.isAlphanum
        ((⟨2, 200⟩ : SentenceBuffer).emitted
          (SentenceBuffer.post_init (some fun _ => some ⟨lines, lines_join⟩) (some "en"))
          Char.isAlphanum ["I\nam here".toList]).flatten ≠
      SentenceBuffer.letters Char.isAlphanum ["I\nam here".toList].flatten := by
  decide +kernel

end LocalVoice.V2V
