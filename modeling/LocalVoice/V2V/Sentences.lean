import LocalVoice.V2V.Words

/-! `SentenceBuffer` on its regex path, and what either buffer sends to the engine. Only `flush` looks
    for a letter or digit; what `add` emits has one as long as every stretch of the pending text that
    may become a piece has one (`pieces_speakable`). -/

namespace LocalVoice.V2V
open LocalVoice.Lib LocalVoice.Lib.PyText

/-! ### The buffer of sentences -/

/-- The limits of a `SentenceBuffer` that has no segmenter; a negative one is like zero. -/
structure SentenceBuffer where
  min_chars : ℕ
  max_buffer : ℕ

namespace SentenceBuffer

/-- The characters of `[。！？；\n]+`, and those that end a sentence in front of whitespace. -/
def cjk_ends : List Char := ['。', '！', '？', '；', '\n']
def ascii_ends : List Char := ['!', '?', '.']

/-- `_SENTENCE_END_RE.search`: the end of the first match. -/
def sentence_end : List Char → Option ℕ
  | [] => none
  | c :: rest =>
    if cjk_ends.contains c then some ((rest.takeWhile cjk_ends.contains).length + 1)
    else if ascii_ends.contains c && rest.head?.all is_space then some 1
    else (sentence_end rest).map (· + 1)

/-- The loop over the matches: the text up to the first one that closes a sentence of `min_chars`,
    and the text behind it. -/
def sentence_cut (min_chars : ℕ) : ℕ → List Char → List Char → Option (List Char × List Char)
  | 0, _, _ => none
  | n + 1, seen, text =>
    (sentence_end text).bind fun stop =>
      if min_chars ≤ (strip_chars (seen ++ text.take stop)).length then
        some (seen ++ text.take stop, text.drop stop)
      else sentence_cut min_chars n (seen ++ text.take stop) (text.drop stop)

variable (b : SentenceBuffer) (isalnum : Char → Bool)

/-- `_extract_next_sentence_regex`; there are no more matches than characters. -/
def extract_next_sentence_regex (buf : List Char) : Option (List Char) × List Char :=
  match sentence_cut b.min_chars (buf.length + 1) [] buf with
  | some (front, rest) => (some (strip_chars front), rest)
  | none =>
    if b.max_buffer ≤ buf.length then
      (if strip_chars buf = [] then none else some (strip_chars buf), [])
    else (none, buf)

/-- The loop of `_emit_regex`. -/
def emit : ℕ → List Char → List (List Char) × List Char
  | 0, buf => ([], buf)
  | n + 1, buf =>
    match b.extract_next_sentence_regex buf with
    | (none, rest) => ([], rest)
    | (some sentence, rest) => (sentence :: (emit n rest).1, (emit n rest).2)

/-- What has come out of a buffer, and what is pending in it. -/
structure Stream where
  pieces : List (List Char)
  buf : List Char

def Stream.new : Stream := ⟨[], []⟩

/-- `add`; a sentence takes a character at least, so there are no more rounds than characters, and
    the last one. -/
def Stream.add (s : Stream) (chunk : List Char) : Stream :=
  if chunk = [] then s
  else
    ⟨s.pieces ++ (b.emit ((s.buf ++ chunk).length + 1) (s.buf ++ chunk)).1,
      (b.emit ((s.buf ++ chunk).length + 1) (s.buf ++ chunk)).2⟩

/-- `flush`. -/
def Stream.flush (s : Stream) : Stream :=
  ⟨s.pieces ++ if (strip_chars s.buf).any isalnum then [strip_chars s.buf] else [], []⟩

example : ((Stream.new.add ⟨2, 200⟩ "It is 3.14. Rea".toList).add ⟨2, 200⟩ "lly?".toList).pieces =
    ["It is 3.14.".toList, "Really?".toList] := by decide +kernel

/-! ### Where a sentence ends -/

/-- Between the two texts a match of the regex ends. -/
def Ends (front rest : List Char) : Prop :=
  ∃ l c, front = l ++ [c] ∧ ((cjk_ends.contains c = true ∧ ∀ d ∈ rest.head?, cjk_ends.contains d = false) ∨
    (ascii_ends.contains c = true ∧ rest.head?.all is_space = true))

theorem Ends.append {front rest : List Char} (h : Ends front rest) (l : List Char) :
    Ends (l ++ front) rest := by
  obtain ⟨l', c, rfl, hc⟩ := h
  exact ⟨l ++ l', c, (List.append_assoc ..).symm, hc⟩

theorem sentence_end_ends {text : List Char} {stop : ℕ} (h : sentence_end text = some stop) :
    0 < stop ∧ Ends (text.take stop) (text.drop stop) := by
  induction text generalizing stop with
  | nil => cases h
  | cons c rest ih =>
    rw [sentence_end] at h
    split at h
    · next hc =>
      obtain rfl := Option.some.inj h
      refine ⟨Nat.succ_pos _, ?_⟩
      -- the run of such characters is taken to its end
      have hsplit := List.takeWhile_append_dropWhile (p := cjk_ends.contains) (l := rest)
      have htake : rest.take (rest.takeWhile cjk_ends.contains).length =
          rest.takeWhile cjk_ends.contains := by
        conv_lhs => rw [← hsplit]
        rw [List.take_left' (by rw [hsplit])]
      have hdrop : rest.drop (rest.takeWhile cjk_ends.contains).length =
          rest.dropWhile cjk_ends.contains := by
        conv_lhs => rw [← hsplit]
        rw [List.drop_left' (by rw [hsplit])]
      rw [List.take_succ_cons, List.drop_succ_cons, htake, hdrop]
      have hnext : ∀ d ∈ (rest.dropWhile cjk_ends.contains).head?, cjk_ends.contains d = false := by
        intro d hd
        have hnot := List.head?_dropWhile_not cjk_ends.contains rest
        rw [hd] at hnot
        exact hnot
      rcases List.eq_nil_or_concat' (rest.takeWhile cjk_ends.contains) with hnil | ⟨l, d, hl⟩
      · rw [hnil]
        exact ⟨[], c, rfl, .inl ⟨hc, hnext⟩⟩
      · have hd : cjk_ends.contains d = true :=
          List.mem_takeWhile_imp (p := cjk_ends.contains) (l := rest) (by rw [hl]; simp)
        exact ⟨c :: l, d, by rw [hl, List.cons_append], .inl ⟨hd, hnext⟩⟩
    · split at h
      · next hc =>
        obtain rfl := Option.some.inj h
        rw [Bool.and_eq_true] at hc
        exact ⟨Nat.one_pos, [], c, rfl, .inr hc⟩
      · obtain ⟨k, hk, rfl⟩ := Option.map_eq_some_iff.1 h
        obtain ⟨-, hends⟩ := ih hk
        exact ⟨Nat.succ_pos k, hends.append [c]⟩

variable {b : SentenceBuffer} {isalnum : Char → Bool} {buf front rest text seen piece x : List Char}

theorem sentence_cut_some {min_chars n : ℕ}
    (h : sentence_cut min_chars n seen text = some (front, rest)) :
    seen ++ text = front ++ rest ∧ Ends front rest ∧ min_chars ≤ (strip_chars front).length := by
  induction n generalizing seen text with
  | zero => cases h
  | succ n ih =>
    rw [sentence_cut] at h
    obtain ⟨stop, hstop, h⟩ := Option.bind_eq_some_iff.1 h
    obtain ⟨-, hends⟩ := sentence_end_ends hstop
    split at h
    · next hlong =>
      obtain ⟨rfl, rfl⟩ := Prod.mk.inj (Option.some.inj h)
      exact ⟨by rw [List.append_assoc, List.take_append_drop], hends.append seen, hlong⟩
    · obtain ⟨heq, hrest⟩ := ih h
      rw [List.append_assoc, List.take_append_drop] at heq
      exact ⟨heq, hrest⟩

/-- More rounds than characters make no difference. -/
theorem sentence_cut_enough {min_chars n m : ℕ} (hn : text.length < n) (hm : text.length < m) :
    sentence_cut min_chars n seen text = sentence_cut min_chars m seen text := by
  induction n generalizing m seen text with
  | zero => omega
  | succ n ih =>
    cases m with
    | zero => omega
    | succ m =>
      rw [sentence_cut, sentence_cut]
      cases hstop : sentence_end text with
      | none => rfl
      | some stop =>
        have hpos := (sentence_end_ends hstop).1
        have hlen : (text.drop stop).length = text.length - stop := List.length_drop
        have hle : text.length ≠ 0 := by
          intro hzero
          rw [List.length_eq_zero_iff.1 hzero] at hstop
          cases hstop
        rw [Option.bind_some, Option.bind_some, ih (m := m) (by omega) (by omega)]

/-- What one round emits. -/
theorem extract_some (h : b.extract_next_sentence_regex buf = (some piece, rest)) :
    (∃ front, piece = strip_chars front ∧ buf = front ++ rest ∧ Ends front rest ∧
        b.min_chars ≤ (strip_chars front).length) ∨
      (piece = strip_chars buf ∧ strip_chars buf ≠ [] ∧ rest = [] ∧ b.max_buffer ≤ buf.length) := by
  rw [extract_next_sentence_regex] at h
  split at h
  · next front rest' hcut =>
    obtain ⟨hpiece, rfl⟩ := Prod.mk.inj h
    obtain ⟨heq, hends, hlong⟩ := sentence_cut_some hcut
    exact .inl ⟨front, (Option.some.inj hpiece).symm, heq, hends, hlong⟩
  · split at h
    · next hfull =>
      obtain ⟨hpiece, rfl⟩ := Prod.mk.inj h
      split at hpiece
      · cases hpiece
      · next hne => exact .inr ⟨(Option.some.inj hpiece).symm, hne, rfl, hfull⟩
    · cases h

/-- The loop ends: what one round leaves is shorter. -/
theorem extract_shorter (h : b.extract_next_sentence_regex buf = (some piece, rest)) :
    rest.length < buf.length := by
  rcases extract_some h with ⟨front, -, rfl, ⟨l, c, rfl, -⟩, -⟩ | ⟨-, hne, rfl, -⟩
  · simp only [List.length_append, List.length_singleton]
    omega
  · refine List.length_pos_iff.2 ?_
    rintro rfl
    exact hne rfl

theorem emit_enough {n m : ℕ} (hn : buf.length < n) (hm : buf.length < m) :
    b.emit n buf = b.emit m buf := by
  induction n generalizing m buf with
  | zero => omega
  | succ n ih =>
    cases m with
    | zero => omega
    | succ m =>
      rw [emit, emit]
      split
      · rfl
      · next piece rest h =>
        have hlt := extract_shorter h
        rw [ih (m := m) (by omega) (by omega)]

/-! ### Something to speak -/

/-- Every stretch of a pending text that begins at its start or behind a match, and either is a
    sentence of `min_chars` or fills the buffer, has a letter or digit. -/
def Voiced (b : SentenceBuffer) (isalnum : Char → Bool) (x : List Char) : Prop :=
  ∀ l s r, x = l ++ s ++ r → (l = [] ∨ Ends l (s ++ r)) →
    ((Ends s r ∧ b.min_chars ≤ (strip_chars s).length) ∨
      (r = [] ∧ b.max_buffer ≤ s.length ∧ strip_chars s ≠ [])) → s.any isalnum = true

/-- Letters and digits are not stripped. -/
theorem any_strip (hspace : ∀ c, is_space c = true → isalnum c = false)
    (h : text.any isalnum = true) : (strip_chars text).any isalnum = true := by
  obtain ⟨sp, sp', hsplit, hsp, hsp'⟩ := LowLatencyTTSBuffer.strip_split id text
  have hnone : ∀ l : List Char, (∀ c ∈ l, is_space c = true) → l.any isalnum = false := fun l hl =>
    List.any_eq_false.2 fun c hc => by simp [hspace c (hl c hc)]
  rw [hsplit, List.any_append, List.any_append, hnone sp hsp, hnone sp' hsp', Bool.false_or,
    Bool.or_false] at h
  exact h

theorem emit_spoken (hspace : ∀ c, is_space c = true → isalnum c = false) (hx : Voiced b isalnum x)
    (n : ℕ) (hbuf : buf = [] ∨ ∃ l, x = l ++ buf ∧ (l = [] ∨ Ends l buf)) :
    ∀ piece ∈ (b.emit n buf).1, piece.any isalnum = true := by
  induction n generalizing buf with
  | zero => exact nofun
  | succ n ih =>
    rw [emit]
    split
    · exact nofun
    · next piece rest h =>
      intro piece' hpiece
      rcases extract_some h with ⟨front, rfl, rfl, hends, hlong⟩ | ⟨rfl, hne, rfl, hfull⟩
      · obtain ⟨l, rfl, hl⟩ : ∃ l, x = l ++ (front ++ rest) ∧ (l = [] ∨ Ends l (front ++ rest)) := by
          rcases hbuf with hnil | hbuf
          · obtain ⟨l, c, rfl, -⟩ := hends
            simp at hnil
          · exact hbuf
        rcases List.mem_cons.1 hpiece with rfl | hpiece
        · exact any_strip hspace
            (hx l front rest (List.append_assoc ..).symm hl (.inl ⟨hends, hlong⟩))
        · exact ih (.inr ⟨l ++ front, (List.append_assoc ..).symm, .inr (hends.append l)⟩) piece' hpiece
      · obtain ⟨l, rfl, hl⟩ : ∃ l, x = l ++ buf ∧ (l = [] ∨ Ends l buf) := by
          rcases hbuf with rfl | hbuf
          · exact absurd rfl hne
          · exact hbuf
        rcases List.mem_cons.1 hpiece with rfl | hpiece
        · exact any_strip hspace
            (hx l buf [] (List.append_nil _).symm (by rwa [List.append_nil]) (.inr ⟨rfl, hfull, hne⟩))
        · exact ih (.inl rfl) piece' hpiece

/-- A chunk is added in one step of a run. -/
def Adds (b : SentenceBuffer) (s : Stream) (chunk : List Char) (t : Stream) : Prop := t = s.add b chunk

/-- What comes out in a run whose pending texts are voiced, the flush at its end included. -/
theorem run_spoken (hspace : ∀ c, is_space c = true → isalnum c = false)
    {chunks : List (List Char)} {s : Stream}
    (hrun : Run (restrict (fun s chunk => Voiced b isalnum (s.buf ++ chunk)) (Adds b)) .new chunks s) :
    ∀ piece ∈ (s.flush isalnum).pieces, piece.any isalnum = true := by
  have hpieces : ∀ piece ∈ s.pieces, piece.any isalnum = true := by
    refine hrun.invariant (I := fun s => ∀ piece ∈ s.pieces, piece.any isalnum = true) ?_ nofun
    rintro s chunk t hs ⟨hx, rfl⟩
    rw [Stream.add]
    split
    · exact hs
    · intro piece hpiece
      rcases List.mem_append.1 hpiece with hpiece | hpiece
      · exact hs piece hpiece
      · exact emit_spoken hspace hx _ (.inr ⟨[], rfl, .inl rfl⟩) piece hpiece
  intro piece hpiece
  rcases List.mem_append.1 hpiece with hpiece | hpiece
  · exact hpieces piece hpiece
  · split at hpiece
    · next hany =>
      obtain rfl := List.mem_singleton.1 hpiece
      exact hany
    · cases hpiece

end SentenceBuffer

/-! ### The low-latency buffer -/

namespace LowLatencyTTSBuffer

section
variable {b : LowLatencyTTSBuffer} {isalnum : Char → Bool} {text x l u v : List Char} {n : ℕ}

def is_break (c : Char) : Bool :=
  hard_breaks.contains c || cjk_soft_breaks.contains c || latin_soft_breaks.contains c

/-- Where a piece of the pending text may begin: at its start, behind a break, and anywhere once the
    text is long. -/
def Starts (b : LowLatencyTTSBuffer) (x l : List Char) : Prop :=
  l = [] ∨ (∃ l' c, l = l' ++ [c] ∧ is_break c = true) ∨ b.target_chars ≤ (strip id x).length

/-- A text up to its first hard break, which closes two characters. -/
def Sentence (s : List Char) : Prop := ∃ m h, s = m ++ [h] ∧ (∀ c ∈ m, hard id c = false) ∧
  hard id h = true ∧ default_min_sentence_chars ≤ (strip id s).length

/-- Every stretch of a pending text where a piece may begin, and that is a sentence or has
    `min_chars`, has a letter or digit. -/
def Voiced (b : LowLatencyTTSBuffer) (isalnum : Char → Bool) (x : List Char) : Prop :=
  ∀ l s r, x = l ++ s ++ r → Starts b x l → (Sentence s ∨ b.min_chars ≤ (lstrip id s).length) →
    s.any isalnum = true

/-! What a cut takes -/

theorem length_cut_min (hn : b.length_cut id text = some n) :
    b.target_chars ≤ (strip id text).length ∧ b.min_chars ≤ (text.take n).length := by
  have hmin := b.min_le_target
  have hmax := b.target_le_max
  have hle := strip_length_le id text
  simp only [length_cut, Option.ite_none_left_eq_some] at hn
  obtain ⟨hlong, -, hn⟩ := hn
  obtain rfl := Option.some.inj hn
  have htarget : b.target_chars ≤ (strip id text).length := by
    split at hlong <;> omega
  refine ⟨htarget, ?_⟩
  rw [List.length_take, choose_length_cut]
  split <;> split <;> (try split) <;> omega

/-- A piece is a sentence, or has `min_chars`; behind it the text begins anew, is empty, or is what is
    left of a long text. -/
theorem cut_stretch (ht : Trimmed id text) (hn : b.cut id text = some n) :
    (Sentence (text.take n) ∨ b.min_chars ≤ (text.take n).length) ∧
      (text.drop n = [] ∨ (∃ w c, text.take n = w ++ [c] ∧ is_break c = true) ∨
        b.target_chars ≤ (strip id text).length) := by
  have hmin := b.min_le_target
  rcases Option.or_eq_some_iff.1 hn with hhard | ⟨-, hn⟩
  · rcases first_split (hard id) text with hno | ⟨m, c, r, rfl, hm, hc⟩
    · rw [hard_cut_none hno] at hhard
      cases hhard
    · rw [hard_cut_first r hm hc] at hhard
      split at hhard
      · next hlong =>
        obtain rfl := Option.some.inj hhard
        rw [take_last]
        refine ⟨.inl ⟨m, c, rfl, hm, hc, hlong⟩, .inr (.inl ⟨m, c, rfl, ?_⟩)⟩
        have hbreak : hard_breaks.contains c = true := hc
        rw [is_break, hbreak]
        rfl
      · cases hhard
  · rcases Option.or_eq_some_iff.1 hn with hsoft | ⟨-, hlength⟩
    · obtain ⟨i, hi, hsoft⟩ := Option.bind_eq_some_iff.1 hsoft
      rcases last_index_split id (if b.is_cjk id text then cjk_soft_breaks else latin_soft_breaks).contains
        text with ⟨hnone, -⟩ | ⟨w, c, v, rfl, hc, -, hlast⟩
      · rw [hnone] at hi
        cases hi
      · rw [hlast] at hi
        obtain rfl := Option.some.inj hi
        split at hsoft
        · next hlong =>
          obtain rfl := Option.some.inj hsoft
          have hle := strip_length_le id ((w ++ c :: v).take (w.length + 1))
          rw [take_last] at hlong hle ⊢
          refine ⟨.inr (hlong.trans hle), .inr (.inl ⟨w, c, rfl, ?_⟩)⟩
          rw [is_break]
          split at hc
          · have hbreak : cjk_soft_breaks.contains c = true := hc
            rw [hbreak, Bool.or_true, Bool.true_or]
          · have hbreak : latin_soft_breaks.contains c = true := hc
            rw [hbreak, Bool.or_true]
        · split at hsoft
          · next hlong =>
            obtain rfl := Option.some.inj hsoft
            have hle := strip_length_le id (w ++ c :: v)
            rw [List.take_length, List.drop_length]
            exact ⟨.inr (by omega), .inl rfl⟩
          · cases hsoft
    · obtain ⟨htarget, hlong⟩ := length_cut_min hlength
      exact ⟨.inr hlong, .inr (.inr htarget)⟩

/-! What is behind a cut -/

theorem lstrip_append_length (u v : List Char) : (lstrip id u).length ≤ (lstrip id (u ++ v)).length := by
  induction u with
  | nil => exact Nat.zero_le _
  | cons c u ih =>
    cases hc : is_space c with
    | true =>
      have hdrop : ∀ w : List Char, lstrip id (c :: w) = lstrip id w := fun w =>
        List.dropWhile_cons_of_pos hc
      rw [List.cons_append, hdrop, hdrop]
      exact ih
    | false =>
      have hkeep : ∀ w : List Char, lstrip id (c :: w) = c :: w := fun w =>
        List.dropWhile_cons_of_neg (by simp [hc])
      rw [List.cons_append, hkeep, hkeep]
      simp

/-- A tail is not longer than the text, stripped. -/
theorem strip_suffix_length (u v : List Char) : (strip id v).length ≤ (strip id (u ++ v)).length := by
  have hsuffix : lstrip id v <:+ lstrip id (u ++ v) := by
    rw [lstrip, lstrip, List.dropWhile_append]
    split
    · exact List.suffix_rfl
    · exact (List.dropWhile_suffix _).trans (List.suffix_append _ _)
  obtain ⟨w, hw⟩ := hsuffix
  rw [strip, strip, List.length_reverse, List.length_reverse, ← hw, List.reverse_append]
  exact lstrip_append_length _ _

/-- A text that the loop comes to. -/
def Comes (b : LowLatencyTTSBuffer) (x text : List Char) : Prop :=
  text = [] ∨ ∃ u v, x = u ++ v ∧ text = lstrip id v ∧ Starts b x u

theorem Comes.cut (h : Comes b x text) (hspace : ∀ c, is_space c = true → isalnum c = false)
    (hx : Voiced b isalnum x) (ht : Trimmed id text) (hn : b.cut id text = some n) :
    (strip id (text.take n)).any isalnum = true ∧ Comes b x (lstrip id (text.drop n)) := by
  obtain ⟨u, v, rfl, rfl, hu⟩ := h.resolve_left ht.nonempty
  obtain ⟨sp, hv, hsp⟩ := lstrip_split id v
  generalize lstrip id v = text at ht hn hv
  subst hv
  obtain ⟨hpiece, hrest⟩ := cut_stretch ht hn
  have hsplit := List.take_append_drop n text
  constructor
  · -- the space in front of the piece may hold hard breaks
    obtain ⟨sp₁, sp₂, rfl, hsp₁, hsp₂⟩ := ends_hard_split id sp
    have hspace₂ : ∀ c ∈ sp₂, is_space (id c) = true := fun c hc => hsp c (List.mem_append_right _ hc)
    have hstart : Starts b (u ++ (sp₁ ++ sp₂ ++ text)) (u ++ sp₁) := by
      rcases hsp₁ with rfl | ⟨w, c, rfl, hc⟩
      · rwa [List.append_nil]
      · refine .inr (.inl ⟨u ++ w, c, (List.append_assoc ..).symm, ?_⟩)
        have hbreak : hard_breaks.contains c = true := hc
        rw [is_break, hbreak]
        rfl
    have hany := hx (u ++ sp₁) (sp₂ ++ text.take n) (text.drop n)
      (by simp only [List.append_assoc, hsplit]) hstart ?_
    · rw [List.any_append, Bool.or_eq_true] at hany
      rcases hany with hany | hany
      · obtain ⟨c, hc, halnum⟩ := List.any_eq_true.1 hany
        rw [hspace c (hspace₂ c hc)] at halnum
        cases halnum
      · exact SentenceBuffer.any_strip hspace hany
    · rcases hpiece with ⟨m, c, hm, hno, hc, hlong⟩ | hlong
      · refine .inl ⟨sp₂ ++ m, c, by rw [hm, List.append_assoc], fun a ha => ?_, hc, ?_⟩
        · exact (List.mem_append.1 ha).elim (hsp₂ a) (hno a)
        · rwa [strip_space hspace₂]
      · refine .inr ?_
        rw [lstrip_space hspace₂]
        have hkeep : lstrip id (text.take n) = text.take n := by
          obtain ⟨c, l, rfl⟩ := List.exists_cons_of_ne_nil ht.nonempty
          cases n with
          | zero => rfl
          | succ n => exact List.dropWhile_cons_of_neg (by simpa using ht.head)
        rwa [hkeep]
  · rcases hrest with hnil | ⟨w, c, hw, hc⟩ | hlong
    · rw [hnil]
      exact .inl rfl
    · refine .inr ⟨u ++ (sp ++ text.take n), text.drop n, ?_, rfl,
        .inr (.inl ⟨u ++ (sp ++ w), c, ?_, hc⟩)⟩
      · simp only [List.append_assoc, hsplit]
      · simp only [hw, List.append_assoc]
    · refine .inr ⟨u ++ (sp ++ text.take n), text.drop n, ?_, rfl, .inr (.inr ?_)⟩
      · simp only [List.append_assoc, hsplit]
      · refine hlong.trans ?_
        rw [← List.append_assoc]
        exact strip_suffix_length (u ++ sp) text

/-- What comes out in a run whose pending texts are voiced, the flush at its end included. -/
theorem run_spoken (hspace : ∀ c, is_space c = true → isalnum c = false)
    {chunks : List (List Char)} {s : Stream Char} (hrun : Run (restrict
      (fun s chunk => Voiced b isalnum (s.buf ++ chunk)) (Adds id b isalnum)) .new chunks s) :
    ∀ piece ∈ (s.flush id b isalnum).pieces, piece.any isalnum = true := by
  have hpieces : ∀ piece ∈ s.pieces, piece.any isalnum = true := by
    refine hrun.invariant (I := fun s => ∀ piece ∈ s.pieces, piece.any isalnum = true) ?_ nofun
    rintro s chunk t hs ⟨hx, rfl⟩ piece hpiece
    rcases List.mem_append.1 hpiece with hpiece | hpiece
    · exact hs piece hpiece
    · rw [add] at hpiece
      split at hpiece
      · cases hpiece
      · have hstart : Comes b (s.buf ++ chunk) (lstrip id (s.buf ++ chunk)) :=
          .inr ⟨[], _, rfl, rfl, .inl rfl⟩
        exact (emit_ready_rule b isalnum (Q := fun piece => piece.any isalnum = true)
          (fun text n h ht hn => h.cut hspace hx ht hn) hstart).1 piece hpiece
  intro piece hpiece
  rw [Stream.flush, flush_eq] at hpiece
  rcases List.mem_append.1 hpiece with hpiece | hpiece
  · exact hpieces piece hpiece
  · split at hpiece
    · next hany =>
      obtain rfl := List.mem_singleton.1 hpiece
      exact hany
    · cases hpiece

end

end LowLatencyTTSBuffer

/-- In every run of either buffer whose pending texts are voiced, every piece that `add` or the flush
    emits has a letter or digit. -/
theorem pieces_speakable {isalnum : Char → Bool}
    (hspace : ∀ c, is_space c = true → isalnum c = false) :
    (∀ (b : LowLatencyTTSBuffer) (chunks : List (List Char)) (s : LowLatencyTTSBuffer.Stream Char),
      Run (restrict (fun s chunk => b.Voiced isalnum (s.buf ++ chunk))
        (LowLatencyTTSBuffer.Adds id b isalnum)) .new chunks s →
          ∀ piece ∈ (s.flush id b isalnum).pieces, piece.any isalnum = true) ∧
      ∀ (b : SentenceBuffer) (chunks : List (List Char)) (s : SentenceBuffer.Stream),
        Run (restrict (fun s chunk => b.Voiced isalnum (s.buf ++ chunk)) (SentenceBuffer.Adds b)) .new
          chunks s → ∀ piece ∈ (s.flush isalnum).pieces, piece.any isalnum = true :=
  ⟨fun _ _ _ hrun => LowLatencyTTSBuffer.run_spoken hspace hrun,
    fun _ _ _ hrun => SentenceBuffer.run_spoken hspace hrun⟩

/-- Where of every two characters one is a letter or digit, so it is in every longer stretch. -/
theorem any_of_windows {isalnum : Char → Bool} {x l s r : List Char}
    (h : ∀ i ≤ x.length, i + 2 ≤ x.length → ((x.drop i).take 2).any isalnum = true)
    (hx : x = l ++ s ++ r) (hs : 2 ≤ s.length) : s.any isalnum = true := by
  have hlen := congrArg List.length hx
  rw [List.length_append, List.length_append] at hlen
  have hany := h l.length (by omega) (by omega)
  have hwindow : (x.drop l.length).take 2 = s.take 2 := by
    rw [hx, List.append_assoc, List.drop_left, List.take_append_of_le_length hs]
  rw [hwindow, List.any_eq_true] at hany
  obtain ⟨c, hc, halnum⟩ := hany
  exact List.any_eq_true.2 ⟨c, List.mem_of_mem_take hc, halnum⟩

theorem LowLatencyTTSBuffer.voiced_of_windows {b : LowLatencyTTSBuffer} {isalnum : Char → Bool}
    {x : List Char}
    (h : ∀ i ≤ x.length, i + 2 ≤ x.length → ((x.drop i).take 2).any isalnum = true) :
    b.Voiced isalnum x := by
  rintro l s r hx - hs
  refine any_of_windows h hx ?_
  have hmin := b.two_le_min
  rcases hs with ⟨-, -, -, -, -, hlong⟩ | hlong
  · exact hlong.trans (strip_length_le id s)
  · exact (hmin.trans hlong).trans (lstrip_sublist s).length_le

theorem SentenceBuffer.voiced_of_windows {isalnum : Char → Bool} {x : List Char}
    (h : ∀ i ≤ x.length, i + 2 ≤ x.length → ((x.drop i).take 2).any isalnum = true) :
    (⟨2, 200⟩ : SentenceBuffer).Voiced isalnum x := by
  rintro l s r hx - hs
  refine any_of_windows h hx ?_
  rcases hs with ⟨-, hlong⟩ | ⟨-, hfull, -⟩
  · exact hlong.trans (LowLatencyTTSBuffer.strip_length_le id s)
  · exact Nat.le_of_lt (Nat.lt_of_lt_of_le (by decide) hfull)

open LowLatencyTTSBuffer (english) in
/-- Two short sentences. -/
theorem pieces_speakable_yes_no :
    (∀ piece ∈ (((LowLatencyTTSBuffer.Stream.new.add id english Char.isAlphanum "Yes!".toList).add id
      english Char.isAlphanum " No?".toList).flush id english Char.isAlphanum).pieces,
        piece.any Char.isAlphanum = true) ∧
      ∀ piece ∈ (((SentenceBuffer.Stream.new.add ⟨2, 200⟩ "Yes!".toList).add ⟨2, 200⟩
        " No?".toList).flush Char.isAlphanum).pieces, piece.any Char.isAlphanum = true :=
  ⟨(pieces_speakable LowLatencyTTSBuffer.ascii_alnum.space).1 english _ _
      (.snoc (.snoc .nil ⟨LowLatencyTTSBuffer.voiced_of_windows (by decide), rfl⟩)
        ⟨LowLatencyTTSBuffer.voiced_of_windows (by decide +kernel), rfl⟩),
    (pieces_speakable LowLatencyTTSBuffer.ascii_alnum.space).2 ⟨2, 200⟩ _ _
      (.snoc (.snoc .nil ⟨SentenceBuffer.voiced_of_windows (by decide), rfl⟩)
        ⟨SentenceBuffer.voiced_of_windows (by decide +kernel), rfl⟩)⟩

/-- Neither buffer keeps a piece without letters or digits: a line that is an emoticon, and marks that
    come in the chunk behind their sentence. -/
theorem marks_spoken :
    (¬ ∀ (b : LowLatencyTTSBuffer) (isalnum : Char → Bool) (chunks : List (List Char))
      (s : LowLatencyTTSBuffer.Stream Char), (∀ c, is_space c = true → isalnum c = false) →
        Run (LowLatencyTTSBuffer.Adds id b isalnum) .new chunks s →
          ∀ piece ∈ (s.flush id b isalnum).pieces, piece.any isalnum = true) ∧
      ¬ ∀ (b : SentenceBuffer) (isalnum : Char → Bool) (chunks : List (List Char))
        (s : SentenceBuffer.Stream), (∀ c, is_space c = true → isalnum c = false) →
          Run (SentenceBuffer.Adds b) .new chunks s →
            ∀ piece ∈ (s.flush isalnum).pieces, piece.any isalnum = true := by
  constructor
  · intro h
    have hpieces := h LowLatencyTTSBuffer.english Char.isAlphanum ["Great!".toList, " :)\n".toList] _
      LowLatencyTTSBuffer.ascii_alnum.space (.snoc (.snoc .nil rfl) rfl) ":)".toList (by decide +kernel)
    revert hpieces
    decide
  · intro h
    have hpieces := h ⟨2, 200⟩ Char.isAlphanum ["Really?".toList, "!! ".toList] _
      LowLatencyTTSBuffer.ascii_alnum.space (.snoc (.snoc .nil rfl) rfl) "!!".toList (by decide +kernel)
    revert hpieces
    decide

end LocalVoice.V2V
