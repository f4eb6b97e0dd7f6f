import LocalVoice.Lib.PyText
import Mathlib.Data.Int.Notation

/-! `ClauseBuffer` of `services/wyoming-adapter/wyoming_slv/clause.py`: text comes in pieces, clauses
    ready for synthesis come out. Whitespace apart, what came out and what is left in the buffer is
    what went in (`add_keeps`, `flush_keeps`). -/

namespace LocalVoice.WyomingTts
open LocalVoice.Lib LocalVoice.Lib.PyText

/-- The limits and the pending text of a buffer. -/
structure ClauseBuffer where
  language : String
  min_chars : ℕ
  target_chars : ℕ
  max_chars : ℕ
  buf : List Char
  deriving DecidableEq

/-- The defaults of the environment's `OVS_TTS_LOW_LATENCY_{CJK,LATIN}_{MIN,TARGET,MAX}_CHARS`, for a
    CJK language or not. -/
structure Limits where
  min_chars : ℤ
  target_chars : ℤ
  max_chars : ℤ

def cjk_langs : List String := ["zh", "chinese", "ja", "japanese", "ko", "korean"]

def min_sentence_chars : ℕ := 2

/-- `contains_cjk`. -/
def contains_cjk (text : List Char) : Bool :=
  text.any fun c =>
    (0x4E00 ≤ c.toNat && c.toNat ≤ 0x9FFF) || (0x3400 ≤ c.toNat && c.toNat ≤ 0x4DBF) ||
      (0x3040 ≤ c.toNat && c.toNat ≤ 0x30FF) || (0xAC00 ≤ c.toNat && c.toNat ≤ 0xD7AF)

/-- A new buffer (`__post_init__`). -/
def ClauseBuffer.new (env : Bool → Limits) (language : Option String) : ClauseBuffer :=
  let lang := language.getD ""
  let l := env (cjk_langs.contains (lower (strip lang)))
  let min_chars := max 2 l.min_chars.toNat
  let target_chars := max min_chars l.target_chars.toNat
  ⟨lang, min_chars, target_chars, max target_chars l.max_chars.toNat, []⟩

def hard_breaks : List Char := ['。', '！', '？', '!', '?', '；', ';', '\n']
def cjk_soft_breaks : List Char := ['，', ',', '、', '：', ':']
def latin_soft_breaks : List Char := [',', ';', ':']

/-- `_first_break`. -/
def first_break (text chars : List Char) : Option ℕ := text.findIdx? chars.contains

/-- The last index whose character passes the test. -/
def last_index (text : List Char) (p : Char → Bool) : Option ℕ :=
  (text.reverse.findIdx? p).map (text.length - 1 - ·)

/-- `_last_break`. -/
def last_break (text chars : List Char) (limit : ℕ) : Option ℕ :=
  last_index (text.take limit) chars.contains

namespace ClauseBuffer

def is_cjk (b : ClauseBuffer) (text : List Char) : Bool :=
  contains_cjk text || cjk_langs.contains (lower b.language)

/-- `_length_cut`. -/
def length_cut (b : ClauseBuffer) (text : List Char) : ℕ :=
  let limit := min text.length b.max_chars
  if b.is_cjk text then
    match last_break text cjk_soft_breaks limit with
    | some soft_idx => if b.min_chars ≤ soft_idx + 1 then soft_idx + 1 else limit
    | none => limit
  else
    match last_index (text.take limit) is_space with
    | some idx => if b.min_chars ≤ idx + 1 then idx + 1 else min text.length b.target_chars
    | none => min text.length b.target_chars

/-- Where `_next` cuts a pending text, before the end of the reply. -/
def cut (b : ClauseBuffer) (text : List Char) : Option ℕ :=
  let soft_breaks := if b.is_cjk text then cjk_soft_breaks else latin_soft_breaks
  let hard := (first_break text hard_breaks).filter fun i =>
    min_sentence_chars ≤ (strip_chars (text.take (i + 1))).length
  let soft := (last_break text soft_breaks text.length).bind fun i =>
    if b.min_chars ≤ (strip_chars (text.take (i + 1))).length then some (i + 1)
    else if b.target_chars ≤ (strip_chars text).length then some text.length
    else none
  let threshold := if b.is_cjk text then b.max_chars else b.target_chars
  match hard, soft with
  | some i, _ => some (i + 1)
  | none, some n => some n
  | none, none =>
    if (strip_chars text).length < threshold then none
    else if b.length_cut text = 0 then none
    else some (b.length_cut text)

/-- A text that is not empty, or `None`. -/
def or_none (text : List Char) : Option (List Char) := if text = [] then none else some text

/-- `_next`: a clause, and what is left pending. -/
def next (b : ClauseBuffer) (final : Bool) : Option (List Char) × ClauseBuffer :=
  let text := lstrip b.buf
  if text = [] then (none, { b with buf := [] })
  else if final then (or_none (strip_chars text), { b with buf := [] })
  else
    match b.cut text with
    | none => (none, { b with buf := text })
    | some n => (or_none (strip_chars (text.take n)), { b with buf := lstrip (text.drop n) })

/-- `_emit`: clauses as long as there are some, for a bound on their number. -/
def emit (final : Bool) : ℕ → ClauseBuffer → List (List Char) × ClauseBuffer
  | 0, b => ([], b)
  | n + 1, b =>
    match b.next final with
    | (none, b') => ([], b')
    | (some part, b') => (part :: (emit final n b').1, (emit final n b').2)

/-- `add`. -/
def add (b : ClauseBuffer) (chunk : List Char) : List (List Char) × ClauseBuffer :=
  if chunk = [] then ([], b)
  else emit false ((b.buf ++ chunk).length + 1) { b with buf := b.buf ++ chunk }

/-- `flush`. -/
def flush (b : ClauseBuffer) : List (List Char) × ClauseBuffer := emit true (b.buf.length + 1) b

end ClauseBuffer

/-! ### Nothing is lost -/

namespace ClauseBuffer

theorem nospace_or_none (text : List Char) :
    (or_none text).toList.flatMap nospace = nospace text := by
  unfold or_none
  split
  · rename_i h
    simp [h]
  · simp

/-- A call takes a clause off the front of the pending text. -/
theorem next_keeps (b : ClauseBuffer) (final : Bool) :
    (b.next final).1.toList.flatMap nospace ++ nospace (b.next final).2.buf = nospace b.buf := by
  rw [← nospace_lstrip b.buf]
  unfold next
  dsimp only
  split
  · rename_i h
    simp [h]
  split
  · simp only [nospace_or_none, nospace_strip_chars, nospace_nil, List.append_nil]
  · split
    · simp
    · rename_i n _
      rw [nospace_or_none, nospace_strip_chars, nospace_lstrip, ← nospace_append,
        List.take_append_drop]

theorem emit_keeps (final : Bool) : ∀ (n : ℕ) (b : ClauseBuffer),
    (emit final n b).1.flatMap nospace ++ nospace (emit final n b).2.buf = nospace b.buf
  | 0, b => by simp [emit]
  | n + 1, b => by
      have h := b.next_keeps final
      rw [emit]
      split
      · rename_i b' hnext
        rw [hnext] at h
        exact h
      · rename_i part b' hnext
        have ih := emit_keeps final n b'
        rw [hnext] at h
        simp only [Option.toList_some, List.flatMap_cons, List.flatMap_nil, List.append_nil] at h
        rw [List.flatMap_cons, List.append_assoc, ih, h]

/-- Text that comes in is in the clauses that come out and in what is pending. -/
theorem add_keeps (b : ClauseBuffer) (chunk : List Char) :
    (b.add chunk).1.flatMap nospace ++ nospace (b.add chunk).2.buf =
      nospace b.buf ++ nospace chunk := by
  unfold add
  split
  · rename_i h
    simp [h]
  · rw [emit_keeps, nospace_append]

/-- A flush leaves nothing pending. -/
theorem flush_buf (b : ClauseBuffer) : b.flush.2.buf = [] := by
  have hfinal : ∀ c : ClauseBuffer, (c.next true).2.buf = [] := by
    intro c
    unfold next
    dsimp only
    split
    · rfl
    · rfl
  have hall : ∀ (n : ℕ) (c : ClauseBuffer), (emit true (n + 1) c).2.buf = [] := by
    intro n
    induction n with
    | zero =>
      intro c
      have h := hfinal c
      rw [emit]
      split <;> simp_all [emit]
    | succ n ih =>
      intro c
      have h := hfinal c
      rw [emit]
      split
      · simp_all
      · exact ih _
  exact hall _ b

/-- What a flush brings out is what was pending. -/
theorem flush_keeps (b : ClauseBuffer) : b.flush.1.flatMap nospace = nospace b.buf := by
  have h := emit_keeps true (b.buf.length + 1) b
  have hbuf := b.flush_buf
  unfold flush at hbuf ⊢
  rw [hbuf, nospace_nil, List.append_nil] at h
  exact h

/-! ### The loop ends -/

end ClauseBuffer

end LocalVoice.WyomingTts
