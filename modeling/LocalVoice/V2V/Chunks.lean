import LocalVoice.Lib.PyText
import Mathlib.Data.Int.Notation

/-! `LowLatencyTTSBuffer`: text comes in pieces, chunks ready for synthesis come out. The methods are
    written over texts of any kind of character `α` that shows a `Char`, so that a character can
    carry where it came from; labels make no difference (`emit_ready_map`). What a call emits and
    what it leaves in the buffer are, in this order, pieces of what was there before. -/

namespace LocalVoice.V2V
open LocalVoice.Lib

/-- The limits of a buffer as `__post_init__` leaves them. -/
structure LowLatencyTTSBuffer where
  language : String
  min_chars : ℕ
  target_chars : ℕ
  max_chars : ℕ
  two_le_min : 2 ≤ min_chars
  min_le_target : min_chars ≤ target_chars
  target_le_max : target_chars ≤ max_chars

/-- `_contains_cjk` on a character. -/
def contains_cjk (c : Char) : Bool :=
  (0x4E00 ≤ c.toNat && c.toNat ≤ 0x9FFF) || (0x3040 ≤ c.toNat && c.toNat ≤ 0x30FF) ||
    (0xAC00 ≤ c.toNat && c.toNat ≤ 0xD7AF)

namespace LowLatencyTTSBuffer

def cjk_languages : List String := ["zh", "chinese", "ja", "japanese", "ko", "korean"]

def hard_breaks : List Char := ['。', '！', '？', '!', '?', '；', ';', '\n']
def cjk_soft_breaks : List Char := ['，', ',', '、', '：', ':']
def latin_soft_breaks : List Char := [',', ';', ':']

/-- `DEFAULT_MIN_SENTENCE_CHARS`. -/
def default_min_sentence_chars : ℕ := 2

/-- `__post_init__`; the arguments after the language are the environment's
    `OVS_TTS_LOW_LATENCY_*_CHARS`, where they are set. -/
def post_init (language : String) (env_min env_target env_max : Option ℤ) : LowLatencyTTSBuffer :=
  let cjk := cjk_languages.contains (PyText.lower (PyText.strip language))
  let min_chars := max 2 (env_min.getD (if cjk then 15 else 24)).toNat
  let target_chars := max min_chars (env_target.getD (if cjk then 24 else 48)).toNat
  ⟨language, min_chars, target_chars, max target_chars (env_max.getD (if cjk then 40 else 80)).toNat,
    Nat.le_max_left .., Nat.le_max_left .., Nat.le_max_left ..⟩

section
variable {α : Type*} (ch : α → Char)

def lstrip (text : List α) : List α := text.dropWhile fun a => PyText.is_space (ch a)

def strip (text : List α) : List α := (lstrip ch (lstrip ch text).reverse).reverse

/-- The first index whose character passes the test. -/
def first_index (p : Char → Bool) (text : List α) : Option ℕ := text.findIdx? fun a => p (ch a)

/-- The last index whose character passes the test. -/
def last_index (p : Char → Bool) (text : List α) : Option ℕ :=
  (first_index ch p text.reverse).map (text.length - 1 - ·)

variable (b : LowLatencyTTSBuffer)

def is_cjk (buf : List α) : Bool :=
  buf.any (fun a => contains_cjk (ch a)) || cjk_languages.contains (PyText.lower b.language)

/-- `_choose_length_cut`. -/
def choose_length_cut (buf : List α) : ℕ :=
  let limit := min buf.length b.max_chars
  if b.is_cjk ch buf then
    match last_index ch cjk_soft_breaks.contains (buf.take limit) with
    | some soft_idx => if b.min_chars ≤ soft_idx + 1 then soft_idx + 1 else limit
    | none => limit
  else
    match last_index ch PyText.is_space (buf.take limit) with
    | some idx => if b.min_chars ≤ idx + 1 then idx + 1 else min buf.length b.target_chars
    | none => min buf.length b.target_chars

/-- The end of the chunk up to the first hard break. -/
def hard_cut (buf : List α) : Option ℕ :=
  (first_index ch hard_breaks.contains buf).bind fun hard_idx =>
    if default_min_sentence_chars ≤ (strip ch (buf.take (hard_idx + 1))).length then
      some (hard_idx + 1)
    else none

/-- The end of the chunk up to the last soft break. -/
def soft_cut (buf : List α) : Option ℕ :=
  let soft_breaks := if b.is_cjk ch buf then cjk_soft_breaks else latin_soft_breaks
  (last_index ch soft_breaks.contains buf).bind fun soft_idx =>
    if b.min_chars ≤ (strip ch (buf.take (soft_idx + 1))).length then some (soft_idx + 1)
    else if b.target_chars ≤ (strip ch buf).length then some buf.length
    else none

/-- The end of the chunk of a text without breaks. -/
def length_cut (buf : List α) : Option ℕ :=
  let length_cut_threshold := if b.is_cjk ch buf then b.max_chars else b.target_chars
  if (strip ch buf).length < length_cut_threshold then none
  else if b.choose_length_cut ch buf = 0 then none
  else some (b.choose_length_cut ch buf)

/-- A text that is not empty, or `None`. -/
def or_none (text : List α) : Option (List α) := if text = [] then none else some text

/-- `_take`: the chunk, and what is left in the buffer. -/
def take (buf : List α) (n : ℕ) : Option (List α) × List α :=
  (or_none (strip ch (buf.take n)), lstrip ch (buf.drop n))

/-- `_next_chunk` on a buffer without leading space. -/
def chunk_of (isalnum : Char → Bool) (final : Bool) (text : List α) : Option (List α) × List α :=
  if text = [] then (none, [])
  else if final then
    (if (strip ch text).any fun a => isalnum (ch a) then or_none (strip ch text) else none, [])
  else
    match (hard_cut ch text).or ((b.soft_cut ch text).or (b.length_cut ch text)) with
    | none => (none, text)
    | some n => take ch text n

/-- `_next_chunk`: the chunk, and what is left in the buffer. -/
def next_chunk (isalnum : Char → Bool) (final : Bool) (buf : List α) : Option (List α) × List α :=
  b.chunk_of ch isalnum final (lstrip ch buf)

/-- The loop of `_emit_ready`, with as many rounds as there may be. -/
def emit (isalnum : Char → Bool) (final : Bool) : ℕ → List α → List (List α) × List α
  | 0, buf => ([], buf)
  | n + 1, buf =>
    match b.next_chunk ch isalnum final buf with
    | (none, rest) => ([], rest)
    | (some part, rest) =>
      (part :: (emit isalnum final n rest).1, (emit isalnum final n rest).2)

/-- `_emit_ready`: the chunks it yields, and what is left in the buffer. A chunk has at least one
    character, so there are no more rounds than characters, and the last one. -/
def emit_ready (isalnum : Char → Bool) (final : Bool) (buf : List α) : List (List α) × List α :=
  b.emit ch isalnum final (buf.length + 1) buf

/-- `add`. -/
def add (isalnum : Char → Bool) (buf chunk : List α) : List (List α) × List α :=
  if chunk = [] then ([], buf) else b.emit_ready ch isalnum false (buf ++ chunk)

/-- `flush`. -/
def flush (isalnum : Char → Bool) (buf : List α) : List (List α) × List α :=
  b.emit_ready ch isalnum true buf

example : (post_init "en" none none none).add id Char.isAlphanum "Well".toList ", ok! And".toList =
    (["Well, ok!".toList], "And".toList) := by decide +kernel

end

/-! What comes out was there before -/

section
variable {α : Type*} {ch : α → Char} {b : LowLatencyTTSBuffer} {isalnum : Char → Bool}
  {final : Bool} {buf rest part : List α}

theorem lstrip_sublist (text : List α) : (lstrip ch text).Sublist text :=
  List.dropWhile_sublist _

theorem strip_sublist (text : List α) : (strip ch text).Sublist text := by
  have h : (strip ch text).Sublist (lstrip ch text).reverse.reverse := (lstrip_sublist _).reverse
  rw [List.reverse_reverse] at h
  exact h.trans (lstrip_sublist text)

theorem or_none_some (h : or_none buf = some part) : buf = part ∧ part ≠ [] := by
  unfold or_none at h
  split at h
  · cases h
  · next hne =>
    obtain rfl := Option.some.inj h
    exact ⟨rfl, hne⟩

theorem take_sublist {n : ℕ} (h : take ch buf n = (some part, rest)) :
    (part ++ rest).Sublist buf ∧ part ≠ [] := by
  obtain ⟨hpart, rfl⟩ := Prod.mk.inj h
  obtain ⟨rfl, hne⟩ := or_none_some hpart
  have happ : (strip ch (buf.take n) ++ lstrip ch (buf.drop n)).Sublist
      (buf.take n ++ buf.drop n) := (strip_sublist _).append (lstrip_sublist _)
  rw [List.take_append_drop] at happ
  exact ⟨happ, hne⟩

/-- A chunk, and the buffer it leaves, are pieces of the buffer. -/
theorem next_chunk_some (h : b.next_chunk ch isalnum final buf = (some part, rest)) :
    (part ++ rest).Sublist buf ∧ part ≠ [] := by
  have htext : (lstrip ch buf).Sublist buf := lstrip_sublist buf
  unfold next_chunk chunk_of at h
  split at h
  · cases h
  · split at h
    · obtain ⟨hpart, rfl⟩ := Prod.mk.inj h
      split at hpart
      · obtain ⟨rfl, hne⟩ := or_none_some hpart
        rw [List.append_nil]
        exact ⟨(strip_sublist _).trans htext, hne⟩
      · cases hpart
    · split at h
      · cases h
      · obtain ⟨hsub, hne⟩ := take_sublist h
        exact ⟨hsub.trans htext, hne⟩

theorem next_chunk_none (h : b.next_chunk ch isalnum final buf = (none, rest)) :
    rest.Sublist buf := by
  have htext : (lstrip ch buf).Sublist buf := lstrip_sublist buf
  unfold next_chunk chunk_of at h
  split at h
  · obtain ⟨_, rfl⟩ := Prod.mk.inj h
    exact List.nil_sublist _
  · split at h
    · obtain ⟨_, rfl⟩ := Prod.mk.inj h
      exact List.nil_sublist _
    · split at h
      · obtain ⟨_, rfl⟩ := Prod.mk.inj h
        exact htext
      · obtain ⟨_, rfl⟩ := Prod.mk.inj h
        exact ((lstrip_sublist _).trans (List.drop_sublist _ _)).trans htext

theorem next_chunk_shorter (h : b.next_chunk ch isalnum final buf = (some part, rest)) :
    rest.length < buf.length := by
  obtain ⟨hsub, hne⟩ := next_chunk_some h
  have hlen := hsub.length_le
  have hpos := List.length_pos_iff.2 hne
  rw [List.length_append] at hlen
  omega

/-- More rounds than characters make no difference. -/
theorem emit_enough {n m : ℕ} (hn : buf.length < n) (hm : buf.length < m) :
    b.emit ch isalnum final n buf = b.emit ch isalnum final m buf := by
  induction n generalizing m buf with
  | zero => omega
  | succ n ih =>
    cases m with
    | zero => omega
    | succ m =>
      unfold emit
      split
      · rfl
      · next part rest h =>
        have hlt := next_chunk_shorter h
        rw [ih (m := m) (by omega) (by omega)]

/-- The loop of `_emit_ready`. -/
theorem emit_ready_eq : b.emit_ready ch isalnum final buf =
    match b.next_chunk ch isalnum final buf with
    | (none, rest) => ([], rest)
    | (some part, rest) =>
      (part :: (b.emit_ready ch isalnum final rest).1, (b.emit_ready ch isalnum final rest).2) := by
  rw [emit_ready, emit]
  split
  · rfl
  · next part rest h =>
    have hlt := next_chunk_shorter h
    rw [emit_ready, emit_enough (n := buf.length) (m := rest.length + 1) hlt (by omega)]

theorem emit_sublist (n : ℕ) (buf : List α) :
    ((b.emit ch isalnum final n buf).1.flatten ++ (b.emit ch isalnum final n buf).2).Sublist buf := by
  induction n generalizing buf with
  | zero => simp [emit]
  | succ n ih =>
    unfold emit
    split
    · next h => simpa using next_chunk_none h
    · next part rest h =>
      rw [List.flatten_cons, List.append_assoc]
      exact ((List.Sublist.refl part).append (ih rest)).trans (next_chunk_some h).1

/-- The chunks of a call and the buffer it leaves, in this order, are pieces of the buffer. -/
theorem emit_ready_sublist (buf : List α) :
    ((b.emit_ready ch isalnum final buf).1.flatten ++
      (b.emit_ready ch isalnum final buf).2).Sublist buf := emit_sublist _ buf

end
/-! Labels make no difference -/

section
variable {α β : Type*} {ch : α → Char} {ch' : β → Char} {f : α → β} {b : LowLatencyTTSBuffer}
  {isalnum : Char → Bool} {final : Bool} (hf : ∀ a, ch' (f a) = ch a)
include hf

theorem lstrip_map (text : List α) : lstrip ch' (text.map f) = (lstrip ch text).map f := by
  simp [lstrip, List.dropWhile_map, Function.comp_def, hf]

theorem strip_map (text : List α) : strip ch' (text.map f) = (strip ch text).map f := by
  simp only [strip, lstrip_map hf, ← List.map_reverse]

theorem first_index_map (p : Char → Bool) (text : List α) :
    first_index ch' p (text.map f) = first_index ch p text := by
  simp [first_index, List.findIdx?_map, Function.comp_def, hf]

theorem last_index_map (p : Char → Bool) (text : List α) :
    last_index ch' p (text.map f) = last_index ch p text := by
  simp only [last_index, ← List.map_reverse, first_index_map hf, List.length_map]

theorem is_cjk_map (buf : List α) : b.is_cjk ch' (buf.map f) = b.is_cjk ch buf := by
  simp [is_cjk, List.any_map, Function.comp_def, hf]

theorem choose_length_cut_map (buf : List α) :
    b.choose_length_cut ch' (buf.map f) = b.choose_length_cut ch buf := by
  simp only [choose_length_cut, is_cjk_map hf, List.length_map, ← List.map_take, last_index_map hf]

theorem take_map (buf : List α) (n : ℕ) :
    take ch' (buf.map f) n = ((take ch buf n).1.map (List.map f), (take ch buf n).2.map f) := by
  simp only [take, or_none, ← List.map_take, ← List.map_drop, strip_map hf, lstrip_map hf,
    List.map_eq_nil_iff]
  split <;> rfl

theorem next_chunk_map (buf : List α) :
    b.next_chunk ch' isalnum final (buf.map f) =
      ((b.next_chunk ch isalnum final buf).1.map (List.map f),
        (b.next_chunk ch isalnum final buf).2.map f) := by
  have hcut : ∀ text : List α,
      (hard_cut ch' (text.map f)).or
          ((b.soft_cut ch' (text.map f)).or (b.length_cut ch' (text.map f))) =
        (hard_cut ch text).or ((b.soft_cut ch text).or (b.length_cut ch text)) := by
    intro text
    simp only [hard_cut, soft_cut, length_cut, first_index_map hf, last_index_map hf, is_cjk_map hf,
      choose_length_cut_map hf, ← List.map_take, strip_map hf, List.length_map]
  simp only [next_chunk, chunk_of, lstrip_map hf, hcut, List.map_eq_nil_iff]
  split
  · rfl
  · split
    · simp only [strip_map hf, List.any_map, Function.comp_def, hf, or_none, List.map_eq_nil_iff]
      split <;> (try split) <;> rfl
    · split
      · rfl
      · exact take_map hf _ _

/-- A labelled text is chunked as the text is. -/
theorem emit_ready_map (buf : List α) :
    b.emit_ready ch' isalnum final (buf.map f) =
      ((b.emit_ready ch isalnum final buf).1.map (List.map f),
        (b.emit_ready ch isalnum final buf).2.map f) := by
  have hemit : ∀ (n : ℕ) (buf : List α), b.emit ch' isalnum final n (buf.map f) =
      ((b.emit ch isalnum final n buf).1.map (List.map f),
        (b.emit ch isalnum final n buf).2.map f) := by
    intro n
    induction n with
    | zero => exact fun _ => rfl
    | succ n ih =>
      intro buf
      rcases hnext : b.next_chunk ch isalnum final buf with ⟨_ | part, rest⟩
      · simp [emit, next_chunk_map hf, hnext]
      · simp [emit, next_chunk_map hf, hnext, ih]
  rw [emit_ready, List.length_map, hemit, emit_ready]

end
end LowLatencyTTSBuffer
end LocalVoice.V2V
