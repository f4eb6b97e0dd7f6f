import Mathlib.Data.Nat.Notation

/-! An incremental UTF-8 decoder that puts U+FFFD for what is not well formed: one for every byte that
    starts no character, and one for a start that its next byte does not go on with. -/

namespace LocalVoice.Lib.Utf8

/-- A character that is not complete: how many bytes it still needs, what the next of them may be,
    and the bits so far. -/
structure Pending where
  owed : ℕ
  low : UInt8
  high : UInt8
  code : ℕ
  deriving DecidableEq

def replacement : Char := Char.ofNat 0xFFFD

/-- A byte between two characters. -/
def feed_first (b : UInt8) : List Char × Option Pending :=
  let lead := b.toNat
  if b < 0x80 then ([Char.ofNat lead], none)
  else if 0xC2 ≤ b && b ≤ 0xDF then ([], some ⟨1, 0x80, 0xBF, lead - 0xC0⟩)
  else if 0xE0 ≤ b && b ≤ 0xEF then
    ([], some ⟨2, if b = 0xE0 then 0xA0 else 0x80, if b = 0xED then 0x9F else 0xBF, lead - 0xE0⟩)
  else if 0xF0 ≤ b && b ≤ 0xF4 then
    ([], some ⟨3, if b = 0xF0 then 0x90 else 0x80, if b = 0xF4 then 0x8F else 0xBF, lead - 0xF0⟩)
  else ([replacement], none)

/-- A byte. -/
def feed (s : Option Pending) (b : UInt8) : List Char × Option Pending :=
  match s with
  | none => feed_first b
  | some p =>
    if p.low ≤ b && b ≤ p.high then
      let code := p.code * 64 + (b.toNat - 0x80)
      if p.owed ≤ 1 then ([Char.ofNat code], none)
      else ([], some ⟨p.owed - 1, 0x80, 0xBF, code⟩)
    else (replacement :: (feed_first b).1, (feed_first b).2)

/-- Bytes that are not the last ones. -/
def decode (s : Option Pending) : List UInt8 → List Char × Option Pending
  | [] => ([], s)
  | b :: rest => ((feed s b).1 ++ (decode (feed s b).2 rest).1, (decode (feed s b).2 rest).2)

/-- The end of the input. -/
def flush (s : Option Pending) : List Char := if s.isSome then [replacement] else []

/-- A character cut in two, and a start that is not gone on with. -/
example : decode none [0x61, 0xE4, 0xBD] = (['a'], some ⟨1, 0x80, 0xBF, 0x13D⟩) ∧
    decode (some ⟨1, 0x80, 0xBF, 0x13D⟩) [0xA0, 0xC3, 0x62] = (['你', replacement, 'b'], none) := by
  decide

/-! ### A stream of pieces -/

/-- The texts that come out of pieces, those that are empty left out. -/
def texts (s : Option Pending) : List (List UInt8) → List (List Char)
  | [] => []
  | p :: rest => [(decode s p).1].filter (· ≠ []) ++ texts (decode s p).2 rest

/-- The decoder behind the pieces. -/
def after (s : Option Pending) : List (List UInt8) → Option Pending
  | [] => s
  | p :: rest => after (decode s p).2 rest

/-- The texts of a whole stream. -/
def all_texts (pieces : List (List UInt8)) : List (List Char) :=
  texts none pieces ++ [flush (after none pieces)].filter (· ≠ [])

theorem after_concat (pieces : List (List UInt8)) (p : List UInt8) : ∀ s,
    after s (pieces ++ [p]) = (decode (after s pieces) p).2 := by
  induction pieces with
  | nil => intro s; rfl
  | cons q rest ih => intro s; exact ih _

theorem texts_concat (pieces : List (List UInt8)) (p : List UInt8) : ∀ s,
    texts s (pieces ++ [p]) = texts s pieces ++ [(decode (after s pieces) p).1].filter (· ≠ []) := by
  induction pieces with
  | nil => intro s; simp [texts, after]
  | cons q rest ih =>
    intro s
    rw [List.cons_append, texts, texts, after, ih, List.append_assoc]

end LocalVoice.Lib.Utf8
