import Mathlib.Data.Int.Notation
import LocalVoice.Lib.PyText

/-! `int(s)` of the interpreter on a text: surrounding space is dropped, then come an optional sign
    and decimal digits of any script, single underscores between them. -/

namespace LocalVoice.Lib.PyText

/-- The zeros of the scripts that have decimal digits; the other nine follow each. -/
def zeros : List ℕ :=
  [0x30, 0x660, 0x6F0, 0x7C0, 0x966, 0x9E6, 0xA66, 0xAE6, 0xB66, 0xBE6, 0xC66, 0xCE6, 0xD66, 0xDE6,
    0xE50, 0xED0, 0xF20, 0x1040, 0x1090, 0x17E0, 0x1810, 0x1946, 0x19D0, 0x1A80, 0x1A90, 0x1B50,
    0x1BB0, 0x1C40, 0x1C50, 0xA620, 0xA8D0, 0xA900, 0xA9D0, 0xA9F0, 0xAA50, 0xABF0, 0xFF10, 0x104A0,
    0x10D30, 0x11066, 0x110F0, 0x11136, 0x111D0, 0x112F0, 0x11450, 0x114D0, 0x11650, 0x116C0,
    0x11730, 0x118E0, 0x11950, 0x11C50, 0x11D50, 0x11DA0, 0x16A60, 0x16AC0, 0x16B50, 0x1D7CE,
    0x1D7D8, 0x1D7E2, 0x1D7EC, 0x1D7F6, 0x1E140, 0x1E2F0, 0x1E950, 0x1FBF0]

/-- The value of a decimal digit. -/
def decimal (c : Char) : Option ℕ :=
  (zeros.find? fun z => z ≤ c.toNat && c.toNat < z + 10).map (c.toNat - ·)

/-- The rest of a number, after digits that stand for `n`. -/
def more_digits (n : ℕ) : List Char → Option ℕ
  | [] => some n
  | '_' :: c :: rest => (decimal c).bind fun d => more_digits (10 * n + d) rest
  | c :: rest => (decimal c).bind fun d => more_digits (10 * n + d) rest

def digits : List Char → Option ℕ
  | [] => none
  | c :: rest => (decimal c).bind fun d => more_digits d rest

def signed : List Char → Option ℤ
  | '-' :: rest => (digits rest).map fun n => -(n : ℤ)
  | '+' :: rest => (digits rest).map fun n => (n : ℤ)
  | l => (digits l).map fun n => (n : ℤ)

/-- `int(s)`; `none` is the `ValueError`. -/
def int (s : String) : Option ℤ := signed (strip_chars s.toList)

example : int " +1_0\n" = some 10 := by decide
example : int "1__0" = none := by decide

/-! ### What `str` writes is read back -/

theorem isDigit_iff {c : Char} : c.isDigit ↔ 48 ≤ c.toNat ∧ c.toNat ≤ 57 := by
  simp [Char.isDigit, UInt32.le_iff_toNat_le]

theorem decimal_of_isDigit {c : Char} (h : c.isDigit) : decimal c = some (c.toNat - 48) := by
  have hle := isDigit_iff.1 h
  have hfind : zeros.find? (fun z => z ≤ c.toNat && c.toNat < z + 10) = some 0x30 :=
    List.find?_cons_of_pos (by simp; omega)
  rw [decimal, hfind]
  rfl

theorem isDigit_ne_underscore {c : Char} (h : c.isDigit) : c ≠ '_' := by
  rintro rfl
  exact absurd h (by decide)

theorem more_digits_cons {n : ℕ} {c : Char} {rest : List Char} (h : c ≠ '_') :
    more_digits n (c :: rest) = (decimal c).bind fun d => more_digits (10 * n + d) rest := by
  rw [more_digits.eq_def]
  split
  · next heq => cases heq
  · next heq => exact absurd (List.cons.inj heq).1 h
  · next heq =>
    obtain ⟨rfl, rfl⟩ := List.cons.inj heq
    rfl

theorem more_digits_eq {n : ℕ} {l : List Char} (h : ∀ c ∈ l, c.isDigit) :
    more_digits n l = some (Nat.ofDigitChars 10 l n) := by
  induction l generalizing n with
  | nil => rfl
  | cons c rest ih =>
    have hc : c.isDigit := h c (List.mem_cons_self ..)
    rw [more_digits_cons (isDigit_ne_underscore hc), decimal_of_isDigit hc, Option.bind_some,
      ih fun d hd => h d (List.mem_cons_of_mem _ hd), Nat.ofDigitChars_cons]
    rfl

theorem isDigit_toDigits {n : ℕ} {c : Char} (h : c ∈ Nat.toDigits 10 n) : c.isDigit :=
  Nat.isDigit_of_mem_toDigits (by decide) (by decide) h

theorem digits_toDigits (n : ℕ) : digits (Nat.toDigits 10 n) = some n := by
  have hvalue : Nat.ofDigitChars 10 (Nat.toDigits 10 n) 0 = n := by simp
  cases hl : Nat.toDigits 10 n with
  | nil => exact absurd hl Nat.toDigits_ne_nil
  | cons c rest =>
    have hall : ∀ d ∈ c :: rest, d.isDigit := fun d hd => isDigit_toDigits (hl ▸ hd)
    rw [hl, Nat.ofDigitChars_cons] at hvalue
    rw [digits, decimal_of_isDigit (hall c (List.mem_cons_self ..)), Option.bind_some,
      more_digits_eq fun d hd => hall d (List.mem_cons_of_mem _ hd)]
    simpa using hvalue

/-- A text without space is its own `strip()`. -/
theorem strip_chars_eq {l : List Char} (h : ∀ c ∈ l, is_space c = false) : strip_chars l = l := by
  have hkeep : ∀ m : List Char, (∀ c ∈ m, is_space c = false) → m.dropWhile is_space = m := by
    intro m hm
    cases m with
    | nil => rfl
    | cons c rest => rw [List.dropWhile_cons_of_neg]; simp [hm c]
  rw [strip_chars, lstrip, hkeep l h, rstrip, hkeep _ fun c hc => h c (List.mem_reverse.1 hc),
    List.reverse_reverse]

theorem is_space_of_isDigit {c : Char} (h : c.isDigit) : is_space c = false := by
  have hle := isDigit_iff.1 h
  simp [is_space]
  omega

theorem signed_toDigits (n : ℕ) : signed (Nat.toDigits 10 n) = some (n : ℤ) := by
  have hdigit : ∀ c ∈ Nat.toDigits 10 n, c.isDigit := fun c hc => isDigit_toDigits hc
  rw [signed.eq_def]
  split
  · next heq => exact absurd (hdigit '-' (heq ▸ List.mem_cons_self ..)) (by decide)
  · next heq => exact absurd (hdigit '+' (heq ▸ List.mem_cons_self ..)) (by decide)
  · rw [digits_toDigits]
    rfl

/-- `int(str(n)) == n`. -/
theorem int_toString (n : ℤ) : int (toString n) = some n := by
  have hspace : ∀ m : ℕ, ∀ c ∈ Nat.toDigits 10 m, is_space c = false :=
    fun m c hc => is_space_of_isDigit (isDigit_toDigits hc)
  rw [Int.toString_eq_repr, Int.repr_eq_if, int]
  split
  · next hn =>
    rw [Nat.toList_repr, strip_chars_eq (hspace _), signed_toDigits, Int.toNat_of_nonneg hn]
  · next hn =>
    have hminus : ("-" ++ (-n).toNat.repr).toList = '-' :: Nat.toDigits 10 (-n).toNat := by simp
    have hall : ∀ c ∈ '-' :: Nat.toDigits 10 (-n).toNat, is_space c = false := by
      intro c hc
      rcases List.mem_cons.1 hc with rfl | hc
      · decide
      · exact hspace _ c hc
    have hneg : -((-n).toNat : ℤ) = n := by omega
    rw [hminus, strip_chars_eq hall, signed, digits_toDigits]
    exact congrArg some hneg

end LocalVoice.Lib.PyText
