import Mathlib.Data.List.Basic

/-! The text operations of the interpreter that the modelled code uses on its keys and names:
    case mapping, stripping, substring and prefix tests. Case mapping is given on the part that can
    decide a test against an ASCII word: the ASCII letters and the few other characters whose
    mapping contains one; every other character maps outside ASCII and is left as it is. -/

namespace LocalVoice.Lib

namespace PyText

/-- `c.upper()`, as far as ASCII letters come out of it. -/
def upper_char (c : Char) : List Char :=
  if 'a' ≤ c ∧ c ≤ 'z' then [Char.ofNat (c.toNat - 32)] else
  match c with
  | 'ß' => ['S', 'S']
  | 'ı' => ['I']
  | 'ŉ' => ['ʼ', 'N']
  | 'ſ' => ['S']
  | 'ǰ' => ['J', '\u030C']
  | 'ẖ' => ['H', '\u0331']
  | 'ẗ' => ['T', '\u0308']
  | 'ẘ' => ['W', '\u030A']
  | 'ẙ' => ['Y', '\u030A']
  | 'ẚ' => ['A', 'ʾ']
  | 'ﬀ' => ['F', 'F']
  | 'ﬁ' => ['F', 'I']
  | 'ﬂ' => ['F', 'L']
  | 'ﬃ' => ['F', 'F', 'I']
  | 'ﬄ' => ['F', 'F', 'L']
  | 'ﬅ' => ['S', 'T']
  | 'ﬆ' => ['S', 'T']
  | c => [c]

/-- `c.lower()`, as far as ASCII letters come out of it. -/
def lower_char (c : Char) : List Char :=
  if 'A' ≤ c ∧ c ≤ 'Z' then [Char.ofNat (c.toNat + 32)] else
  match c with
  | '\u212A' => ['k']
  | 'İ' => ['i', '\u0307']
  | c => [c]

/-- `c.casefold()`: the full folding goes through the upper case, but for `ı` and `ẞ`. -/
def casefold_char (c : Char) : List Char :=
  match c with
  | 'ı' => ['ı']
  | 'ẞ' => ['s', 's']
  | c => (upper_char c).flatMap lower_char

def upper (s : String) : String := String.ofList (s.toList.flatMap upper_char)
def lower (s : String) : String := String.ofList (s.toList.flatMap lower_char)
def casefold (s : String) : String := String.ofList (s.toList.flatMap casefold_char)

/-- `s.startswith(p)`. -/
def startswith (s p : String) : Bool := p.toList.isPrefixOf s.toList

/-- `s.endswith(p)`. -/
def endswith (s p : String) : Bool := p.toList.isSuffixOf s.toList

theorem startswith_append (p x : String) : startswith (p ++ x) p = true := by
  rw [startswith, List.isPrefixOf_iff_prefix, String.toList_append]
  exact List.prefix_append _ _

theorem endswith_append (x e : String) : endswith (x ++ e) e = true := by
  rw [endswith, List.isSuffixOf_iff_suffix, String.toList_append]
  exact List.suffix_append _ _

/-- `sub in s`. -/
def contains (s sub : String) : Bool := s.toList.tails.any (fun t => sub.toList.isPrefixOf t)

/-- `c.isspace()`. -/
def is_space (c : Char) : Bool :=
  let n := c.toNat
  (9 ≤ n && n ≤ 13) || (28 ≤ n && n ≤ 32) || n == 0x85 || n == 0xA0 || n == 0x1680 ||
    (0x2000 ≤ n && n ≤ 0x200A) || n == 0x2028 || n == 0x2029 || n == 0x202F || n == 0x205F ||
    n == 0x3000

/-- `l.lstrip()`, `l.rstrip()` and `l.strip()` on the characters of a text. -/
def lstrip (l : List Char) : List Char := l.dropWhile is_space
def rstrip (l : List Char) : List Char := (l.reverse.dropWhile is_space).reverse
def strip_chars (l : List Char) : List Char := rstrip (lstrip l)

/-- `s.strip()`. -/
def strip (s : String) : String := String.ofList (strip_chars s.toList)

example : contains (upper "moſſ_engine_dir") "MOSS" = true := by decide

/-! ### Stripping twice -/

theorem dropWhile_dropWhile {p : Char → Bool} (l : List Char) :
    (l.dropWhile p).dropWhile p = l.dropWhile p := by
  induction l with
  | nil => rfl
  | cons c rest ih =>
    cases hc : p c with
    | true => rw [List.dropWhile_cons_of_pos hc, ih]
    | false =>
      have hneg : ¬ p c = true := by simp [hc]
      rw [List.dropWhile_cons_of_neg hneg, List.dropWhile_cons_of_neg hneg]

/-- Characters taken off both ends. -/
def trim (p : Char → Bool) (l : List Char) : List Char :=
  ((l.dropWhile p).reverse.dropWhile p).reverse

/-- Where there is nothing to take off in front, taking some off the end brings none there. -/
theorem dropWhile_end {p : Char → Bool} {l : List Char} (h : l.dropWhile p = l) :
    ((l.reverse.dropWhile p).reverse).dropWhile p = (l.reverse.dropWhile p).reverse := by
  have hprefix : (l.reverse.dropWhile p).reverse <+: l := by
    rw [← List.reverse_suffix, List.reverse_reverse]
    exact List.dropWhile_suffix _
  cases hl : (l.reverse.dropWhile p).reverse with
  | nil => rfl
  | cons c rest =>
    obtain ⟨tail, htail⟩ := hprefix
    rw [hl, List.cons_append] at htail
    have hc : ¬ p c = true := by
      intro hc
      rw [← htail, List.dropWhile_cons_of_pos hc] at h
      have hlen := congrArg List.length h
      have hle := (List.dropWhile_suffix (l := rest ++ tail) p).length_le
      simp only [List.length_cons] at hlen
      omega
    rw [List.dropWhile_cons_of_neg hc]

theorem trim_trim (p : Char → Bool) (l : List Char) : trim p (trim p l) = trim p l := by
  unfold trim
  rw [dropWhile_end (dropWhile_dropWhile l), List.reverse_reverse, dropWhile_dropWhile]

/-- Stripping a text that is stripped changes nothing, in front. -/
theorem lstrip_strip_chars (l : List Char) : lstrip (strip_chars l) = strip_chars l :=
  dropWhile_end (dropWhile_dropWhile l)

theorem strip_strip (s : String) : strip (strip s) = strip s := by
  rw [strip, strip, String.toList_ofList]
  exact congrArg String.ofList (trim_trim is_space s.toList)

/-! ### Whitespace removed -/

/-- The characters of a text without its whitespace. -/
def nospace (l : List Char) : List Char := l.filter fun c => !is_space c

@[simp] theorem nospace_nil : nospace [] = [] := rfl

@[simp] theorem nospace_append (l m : List Char) : nospace (l ++ m) = nospace l ++ nospace m :=
  List.filter_append ..

theorem nospace_cons (c : Char) (l : List Char) :
    nospace (c :: l) = if is_space c then nospace l else c :: nospace l := by
  cases h : is_space c <;> simp [nospace, h]

theorem nospace_reverse (l : List Char) : nospace l.reverse = (nospace l).reverse :=
  List.filter_reverse ..

@[simp] theorem nospace_lstrip (l : List Char) : nospace (lstrip l) = nospace l := by
  induction l with
  | nil => rfl
  | cons c rest ih =>
    cases hc : is_space c with
    | true =>
      have hdrop : lstrip (c :: rest) = lstrip rest := List.dropWhile_cons_of_pos hc
      rw [hdrop, ih, nospace_cons, if_pos hc]
    | false =>
      have hneg : ¬ is_space c = true := by simp [hc]
      rw [lstrip, List.dropWhile_cons_of_neg hneg]

@[simp] theorem nospace_rstrip (l : List Char) : nospace (rstrip l) = nospace l := by
  have h := nospace_lstrip l.reverse
  rw [lstrip, nospace_reverse] at h
  rw [rstrip, nospace_reverse, h, List.reverse_reverse]

@[simp] theorem nospace_strip_chars (l : List Char) : nospace (strip_chars l) = nospace l := by
  rw [strip_chars, nospace_rstrip, nospace_lstrip]

/-- A stripped text does not begin with whitespace. -/
theorem head_strip_chars {l rest : List Char} {c : Char} (h : strip_chars l = c :: rest) :
    is_space c = false := by
  have hstrip := lstrip_strip_chars l
  rw [h] at hstrip
  cases hc : is_space c with
  | false => rfl
  | true =>
    rw [lstrip, List.dropWhile_cons_of_pos hc] at hstrip
    have hlen := congrArg List.length hstrip
    have hle := (List.dropWhile_suffix (l := rest) is_space).length_le
    simp only [List.length_cons] at hlen
    omega

end PyText

end LocalVoice.Lib
