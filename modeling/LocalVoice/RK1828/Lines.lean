import Mathlib.Data.Int.Notation
import Mathlib.Data.List.Basic
import Mathlib.Data.List.DropRight
import Mathlib.Data.Nat.Digits.Defs

/-! The request lines between `services/rk1828-llm/rk1828_llm_server.py` and the worker's `run_server`
    (`patches/Qwen3-cpp-main.cc`). Prompts and tool schemas stand here as their UTF-8 bytes; what the
    two sides escape and split at is ASCII, so it makes no difference where the encoding happens.

        no tools   <max_new> TAB esc(prompt)
        tools      V2 TAB <max_new> TAB 0 TAB esc(tools) TAB 1 TAB TAB esc(prompt) -/

namespace LocalVoice.RK1828

/-- A `bytes` or `std::string`. -/
abbrev Bytes := List UInt8

/-- The bytes of an ASCII text. -/
def ascii (s : String) : Bytes := s.toList.map fun c => UInt8.ofNat c.toNat

def tab : UInt8 := 0x09
def newline : UInt8 := 0x0A
def carriage_return : UInt8 := 0x0D
def backslash : UInt8 := 0x5C

/-! ### The client's side -/

/-- `_escape` on one byte. -/
def escape_byte (b : UInt8) : Bytes :=
  if b = backslash then [backslash, backslash]
  else if b = newline then [backslash, 0x6E]
  else if b = carriage_return then [backslash, 0x72]
  else if b = tab then [backslash, 0x74]
  else [b]

/-- `_escape`. -/
def escape (text : Bytes) : Bytes := text.flatMap escape_byte

/-- `json.dumps(tools, ensure_ascii=False)`, each tool given by its own JSON text. -/
def json_dumps (tools : List Bytes) : Bytes :=
  ascii "[" ++ (ascii ", ").intercalate tools ++ ascii "]"

/-- The digits of a count. -/
def decimal_nat (n : ℕ) : Bytes := (Nat.toDigits 10 n).map fun c => UInt8.ofNat c.toNat

/-- `str(n)`. -/
def decimal (n : ℤ) : Bytes :=
  if n < 0 then ascii "-" ++ decimal_nat n.natAbs else decimal_nat n.natAbs

/-- A chat request as `generate` gets it; no tools and an empty list of them are the same to it. -/
structure Request where
  prompt : Bytes
  max_new_tokens : ℤ
  tools : List Bytes
  deriving DecidableEq

/-- The line `_run_request` writes, without its newline. -/
def request_line (r : Request) : Bytes :=
  if r.tools ≠ [] then
    [tab].intercalate [ascii "V2", decimal r.max_new_tokens, ascii "0",
      escape (json_dumps r.tools), ascii "1", [], escape r.prompt]
  else decimal r.max_new_tokens ++ [tab] ++ escape r.prompt

/-! ### The worker's side -/

/-- `unescape_request`. -/
def unescape_request : Bytes → Bytes
  | [] => []
  | [b] => [b]
  | a :: b :: rest =>
    if a = backslash then
      (if b = 0x6E then [newline]
        else if b = 0x74 then [tab]
        else if b = 0x72 then [carriage_return]
        else if b = backslash then [backslash]
        else [backslash, b]) ++ unescape_request rest
    else a :: unescape_request (b :: rest)

/-- `isspace` of the C locale. -/
def is_space (b : UInt8) : Bool := b = 0x20 || (0x09 ≤ b && b ≤ 0x0D)

def is_digit (b : UInt8) : Bool := 0x30 ≤ b && b ≤ 0x39

/-- The number that digits at the front of a text stand for. -/
def digits_value (text : Bytes) : ℕ :=
  (text.takeWhile is_digit).foldl (fun n b => 10 * n + (b.toNat - 0x30)) 0

/-- `strtol(text, NULL, 10)`: blanks, a sign, digits; the nearest `long` when there are too many. -/
def strtol (text : Bytes) : ℤ :=
  let clamp (n : ℤ) : ℤ := max (-2 ^ 63) (min (2 ^ 63 - 1) n)
  match text.dropWhile is_space with
  | [] => 0
  | b :: rest =>
    if b = 0x2D then clamp (-(digits_value rest : ℤ))
    else if b = 0x2B then clamp (digits_value rest)
    else clamp (digits_value (b :: rest))

/-- The cast of a `long` to a 32-bit integer. -/
def to_int32 (n : ℤ) : ℤ := (n + 2 ^ 31) % 2 ^ 32 - 2 ^ 31

/-- `(int32_t)strtol(text, NULL, 10)`, and 256 in place of what is not positive. -/
def max_new_of (text : Bytes) : ℤ :=
  let n := to_int32 (strtol text)
  if n ≤ 0 then 256 else n

/-- One turn: its role (empty for the user) and its text. -/
structure ServerTurn where
  role : Bytes
  text : Bytes
  deriving DecidableEq

/-- What `run_server` reads from a line. -/
structure Parsed where
  max_new : ℤ
  keep : ℤ
  tools : Bytes
  turns : List ServerTurn
  deriving DecidableEq

/-- The turns behind the fourth field, `role` and `text` in turn. -/
def parse_turns : ℕ → List Bytes → List ServerTurn
  | n + 1, role :: text :: rest => ⟨role, unescape_request text⟩ :: parse_turns n rest
  | _, _ => []

/-- The fields of a `V2` line; a malformed one keeps what was read before the fault, and no turn. -/
def parse_fields (f : List Bytes) : Parsed :=
  match f with
  | max_new :: keep :: tools :: count :: rest =>
    let n := to_int32 (strtol count)
    { max_new := max_new_of max_new
      keep := to_int32 (strtol keep)
      tools := unescape_request tools
      turns := if 0 < n ∧ 2 * n ≤ rest.length then parse_turns n.toNat rest else [] }
  | _ => ⟨256, 0, [], []⟩

/-- How `run_server` reads a line that is not empty. -/
def parse_line (line : Bytes) : Parsed :=
  if (ascii "V2" ++ [tab]).isPrefixOf line then parse_fields ((line.drop 3).splitOn tab)
  else if tab ∈ line then
    ⟨max_new_of (line.takeWhile (· ≠ tab)), 0, [],
      [⟨[], unescape_request ((line.dropWhile (· ≠ tab)).drop 1)⟩]⟩
  else ⟨256, 0, [], [⟨[], unescape_request line⟩]⟩

/-- `line` without the line ends behind it. -/
def chomp (line : Bytes) : Bytes := line.rdropWhile fun b => b = carriage_return || b = newline

/-! ### What is written is read back -/

theorem unescape_cons {b : UInt8} (h : b ≠ backslash) (rest : Bytes) :
    unescape_request (b :: rest) = b :: unescape_request rest := by
  cases rest with
  | nil => rfl
  | cons c rest => rw [unescape_request, if_neg h]

/-- Unescaping what was escaped gives the text back. -/
theorem unescape_escape (text : Bytes) : unescape_request (escape text) = text := by
  induction text with
  | nil => rfl
  | cons b text ih =>
    rw [escape, List.flatMap_cons, ← escape, escape_byte]
    by_cases h1 : b = backslash
    · simp [h1, unescape_request, ih, backslash]
    by_cases h2 : b = newline
    · simp [h2, unescape_request, ih, backslash, newline]
    by_cases h3 : b = carriage_return
    · simp [h3, unescape_request, ih, backslash, newline, carriage_return]
    by_cases h4 : b = tab
    · simp [h4, unescape_request, ih, backslash, newline, carriage_return, tab]
    · simp only [h1, h2, h3, h4, if_false, List.singleton_append]
      rw [unescape_cons h1, ih]

/-- An escaped text has no tab, no newline and no carriage return. -/
theorem escape_clean (text : Bytes) :
    tab ∉ escape text ∧ newline ∉ escape text ∧ carriage_return ∉ escape text := by
  induction text with
  | nil => simp [escape]
  | cons b text ih =>
    obtain ⟨htab, hnl, hcr⟩ := ih
    have hbyte : tab ∉ escape_byte b ∧ newline ∉ escape_byte b ∧
        carriage_return ∉ escape_byte b := by
      unfold escape_byte
      split_ifs with h1 h2 h3 h4
      · decide
      · decide
      · decide
      · decide
      · simp only [List.mem_singleton]
        exact ⟨Ne.symm h4, Ne.symm h2, Ne.symm h3⟩
    rw [escape, List.flatMap_cons, ← escape]
    simp only [List.mem_append, not_or]
    exact ⟨⟨hbyte.1, htab⟩, ⟨hbyte.2.1, hnl⟩, hbyte.2.2, hcr⟩

/-- A decimal number is a minus sign or not, and digits. -/
theorem decimal_clean (n : ℤ) : ∀ b ∈ decimal n, b = 0x2D ∨ 0x30 ≤ b.toNat ∧ b.toNat ≤ 0x39 := by
  have hdigits : ∀ m, ∀ b ∈ decimal_nat m, 0x30 ≤ b.toNat ∧ b.toNat ≤ 0x39 := by
    intro m b hb
    obtain ⟨c, hc, rfl⟩ := List.mem_map.1 hb
    have hdigit : c.isDigit := Nat.isDigit_of_mem_toDigits (by decide) (by decide) hc
    have hle : 48 ≤ c.toNat ∧ c.toNat ≤ 57 := by
      simpa [Char.isDigit, UInt32.le_iff_toNat_le] using hdigit
    rw [UInt8.toNat_ofNat']
    omega
  intro b hb
  unfold decimal at hb
  split at hb
  · rcases List.mem_append.1 hb with hb | hb
    · exact Or.inl (by simpa [ascii] using hb)
    · exact Or.inr (hdigits _ b hb)
  · exact Or.inr (hdigits _ b hb)

theorem decimal_ne_nil (n : ℤ) : decimal n ≠ [] := by
  unfold decimal
  split
  · simp [ascii]
  · simp [decimal_nat]

/-- What is neither the sign nor a digit is not in a decimal number. -/
theorem not_mem_decimal {b : UInt8} (n : ℤ) (h : b ≠ 0x2D) (h' : b.toNat < 0x30 ∨ 0x39 < b.toNat) :
    b ∉ decimal n := by
  intro hb
  rcases decimal_clean n b hb with h1 | h1
  · exact h h1
  · omega

theorem request_line_ne_nil (r : Request) : request_line r ≠ [] := by
  unfold request_line
  split <;> simp [List.intercalate, ascii]

/-- A request is one line: no line end is in it. -/
theorem request_line_clean (r : Request) :
    newline ∉ request_line r ∧ carriage_return ∉ request_line r := by
  have hnl : newline ∉ decimal r.max_new_tokens := not_mem_decimal _ (by decide) (by decide)
  have hcr : carriage_return ∉ decimal r.max_new_tokens :=
    not_mem_decimal _ (by decide) (by decide)
  obtain ⟨-, htools, htools'⟩ := escape_clean (json_dumps r.tools)
  obtain ⟨-, hprompt, hprompt'⟩ := escape_clean r.prompt
  have hne : newline ≠ tab ∧ carriage_return ≠ tab := by decide
  unfold request_line
  split
  · simp [List.intercalate, ascii, hnl, hcr, htools, htools', hprompt, hprompt', hne.1, hne.2]
    decide
  · simp [hnl, hcr, hprompt, hprompt', hne.1, hne.2]

/-- So nothing is taken off its end. -/
theorem chomp_request_line (r : Request) : chomp (request_line r) = request_line r := by
  obtain ⟨hnl, hcr⟩ := request_line_clean r
  rw [chomp, List.rdropWhile_eq_self_iff]
  intro hne hlast
  have hmem := List.getLast_mem hne
  simp only [Bool.or_eq_true, decide_eq_true_eq] at hlast
  rcases hlast with h | h
  · exact hcr (h ▸ hmem)
  · exact hnl (h ▸ hmem)

/-- The worker reads the tools and the prompt of the request from its line. -/
theorem parse_request_line (r : Request) :
    parse_line (request_line r) = ⟨max_new_of (decimal r.max_new_tokens), 0,
      if r.tools ≠ [] then json_dumps r.tools else [], [⟨[], r.prompt⟩]⟩ := by
  have htab : tab ∉ decimal r.max_new_tokens := not_mem_decimal _ (by decide) (by decide)
  obtain ⟨htools, -⟩ := escape_clean (json_dumps r.tools)
  obtain ⟨hprompt, -⟩ := escape_clean r.prompt
  by_cases hne : r.tools ≠ []
  · have hline : request_line r = ascii "V2" ++ [tab] ++ [tab].intercalate
        [decimal r.max_new_tokens, ascii "0", escape (json_dumps r.tools), ascii "1", [],
          escape r.prompt] := by
      rw [request_line, if_pos hne]
      simp [List.intercalate]
    have hprefix : (ascii "V2" ++ [tab]).isPrefixOf (request_line r) = true := by
      rw [List.isPrefixOf_iff_prefix, hline]
      exact List.prefix_append _ _
    have hsplit : ((request_line r).drop 3).splitOn tab =
        [decimal r.max_new_tokens, ascii "0", escape (json_dumps r.tools), ascii "1", [],
          escape r.prompt] := by
      have hthree : (ascii "V2" ++ [tab]).length = 3 := rfl
      rw [hline, List.drop_left' hthree]
      refine List.splitOn_intercalate tab ?_ (by simp)
      have hzero : tab ∉ ascii "0" := by decide
      have hone : tab ∉ ascii "1" := by decide
      simp [htab, htools, hprompt, hzero, hone]
    have hcount : to_int32 (strtol (ascii "1")) = 1 := by decide
    have hkeep : to_int32 (strtol (ascii "0")) = 0 := by decide
    rw [parse_line, if_pos hprefix, hsplit]
    simp [parse_fields, hcount, hkeep, parse_turns, unescape_escape, hne]
  · have hline : request_line r = decimal r.max_new_tokens ++ [tab] ++ escape r.prompt :=
      if_neg hne
    have hprefix : ¬ (ascii "V2" ++ [tab]).isPrefixOf (request_line r) = true := by
      rw [List.isPrefixOf_iff_prefix, hline]
      rintro ⟨t, ht⟩
      -- the line begins with a digit or a minus sign
      obtain ⟨b, rest, hb⟩ := List.exists_cons_of_ne_nil (decimal_ne_nil r.max_new_tokens)
      have hV : 0x56 ∉ decimal r.max_new_tokens := not_mem_decimal _ (by decide) (by decide)
      rw [hb] at ht hV
      have hhead : 0x56 = b := (List.cons.inj ht).1
      simp [hhead] at hV
    have hne_tab : ∀ b ∈ decimal r.max_new_tokens, decide (b ≠ tab) = true := by
      intro b hb
      have : b ≠ tab := fun h => htab (h ▸ hb)
      simpa using this
    have hfront : (request_line r).takeWhile (· ≠ tab) = decimal r.max_new_tokens := by
      rw [hline, List.append_assoc, List.takeWhile_append_of_pos hne_tab]
      simp
    have hback : (request_line r).dropWhile (· ≠ tab) = tab :: escape r.prompt := by
      rw [hline, List.append_assoc, List.dropWhile_append_of_pos hne_tab]
      simp
    rw [parse_line, if_neg hprefix, if_pos (by simp [hline]), hfront, hback]
    simp [unescape_escape, hne]

end LocalVoice.RK1828
