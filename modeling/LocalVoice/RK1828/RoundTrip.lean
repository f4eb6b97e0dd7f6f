import LocalVoice.RK1828.Lines

/-! A request line, from the `str` that `generate` gets to what `run_server` reads from its stdin. The four
    replacements of `_escape` are chained, on characters; on the bytes that are written they come to one
    pass, which `unescape_request` inverts. -/

namespace LocalVoice.RK1828

/-! ### The client's side -/

/-- A `str` that can be encoded: its characters are scalar values. -/
abbrev Text := List Char

/-- `text.replace(c, new)`. -/
def replace (c : Char) (new text : Text) : Text := text.flatMap fun d => if d = c then new else [d]

/-- `_escape`. -/
def escape_text (text : Text) : Text :=
  replace '\t' ['\\', 't'] (replace '\r' ['\\', 'r'] (replace '\n' ['\\', 'n']
    (replace '\\' ['\\', '\\'] text)))

/-- `json.dumps(tools, ensure_ascii=False)`, each tool given by its own JSON text. -/
def tools_json (tools : List Text) : Text := ['['] ++ [',', ' '].intercalate tools ++ [']']

/-- `str(n)`. -/
def str_int (n : ℤ) : Text :=
  if n < 0 then '-' :: Nat.toDigits 10 n.natAbs else Nat.toDigits 10 n.natAbs

/-- The `line` of `_run_request`. -/
def run_request_line (prompt : Text) (max_new_tokens : ℤ) (tools : List Text) : Text :=
  if tools ≠ [] then
    ['V', '2', '\t'] ++ str_int max_new_tokens ++ ['\t', '0', '\t'] ++ escape_text (tools_json tools) ++
      ['\t', '1', '\t', '\t'] ++ escape_text prompt ++ ['\n']
  else str_int max_new_tokens ++ ['\t'] ++ escape_text prompt ++ ['\n']

/-- `text.encode("utf-8")`. -/
def encode (text : Text) : Bytes := text.flatMap String.utf8EncodeChar

/-! ### The worker's side -/

/-- What `std::getline` gives, call after call. -/
def getlines : Bytes → List Bytes
  | [] => []
  | b :: rest =>
    if b = newline then [] :: getlines rest
    else match getlines rest with
    | [] => [[b]]
    | line :: lines => (b :: line) :: lines

/-- What `run_server` reads from a line; `none` for an empty one. -/
def read_line (line : Bytes) : Option Parsed :=
  if chomp line = [] then none else some (parse_line (chomp line))

/-- What `run_server` reads from its stdin. -/
def run_server (stdin : Bytes) : List (Option Parsed) := (getlines stdin).map read_line

/-! ### On the bytes -/

theorem encode_append (s t : Text) : encode (s ++ t) = encode s ++ encode t := List.flatMap_append

/-- A character is a byte, or bytes that are no ASCII. -/
theorem encode_char (c : Char) : String.utf8EncodeChar c = [UInt8.ofNat c.toNat] ∧ c.toNat < 0x80 ∨
    0x80 ≤ c.toNat ∧ ∀ b ∈ String.utf8EncodeChar c, 0x80 ≤ b.toNat := by
  have hval : c.val.toNat = c.toNat := rfl
  unfold String.utf8EncodeChar
  simp only [hval]
  split
  · next hle => exact .inl ⟨rfl, Nat.lt_succ_of_le hle⟩
  · next hlt =>
    have hmax : c.toNat < 0x110000 := by
      rcases c.valid with h | h
      · exact Nat.lt_trans h (by decide)
      · exact h.2
    refine .inr ⟨Nat.lt_of_not_le hlt, ?_⟩
    split
    · simp only [List.forall_mem_cons, UInt8.toNat_ofNat', List.not_mem_nil, false_implies, implies_true,
        and_true]
      omega
    · split
      · simp only [List.forall_mem_cons, UInt8.toNat_ofNat', List.not_mem_nil, false_implies, implies_true,
          and_true]
        omega
      · simp only [List.forall_mem_cons, UInt8.toNat_ofNat', List.not_mem_nil, false_implies, implies_true,
          and_true]
        omega

/-- What `_escape` makes of one character. -/
theorem escape_text_cons (c : Char) (text : Text) : escape_text (c :: text) =
    (if c = '\\' then ['\\', '\\'] else if c = '\n' then ['\\', 'n'] else if c = '\r' then ['\\', 'r']
      else if c = '\t' then ['\\', 't'] else [c]) ++ escape_text text := by
  have hcons : ∀ (d : Char) (new s t : Text), replace d new (s ++ t) = replace d new s ++ replace d new t :=
    fun d new s t => List.flatMap_append
  rw [escape_text, show c :: text = [c] ++ text from rfl, hcons, hcons, hcons, hcons, ← escape_text]
  congr 1
  by_cases h1 : c = '\\'
  · subst h1
    rfl
  by_cases h2 : c = '\n'
  · subst h2
    rfl
  by_cases h3 : c = '\r'
  · subst h3
    rfl
  by_cases h4 : c = '\t'
  · subst h4
    rfl
  simp [escape_text, replace, h1, h2, h3, h4]

/-- A byte that is no ASCII is left as it is. -/
theorem escape_high {s : Bytes} (h : ∀ b ∈ s, 0x80 ≤ b.toNat) : escape s = s := by
  induction s with
  | nil => rfl
  | cons b s ih =>
    obtain ⟨hb, hs⟩ := List.forall_mem_cons.1 h
    have hne : ∀ d : UInt8, d.toNat < 0x80 → b ≠ d := fun d hd heq => by
      rw [heq] at hb
      exact absurd hd (Nat.not_lt.2 hb)
    rw [escape, List.flatMap_cons, ← escape, ih hs, escape_byte, if_neg (hne _ (by decide)),
      if_neg (hne _ (by decide)), if_neg (hne _ (by decide)), if_neg (hne _ (by decide))]
    rfl

theorem byte_inj {c : Char} (hc : c.toNat < 0x80) (d : Char) (hd : d.toNat < 0x80) :
    UInt8.ofNat c.toNat = UInt8.ofNat d.toNat ↔ c = d := by
  constructor
  · intro heq
    have hnat := congrArg UInt8.toNat heq
    rw [UInt8.toNat_ofNat', UInt8.toNat_ofNat'] at hnat
    exact Char.toNat_inj.1 (by omega)
  · rintro rfl
    rfl

/-- Escaped and encoded, or encoded and escaped. -/
theorem encode_escape (text : Text) : encode (escape_text text) = escape (encode text) := by
  induction text with
  | nil => rfl
  | cons c text ih =>
    have happend : escape (encode (c :: text)) = escape (String.utf8EncodeChar c) ++ escape (encode text) := by
      rw [encode, List.flatMap_cons, escape, List.flatMap_append, ← escape, ← escape, ← encode]
    rw [escape_text_cons, encode_append, ih, happend]
    congr 1
    rcases encode_char c with ⟨hchar, hlt⟩ | ⟨hle, hhigh⟩
    · have h1 : UInt8.ofNat c.toNat = backslash ↔ c = '\\' := byte_inj hlt '\\' (by decide)
      have h2 : UInt8.ofNat c.toNat = newline ↔ c = '\n' := byte_inj hlt '\n' (by decide)
      have h3 : UInt8.ofNat c.toNat = carriage_return ↔ c = '\r' := byte_inj hlt '\r' (by decide)
      have h4 : UInt8.ofNat c.toNat = tab ↔ c = '\t' := byte_inj hlt '\t' (by decide)
      rw [hchar, escape, List.flatMap_singleton, escape_byte]
      simp only [h1, h2, h3, h4]
      split
      · rfl
      · split
        · rfl
        · split
          · rfl
          · split
            · rfl
            · rw [encode, List.flatMap_singleton, hchar]
    · have hne : ∀ d : Char, d.toNat < 0x80 → c ≠ d := by
        rintro d hd rfl
        exact absurd hd (Nat.not_lt.2 hle)
      rw [if_neg (hne _ (by decide)), if_neg (hne _ (by decide)), if_neg (hne _ (by decide)),
        if_neg (hne _ (by decide)), encode, List.flatMap_singleton, escape_high hhigh]

/-- Characters of ASCII are encoded byte for byte. -/
theorem encode_ascii {text : Text} (h : ∀ c ∈ text, c.toNat < 0x80) :
    encode text = text.map fun c => UInt8.ofNat c.toNat := by
  induction text with
  | nil => rfl
  | cons c text ih =>
    obtain ⟨hc, htext⟩ := List.forall_mem_cons.1 h
    have hchar : String.utf8EncodeChar c = [UInt8.ofNat c.toNat] :=
      ((encode_char c).resolve_right fun hhigh => absurd hc (Nat.not_lt.2 hhigh.1)).1
    rw [encode, List.flatMap_cons, ← encode, ih htext, hchar]
    rfl

theorem digit_chars {n : ℕ} {c : Char} (h : c ∈ Nat.toDigits 10 n) : 0x30 ≤ c.toNat ∧ c.toNat ≤ 0x39 := by
  have hdigit : c.isDigit := Nat.isDigit_of_mem_toDigits (by decide) (by decide) h
  simpa [Char.isDigit, UInt32.le_iff_toNat_le] using hdigit

theorem encode_str_int (n : ℤ) : encode (str_int n) = decimal n := by
  have hdigits : ∀ c ∈ Nat.toDigits 10 n.natAbs, c.toNat < 0x80 := fun c hc =>
    Nat.lt_of_le_of_lt (digit_chars hc).2 (by decide)
  unfold str_int decimal
  split
  · rw [show '-' :: Nat.toDigits 10 n.natAbs = ['-'] ++ Nat.toDigits 10 n.natAbs from rfl, encode_append,
      encode_ascii hdigits]
    rfl
  · exact encode_ascii hdigits

theorem encode_intercalate (sep : Text) (texts : List Text) :
    encode (sep.intercalate texts) = (encode sep).intercalate (texts.map encode) := by
  induction texts with
  | nil => rfl
  | cons text texts ih =>
    cases texts with
    | nil => simp [List.intercalate]
    | cons next texts =>
      rw [List.map_cons, List.map_cons, List.intercalate_cons_cons, List.intercalate_cons_cons,
        encode_append, encode_append, ih]
      rfl

theorem encode_tools (tools : List Text) : encode (tools_json tools) = json_dumps (tools.map encode) := by
  rw [tools_json, encode_append, encode_append, encode_intercalate]
  rfl

/-- The bytes that are written: the line of the request on bytes, and the newline. -/
theorem encode_line (prompt : Text) (n : ℤ) (tools : List Text) :
    encode (run_request_line prompt n tools) =
      request_line ⟨encode prompt, n, tools.map encode⟩ ++ [newline] := by
  unfold run_request_line request_line
  cases tools with
  | nil =>
    simp only [ne_eq, not_true_eq_false, if_false, encode_append, encode_str_int, encode_escape,
      List.map_nil]
    rfl
  | cons tool tools =>
    simp only [ne_eq, reduceCtorEq, not_false_eq_true, if_true, List.map_cons, encode_append, encode_str_int,
      encode_escape, encode_tools]
    have hhead : encode ['V', '2', '\t'] = ascii "V2" ++ [tab] := by decide
    have hkeep : encode ['\t', '0', '\t'] = [tab] ++ ascii "0" ++ [tab] := by decide
    have hcount : encode ['\t', '1', '\t', '\t'] = [tab] ++ ascii "1" ++ [tab, tab] := by decide
    have hend : encode ['\n'] = [newline] := by decide
    rw [hhead, hkeep, hcount, hend]
    simp [List.intercalate]

/-! ### Read back -/

/-- A digit is no space and no sign. -/
theorem decimal_byte {n : ℕ} {b : UInt8} (h : b ∈ decimal_nat n) :
    is_digit b = true ∧ is_space b = false ∧ b ≠ 0x2D ∧ b ≠ 0x2B := by
  obtain ⟨c, hc, rfl⟩ := List.mem_map.1 h
  obtain ⟨hlo, hhi⟩ := digit_chars hc
  have hnat : (UInt8.ofNat c.toNat).toNat = c.toNat := by
    rw [UInt8.toNat_ofNat']
    omega
  simp only [is_digit, is_space, Bool.and_eq_true, Bool.or_eq_false_iff, decide_eq_true_eq,
    decide_eq_false_iff_not, Bool.and_eq_false_iff, UInt8.le_iff_toNat_le, ne_eq, ← UInt8.toNat_inj, hnat,
    UInt8.reduceToNat]
  omega

/-- Digits have one value, as characters and as bytes. -/
theorem foldl_digits {digits : Text} (h : ∀ c ∈ digits, c.toNat ≤ 0x39) (m : ℕ) :
    (digits.map fun c => UInt8.ofNat c.toNat).foldl (fun n b => 10 * n + (b.toNat - 0x30)) m =
      digits.foldl (fun n c => 10 * n + (c.toNat - 0x30)) m := by
  induction digits generalizing m with
  | nil => rfl
  | cons c digits ih =>
    obtain ⟨hc, hdigits⟩ := List.forall_mem_cons.1 h
    rw [List.map_cons, List.foldl_cons, List.foldl_cons, ih hdigits, UInt8.toNat_ofNat',
      Nat.mod_eq_of_lt (Nat.lt_of_le_of_lt hc (by decide))]

theorem digits_value_decimal (n : ℕ) : digits_value (decimal_nat n) = n := by
  have htake : (decimal_nat n).takeWhile is_digit = decimal_nat n :=
    List.takeWhile_eq_self_iff.2 fun b hb => (decimal_byte hb).1
  have hchars : Nat.ofDigitChars 10 (Nat.toDigits 10 n) 0 = n := by simp
  rw [digits_value, htake, decimal_nat, foldl_digits fun c hc => (digit_chars hc).2]
  rwa [Nat.ofDigitChars_eq_foldl] at hchars

/-- A decimal number below 2^31 is what it stands for. -/
theorem max_new_decimal {n : ℤ} (hpos : 0 < n) (hlt : n < 2 ^ 31) : max_new_of (decimal n) = n := by
  have habs : (n.natAbs : ℤ) = n := Int.natAbs_of_nonneg (Int.le_of_lt hpos)
  have hdec : decimal n = decimal_nat n.natAbs := if_neg (Int.not_lt.2 (Int.le_of_lt hpos))
  obtain ⟨b, rest, hb⟩ := List.exists_cons_of_ne_nil (decimal_ne_nil n)
  rw [hdec] at hb
  obtain ⟨-, hspace, hminus, hplus⟩ := decimal_byte (hb ▸ List.mem_cons_self : b ∈ decimal_nat n.natAbs)
  have hstrtol : strtol (decimal n) = n := by
    rw [strtol, hdec, hb, List.dropWhile_cons_of_neg (by rw [hspace]; exact Bool.false_ne_true)]
    dsimp only
    rw [if_neg hminus, if_neg hplus, ← hb, digits_value_decimal, habs]
    omega
  have hcast : to_int32 n = n := by
    rw [to_int32]
    omega
  rw [max_new_of, hstrtol, hcast]
  exact if_neg (Int.not_le.2 hpos)

theorem getlines_cons {line : Bytes} (h : newline ∉ line) (later : Bytes) :
    getlines (line ++ newline :: later) = line :: getlines later := by
  induction line with
  | nil => simp [getlines]
  | cons b line ih =>
    obtain ⟨hb, hline⟩ := not_or.1 (mt List.mem_cons.2 h)
    rw [List.cons_append, getlines, if_neg (Ne.symm hb), ih hline]

/-- A request comes through: it is one line, and the worker reads from it the limit, no history, the
    tools and one turn of the prompt, whatever is written behind it. -/
theorem request_round_trip (prompt : Text) (max_new_tokens : ℤ) (tools : List Text)
    (hpos : 0 < max_new_tokens) (hlt : max_new_tokens < 2 ^ 31) :
    (∃ line, encode (run_request_line prompt max_new_tokens tools) = line ++ [newline] ∧
      newline ∉ line) ∧
    ∀ later, run_server (encode (run_request_line prompt max_new_tokens tools) ++ later) =
      some ⟨max_new_tokens, 0, if tools ≠ [] then encode (tools_json tools) else [],
        [⟨[], encode prompt⟩]⟩ :: run_server later := by
  have hline := encode_line prompt max_new_tokens tools
  have hclean := (request_line_clean ⟨encode prompt, max_new_tokens, tools.map encode⟩).1
  have hread : read_line (request_line ⟨encode prompt, max_new_tokens, tools.map encode⟩) =
      some ⟨max_new_tokens, 0, if tools ≠ [] then encode (tools_json tools) else [],
        [⟨[], encode prompt⟩]⟩ := by
    rw [read_line, chomp_request_line, if_neg (request_line_ne_nil _), parse_request_line,
      max_new_decimal hpos hlt, encode_tools]
    simp only [ne_eq, List.map_eq_nil_iff]
  refine ⟨⟨_, hline, hclean⟩, fun later => ?_⟩
  rw [hline, List.append_assoc, run_server, List.singleton_append, getlines_cons hclean, List.map_cons, hread]
  rfl

/-- A prompt with a tab, a line end and a backslash, and a tool. -/
theorem request_round_trip_tool :
    encode (run_request_line ['V', '2', '\t', '\n', '\\', 'é'] 256 [['\x7b', '\x7d']]) =
      ascii "V2\t256\t0\t[\x7b\x7d]\t1\t\tV2\\t\\n\\\\" ++ [0xC3, 0xA9, newline] ∧
    run_server (encode (run_request_line ['V', '2', '\t', '\n', '\\', 'é'] 256 [['\x7b', '\x7d']]) ++ []) =
      [some ⟨256, 0, ascii "[\x7b\x7d]", [⟨[], [0x56, 0x32, tab, newline, backslash, 0xC3, 0xA9]⟩]⟩] :=
  ⟨by decide, (request_round_trip _ 256 [['\x7b', '\x7d']] (by decide) (by decide)).2 []⟩

end LocalVoice.RK1828
