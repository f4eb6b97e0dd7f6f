import Mathlib.Data.List.Chain
import LocalVoice.V2V.Pieces

/-! Words in a reply that goes through a `LowLatencyTTSBuffer`. Each character of the reply carries
    the one behind it, so that a piece shows whether it ends inside a word. The cuts at breaks and at
    whitespace do not; the rule that takes the whole buffer ends a piece where a chunk happened to
    end (`words_whole`). -/

namespace LocalVoice.V2V
open LocalVoice.Lib

namespace LowLatencyTTSBuffer

/-- A character of a reply, and the one behind it. -/
abbrev Mark := Char × Option Char

def marked : List Char → List Mark
  | [] => []
  | c :: rest => (c, rest.head?) :: marked rest

/-- The text ends in a letter or digit, and behind it comes another one. -/
def CutsWord (isalnum : Char → Bool) (text : List Mark) : Prop :=
  ∃ c d, text.getLast? = some (c, some d) ∧ isalnum c = true ∧ isalnum d = true

/-- Each character carries the next one. -/
def Linked (text : List Mark) : Prop := text.IsChain fun a b => a.2 = some b.1

/-- What is known of `str.isalnum`. -/
structure Alnum (isalnum : Char → Bool) : Prop where
  space : ∀ c, PyText.is_space c = true → isalnum c = false
  hard : ∀ c ∈ hard_breaks, isalnum c = false
  soft : ∀ c ∈ latin_soft_breaks, isalnum c = false

/-- A reply in which nothing is taken for CJK, and whose runs without whitespace are short. -/
structure Latin (b : LowLatencyTTSBuffer) (text : List Char) : Prop where
  language : cjk_languages.contains (PyText.lower b.language) = false
  chars : ∀ c ∈ text, contains_cjk c = false
  runs : ∀ u w v, text = u ++ w ++ v → (∀ c ∈ w, PyText.is_space c = false) →
    w.length < b.min_chars

/-- No character of a list has a property. -/
theorem none_of_any {p : Char → Bool} {l : List Char} (h : l.any p = false) : ∀ c ∈ l, p c = false :=
  fun c hc => Bool.eq_false_iff.2 (List.any_eq_false.1 h c hc)

/-- A soft break. -/
def soft (a : Mark) : Bool := latin_soft_breaks.contains a.1

/-- A pending text that ends inside a word has no tail, from its start or behind a hard break, with a
    soft break, without a complete first sentence, and of `target_chars`. -/
def Held (b : LowLatencyTTSBuffer) (isalnum : Char → Bool) (x : List Mark) : Prop :=
  CutsWord isalnum x → ∀ u v, x = u ++ v → EndsHard Prod.fst u →
    hard_cut Prod.fst (lstrip Prod.fst v) = none → (∃ a ∈ v, soft a = true) →
      (strip Prod.fst v).length < b.target_chars

/-! ### Marks -/

section
variable {text : List Char} {l u v : List Mark} {a : Mark} {isalnum : Char → Bool}

theorem marked_map (text : List Char) : (marked text).map Prod.fst = text := by
  induction text with
  | nil => rfl
  | cons c rest ih => rw [marked, List.map_cons, ih]

theorem marked_linked (text : List Char) : Linked (marked text) := by
  induction text with
  | nil => exact .nil
  | cons c rest ih =>
    cases rest with
    | nil => exact .singleton _
    | cons d rest => exact .cons_cons rfl ih

theorem Linked.part (h : Linked l) (hu : u <:+: l) : Linked u := by
  obtain ⟨s, t, rfl⟩ := hu
  exact h.left_of_append.right_of_append

theorem marked_last (text : List Char) : ∀ a ∈ (marked text).getLast?, a.2 = none := by
  induction text with
  | nil => nofun
  | cons c rest ih =>
    cases rest with
    | nil =>
      rintro a ⟨⟩
      rfl
    | cons d rest =>
      rw [marked, List.getLast?_cons_of_ne_nil (by simp [marked])]
      exact ih

/-- Stripping a text does not bring its end into a word. -/
theorem CutsWord.of_strip (hl : Linked l) (hspace : ∀ c, PyText.is_space c = true → isalnum c = false)
    (h : CutsWord isalnum (strip Prod.fst l)) : CutsWord isalnum l := by
  obtain ⟨c, d, hlast, hc, hd⟩ := h
  obtain ⟨sp, sp', hsplit, -, hsp'⟩ := strip_split Prod.fst l
  obtain ⟨w, hw⟩ := List.getLast?_eq_some_iff.1 hlast
  cases sp' with
  | nil =>
    refine ⟨c, d, ?_, hc, hd⟩
    rw [hsplit, hw]
    simp
  | cons a rest =>
    -- behind the piece there is whitespace
    rw [hw] at hsplit
    rw [hsplit, List.append_assoc, List.append_assoc, ← List.append_assoc] at hl
    have hnext := (List.isChain_append_cons_cons.1 hl).2.1
    obtain rfl := Option.some.inj hnext
    rw [hspace _ (hsp' a (by simp))] at hd
    cases hd

/-- A text whose last character is no letter or digit ends no piece inside a word. -/
theorem strip_not_cuts (hl : Linked (u ++ [a])) (ha : isalnum a.1 = false)
    (hspace : ∀ c, PyText.is_space c = true → isalnum c = false) :
    ¬ CutsWord isalnum (strip Prod.fst (u ++ [a])) := by
  intro h
  obtain ⟨c, d, hlast, hc, -⟩ := h.of_strip hl hspace
  rw [List.getLast?_concat] at hlast
  obtain rfl := Option.some.inj hlast
  rw [hc] at ha
  cases ha

end

/-! ### The cuts -/

section
variable {α : Type*} {ch : α → Char} {p : Char → Bool} {u v l : List α} {a : α}

/-- The last index whose character passes is where the last such character is. -/
theorem last_index_last (u : List α) (ha : p (ch a) = true) (hv : ∀ x ∈ v, p (ch x) = false) :
    last_index ch p (u ++ a :: v) = some u.length := by
  have hnone : v.reverse.findIdx? (fun x => p (ch x)) = none :=
    List.findIdx?_eq_none_iff.2 fun x hx => hv x (List.mem_reverse.1 hx)
  have hfirst : first_index ch p (u ++ a :: v).reverse = some v.length := by
    rw [first_index, List.reverse_append, List.reverse_cons, List.append_assoc, List.findIdx?_append,
      hnone, List.singleton_append, List.findIdx?_cons, if_pos ha]
    simp
  rw [last_index, hfirst, Option.map_some, List.length_append, List.length_cons]
  congr 1
  omega

theorem last_index_split (ch : α → Char) (p : Char → Bool) (l : List α) :
    (last_index ch p l = none ∧ ∀ a ∈ l, p (ch a) = false) ∨
      ∃ u a v, l = u ++ a :: v ∧ p (ch a) = true ∧ (∀ x ∈ v, p (ch x) = false) ∧
        last_index ch p l = some u.length := by
  rcases first_split (fun a => p (ch a)) l.reverse with hnone | ⟨m, a, r, hsplit, hm, ha⟩
  · have hl : ∀ a ∈ l, p (ch a) = false := fun a ha => hnone a (List.mem_reverse.2 ha)
    refine .inl ⟨?_, hl⟩
    rw [last_index, first_index, List.findIdx?_eq_none_iff.2 hnone]
    rfl
  · have hl : l = r.reverse ++ a :: m.reverse := by
      have hback := congrArg List.reverse hsplit
      rw [List.reverse_reverse, List.reverse_append, List.reverse_cons, List.append_assoc] at hback
      exact hback
    have hv : ∀ x ∈ m.reverse, p (ch x) = false := fun x hx => hm x (List.mem_reverse.1 hx)
    exact .inr ⟨_, a, _, hl, ha, hv, by rw [hl, last_index_last _ ha hv]⟩

theorem take_last (u v : List α) (a : α) : (u ++ a :: v).take (u.length + 1) = u ++ [a] := by
  rw [List.append_cons, List.take_left' (by simp)]

theorem drop_last (u v : List α) (a : α) : (u ++ a :: v).drop (u.length + 1) = v := by
  rw [List.append_cons, List.drop_left' (by simp)]

theorem strip_length_le (ch : α → Char) (text : List α) : (strip ch text).length ≤ text.length :=
  (strip_sublist text).length_le

end

section
variable {b : LowLatencyTTSBuffer} {isalnum : Char → Bool} {reply : List Char}
  {text x u v : List Mark} {a : Mark} {n : ℕ}

/-- A text in which nothing is taken for CJK, and which has no long runs without whitespace. -/
structure Plain (b : LowLatencyTTSBuffer) (text : List Mark) : Prop where
  cjk : b.is_cjk Prod.fst text = false
  linked : Linked text
  runs : ∀ u w v, text = u ++ w ++ v → (∀ a ∈ w, PyText.is_space a.1 = false) →
    w.length < b.min_chars

theorem Latin.plain (h : Latin b reply) (hx : text <:+: marked reply) : Plain b text := by
  refine ⟨?_, (marked_linked reply).part hx, ?_⟩
  · have hchars : text.any (fun a => contains_cjk a.1) = false := by
      rw [List.any_eq_false]
      intro a ha hcjk
      have hmem : a.1 ∈ (marked reply).map Prod.fst := List.mem_map_of_mem (hx.subset ha)
      rw [marked_map] at hmem
      rw [h.chars _ hmem] at hcjk
      cases hcjk
    rw [is_cjk, hchars, h.language]
    rfl
  · rintro u w v rfl hw
    obtain ⟨s, t, hst⟩ := hx
    have hreply := congrArg (List.map Prod.fst) hst
    rw [marked_map] at hreply
    have hlt := h.runs ((s ++ u).map Prod.fst) (w.map Prod.fst) ((v ++ t).map Prod.fst)
      (by rw [← hreply]; simp) fun c hc => by
        obtain ⟨a, ha, rfl⟩ := List.mem_map.1 hc
        exact hw a ha
    rwa [List.length_map] at hlt

theorem Plain.part (h : Plain b text) (hx : x <:+: text) : Plain b x := by
  refine ⟨?_, h.linked.part hx, ?_⟩
  · have hcjk := h.cjk
    rw [is_cjk, Bool.or_eq_false_iff] at hcjk ⊢
    refine ⟨List.any_eq_false.2 fun a ha => List.any_eq_false.1 hcjk.1 a (hx.subset ha), hcjk.2⟩
  · rintro u w v rfl hw
    obtain ⟨s, t, hst⟩ := hx
    exact h.runs (s ++ u) w (v ++ t) (by rw [← hst]; simp) hw

/-- A long text is cut behind a whitespace, if the limits leave room for one. -/
theorem Plain.length_cut_space (h : Plain b text) (hroom : 2 * b.min_chars ≤ b.target_chars + 1)
    (hn : b.length_cut Prod.fst text = some n) : ∃ u a v, text = u ++ a :: v ∧ n = u.length + 1 ∧
      PyText.is_space a.1 = true := by
  simp only [length_cut, h.cjk, Bool.false_eq_true, if_false, Option.ite_none_left_eq_some] at hn
  obtain ⟨hlong, -, hn⟩ := hn
  obtain rfl := Option.some.inj hn
  have hlen := strip_length_le Prod.fst text
  have hmax := b.target_le_max
  have hmin := b.two_le_min
  -- among `min_chars` characters there is a whitespace
  obtain ⟨limit, hlimit⟩ : ∃ limit, limit = min text.length b.max_chars := ⟨_, rfl⟩
  rw [choose_length_cut, h.cjk, if_neg Bool.false_ne_true, ← hlimit]
  rcases last_index_split Prod.fst PyText.is_space (text.take limit) with
    ⟨-, hnone⟩ | ⟨u, a, v, hsplit, ha, hv, hlast⟩
  · have hrun := h.runs [] (text.take limit) (text.drop limit) (by simp) hnone
    rw [List.length_take] at hrun
    omega
  · have hlength := congrArg List.length hsplit
    rw [List.length_take, List.length_append, List.length_cons] at hlength
    have hrun := h.runs (u ++ [a]) v (text.drop limit)
      (by rw [List.append_assoc u [a] v, List.singleton_append, ← hsplit, List.take_append_drop]) hv
    rw [hlast]
    dsimp only
    rw [if_pos (by omega)]
    exact ⟨u, a, v ++ text.drop limit, by
      rw [← List.cons_append, ← List.append_assoc, ← hsplit, List.take_append_drop], rfl, ha⟩

/-- A text is cut by its length only if there is no soft break. -/
theorem Plain.no_soft (h : Plain b text) (hsoft : b.soft_cut Prod.fst text = none)
    (hn : b.length_cut Prod.fst text = some n) : ∀ a ∈ text, soft a = false := by
  simp only [length_cut, soft_cut, h.cjk, Bool.false_eq_true, if_false,
    Option.ite_none_left_eq_some] at hn hsoft
  rcases last_index_split Prod.fst latin_soft_breaks.contains text with
    ⟨-, hno⟩ | ⟨u, a, v, -, -, -, hlast⟩
  · exact hno
  · rw [hlast, Option.bind_some] at hsoft
    split at hsoft
    · cases hsoft
    · rw [if_pos (Nat.le_of_not_lt hn.1)] at hsoft
      cases hsoft

/-! ### The loop -/

/-- A tail of the pending text that the loop comes to: the rule that takes the whole buffer is held
    off as long as there is a soft break. -/
structure Tail (b : LowLatencyTTSBuffer) (x text : List Mark) : Prop where
  plain : Plain b text
  behind : ∃ u v, x = u ++ v ∧ text = lstrip Prod.fst v ∧
    (EndsHard Prod.fst u ∨ ∀ a ∈ v, soft a = false)

theorem lstrip_suffix {α : Type*} (ch : α → Char) (text : List α) : lstrip ch text <:+ text :=
  List.dropWhile_suffix _

theorem Tail.suffix (h : Tail b x text) : text <:+ x := by
  obtain ⟨u, v, rfl, rfl, -⟩ := h.behind
  exact (lstrip_suffix Prod.fst v).trans (List.suffix_append u v)

/-- A cut behind a character that is no letter or digit. -/
theorem Plain.cut_behind (h : Plain b (u ++ a :: v)) (halnum : Alnum isalnum)
    (ha : isalnum a.1 = false) :
    ¬ CutsWord isalnum (strip Prod.fst ((u ++ a :: v).take (u.length + 1))) := by
  rw [take_last]
  exact strip_not_cuts (h.linked.part ⟨[], v, by simp⟩) ha halnum.space

theorem Tail.cut (h : Tail b x text) (halnum : Alnum isalnum) (hheld : Held b isalnum x)
    (hroom : 2 * b.min_chars ≤ b.target_chars + 1) (ht : Trimmed Prod.fst text)
    (hn : b.cut Prod.fst text = some n) :
    ¬ CutsWord isalnum (strip Prod.fst (text.take n)) ∧
      Tail b x (lstrip Prod.fst (text.drop n)) := by
  have hplain : Plain b (lstrip Prod.fst (text.drop n)) :=
    h.plain.part ((lstrip_suffix _ _).isInfix.trans (List.drop_suffix n text).isInfix)
  obtain ⟨w, hw⟩ := h.suffix
  -- without a soft break behind the cut
  have hrest : (∀ a ∈ text.drop n, soft a = false) → Tail b x (lstrip Prod.fst (text.drop n)) :=
    fun hsoft => ⟨hplain, w ++ text.take n, text.drop n, by
      rw [List.append_assoc, List.take_append_drop, hw], rfl, .inr hsoft⟩
  rcases Option.or_eq_some_iff.1 hn with hhard | ⟨hnone, hn⟩
  · rcases first_split (hard Prod.fst) text with hno | ⟨m, a, r, rfl, hm, ha⟩
    · rw [hard_cut_none hno] at hhard
      cases hhard
    · rw [hard_cut_first r hm ha] at hhard
      split at hhard
      · obtain rfl := Option.some.inj hhard
        refine ⟨h.plain.cut_behind halnum (halnum.hard _ (List.contains_iff_mem.1 ha)), hplain,
          w ++ (m ++ [a]), r, ?_, ?_, .inl (.inr ⟨w ++ m, a, (List.append_assoc ..).symm, ha⟩)⟩
        · rw [← hw, List.append_assoc, List.append_assoc, List.singleton_append]
        · rw [drop_last]
      · cases hhard
  · rcases Option.or_eq_some_iff.1 hn with hsoft | ⟨hsoft, hlength⟩
    · simp only [soft_cut, h.plain.cjk, Bool.false_eq_true, if_false] at hsoft
      rcases last_index_split Prod.fst latin_soft_breaks.contains text with
        ⟨hlast, -⟩ | ⟨u, a, v, rfl, ha, hv, hlast⟩
      · rw [hlast] at hsoft
        cases hsoft
      · rw [hlast, Option.bind_some] at hsoft
        split at hsoft
        · obtain rfl := Option.some.inj hsoft
          refine ⟨h.plain.cut_behind halnum (halnum.soft _ (List.contains_iff_mem.1 ha)), hrest ?_⟩
          rw [drop_last]
          exact hv
        · split at hsoft
          · next hlong =>
            obtain rfl := Option.some.inj hsoft
            refine ⟨?_, hrest (by simp)⟩
            rw [List.take_length]
            intro hcuts
            -- the whole buffer is taken, and the chunk ends inside a word
            have hcut := hcuts.of_strip h.plain.linked halnum.space
            obtain ⟨u', v', hx, htext, hend⟩ := h.behind
            have hmem : a ∈ lstrip Prod.fst v' := by
              rw [← htext]
              simp
            have hbreak : ∃ a ∈ v', soft a = true := ⟨a, (lstrip_suffix _ v').subset hmem, ha⟩
            have hhard : EndsHard Prod.fst u' := by
              refine hend.resolve_right fun hno => ?_
              obtain ⟨a', ha', hsoft'⟩ := hbreak
              rw [hno a' ha'] at hsoft'
              cases hsoft'
            have hshort := hheld ?_ u' v' hx hhard (htext ▸ hnone) hbreak
            · rw [← strip_lstrip, ← htext] at hshort
              omega
            · obtain ⟨c, d, hlast', hc, hd⟩ := hcut
              refine ⟨c, d, ?_, hc, hd⟩
              rw [← hw, List.getLast?_append, hlast', Option.some_or]
          · cases hsoft
    · have hno := h.plain.no_soft hsoft hlength
      obtain ⟨u, a, v, rfl, rfl, ha⟩ := h.plain.length_cut_space hroom hlength
      exact ⟨h.plain.cut_behind halnum (halnum.space _ ha),
        hrest fun a ha => hno a (List.mem_of_mem_drop ha)⟩

/-- What an addition to a pending text of the reply emits and leaves. -/
theorem Latin.add {s : Stream Mark} {chunk : List Mark} (h : Latin b reply) (halnum : Alnum isalnum)
    (hroom : 2 * b.min_chars ≤ b.target_chars + 1) (hx : s.buf ++ chunk <:+: marked reply)
    (hheld : Held b isalnum (s.buf ++ chunk)) :
    (∀ piece ∈ (b.add Prod.fst isalnum s.buf chunk).1, ¬ CutsWord isalnum piece) ∧
      (b.add Prod.fst isalnum s.buf chunk).2 <:+ s.buf ++ chunk := by
  rw [LowLatencyTTSBuffer.add]
  split
  · next hempty =>
    refine ⟨fun piece hpiece => ?_, [], ?_⟩
    · cases hpiece
    · rw [hempty, List.append_nil, List.nil_append]
  · have hstart : Tail b (s.buf ++ chunk) (lstrip Prod.fst (s.buf ++ chunk)) :=
      ⟨h.plain ((lstrip_suffix _ _).isInfix.trans hx), [], _, rfl, rfl, .inl (.inl rfl)⟩
    obtain ⟨hpieces, htail, -⟩ := emit_ready_rule b isalnum
      (Q := fun piece => ¬ CutsWord isalnum piece)
      (fun text n ht htrimmed hn => ht.cut halnum hheld hroom htrimmed hn) hstart
    exact ⟨hpieces, htail.suffix⟩

theorem Latin.adds {chunks : List (List Mark)} {s : Stream Mark} (h : Latin b reply)
    (halnum : Alnum isalnum) (hroom : 2 * b.min_chars ≤ b.target_chars + 1)
    (hrun : Run (restrict (fun s chunk => Held b isalnum (s.buf ++ chunk)) (Adds Prod.fst b isalnum))
      .new chunks s) (hmarks : chunks.flatten <+: marked reply) :
    (∀ piece ∈ s.pieces, ¬ CutsWord isalnum piece) ∧ s.buf <:+ chunks.flatten := by
  induction hrun with
  | nil => exact ⟨nofun, List.nil_suffix⟩
  | @snoc chunks s t chunk hrun hstep ih =>
    obtain ⟨hheld, rfl⟩ := hstep
    rw [List.flatten_concat] at hmarks ⊢
    obtain ⟨hpieces, hbuf⟩ := ih ((List.prefix_append _ _).trans hmarks)
    have hpending : s.buf ++ chunk <:+ chunks.flatten ++ chunk := by
      obtain ⟨w, hw⟩ := hbuf
      exact ⟨w, by rw [← List.append_assoc, hw]⟩
    obtain ⟨hnew, hrest⟩ := h.add halnum hroom (hpending.isInfix.trans hmarks.isInfix) hheld
    refine ⟨fun piece hpiece => ?_, hrest.trans hpending⟩
    rcases List.mem_append.1 hpiece with hpiece | hpiece
    · exact hpieces piece hpiece
    · exact hnew piece hpiece

/-- The text without its marks goes through the buffer in the same way. -/
theorem fed_map (b : LowLatencyTTSBuffer) (isalnum : Char → Bool) (chunks : List (List Mark)) :
    b.fed id isalnum (chunks.map (List.map Prod.fst)) =
      ⟨(b.fed Prod.fst isalnum chunks).pieces.map (List.map Prod.fst),
        (b.fed Prod.fst isalnum chunks).buf.map Prod.fst⟩ := by
  have hmap : ∀ (final : Bool) (buf : List Mark), b.emit_ready id isalnum final (buf.map Prod.fst) =
      ((b.emit_ready Prod.fst isalnum final buf).1.map (List.map Prod.fst),
        (b.emit_ready Prod.fst isalnum final buf).2.map Prod.fst) :=
    fun _ buf => emit_ready_map (fun _ => rfl) buf
  induction chunks using List.reverseRecOn with
  | nil => rfl
  | append_singleton chunks chunk ih =>
    rw [List.map_append, List.map_singleton, fed_concat, fed_concat, ih]
    simp only [Stream.add, LowLatencyTTSBuffer.add, List.map_eq_nil_iff, ← List.map_append, hmap]
    split
    · simp
    · simp

/-- In every run in which no pending text that ends inside a word is taken whole, no piece of a Latin
    reply ends inside a word, if the limits leave room for a whitespace. -/
theorem words_whole {b : LowLatencyTTSBuffer} {isalnum : Char → Bool} {reply : List Char}
    {chunks : List (List Mark)} {s : Stream Mark} (halnum : Alnum isalnum) (hlatin : Latin b reply)
    (hroom : 2 * b.min_chars ≤ b.target_chars + 1) (hmarks : chunks.flatten = marked reply)
    (hrun : Run (restrict (fun s chunk => Held b isalnum (s.buf ++ chunk)) (Adds Prod.fst b isalnum))
      .new chunks s) :
    (∀ piece ∈ (s.flush Prod.fst b isalnum).pieces, ¬ CutsWord isalnum piece) ∧
      (s.flush Prod.fst b isalnum).pieces.map (List.map Prod.fst) =
        ((b.fed id isalnum (chunks.map (List.map Prod.fst))).flush id b isalnum).pieces := by
  obtain ⟨hpieces, hbuf⟩ := hlatin.adds halnum hroom hrun (hmarks ▸ List.prefix_rfl)
  obtain rfl := run_fed (hrun.mono fun hstep => hstep.2)
  refine ⟨fun piece hpiece => ?_, ?_⟩
  · rw [Stream.flush, flush_eq] at hpiece
    rcases List.mem_append.1 hpiece with hpiece | hpiece
    · exact hpieces piece hpiece
    · split at hpiece
      · obtain rfl := List.mem_singleton.1 hpiece
        rw [hmarks] at hbuf
        intro hcuts
        obtain ⟨c, d, hlast, -⟩ := hcuts.of_strip ((marked_linked reply).part hbuf.isInfix) halnum.space
        -- behind the end of the reply there is nothing
        have hnone := marked_last reply (c, some d) (by
          obtain ⟨w, hw⟩ := hbuf
          rw [← hw, List.getLast?_append, hlast, Option.some_or]
          exact rfl)
        cases hnone
      · cases hpiece
  · rw [Stream.flush, Stream.flush, fed_map, flush, flush, List.map_append,
      emit_ready_map (f := Prod.fst) fun a : Mark => rfl]
    rfl

end

/-! ### Two replies -/

theorem ascii_alnum : Alnum Char.isAlphanum := by
  refine ⟨fun c hc => ?_, none_of_any (by decide), none_of_any (by decide)⟩
  simp only [PyText.is_space, Bool.or_eq_true, Bool.and_eq_true, decide_eq_true_eq, beq_iff_eq,
    Char.toNat] at hc
  unfold Char.isAlphanum Char.isAlpha Char.isUpper Char.isLower Char.isDigit
  simp only [Bool.or_eq_false_iff, Bool.and_eq_false_iff, decide_eq_false_iff_not, UInt32.le_iff_toNat_le,
    ge_iff_le]
  have hupper : 'A'.val.toNat = 65 ∧ 'Z'.val.toNat = 90 := ⟨rfl, rfl⟩
  have hlower : 'a'.val.toNat = 97 ∧ 'z'.val.toNat = 122 := ⟨rfl, rfl⟩
  have hdigit : '0'.val.toNat = 48 ∧ '9'.val.toNat = 57 := ⟨rfl, rfl⟩
  omega

/-- A short pending text is held. -/
theorem held_of_short {b : LowLatencyTTSBuffer} {isalnum : Char → Bool} {x : List Mark}
    (h : x.length < b.target_chars) : Held b isalnum x := by
  rintro - u v rfl - - -
  have hle := strip_length_le Prod.fst v
  rw [List.length_append] at h
  omega

/-- Where every window of `min_chars` characters has whitespace, no run is longer. -/
theorem runs_of_windows {b : LowLatencyTTSBuffer} {reply : List Char}
    (h : ∀ i ≤ reply.length, i + b.min_chars ≤ reply.length →
      ((reply.drop i).take b.min_chars).any PyText.is_space = true) (u w v : List Char)
    (hreply : reply = u ++ w ++ v) (hw : ∀ c ∈ w, PyText.is_space c = false) :
    w.length < b.min_chars := by
  by_contra hlong
  have hlen := congrArg List.length hreply
  rw [List.length_append, List.length_append] at hlen
  have hany := h u.length (by omega) (by omega)
  have hwindow : (reply.drop u.length).take b.min_chars = w.take b.min_chars := by
    rw [hreply, List.append_assoc, List.drop_left, List.take_append_of_le_length (by omega)]
  rw [hwindow, List.any_eq_true] at hany
  obtain ⟨c, hc, hspace⟩ := hany
  rw [hw c (List.mem_of_mem_take hc)] at hspace
  cases hspace

def greeting : List Char := "Well, ok! And you?".toList

theorem greeting_latin : Latin english greeting :=
  ⟨by decide +kernel, none_of_any (by decide), runs_of_windows (by decide)⟩

/-- The first of two chunks ends inside a word. -/
def greeted : Stream Mark :=
  (Stream.new.add Prod.fst english Char.isAlphanum ((marked greeting).take 12)).add Prod.fst english
    Char.isAlphanum ((marked greeting).drop 12)

theorem words_whole_greeting : (greeted.flush Prod.fst english Char.isAlphanum).pieces.length = 2 ∧
    ∀ piece ∈ (greeted.flush Prod.fst english Char.isAlphanum).pieces,
      ¬ CutsWord Char.isAlphanum piece :=
  ⟨by decide +kernel, (words_whole ascii_alnum greeting_latin (by decide) (by decide)
    (.snoc (.snoc .nil ⟨held_of_short (by decide), rfl⟩)
      ⟨held_of_short (by decide +kernel), rfl⟩)).1⟩

/-- A reply of which the first chunk ends inside its last word. -/
def long_reply : List Char := "Well, this is one of those answers that go on and onwards.".toList

theorem long_reply_latin : Latin english long_reply :=
  ⟨by decide +kernel, none_of_any (by decide), runs_of_windows (by decide +kernel)⟩

/-- The pending text has a soft break near its start and 48 characters, so all of it is taken. -/
theorem word_cut : ¬ ∀ (b : LowLatencyTTSBuffer) (isalnum : Char → Bool) (reply : List Char)
    (chunks : List (List Mark)) (s : Stream Mark), Alnum isalnum → Latin b reply →
      chunks.flatten = marked reply → Run (Adds Prod.fst b isalnum) .new chunks s →
        ∀ piece ∈ (s.flush Prod.fst b isalnum).pieces, ¬ CutsWord isalnum piece := by
  intro h
  have hpieces := h english Char.isAlphanum long_reply
    [(marked long_reply).take 53, (marked long_reply).drop 53] _ ascii_alnum long_reply_latin
    (by decide +kernel) (.snoc (.snoc .nil rfl) rfl)
  have hcut : (((Stream.new.add Prod.fst english Char.isAlphanum ((marked long_reply).take 53)).add
      Prod.fst english Char.isAlphanum ((marked long_reply).drop 53)).flush Prod.fst english
        Char.isAlphanum).pieces.any (fun piece => piece.getLast? == some ('w', some 'a')) = true := by
    decide +kernel
  obtain ⟨piece, hpiece, hlast⟩ := List.any_eq_true.1 hcut
  exact hpieces piece hpiece ⟨'w', 'a', beq_iff_eq.1 hlast, rfl, rfl⟩

end LowLatencyTTSBuffer
end LocalVoice.V2V
