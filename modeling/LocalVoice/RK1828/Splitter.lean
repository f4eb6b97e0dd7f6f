import LocalVoice.Lib.Find

/-! `ToolCallSplitter` of `services/rk1828-llm/rk1828_llm_server.py`, against the split of the whole text at
    its sentinels. What a piece leaves open is in the buffer: the body of a call, or an end of the text
    that may become `<tool_call>`.

        out of call ── <tool_call> ──▶ in call ── </tool_call> ──▶ out of call -/

namespace LocalVoice.RK1828
open LocalVoice.Lib

def TOOL_OPEN : List Char := "<tool_call>".toList
def TOOL_CLOSE : List Char := "</tool_call>".toList

theorem tool_open_pos : 0 < TOOL_OPEN.length := by decide

theorem tool_close_pos : 0 < TOOL_CLOSE.length := by decide

/-- Behind an occurrence there is less of the text. -/
theorem drop_found {pat s : List Char} {i : ℕ} (hpos : 0 < pat.length) (h : find pat s = some i) :
    (s.drop (i + pat.length)).length < s.length := by
  have hle := (find_some h).1
  rw [List.length_drop]
  omega

/-! ### The code -/

/-- The loop of `_partial_tail`, from `k` down. -/
def partial_tail_from (text sentinel : List Char) : ℕ → ℕ
  | 0 => 0
  | k + 1 => if (sentinel.take (k + 1)).isSuffixOf text then k + 1 else partial_tail_from text sentinel k

/-- `_partial_tail`. -/
def partial_tail (text sentinel : List Char) : ℕ :=
  partial_tail_from text sentinel (min (sentinel.length - 1) text.length)

structure ToolCallSplitter where
  buf : List Char
  in_call : Bool
  bodies : List (List Char)
  truncated : Bool
  deriving DecidableEq

namespace ToolCallSplitter

def init : ToolCallSplitter := ⟨[], false, [], false⟩

/-- The loop of `feed`: what it puts out, and the splitter it leaves. -/
def drain (s : ToolCallSplitter) : List Char × ToolCallSplitter :=
  if s.in_call then
    match _h : find TOOL_CLOSE s.buf with
    | none => ([], s)
    | some i =>
      drain { s with
        bodies := s.bodies ++ [s.buf.take i]
        buf := s.buf.drop (i + TOOL_CLOSE.length)
        in_call := false }
  else
    match _h : find TOOL_OPEN s.buf with
    | some i =>
      let more := drain { s with buf := s.buf.drop (i + TOOL_OPEN.length), in_call := true }
      (s.buf.take i ++ more.1, more.2)
    | none =>
      let hold := partial_tail s.buf TOOL_OPEN
      if hold ≠ 0 then
        (s.buf.take (s.buf.length - hold), { s with buf := s.buf.drop (s.buf.length - hold) })
      else (s.buf, { s with buf := [] })
termination_by s.buf.length
decreasing_by
  · exact drop_found tool_close_pos _h
  · exact drop_found tool_open_pos _h

def feed (s : ToolCallSplitter) (piece : List Char) : List Char × ToolCallSplitter :=
  drain { s with buf := s.buf ++ piece }

def flush (s : ToolCallSplitter) : List Char × ToolCallSplitter :=
  if s.in_call then ([], { s with buf := [], truncated := true }) else (s.buf, { s with buf := [] })

/-- The pieces, one after the other, with what each `feed` gives. -/
def feeds (s : ToolCallSplitter) : List (List Char) → List (List Char) × ToolCallSplitter
  | [] => ([], s)
  | piece :: pieces =>
    let fed := s.feed piece
    let more := feeds fed.2 pieces
    (fed.1 :: more.1, more.2)

end ToolCallSplitter

/-! ### The split of a whole text -/

/-- What a text comes to: its content, the bodies of its calls, and whether a call has no end. -/
structure Split where
  content : List Char
  bodies : List (List Char)
  truncated : Bool
  deriving DecidableEq

/-- The text in front and the bodies in front of what a text comes to. -/
def Split.behind (content : List Char) (bodies : List (List Char)) (r : Split) : Split :=
  ⟨content ++ r.content, bodies ++ r.bodies, r.truncated⟩

/-- The split of a text at its sentinels, within a call or out of one. -/
def split_text (in_call : Bool) (text : List Char) : Split :=
  if in_call then
    match _h : find TOOL_CLOSE text with
    | none => ⟨[], [], true⟩
    | some i => (split_text false (text.drop (i + TOOL_CLOSE.length))).behind [] [text.take i]
  else
    match _h : find TOOL_OPEN text with
    | none => ⟨text, [], false⟩
    | some i => (split_text true (text.drop (i + TOOL_OPEN.length))).behind (text.take i) []
termination_by text.length
decreasing_by
  · exact drop_found tool_close_pos _h
  · exact drop_found tool_open_pos _h

section
variable {text : List Char} {i : ℕ}

theorem split_open_none (h : find TOOL_OPEN text = none) : split_text false text = ⟨text, [], false⟩ := by
  rw [split_text, if_neg Bool.false_ne_true]
  split
  · rfl
  · next h' => rw [h] at h'; cases h'

theorem split_open (h : find TOOL_OPEN text = some i) : split_text false text =
    (split_text true (text.drop (i + TOOL_OPEN.length))).behind (text.take i) [] := by
  rw [split_text, if_neg Bool.false_ne_true]
  split
  · next h' => rw [h] at h'; cases h'
  · next j h' =>
    obtain rfl := Option.some.inj (h.symm.trans h')
    rfl

theorem split_close_none (h : find TOOL_CLOSE text = none) : split_text true text = ⟨[], [], true⟩ := by
  rw [split_text, if_pos rfl]
  split
  · rfl
  · next h' => rw [h] at h'; cases h'

theorem split_close (h : find TOOL_CLOSE text = some i) : split_text true text =
    (split_text false (text.drop (i + TOOL_CLOSE.length))).behind [] [text.take i] := by
  rw [split_text, if_pos rfl]
  split
  · next h' => rw [h] at h'; cases h'
  · next j h' =>
    obtain rfl := Option.some.inj (h.symm.trans h')
    rfl

/-- What stands behind an occurrence, and what comes behind the text. -/
theorem drop_found_append {pat : List Char} (h : find pat text = some i) (later : List Char) :
    (text ++ later).take i = text.take i ∧
      (text ++ later).drop (i + pat.length) = text.drop (i + pat.length) ++ later := by
  have hle := (find_some h).1
  exact ⟨List.take_append_of_le_length (by omega), List.drop_append_of_le_length hle⟩

/-- A front in which no sentinel begins is content. -/
theorem split_front {front rest : List Char}
    (h : find TOOL_OPEN (front ++ rest) = (find TOOL_OPEN rest).map (· + front.length)) :
    split_text false (front ++ rest) = (split_text false rest).behind front [] := by
  cases hrest : find TOOL_OPEN rest with
  | none =>
    rw [hrest] at h
    rw [split_open_none h, split_open_none hrest]
    rfl
  | some i =>
    rw [hrest, Option.map_some, Nat.add_comm i] at h
    rw [split_open h, split_open hrest, Nat.add_assoc, List.drop_length_add_append,
      List.take_length_add_append]
    simp [Split.behind]

/-- An end that is held back: the text before it is content, whatever comes. -/
theorem split_held {k : ℕ} (h : find TOOL_OPEN text = none) (hheld : HeldBack TOOL_OPEN text k)
    (later : List Char) : split_text false (text ++ later) =
      (split_text false (text.drop (text.length - k) ++ later)).behind (text.take (text.length - k)) [] := by
  have hfind := find_held h hheld later
  have hlen : (text.take (text.length - k)).length = text.length - k :=
    List.length_take_of_le (Nat.sub_le ..)
  have hsplit : text ++ later =
      text.take (text.length - k) ++ (text.drop (text.length - k) ++ later) := by
    rw [← List.append_assoc, List.take_append_drop]
  rw [hsplit] at hfind ⊢
  exact split_front (by rw [hfind, hlen])

end

/-! ### What a feed leaves -/

theorem partial_tail_held (text : List Char) : HeldBack TOOL_OPEN text (partial_tail text TOOL_OPEN) := by
  have hloop : ∀ n, n ≤ text.length → n < TOOL_OPEN.length →
      (∀ m, n < m → m < TOOL_OPEN.length → ¬ TOOL_OPEN.take m <:+ text) →
      HeldBack TOOL_OPEN text (partial_tail_from text TOOL_OPEN n) := by
    intro n
    induction n with
    | zero =>
      intro _ hlt hlonger
      exact ⟨Nat.zero_le _, hlt, by simp [partial_tail_from], hlonger⟩
    | succ n ih =>
      intro hle hlt hlonger
      rw [partial_tail_from]
      split
      · next hsuffix =>
        have hend := List.suffix_iff_eq_drop.1 (List.isSuffixOf_iff_suffix.1 hsuffix)
        rw [List.length_take_of_le (Nat.le_of_lt hlt)] at hend
        exact ⟨hle, hlt, hend.symm, hlonger⟩
      · next hsuffix =>
        refine ih (Nat.le_of_succ_le hle) (Nat.lt_of_succ_lt hlt) fun m hm hmlt => ?_
        rcases Nat.lt_or_eq_of_le hm with hm | rfl
        · exact hlonger m hm hmlt
        · exact mt List.isSuffixOf_iff_suffix.2 hsuffix
  have hpos := tool_open_pos
  refine hloop _ (Nat.min_le_right ..) (by omega) fun m hm hmlt hsuffix => ?_
  have hle := hsuffix.length_le
  rw [List.length_take_of_le (Nat.le_of_lt hmlt)] at hle
  omega

namespace ToolCallSplitter

/-- Between two pieces no sentinel is in the buffer: it is a call without an end so far, or it may become
    an opening sentinel. -/
def Settled (s : ToolCallSplitter) : Prop :=
  if s.in_call then find TOOL_CLOSE s.buf = none
  else ∃ k, k < TOOL_OPEN.length ∧ s.buf = TOOL_OPEN.take k

/-- What the splitter makes of the text that comes. -/
def split (s : ToolCallSplitter) (later : List Char) : Split := split_text s.in_call (s.buf ++ later)

/-- The splitter goes on from `s` to `s'`: what it puts out and its new bodies come before the rest. -/
structure Goes (s : ToolCallSplitter) (out : List Char) (s' : ToolCallSplitter) : Prop where
  settled : s'.Settled
  truncated : s'.truncated = s.truncated
  splits : ∃ new, s'.bodies = s.bodies ++ new ∧ ∀ later, s.split later = (s'.split later).behind out new

theorem drain_goes (s : ToolCallSplitter) : s.Goes s.drain.1 s.drain.2 := by
  fun_induction drain s with
  | case1 s hcall h =>
    refine ⟨by rwa [Settled, if_pos hcall], rfl, [], (List.append_nil _).symm, fun later => rfl⟩
  | case2 s hcall i h ih =>
    obtain ⟨new, hnew, hsplit⟩ := ih.splits
    refine ⟨ih.settled, ih.truncated, s.buf.take i :: new,
      hnew.trans (List.append_cons ..).symm, fun later => ?_⟩
    obtain ⟨htake, hdrop⟩ := drop_found_append h later
    have hrest := hsplit later
    rw [split, hcall, split_close (find_append h later), htake, hdrop]
    rw [split] at hrest
    rw [hrest]
    rfl
  | case3 s hcall i h more ih =>
    obtain ⟨new, hnew, hsplit⟩ := ih.splits
    refine ⟨ih.settled, ih.truncated, new, hnew, fun later => ?_⟩
    obtain ⟨htake, hdrop⟩ := drop_found_append h later
    have hrest := hsplit later
    rw [split, Bool.eq_false_iff.2 hcall, split_open (find_append h later), htake, hdrop]
    rw [split] at hrest
    rw [hrest]
    simp [Split.behind, more]
  | case4 s hcall h hold hne =>
    have hheld := partial_tail_held s.buf
    refine ⟨?_, rfl, [], (List.append_nil _).symm, fun later => ?_⟩
    · rw [Settled, if_neg hcall]
      exact ⟨hold, hheld.proper, hheld.eq⟩
    · rw [split, Bool.eq_false_iff.2 hcall, split_held h hheld later]
      rfl
  | case5 s hcall h hold hzero =>
    have hheld := partial_tail_held s.buf
    rw [show partial_tail s.buf TOOL_OPEN = 0 from not_not.1 hzero] at hheld
    refine ⟨?_, rfl, [], (List.append_nil _).symm, fun later => ?_⟩
    · rw [Settled, if_neg hcall]
      exact ⟨0, tool_open_pos, rfl⟩
    · rw [split, Bool.eq_false_iff.2 hcall, split_held h hheld later]
      simp [split]

theorem feed_goes (s : ToolCallSplitter) (piece : List Char) :
    (s.feed piece).2.Settled ∧ (s.feed piece).2.truncated = s.truncated ∧
      ∃ new, (s.feed piece).2.bodies = s.bodies ++ new ∧
        ∀ later, s.split (piece ++ later) = ((s.feed piece).2.split later).behind (s.feed piece).1 new := by
  obtain ⟨hsettled, htruncated, new, hnew, hsplit⟩ := drain_goes { s with buf := s.buf ++ piece }
  refine ⟨hsettled, htruncated, new, hnew, fun later => ?_⟩
  rw [feed, ← hsplit later, split, split, List.append_assoc]

/-- All the pieces: what they give is content of their text, whatever comes behind. -/
theorem feeds_goes (s : ToolCallSplitter) (hs : s.Settled) (pieces : List (List Char)) :
    (s.feeds pieces).2.Settled ∧ (s.feeds pieces).2.truncated = s.truncated ∧
      ∃ new, (s.feeds pieces).2.bodies = s.bodies ++ new ∧ ∀ later, s.split (pieces.flatten ++ later) =
        ((s.feeds pieces).2.split later).behind (s.feeds pieces).1.flatten new := by
  induction pieces generalizing s with
  | nil => exact ⟨hs, rfl, [], (List.append_nil _).symm, fun later => rfl⟩
  | cons piece pieces ih =>
    obtain ⟨hsettled, htruncated, first, hfirst, hsplit⟩ := s.feed_goes piece
    obtain ⟨hsettled', htruncated', new, hnew, hsplit'⟩ := ih _ hsettled
    refine ⟨hsettled', htruncated'.trans htruncated, first ++ new, ?_, fun later => ?_⟩
    · rw [feeds, hnew, hfirst, List.append_assoc]
    · rw [List.flatten_cons, List.append_assoc, hsplit, hsplit', feeds]
      simp [Split.behind]

/-- A flush gives the content that is left. -/
theorem flush_split (s : ToolCallSplitter) (hs : s.Settled) (htruncated : s.truncated = false) :
    s.split [] = ⟨s.flush.1, [], s.flush.2.truncated⟩ ∧ s.flush.2.bodies = s.bodies := by
  unfold Settled at hs
  unfold split flush
  rw [List.append_nil]
  split at hs
  · next hcall =>
    rw [hcall, if_pos rfl]
    exact ⟨split_close_none hs, rfl⟩
  · next hcall =>
    obtain ⟨k, hk, hbuf⟩ := hs
    rw [Bool.eq_false_iff.2 hcall, if_neg Bool.false_ne_true, htruncated]
    exact ⟨split_open_none (hbuf ▸ find_held_none hk), rfl⟩

/-- Something may come behind the pieces that makes none of what is held back content. -/
theorem settled_held (s : ToolCallSplitter) (hs : s.Settled) : ∃ later, (s.split later).content = [] := by
  unfold Settled at hs
  split at hs
  · next hcall =>
    exact ⟨[], by rw [split, hcall, List.append_nil, split_close_none hs]⟩
  · next hcall =>
    obtain ⟨k, hk, hbuf⟩ := hs
    refine ⟨TOOL_OPEN.drop k, ?_⟩
    have hnone : find TOOL_CLOSE [] = none := by decide
    rw [split, Bool.eq_false_iff.2 hcall, hbuf, List.take_append_drop,
      split_open (find_front (List.prefix_refl _)), Nat.zero_add, List.drop_length, split_close_none hnone]
    rfl

/-- The text of the pieces, and what comes behind. -/
theorem init_feeds (pieces : List (List Char)) (later : List Char) :
    split_text false (pieces.flatten ++ later) =
      ((init.feeds pieces).2.split later).behind (init.feeds pieces).1.flatten (init.feeds pieces).2.bodies := by
  obtain ⟨-, -, new, hnew, hsplit⟩ := init.feeds_goes ⟨0, tool_open_pos, rfl⟩ pieces
  rw [hnew]
  exact hsplit later

/-- The pieces and the flush give the split of the text. -/
theorem feeds_flush (pieces : List (List Char)) : split_text false pieces.flatten =
    ⟨(init.feeds pieces).1.flatten ++ (init.feeds pieces).2.flush.1, (init.feeds pieces).2.flush.2.bodies,
      (init.feeds pieces).2.flush.2.truncated⟩ := by
  obtain ⟨hsettled, htruncated, -⟩ := init.feeds_goes ⟨0, tool_open_pos, rfl⟩ pieces
  obtain ⟨hflush, hbodies⟩ := flush_split _ hsettled htruncated
  have hend := init_feeds pieces []
  rw [List.append_nil, hflush] at hend
  rw [hend, hbodies]
  simp [Split.behind]

end ToolCallSplitter

/-- However a text is cut, the splitter gives its split; what it has put out is content whatever comes,
    and all that is content whatever comes. -/
theorem splitter_any_cut (pieces : List (List Char)) :
    let fed := ToolCallSplitter.init.feeds pieces
    let last := fed.2.flush
    split_text false pieces.flatten = ⟨fed.1.flatten ++ last.1, last.2.bodies, last.2.truncated⟩ ∧
      (∀ later, fed.1.flatten <+: (split_text false (pieces.flatten ++ later)).content) ∧
      ∃ later, (split_text false (pieces.flatten ++ later)).content = fed.1.flatten := by
  refine ⟨ToolCallSplitter.feeds_flush pieces, fun later => ?_, ?_⟩
  · rw [ToolCallSplitter.init_feeds]
    exact List.prefix_append _ _
  · obtain ⟨hsettled, -⟩ := ToolCallSplitter.init.feeds_goes ⟨0, tool_open_pos, rfl⟩ pieces
    obtain ⟨later, hnone⟩ := ToolCallSplitter.settled_held _ hsettled
    refine ⟨later, ?_⟩
    rw [ToolCallSplitter.init_feeds, Split.behind, hnone, List.append_nil]

example : (ToolCallSplitter.init.feeds ["a<to".toList, "ol_call>x</tool".toList, "_call>b<".toList]).1 =
    ["a".toList, [], "b".toList] := by
  decide +kernel

end LocalVoice.RK1828
