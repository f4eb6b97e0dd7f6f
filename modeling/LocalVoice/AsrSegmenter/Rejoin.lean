import LocalVoice.AsrSegmenter.Decode

/-! What `join_segment_texts` keeps of the segment texts. It takes every segment's text for the
    continuation of a slice that overlaps it, and drops a head that repeats the end of the text so
    far; for segments that share no audio such a head was said twice. `rejoin_keeps_iff` says when
    nothing is lost.

        "好" , "好的"   ──▶ "好的"      one 好 is gone -/

namespace LocalVoice.AsrSegmenter
open LocalVoice.Lib LocalVoice.Lib.PyText

/-- Some head of `cur` passes the stripper's test against the end of `prev`. -/
def Repeats (prev cur : List Char) : Prop :=
  ∃ n, 0 < n ∧ n ≤ min (min prev.length cur.length) max_overlap_dedup_chars ∧
    repeats prev cur n = true

/-- A segment's text put behind the text so far, with a space where one is needed. -/
def append_plain (out raw : List Char) : List Char :=
  match strip_chars raw, out.getLast? with
  | [], _ => out
  | piece, none => piece
  | right :: rest, some left =>
    if is_space left || is_space right || (is_cjk left && is_cjk right) then out ++ right :: rest
    else out ++ ' ' :: right :: rest

/-- The segments' texts one behind the other, nothing dropped. -/
def plain_text (texts : List (List Char)) : List Char := texts.foldl append_plain []

/-- No segment's text begins with a repeat of the end of the texts before it. -/
def NoRepeat (texts : List (List Char)) : Prop :=
  ∀ pre raw post, texts = pre ++ raw :: post → ¬ Repeats (plain_text pre) (strip_chars raw)

/-! ### One boundary -/

theorem strip_from_self {prev cur : List Char} : ∀ {n : ℕ},
    (∀ m, 0 < m → m ≤ n → repeats prev cur m = false) → strip_from prev cur n = cur
  | 0, _ => rfl
  | n + 1, h => by
      rw [strip_from, h (n + 1) (by omega) le_rfl]
      exact strip_from_self fun m hm hn => h m hm (by omega)

theorem strip_from_drop {prev cur : List Char} : ∀ {n m : ℕ}, 0 < m → m ≤ n →
    repeats prev cur m = true → ∃ k, 0 < k ∧ strip_from prev cur n = lstrip (cur.drop k)
  | 0, m, hm, hn, _ => by omega
  | n + 1, m, hm, hn, h => by
      rw [strip_from]
      split
      · exact ⟨n + 1, by omega, rfl⟩
      · rename_i hnot
        rcases Nat.lt_succ_iff_lt_or_eq.1 (Nat.lt_succ_of_le hn) with hlt | rfl
        · exact strip_from_drop hm (by omega) h
        · exact absurd h hnot

/-- Without a repeat the stripper returns the text as it is. -/
theorem strip_of_not_repeats {prev cur : List Char} (h : ¬ Repeats prev cur) :
    strip_overlap_repeat prev cur = cur := by
  refine strip_from_self fun m hm hn => ?_
  cases hr : repeats prev cur m with
  | false => rfl
  | true => exact absurd ⟨m, hm, hn, hr⟩ h

/-- With one it drops a head. -/
theorem strip_of_repeats {prev cur : List Char} (h : Repeats prev cur) :
    ∃ k, 0 < k ∧ strip_overlap_repeat prev cur = lstrip (cur.drop k) := by
  obtain ⟨m, hm, hn, hr⟩ := h
  exact strip_from_drop hm hn hr

theorem nospace_strip_le (prev cur : List Char) :
    (nospace (strip_overlap_repeat prev cur)).length ≤ (nospace cur).length := by
  by_cases h : Repeats prev cur
  · obtain ⟨k, -, hk⟩ := strip_of_repeats h
    rw [hk, nospace_lstrip]
    exact ((List.drop_sublist k cur).filter _).length_le
  · rw [strip_of_not_repeats h]

/-- A dropped head takes the first character of the text, which is no whitespace. -/
theorem nospace_strip_lt {prev cur raw : List Char} (hcur : cur = strip_chars raw)
    (h : Repeats prev cur) :
    (nospace (strip_overlap_repeat prev cur)).length < (nospace cur).length := by
  obtain ⟨k, hk0, hk⟩ := strip_of_repeats h
  obtain ⟨m, hm0, hm, -⟩ := h
  cases cur with
  | nil => simp at hm; omega
  | cons c rest =>
    obtain ⟨k, rfl⟩ := Nat.exists_eq_add_one.2 hk0
    have hc : is_space c = false := head_strip_chars hcur.symm
    have hle := ((List.drop_sublist k rest).filter fun c => !is_space c).length_le
    rw [hk, nospace_lstrip, List.drop_succ_cons, nospace_cons, hc]
    exact Nat.lt_succ_of_le hle

/-- What one segment's text adds to the text so far. -/
theorem nospace_join_one (out raw : List Char) :
    nospace (join_one out raw) = nospace out ++ nospace (if out = [] then strip_chars raw
      else strip_overlap_repeat out (strip_chars raw)) := by
  unfold join_one
  dsimp only
  split
  · rename_i hnil
    have hstrip : strip_overlap_repeat out [] = [] := by
      simp [strip_overlap_repeat, strip_from]
    rw [hnil, hstrip]
    split <;> simp
  split
  · rename_i hout
    simp [hout]
  · rename_i hout
    split
    · rename_i right rest left hstrip hlast
      rw [hstrip]
      have hspace : nospace [' '] = [] := by decide
      split
      · simp
      · have hcons : ∀ l, nospace (' ' :: l) = nospace l := fun l => by
          rw [← List.singleton_append, nospace_append, hspace, List.nil_append]
        simp [hcons]
    · rename_i hno
      cases hstrip : strip_overlap_repeat out (strip_chars raw) with
      | nil => simp
      | cons right rest =>
        cases hlast : out.getLast? with
        | none => exact absurd (List.getLast?_eq_none_iff.1 hlast) hout
        | some left => exact (hno right rest left hstrip hlast).elim

/-- Without a repeat a segment's text is put behind the text so far. -/
theorem join_one_plain {out raw : List Char} (h : ¬ Repeats out (strip_chars raw)) :
    join_one out raw = append_plain out raw := by
  unfold join_one append_plain
  dsimp only
  rw [strip_of_not_repeats h]
  cases strip_chars raw with
  | nil => simp
  | cons right rest =>
    cases hlast : out.getLast? with
    | none => simp [List.getLast?_eq_none_iff.1 hlast]
    | some left =>
      have hout : out ≠ [] := by
        rintro rfl
        simp at hlast
      simp [hout]

/-! ### All boundaries -/

theorem no_repeat_concat {texts : List (List Char)} {raw : List Char} :
    NoRepeat (texts ++ [raw]) ↔
      NoRepeat texts ∧ ¬ Repeats (plain_text texts) (strip_chars raw) := by
  constructor
  · intro h
    refine ⟨fun pre r post heq => h pre r (post ++ [raw]) ?_, h texts raw [] rfl⟩
    rw [heq, List.append_assoc, List.cons_append]
  · rintro ⟨h, hlast⟩ pre r post heq
    rcases List.eq_nil_or_concat post with rfl | ⟨post, r', rfl⟩
    · obtain ⟨rfl, hr⟩ := List.append_inj' heq rfl
      obtain rfl : raw = r := by simpa using hr
      exact hlast
    · rw [List.concat_eq_append, ← List.cons_append, ← List.append_assoc] at heq
      exact h pre r post (List.append_inj' heq rfl).1

/-- What the join of the texts seen so far is worth. -/
structure Joined (texts : List (List Char)) (out : List Char) : Prop where
  bounded : (nospace out).length ≤ (texts.flatMap nospace).length
  plain : NoRepeat texts → out = plain_text texts
  kept : nospace out = texts.flatMap nospace ↔ NoRepeat texts

theorem Joined.step {texts : List (List Char)} {out raw : List Char} (h : Joined texts out) :
    Joined (texts ++ [raw]) (join_one out raw) := by
  set new := if out = [] then strip_chars raw else strip_overlap_repeat out (strip_chars raw)
    with hnew
  have hjoin : nospace (join_one out raw) = nospace out ++ nospace new := nospace_join_one out raw
  have hall : (texts ++ [raw]).flatMap nospace = texts.flatMap nospace ++ nospace raw := by simp
  have hraw : nospace (strip_chars raw) = nospace raw := nospace_strip_chars raw
  have hle : (nospace new).length ≤ (nospace raw).length := by
    rw [hnew, ← hraw]
    split
    · exact le_rfl
    · exact nospace_strip_le out _
  have hbounded := h.bounded
  refine ⟨?bounded, ?plain, ?kept⟩
  case bounded =>
    rw [hjoin, hall, List.length_append, List.length_append]
    omega
  case plain =>
    intro hno
    obtain ⟨hseen, hlast⟩ := no_repeat_concat.1 hno
    rw [← h.plain hseen] at hlast
    rw [join_one_plain hlast, h.plain hseen, plain_text, plain_text, List.foldl_append,
      List.foldl_cons, List.foldl_nil]
  case kept =>
    rw [hjoin, hall, no_repeat_concat]
    constructor
    · intro heq
      -- neither part is longer than its texts, so both have their length
      have hlen := congrArg List.length heq
      rw [List.length_append, List.length_append] at hlen
      obtain ⟨hseen, hpiece⟩ := List.append_inj heq (by omega)
      have hno := h.kept.1 hseen
      refine ⟨hno, fun hrep => ?_⟩
      rw [← h.plain hno] at hrep
      have hout : out ≠ [] := by
        rintro rfl
        obtain ⟨m, hm0, hm, -⟩ := hrep
        simp at hm
        omega
      have hlt := nospace_strip_lt rfl hrep
      rw [hnew, if_neg hout] at hpiece
      rw [hraw, hpiece] at hlt
      exact lt_irrefl _ hlt
    · rintro ⟨hno, hlast⟩
      rw [← h.plain hno] at hlast
      rw [h.kept.2 hno, hnew]
      split
      · rw [hraw]
      · rw [strip_of_not_repeats hlast, hraw]

theorem joined_fold (texts : List (List Char)) : Joined texts (texts.foldl join_one []) := by
  induction texts using List.reverseRecOn with
  | nil => exact ⟨le_rfl, fun _ => rfl, by simp [NoRepeat]⟩
  | append_singleton texts raw ih =>
    rw [List.foldl_append, List.foldl_cons, List.foldl_nil]
    exact ih.step

/-- For segments that share no audio, the joined text is the segments' texts one after the other,
    whitespace apart, exactly when no segment begins with what the text before it ends with. -/
theorem rejoin_keeps_iff (segments : List DecodedSegment)
    (_hapart : segments.Pairwise fun a b => a.stop ≤ b.start ∨ b.stop ≤ a.start) :
    nospace (join_segment_texts (segments.map (·.text))).toList =
        segments.flatMap (fun s => nospace s.text.toList) ↔
      NoRepeat (segments.map fun s => s.text.toList) := by
  have h := (joined_fold (segments.map fun s => s.text.toList)).kept
  rw [List.flatMap_map] at h
  rw [join_segment_texts, String.toList_ofList, List.map_map]
  exact h

/-- The repeats of one boundary are found by looking at each length. -/
instance (prev cur : List Char) : Decidable (Repeats prev cur) :=
  decidable_of_iff (∃ n < min (min prev.length cur.length) max_overlap_dedup_chars + 1,
    0 < n ∧ repeats prev cur n = true) (by
      simp only [Repeats, Nat.lt_succ_iff]
      exact exists_congr fun n => and_left_comm)

/-- Two segments of different text lose nothing. -/
theorem rejoin_keeps_two :
    let segments : List DecodedSegment := [⟨0, 0, 1, "one two", none⟩, ⟨1, 2, 3, "three", none⟩]
    nospace (join_segment_texts (segments.map (·.text))).toList =
      segments.flatMap fun s => nospace s.text.toList := by
  refine (rejoin_keeps_iff _ ?_).2 ?_
  · simp only [List.pairwise_cons]
    norm_num
  · have hnil : NoRepeat [] := by simp [NoRepeat]
    have hone : NoRepeat ([] ++ ["one two".toList]) := no_repeat_concat.2 ⟨hnil, by decide⟩
    exact no_repeat_concat.2 ⟨hone, by decide⟩

/-- Two segments apart, the second beginning with the first one's only character: it is said once
    in the joined text. -/
theorem rejoin_loses :
    ¬ ∀ segments : List DecodedSegment,
      segments.Pairwise (fun a b => a.stop ≤ b.start ∨ b.stop ≤ a.start) →
      nospace (join_segment_texts (segments.map (·.text))).toList =
        segments.flatMap fun s => nospace s.text.toList := by
  intro h
  have hjoin := h [⟨0, 0, 1, "好", none⟩, ⟨1, 2, 3, "好的", none⟩] (by
    simp only [List.pairwise_cons]
    norm_num)
  revert hjoin
  decide

end LocalVoice.AsrSegmenter
