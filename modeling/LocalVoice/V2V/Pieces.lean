import Mathlib.Data.List.DropRight
import LocalVoice.Lib.Run
import LocalVoice.V2V.Chunks

/-! A reply that goes through a `LowLatencyTTSBuffer`: chunks are added, and at the end the buffer is
    flushed. Whitespace apart, what came out and what is pending is what went in (`text_kept`). What
    is pending after a chunk is short, and has no complete sentence unless a break that closes only
    one character stands in front of another break (`pending_ready`). -/

namespace LocalVoice.V2V
open LocalVoice.Lib

namespace LowLatencyTTSBuffer

section
variable {α : Type*} (ch : α → Char) (b : LowLatencyTTSBuffer) (isalnum : Char → Bool)

/-! ### Replies -/

/-- What has come out of a buffer, and what is pending in it. -/
structure Stream (α : Type*) where
  pieces : List (List α)
  buf : List α

def Stream.new : Stream α := ⟨[], []⟩

/-- A chunk is added. -/
def Stream.add (s : Stream α) (chunk : List α) : Stream α :=
  ⟨s.pieces ++ (b.add ch isalnum s.buf chunk).1, (b.add ch isalnum s.buf chunk).2⟩

/-- The buffer is flushed. -/
def Stream.flush (s : Stream α) : Stream α :=
  ⟨s.pieces ++ (b.flush ch isalnum s.buf).1, (b.flush ch isalnum s.buf).2⟩

/-- A reply is added chunk by chunk. -/
def fed (chunks : List (List α)) : Stream α := chunks.foldl (Stream.add ch b isalnum) .new

/-- The `while` loop of `_emit_ready` ends, with these pieces. -/
inductive Emits (final : Bool) : List α → List (List α) → List α → Prop where
  | stop {buf rest : List α} (h : b.next_chunk ch isalnum final buf = (none, rest)) :
      Emits final buf [] rest
  | piece {buf rest last part : List α} {parts : List (List α)}
      (h : b.next_chunk ch isalnum final buf = (some part, rest))
      (hrest : Emits final rest parts last) : Emits final buf (part :: parts) last

/-- Where a text without leading space is cut. -/
def cut (text : List α) : Option ℕ :=
  (hard_cut ch text).or ((b.soft_cut ch text).or (b.length_cut ch text))

end

/-! ### Stripping -/

section
variable {α : Type*} {ch : α → Char} {text l sp : List α} {a : α}

theorem lstrip_split (ch : α → Char) (text : List α) :
    ∃ sp, text = sp ++ lstrip ch text ∧ ∀ a ∈ sp, PyText.is_space (ch a) = true :=
  ⟨_, List.takeWhile_append_dropWhile.symm, fun _ ha =>
    List.mem_takeWhile_imp (p := fun a => PyText.is_space (ch a)) ha⟩

theorem strip_split (ch : α → Char) (text : List α) : ∃ sp sp', text = sp ++ strip ch text ++ sp' ∧
    (∀ a ∈ sp, PyText.is_space (ch a) = true) ∧ ∀ a ∈ sp', PyText.is_space (ch a) = true := by
  obtain ⟨sp, htext, hsp⟩ := lstrip_split ch text
  obtain ⟨sp', hrest, hsp'⟩ := lstrip_split ch (lstrip ch text).reverse
  refine ⟨sp, sp'.reverse, ?_, hsp, fun a ha => hsp' a (List.mem_reverse.1 ha)⟩
  have hback : lstrip ch text = strip ch text ++ sp'.reverse := by
    rw [strip, ← List.reverse_append, ← hrest, List.reverse_reverse]
  rw [List.append_assoc, ← hback, ← htext]

theorem lstrip_space (h : ∀ a ∈ sp, PyText.is_space (ch a) = true) (text : List α) :
    lstrip ch (sp ++ text) = lstrip ch text := by
  rw [lstrip, List.dropWhile_append_of_pos h]
  rfl

theorem lstrip_lstrip (text : List α) : lstrip ch (lstrip ch text) = lstrip ch text :=
  List.dropWhile_idempotent _ _

theorem strip_space (h : ∀ a ∈ sp, PyText.is_space (ch a) = true) (text : List α) :
    strip ch (sp ++ text) = strip ch text := by
  rw [strip, lstrip_space h]
  rfl

theorem strip_lstrip (text : List α) : strip ch (lstrip ch text) = strip ch text := by
  rw [strip, lstrip_lstrip]
  rfl

/-- A text without leading space that is not empty. -/
structure Trimmed (ch : α → Char) (text : List α) : Prop where
  nonempty : text ≠ []
  lstrip : LowLatencyTTSBuffer.lstrip ch text = text

theorem trimmed_lstrip (h : lstrip ch text ≠ []) : Trimmed ch (lstrip ch text) :=
  ⟨h, lstrip_lstrip text⟩

theorem Trimmed.head (h : Trimmed ch (a :: l)) : PyText.is_space (ch a) = false := by
  cases ha : PyText.is_space (ch a) with
  | false => rfl
  | true =>
    have hlstrip := h.lstrip
    have hdrop : LowLatencyTTSBuffer.lstrip ch (a :: l) = LowLatencyTTSBuffer.lstrip ch l :=
      List.dropWhile_cons_of_pos ha
    rw [hdrop, LowLatencyTTSBuffer.lstrip] at hlstrip
    have hle := (List.dropWhile_suffix (l := l) fun a => PyText.is_space (ch a)).length_le
    rw [hlstrip, List.length_cons] at hle
    omega

/-- What begins with a visible character does not vanish when it is stripped. -/
theorem strip_ne_nil (h : PyText.is_space (ch a) = false) (l : List α) : strip ch (a :: l) ≠ [] := by
  obtain ⟨sp, sp', hsplit, hsp, hsp'⟩ := strip_split ch (a :: l)
  intro hnil
  rw [hnil, List.append_nil] at hsplit
  have hmem : a ∈ sp ++ sp' := hsplit ▸ List.mem_cons_self
  rcases List.mem_append.1 hmem with ha | ha
  · rw [hsp a ha] at h
    cases h
  · rw [hsp' a ha] at h
    cases h

theorem Trimmed.strip_take (h : Trimmed ch text) {n : ℕ} (hn : 0 < n) : strip ch (text.take n) ≠ [] := by
  obtain ⟨a, l, rfl⟩ := List.exists_cons_of_ne_nil h.nonempty
  obtain ⟨m, rfl⟩ := Nat.exists_eq_succ_of_ne_zero (Nat.pos_iff_ne_zero.1 hn)
  rw [List.take_succ_cons]
  exact strip_ne_nil h.head _

end

/-! ### The loop -/

section
variable {α : Type*} {ch : α → Char} {b : LowLatencyTTSBuffer} {isalnum : Char → Bool}
  {text buf rest part : List α} {n : ℕ}

theorem hard_cut_pos (h : hard_cut ch text = some n) : 0 < n := by
  obtain ⟨i, -, hi⟩ := Option.bind_eq_some_iff.1 h
  split at hi
  · obtain rfl := Option.some.inj hi
    exact Nat.succ_pos i
  · cases hi

theorem soft_cut_pos (htext : text ≠ []) (h : b.soft_cut ch text = some n) : 0 < n := by
  obtain ⟨i, -, hi⟩ := Option.bind_eq_some_iff.1 h
  split at hi
  · obtain rfl := Option.some.inj hi
    exact Nat.succ_pos i
  · split at hi
    · obtain rfl := Option.some.inj hi
      exact List.length_pos_iff.2 htext
    · cases hi

theorem length_cut_pos (h : b.length_cut ch text = some n) : 0 < n := by
  simp only [length_cut, Option.ite_none_left_eq_some] at h
  obtain ⟨-, hne, h⟩ := h
  obtain rfl := Option.some.inj h
  exact Nat.pos_of_ne_zero hne

theorem cut_pos (htext : text ≠ []) (h : b.cut ch text = some n) : 0 < n := by
  rcases Option.or_eq_some_iff.1 h with h | ⟨-, h⟩
  · exact hard_cut_pos h
  · rcases Option.or_eq_some_iff.1 h with h | ⟨-, h⟩
    · exact soft_cut_pos htext h
    · exact length_cut_pos h

/-- One round, before the end of the reply. -/
theorem next_chunk_cases (ch : α → Char) (b : LowLatencyTTSBuffer) (isalnum : Char → Bool) (buf : List α) :
    (b.next_chunk ch isalnum false buf = (none, lstrip ch buf) ∧
        (lstrip ch buf = [] ∨ b.cut ch (lstrip ch buf) = none)) ∨
      ∃ n, Trimmed ch (lstrip ch buf) ∧ b.cut ch (lstrip ch buf) = some n ∧
        b.next_chunk ch isalnum false buf = (some (strip ch ((lstrip ch buf).take n)),
          lstrip ch ((lstrip ch buf).drop n)) := by
  by_cases hempty : lstrip ch buf = []
  · refine .inl ⟨?_, .inl hempty⟩
    rw [next_chunk, chunk_of, if_pos hempty, hempty]
  · have htrimmed := trimmed_lstrip hempty
    cases hcut : b.cut ch (lstrip ch buf) with
    | none =>
      refine .inl ⟨?_, .inr rfl⟩
      rw [cut] at hcut
      rw [next_chunk, chunk_of, if_neg hempty, if_neg Bool.false_ne_true, hcut]
    | some n =>
      have hstrip := htrimmed.strip_take (cut_pos hempty hcut)
      refine .inr ⟨n, htrimmed, rfl, ?_⟩
      rw [cut] at hcut
      rw [next_chunk, chunk_of, if_neg hempty, if_neg Bool.false_ne_true, hcut]
      show take ch (lstrip ch buf) n = _
      rw [take, or_none, if_neg hstrip]

/-- What is left when the loop is through. -/
structure Settled (b : LowLatencyTTSBuffer) (ch : α → Char) (rest : List α) : Prop where
  lstrip : LowLatencyTTSBuffer.lstrip ch rest = rest
  cut : rest = [] ∨ b.cut ch rest = none

/-- What every cut keeps of the text behind it holds of what is left, and what it makes of the text
    in front of it holds of every piece. -/
theorem emit_ready_rule (b : LowLatencyTTSBuffer) (isalnum : Char → Bool) {P Q : List α → Prop}
    (hcut : ∀ text n, P text → Trimmed ch text → b.cut ch text = some n →
      Q (strip ch (text.take n)) ∧ P (lstrip ch (text.drop n))) (hstart : P (lstrip ch buf)) :
    (∀ part ∈ (b.emit_ready ch isalnum false buf).1, Q part) ∧
      P (b.emit_ready ch isalnum false buf).2 ∧
        Settled b ch (b.emit_ready ch isalnum false buf).2 := by
  induction hlen : buf.length using Nat.strong_induction_on generalizing buf with
  | _ k ih =>
    rw [emit_ready_eq]
    rcases next_chunk_cases ch b isalnum buf with ⟨hnext, hrest⟩ | ⟨n, htrimmed, hn, hnext⟩
    · rw [hnext]
      exact ⟨nofun, hstart, lstrip_lstrip buf, hrest⟩
    · have hshort := next_chunk_shorter hnext
      obtain ⟨hpart, hrest⟩ := hcut _ n hstart htrimmed hn
      rw [← lstrip_lstrip] at hrest
      obtain ⟨hparts, hend⟩ := ih _ (hlen ▸ hshort) hrest rfl
      rw [hnext]
      refine ⟨fun part hpart' => ?_, hend⟩
      rcases List.mem_cons.1 hpart' with rfl | hpart'
      · exact hpart
      · exact hparts part hpart'

/-- The loop ends. -/
theorem emits (b : LowLatencyTTSBuffer) (isalnum : Char → Bool) (final : Bool) (buf : List α) :
    Emits ch b isalnum final buf (b.emit_ready ch isalnum final buf).1
      (b.emit_ready ch isalnum final buf).2 := by
  induction hlen : buf.length using Nat.strong_induction_on generalizing buf with
  | _ k ih =>
    rw [emit_ready_eq]
    split
    · next rest hnext => exact .stop hnext
    · next part rest hnext =>
      exact .piece hnext (ih _ (hlen ▸ next_chunk_shorter hnext) rest rfl)

theorem fed_concat (ch : α → Char) (b : LowLatencyTTSBuffer) (isalnum : Char → Bool)
    (chunks : List (List α)) (chunk : List α) :
    b.fed ch isalnum (chunks ++ [chunk]) = (b.fed ch isalnum chunks).add ch b isalnum chunk :=
  List.foldl_concat ..

end

/-! ### Nothing is lost -/

section
variable {b : LowLatencyTTSBuffer} {isalnum : Char → Bool} {text buf : List Char}

theorem nospace_space {sp : List Char} (h : ∀ c ∈ sp, PyText.is_space c = true) :
    PyText.nospace sp = [] :=
  List.filter_eq_nil_iff.2 fun c hc => by simp [h c hc]

theorem nospace_strip (text : List Char) : PyText.nospace (strip id text) = PyText.nospace text := by
  obtain ⟨sp, sp', hsplit, hsp, hsp'⟩ := strip_split id text
  have hnospace := congrArg PyText.nospace hsplit
  rw [PyText.nospace_append, PyText.nospace_append, nospace_space hsp, nospace_space hsp',
    List.nil_append, List.append_nil] at hnospace
  exact hnospace.symm

theorem nospace_lstrip (text : List Char) :
    PyText.nospace (lstrip id text) = PyText.nospace text := PyText.nospace_lstrip text

/-- What a call emits and what it leaves is what was there. -/
theorem emit_ready_keeps (b : LowLatencyTTSBuffer) (isalnum : Char → Bool) (buf : List Char) :
    (b.emit_ready id isalnum false buf).1.flatMap PyText.nospace ++
      PyText.nospace (b.emit_ready id isalnum false buf).2 = PyText.nospace buf := by
  induction hlen : buf.length using Nat.strong_induction_on generalizing buf with
  | _ k ih =>
    rw [emit_ready_eq]
    rcases next_chunk_cases id b isalnum buf with ⟨hnext, -⟩ | ⟨n, -, -, hnext⟩
    · rw [hnext]
      exact nospace_lstrip buf
    · have hrest := ih _ (hlen ▸ next_chunk_shorter hnext) _ rfl
      rw [hnext, List.flatMap_cons, nospace_strip, List.append_assoc, hrest, nospace_lstrip,
        ← PyText.nospace_append, List.take_append_drop, nospace_lstrip]

theorem add_keeps (s : Stream Char) (chunk : List Char) :
    (s.add id b isalnum chunk).pieces.flatMap PyText.nospace ++
        PyText.nospace (s.add id b isalnum chunk).buf =
      s.pieces.flatMap PyText.nospace ++ PyText.nospace (s.buf ++ chunk) := by
  rw [Stream.add, List.flatMap_append, List.append_assoc, add]
  split
  · next h => simp [h]
  · exact congrArg _ (emit_ready_keeps b isalnum (s.buf ++ chunk))

theorem fed_keeps (b : LowLatencyTTSBuffer) (isalnum : Char → Bool) (chunks : List (List Char)) :
    (b.fed id isalnum chunks).pieces.flatMap PyText.nospace ++
        PyText.nospace (b.fed id isalnum chunks).buf = PyText.nospace chunks.flatten := by
  induction chunks using List.reverseRecOn with
  | nil => rfl
  | append_singleton chunks chunk ih =>
    rw [fed_concat, add_keeps, PyText.nospace_append, ← List.append_assoc, ih, List.flatten_concat,
      PyText.nospace_append]

/-- A flush emits what is pending, stripped, if there is something to speak in it. -/
theorem flush_eq {α : Type*} (ch : α → Char) (b : LowLatencyTTSBuffer) (isalnum : Char → Bool)
    (buf : List α) : b.flush ch isalnum buf =
      (if (strip ch buf).any fun a => isalnum (ch a) then [strip ch buf] else [], []) := by
  have hend : b.next_chunk ch isalnum true [] = (none, []) := rfl
  rw [flush, emit_ready_eq, next_chunk, chunk_of, strip_lstrip]
  by_cases hempty : lstrip ch buf = []
  · have hnil : strip ch buf = [] := by
      rw [strip, hempty]
      rfl
    rw [if_pos hempty, hnil]
    rfl
  · rw [if_neg hempty, if_pos rfl]
    by_cases hany : ((strip ch buf).any fun a => isalnum (ch a)) = true
    · have hne : strip ch buf ≠ [] := by
        rintro hnil
        rw [hnil] at hany
        cases hany
      rw [if_pos hany, if_pos hany, or_none, if_neg hne]
      dsimp only
      rw [emit_ready_eq, hend]
    · rw [if_neg hany, if_neg hany]

theorem nospace_flatten (pieces : List (List Char)) :
    PyText.nospace pieces.flatten = pieces.flatMap PyText.nospace := by
  rw [PyText.nospace, List.filter_flatten, List.flatMap_def]
  rfl

/-- However a reply is cut into chunks, the loop ends after each of them, and what comes out of the
    buffer is the reply, whitespace apart; a remainder without anything to speak may be dropped. -/
theorem text_kept (b : LowLatencyTTSBuffer) (isalnum : Char → Bool) (chunks : List (List Char)) :
    (∀ buf chunk : List Char, chunk ≠ [] → Emits id b isalnum false (buf ++ chunk)
        (b.add id isalnum buf chunk).1 (b.add id isalnum buf chunk).2) ∧
      (PyText.nospace ((b.fed id isalnum chunks).flush id b isalnum).pieces.flatten =
          PyText.nospace chunks.flatten ∨
        ∃ remainder : List Char, (∀ c ∈ strip id remainder, isalnum c = false) ∧
          PyText.nospace (((b.fed id isalnum chunks).flush id b isalnum).pieces.flatten ++ remainder) =
            PyText.nospace chunks.flatten) := by
  refine ⟨fun buf chunk hne => ?_, ?_⟩
  · rw [add, if_neg hne]
    exact emits b isalnum false (buf ++ chunk)
  · have hkeep := b.fed_keeps isalnum chunks
    rw [← nospace_flatten] at hkeep
    rw [Stream.flush, flush_eq]
    dsimp only
    cases hany : (strip id (b.fed id isalnum chunks).buf).any fun c => isalnum (id c) with
    | true =>
      refine .inl ?_
      rw [if_pos rfl, List.flatten_append, List.flatten_singleton, PyText.nospace_append,
        nospace_strip, hkeep]
    | false =>
      refine .inr ⟨(b.fed id isalnum chunks).buf, fun c hc => ?_, ?_⟩
      · exact Bool.eq_false_iff.2 (List.any_eq_false.1 hany c hc)
      · rw [if_neg Bool.false_ne_true, List.append_nil, PyText.nospace_append, hkeep]

end

/-! ### Nothing that is ready is held back -/

section
variable {α : Type*} {ch : α → Char} {b : LowLatencyTTSBuffer} {isalnum : Char → Bool}
  {text buf u v m r : List α} {h : α}

/-- A hard break. -/
def hard (ch : α → Char) (a : α) : Bool := hard_breaks.contains (ch a)

/-- What a caller expects of a pending text: it is short, and no sentence in it is complete. -/
structure Ready (b : LowLatencyTTSBuffer) (ch : α → Char) (buf : List α) : Prop where
  short : (strip ch buf).length < if b.is_cjk ch buf then b.max_chars else b.target_chars
  incomplete : ∀ l h r, buf = l ++ h :: r → hard ch h = true →
    (strip ch (l ++ [h])).length < default_min_sentence_chars

/-- Nothing, or a text up to a hard break. -/
def EndsHard (ch : α → Char) (l : List α) : Prop := l = [] ∨ ∃ l' h, l = l' ++ [h] ∧ hard ch h = true

/-- A hard break that another one follows does not close exactly one character behind the break in
    front of it. -/
def Spaced (ch : α → Char) (text : List α) : Prop :=
  ∀ l m h r, text = l ++ m ++ h :: r → EndsHard ch l → (∀ a ∈ m, hard ch a = false) →
    hard ch h = true → (∃ a ∈ r, hard ch a = true) → (strip ch (m ++ [h])).length ≠ 1

/-- A text with one hard break at most. -/
def Single (ch : α → Char) (text : List α) : Prop :=
  ∀ l h r, text = l ++ h :: r → hard ch h = true → ∀ a ∈ r, hard ch a = false

theorem Single.suffix (h : Single ch (u ++ v)) : Single ch v := by
  rintro l a r rfl ha
  exact h (u ++ l) a r (List.append_assoc ..).symm ha

theorem Single.spaced (hs : Single ch text) : Spaced ch text := by
  rintro l m h r rfl - - hh ⟨a, ha, hhard⟩
  rw [hs (l ++ m) h r rfl hh a ha] at hhard
  cases hhard

/-- A text ends in a stretch without hard breaks, in front of which there is one or nothing. -/
theorem ends_hard_split (ch : α → Char) (text : List α) :
    ∃ l m, text = l ++ m ∧ EndsHard ch l ∧ ∀ a ∈ m, hard ch a = false := by
  refine ⟨text.rdropWhile fun a => !hard ch a, text.rtakeWhile fun a => !hard ch a,
    List.rdropWhile_append_rtakeWhile.symm, ?_, fun a ha => ?_⟩
  · rcases List.eq_nil_or_concat' (text.rdropWhile fun a => !hard ch a) with hnil | ⟨l, h, hl⟩
    · exact .inl hnil
    · refine .inr ⟨l, h, hl, ?_⟩
      have hlast := List.rdropWhile_last_not (fun a => !hard ch a) text (by rw [hl]; simp)
      simpa [hl] using hlast
  · simpa using List.mem_rtakeWhile_imp (p := fun a => !hard ch a) ha

theorem EndsHard.append (hu : EndsHard ch u) (hv : EndsHard ch v) : EndsHard ch (u ++ v) := by
  rcases hv with rfl | ⟨l, h, rfl, hh⟩
  · rwa [List.append_nil]
  · exact .inr ⟨u ++ l, h, (List.append_assoc ..).symm, hh⟩

/-- What is left behind a hard break, or of the text itself, is spaced too. -/
theorem Spaced.behind (hs : Spaced ch (u ++ v)) (hu : EndsHard ch u) : Spaced ch (lstrip ch v) := by
  obtain ⟨sp, hv, hsp⟩ := lstrip_split ch v
  rintro l m h r hl hend hm hh hr
  rw [hv, hl] at hs
  rcases hend with rfl | hend
  · -- the space may hold breaks itself
    obtain ⟨l', m', rfl, hl', hm'⟩ := ends_hard_split ch sp
    have hne := hs (u ++ l') (m' ++ m) h r (by simp) (hu.append hl')
      (fun a ha => (List.mem_append.1 ha).elim (hm' a) (hm a)) hh hr
    rwa [List.append_assoc, strip_space fun a ha => hsp a (List.mem_append_right _ ha)] at hne
  · have hne := hs (u ++ sp ++ l) m h r (by simp) (.inr ?_) hm hh hr
    · exact hne
    · obtain ⟨l', h', rfl, hh'⟩ := hend
      exact ⟨u ++ sp ++ l', h', (List.append_assoc ..).symm, hh'⟩

/-! The first hard break -/

/-- A list up to its first element with the property. -/
theorem first_split (p : α → Bool) (text : List α) : (∀ a ∈ text, p a = false) ∨
    ∃ m h r, text = m ++ h :: r ∧ (∀ a ∈ m, p a = false) ∧ p h = true := by
  induction text with
  | nil => exact .inl nofun
  | cons a rest ih =>
    cases ha : p a with
    | true => exact .inr ⟨[], a, rest, rfl, nofun, ha⟩
    | false =>
      rcases ih with hnone | ⟨m, h, r, rfl, hm, hh⟩
      · exact .inl (List.forall_mem_cons.2 ⟨ha, hnone⟩)
      · exact .inr ⟨a :: m, h, r, rfl, List.forall_mem_cons.2 ⟨ha, hm⟩, hh⟩

theorem hard_cut_none (hm : ∀ a ∈ m, hard ch a = false) : hard_cut ch m = none := by
  have hnone : first_index ch hard_breaks.contains m = none :=
    List.findIdx?_eq_none_iff.2 fun a ha => hm a ha
  rw [hard_cut, hnone]
  rfl

theorem hard_cut_first (r : List α) (hm : ∀ a ∈ m, hard ch a = false) (hh : hard ch h = true) :
    hard_cut ch (m ++ h :: r) =
      if default_min_sentence_chars ≤ (strip ch (m ++ [h])).length then some (m.length + 1)
      else none := by
  have hfirst : first_index ch hard_breaks.contains (m ++ h :: r) = some m.length := by
    have hnone : m.findIdx? (fun a => hard_breaks.contains (ch a)) = none :=
      List.findIdx?_eq_none_iff.2 fun a ha => hm a ha
    rw [first_index, List.findIdx?_append, hnone, List.findIdx?_cons]
    simp only [hard] at hh
    rw [if_pos hh]
    simp
  have htake : (m ++ h :: r).take (m.length + 1) = m ++ [h] := by
    rw [List.append_cons, List.take_left' (by simp)]
  rw [hard_cut, hfirst, Option.bind_some, htake]

/-- Where there is no cut at a hard break, a spaced text has one such break at most, and that closes
    one character. -/
theorem Spaced.single (hs : Spaced ch text) (ht : lstrip ch text = text)
    (hcut : hard_cut ch text = none) : Single ch text ∧ ∀ l h r, text = l ++ h :: r →
      hard ch h = true → (strip ch (l ++ [h])).length < default_min_sentence_chars := by
  rcases first_split (hard ch) text with hnone | ⟨m, h, r, rfl, hm, hh⟩
  · refine ⟨?_, ?_⟩
    · rintro l h r rfl hh
      rw [hnone h (by simp)] at hh
      cases hh
    · rintro l h r rfl hh
      rw [hnone h (by simp)] at hh
      cases hh
  · rw [hard_cut_first r hm hh] at hcut
    have hlt : ¬ default_min_sentence_chars ≤ (strip ch (m ++ [h])).length := by
      intro hle
      rw [if_pos hle] at hcut
      cases hcut
    have hpos : 0 < (strip ch (m ++ [h])).length := by
      have htrimmed : Trimmed ch (m ++ h :: r) := ⟨by simp, ht⟩
      have hne := htrimmed.strip_take (Nat.succ_pos m.length)
      rw [List.append_cons, List.take_left' (by simp)] at hne
      exact List.length_pos_iff.2 hne
    have hone : (strip ch (m ++ [h])).length = 1 := by
      rw [default_min_sentence_chars] at hlt
      omega
    have hr : ∀ a ∈ r, hard ch a = false := by
      intro a ha
      by_contra hhard
      exact hs [] m h r rfl (.inl rfl) hm hh ⟨a, ha, Bool.not_eq_false _ ▸ hhard⟩ hone
    -- the break is the only one
    have honly : ∀ l a r', m ++ h :: r = l ++ a :: r' → hard ch a = true → l = m ∧ a = h ∧ r' = r := by
      intro l a r' heq ha
      rcases List.append_eq_append_iff.1 heq with ⟨x, rfl, hx⟩ | ⟨x, rfl, hx⟩
      · cases x with
        | nil =>
          obtain ⟨rfl, rfl⟩ := List.cons.inj hx
          exact ⟨List.append_nil _, rfl, rfl⟩
        | cons y x =>
          obtain ⟨rfl, rfl⟩ := List.cons.inj hx
          rw [hr a (by simp)] at ha
          cases ha
      · cases x with
        | nil =>
          obtain ⟨rfl, rfl⟩ := List.cons.inj hx
          exact ⟨(List.append_nil _).symm, rfl, rfl⟩
        | cons y x =>
          obtain ⟨rfl, -⟩ := List.cons.inj hx
          rw [hm a (by simp)] at ha
          cases ha
    refine ⟨fun l a r' heq ha => ?_, fun l a r' heq ha => ?_⟩
    · obtain ⟨-, -, rfl⟩ := honly l a r' heq ha
      exact hr
    · obtain ⟨rfl, rfl, -⟩ := honly l a r' heq ha
      exact Nat.lt_of_not_le hlt

/-! One step -/

theorem Single.lstrip (hs : Single ch text) : Single ch (lstrip ch text) := by
  obtain ⟨sp, hsplit, -⟩ := lstrip_split ch text
  rw [hsplit] at hs
  exact hs.suffix

/-- Every cut leaves a spaced text. -/
theorem Spaced.cut {n : ℕ} (hs : Spaced ch text) (ht : Trimmed ch text)
    (hn : b.cut ch text = some n) : Spaced ch (lstrip ch (text.drop n)) := by
  rcases Option.or_eq_some_iff.1 hn with hhard | ⟨hnone, -⟩
  · rcases first_split (hard ch) text with hno | ⟨m, h, r, rfl, hm, hh⟩
    · rw [hard_cut_none hno] at hhard
      cases hhard
    · rw [hard_cut_first r hm hh] at hhard
      split at hhard
      · obtain rfl := Option.some.inj hhard
        rw [List.append_cons] at hs ⊢
        rw [List.drop_left' (by simp)]
        exact hs.behind (.inr ⟨m, h, rfl, hh⟩)
      · cases hhard
  · have hsingle := (hs.single ht.lstrip hnone).1
    rw [← List.take_append_drop n text] at hsingle
    exact hsingle.suffix.lstrip.spaced

theorem choose_length_cut_ne_zero (htext : text ≠ []) : b.choose_length_cut ch text ≠ 0 := by
  have hlen := List.length_pos_iff.2 htext
  have hmin := b.two_le_min
  have htarget := b.min_le_target
  have hmax := b.target_le_max
  rw [choose_length_cut]
  split <;> split <;> (try split) <;> omega

theorem ready_nil : Ready b ch ([] : List α) := by
  have hmin := b.two_le_min
  have htarget := b.min_le_target
  have hmax := b.target_le_max
  refine ⟨?_, fun l h r heq => by simp at heq⟩
  show 0 < _
  split <;> omega

/-- What is left when the loop is through is short. -/
theorem Settled.short (h : Settled b ch text) :
    (strip ch text).length < if b.is_cjk ch text then b.max_chars else b.target_chars := by
  by_cases htext : text = []
  · rw [htext]
    exact ready_nil.short
  · have hcut := h.cut.resolve_left htext
    rw [LowLatencyTTSBuffer.cut, Option.or_eq_none_iff, Option.or_eq_none_iff] at hcut
    have hlength := hcut.2.2
    by_contra hlong
    rw [length_cut, if_neg hlong, if_neg (choose_length_cut_ne_zero htext)] at hlength
    cases hlength

theorem Settled.ready (h : Settled b ch text) (hs : Spaced ch text) : Ready b ch text := by
  refine ⟨h.short, ?_⟩
  by_cases htext : text = []
  · rw [htext]
    exact (ready_nil (b := b)).incomplete
  · have hcut := h.cut.resolve_left htext
    exact (hs.single h.lstrip (Option.or_eq_none_iff.1 hcut).1).2

/-- A chunk is added in one step of a run. -/
def Adds (ch : α → Char) (b : LowLatencyTTSBuffer) (isalnum : Char → Bool) (s : Stream α)
    (chunk : List α) (t : Stream α) : Prop := t = s.add ch b isalnum chunk

/-- A run of additions leads to one state. -/
theorem run_fed {chunks : List (List α)} {s : Stream α} (h : Run (Adds ch b isalnum) .new chunks s) :
    s = b.fed ch isalnum chunks := by
  induction h with
  | nil => rfl
  | snoc _ hstep ih =>
    obtain rfl := hstep
    rw [fed_concat, ih]

theorem Ready.add {s : Stream α} (h : Ready b ch s.buf) (chunk : List α)
    (hs : Spaced ch (s.buf ++ chunk)) : Ready b ch (s.add ch b isalnum chunk).buf := by
  rw [Stream.add, LowLatencyTTSBuffer.add]
  split
  · exact h
  · have hstart : Spaced ch (lstrip ch (s.buf ++ chunk)) :=
      Spaced.behind (by rwa [List.nil_append]) (.inl rfl)
    obtain ⟨-, hspaced, hsettled⟩ := emit_ready_rule b isalnum (Q := fun _ => True)
      (fun text n hs ht hn => ⟨trivial, hs.cut ht hn⟩) hstart
    exact hsettled.ready hspaced

end

/-- In every run in which no break that closes only one character stands in front of another break,
    nothing that is ready is pending after any chunk. -/
theorem pending_ready {b : LowLatencyTTSBuffer} {isalnum : Char → Bool} {chunks : List (List Char)}
    {s : Stream Char} (hrun : Run (restrict (fun s chunk => Spaced id (s.buf ++ chunk))
      (Adds id b isalnum)) .new chunks s) : Ready b id s.buf := by
  refine hrun.invariant (I := fun s => Ready b id s.buf) ?_ ready_nil
  rintro s chunk t h ⟨hs, rfl⟩
  exact h.add chunk hs

theorem single_of_count {text : List Char} (h : (text.filter (hard id)).length ≤ 1) :
    Single id text := by
  rintro l c r rfl hc a ha
  rw [List.filter_append, List.filter_cons_of_pos hc, List.length_append, List.length_cons] at h
  have hnil : r.filter (hard id) = [] := List.length_eq_zero_iff.1 (by omega)
  simpa using List.filter_eq_nil_iff.1 hnil a ha

/-- The limits of an English reply. -/
def english : LowLatencyTTSBuffer := post_init "en" none none none

/-- After each of two chunks only the beginning of a sentence is pending. -/
theorem pending_ready_english : Ready english id
    ((Stream.new.add id english Char.isAlphanum "Well, ok! And".toList).add id english
      Char.isAlphanum " you? Fi".toList).buf :=
  pending_ready (.snoc (.snoc .nil
    ⟨(single_of_count (by decide)).spaced, rfl⟩)
    ⟨(single_of_count (by decide +kernel)).spaced, rfl⟩)

/-- Of `!a!` only the first break is looked at, which closes one character. -/
theorem second_break_pending : ¬ ∀ (b : LowLatencyTTSBuffer) (isalnum : Char → Bool)
    (chunks : List (List Char)) (s : Stream Char),
    Run (Adds id b isalnum) .new chunks s → Ready b id s.buf := by
  intro h
  have hready := h english Char.isAlphanum ["!a!".toList] _ (.snoc .nil rfl)
  have hbuf : (Stream.new.add id english Char.isAlphanum "!a!".toList).buf = ['!', 'a'] ++ ['!'] := by
    decide +kernel
  have hlt := hready.incomplete ['!', 'a'] '!' [] hbuf rfl
  revert hlt
  decide

end LowLatencyTTSBuffer
end LocalVoice.V2V
