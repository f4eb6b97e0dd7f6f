import LocalVoice.WyomingTts.Replies

/-! Which replies are spoken as they should be: once, in the voice that was asked for. -/

namespace LocalVoice.WyomingTts
open LocalVoice.Lib LocalVoice.Lib.PyText

variable (env : Bool → Limits) (up : ℕ → Answer)

/-- Every later request speaks only text behind a clause whose audio was sent. -/
def NotSpokenAgain (k : ℕ) (text : List Char) (asked : List Request) : Prop :=
  ∀ pre q post, asked = pre ++ q :: post → (up (k + pre.length)).frames ≠ [] →
    ∃ before behind, nospace text = before ++ nospace q.1 ++ behind ∧
      (post.flatMap fun p => nospace p.1).Sublist behind

/-- A reply whose first request is the connection's `k`-th is spoken as it should be: with the service
    answering well its text is asked for once, every request is for its speaker, its audio is bracketed,
    and no clause that was heard is spoken again. -/
structure SpokenOnce (k : ℕ) (r : Reply) (out : List Out) : Prop where
  whole : (∀ i < (requests out).length, (up (k + i)).ok = true) →
    (requests out).flatMap (fun q => nospace q.1) = nospace r.text
  voice : ∀ q ∈ requests out, q.2 = r.speaker
  bracketed : Bracketed out
  not_again : NotSpokenAgain up k r.text (requests out)

/-- The clauses a streamed reply brings out before its repeat. -/
def early_clauses (voice : Option Voice) (chunks : List (List Char)) : List (List Char) :=
  spoken (ready (.new env (voice.bind (·.language))) chunks).1

/-- The speaker is not lost: there is none, or nothing is spoken before a repeat that brings it
    again. -/
def KeepsSpeaker : Reply → Prop
  | .streamed voice chunks repeated =>
    speaker_of voice = none ∨ early_clauses env voice chunks = [] ∧
      (nospace chunks.flatten = [] ∨ repeated = some true)
  | .one_shot _ _ => True

/-- The repeat does not speak what was heard: there is none, or a clause went well before it, or nothing
    was heard before it. -/
def NotRepeated (k : ℕ) : Reply → Prop
  | .streamed voice chunks repeated =>
    repeated = none ∨
      (∃ i < (early_clauses env voice chunks).length, (up (k + i)).ok = true) ∨
      ∀ i < (early_clauses env voice chunks).length, (up (k + i)).frames = []
  | .one_shot _ _ => True

/-! ### Requests that follow the text -/

/-- Clauses that make up the text, in their order. -/
theorem not_again_of_whole {k : ℕ} {text : List Char} {asked : List Request}
    (h : asked.flatMap (fun q => nospace q.1) = nospace text) : NotSpokenAgain up k text asked := by
  rintro pre q post rfl -
  refine ⟨pre.flatMap fun p => nospace p.1, post.flatMap fun p => nospace p.1, ?_, List.Sublist.refl _⟩
  rw [← h, List.flatMap_append, List.flatMap_cons, List.append_assoc]

/-- Clauses that were not heard, and then the whole text. -/
theorem not_again_of_silent {k : ℕ} {text : List Char} {early asked : List Request}
    (hsilent : ∀ i < early.length, (up (k + i)).frames = [])
    (h : asked.flatMap (fun q => nospace q.1) = nospace text) :
    NotSpokenAgain up k text (early ++ asked) := by
  intro pre q post heq hheard
  have hlen : early.length ≤ pre.length := by
    by_contra hlt
    exact hheard (hsilent _ (by omega))
  obtain ⟨mid, rfl⟩ : ∃ mid, pre = early ++ mid :=
    (List.prefix_of_prefix_length_le (List.prefix_append _ _) ⟨q :: post, heq.symm⟩ hlen).imp
      fun _ h => h.symm
  rw [List.append_assoc] at heq
  obtain rfl := List.append_cancel_left heq
  refine ⟨mid.flatMap fun p => nospace p.1, post.flatMap fun p => nospace p.1, ?_,
    List.Sublist.refl _⟩
  rw [← h, List.flatMap_append, List.flatMap_cons, List.append_assoc]

/-- A clause that was heard, and the whole text behind it. -/
theorem again_of_heard {k : ℕ} {text : List Char} {early asked : List Request} {i : ℕ}
    (hi : i < early.length) (hheard : (up (k + i)).frames ≠ [])
    (hearly : ∀ q ∈ early, nospace q.1 ≠ [])
    (h : asked.flatMap (fun q => nospace q.1) = nospace text) :
    ¬ NotSpokenAgain up k text (early ++ asked) := by
  intro hnot
  have hsplit : early = early.take i ++ early[i] :: early.drop (i + 1) := by
    rw [← List.drop_eq_getElem_cons hi, List.take_append_drop]
  obtain ⟨before, behind, htext, hsub⟩ := hnot (early.take i) early[i]
    (early.drop (i + 1) ++ asked) (by rw [← List.cons_append, ← List.append_assoc, ← hsplit])
    (by rwa [List.length_take, Nat.min_eq_left (Nat.le_of_lt hi)])
  have hlen := hsub.length_le
  have hpos := List.length_pos_iff.2 (hearly _ (List.getElem_mem hi))
  rw [List.flatMap_append, h, htext] at hlen
  simp only [List.length_append] at hlen
  omega

/-! ### The requests of a reply -/

theorem whole_text (voice : Option Voice) (chunks : List (List Char)) :
    let said := ready (.new env (voice.bind (·.language))) chunks
    (spoken said.1 ++ spoken said.2.flush.1).flatMap nospace = nospace chunks.flatten := by
  intro said
  have h := ready_keeps chunks (.new env (voice.bind (·.language)))
  rw [List.flatMap_append, nospace_spoken, nospace_spoken, ClauseBuffer.flush_keeps]
  exact h

theorem flatMap_requests (texts : List (List Char)) (speaker : Option ℤ) :
    (texts.map fun t => ((t, speaker) : Request)).flatMap (fun q => nospace q.1) =
      texts.flatMap nospace := by
  rw [List.flatMap_map]

theorem spoken_text (text : List Char) : (spoken [text]).flatMap nospace = nospace text := by
  simp [nospace_spoken]

/-- The three ways the requests of a streamed reply come about. -/
theorem asks_streamed (k : ℕ) (voice : Option Voice) (chunks : List (List Char))
    (repeated : Option Bool) :
    let early : List Request := (early_clauses env voice chunks).map fun t => (t, none)
    (∃ late : List (List Char),
      (repeated = none ∨ ∃ i < early.length, (up (k + i)).ok = true) ∧
      (early_clauses env voice chunks ++ spoken late).flatMap nospace = nospace chunks.flatten ∧
      (Reply.streamed voice chunks repeated).asks env up k =
        early ++ (spoken late).map fun t => (t, none)) ∨
    ∃ again, repeated = some again ∧ (¬ ∃ i < early.length, (up (k + i)).ok = true) ∧
      (Reply.streamed voice chunks repeated).asks env up k = early ++
        (spoken [chunks.flatten]).map fun t => (t, speaker_of (if again then voice else none)) := by
  intro early
  have hlen : early.length = (early_clauses env voice chunks).length := List.length_map ..
  rw [hlen]
  cases repeated with
  | none => exact Or.inl ⟨_, Or.inl rfl, whole_text env voice chunks, rfl⟩
  | some again =>
    by_cases hok : ∃ i < (early_clauses env voice chunks).length, (up (k + i)).ok = true
    · refine Or.inl ⟨_, Or.inr hok, whole_text env voice chunks, ?_⟩
      exact if_pos hok
    · exact Or.inr ⟨again, rfl, hok, if_neg hok⟩

/-- With the service answering well, a reply asks for its text once. -/
theorem asks_whole (k : ℕ) (r : Reply)
    (hok : ∀ i < (r.asks env up k).length, (up (k + i)).ok = true) :
    (r.asks env up k).flatMap (fun q => nospace q.1) = nospace r.text := by
  cases r with
  | one_shot text voice => exact (flatMap_requests _ _).trans (spoken_text text)
  | streamed voice chunks repeated =>
    rcases asks_streamed env up k voice chunks repeated with
      ⟨late, -, hwhole, heq⟩ | ⟨again, -, hnone, heq⟩
    · rw [heq, List.flatMap_append, flatMap_requests, flatMap_requests, ← List.flatMap_append]
      exact hwhole
    · rw [heq] at hok ⊢
      -- an early clause would have gone well
      have hearly : early_clauses env voice chunks = [] := by
        by_contra hne
        have hpos := List.length_pos_iff.2 hne
        refine hnone ⟨0, by simpa using hpos, hok 0 ?_⟩
        simp only [List.length_append, List.length_map]
        omega
      simp only [hearly, List.map_nil, List.nil_append]
      exact (flatMap_requests _ _).trans (spoken_text _)

theorem spoken_text_eq_nil (text : List Char) : spoken [text] = [] ↔ nospace text = [] := by
  constructor
  · intro h
    rw [← spoken_text, h]
    rfl
  · intro h
    by_contra hne
    obtain ⟨t, ht⟩ := List.exists_mem_of_ne_nil _ hne
    have hflat := spoken_text text
    rw [h, List.flatMap_eq_nil_iff] at hflat
    exact nospace_ne_nil ht (hflat t ht)

/-- A reply asks for its own speaker exactly when that is not lost. -/
theorem asks_voice_iff (k : ℕ) (r : Reply) :
    (∀ q ∈ r.asks env up k, q.2 = r.speaker) ↔ KeepsSpeaker env r := by
  cases r with
  | one_shot text voice =>
    refine iff_of_true ?_ trivial
    intro q hq
    obtain ⟨t, -, rfl⟩ := List.mem_map.1 hq
    rfl
  | streamed voice chunks repeated =>
    have hspeaker : (Reply.streamed voice chunks repeated).speaker = speaker_of voice := rfl
    rw [hspeaker, KeepsSpeaker]
    by_cases hnone : speaker_of voice = none
    · refine iff_of_true ?_ (Or.inl hnone)
      intro q hq
      rw [hnone]
      rcases asks_streamed env up k voice chunks repeated with
        ⟨late, -, -, heq⟩ | ⟨again, -, -, heq⟩
      all_goals
        rw [heq] at hq
        rcases List.mem_append.1 hq with hq | hq
      · obtain ⟨t, -, rfl⟩ := List.mem_map.1 hq
        rfl
      · obtain ⟨t, -, rfl⟩ := List.mem_map.1 hq
        rfl
      · obtain ⟨t, -, rfl⟩ := List.mem_map.1 hq
        rfl
      · obtain ⟨t, -, rfl⟩ := List.mem_map.1 hq
        cases again
        · rfl
        · exact hnone
    · simp only [hnone, false_or]
      rcases asks_streamed env up k voice chunks repeated with
        ⟨late, hlate, hwhole, heq⟩ | ⟨again, rfl, -, heq⟩
      · -- every request is without a speaker, so there must be none
        rw [heq, ← List.map_append]
        constructor
        · intro h
          have hnil : early_clauses env voice chunks ++ spoken late = [] := by
            by_contra hne
            obtain ⟨t, ht⟩ := List.exists_mem_of_ne_nil _ hne
            exact hnone (h _ (List.mem_map_of_mem ht)).symm
          rw [hnil] at hwhole
          exact ⟨(List.append_eq_nil_iff.1 hnil).1, Or.inl hwhole.symm⟩
        · rintro ⟨hearly, hblank | hrep⟩ q hq
          · rw [hblank, List.flatMap_eq_nil_iff] at hwhole
            obtain ⟨t, ht, rfl⟩ := List.mem_map.1 hq
            rw [hearly, List.nil_append] at ht
            exact absurd (hwhole t (by simp [ht])) (nospace_ne_nil ht)
          · rcases hlate with hlate | ⟨i, hi, -⟩
            · rw [hlate] at hrep
              cases hrep
            · simp [hearly] at hi
      · rw [heq]
        constructor
        · intro h
          have hearly : early_clauses env voice chunks = [] := by
            by_contra hne
            obtain ⟨t, ht⟩ := List.exists_mem_of_ne_nil _ hne
            exact hnone (h _ (List.mem_append_left _ (List.mem_map_of_mem ht))).symm
          refine ⟨hearly, ?_⟩
          by_cases hblank : nospace chunks.flatten = []
          · exact Or.inl hblank
          · obtain ⟨t, ht⟩ := List.exists_mem_of_ne_nil _
              fun hs => hblank ((spoken_text_eq_nil _).1 hs)
            have hq := h _ (List.mem_append_right _ (List.mem_map_of_mem ht))
            cases again with
            | true => exact Or.inr rfl
            | false => exact absurd hq.symm hnone
        · rintro ⟨hearly, hblank | hrep⟩ q hq
          · rw [hearly, (spoken_text_eq_nil _).2 hblank] at hq
            simp at hq
          · obtain rfl := Option.some.inj hrep
            rw [hearly] at hq
            obtain ⟨t, -, rfl⟩ := List.mem_map.1 (by simpa using hq)
            rfl

/-- No clause that was heard is spoken again exactly when the repeat does not speak it. -/
theorem asks_not_again_iff (k : ℕ) (r : Reply) :
    NotSpokenAgain up k r.text (r.asks env up k) ↔ NotRepeated env up k r := by
  cases r with
  | one_shot text voice =>
    exact iff_of_true (not_again_of_whole up ((flatMap_requests _ _).trans (spoken_text text))) trivial
  | streamed voice chunks repeated =>
    rw [NotRepeated, Reply.text]
    rcases asks_streamed env up k voice chunks repeated with
      ⟨late, hlate, hwhole, heq⟩ | ⟨again, rfl, hnone, heq⟩
    · rw [heq]
      refine iff_of_true (not_again_of_whole up ?_) ?_
      · rw [List.flatMap_append, flatMap_requests, flatMap_requests, ← List.flatMap_append]
        exact hwhole
      · rw [List.length_map] at hlate
        exact hlate.imp_right Or.inl
    · have htext : ((spoken [chunks.flatten]).map fun t => ((t, speaker_of (if again then voice else
          none)) : Request)).flatMap (fun q => nospace q.1) = nospace chunks.flatten :=
        (flatMap_requests _ _).trans (spoken_text _)
      rw [heq]
      rw [List.length_map] at hnone
      simp only [hnone, reduceCtorEq, false_or]
      constructor
      · intro h i hi
        by_contra hheard
        refine again_of_heard up (by simpa using hi) hheard ?_ htext h
        intro q hq
        obtain ⟨t, ht, rfl⟩ := List.mem_map.1 hq
        exact nospace_ne_nil ht
      · intro h
        exact not_again_of_silent up (by simpa using h) htext

/-! ### A connection -/

/-- A reply on a connection, the number of requests before it, and what was put out for it. -/
structure Turn where
  first : ℕ
  reply : Reply
  out : List Out

/-- The replies of a connection, one after the other on its one handler. -/
def connection (h : Handler) : List Reply → List Turn
  | [] => []
  | r :: rest =>
    let out := h.handle_all env up r.events
    ⟨h.asked, r, out.2⟩ :: connection out.1 rest

/-- Every reply finds a handler that was just reset. -/
theorem connection_fresh (replies : List Reply) : ∀ k : ℕ,
    ∀ t ∈ connection env up (.fresh k) replies,
      t.out = ((Handler.fresh t.first).handle_all env up t.reply.events).2 := by
  induction replies with
  | nil => simp [connection]
  | cons r rest ih =>
    intro k t ht
    obtain ⟨-, -, hfresh⟩ := reply_run env up k r
    rcases List.mem_cons.1 ht with rfl | ht
    · rfl
    · rw [hfresh] at ht
      exact ih _ t ht

theorem spoken_once_iff (k : ℕ) (r : Reply) :
    SpokenOnce up k r ((Handler.fresh k).handle_all env up r.events).2 ↔
      KeepsSpeaker env r ∧ NotRepeated env up k r := by
  obtain ⟨hreq, hbracket, -⟩ := reply_run env up k r
  rw [← asks_voice_iff env up k, ← asks_not_again_iff, ← hreq]
  constructor
  · rintro ⟨-, hvoice, -, hnot⟩
    exact ⟨hvoice, hnot⟩
  · rintro ⟨hvoice, hnot⟩
    refine ⟨?_, hvoice, hbracket, hnot⟩
    rw [hreq]
    exact asks_whole env up k r

/-- On a connection no reply is touched by the ones before it, and a reply is spoken as it should be
    exactly when its speaker is not lost and its repeat speaks nothing that was heard. -/
theorem replies_spoken_iff (replies : List Reply) :
    (∀ t ∈ connection env up (.fresh 0) replies,
      t.out = ((Handler.fresh t.first).handle_all env up t.reply.events).2) ∧
    ∀ t ∈ connection env up (.fresh 0) replies,
      SpokenOnce up t.first t.reply t.out ↔
        KeepsSpeaker env t.reply ∧ NotRepeated env up t.first t.reply := by
  refine ⟨connection_fresh env up replies 0, ?_⟩
  intro t ht
  rw [connection_fresh env up replies 0 t ht]
  exact spoken_once_iff env up t.first t.reply

/-- A reply in the voice of speaker 3, whose one clause comes out before its repeat. -/
def greeting : Reply := .streamed (some ⟨none, some "3"⟩) ["Hello!".toList] (some true)

/-- The clause is asked for without its speaker, also where the service answers well. -/
theorem speaker_lost : ¬ ∀ (env : Bool → Limits) (up : ℕ → Answer) (replies : List Reply),
    ∀ t ∈ connection env up (.fresh 0) replies, SpokenOnce up t.first t.reply t.out := by
  intro h
  have hvoice := (h (fun cjk => if cjk then ⟨15, 24, 40⟩ else ⟨24, 48, 80⟩)
    (fun _ => ⟨[(24000, [0, 0])], true⟩) [greeting] _ (List.mem_singleton_self _)).voice
  revert hvoice
  decide +kernel

end LocalVoice.WyomingTts
