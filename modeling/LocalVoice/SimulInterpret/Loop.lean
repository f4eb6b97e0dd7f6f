import LocalVoice.SimulInterpret.App

/-! What a handler of one utterance leaves when it runs through its loop: which segments are
    translated, what is sent of them, what stays pending, and that other utterances are not touched. -/

namespace LocalVoice.SimulInterpret
open LocalVoice.Lib

/-! ### What belongs to an utterance -/

/-- The segments that a handler has still to translate. -/
def Stage.todo : Stage → List SegmentEvent
  | .translating ev rest => ev :: rest
  | .speaking _ rest => rest
  | _ => []

def Stage.is_called : Stage → Bool
  | .called _ => true
  | _ => false

def Stage.is_flushing : Stage → Bool
  | .flushing _ => true
  | _ => false

def State.pieces_of (c : State) (u : ℕ) : List Piece := c.translations.filter (·.utterance = u)

def State.sent (c : State) (u : ℕ) : List (List Piece) :=
  (c.sends.filter (·.utterance = u)).map Send.pieces

/-- What is sent of these pieces: each one as it is translated, or all of them at the end. A text that
    is blank is not sent. -/
def outputs (g : Config) (ps : List Piece) : List (List Piece) :=
  if g.overlap then (ps.filter fun p => !blank p.translated).map fun p => [p]
  else if blank (text_of ps) then [] else [ps]

/-- Each clause of the utterance was translated once, and what was translated was sent once. -/
structure State.Done (g : Config) (c : State) (u : ℕ) (text : Text) : Prop where
  translated : (c.pieces_of u).map Piece.source = clauses g.settings (c.partials u) text
  sent : c.sent u = outputs g (c.pieces_of u)

/-- What a handler of the utterance `u` that runs through its loop leaves. -/
structure Looped (g : Config) (u : ℕ) (final : Bool) (c : State) (evs : List SegmentEvent) (c' : State)
    (stage : Stage) (ps : List Piece) : Prop where
  sources : ps.map Piece.source ++ sources stage.todo = sources evs
  mine : ∀ p ∈ ps, p.utterance = u
  translations : c'.translations = c.translations ++ ps
  committer : c'.committer = c.committer
  utterance : c'.utterance = c.utterance
  handled : c'.handled = c.handled
  partial_stage : c'.partial_stage = c.partial_stage
  utterance_stage : c'.utterance_stage = c.utterance_stage
  partials : c'.partials = c.partials
  fate : c'.fate = c.fate
  started : stage.is_called = false
  overlap : g.overlap = true →
    c'.sends = c.sends ++ (ps.filter fun p => !blank p.translated).map fun p => ⟨u, [p]⟩
  silent : g.overlap = false → stage.is_flushing = false → c'.sends = c.sends
  flushed : stage.is_flushing = true → g.overlap = false ∧ final = true ∧
    c'.sends = c.sends ++ [⟨u, c.pending_translation ++ ps⟩] ∧
    blank (text_of (c.pending_translation ++ ps)) = false
  pending : ¬(final = true ∧ stage = .ended) →
    c'.pending_translation = if g.overlap then c.pending_translation else c.pending_translation ++ ps
  reset : final = true → stage = .ended → c'.pending_translation = [] ∧
    (g.overlap = false → blank (text_of (c.pending_translation ++ ps)) = true)

section
variable {g : Config} {c : State} {u : ℕ} {final : Bool}

theorem looped_after : ∃ ps, Looped g u final c [] (c.after_loop g u final).1 (c.after_loop g u final).2
    ps := by
  refine ⟨[], ?_⟩
  unfold State.after_loop
  split
  · next hfinal =>
    split
    · next hflush =>
      simp only [Bool.and_eq_true, Bool.not_eq_true'] at hflush
      obtain ⟨hoverlap, hblank⟩ := hflush
      exact ⟨rfl, by simp, by simp [State.send_text], rfl, rfl, rfl, rfl, rfl, rfl, rfl, rfl,
        by simp [hoverlap], by simp [Stage.is_flushing],
        by simp [hoverlap, hfinal, hblank, State.send_text],
        by simp [State.send_text], by simp⟩
    · next hflush =>
      simp only [Bool.and_eq_true, Bool.not_eq_true', not_and, Bool.not_eq_false] at hflush
      exact ⟨rfl, by simp, by simp [State.reset_pending], rfl, rfl, rfl, rfl, rfl, rfl, rfl, rfl,
        by simp [State.reset_pending], fun _ _ => rfl, by simp [Stage.is_flushing], by simp [hfinal],
        fun _ _ => ⟨rfl, by simpa using hflush⟩⟩
  · next hfinal =>
    exact ⟨rfl, by simp, by simp, rfl, rfl, rfl, rfl, rfl, rfl, rfl, rfl, by simp, fun _ _ => rfl,
      by simp [Stage.is_flushing], by simp, fun h => absurd h hfinal⟩

/-- The loop translates and sends the segments in order, as far as it gets before it awaits. -/
theorem looped (g : Config) (u : ℕ) (final : Bool) (c : State) (evs : List SegmentEvent)
    (answer : Option Text) : ∃ ps, Looped g u final c evs (c.loop g u final evs answer).1
      (c.loop g u final evs answer).2 ps := by
  induction evs generalizing c answer with
  | nil => exact looped_after
  | cons ev rest ih =>
    simp only [State.loop]
    split
    · exact ⟨[], rfl, by simp, by simp, rfl, rfl, rfl, rfl, rfl, rfl, rfl, rfl, by simp, fun _ _ => rfl,
        by simp [Stage.is_flushing], by simp, by simp⟩
    · next text _ =>
      split
      · next hoverlap =>
        split
        · next hblank =>
          obtain ⟨ps, h⟩ := ih (c.translated ⟨u, ev.source_text, text⟩) none
          refine ⟨⟨u, ev.source_text, text⟩ :: ps, ?_, ?_, ?_, h.committer, h.utterance, h.handled,
            h.partial_stage, h.utterance_stage, h.partials, h.fate, h.started, ?_, ?_, ?_, ?_, ?_⟩
          · simpa [sources] using h.sources
          · simpa using h.mine
          · simpa [State.translated] using h.translations
          · simpa [hblank, State.translated] using h.overlap
          · simp [hoverlap]
          · intro hflushing
            simp [(h.flushed hflushing).1] at hoverlap
          · simpa [hoverlap, State.translated] using h.pending
          · intro hfinal hended
            exact ⟨(h.reset hfinal hended).1, by simp [hoverlap]⟩
        · next hblank =>
          exact ⟨[⟨u, ev.source_text, text⟩], rfl, by simp, rfl, rfl, rfl, rfl, rfl, rfl, rfl, rfl, rfl,
            by simp [State.send_text, State.translated, hblank], by simp [hoverlap],
            by simp [Stage.is_flushing], by simp [State.send_text, State.translated, hoverlap], by simp⟩
      · next hoverlap =>
        obtain ⟨ps, h⟩ := ih ((c.translated ⟨u, ev.source_text, text⟩).add_pending
          ⟨u, ev.source_text, text⟩ ev.committed_source) none
        refine ⟨⟨u, ev.source_text, text⟩ :: ps, ?_, ?_, ?_, h.committer, h.utterance, h.handled,
          h.partial_stage, h.utterance_stage, h.partials, h.fate, h.started, ?_, h.silent, ?_, ?_, ?_⟩
        · simpa [sources] using h.sources
        · simpa using h.mine
        · simpa [State.translated, State.add_pending] using h.translations
        · simp [hoverlap]
        · intro hflushing
          simpa [State.translated, State.add_pending] using h.flushed hflushing
        · simpa [hoverlap, State.translated, State.add_pending] using h.pending
        · intro hfinal hended
          simpa [State.translated, State.add_pending] using h.reset hfinal hended

end

section
variable {g : Config} {c c' : State} {u v : ℕ} {final : Bool} {evs : List SegmentEvent} {stage : Stage}
  {ps : List Piece}

theorem Looped.eq (h : Looped g u final c evs c' stage ps) : ∃ sends pending source, c' =
    { c with
      sends := sends
      pending_translation := pending
      pending_source := source
      translations := c.translations ++ ps } := by
  obtain ⟨committer, pending, source, partial_stage, utterance_stage, handled, sends, utterance,
    translations, partials, fate⟩ := c'
  obtain ⟨-, -, htranslations, hcommitter, hutterance, hhandled, hpartial, hstage, hpartials, hfate,
    -⟩ := h
  dsimp only at *
  subst htranslations hcommitter hutterance hhandled hpartial hstage hpartials hfate
  exact ⟨sends, pending, source, rfl⟩

theorem Looped.pieces_of (h : Looped g u final c evs c' stage ps) (v : ℕ) :
    c'.pieces_of v = if v = u then c.pieces_of u ++ ps else c.pieces_of v := by
  unfold State.pieces_of
  rw [h.translations, List.filter_append]
  split
  · next hv =>
    subst hv
    have hall : ps.filter (·.utterance = v) = ps :=
      List.filter_eq_self.2 fun p hp => by simp [h.mine p hp]
    rw [hall]
  · next hv =>
    have hnone : ps.filter (·.utterance = v) = [] :=
      List.filter_eq_nil_iff.2 fun p hp => by simp [h.mine p hp, Ne.symm hv]
    rw [hnone, List.append_nil]

/-- What other utterances have sent stays. -/
theorem Looped.sent_other (h : Looped g u final c evs c' stage ps) (hv : v ≠ u) :
    c'.sent v = c.sent v := by
  cases hoverlap : g.overlap with
  | true => simp [State.sent, h.overlap hoverlap, List.filter_map, Function.comp_def, Ne.symm hv]
  | false =>
    cases hflushing : stage.is_flushing with
    | true => simp [State.sent, (h.flushed hflushing).2.2.1, Ne.symm hv]
    | false => simp [State.sent, h.silent hoverlap hflushing]

theorem Looped.sent_now (h : Looped g u final c evs c' stage ps) (hoverlap : g.overlap = true)
    (hsent : ∀ v, c.sent v = outputs g (c.pieces_of v)) (v : ℕ) :
    c'.sent v = outputs g (c'.pieces_of v) := by
  rw [h.pieces_of]
  split
  · next hv =>
    subst hv
    have hold := hsent v
    simp only [outputs, hoverlap, if_true] at hold ⊢
    simp only [State.sent, h.overlap hoverlap] at hold ⊢
    simp [List.filter_map, Function.comp_def, hold]
  · next hv => rw [h.sent_other hv, hsent]

theorem Looped.own (h : Looped g u final c evs c' stage ps)
    (hown : ∀ s ∈ c.sends, ∀ p ∈ s.pieces, p.utterance = s.utterance)
    (hpending : stage.is_flushing = true → ∀ p ∈ c.pending_translation, p.utterance = u) :
    ∀ s ∈ c'.sends, ∀ p ∈ s.pieces, p.utterance = s.utterance := by
  intro s hs p hp
  cases hoverlap : g.overlap with
  | true =>
    rw [h.overlap hoverlap, List.mem_append] at hs
    rcases hs with hs | hs
    · exact hown s hs p hp
    · obtain ⟨q, hq, rfl⟩ := List.mem_map.1 hs
      obtain rfl := List.mem_singleton.1 hp
      exact h.mine p (List.mem_filter.1 hq).1
  | false =>
    cases hflushing : stage.is_flushing with
    | false =>
      rw [h.silent hoverlap hflushing] at hs
      exact hown s hs p hp
    | true =>
      rw [(h.flushed hflushing).2.2.1, List.mem_append] at hs
      rcases hs with hs | hs
      · exact hown s hs p hp
      · obtain rfl := List.mem_singleton.1 hs
        rcases List.mem_append.1 hp with hp | hp
        · exact hpending hflushing p hp
        · exact h.mine p hp

theorem mem_pieces_of {p : Piece} (h : p ∈ c.pieces_of u) : p.utterance = u := by
  simpa using (List.mem_filter.1 h).2

/-- A handler of another utterance leaves what was done for this one. -/
theorem State.Done.frame {text : Text} (h : c.Done g v text) (hpieces : c'.pieces_of v = c.pieces_of v)
    (hsent : c'.sent v = c.sent v) (hpartials : c'.partials v = c.partials v) : c'.Done g v text where
  translated := by rw [hpieces, hpartials, h.translated]
  sent := by rw [hsent, hpieces, h.sent]

end

end LocalVoice.SimulInterpret
