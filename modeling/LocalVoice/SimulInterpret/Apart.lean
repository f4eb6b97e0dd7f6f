import LocalVoice.SimulInterpret.Loop

/-! The invariant that keeps utterances apart, and the steps that keep it: no handler fails or is
    cancelled, no final is dropped after partials of its utterance, and no partial adds to what a
    handler that runs has pending. -/

namespace LocalVoice.SimulInterpret
open LocalVoice.Lib

/-! ### Invariant -/

/-- Nothing of an utterance is mixed with another one. -/
structure Inv (g : Config) (c : State) : Prop where
  future : ∀ v, c.utterance ≤ v → c.fate v = .current
  later : ∀ v, c.utterance < v → c.partials v = [] ∧ c.pieces_of v = []
  own : ∀ s ∈ c.sends, ∀ p ∈ s.pieces, p.utterance = s.utterance
  running : c.utterance_stage ≠ .ended →
    c.handled < c.utterance ∧ ∃ text, c.fate c.handled = .routed text
  buffered : c.utterance_stage.is_called = false →
    c.committer.SameTexts (Committer.init.push_all g.settings (c.partials c.utterance)).1
  current : (c.pieces_of c.utterance).map Piece.source ++ sources c.partial_stage.todo =
    committed g.settings (c.partials c.utterance)
  plain : c.partial_stage.is_flushing = false
  waiting : ∀ text, c.utterance_stage = .called text → c.fate c.handled = .routed text ∧
    c.partial_stage = .ended ∧ c.partials c.utterance = [] ∧
    c.committer.SameTexts (Committer.init.push_all g.settings (c.partials c.handled)).1 ∧
    (c.pieces_of c.handled).map Piece.source = committed g.settings (c.partials c.handled)
  turn : ∀ text, c.fate c.handled = .routed text → c.utterance_stage.is_called = false →
    c.utterance_stage.is_flushing = false → c.utterance_stage ≠ .ended →
    (c.pieces_of c.handled).map Piece.source ++ sources c.utterance_stage.todo =
      clauses g.settings (c.partials c.handled) text
  done : ∀ v text, c.fate v = .routed text →
    v ≠ c.handled ∨ c.utterance_stage = .ended ∨ c.utterance_stage.is_flushing = true →
    c.Done g v text
  lag : g.overlap = false → c.utterance_stage ≠ .ended →
    committed g.settings (c.partials c.utterance) = []
  pending : c.pending_translation = if g.overlap then [] else
    if c.utterance_stage = .ended then c.pieces_of c.utterance else c.pieces_of c.handled
  sent_now : g.overlap = true → ∀ v, c.sent v = outputs g (c.pieces_of v)
  sent_later : g.overlap = false → ∀ v, (∀ text, c.fate v = .routed text →
    v = c.handled ∧ c.utterance_stage ≠ .ended ∧ c.utterance_stage.is_flushing = false) → c.sent v = []

/-- The step loses nothing of an utterance, and mixes no partial into another one. -/
def apart (g : Config) (c : State) : Label → Bool
  | Label.asr_partial text echo => echo ||
    match c.utterance_stage with
    | .called _ => false
    | .ended => true
    | _ => g.overlap || (c.committer.push_partial g.settings text).2 = []
  | .asr_final asleep duplicate text => (!asleep && duplicate) ||
    if asleep || blank text || g.low_signal text then c.partials c.utterance = []
    else c.utterance_stage = .ended && (!g.is_stop_intent text || c.partials c.utterance = [])
  | .begin _ => true
  | Label.resume_partial answer => answer ≠ none
  | .resume_utterance answer => answer ≠ none
  | .cancel => c.utterance_stage = .ended

section
variable {g : Config} {c c' : State} {u v : ℕ} {final : Bool} {evs : List SegmentEvent} {stage : Stage}
  {ps : List Piece}

/-! ### Handlers -/

/-- The dispatch loop goes on with the segments of a partial. -/
theorem Inv.partial_loop (h : Inv g { c with partial_stage := .speaking .broadcast evs })
    (hl : Looped g c.utterance false c evs c' stage ps) : Inv g { c' with partial_stage := stage } := by
  have hcurrent : (c.pieces_of c.utterance).map Piece.source ++ sources evs =
    committed g.settings (c.partials c.utterance) := h.current
  have hfate : c.fate c.utterance = .current := h.future _ (Nat.le_refl _)
  have hne : c.utterance_stage ≠ .ended → c.handled ≠ c.utterance := fun hs =>
    Nat.ne_of_lt (h.running hs).1
  -- in clause lag, nothing is translated beside a handler
  have hnone : g.overlap = false → c.utterance_stage ≠ .ended → ps = [] := by
    intro hoverlap hs
    have hempty := hcurrent.trans (h.lag hoverlap hs)
    rw [← hl.sources] at hempty
    simp only [List.append_eq_nil_iff, List.map_eq_nil_iff] at hempty
    exact hempty.2.1
  have hplain : stage.is_flushing = false := by
    by_contra hflushing
    simpa using (hl.flushed (by simpa using hflushing)).2.1
  have hpieces := hl.pieces_of
  have hother : ∀ v, v ≠ c.utterance → c'.sent v = c.sent v := fun v hv => hl.sent_other hv
  have hown := hl.own h.own (by simp [hplain])
  have hnow := fun hoverlap => hl.sent_now hoverlap (h.sent_now hoverlap)
  have hpending := hl.pending (by simp)
  have hsilent := hl.silent
  have hsources := hl.sources
  obtain ⟨sends, pending, source, rfl⟩ := hl.eq
  refine ⟨h.future, ?_, hown, h.running, h.buffered, ?_, hplain, ?_, ?_, ?_, h.lag, ?_, hnow, ?_⟩
  · intro v hv
    refine ⟨(h.later v hv).1, ?_⟩
    rw [← (h.later v hv).2]
    exact (hpieces v).trans (if_neg (Nat.ne_of_gt hv))
  · show (State.pieces_of _ c.utterance).map Piece.source ++ sources stage.todo =
      committed g.settings (c.partials c.utterance)
    rw [← hcurrent, ← hsources, ← List.append_assoc, ← List.map_append]
    congr 2
    exact (hpieces _).trans (if_pos rfl)
  · intro text hcalled
    obtain ⟨hrouted, hended, -⟩ := h.waiting text hcalled
    cases hended
  · intro text hrouted hcalled hflushing hended
    rw [← h.turn text hrouted hcalled hflushing hended]
    congr 2
    exact (hpieces _).trans (if_neg (hne hended))
  · intro v text hrouted hv
    have hother' : v ≠ c.utterance := by
      rintro rfl
      rw [hfate] at hrouted
      cases hrouted
    exact (h.done v text hrouted hv).frame ((hpieces v).trans (if_neg hother')) (hother v hother') rfl
  · have hold := h.pending
    dsimp only at hold hpending ⊢
    rw [hpending, hold]
    split
    · rfl
    · next hoverlap =>
      split
      · exact ((hpieces _).trans (if_pos rfl)).symm
      · next hended =>
        have hps : ps = [] := hnone (by simpa using hoverlap) hended
        have hkept : c.pieces_of c.handled ++ ps = c.pieces_of c.handled := by simp [hps]
        exact hkept.trans ((hpieces _).trans (if_neg (hne hended))).symm
  · intro hoverlap v hv
    rw [← h.sent_later hoverlap v hv]
    have hsends : sends = c.sends := hsilent hoverlap hplain
    simp [State.sent, hsends]

/-- The handler of an utterance goes on with its segments. -/
theorem Inv.utterance_loop (h : Inv g { c with utterance_stage := .speaking .broadcast evs })
    (hl : Looped g c.handled true c evs c' stage ps) :
    Inv g { c' with utterance_stage := stage } := by
  obtain ⟨hlt, text, hrouted⟩ := h.running (by simp)
  have hturn : (c.pieces_of c.handled).map Piece.source ++ sources evs =
    clauses g.settings (c.partials c.handled) text := h.turn text hrouted rfl rfl (by simp)
  have hlag : g.overlap = false → committed g.settings (c.partials c.utterance) = [] := fun hoverlap =>
    h.lag hoverlap (by simp)
  have hcurrent : (c.pieces_of c.utterance).map Piece.source ++ sources c.partial_stage.todo =
    committed g.settings (c.partials c.utterance) := h.current
  have hidle : g.overlap = false → c.pieces_of c.utterance = [] := by
    intro hoverlap
    rw [hlag hoverlap] at hcurrent
    simp only [List.append_eq_nil_iff, List.map_eq_nil_iff] at hcurrent
    exact hcurrent.1
  have hheld : c.pending_translation = if g.overlap then [] else c.pieces_of c.handled := by
    simpa [State.pieces_of] using h.pending
  have hunsent : g.overlap = false → c.sent c.handled = [] := fun hoverlap =>
    h.sent_later hoverlap c.handled fun _ _ => ⟨rfl, by simp, rfl⟩
  have hpieces := hl.pieces_of
  have hself : c'.pieces_of c.handled = c.pieces_of c.handled ++ ps := (hpieces _).trans (if_pos rfl)
  have hother : ∀ v, v ≠ c.handled → c'.sent v = c.sent v := fun v hv => hl.sent_other hv
  have hown := hl.own h.own fun hflushing p hp => by
    rw [hheld, if_neg (by simp [(hl.flushed hflushing).1])] at hp
    exact mem_pieces_of hp
  have hnow := fun hoverlap => hl.sent_now hoverlap (h.sent_now hoverlap)
  have hstarted := hl.started
  have hsilent := hl.silent
  have hsources := hl.sources
  -- at the end of its loop, everything of the utterance is sent, or it is blank
  have hdone : stage = .ended ∨ stage.is_flushing = true → c'.Done g c.handled text := by
    intro hstage
    have htodo : sources stage.todo = [] := by
      rcases hstage with rfl | hflushing
      · rfl
      · cases stage <;> cases hflushing
        rfl
    refine ⟨?_, ?_⟩
    · rw [hself, hl.partials, List.map_append, ← hturn, ← hsources, htodo, List.append_nil]
    · cases hoverlap : g.overlap with
      | true => exact hnow hoverlap _
      | false =>
        have hjoined : c.pending_translation ++ ps = c'.pieces_of c.handled := by
          rw [hheld, if_neg (by simp [hoverlap]), hself]
        have hold := hunsent hoverlap
        unfold State.sent at hold ⊢
        rcases hstage with hended | hflushing
        · have hblank := (hl.reset rfl hended).2 hoverlap
          rw [hl.silent hoverlap (by simp [hended, Stage.is_flushing]), hold]
          simp [outputs, hoverlap, ← hjoined, hblank]
        · obtain ⟨-, -, hsends, hblank⟩ := hl.flushed hflushing
          rw [hsends, List.filter_append, List.map_append, hold]
          simp [outputs, hoverlap, ← hjoined, hblank]
  have hpending := hl.pending
  have hreset := hl.reset
  obtain ⟨sends, pending, source, rfl⟩ := hl.eq
  have hframe : ∀ v, v ≠ c.handled → State.pieces_of _ v = c.pieces_of v := fun v hv =>
    (hpieces v).trans (if_neg hv)
  refine ⟨h.future, ?_, hown, fun _ => ⟨hlt, text, hrouted⟩, fun _ => h.buffered rfl, ?_, h.plain, ?_,
    ?_, ?_, ?_, ?_, hnow, ?_⟩
  · intro v hv
    refine ⟨(h.later v hv).1, ?_⟩
    rw [← (h.later v hv).2]
    exact hframe v (Nat.ne_of_gt (Nat.lt_trans hlt hv))
  · rw [← hcurrent]
    congr 2
    exact hframe _ (Nat.ne_of_gt hlt)
  · rintro text' rfl
    cases hstarted
  · intro text' hrouted' hcalled hflushing hended
    obtain rfl : text = text' := Fate.routed.inj (hrouted.symm.trans hrouted')
    rw [← hturn, ← hsources, ← List.append_assoc, ← List.map_append]
    congr 2
  · intro v text' hrouted' hv
    by_cases hvh : v = c.handled
    · subst hvh
      obtain rfl : text = text' := Fate.routed.inj (hrouted.symm.trans hrouted')
      exact (hdone (hv.resolve_left (not_not_intro rfl))).frame rfl rfl rfl
    · exact (h.done v text' hrouted' (Or.inl hvh)).frame (hframe v hvh) (hother v hvh) rfl
  · exact fun hoverlap _ => hlag hoverlap
  · dsimp only at hpending hreset hheld ⊢
    by_cases hended : stage = .ended
    · rw [(hreset rfl hended).1]
      split
      · rfl
      · next hoverlap =>
        rw [← hidle (by simpa using hoverlap)]
        exact (hframe _ (Nat.ne_of_gt hlt)).symm
    · rw [hpending (by simp [hended]), hheld]
      split
      · rfl
      · exact hself.symm
  · intro hoverlap v hv
    by_cases hvh : v = c.handled
    · subst hvh
      obtain ⟨-, -, hflushing⟩ := hv text hrouted
      have hsends : sends = c.sends := hsilent hoverlap hflushing
      rw [← hunsent hoverlap, State.sent, hsends, State.sent]
    · exact (hother v hvh).trans
        (h.sent_later hoverlap v fun text' hrouted' => absurd (hv text' hrouted').1 hvh)

/-! ### Steps -/

theorem inv_init : Inv g State.init where
  future _ _ := rfl
  later _ _ := ⟨rfl, rfl⟩
  own := by simp [State.init]
  running := by simp [State.init]
  buffered _ := ⟨rfl, rfl, rfl⟩
  current := rfl
  plain := rfl
  waiting := by simp [State.init]
  turn := by simp [State.init]
  done := by simp [State.init]
  lag := by simp [State.init]
  pending := by simp [State.init, State.pieces_of]
  sent_now := by simp +contextual [State.init, State.sent, State.pieces_of, outputs]
  sent_later := by simp [State.init, State.sent]

/-- Where nothing is left to translate, the pieces are what was committed. -/
theorem Inv.settled (h : Inv g c) (hidle : c.partial_stage = .ended) :
    (c.pieces_of c.utterance).map Piece.source = committed g.settings (c.partials c.utterance) := by
  simpa [hidle, Stage.todo, sources] using h.current

/-- Nothing was translated of an utterance that nothing was committed in. -/
theorem Inv.untouched (h : Inv g c) (hnone : committed g.settings (c.partials c.utterance) = []) :
    c.pieces_of c.utterance = [] := by
  have hcurrent := h.current
  rw [hnone] at hcurrent
  simp only [List.append_eq_nil_iff, List.map_eq_nil_iff] at hcurrent
  exact hcurrent.1

/-- A partial is pushed. -/
theorem Inv.pushed {text : Text} (h : Inv g c) (hidle : c.partial_stage = .ended)
    (hcalled : c.utterance_stage.is_called = false)
    (hquiet : g.overlap = false → c.utterance_stage ≠ .ended →
      (c.committer.push_partial g.settings text).2 = []) :
    Inv g { c with
      committer := (c.committer.push_partial g.settings text).1
      partials := fun v => if v = c.utterance then c.partials v ++ [text] else c.partials v
      partial_stage := .speaking .broadcast (c.committer.push_partial g.settings text).2 } := by
  obtain ⟨hbuffered, hsources⟩ := Committer.SameTexts.push_partial (h.buffered hcalled) text
  have hcommitted : committed g.settings (c.partials c.utterance ++ [text]) =
      committed g.settings (c.partials c.utterance) ++
        sources (c.committer.push_partial g.settings text).2 := by
    rw [committed_concat, hsources]
  have hrouted : ∀ v text', c.fate v = .routed text' → v ≠ c.utterance := by
    rintro v text' hv rfl
    rw [h.future _ (Nat.le_refl _)] at hv
    cases hv
  refine ⟨h.future, ?_, h.own, h.running, ?_, ?_, rfl, ?_, ?_, ?_, ?_, h.pending, h.sent_now,
    h.sent_later⟩
  · intro v hv
    exact ⟨by simpa [Nat.ne_of_gt hv] using (h.later v hv).1, (h.later v hv).2⟩
  · intro _
    simpa [push_all_concat] using hbuffered
  · simp only [if_true, hcommitted]
    rw [← h.settled hidle]
    rfl
  · intro text' hcalled'
    simp only at hcalled'
    rw [hcalled'] at hcalled
    cases hcalled
  · intro text' hfate hcalled' hflushing hended
    show (c.pieces_of c.handled).map Piece.source ++ sources c.utterance_stage.todo =
      clauses g.settings (if c.handled = c.utterance then _ else c.partials c.handled) text'
    rw [if_neg (hrouted _ _ hfate)]
    exact h.turn text' hfate hcalled' hflushing hended
  · intro v text' hfate hv
    exact (h.done v text' hfate hv).frame rfl rfl (if_neg (hrouted v text' hfate))
  · intro hoverlap hended
    simp only [if_true, hcommitted, h.lag hoverlap hended, hquiet hoverlap hended]
    rfl

/-- A handler that waits goes on waiting. -/
theorem Inv.repartial {s : Stage} (h : Inv g c) (hne : c.partial_stage ≠ .ended)
    (htodo : s.todo = c.partial_stage.todo) (hs : s.is_flushing = false) :
    Inv g { c with partial_stage := s } where
  future := h.future
  later := h.later
  own := h.own
  running := h.running
  buffered := h.buffered
  current := by
    show _ ++ sources s.todo = _
    rw [htodo]
    exact h.current
  plain := hs
  waiting text hcalled := absurd (h.waiting text hcalled).2.1 hne
  turn := h.turn
  done v text hfate hv := (h.done v text hfate hv).frame rfl rfl rfl
  lag := h.lag
  pending := h.pending
  sent_now := h.sent_now
  sent_later := h.sent_later

theorem Inv.restage {s : Stage} (h : Inv g c) (hcalled : c.utterance_stage.is_called = false)
    (hended : c.utterance_stage ≠ .ended) (hs : s.is_called = false) (hs' : s ≠ .ended)
    (hflushing : s.is_flushing = c.utterance_stage.is_flushing)
    (htodo : s.todo = c.utterance_stage.todo) : Inv g { c with utterance_stage := s } where
  future := h.future
  later := h.later
  own := h.own
  running _ := h.running hended
  buffered _ := h.buffered hcalled
  current := h.current
  plain := h.plain
  waiting := by
    rintro text rfl
    cases hs
  turn text hfate _ hflushing' _ := by
    rw [← h.turn text hfate hcalled (hflushing ▸ hflushing') hended, ← htodo]
    rfl
  done v text hfate hv := by
    refine (h.done v text hfate ?_).frame rfl rfl rfl
    rw [← hflushing]
    exact hv.imp_right fun hv => Or.inr (hv.resolve_left hs')
  lag hoverlap _ := h.lag hoverlap hended
  pending := by
    have hold := h.pending
    rw [if_neg hended] at hold
    simpa [hs', State.pieces_of] using hold
  sent_now := h.sent_now
  sent_later hoverlap v hv := by
    refine h.sent_later hoverlap v fun text hfate => ?_
    obtain ⟨hvh, -, hv⟩ := hv text hfate
    exact ⟨hvh, hended, hflushing ▸ hv⟩

/-- The utterance is dropped, and nothing of it was heard. -/
theorem Inv.dropped (h : Inv g c) (hidle : c.partial_stage = .ended)
    (hnone : c.partials c.utterance = []) : Inv g (c.close .dropped) := by
  have hnext := h.later (c.utterance + 1) (Nat.lt_succ_self _)
  have hpieces : c.pieces_of c.utterance = [] := h.untouched (by rw [hnone]; rfl)
  have hfate : ∀ v text, (c.close .dropped).fate v = .routed text → c.fate v = .routed text := by
    intro v text hv
    simp only [State.close] at hv
    split at hv
    · cases hv
    · exact hv
  have hold : c.utterance_stage ≠ .ended → c.handled ≠ c.utterance := fun hs =>
    Nat.ne_of_lt (h.running hs).1
  refine ⟨?_, ?_, h.own, ?_, ?_, ?_, h.plain, ?_, ?_, ?_, ?_, ?_, h.sent_now, ?_⟩
  · intro v hv
    simpa [State.close, Nat.ne_of_gt (Nat.lt_of_succ_le hv)] using h.future v (Nat.le_of_succ_le hv)
  · exact fun v hv => h.later v (Nat.lt_of_succ_lt hv)
  · intro hs
    obtain ⟨hlt, text, htext⟩ := h.running hs
    exact ⟨Nat.lt_succ_of_lt hlt, text, by simpa [State.close, hold hs] using htext⟩
  · intro hcalled
    have hsame := h.buffered hcalled
    rw [hnone] at hsame
    simpa [State.close, hnext.1] using hsame
  · show (c.pieces_of (c.utterance + 1)).map Piece.source ++ sources c.partial_stage.todo =
      committed g.settings (c.partials (c.utterance + 1))
    rw [hnext.1, hnext.2, hidle]
    rfl
  · intro text hcalled
    obtain ⟨htext, -, -, hrest⟩ := h.waiting text hcalled
    refine ⟨?_, hidle, hnext.1, hrest⟩
    have hne := hold (by rw [show c.utterance_stage = _ from hcalled]; simp)
    simpa [State.close, hne] using htext
  · exact fun text htext => h.turn text (hfate _ _ htext)
  · exact fun v text htext hv => (h.done v text (hfate _ _ htext) hv).frame rfl rfl rfl
  · intro _ _
    show committed g.settings (c.partials (c.utterance + 1)) = []
    rw [hnext.1]
    rfl
  · have hpending := h.pending
    rw [hpieces] at hpending
    show c.pending_translation = if g.overlap then [] else
      if c.utterance_stage = .ended then c.pieces_of (c.utterance + 1) else c.pieces_of c.handled
    rw [hpending, hnext.2]
  · intro hoverlap v hv
    refine h.sent_later hoverlap v fun text htext => hv text ?_
    have hne : v ≠ c.utterance := by
      rintro rfl
      rw [h.future _ (Nat.le_refl _)] at htext
      cases htext
    simpa [State.close, hne] using htext

/-- The final of the utterance is routed to its handler, while no other one runs. -/
theorem Inv.routed {text : Text} (h : Inv g c) (hidle : c.partial_stage = .ended)
    (hended : c.utterance_stage = .ended) : Inv g { c.close (.routed text) with
      utterance_stage := .called text, handled := c.utterance } := by
  have hnext := h.later (c.utterance + 1) (Nat.lt_succ_self _)
  have hunsent : g.overlap = false → c.sent c.utterance = [] := fun hoverlap =>
    h.sent_later hoverlap _ fun text' htext => by
      rw [h.future _ (Nat.le_refl _)] at htext
      cases htext
  refine ⟨?_, ?_, h.own, ?_, ?_, ?_, h.plain, ?_, ?_, ?_, ?_, ?_, h.sent_now, ?_⟩
  · intro v hv
    simpa [State.close, Nat.ne_of_gt (Nat.lt_of_succ_le hv)] using h.future v (Nat.le_of_succ_le hv)
  · exact fun v hv => h.later v (Nat.lt_of_succ_lt hv)
  · exact fun _ => ⟨Nat.lt_succ_self _, text, by simp [State.close]⟩
  · rintro ⟨⟩
  · show (c.pieces_of (c.utterance + 1)).map Piece.source ++ sources c.partial_stage.todo =
      committed g.settings (c.partials (c.utterance + 1))
    rw [hnext.1, hnext.2, hidle]
    rfl
  · rintro text' heq
    cases heq
    exact ⟨by simp [State.close], hidle, hnext.1, h.buffered (by rw [hended]; rfl), h.settled hidle⟩
  · rintro text' - ⟨⟩
  · intro v text' htext hv
    have hne : v ≠ c.utterance := by
      rcases hv with hv | hv | hv
      · exact hv
      · cases hv
      · cases hv
    refine (h.done v text' ?_ (Or.inr (Or.inl hended))).frame rfl rfl rfl
    simpa [State.close, hne] using htext
  · intro _ _
    show committed g.settings (c.partials (c.utterance + 1)) = []
    rw [hnext.1]
    rfl
  · have hpending := h.pending
    rw [if_pos hended] at hpending
    simpa [State.close, State.pieces_of] using hpending
  · intro hoverlap v hv
    by_cases hvu : v = c.utterance
    · subst hvu
      exact hunsent hoverlap
    · refine h.sent_later hoverlap v fun text' htext => ?_
      exact absurd (hv text' (by simpa [State.close, hvu] using htext)).1 hvu

/-- The task of the handler begins. -/
theorem Inv.begun {text : Text} (h : Inv g c) (hcalled : c.utterance_stage = .called text) :
    Inv g { c with
      committer := (c.committer.finalize text).1
      utterance_stage := .speaking .broadcast (c.committer.finalize text).2 } := by
  have hne : c.utterance_stage ≠ .ended := by simp [hcalled]
  obtain ⟨hrouted, hidle, hnone, hsame, hpieces⟩ := h.waiting text hcalled
  refine ⟨h.future, h.later, h.own, fun _ => h.running hne, ?_, h.current, h.plain, ?_, ?_, ?_, ?_, ?_,
    h.sent_now, ?_⟩
  · intro _
    show (c.committer.finalize text).1.SameTexts (Committer.init.push_all g.settings
      (c.partials c.utterance)).1
    rw [hnone]
    exact finalize_init text
  · rintro text' ⟨⟩
  · intro text' hrouted' _ _ _
    obtain rfl : text = text' := Fate.routed.inj (hrouted.symm.trans hrouted')
    show (c.pieces_of c.handled).map Piece.source ++ sources (c.committer.finalize text).2 = _
    rw [hpieces, hsame.finalize text]
    rfl
  · intro v text' htext hv
    have hvh : v ≠ c.handled := by
      rcases hv with hv | hv | hv
      · exact hv
      · cases hv
      · cases hv
    exact (h.done v text' htext (Or.inl hvh)).frame rfl rfl rfl
  · intro hoverlap _
    exact h.lag hoverlap hne
  · have hpending := h.pending
    rw [if_neg hne] at hpending
    simpa [State.pieces_of] using hpending
  · intro hoverlap v hv
    exact h.sent_later hoverlap v fun text' htext =>
      ⟨(hv text' htext).1, hne, by rw [hcalled]; rfl⟩

/-- The utterance is taken for an echo. -/
theorem Inv.echoed {text : Text} (h : Inv g c) (hcalled : c.utterance_stage = .called text) :
    Inv g { c with
      committer := (c.committer.finalize text).1
      pending_translation := []
      pending_source := []
      fate := fun v => if v = c.handled then .dropped else c.fate v
      utterance_stage := .ended } := by
  have hne : c.utterance_stage ≠ .ended := by simp [hcalled]
  obtain ⟨hlt, -⟩ := h.running hne
  obtain ⟨-, -, hnone, -⟩ := h.waiting text hcalled
  have hpieces : c.pieces_of c.utterance = [] := h.untouched (by rw [hnone]; rfl)
  refine ⟨?_, h.later, h.own, ?_, ?_, h.current, h.plain, ?_, ?_, ?_, ?_, ?_, h.sent_now, ?_⟩
  · intro v hv
    have hvh : v ≠ c.handled := Nat.ne_of_gt (Nat.lt_of_lt_of_le hlt hv)
    simpa [hvh] using h.future v hv
  · exact fun hended => absurd rfl hended
  · intro _
    show (c.committer.finalize text).1.SameTexts (Committer.init.push_all g.settings
      (c.partials c.utterance)).1
    rw [hnone]
    exact finalize_init text
  · rintro text' ⟨⟩
  · exact fun _ _ _ _ hended => absurd rfl hended
  · intro v text' htext _
    by_cases hvh : v = c.handled
    · simp [hvh] at htext
    · exact (h.done v text' (by simpa [hvh] using htext) (Or.inl hvh)).frame rfl rfl rfl
  · exact fun _ hended => absurd rfl hended
  · cases hoverlap : g.overlap with
    | true => rfl
    | false => exact hpieces.symm
  · intro hoverlap v hv
    refine h.sent_later hoverlap v fun text' htext => ?_
    by_cases hvh : v = c.handled
    · exact ⟨hvh, hne, by rw [hcalled]; rfl⟩
    · exact absurd rfl (hv text' (by simpa [hvh] using htext)).2.1

/-- What was pending is sent, and the handler returns. -/
theorem Inv.flushed {a : Await} (h : Inv g c) (hflushing : c.utterance_stage = .flushing a) :
    Inv g { c.reset_pending with utterance_stage := .ended } := by
  have hne : c.utterance_stage ≠ .ended := by simp [hflushing]
  have hflushing' : c.utterance_stage.is_flushing = true := by rw [hflushing]; rfl
  refine ⟨h.future, h.later, h.own, fun hended => absurd rfl hended,
    fun _ => h.buffered (by rw [hflushing]; rfl), h.current, h.plain, ?_,
    fun _ _ _ _ hended => absurd rfl hended, ?_, fun _ hended => absurd rfl hended, ?_, h.sent_now, ?_⟩
  · rintro text ⟨⟩
  · intro v text htext _
    exact (h.done v text htext (Or.inr (Or.inr hflushing'))).frame rfl rfl rfl
  · cases hoverlap : g.overlap with
    | true => rfl
    | false => exact (h.untouched (h.lag hoverlap hne)).symm
  · intro hoverlap v hv
    exact h.sent_later hoverlap v fun text htext => absurd rfl (hv text htext).2.1

theorem Inv.resumed_partial {text : Text} {r : State × Stage} (h : Inv g c)
    (hstep : c.resume g c.utterance false c.partial_stage text = some r) :
    Inv g { r.1 with partial_stage := r.2 } := by
  have hplain := h.plain
  have hne : c.partial_stage ≠ .ended := by
    intro heq
    rw [heq] at hstep
    cases hstep
  generalize hstage : c.partial_stage = stage at hstep
  cases stage with
  | called text' => cases hstep
  | translating ev rest =>
    cases hstep
    obtain ⟨ps, hl⟩ := looped g c.utterance false c (ev :: rest) (some text)
    exact (h.repartial hne (by rw [hstage]; rfl) rfl).partial_loop hl
  | speaking a rest =>
    cases a with
    | send_text => cases hstep; exact h.repartial hne (by rw [hstage]; rfl) rfl
    | flush_tts => cases hstep; exact h.repartial hne (by rw [hstage]; rfl) rfl
    | broadcast =>
      cases hstep
      obtain ⟨ps, hl⟩ := looped g c.utterance false c rest none
      exact (h.repartial (s := .speaking .broadcast rest) hne (by rw [hstage]) rfl).partial_loop hl
  | flushing a =>
    rw [hstage] at hplain
    cases hplain
  | ended => exact absurd hstage hne

theorem Inv.resumed_utterance {text : Text} {r : State × Stage} (h : Inv g c)
    (hstep : c.resume g c.handled true c.utterance_stage text = some r) :
    Inv g { r.1 with utterance_stage := r.2 } := by
  generalize hstage : c.utterance_stage = stage at hstep
  have hrestage : ∀ s : Stage, c.utterance_stage.is_called = false → c.utterance_stage ≠ .ended →
      s.is_called = false → s ≠ .ended → s.is_flushing = c.utterance_stage.is_flushing →
      s.todo = c.utterance_stage.todo → Inv g { c with utterance_stage := s } :=
    fun s => h.restage
  rw [hstage] at hrestage
  cases stage with
  | called text' => cases hstep
  | translating ev rest =>
    cases hstep
    obtain ⟨ps, hl⟩ := looped g c.handled true c (ev :: rest) (some text)
    exact (hrestage (.speaking .broadcast (ev :: rest)) rfl (by simp) rfl (by simp) rfl
      rfl).utterance_loop hl
  | speaking a rest =>
    cases a with
    | send_text => cases hstep; exact hrestage _ rfl (by simp) rfl (by simp) rfl rfl
    | flush_tts => cases hstep; exact hrestage _ rfl (by simp) rfl (by simp) rfl rfl
    | broadcast =>
      cases hstep
      obtain ⟨ps, hl⟩ := looped g c.handled true c rest none
      exact (hrestage (.speaking .broadcast rest) rfl (by simp) rfl (by simp) rfl rfl).utterance_loop hl
  | flushing a =>
    cases a with
    | send_text => cases hstep; exact hrestage _ rfl (by simp) rfl (by simp) rfl rfl
    | flush_tts => cases hstep; exact hrestage _ rfl (by simp) rfl (by simp) rfl rfl
    | broadcast => cases hstep; exact h.flushed hstage
  | ended => cases hstep

theorem Inv.heard {text : Text} (h : Inv g c) (hidle : c.partial_stage = .ended)
    (hapart : apart g c (Label.asr_partial text false) = true) :
    Inv g (State.at_partial (c.on_user_partial g text)) := by
  have hcalled : c.utterance_stage.is_called = false := by
    cases hstage : c.utterance_stage <;> simp_all [apart, Stage.is_called]
  have hquiet : g.overlap = false → c.utterance_stage ≠ .ended →
      (c.committer.push_partial g.settings text).2 = [] := by
    intro hoverlap hended
    simp only [apart, Bool.false_or] at hapart
    split at hapart
    · cases hapart
    · next heq => exact absurd heq hended
    · simpa [hoverlap] using hapart
  obtain ⟨ps, hl⟩ := looped g c.utterance false
    { c with
      committer := (c.committer.push_partial g.settings text).1
      partials := fun v => if v = c.utterance then c.partials v ++ [text] else c.partials v }
    (c.committer.push_partial g.settings text).2 none
  have hpushed := (h.pushed hidle hcalled hquiet)
  exact Inv.partial_loop (c := { c with
      committer := (c.committer.push_partial g.settings text).1
      partials := fun v => if v = c.utterance then c.partials v ++ [text] else c.partials v })
    hpushed hl

theorem Inv.finished {text : Text} {asleep duplicate : Bool} (h : Inv g c)
    (hidle : c.partial_stage = .ended)
    (hapart : apart g c (.asr_final asleep duplicate text) = true) :
    Inv g (c.dispatch_final g asleep duplicate text) := by
  unfold State.dispatch_final
  split
  · next hasleep => exact h.dropped hidle (by simpa [apart, hasleep] using hapart)
  · next hasleep =>
    split
    · exact h
    · next hduplicate =>
      simp only [apart, hasleep, hduplicate, Bool.not_false, Bool.and_false, Bool.false_or] at hapart
      split
      · next hsignal =>
        rw [if_pos hsignal] at hapart
        exact h.dropped hidle (by simpa using hapart)
      · next hsignal =>
        rw [if_neg hsignal] at hapart
        simp only [Bool.and_eq_true, decide_eq_true_eq, Bool.or_eq_true, Bool.not_eq_true'] at hapart
        obtain ⟨hended, hstop⟩ := hapart
        split
        · next hintent =>
          have hnone : c.partials c.utterance = [] := hstop.resolve_left (by simp [hintent])
          have hkept : { c.close .dropped with utterance_stage := .ended } = c.close .dropped := by
            simp [State.close, hended]
          rw [hkept]
          exact h.dropped hidle hnone
        · exact h.routed hidle hended

theorem inv_step {a : Label} (h : Inv g c) (hapart : apart g c a = true) (hstep : step g c a c') :
    Inv g c' := by
  cases a with
  | asr_partial text echo =>
    simp only [step, State.next] at hstep
    split at hstep
    · cases hstep
    · next hidle =>
      split at hstep
      · cases hstep
        exact h
      · next hecho =>
        cases hstep
        rw [Bool.not_eq_true] at hecho
        subst hecho
        exact h.heard (not_not.1 hidle) hapart
  | asr_final asleep duplicate text =>
    simp only [step, State.next] at hstep
    split at hstep
    · cases hstep
    · next hidle =>
      cases hstep
      exact h.finished (not_not.1 hidle) hapart
  | begin echo =>
    simp only [step, State.next] at hstep
    split at hstep
    · next text hcalled =>
      cases hstep
      cases echo with
      | true => exact h.echoed hcalled
      | false =>
        obtain ⟨ps, hl⟩ := looped g c.handled true
          { c with committer := (c.committer.finalize text).1 } (c.committer.finalize text).2 none
        exact Inv.utterance_loop (c := { c with committer := (c.committer.finalize text).1 })
          (h.begun hcalled) hl
    · cases hstep
  | resume_partial answer =>
    cases answer with
    | none => cases hapart
    | some text =>
      obtain ⟨r, hr, rfl⟩ := Option.map_eq_some_iff.1 hstep
      exact h.resumed_partial hr
  | resume_utterance answer =>
    cases answer with
    | none => cases hapart
    | some text =>
      obtain ⟨r, hr, rfl⟩ := Option.map_eq_some_iff.1 hstep
      exact h.resumed_utterance hr
  | cancel =>
    cases hstep
    have hended : c.utterance_stage = .ended := by simpa [apart] using hapart
    have hkept : { c with utterance_stage := .ended } = c := by simp [← hended]
    rw [hkept]
    exact h

end

/-! Where the steps keep the invariant, every utterance has its own clauses in its own output, each
    translated and sent once. -/

/-! ### Utterances apart -/

/-- Nothing is sent in another utterance's output. An utterance whose handler has returned has its
    clauses, as a committer finds them that has heard this utterance alone, each translated and sent
    once. -/
structure State.Apart (g : Config) (c : State) : Prop where
  own : ∀ s ∈ c.sends, ∀ p ∈ s.pieces, p.utterance = s.utterance
  exactly : ∀ u text, c.fate u = .routed text → u ≠ c.handled ∨ c.utterance_stage = .ended →
    c.Done g u text

/-- In every run whose steps all meet the condition, utterances are kept apart. -/
theorem utterances_apart (g : Config) {as : List Label} {c : State}
    (hrun : Run (restrict (fun c a => apart g c a = true) (step g)) State.init as c) : c.Apart g := by
  have hinv : Inv g c := by
    refine Run.invariant (I := Inv g) ?_ inv_init hrun
    rintro c a c' h ⟨hapart, hstep⟩
    exact inv_step h hapart hstep
  exact ⟨hinv.own, fun u text hfate hv => hinv.done u text hfate (hv.imp_right Or.inl)⟩

/-- The app as it is configured for tests: two partials agree, and "um" has no signal. -/
def sample (overlap : Bool) : Config :=
  ⟨2, by decide, 1, overlap, fun text => text = "um".toList, fun text => text = "stop".toList⟩

/-- A clause is translated during the partials, and the utterance is spoken at its final. -/
theorem utterances_apart_lag : ∃ c : State, c.Apart (sample false) ∧
    c.sends.map (fun s => text_of s.pieces) = ["HELLO, WORLD".toList] := by
  obtain ⟨c, hrun, hc⟩ := Run.of_replay_any
    (fun c a => if apart (sample false) c a = true then c.next (sample false) a else none) State.init
    [Label.asr_partial "hello, ".toList false, Label.resume_partial (some "HELLO,".toList),
      .asr_final false false "hello, world".toList, .begin false,
      .resume_utterance (some " WORLD".toList), .resume_utterance (some []),
      .resume_utterance (some []), .resume_utterance (some [])]
    (fun c => c.sends.map (fun s => text_of s.pieces) = ["HELLO, WORLD".toList]) (by decide +kernel)
  exact ⟨c, utterances_apart _ (Run.restrict_mono hrun), of_decide_eq_true hc⟩

/-- The clause of an utterance whose final has no signal is spoken with the next utterance; and a clause
    whose translation raises is not translated again. -/
theorem utterances_mixed :
    (¬ ∀ as c, Run (step (sample false)) State.init as c → ∀ s ∈ c.sends, ∀ p ∈ s.pieces,
      p.utterance = s.utterance) ∧
    ¬ ∀ as c, Run (step (sample true)) State.init as c → ∀ u text, c.fate u = .routed text →
      c.utterance_stage = .ended → c.Done (sample true) u text := by
  refine ⟨fun hall => ?_, fun hall => ?_⟩
  · obtain ⟨c, hrun, hc⟩ := Run.of_replay_any (State.next (sample false)) State.init
      [Label.asr_partial "well, ".toList false, Label.resume_partial (some "WELL,".toList),
        .asr_final false false "um".toList, .asr_final false false "hello, world".toList,
        .begin false, .resume_utterance (some " WORLD".toList)]
      (fun c => c.sends.any fun s => s.pieces.any fun p => p.utterance ≠ s.utterance)
      (by decide +kernel)
    obtain ⟨s, hs, hany⟩ := List.any_eq_true.1 hc
    obtain ⟨p, hp, hne⟩ := List.any_eq_true.1 hany
    exact of_decide_eq_true hne (hall _ c hrun s hs p hp)
  · obtain ⟨c, hrun, hc⟩ := Run.of_replay_any (State.next (sample true)) State.init
      [Label.asr_partial "well, ".toList false, Label.resume_partial none,
        .asr_final false false "well, hello".toList, .begin false,
        .resume_utterance (some "HELLO".toList), .resume_utterance (some []),
        .resume_utterance (some []), .resume_utterance (some [])]
      (fun c => c.fate 0 = .routed "well, hello".toList && c.utterance_stage = .ended &&
        (c.pieces_of 0).length = 1 &&
        (clauses (sample true).settings (c.partials 0) "well, hello".toList).length = 2)
      (by decide +kernel)
    simp only [Bool.and_eq_true, decide_eq_true_eq] at hc
    obtain ⟨⟨⟨hfate, hended⟩, hpieces⟩, hclauses⟩ := hc
    have hlength := congrArg List.length (hall _ c hrun 0 _ hfate hended).translated
    rw [List.length_map, hpieces, hclauses] at hlength
    cases hlength

end LocalVoice.SimulInterpret
