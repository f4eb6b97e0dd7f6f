import LocalVoice.RK1828.Aligned

/-! Requests get their own tokens while the worker's pieces are within the bound. A longer piece makes
    its request fail with the piece unread, and the next request reads it as frames
    (`tokens_crossed`). -/

namespace LocalVoice.RK1828
open LocalVoice.Lib

/-- The request came to its EOS marker. -/
def Call.complete (c : Call) : Bool := c.phase == .leaving true || c.phase == .ended true

/-- What was put for the request, and delivered, is the decoding of frames of its own answer, from
    the first one on, and of all of them when it came to its EOS marker. -/
def Call.OwnTokens (c : Call) : Prop :=
  c.delivered <+: c.put ∧
    if c.complete then c.answered = true ∧ c.put = Utf8.all_texts c.frames
    else ∃ read, read <+: c.frames ∧ c.put = Utf8.texts none read

/-- The texts that were put for request `r`. -/
def World.put (s : World) (r : ℕ) : List (List Char) := (s.calls[r]?.map Call.put).getD []

section
variable {s t : World} {a : Act} {r : ℕ} {c c' : Call}

theorem World.put_set (hc : s.calls[r]? = some c) (hput : c'.put = c.put) (hcalls : t.calls = s.calls.set r c')
    (i : ℕ) : t.put i = s.put i := by
  unfold World.put
  rw [hcalls]
  by_cases heq : r = i
  · subst heq
    rw [List.getElem?_set_self (lt_length_of_get hc), hc]
    exact hput
  · rw [List.getElem?_set_ne heq]

theorem World.Aligned.own (h : s.Aligned) (hc : s.calls[r]? = some c) : c.OwnTokens := by
  refine ⟨List.prefix_append _ _, ?_⟩
  have hsettled := h.settled r c hc
  unfold Call.Settled at hsettled
  have hreads : c.phase.reads = true → ∃ read, read <+: c.frames ∧ c.put = Utf8.texts none read := by
    intro hreads
    obtain ⟨rest, hrest, -⟩ := h.reader r c hc hreads
    cases hrest with
    | header _ hframes hput => exact ⟨_, hframes ▸ List.prefix_append _ _, hput⟩
    | body _ hframes hput => exact ⟨_, hframes ▸ List.prefix_append _ _, hput⟩
  cases hphase : c.phase with
  | waiting | locked =>
    rw [hphase] at hsettled
    rw [if_neg (by simp [Call.complete, hphase])]
    exact ⟨[], List.nil_prefix, hsettled.2.2.2⟩
  | header dec =>
    rw [if_neg (by simp [Call.complete, hphase])]
    exact hreads (by rw [hphase]; rfl)
  | body n dec =>
    rw [if_neg (by simp [Call.complete, hphase])]
    exact hreads (by rw [hphase]; rfl)
  | leaving b | ended b =>
    rw [hphase] at hsettled
    cases b with
    | true =>
      rw [if_pos (by simp [Call.complete, hphase])]
      exact hsettled
    | false =>
      rw [if_neg (by simp [Call.complete, hphase])]
      exact hsettled

theorem World.no_reader_set (hc : s.calls[r]? = some c) (hno : s.NoReader)
    (hcalls : t.calls = s.calls.set r c') (hreads : c'.phase.reads = false) : t.NoReader := by
  intro i d hd
  rw [hcalls] at hd
  rcases (get_set_iff hc).1 hd with ⟨-, rfl⟩ | ⟨-, hd⟩
  · exact hreads
  · exact hno i d hd

/-- With a dead worker and nobody reading, no text is put any more. -/
theorem World.dead_step (hal : s.alive = false) (hno : s.NoReader) (hst : s.next a = some t) :
    t.alive = false ∧ t.NoReader ∧ ∀ i, t.put i = s.put i := by
  have hset : ∀ {u : World} {r : ℕ} {c c' : Call}, s.calls[r]? = some c → u.alive = false →
      u.calls = s.calls.set r c' → c'.put = c.put → c'.phase.reads = false →
      u.alive = false ∧ u.NoReader ∧ ∀ i, u.put i = s.put i :=
    fun hc hal' hcalls hput hreads => ⟨hal', no_reader_set hc hno hcalls hreads, put_set hc hput hcalls⟩
  cases a with
  | generate =>
    obtain rfl := Option.some.inj hst
    refine ⟨hal, ?_, ?_⟩
    · intro i d hd
      rcases get_concat_iff.1 hd with hd | ⟨-, rfl⟩
      · exact hno i d hd
      · rfl
    · intro i
      unfold World.put
      rcases Nat.lt_trichotomy i s.calls.length with hi | rfl | hi
      · rw [List.getElem?_append_left hi]
      · simp [Call.put, Call.init]
      · rw [List.getElem?_eq_none (by simp; omega), List.getElem?_eq_none (Nat.le_of_lt hi)]
  | acquire r =>
    obtain ⟨c, hc, hst⟩ := Option.bind_eq_some_iff.1 hst
    obtain ⟨-, hst⟩ := Option.ite_none_right_eq_some.1 hst
    obtain rfl := Option.some.inj hst
    exact hset hc hal rfl rfl rfl
  | fail r =>
    obtain ⟨c, hc, hst⟩ := Option.bind_eq_some_iff.1 hst
    obtain ⟨-, hst⟩ := Option.ite_none_right_eq_some.1 hst
    obtain rfl := Option.some.inj hst
    exact hset hc hal rfl rfl rfl
  | write r =>
    obtain ⟨c, hc, hst⟩ := Option.bind_eq_some_iff.1 hst
    obtain ⟨⟨-, hal'⟩, -⟩ := Option.ite_none_right_eq_some.1 hst
    exact absurd (hal.symm.trans hal') (by simp)
  | read r =>
    obtain ⟨c, hc, hst⟩ := Option.bind_eq_some_iff.1 hst
    have hreads := hno r c hc
    cases hphase : c.phase <;> simp_all [World.read, Phase.reads]
  | eof r =>
    obtain ⟨c, hc, hst⟩ := Option.bind_eq_some_iff.1 hst
    obtain ⟨⟨-, hlt⟩, -⟩ := Option.ite_none_right_eq_some.1 hst
    have hreads := hno r c hc
    cases hphase : c.phase <;> simp_all [World.needs, Phase.reads]
  | finish r =>
    obtain ⟨c, hc, hst⟩ := Option.bind_eq_some_iff.1 hst
    split at hst
    · next complete hphase =>
      obtain rfl := Option.some.inj hst
      refine hset hc hal rfl ?_ rfl
      cases complete <;> simp [Call.put, Item.piece]
    · cases hst
  | get r =>
    obtain ⟨c, hc, hst⟩ := Option.bind_eq_some_iff.1 hst
    obtain ⟨c', hget, rfl⟩ := Option.map_eq_some_iff.1 hst
    obtain ⟨hput, hphase, -⟩ := get_fields hget
    exact hset hc hal rfl hput (hphase ▸ hno r c hc)
  | stop r =>
    obtain ⟨c, hc, rfl⟩ := Option.map_eq_some_iff.1 hst
    exact hset hc hal rfl rfl (hno r c hc)
  | take_line =>
    simp only [World.next] at hst
    split at hst
    · obtain ⟨⟨hal', -⟩, -⟩ := Option.ite_none_right_eq_some.1 hst
      exact absurd (hal.symm.trans hal') (by simp)
    · cases hst
  | emit piece =>
    obtain ⟨r, -, hst⟩ := Option.bind_eq_some_iff.1 hst
    obtain ⟨c, -, hst⟩ := Option.bind_eq_some_iff.1 hst
    obtain ⟨⟨hal', -⟩, -⟩ := Option.ite_none_right_eq_some.1 hst
    exact absurd (hal.symm.trans hal') (by simp)
  | emit_eos =>
    obtain ⟨r, -, hst⟩ := Option.bind_eq_some_iff.1 hst
    obtain ⟨c, -, hst⟩ := Option.bind_eq_some_iff.1 hst
    obtain ⟨⟨hal', -⟩, -⟩ := Option.ite_none_right_eq_some.1 hst
    exact absurd (hal.symm.trans hal') (by simp)
  | flush n =>
    obtain rfl := Option.some.inj hst
    exact ⟨hal, hno, fun i => rfl⟩
  | die =>
    obtain rfl := Option.some.inj hst
    exact ⟨rfl, hno, fun i => rfl⟩

/-- After a request whose line was written ended before its EOS marker, no text is put any more. -/
theorem World.Aligned.broken_run (h : s.Aligned) (hbroken : ∃ c ∈ s.calls, c.Broken) {as : List Act}
    (hrun : Run Fitting s as t) : ∀ i, t.put i = s.put i := by
  obtain ⟨c, hc, hb⟩ := hbroken
  obtain ⟨r, hc⟩ := List.mem_iff_getElem?.1 hc
  obtain ⟨hal, hno⟩ := h.broken r c hc hb
  have hrest : t.alive = false ∧ t.NoReader ∧ ∀ i, t.put i = s.put i :=
    Run.invariant (I := fun u => u.alive = false ∧ u.NoReader ∧ ∀ i, u.put i = s.put i)
      (by
        rintro u a v ⟨hal, hno, hput⟩ ⟨-, hst⟩
        obtain ⟨hal', hno', hput'⟩ := dead_step hal hno hst
        exact ⟨hal', hno', fun i => (hput' i).trans (hput i)⟩)
      ⟨hal, hno, fun i => rfl⟩ hrun
  exact hrest.2.2

end

/-- While the worker's pieces are within the bound, the texts of every request are the decoding of the
    frames of its own answer up to its EOS marker, and after a request that ended before its marker
    nothing is read for another. -/
theorem requests_own_tokens {as : List Act} {s : World} (h : Run World.Fitting World.init as s) :
    (∀ c ∈ s.calls, c.OwnTokens) ∧
      ((∃ c ∈ s.calls, c.Broken) →
        ∀ (bs : List Act) (t : World), Run World.Fitting s bs t → ∀ r, t.put r = s.put r) := by
  have haligned : s.Aligned :=
    Run.invariant (I := World.Aligned) (fun hi hst => World.fitting_aligned hi hst)
      World.init_aligned h
  refine ⟨fun c hc => ?_, fun hb bs t hrun => haligned.broken_run hb hrun⟩
  obtain ⟨r, hr⟩ := List.mem_iff_getElem?.1 hc
  exact haligned.own hr

/-- A worker that dies inside a frame. -/
theorem requests_own_tokens_cut : ∃ s, Run World.Fitting World.init [.generate, .acquire 0, .write 0,
      .take_line, .emit [0x68, 0xC3], .flush 6, .read 0, .read 0, .emit [0xA9], .flush 4, .read 0,
      .die, .eof 0, .finish 0, .get 0, .get 0] s ∧
    (∀ c ∈ s.calls, c.OwnTokens) ∧
      ((∃ c ∈ s.calls, c.Broken) →
        ∀ (bs : List Act) (t : World), Run World.Fitting s bs t → ∀ r, t.put r = s.put r) := by
  obtain ⟨s, hrun, -⟩ := Run.of_replay_any
    (fun (s : World) (a : Act) => if a.fits = true then World.next s a else none) World.init [.generate, .acquire 0,
      .write 0, .take_line, .emit [0x68, 0xC3], .flush 6, .read 0, .read 0, .emit [0xA9], .flush 4,
      .read 0, .die, .eof 0, .finish 0, .get 0, .get 0]
    (fun s => s.put 0 == [['h']]) (by decide +kernel)
  exact ⟨s, Run.restrict_mono hrun, requests_own_tokens (Run.restrict_mono hrun)⟩

/-- A piece that starts like a frame and an EOS marker of its own. -/
def stray (rest : Bytes) : Bytes :=
  0x02 :: 0x00 :: 0x00 :: 0x00 :: 0x68 :: 0x69 :: 0xFE :: 0xFF :: 0xFF :: 0xFF :: rest

/-- The second of two requests comes to an EOS marker, with nothing answered to its line. -/
theorem stray_run (rest : Bytes) (hlen : rest.length = MAX_FRAME_BYTES) :
    ∃ as s, Run World.Steps World.init as s ∧ ∃ c ∈ s.calls, c.complete = true ∧ c.answered = false := by
  have hlength : (stray rest).length = 8388618 := by simp [stray, hlen, MAX_FRAME_BYTES]
  have hwire : emit_token_frame (stray rest) = [0x0A, 0x00, 0x80, 0x00] ++ stray rest := by
    rw [emit_token_frame, if_neg (by simp [stray]), hlength]
    rfl
  have hfirst : replay World.next World.init [.generate, .generate, .acquire 0, .write 0, .take_line,
      .emit (stray rest), .flush 14] = some ⟨[⟨.header none, true, [], true, [], [stray rest], false⟩,
        .init], some 0, true, [], some 0, (emit_token_frame (stray rest)).drop 14,
        (emit_token_frame (stray rest)).take 14⟩ := rfl
  rw [hwire] at hfirst
  have hsecond : replay World.next ⟨[⟨.header none, true, [], true, [], [stray rest], false⟩, .init],
      some 0, true, [], some 0, rest, [0x0A, 0x00, 0x80, 0x00, 0x02, 0x00, 0x00, 0x00, 0x68, 0x69, 0xFE,
        0xFF, 0xFF, 0xFF]⟩ [.read 0, .acquire 1, .write 1, .read 1, .read 1, .read 1] =
      some ⟨[⟨.leaving false, true, [], true, [], [stray rest], false⟩,
        ⟨.leaving true, true, [.text ['h', 'i']], true, [], [], false⟩], none, true, [1], some 0, rest,
        []⟩ := rfl
  exact ⟨_, _, (Run.of_replay hfirst).append (Run.of_replay hsecond), _,
    List.mem_cons_of_mem _ List.mem_cons_self, rfl, rfl⟩

/-- A request whose own line was never answered gets the tokens of the one before it. -/
theorem tokens_crossed : ¬ ∀ (as : List Act) (s : World), Run World.Steps World.init as s →
    ∀ c ∈ s.calls, c.OwnTokens := by
  intro h
  obtain ⟨as, s, hrun, c, hc, hcomplete, hanswered⟩ := stray_run
    (List.replicate MAX_FRAME_BYTES 0) List.length_replicate
  have hown := (h as s hrun c hc).2
  rw [if_pos hcomplete] at hown
  exact absurd (hanswered.symm.trans hown.1) (by simp)

end LocalVoice.RK1828
