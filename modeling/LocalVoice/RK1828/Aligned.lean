import LocalVoice.Lib.Tasks
import LocalVoice.RK1828.Requests

/-! With the worker's pieces within the bound, lines and frames stay aligned: while a request reads, the
    bytes in the pipe are the rest of the answer to its line, and while none does, the pipe is empty.
    A request that ended before its EOS marker, its line written, leaves a worker that is dead. -/

namespace LocalVoice.RK1828
open LocalVoice.Lib

/-- The thread reads frames. -/
def Phase.reads : Phase → Bool
  | .header _ | .body _ _ => true
  | .waiting | .locked | .leaving _ | .ended _ => false

theorem Phase.holds_of_reads {p : Phase} (h : p.reads = true) : p.holds = true := by
  cases p <;> simp_all [Phase.reads, Phase.holds]

/-- The line was written, and the request ended before its EOS marker. -/
def Call.Broken (c : Call) : Prop :=
  c.written = true ∧ (c.phase = .leaving false ∨ c.phase = .ended false)

/-- What holds of a request that is not reading. -/
def Call.Settled (c : Call) : Prop :=
  match c.phase with
  | .waiting | .locked => c.written = false ∧ c.answered = false ∧ c.frames = [] ∧ c.put = []
  | .header _ | .body _ _ => c.written = true
  | .leaving true | .ended true => c.answered = true ∧ c.put = Utf8.all_texts c.frames
  | .leaving false | .ended false => ∃ read, read <+: c.frames ∧ c.put = Utf8.texts none read

/-- The bytes that the reader has still to get for what the worker put out. -/
inductive Call.Reads (c : Call) : Bytes → Prop where
  | header {read frames : List Bytes} : c.phase = .header (Utf8.after none read) →
    c.frames = read ++ frames → c.put = Utf8.texts none read → Reads c (wire frames c.answered)
  | body {read frames : List Bytes} {piece : Bytes} :
    c.phase = .body piece.length (Utf8.after none read) → c.frames = read ++ piece :: frames →
    c.put = Utf8.texts none read → Reads c (piece ++ wire frames c.answered)

namespace World

/-- `rest` is in the pipe or on its way; of a dead worker only what was written. -/
def Owes (s : World) (rest : Bytes) : Prop :=
  (s.alive = true → s.stdout ++ s.unwritten = rest) ∧
    (s.alive = false → s.unwritten = [] ∧ s.stdout <+: rest)

/-- How far the worker is with the line of request `r`. -/
def Turn (s : World) (r : ℕ) (c : Call) : Prop :=
  s.alive = true →
    s.stdin = [r] ∧ s.answering = none ∧ c.answered = false ∨
    s.stdin = [] ∧ s.answering = some r ∧ c.answered = false ∨
    s.stdin = [] ∧ s.answering = none ∧ c.answered = true

/-- Nothing is in the pipes. -/
def Quiet (s : World) : Prop :=
  s.stdout = [] ∧ s.unwritten = [] ∧ (s.alive = true → s.stdin = [] ∧ s.answering = none)

def NoReader (s : World) : Prop := ∀ (r : ℕ) (c : Call), s.calls[r]? = some c → c.phase.reads = false

/-- Lines and frames are aligned. -/
structure Aligned (s : World) : Prop where
  settled : ∀ (r : ℕ) (c : Call), s.calls[r]? = some c → c.Settled
  holder : ∀ (r : ℕ) (c : Call), s.calls[r]? = some c → (c.phase.holds = true ↔ s.lock = some r)
  held : ∀ r, s.lock = some r → r < s.calls.length
  small : ∀ (r : ℕ) (c : Call), s.calls[r]? = some c → ∀ f ∈ c.frames, f ≠ [] ∧ f.length ≤ MAX_FRAME_BYTES
  reader : ∀ (r : ℕ) (c : Call), s.calls[r]? = some c → c.phase.reads = true →
    ∃ rest, c.Reads rest ∧ s.Owes rest ∧ s.Turn r c
  quiet : s.NoReader → s.Quiet
  broken : ∀ (r : ℕ) (c : Call), s.calls[r]? = some c → c.Broken → s.alive = false ∧ s.NoReader

section
variable {s t : World} {r : ℕ} {c c' : Call} {rest : Bytes}

/-! ### The one that reads -/

theorem Owes.prefix (h : s.Owes rest) : s.stdout <+: rest := by
  cases hal : s.alive with
  | true => exact ⟨s.unwritten, h.1 hal⟩
  | false => exact (h.2 hal).2

/-- Who else reads does not hold the lock. -/
theorem Aligned.not_reads (h : Aligned s) {r' : ℕ} (hc : s.calls[r']? = some c)
    (hlock : s.lock ≠ some r') : c.phase.reads = false := by
  by_contra hreads
  have hr : c.phase.reads = true := by simpa using hreads
  exact hlock ((h.holder r' c hc).1 (Phase.holds_of_reads hr))

/-- A step of the request that has the lock, or of any while it is free. -/
theorem Aligned.move (h : Aligned s) (hc : s.calls[r]? = some c)
    (hown : s.lock = none ∨ s.lock = some r) (hcalls : t.calls = s.calls.set r c')
    (hlock : t.lock = if c'.phase.holds then some r else none)
    (hsettled : c'.Settled) (hsmall : ∀ f ∈ c'.frames, f ≠ [] ∧ f.length ≤ MAX_FRAME_BYTES)
    (hreader : c'.phase.reads = true → ∃ rest, c'.Reads rest ∧ t.Owes rest ∧ t.Turn r c')
    (hquiet : c'.phase.reads = false → t.Quiet)
    (hbroken : c'.Broken → t.alive = false)
    (hdead : s.alive = false → c.phase.reads = false → t.alive = false ∧ c'.phase.reads = false) :
    Aligned t := by
  have hget : ∀ (r' : ℕ) (d : Call), t.calls[r']? = some d ↔ r = r' ∧ c' = d ∨ r ≠ r' ∧ s.calls[r']? = some d := by
    intro r' d
    rw [hcalls]
    exact get_set_iff hc
  have hother : ∀ (r' : ℕ) (d : Call), r ≠ r' → s.calls[r']? = some d → d.phase.reads = false := by
    intro r' d hne hd
    refine h.not_reads hd fun hl => ?_
    rcases hown with hown | hown
    · rw [hown] at hl
      cases hl
    · exact hne (Option.some.inj (hown.symm.trans hl))
  have hnone : c'.phase.reads = false → t.NoReader := by
    intro hreads r' d hd
    rcases (hget r' d).1 hd with ⟨rfl, rfl⟩ | ⟨hne, hd⟩
    · exact hreads
    · exact hother r' d hne hd
  refine ⟨?_, ?_, ?_, ?_, ?_, ?_, ?_⟩
  · intro r' d hd
    rcases (hget r' d).1 hd with ⟨rfl, rfl⟩ | ⟨hne, hd⟩
    · exact hsettled
    · exact h.settled r' d hd
  · intro r' d hd
    rw [hlock]
    rcases (hget r' d).1 hd with ⟨rfl, rfl⟩ | ⟨hne, hd⟩
    · split <;> simp_all
    · have hfree : d.phase.holds = false := by
        by_contra hholds
        have hl := (h.holder r' d hd).1 (by simpa using hholds)
        rcases hown with hown | hown
        · rw [hown] at hl
          cases hl
        · exact hne (Option.some.inj (hown.symm.trans hl))
      split <;> simp [hfree, hne]
  · intro r' hr'
    rw [hlock] at hr'
    obtain ⟨-, hr'⟩ := Option.ite_none_right_eq_some.1 hr'
    obtain rfl := Option.some.inj hr'
    simpa [hcalls] using lt_length_of_get hc
  · intro r' d hd
    rcases (hget r' d).1 hd with ⟨rfl, rfl⟩ | ⟨hne, hd⟩
    · exact hsmall
    · exact h.small r' d hd
  · intro r' d hd hreads
    rcases (hget r' d).1 hd with ⟨rfl, rfl⟩ | ⟨hne, hd⟩
    · exact hreader hreads
    · simp [hother r' d hne hd] at hreads
  · intro hno
    exact hquiet (hno r c' ((hget r c').2 (Or.inl ⟨rfl, rfl⟩)))
  · intro r' d hd hb
    rcases (hget r' d).1 hd with ⟨rfl, rfl⟩ | ⟨hne, hd⟩
    · refine ⟨hbroken hb, hnone ?_⟩
      rcases hb.2 with hp | hp <;> simp [hp, Phase.reads]
    · obtain ⟨hal, hno⟩ := h.broken r' d hd hb
      obtain ⟨hal', hreads⟩ := hdead hal (hno r c hc)
      exact ⟨hal', hnone hreads⟩

/-- What the caller does, and the end of a thread, change nothing that is aligned. -/
theorem Aligned.same (h : Aligned s) (hc : s.calls[r]? = some c) (hput : c'.put = c.put)
    (hframes : c'.frames = c.frames) (hanswered : c'.answered = c.answered)
    (hwritten : c'.written = c.written)
    (hphase : c'.phase = c.phase ∨ ∃ b, c.phase = .leaving b ∧ c'.phase = .ended b) :
    Aligned (s.set_call r c') := by
  have hget : ∀ (r' : ℕ) (d : Call), (s.set_call r c').calls[r']? = some d ↔
      r = r' ∧ c' = d ∨ r ≠ r' ∧ s.calls[r']? = some d := fun r' d => get_set_iff hc
  have hholds : c'.phase.holds = c.phase.holds := by
    rcases hphase with hp | ⟨b, hp, hp'⟩
    · rw [hp]
    · simp [hp, hp', Phase.holds]
  have hreads : c'.phase.reads = c.phase.reads := by
    rcases hphase with hp | ⟨b, hp, hp'⟩
    · rw [hp]
    · simp [hp, hp', Phase.reads]
  have hno : (s.set_call r c').NoReader ↔ s.NoReader := by
    constructor
    · intro hno r' d hd
      by_cases heq : r = r'
      · subst heq
        obtain rfl := Option.some.inj (hc.symm.trans hd)
        exact hreads ▸ hno r c' ((hget r c').2 (Or.inl ⟨rfl, rfl⟩))
      · exact hno r' d ((hget r' d).2 (Or.inr ⟨heq, hd⟩))
    · intro hno r' d hd
      rcases (hget r' d).1 hd with ⟨rfl, rfl⟩ | ⟨hne, hd⟩
      · exact hreads ▸ hno r c hc
      · exact hno r' d hd
  refine ⟨?_, ?_, ?_, ?_, ?_, fun hn => h.quiet (hno.1 hn), ?_⟩
  · intro r' d hd
    rcases (hget r' d).1 hd with ⟨rfl, rfl⟩ | ⟨hne, hd⟩
    · have hsettled := h.settled r c hc
      rcases hphase with hp | ⟨b, hp, hp'⟩
      · unfold Call.Settled at hsettled ⊢
        rwa [hp, hput, hframes, hanswered, hwritten]
      · unfold Call.Settled at hsettled ⊢
        rw [hp] at hsettled
        rw [hp', hput, hframes, hanswered]
        cases b <;> exact hsettled
    · exact h.settled r' d hd
  · intro r' d hd
    rcases (hget r' d).1 hd with ⟨rfl, rfl⟩ | ⟨hne, hd⟩
    · rw [hholds]
      exact h.holder r c hc
    · exact h.holder r' d hd
  · intro r' hr'
    simpa [set_call] using h.held r' hr'
  · intro r' d hd
    rcases (hget r' d).1 hd with ⟨rfl, rfl⟩ | ⟨hne, hd⟩
    · rw [hframes]
      exact h.small r c hc
    · exact h.small r' d hd
  · intro r' d hd hr
    rcases (hget r' d).1 hd with ⟨rfl, rfl⟩ | ⟨hne, hd⟩
    · obtain ⟨rest, hrest, howes, hturn⟩ := h.reader r c hc (hreads ▸ hr)
      have hp : c'.phase = c.phase := hphase.resolve_right (by
        rintro ⟨b, hp, -⟩
        rw [hreads, hp] at hr
        cases hr)
      refine ⟨rest, ?_, howes, by rwa [Turn, hanswered]⟩
      cases hrest with
      | header hp' hf hput' =>
        exact hanswered ▸ .header (hp.trans hp') (hframes.trans hf) (hput.trans hput')
      | body hp' hf hput' =>
        exact hanswered ▸ .body (hp.trans hp') (hframes.trans hf) (hput.trans hput')
    · exact h.reader r' d hd hr
  · intro r' d hd hb
    rcases (hget r' d).1 hd with ⟨rfl, rfl⟩ | ⟨hne, hd⟩
    · obtain ⟨hal, hn⟩ := h.broken r c hc ⟨hwritten ▸ hb.1, by
        rcases hphase with hp | ⟨b, hp, hp'⟩
        · exact hp ▸ hb.2
        · rcases hb.2 with hf | hf
          · rw [hp'] at hf
            cases hf
          · rw [hp'] at hf
            exact Or.inl (hp.trans (congrArg Phase.leaving (Phase.ended.inj hf)))⟩
      exact ⟨hal, hno.2 hn⟩
    · obtain ⟨hal, hn⟩ := h.broken r' d hd hb
      exact ⟨hal, hno.2 hn⟩

/-- With the lock free, or held by a request that does not read, nobody reads. -/
theorem Aligned.no_reader (h : Aligned s) (hc : s.calls[r]? = some c) (hreads : c.phase.reads = false)
    (hown : s.lock = none ∨ s.lock = some r) : s.NoReader := by
  intro r' d hd
  by_cases heq : r = r'
  · subst heq
    obtain rfl := Option.some.inj (hc.symm.trans hd)
    exact hreads
  · refine h.not_reads hd fun hl => ?_
    rcases hown with hown | hown
    · rw [hown] at hl
      cases hl
    · exact heq (Option.some.inj (hown.symm.trans hl))

/-! ### The lock -/

theorem acquire_aligned (h : Aligned s) (hst : s.next (.acquire r) = some t) : Aligned t := by
  obtain ⟨c, hc, hst⟩ := Option.bind_eq_some_iff.1 hst
  obtain ⟨⟨hphase, hlock⟩, hst⟩ := Option.ite_none_right_eq_some.1 hst
  obtain rfl := Option.some.inj hst
  have hno := h.no_reader hc (by simp [hphase, Phase.reads]) (Or.inl hlock)
  have hsettled := h.settled r c hc
  unfold Call.Settled at hsettled
  rw [hphase] at hsettled
  refine h.move hc (Or.inl hlock) rfl rfl hsettled (h.small r c hc) (fun hr => by cases hr)
    (fun _ => h.quiet hno) ?_ fun hal _ => ⟨hal, rfl⟩
  rintro ⟨-, hp | hp⟩ <;> cases hp

theorem fail_aligned (h : Aligned s) (hst : s.next (.fail r) = some t) : Aligned t := by
  obtain ⟨c, hc, hst⟩ := Option.bind_eq_some_iff.1 hst
  obtain ⟨hphase, hst⟩ := Option.ite_none_right_eq_some.1 hst
  obtain rfl := Option.some.inj hst
  have hlock := (h.holder r c hc).1 (by simp [hphase, Phase.holds])
  have hno := h.no_reader hc (by simp [hphase, Phase.reads]) (Or.inr hlock)
  have hsettled := h.settled r c hc
  unfold Call.Settled at hsettled
  rw [hphase] at hsettled
  obtain ⟨hwritten, -, -, hput⟩ := hsettled
  refine h.move hc (Or.inr hlock) rfl rfl ⟨[], List.nil_prefix, hput⟩ (h.small r c hc)
    (fun hr => by cases hr) (fun _ => h.quiet hno) ?_ fun hal _ => ⟨hal, rfl⟩
  rintro ⟨hw, -⟩
  exact absurd (hwritten.symm.trans hw) (by simp)

/-- The line goes to a worker that has no other and an empty pipe. -/
theorem write_aligned (h : Aligned s) (hst : s.next (.write r) = some t) : Aligned t := by
  obtain ⟨c, hc, hst⟩ := Option.bind_eq_some_iff.1 hst
  obtain ⟨⟨hphase, hal⟩, hst⟩ := Option.ite_none_right_eq_some.1 hst
  obtain rfl := Option.some.inj hst
  have hlock := (h.holder r c hc).1 (by simp [hphase, Phase.holds])
  obtain ⟨hout, hun, hidle⟩ :=
    h.quiet (h.no_reader hc (by simp [hphase, Phase.reads]) (Or.inr hlock))
  obtain ⟨hstdin, hanswering⟩ := hidle hal
  have hsettled := h.settled r c hc
  unfold Call.Settled at hsettled
  rw [hphase] at hsettled
  obtain ⟨-, hanswered, hframes, hput⟩ := hsettled
  refine h.move hc (Or.inr hlock) rfl hlock rfl (h.small r c hc) ?_ (fun hr => by cases hr) ?_
    fun hal' _ => absurd (hal.symm.trans hal') (by simp)
  · intro _
    refine ⟨wire [] c.answered, ?_, ⟨fun _ => ?_, fun hal' => absurd (hal.symm.trans hal') (by simp)⟩,
      fun _ => Or.inl ⟨?_, hanswering, hanswered⟩⟩
    · exact @Call.Reads.header _ [] [] rfl hframes hput
    · simp [set_call, hout, hun, hanswered, wire]
    · simp [hstdin]
  · rintro ⟨-, hp | hp⟩ <;> cases hp

/-! ### The reader -/

theorem put_text_put (c : Call) (piece : List Char) :
    (c.put_text piece).put = c.put ++ [piece].filter (· ≠ []) := by
  unfold Call.put_text
  split
  · next hnil => simp [hnil]
  · next hne => simp [Call.put, hne, Item.piece]

theorem put_text_fields (c : Call) (piece : List Char) :
    (c.put_text piece).frames = c.frames ∧ (c.put_text piece).answered = c.answered ∧
      (c.put_text piece).written = c.written := by
  unfold Call.put_text
  split <;> simp

/-- The pipe without the bytes that were read. -/
theorem Owes.drop {first : Bytes} (h : s.Owes (first ++ rest)) (hlen : first.length ≤ s.stdout.length) :
    s.stdout.take first.length = first ∧
      Owes { s with stdout := s.stdout.drop first.length } rest := by
  have htake : s.stdout.take first.length = first := by
    obtain ⟨more, hmore⟩ := h.prefix
    have hfirst := congrArg (List.take first.length) hmore
    rwa [List.take_append_of_le_length hlen, List.take_left] at hfirst
  have hout : s.stdout = first ++ s.stdout.drop first.length := by
    conv_lhs => rw [← List.take_append_drop first.length s.stdout, htake]
  refine ⟨htake, fun hal => ?_, fun hal => ?_⟩
  · have hall := h.1 hal
    rw [hout, List.append_assoc] at hall
    exact List.append_cancel_left hall
  · obtain ⟨hun, hpre⟩ := h.2 hal
    rw [hout] at hpre
    exact ⟨hun, (List.prefix_append_right_inj first).1 hpre⟩

/-- A header of the answer: the EOS marker behind the last frame, or the length of the next one. -/
theorem header_cases {frames : List Bytes} {answered : Bool} (h : s.Owes (wire frames answered))
    (hsmall : ∀ f ∈ frames, f ≠ [] ∧ f.length ≤ MAX_FRAME_BYTES) (hlen : ¬ s.stdout.length < 4) :
    (frames = [] ∧ answered = true ∧ unpack (s.stdout.take 4) = END_OF_STREAM ∧
      Owes { s with stdout := s.stdout.drop 4 } []) ∨
    ∃ piece more, frames = piece :: more ∧ unpack (s.stdout.take 4) = piece.length ∧
      Owes { s with stdout := s.stdout.drop 4 } (piece ++ wire more answered) := by
  cases frames with
  | nil =>
    cases answered with
    | false =>
      have hout : s.stdout = [] := by simpa [wire] using h.prefix
      simp [hout] at hlen
    | true =>
      rw [wire, List.flatMap_nil, List.nil_append, if_pos rfl, ← List.append_nil emit_eos_frame] at h
      obtain ⟨htake, hrest⟩ := h.drop (by rw [emit_eos_frame, length_le32]; omega)
      rw [emit_eos_frame, length_le32] at htake hrest
      refine Or.inl ⟨rfl, rfl, ?_, hrest⟩
      rw [htake, unpack_le32 (by decide)]
  | cons piece more =>
    obtain ⟨hne, hle⟩ := hsmall piece List.mem_cons_self
    rw [wire_cons hne] at h
    obtain ⟨htake, hrest⟩ := h.drop (by rw [length_le32]; omega)
    rw [length_le32] at htake hrest
    refine Or.inr ⟨piece, more, rfl, ?_, hrest⟩
    rw [htake, unpack_le32]
    exact Nat.lt_of_le_of_lt hle (by decide)

/-- With nothing owed the pipes are empty. -/
theorem Owes.quiet (h : s.Owes []) (hturn : s.Turn r c) (hanswered : c.answered = true) : s.Quiet := by
  have hidle : s.alive = true → s.stdin = [] ∧ s.answering = none := by
    intro hal
    rcases hturn hal with ⟨-, -, hno⟩ | ⟨-, -, hno⟩ | ⟨h1, h2, -⟩
    · exact absurd (hanswered.symm.trans hno) (by simp)
    · exact absurd (hanswered.symm.trans hno) (by simp)
    · exact ⟨h1, h2⟩
  cases hal : s.alive with
  | true =>
    obtain ⟨hout, hun⟩ := List.append_eq_nil_iff.1 (h.1 hal)
    exact ⟨hout, hun, hidle⟩
  | false =>
    obtain ⟨hun, hpre⟩ := h.2 hal
    exact ⟨List.prefix_nil.1 hpre, hun, hidle⟩

theorem read_aligned (h : Aligned s) (hst : s.next (.read r) = some t) : Aligned t := by
  obtain ⟨c, hc, hst⟩ := Option.bind_eq_some_iff.1 hst
  have hreads : c.phase.reads = true := by
    cases hphase : c.phase <;> simp_all [World.read, Phase.reads]
  have hlock := (h.holder r c hc).1 (Phase.holds_of_reads hreads)
  obtain ⟨rest, hrest, howes, hturn⟩ := h.reader r c hc hreads
  have hsmall := h.small r c hc
  have hwritten : c.written = true := by
    have hsettled := h.settled r c hc
    unfold Call.Settled at hsettled
    cases hrest with
    | header hphase => rwa [hphase] at hsettled
    | body hphase => rwa [hphase] at hsettled
  cases hrest with
  | @header read frames hphase hframes hput =>
    simp only [World.read, hphase] at hst
    split at hst
    · cases hst
    · next hlen =>
      rcases header_cases howes (fun f hf => hsmall f (by simp [hframes, hf])) hlen with
        ⟨rfl, hanswered, heos, hnil⟩ | ⟨piece, more, rfl, hlength, hmore⟩
      · -- the EOS marker: all frames were read
        rw [if_pos heos] at hst
        obtain rfl := Option.some.inj hst
        obtain ⟨hf, ha, -⟩ := put_text_fields c (Utf8.flush (Utf8.after none read))
        refine h.move hc (Or.inr hlock) rfl rfl ⟨ha.trans hanswered, ?_⟩ (hf ▸ hsmall)
          (fun hr => by cases hr) (fun _ => hnil.quiet hturn hanswered) ?_
          fun _ hr => absurd (hreads.symm.trans hr) (by simp)
        · rw [List.append_nil] at hframes
          refine (put_text_put c _).trans ?_
          rw [hput, hf, hframes, Utf8.all_texts]
        · rintro ⟨-, hp | hp⟩ <;> cases hp
      · -- a frame: its bytes come next
        have hle : piece.length ≤ MAX_FRAME_BYTES := (hsmall piece (by simp [hframes])).2
        have hne : piece.length ≠ END_OF_STREAM := by
          have hmax : MAX_FRAME_BYTES < END_OF_STREAM := by decide
          omega
        rw [hlength, if_neg hne, if_neg (Nat.not_lt.2 hle)] at hst
        obtain rfl := Option.some.inj hst
        refine h.move hc (Or.inr hlock) rfl hlock hwritten hsmall
          (fun _ => ⟨_, .body rfl hframes hput, hmore, hturn⟩) (fun hr => by cases hr) ?_
          fun _ hr => absurd (hreads.symm.trans hr) (by simp)
        rintro ⟨-, hp | hp⟩ <;> cases hp
  | @body read frames piece hphase hframes hput =>
    simp only [World.read, hphase] at hst
    split at hst
    · cases hst
    · next hlen =>
      obtain ⟨htake, hmore⟩ := howes.drop (Nat.not_lt.1 hlen)
      rw [htake] at hst
      obtain rfl := Option.some.inj hst
      obtain ⟨hf, ha, hw⟩ := put_text_fields c (Utf8.decode (Utf8.after none read) piece).1
      refine h.move hc (Or.inr hlock) rfl hlock (hw.trans hwritten) (hf ▸ hsmall)
        (fun _ => ⟨_, @Call.Reads.header _ (read ++ [piece]) frames ?_ ?_ ?_, ?_, ?_⟩)
        (fun hr => by cases hr) ?_ fun _ hr => absurd (hreads.symm.trans hr) (by simp)
      · simp [Utf8.after_concat]
      · simpa using hf.trans hframes
      · refine (put_text_put c _).trans ?_
        rw [hput, Utf8.texts_concat]
      · exact ha ▸ hmore
      · exact fun hal => ha ▸ hturn hal
      · rintro ⟨-, hp | hp⟩ <;> cases hp

/-- Where the stream ends, what was put so far is part of the answer. -/
theorem eof_aligned (h : Aligned s) (hst : s.next (.eof r) = some t) : Aligned t := by
  obtain ⟨c, hc, hst⟩ := Option.bind_eq_some_iff.1 hst
  obtain ⟨⟨hal, hlt⟩, hst⟩ := Option.ite_none_right_eq_some.1 hst
  obtain rfl := Option.some.inj hst
  have hreads : c.phase.reads = true := by
    cases hphase : c.phase <;> simp_all [needs, Phase.reads]
  obtain ⟨rest, hrest, howes, -⟩ := h.reader r c hc hreads
  have hread : ∃ read, read <+: c.frames ∧ c.put = Utf8.texts none read := by
    cases hrest with
    | header _ hframes hput => exact ⟨_, hframes ▸ List.prefix_append _ _, hput⟩
    | body _ hframes hput => exact ⟨_, hframes ▸ List.prefix_append _ _, hput⟩
  exact h.move hc (Or.inr ((h.holder r c hc).1 (Phase.holds_of_reads hreads))) rfl rfl hread
    (h.small r c hc) (fun hr => by cases hr)
    (fun _ => ⟨rfl, (howes.2 hal).1, fun hal' => absurd (hal.symm.trans hal') (by simp)⟩)
    (fun _ => hal) fun _ _ => ⟨hal, rfl⟩

/-! ### The worker -/

/-- The worker answers the request that reads. -/
theorem Aligned.answers (h : Aligned s) (hal : s.alive = true) (hr : s.answering = some r) :
    ∃ c rest, s.calls[r]? = some c ∧ s.lock = some r ∧ c.phase.reads = true ∧ c.Reads rest ∧
      s.Owes rest ∧ c.answered = false ∧ s.stdin = [] := by
  have hsome : ¬ s.NoReader := by
    intro hno
    exact absurd ((h.quiet hno).2.2 hal).2 (by simp [hr])
  simp only [NoReader, not_forall] at hsome
  obtain ⟨r', c, hc, hreads⟩ := hsome
  have hreads : c.phase.reads = true := by simpa using hreads
  obtain ⟨rest, hrest, howes, hturn⟩ := h.reader r' c hc hreads
  rcases hturn hal with ⟨-, hnone, -⟩ | ⟨hin, hans, hno⟩ | ⟨-, hnone, -⟩
  · exact absurd (hnone.symm.trans hr) (by simp)
  · obtain rfl : r' = r := Option.some.inj (hans.symm.trans hr)
    exact ⟨c, rest, hc, (h.holder r' c hc).1 (Phase.holds_of_reads hreads), hreads, hrest, howes, hno,
      hin⟩
  · exact absurd (hnone.symm.trans hr) (by simp)

theorem settled_of_reads (hreads : c.phase.reads = true) : c.Settled ↔ c.written = true := by
  unfold Call.Settled
  cases hphase : c.phase <;> simp_all [Phase.reads]

/-- More of the answer: what the reader has to get grows by the bytes that were put out. -/
theorem answer_aligned {more : Bytes} {next : Option ℕ} (h : Aligned s) (hal : s.alive = true)
    (hc : s.calls[r]? = some c) (hlock : s.lock = some r) (hreads : c.phase.reads = true)
    (howes : s.Owes rest) (hun : s.unwritten = []) (hphase : c'.phase = c.phase)
    (hwritten : c'.written = c.written)
    (hsmall : ∀ f ∈ c'.frames, f ≠ [] ∧ f.length ≤ MAX_FRAME_BYTES) (hrest : c'.Reads (rest ++ more))
    (hturn : Turn { s with answering := next } r c') :
    Aligned { s.set_call r c' with answering := next, unwritten := more } := by
  have hreads' : c'.phase.reads = true := hphase ▸ hreads
  refine h.move hc (Or.inr hlock) rfl ?_ ?_ hsmall (fun _ => ⟨_, hrest, ⟨fun _ => ?_, fun hal' => ?_⟩, ?_⟩)
    (fun hr => absurd (hreads'.symm.trans hr) (by simp)) ?_
    fun hal' _ => absurd (hal.symm.trans hal') (by simp)
  · rw [if_pos (Phase.holds_of_reads hreads')]
    exact hlock
  · rw [settled_of_reads hreads', hwritten]
    exact (settled_of_reads hreads).1 (h.settled r c hc)
  · have hout := howes.1 hal
    rw [hun, List.append_nil] at hout
    exact congrArg (· ++ more) hout
  · exact absurd (hal.symm.trans hal') (by simp)
  · exact hturn
  · rintro ⟨-, hp | hp⟩ <;> simp [hp, Phase.reads] at hreads'

theorem emit_aligned {piece : Bytes} (h : Aligned s) (hfits : piece.length ≤ MAX_FRAME_BYTES)
    (hst : s.next (.emit piece) = some t) : Aligned t := by
  obtain ⟨r, hr, hst⟩ := Option.bind_eq_some_iff.1 hst
  obtain ⟨c, hc, hst⟩ := Option.bind_eq_some_iff.1 hst
  obtain ⟨⟨hal, hun⟩, hst⟩ := Option.ite_none_right_eq_some.1 hst
  obtain rfl := Option.some.inj hst
  obtain ⟨d, rest, hd, hlock, hreads, hrest, howes, hno, hin⟩ := h.answers hal hr
  obtain rfl := Option.some.inj (hc.symm.trans hd)
  have hturn : ∀ c' : Call, c'.answered = c.answered → s.Turn r c' :=
    fun c' hc' _ => Or.inr (Or.inl ⟨hin, hr, hc'.trans hno⟩)
  by_cases hpiece : piece = []
  · have hall := @answer_aligned s r c c rest [] s.answering h hal hc hlock hreads howes hun rfl rfl
      (h.small r c hc) (by simpa using hrest) (hturn c rfl)
    rw [hpiece]
    exact hall
  · rw [if_neg hpiece]
    refine @answer_aligned s r c _ rest (emit_token_frame piece) s.answering h hal hc hlock hreads
      howes hun rfl rfl ?_ ?_ (hturn _ rfl)
    · intro f hf
      rcases List.mem_append.1 hf with hf | hf
      · exact h.small r c hc f hf
      · obtain rfl := List.mem_singleton.1 hf
        exact ⟨hpiece, hfits⟩
    · cases hrest with
      | @header read frames hphase hframes hput =>
        rw [hno, ← wire_concat]
        exact hno ▸ @Call.Reads.header { c with frames := c.frames ++ [piece] } read (frames ++ [piece])
          hphase (by simp [hframes]) hput
      | @body read frames first hphase hframes hput =>
        rw [hno, List.append_assoc, ← wire_concat]
        exact hno ▸ @Call.Reads.body { c with frames := c.frames ++ [piece] } read (frames ++ [piece])
          first hphase (by simp [hframes]) hput

theorem emit_eos_aligned (h : Aligned s) (hst : s.next .emit_eos = some t) : Aligned t := by
  obtain ⟨r, hr, hst⟩ := Option.bind_eq_some_iff.1 hst
  obtain ⟨c, hc, hst⟩ := Option.bind_eq_some_iff.1 hst
  obtain ⟨⟨hal, hun⟩, hst⟩ := Option.ite_none_right_eq_some.1 hst
  obtain rfl := Option.some.inj hst
  obtain ⟨d, rest, hd, hlock, hreads, hrest, howes, hno, hin⟩ := h.answers hal hr
  obtain rfl := Option.some.inj (hc.symm.trans hd)
  refine @answer_aligned s r c _ rest emit_eos_frame none h hal hc hlock hreads howes hun rfl rfl
    (h.small r c hc) ?_ fun _ => Or.inr (Or.inr ⟨hin, rfl, rfl⟩)
  cases hrest with
  | @header read frames hphase hframes hput =>
    rw [hno, ← wire_answered]
    exact @Call.Reads.header { c with answered := true } read frames hphase hframes hput
  | @body read frames first hphase hframes hput =>
    rw [hno, List.append_assoc, ← wire_answered]
    exact @Call.Reads.body { c with answered := true } read frames first hphase hframes hput

theorem take_line_aligned (h : Aligned s) (hst : s.next .take_line = some t) : Aligned t := by
  simp only [World.next] at hst
  split at hst
  · next r more hin =>
    obtain ⟨⟨hal, hnone⟩, hst⟩ := Option.ite_none_right_eq_some.1 hst
    obtain rfl := Option.some.inj hst
    refine ⟨h.settled, h.holder, h.held, h.small, ?_, ?_, h.broken⟩
    · intro r' c hc hreads
      obtain ⟨rest, hrest, howes, hturn⟩ := h.reader r' c hc hreads
      refine ⟨rest, hrest, howes, fun _ => ?_⟩
      rcases hturn hal with ⟨hin', -, hno⟩ | ⟨-, hsome, -⟩ | ⟨hin', -, -⟩
      · obtain ⟨rfl, rfl⟩ := List.cons.inj (hin.symm.trans hin')
        exact Or.inr (Or.inl ⟨rfl, rfl, hno⟩)
      · exact absurd (hnone.symm.trans hsome) (by simp)
      · exact absurd (hin.symm.trans hin') (by simp)
    · intro hno
      exact absurd (hin.symm.trans ((h.quiet hno).2.2 hal).1) (by simp)
  · cases hst

theorem flush_aligned {n : ℕ} (h : Aligned s) (hst : s.next (.flush n) = some t) : Aligned t := by
  obtain rfl := Option.some.inj hst
  refine ⟨h.settled, h.holder, h.held, h.small, ?_, ?_, h.broken⟩
  · intro r c hc hreads
    obtain ⟨rest, hrest, howes, hturn⟩ := h.reader r c hc hreads
    refine ⟨rest, hrest, ⟨fun hal => ?_, fun hal => ?_⟩, hturn⟩
    · rw [← howes.1 hal, List.append_assoc, List.take_append_drop]
    · obtain ⟨hun, hpre⟩ := howes.2 hal
      simpa [hun] using hpre
  · intro hno
    obtain ⟨hout, hun, hidle⟩ := h.quiet hno
    exact ⟨by simp [hout, hun], by simp [hun], hidle⟩

theorem die_aligned (h : Aligned s) (hst : s.next .die = some t) : Aligned t := by
  obtain rfl := Option.some.inj hst
  refine ⟨h.settled, h.holder, h.held, h.small, ?_, ?_, fun r c hc hb => ⟨rfl, (h.broken r c hc hb).2⟩⟩
  · intro r c hc hreads
    obtain ⟨rest, hrest, howes, -⟩ := h.reader r c hc hreads
    have hdead : ∀ {p : Prop}, false = true → p := fun hal => by cases hal
    exact ⟨rest, hrest, ⟨hdead, fun _ => ⟨rfl, howes.prefix⟩⟩, hdead⟩
  · intro hno
    exact ⟨(h.quiet hno).1, rfl, fun hal => by cases hal⟩

theorem generate_aligned (h : Aligned s) (hst : s.next .generate = some t) : Aligned t := by
  obtain rfl := Option.some.inj hst
  have hget : ∀ (r' : ℕ) (d : Call), (s.calls ++ [Call.init])[r']? = some d ↔
      s.calls[r']? = some d ∨ r' = s.calls.length ∧ Call.init = d := fun r' d => get_concat_iff
  have hno : ∀ {u : World}, u.calls = s.calls ++ [Call.init] → (u.NoReader ↔ s.NoReader) := by
    intro u hu
    constructor
    · intro hn r' d hd
      exact hn r' d (by rw [hu]; exact (hget r' d).2 (Or.inl hd))
    · intro hn r' d hd
      rw [hu] at hd
      rcases (hget r' d).1 hd with hd | ⟨-, rfl⟩
      · exact hn r' d hd
      · rfl
  refine ⟨?_, ?_, ?_, ?_, ?_, fun hn => h.quiet ((hno rfl).1 hn), ?_⟩
  · intro r' d hd
    rcases (hget r' d).1 hd with hd | ⟨-, rfl⟩
    · exact h.settled r' d hd
    · exact ⟨rfl, rfl, rfl, rfl⟩
  · intro r' d hd
    rcases (hget r' d).1 hd with hd | ⟨rfl, rfl⟩
    · exact h.holder r' d hd
    · refine iff_of_false (by simp [Call.init, Phase.holds]) fun hl => ?_
      exact absurd (h.held _ hl) (Nat.lt_irrefl _)
  · intro r' hr'
    have hlt := h.held r' hr'
    simp only [List.length_append, List.length_singleton]
    omega
  · intro r' d hd
    rcases (hget r' d).1 hd with hd | ⟨-, rfl⟩
    · exact h.small r' d hd
    · simp [Call.init]
  · intro r' d hd hreads
    rcases (hget r' d).1 hd with hd | ⟨-, rfl⟩
    · exact h.reader r' d hd hreads
    · cases hreads
  · intro r' d hd hb
    rcases (hget r' d).1 hd with hd | ⟨-, rfl⟩
    · obtain ⟨hal, hn⟩ := h.broken r' d hd hb
      exact ⟨hal, (hno rfl).2 hn⟩
    · exact absurd hb.1 (by simp [Call.init])

/-! ### The caller and the end of a thread -/

theorem finish_aligned (h : Aligned s) (hst : s.next (.finish r) = some t) : Aligned t := by
  obtain ⟨c, hc, hst⟩ := Option.bind_eq_some_iff.1 hst
  split at hst
  · next complete hphase =>
    obtain rfl := Option.some.inj hst
    refine h.same hc ?_ rfl rfl rfl (Or.inr ⟨complete, hphase, rfl⟩)
    cases complete <;> simp [Call.put, Item.piece]
  · cases hst

/-- The caller moves a text, and nothing else that is aligned. -/
theorem get_fields (hget : c.get = some c') : c'.put = c.put ∧ c'.phase = c.phase ∧
    c'.frames = c.frames ∧ c'.answered = c.answered ∧ c'.written = c.written := by
  unfold Call.get at hget
  obtain ⟨-, hget⟩ := Option.ite_none_right_eq_some.1 hget
  cases hqueue : c.queue with
  | nil =>
    rw [hqueue] at hget
    cases hget
  | cons item rest =>
    rw [hqueue] at hget
    cases item with
    | text piece =>
      obtain rfl := Option.some.inj hget
      exact ⟨by simp [Call.put, hqueue, Item.piece], rfl, rfl, rfl, rfl⟩
    | error | done =>
      obtain rfl := Option.some.inj hget
      exact ⟨by simp [Call.put, hqueue, List.filterMap_cons, Item.piece], rfl, rfl, rfl, rfl⟩

theorem get_aligned (h : Aligned s) (hst : s.next (.get r) = some t) : Aligned t := by
  obtain ⟨c, hc, hst⟩ := Option.bind_eq_some_iff.1 hst
  obtain ⟨c', hget, rfl⟩ := Option.map_eq_some_iff.1 hst
  obtain ⟨hput, hphase, hframes, hanswered, hwritten⟩ := get_fields hget
  exact h.same hc hput hframes hanswered hwritten (Or.inl hphase)

theorem stop_aligned (h : Aligned s) (hst : s.next (.stop r) = some t) : Aligned t := by
  obtain ⟨c, hc, rfl⟩ := Option.map_eq_some_iff.1 hst
  exact h.same hc rfl rfl rfl rfl (Or.inl rfl)

/-- Every step keeps lines and frames aligned. -/
theorem fitting_aligned {a : Act} (h : Aligned s) (hst : Fitting s a t) : Aligned t := by
  obtain ⟨hfits, hst⟩ := hst
  cases a with
  | generate => exact generate_aligned h hst
  | acquire r => exact acquire_aligned h hst
  | fail r => exact fail_aligned h hst
  | write r => exact write_aligned h hst
  | read r => exact read_aligned h hst
  | eof r => exact eof_aligned h hst
  | finish r => exact finish_aligned h hst
  | get r => exact get_aligned h hst
  | stop r => exact stop_aligned h hst
  | take_line => exact take_line_aligned h hst
  | emit piece => exact emit_aligned h (by simpa [Act.fits] using hfits) hst
  | emit_eos => exact emit_eos_aligned h hst
  | flush n => exact flush_aligned h hst
  | die => exact die_aligned h hst

theorem init_aligned : Aligned init := by
  constructor <;> simp [init, Quiet]

end
end World
end LocalVoice.RK1828
