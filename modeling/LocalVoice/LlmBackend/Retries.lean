import LocalVoice.LlmBackend.Stream

/-! What the consumer of a call sees comes from one attempt, but for events without payload, and no
    request after a rejection of the prefix cache asks for it again, unless its call is older. -/

namespace LocalVoice.LlmBackend
open LocalVoice.Lib

/-! ### Steps -/

/-- What one call does next, with the entries that this makes. -/
inductive Moved (r : ℤ) (i : ℕ) (t : Stream) : Stream → List Entry → Prop where
  | nothing : Moved r i t t []
  | yields (evs : List LLMEvent) : t.stage = .streaming → Moved r i t (t.yield evs) []
  | pauses {e : Error} : t.stage = .streaming → t.retries r e = true →
    Moved r i t { t.set_aside e with stage := .backing_off } []
  | falls_back {e : Error} (warmed : Bool) : t.stage = .streaming → t.rejected e = true →
    t.yielded_any = false →
    Moved r i t ((t.set_aside e).fall_back ⟨warmed, true⟩)
      [.rejected i, .request i (Session.flag ⟨warmed, true⟩ t.args)]
  | rejected {e : Error} : t.stage = .streaming → t.rejected e = true →
    Moved r i t (t.finish (some e)) [.rejected i]
  | finishes (raised : Option Error) : t.stage = .streaming → Moved r i t (t.finish raised) []
  | cancelled (e : Error) : t.stage = .backing_off → Moved r i t { t with stage := .ended (some e) } []
  | wakes : t.stage = .backing_off → Moved r i t t.next_attempt [.request i t.flag]

/-- A rejection latches the session, `reset` clears the latch. -/
def Entry.latch (b : Bool) : Entry → Bool
  | .rejected _ => true
  | .reset => false
  | _ => b

def latched (log : List Entry) : Bool := log.foldl Entry.latch false

/-- What a step does: a call begins, a call goes on, or others write the session. -/
inductive Stepped (r : ℤ) (c : State) : State → Prop where
  | call (a : Args) : Stepped r c { c with
      streams := c.streams ++ [.call c.session a]
      log := c.log ++ [.called c.streams.length, .request c.streams.length (c.session.flag a)] }
  | moved {i : ℕ} {t t' : Stream} {entries : List Entry} (warmed : Bool) : c.streams[i]? = some t →
    Moved r i t t' entries →
    Stepped r c ⟨⟨warmed, entries.foldl Entry.latch c.session.prefix_cache_disabled⟩,
      c.streams.set i t', c.log ++ entries⟩
  | reset : Stepped r c ⟨⟨false, false⟩, c.streams, c.log ++ [.reset]⟩
  | warm (b : Bool) : Stepped r c { c with session := { c.session with prefix_cache_warmed := b } }

section
variable {r : ℤ} {c c' : State} {i : ℕ} {t : Stream}

theorem stepped_raise (ht : c.streams[i]? = some t) (hs : t.stage = .streaming) (e : Error) :
    Stepped r c (c.raise r i t e) := by
  unfold State.raise
  split
  · next hretry =>
    simpa [State.put] using Stepped.moved c.session.prefix_cache_warmed ht (.pauses hs hretry)
  · split
    · next hrejected =>
      split
      · simpa [State.put, State.disable, Entry.latch] using
          Stepped.moved c.session.prefix_cache_warmed ht (.rejected hs hrejected)
      · next hyielded =>
        simpa [State.put, State.disable, State.note, Entry.latch] using
          Stepped.moved c.session.prefix_cache_warmed ht
            (.falls_back c.session.prefix_cache_warmed hs hrejected (by simpa using hyielded))
    · simpa [State.put] using
        Stepped.moved c.session.prefix_cache_warmed ht (.finishes (some e) hs)

theorem step_inv {a : Label} (h : step r c a c') : Stepped r c c' := by
  unfold step at h
  cases a with
  | call a =>
    obtain rfl := Option.some.inj h
    exact .call a
  | chunk i choice =>
    simp only [State.next, Option.bind_eq_bind, Option.bind_eq_some_iff] at h
    obtain ⟨t, ht, h⟩ := h
    split at h
    · next hs =>
      cases choice with
      | none =>
        obtain rfl := Option.some.inj h
        have hsame : c.streams.set i t = c.streams := by
          obtain ⟨hlt, rfl⟩ := List.getElem?_eq_some_iff.1 ht
          exact List.set_getElem_self hlt
        simpa [hsame] using Stepped.moved c.session.prefix_cache_warmed ht (.nothing (r := r))
      | some choice =>
        obtain rfl := Option.some.inj h
        unfold State.chunk
        split
        · exact stepped_raise ht hs _
        · simpa [State.put] using
            Stepped.moved c.session.prefix_cache_warmed ht (.yields choice.events hs)
    · cases h
  | done i =>
    simp only [State.next, Option.bind_eq_bind, Option.bind_eq_some_iff] at h
    obtain ⟨t, ht, h⟩ := h
    split at h
    · next hs =>
      obtain rfl := Option.some.inj h
      simpa [State.put] using
        Stepped.moved (t.args.session || c.session.prefix_cache_warmed) ht (.finishes none hs)
    · cases h
  | error i e =>
    simp only [State.next, Option.bind_eq_bind, Option.bind_eq_some_iff] at h
    obtain ⟨t, ht, h⟩ := h
    split at h
    · next hs =>
      obtain rfl := Option.some.inj h
      exact stepped_raise ht hs e
    · next hs =>
      obtain rfl := Option.some.inj h
      simpa [State.put] using Stepped.moved c.session.prefix_cache_warmed ht (.cancelled e hs)
    · cases h
  | wakes i =>
    simp only [State.next, Option.bind_eq_bind, Option.bind_eq_some_iff] at h
    obtain ⟨t, ht, h⟩ := h
    split at h
    · next hs =>
      obtain rfl := Option.some.inj h
      simpa [State.put, State.note, Entry.latch] using
        Stepped.moved c.session.prefix_cache_warmed ht (.wakes hs)
    · cases h
  | reset =>
    obtain rfl := Option.some.inj h
    exact .reset
  | warm b =>
    obtain rfl := Option.some.inj h
    exact .warm b

end

/-! ### One call -/

/-- The additional attempts of the first pass. -/
def extra (r : ℤ) : ℕ := (max 0 r).toNat

/-- What the consumer saw of the attempts that failed has no payload, and nothing was seen before the
    second pass; the attempts are bounded; and a call that ends without an error has an attempt that
    did, after attempts that all failed. -/
structure Stream.Single (r : ℤ) (t : Stream) : Prop where
  quiet : ∀ ev ∈ t.past, ev.has_payload = false
  silent : t.fallback = true → t.past = []
  bounded : t.made ≤ 1 + extra r ∨ t.made ≤ 2 + extra r ∧
    ∃ e, some e ∈ t.outcomes ∧ e.caught = true ∧ e.is_prefix_cache_failure = true
  succeeded : t.stage = .ended none → ∃ errors : List Error, t.outcomes = errors.map some ++ [none]
  failed : t.stage ≠ .ended none → ∃ errors : List Error, t.outcomes = errors.map some

/-- With what the steps need besides. -/
structure Stream.Inv (r : ℤ) (t : Stream) : Prop extends Stream.Single r t where
  tracked : t.payload_seen = false → ∀ ev ∈ t.events, ev.has_payload = false
  yielded : t.fallback = false → t.yielded_any = false → t.past = [] ∧ t.events = []
  first : t.fallback = false → t.made = t.attempt + 1 ∧ t.attempt < 1 + extra r
  pausing : t.stage = .backing_off →
    t.fallback = false ∧ t.attempt < extra r ∧ t.events = []

namespace Stream.Inv
variable {r : ℤ} {t : Stream} {e : Error}

theorem call (s : Session) (a : Args) : (Stream.call s a).Inv r where
  quiet := by simp [Stream.call]
  silent := fun _ => rfl
  bounded := Or.inl (by simp [Stream.call])
  succeeded := fun h => by cases h
  failed := fun _ => ⟨[], rfl⟩
  tracked := by simp [Stream.call]
  yielded := fun _ _ => ⟨rfl, rfl⟩
  first := fun _ => ⟨rfl, by simp only [Stream.call]; omega⟩
  pausing := fun h => by cases h

theorem yield (h : t.Inv r) (hs : t.stage = .streaming) (evs : List LLMEvent) :
    (t.yield evs).Inv r where
  quiet := h.quiet
  silent := h.silent
  bounded := h.bounded
  succeeded := h.succeeded
  failed := h.failed
  tracked := by
    intro hseen ev hev
    simp only [Stream.yield, Bool.or_eq_false_iff, List.any_eq_false] at hseen
    rcases List.mem_append.1 hev with hev | hev
    · exact h.tracked hseen.1 ev hev
    · simpa using hseen.2 ev hev
  yielded := by
    intro hpass hyielded
    have hpass : t.fallback = false := hpass
    simp only [Stream.yield, hpass, Bool.or_eq_false_iff, Bool.not_false, Bool.true_and,
      Bool.not_eq_false', List.isEmpty_iff] at hyielded
    obtain ⟨hpast, hevents⟩ := h.yielded hpass hyielded.1
    exact ⟨hpast, by simp [Stream.yield, hevents, hyielded.2]⟩
  first := h.first
  pausing := fun hp => by rw [Stream.yield, hs] at hp; cases hp

/-- An error is added to the ends of the attempts. -/
theorem failed_concat (h : t.Inv r) (hs : t.stage ≠ .ended none) (e : Error) :
    ∃ errors : List Error, t.outcomes ++ [some e] = errors.map some := by
  obtain ⟨errors, herrors⟩ := h.failed hs
  exact ⟨errors ++ [e], by simp [herrors]⟩

theorem pause (h : t.Inv r) (hs : t.stage = .streaming) (hretry : t.retries r e = true) :
    Stream.Inv r { t.set_aside e with stage := .backing_off } := by
  simp only [Stream.retries, Bool.and_eq_true, Bool.not_eq_true', decide_eq_true_eq] at hretry
  obtain ⟨⟨hseen, -⟩, hattempts⟩ := hretry
  have hpass : t.fallback = false := by
    cases hfallback : t.fallback with
    | false => rfl
    | true =>
      rw [Stream.attempts, hfallback] at hattempts
      simp at hattempts
  have hattempt : t.attempt < extra r := by
    rw [Stream.attempts, hpass] at hattempts
    simp only [Bool.false_eq_true, if_false] at hattempts
    unfold extra
    omega
  have hevents := h.tracked hseen
  obtain ⟨hmade, hlt⟩ := h.first hpass
  exact {
    quiet := by
      intro ev hev
      rcases List.mem_append.1 hev with hev | hev
      · exact h.quiet ev hev
      · exact hevents ev hev
    silent := fun hfallback => absurd (hpass.symm.trans hfallback) (by simp)
    bounded := Or.inl (by simp only [Stream.set_aside]; omega)
    succeeded := fun hend => by cases hend
    failed := fun _ => h.failed_concat (by simp [hs]) e
    tracked := by simp [Stream.set_aside]
    yielded := by
      intro _ hyielded
      obtain ⟨hpast, hevents⟩ := h.yielded hpass hyielded
      exact ⟨by simp [Stream.set_aside, hpast, hevents], rfl⟩
    first := fun _ => ⟨hmade, hlt⟩
    pausing := fun _ => ⟨hpass, hattempt, rfl⟩ }

theorem fall_back (h : t.Inv r) (hs : t.stage = .streaming) (hrejected : t.rejected e = true)
    (hyielded : t.yielded_any = false) (s : Session) : ((t.set_aside e).fall_back s).Inv r := by
  simp only [Stream.rejected, Bool.and_eq_true, Bool.not_eq_true'] at hrejected
  obtain ⟨⟨⟨hcaught, hpass⟩, -⟩, hfailure⟩ := hrejected
  obtain ⟨hpast, hevents⟩ := h.yielded hpass hyielded
  have hnone : (t.set_aside e).past = [] := by simp [Stream.set_aside, hpast, hevents]
  obtain ⟨hmade, hlt⟩ := h.first hpass
  exact {
    quiet := by simp [Stream.fall_back, hnone]
    silent := fun _ => hnone
    bounded := Or.inr ⟨by simp only [Stream.fall_back, Stream.set_aside]; omega,
      e, by simp [Stream.fall_back, Stream.set_aside], hcaught, hfailure⟩
    succeeded := fun hend => by cases hend
    failed := fun _ => h.failed_concat (by simp [hs]) e
    tracked := by simp [Stream.fall_back, Stream.set_aside]
    yielded := fun hfirst => by cases hfirst
    first := fun hfirst => by cases hfirst
    pausing := fun hp => by cases hp }

theorem finish (h : t.Inv r) (hs : t.stage = .streaming) (raised : Option Error) :
    (t.finish raised).Inv r where
  quiet := h.quiet
  silent := h.silent
  bounded := h.bounded.imp_right fun hmany => ⟨hmany.1, hmany.2.imp fun _ hmem =>
    ⟨List.mem_append_left _ hmem.1, hmem.2⟩⟩
  succeeded := by
    intro hend
    cases raised with
    | none =>
      obtain ⟨errors, herrors⟩ := h.failed (by simp [hs])
      exact ⟨errors, by simp [Stream.finish, herrors]⟩
    | some e => cases hend
  failed := by
    intro hend
    cases raised with
    | none => exact absurd rfl hend
    | some e => exact h.failed_concat (by simp [hs]) e
  tracked := h.tracked
  yielded := h.yielded
  first := h.first
  pausing := fun hp => by cases hp

theorem cancel (h : t.Inv r) (hs : t.stage = .backing_off) (e : Error) :
    Stream.Inv r { t with stage := .ended (some e) } where
  quiet := h.quiet
  silent := h.silent
  bounded := h.bounded
  succeeded := fun hend => by cases hend
  failed := fun _ => h.failed (by simp [hs])
  tracked := h.tracked
  yielded := h.yielded
  first := h.first
  pausing := fun hp => by cases hp

theorem next_attempt (h : t.Inv r) (hs : t.stage = .backing_off) : t.next_attempt.Inv r := by
  obtain ⟨hpass, hattempt, hevents⟩ := h.pausing hs
  obtain ⟨hmade, -⟩ := h.first hpass
  exact {
    quiet := h.quiet
    silent := h.silent
    bounded := Or.inl (by simp only [Stream.next_attempt]; omega)
    succeeded := fun hend => by cases hend
    failed := fun _ => h.failed (by simp [hs])
    tracked := by simp [Stream.next_attempt, hevents]
    yielded := h.yielded
    first := fun _ => ⟨by simp only [Stream.next_attempt]; omega,
      by simp only [Stream.next_attempt]; omega⟩
    pausing := fun hp => by cases hp }

theorem moved {i : ℕ} {t' : Stream} {entries : List Entry} (h : t.Inv r)
    (hm : Moved r i t t' entries) : t'.Inv r := by
  cases hm with
  | nothing => exact h
  | yields evs hs => exact h.yield hs evs
  | pauses hs hretry => exact h.pause hs hretry
  | falls_back warmed hs hrejected hyielded => exact h.fall_back hs hrejected hyielded _
  | rejected hs => exact h.finish hs _
  | finishes raised hs => exact h.finish hs raised
  | cancelled e hs => exact h.cancel hs e
  | wakes hs => exact h.next_attempt hs

end Stream.Inv

/-! ### Requests with `prefix_cache` -/

/-- The `i`-th call was made when the session was not latched, and was not rejected since. -/
def Older (log : List Entry) (i : ℕ) : Prop :=
  ∃ pre post, log = pre ++ .called i :: post ∧ latched pre = false ∧ .rejected i ∉ post

/-- A request with `prefix_cache` that the caller did not ask for comes from an older call. -/
def OlderOnly (c : State) : Prop :=
  ∀ pre i post t, c.log = pre ++ .request i true :: post → c.streams[i]? = some t →
    t.args.prefix_cache ≠ some true → Older pre i

section
variable {r : ℤ} {c c' : State} {log : List Entry} {i j : ℕ} {t t' : Stream} {entries : List Entry}

theorem latched_append (log entries : List Entry) :
    latched (log ++ entries) = entries.foldl Entry.latch (latched log) := by
  simp [latched]

theorem Older.append (h : Older log i) (hno : .rejected i ∉ entries) : Older (log ++ entries) i := by
  obtain ⟨pre, post, rfl, hlatched, hpost⟩ := h
  refine ⟨pre, post ++ entries, by simp, hlatched, fun hmem => ?_⟩
  rcases List.mem_append.1 hmem with hmem | hmem
  · exact hpost hmem
  · exact hno hmem

/-- A request is among the old entries, or among the new ones. -/
theorem request_split {pre post : List Entry} {x : Entry}
    (h : log ++ entries = pre ++ x :: post) :
    (∃ post', log = pre ++ x :: post') ∨ ∃ mid, pre = log ++ mid ∧ entries = mid ++ x :: post := by
  rcases List.append_eq_append_iff.1 h with ⟨mid, hpre, hentries⟩ | ⟨mid, hlog, hentries⟩
  · exact Or.inr ⟨mid, hpre, hentries⟩
  · cases mid with
    | nil =>
      refine Or.inr ⟨[], by simpa using hlog.symm, by simpa using hentries.symm⟩
    | cons y mid =>
      obtain ⟨rfl, rfl⟩ := List.cons.inj hentries
      exact Or.inl ⟨mid, hlog⟩

/-- A call keeps its arguments. -/
theorem Moved.args (h : Moved r i t t' entries) : t'.args = t.args := by
  cases h <;> rfl

/-- A rejection that a call logs is its own. -/
theorem Moved.rejected_own (h : Moved r i t t' entries) (hne : i ≠ j) : .rejected j ∉ entries := by
  cases h <;> simp [Ne.symm hne]

/-- On a session that is latched no call sends `prefix_cache` of its own. -/
theorem flag_latched {a : Args} {warmed : Bool} (hasks : a.prefix_cache ≠ some true) :
    Session.flag ⟨warmed, true⟩ a = false := by
  cases hargs : a.prefix_cache with
  | none => simp [Session.flag, Session.use_prefix_cache, hargs]
  | some b =>
    cases b with
    | false => simp [Session.flag, hargs]
    | true => exact absurd hargs hasks

/-- A call that goes on with `prefix_cache`, unasked, was not rejected. -/
theorem Moved.flagged (h : Moved r i t t' entries) (hasks : t.args.prefix_cache ≠ some true)
    (hflag : t'.flag = true) (hlive : ∀ raised, t'.stage ≠ .ended raised) :
    t.flag = true ∧ (∀ raised, t.stage ≠ .ended raised) ∧ .rejected i ∉ entries := by
  cases h with
  | nothing => exact ⟨hflag, hlive, by simp⟩
  | yields evs hs => exact ⟨hflag, by simp [hs], by simp⟩
  | pauses hs => exact ⟨hflag, by simp [hs], by simp⟩
  | falls_back warmed hs =>
    have hoff : (Session.mk warmed true).flag t.args = true := hflag
    rw [flag_latched hasks] at hoff
    cases hoff
  | rejected => exact absurd rfl (hlive _)
  | finishes => exact absurd rfl (hlive _)
  | cancelled => exact absurd rfl (hlive _)
  | wakes hs => exact ⟨hflag, by simp [hs], by simp⟩

/-- Only an attempt after a pause sends `prefix_cache` again, unasked. -/
theorem Moved.requested {mid post : List Entry} (h : Moved r i t t' entries)
    (hasks : t.args.prefix_cache ≠ some true) (hmem : entries = mid ++ .request j true :: post) :
    j = i ∧ mid = [] ∧ t.flag = true ∧ t.stage = .backing_off := by
  cases h with
  | falls_back warmed =>
    rw [flag_latched hasks] at hmem
    rcases mid with _ | ⟨x, _ | ⟨y, mid⟩⟩ <;> simp at hmem
  | wakes hs =>
    cases mid with
    | nil =>
      obtain ⟨hrequest, -⟩ := List.cons.inj hmem
      obtain ⟨rfl, hflag⟩ := Entry.request.inj hrequest
      exact ⟨rfl, rfl, hflag, hs⟩
    | cons x mid => simp at hmem
  | rejected => rcases mid with _ | ⟨x, mid⟩ <;> simp at hmem
  | _ => simp at hmem

end

/-! ### Runs -/

/-- Every call, and what the log says of the session and of the calls that go on. -/
structure Inv (r : ℤ) (c : State) : Prop where
  single : ∀ t ∈ c.streams, t.Inv r
  latch : c.session.prefix_cache_disabled = latched c.log
  older : ∀ i t, c.streams[i]? = some t → t.args.prefix_cache ≠ some true → t.flag = true →
    (∀ raised, t.stage ≠ .ended raised) → Older c.log i
  older_only : OlderOnly c
  named : ∀ i b, .request i b ∈ c.log → i < c.streams.length

section
variable {r : ℤ} {c c' : State} {i : ℕ} {t t' : Stream} {entries : List Entry}

theorem inv_init (warmed : Bool) : Inv r (State.init warmed) where
  single := by simp [State.init]
  latch := rfl
  older := by simp [State.init]
  older_only := by simp [OlderOnly, State.init]
  named := by simp [State.init]

theorem Inv.call (h : Inv r c) (a : Args) : Inv r { c with
    streams := c.streams ++ [.call c.session a]
    log := c.log ++ [.called c.streams.length, .request c.streams.length (c.session.flag a)] } := by
  have hcalled : latched (c.log ++ [.called c.streams.length,
      .request c.streams.length (c.session.flag a)]) = latched c.log := by
    rw [latched_append]
    rfl
  -- a call that is made with the flag, unasked, is made when the session is not latched
  have hopen : a.prefix_cache ≠ some true → c.session.flag a = true → latched c.log = false := by
    intro hasks hflag
    rw [← h.latch]
    by_contra hlatched
    have hon : c.session.prefix_cache_disabled = true := by simpa using hlatched
    have hsession : c.session = ⟨c.session.prefix_cache_warmed, true⟩ := by rw [← hon]
    rw [hsession, flag_latched hasks] at hflag
    cases hflag
  exact {
    single := by
      intro t ht
      rcases List.mem_append.1 ht with ht | ht
      · exact h.single t ht
      · rw [List.mem_singleton.1 ht]
        exact Stream.Inv.call _ a
    latch := h.latch.trans hcalled.symm
    older := by
      intro i t ht hasks hflag hlive
      rcases get_concat_iff.1 ht with ht | ⟨rfl, rfl⟩
      · exact (h.older i t ht hasks hflag hlive).append (by simp)
      · exact ⟨c.log, [.request c.streams.length (c.session.flag a)], rfl, hopen hasks hflag, by simp⟩
    older_only := by
      intro pre i post t hlog ht hasks
      rcases request_split hlog with ⟨post', hold⟩ | ⟨mid, rfl, hnew⟩
      · have hlt : i < c.streams.length := h.named i true (by rw [hold]; simp)
        refine h.older_only pre i post' t hold ?_ hasks
        rcases get_concat_iff.1 ht with ht | ⟨rfl, -⟩
        · exact ht
        · exact absurd hlt (Nat.lt_irrefl _)
      · rcases mid with _ | ⟨x, _ | ⟨y, mid⟩⟩
        · simp at hnew
        · simp only [List.cons_append, List.nil_append, List.cons.injEq, Entry.request.injEq] at hnew
          obtain ⟨rfl, ⟨rfl, hflag⟩, -⟩ := hnew
          rcases get_concat_iff.1 ht with ht | ⟨-, rfl⟩
          · exact absurd (lt_length_of_get ht) (Nat.lt_irrefl _)
          · exact ⟨c.log, [], rfl, hopen hasks hflag, by simp⟩
        · simp at hnew
    named := by
      intro i b hmem
      rw [List.length_append, List.length_singleton]
      rcases List.mem_append.1 hmem with hmem | hmem
      · exact Nat.lt_succ_of_lt (h.named i b hmem)
      · simp only [List.mem_cons, Entry.request.injEq, List.not_mem_nil, or_false, reduceCtorEq,
          false_or] at hmem
        rw [hmem.1]
        exact Nat.lt_succ_self _ }

theorem Inv.moved (h : Inv r c) (ht : c.streams[i]? = some t) (hm : Moved r i t t' entries)
    (warmed : Bool) :
    Inv r ⟨⟨warmed, entries.foldl Entry.latch c.session.prefix_cache_disabled⟩,
      c.streams.set i t', c.log ++ entries⟩ where
  single := by
    intro u hu
    rcases List.mem_or_eq_of_mem_set hu with hu | rfl
    · exact h.single u hu
    · exact (h.single t (List.mem_of_getElem? ht)).moved hm
  latch := by rw [latched_append, ← h.latch]
  older := by
    intro j u hu hasks hflag hlive
    rcases (get_set_iff ht).1 hu with ⟨rfl, rfl⟩ | ⟨hne, hu⟩
    · rw [hm.args] at hasks
      obtain ⟨hflag, hlive, hno⟩ := hm.flagged hasks hflag hlive
      exact (h.older i t ht hasks hflag hlive).append hno
    · exact (h.older j u hu hasks hflag hlive).append (hm.rejected_own hne)
  older_only := by
    intro pre j post u hlog hu hasks
    have hold : ∃ v, c.streams[j]? = some v ∧ v.args = u.args := by
      rcases (get_set_iff ht).1 hu with ⟨rfl, rfl⟩ | ⟨-, hu⟩
      · exact ⟨t, ht, hm.args.symm⟩
      · exact ⟨u, hu, rfl⟩
    obtain ⟨v, hv, hargs⟩ := hold
    rw [← hargs] at hasks
    rcases request_split hlog with ⟨post', hold⟩ | ⟨mid, rfl, hnew⟩
    · exact h.older_only pre j post' v hold hv hasks
    · have hi : i = j := by
        cases hm with
        | falls_back => rcases mid with _ | ⟨x, _ | ⟨y, mid⟩⟩ <;> simp_all
        | wakes => rcases mid with _ | ⟨x, mid⟩ <;> simp_all
        | rejected => rcases mid with _ | ⟨x, mid⟩ <;> simp at hnew
        | _ => simp at hnew
      subst hi
      obtain rfl : t = v := Option.some.inj (ht.symm.trans hv)
      obtain ⟨-, rfl, hflag, hs⟩ := hm.requested hasks hnew
      rw [List.append_nil]
      exact h.older i t ht hasks hflag (by simp [hs])
  named := by
    intro j b hmem
    rw [List.length_set]
    rcases List.mem_append.1 hmem with hmem | hmem
    · exact h.named j b hmem
    · have hi : j = i := by cases hm <;> simp_all
      rw [hi]
      exact lt_length_of_get ht

theorem inv_step (h : Inv r c) (hstep : Stepped r c c') : Inv r c' := by
  cases hstep with
  | call a => exact h.call a
  | moved warmed ht hm => exact h.moved ht hm warmed
  | reset =>
    exact {
      single := h.single
      latch := by rw [latched_append]; rfl
      older := fun i t ht hasks hflag hlive => (h.older i t ht hasks hflag hlive).append (by simp)
      older_only := by
        intro pre i post t hlog ht hasks
        rcases request_split hlog with ⟨post', hold⟩ | ⟨mid, rfl, hnew⟩
        · exact h.older_only pre i post' t hold ht hasks
        · rcases mid with _ | ⟨x, mid⟩ <;> simp at hnew
      named := fun i b hmem => h.named i b (by simpa using hmem) }
  | warm b => exact ⟨h.single, h.latch, h.older, h.older_only, h.named⟩

/-- Whatever the upstream does and however the calls on a session interleave, each call shows its
    consumer the payload of one attempt, makes a bounded number of them, and ends without an error only
    when its last attempt did; and a request with `prefix_cache` that its caller did not ask for comes
    from a call made when the session was not latched, that was not rejected since. -/
theorem streams_single {warmed : Bool} {as : List Label} (hrun : Run (step r) (State.init warmed) as c) :
    (∀ t ∈ c.streams, t.Single r) ∧ OlderOnly c := by
  have hinv : Inv r c := Run.invariant (I := Inv r) (fun h hst => inv_step h (step_inv hst))
    (inv_init warmed) hrun
  exact ⟨fun t ht => (hinv.single t ht).toSingle, hinv.older_only⟩

end

def server_error : Error := ⟨.api (some 503), "KV cache mismatch"⟩

def refused : Error := ⟨.api (some 400), "prefix_cache requires prefix_messages"⟩

/-- Two attempts, and the first shows a delta without payload: when the second is rejected too, the
    call ends with the error, because something was shown. -/
theorem streams_single_run : ∃ c, (∀ t ∈ c.streams, t.Single 1) ∧ OlderOnly c ∧
    c.streams.map Stream.stage = [.ended (some server_error)] := by
  obtain ⟨c, hrun, hc⟩ := Run.of_replay_any (State.next 1) (State.init true)
    [.call ⟨true, none⟩, .chunk 0 (some ⟨some ⟨none, [⟨some 0, none, none⟩]⟩, none⟩),
      .error 0 server_error, .wakes 0, .error 0 server_error]
    (fun c => decide (c.streams.map Stream.stage = [.ended (some server_error)])) (by decide +kernel)
  obtain ⟨hsingle, holder⟩ := streams_single hrun
  exact ⟨c, hsingle, holder, of_decide_eq_true hc⟩

/-- A delta without payload is shown before the attempt that succeeds, an error that names the cache
    is transient and tried again as it was, and a call that was already made when another one was
    rejected tries again with `prefix_cache`. -/
theorem retried_as_it_was :
    (¬ ∀ (r : ℤ) (warmed : Bool) as c, Run (step r) (State.init warmed) as c →
      ∀ t ∈ c.streams, t.past = [] ∨ t.events = []) ∧
    (¬ ∀ (r : ℤ) (warmed : Bool) as c, Run (step r) (State.init warmed) as c →
      ∀ t ∈ c.streams, (∃ e, some e ∈ t.outcomes ∧ e.is_prefix_cache_failure = true) →
        t.stage = .streaming → t.flag = false) ∧
    ¬ ∀ (r : ℤ) (warmed : Bool) as c, Run (step r) (State.init warmed) as c →
      ∀ pre i post, c.log = pre ++ .request i true :: post → latched pre = false := by
  refine ⟨fun hall => ?_, fun hall => ?_, fun hall => ?_⟩
  · obtain ⟨c, hrun, hc⟩ := Run.of_replay_any (State.next 1) (State.init true)
      [.call ⟨true, none⟩, .chunk 0 (some ⟨some ⟨none, [⟨some 0, none, none⟩]⟩, none⟩),
        .error 0 server_error, .wakes 0, .chunk 0 (some ⟨some ⟨some "hi", []⟩, none⟩)]
      (fun c => c.streams.any fun t => decide (t.past ≠ [] ∧ t.events ≠ [])) (by decide +kernel)
    obtain ⟨t, ht, hmixed⟩ := List.any_eq_true.1 hc
    obtain ⟨hpast, hevents⟩ := of_decide_eq_true hmixed
    rcases hall 1 true _ c hrun t ht with h | h
    · exact hpast h
    · exact hevents h
  · obtain ⟨c, hrun, hc⟩ := Run.of_replay_any (State.next 1) (State.init true)
      [.call ⟨true, none⟩, .error 0 server_error, .wakes 0]
      (fun c => c.streams.any fun t =>
        decide (some server_error ∈ t.outcomes ∧ t.stage = .streaming ∧ t.flag = true))
      (by decide +kernel)
    obtain ⟨t, ht, hagain⟩ := List.any_eq_true.1 hc
    obtain ⟨herror, hs, hflag⟩ := of_decide_eq_true hagain
    have hoff := hall 1 true _ c hrun t ht ⟨server_error, herror, by decide +kernel⟩ hs
    rw [hflag] at hoff
    cases hoff
  · obtain ⟨c, hrun, hc⟩ := Run.of_replay_any (State.next 1) (State.init true)
      [.call ⟨true, none⟩, .call ⟨true, none⟩, .error 0 refused, .error 1 ⟨.api_connection, ""⟩,
        .wakes 1]
      (fun c => decide (c.log = [.called 0, .request 0 true, .called 1, .request 1 true, .rejected 0,
        .request 0 false, .request 1 true])) (by decide +kernel)
    have hopen := hall 1 true _ c hrun [.called 0, .request 0 true, .called 1, .request 1 true,
      .rejected 0, .request 0 false] 1 [] (of_decide_eq_true hc)
    exact absurd hopen (by decide)

end LocalVoice.LlmBackend
