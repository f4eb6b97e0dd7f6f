import LocalVoice.Lib.Tasks
import LocalVoice.Lib.Run

/-! `SessionLimiter` of `server/core/session_limiter.py`, with the calls of `try_acquire` and `release` in
    any threads, and the counter and the gauge of `server/core/metrics.py` that they set. A step is a
    section of one call: under the lock of the limiter, under that of the metrics, or the write of the
    gauge behind it.

        try_acquire   acquiring ─(lock)─▶ counted ─(metrics)─▶ measured ─(gauge)─▶ granted
                                ╰───────▶ refused
        release       releasing ─(lock)─▶ freed ─(metrics)─▶ lowered ─(gauge)─▶ returned
                                ╰────────────────────────────────────────────────▲

    Any call may release any token, again and at the same time as others; `init_limiter` may put a new
    limiter in the place of one that still has sessions. -/

namespace LocalVoice.Admission
open LocalVoice.Lib

structure SessionLimiter where
  limit : ℕ
  active : ℕ
  limit_pos : 0 < limit

/-- The section of `try_acquire` under the lock. -/
def SessionLimiter.enter (L : SessionLimiter) : Option SessionLimiter :=
  if L.limit ≤ L.active then none else some { L with active := L.active + 1 }

/-- The section of `_release` under the lock, for a token that is not released. -/
def SessionLimiter.leave (L : SessionLimiter) : SessionLimiter :=
  { L with active := if 0 < L.active then L.active - 1 else L.active }

/-- A token, with the number of its limiter. -/
structure SessionToken where
  limiter : ℕ
  released : Bool

/-- A call of `try_acquire` on a limiter, or of `release` on a token. -/
inductive Call where
  | acquiring (l : ℕ)
  | counted (l : ℕ)
  | measured (l value : ℕ)
  | granted (t : ℕ)
  | refused (l : ℕ)
  | releasing (t : ℕ)
  | freed
  | lowered (value : ℕ)
  | returned
  deriving DecidableEq

/-- The limiters that were made and the tokens that were returned, `_limiter`, and the metrics. -/
structure World where
  limiters : List SessionLimiter
  current : Option ℕ
  tokens : List SessionToken
  sessions_active : ℕ
  gauge : ℕ
  calls : List Call

def World.init : World := ⟨[], none, [], 0, 0, []⟩

/-- `run i ok` is the next section of a call; `ok` says whether the gauge takes what it is set to. -/
inductive Event where
  | init_limiter (limit : ℕ)
  | try_acquire
  | release (t : ℕ)
  | run (i : ℕ) (ok : Bool)

/-- The next section of a call that stands at `c`. -/
def World.section_of (s : World) (i : ℕ) (ok : Bool) : Call → Option World
  | .acquiring l => do
    let L ← s.limiters[l]?
    match L.enter with
    | none => some { s with calls := s.calls.set i (.refused l) }
    | some L' => some { s with limiters := s.limiters.set l L', calls := s.calls.set i (.counted l) }
  | .counted l =>
    some { s with sessions_active := s.sessions_active + 1,
                  calls := s.calls.set i (.measured l (s.sessions_active + 1)) }
  | .measured l value =>
    some { s with gauge := if ok then value else s.gauge, tokens := s.tokens ++ [⟨l, false⟩],
                  calls := s.calls.set i (.granted s.tokens.length) }
  | .releasing t => do
    let tok ← s.tokens[t]?
    if tok.released then some { s with calls := s.calls.set i .returned }
    else
      let L ← s.limiters[tok.limiter]?
      some { s with limiters := s.limiters.set tok.limiter L.leave,
                    tokens := s.tokens.set t { tok with released := true },
                    calls := s.calls.set i .freed }
  | .freed =>
    let value := if 0 < s.sessions_active then s.sessions_active - 1 else s.sessions_active
    some { s with sessions_active := value, calls := s.calls.set i (.lowered value) }
  | .lowered value =>
    some { s with gauge := if ok then value else s.gauge, calls := s.calls.set i .returned }
  | .granted _ | .refused _ | .returned => none

def World.step (s : World) : Event → Option World
  | .init_limiter limit =>
    if h : 0 < limit then
      some { s with limiters := s.limiters ++ [⟨limit, 0, h⟩], current := some s.limiters.length }
    else none
  | .try_acquire => s.current.map fun l => { s with calls := s.calls ++ [.acquiring l] }
  | .release t => if t < s.tokens.length then some { s with calls := s.calls ++ [.releasing t] } else none
  | .run i ok => s.calls[i]?.bind fun c => s.section_of i ok c

/-- `Runs es s`: some calls, in some interleaving, lead to `s`. -/
def Runs (es : List Event) (s : World) : Prop := Run (fun s e t => World.step s e = some t) World.init es s

/-! ### Who has a slot -/

/-- A call that has taken a slot of the limiter and has not returned its token. -/
def Call.holds (l : ℕ) : Call → ℕ
  | .counted k | .measured k _ => if k = l then 1 else 0
  | _ => 0

/-- A token of the limiter that is not released. -/
def SessionToken.holds (l : ℕ) (tok : SessionToken) : ℕ :=
  if tok.limiter = l ∧ tok.released = false then 1 else 0

/-- A token that is not released. -/
def SessionToken.live (tok : SessionToken) : ℕ := if tok.released = false then 1 else 0

/-- A call that is in the metrics and has no live token: one that will return it, or has released it. -/
def Call.metered : Call → ℕ
  | .measured _ _ | .freed => 1
  | _ => 0

/-- What the limiter of a number counts. -/
def World.active (s : World) (l : ℕ) : ℕ := (s.limiters[l]?.map SessionLimiter.active).getD 0

/-- The slots of a limiter that are taken. -/
def World.taken (s : World) (l : ℕ) : ℕ :=
  total (Call.holds l) s.calls + total (SessionToken.holds l) s.tokens

/-- Every limiter counts its slots that are taken, no more than its limit, and the metrics count all. -/
structure Counted (s : World) : Prop where
  active : ∀ l, s.active l = s.taken l
  limit : ∀ L ∈ s.limiters, L.active ≤ L.limit
  metrics : s.sessions_active = total Call.metered s.calls + total SessionToken.live s.tokens

theorem counted_init : Counted World.init := ⟨fun _ => rfl, fun _ h => absurd h List.not_mem_nil, rfl⟩

theorem active_set {s : World} {l : ℕ} {L L' : SessionLimiter} (h : s.limiters[l]? = some L) (k : ℕ) :
    (((s.limiters.set l L')[k]?.map SessionLimiter.active).getD 0 = if l = k then L'.active else s.active k) := by
  have hlt := lt_length_of_get h
  by_cases hlk : l = k
  · subst hlk
    rw [List.getElem?_set_self hlt, if_pos rfl]
    rfl
  · rw [List.getElem?_set_ne hlk, if_neg hlk, World.active]

theorem enter_cases {L L' : SessionLimiter} (h : L.enter = some L') :
    L.active < L.limit ∧ L'.limit = L.limit ∧ L'.active = L.active + 1 := by
  rw [SessionLimiter.enter] at h
  split at h
  · cases h
  · next hlt =>
    cases h
    exact ⟨Nat.lt_of_not_le hlt, rfl, rfl⟩

/-- A live token has a slot of its limiter. -/
theorem live_taken {s : World} {t : ℕ} {tok : SessionToken} (h : s.tokens[t]? = some tok)
    (hlive : tok.released = false) : 0 < s.taken tok.limiter := by
  have hweight := total_set (f := SessionToken.holds tok.limiter) (b := { tok with released := true }) h
  have hone : SessionToken.holds tok.limiter tok = 1 := if_pos ⟨rfl, hlive⟩
  have hzero : SessionToken.holds tok.limiter { tok with released := true } = 0 := if_neg (by simp)
  rw [World.taken]
  omega

/-! ### Steps -/

/-- A call that moves, in a world with the limiters and tokens that it leaves. -/
theorem Counted.moves {s : World} (h : Counted s) {i : ℕ} {c c' : Call} (hc : s.calls[i]? = some c)
    {limiters : List SessionLimiter} {tokens : List SessionToken} {sessions_active gauge : ℕ}
    {current : Option ℕ}
    (hactive : ∀ l, ((limiters[l]?.map SessionLimiter.active).getD 0) + c.holds l +
      total (SessionToken.holds l) s.tokens = s.active l + c'.holds l + total (SessionToken.holds l) tokens)
    (hlimit : ∀ L ∈ limiters, L.active ≤ L.limit)
    (hmetrics : sessions_active + c.metered + total SessionToken.live s.tokens =
      s.sessions_active + c'.metered + total SessionToken.live tokens) :
    Counted ⟨limiters, current, tokens, sessions_active, gauge, s.calls.set i c'⟩ := by
  refine ⟨fun l => ?_, hlimit, ?_⟩
  · have hmove := total_set (f := Call.holds l) (b := c') hc
    have hold := h.active l
    have hnew := hactive l
    simp only [World.active, World.taken] at hold hnew ⊢
    omega
  · have hmove := total_set (f := Call.metered) (b := c') hc
    have hold := h.metrics
    simp only
    omega

theorem Counted.section_of {s s' : World} {i : ℕ} {ok : Bool} {c : Call} (h : Counted s)
    (hc : s.calls[i]? = some c) (hstep : s.section_of i ok c = some s') : Counted s' := by
  cases c with
  | acquiring l =>
    obtain ⟨L, hL, hstep⟩ := Option.bind_eq_some_iff.1 hstep
    split at hstep
    · cases hstep
      exact h.moves hc (fun _ => rfl) h.limit rfl
    · next L' hL' =>
      cases hstep
      obtain ⟨hroom, hlim, hactive⟩ := enter_cases hL'
      have hold : s.active l = L.active := by rw [World.active, hL]; rfl
      refine h.moves hc (fun k => ?_) (fun M hM => ?_) rfl
      · rw [active_set hL]
        simp only [Call.holds]
        split
        · next hk =>
          subst hk
          omega
        · omega
      · rcases List.mem_or_eq_of_mem_set hM with hM | rfl
        · exact h.limit M hM
        · omega
  | counted l =>
    cases hstep
    exact h.moves hc (fun _ => rfl) h.limit (by simp only [Call.metered])
  | measured l value =>
    cases hstep
    refine h.moves hc (fun k => ?_) h.limit ?_
    · rw [total_concat]
      simp only [World.active, Call.holds, SessionToken.holds, and_true]
      omega
    · rw [total_concat]
      simp only [Call.metered, SessionToken.live, if_pos]
      omega
  | releasing t =>
    obtain ⟨tok, htok, hstep⟩ := Option.bind_eq_some_iff.1 hstep
    split at hstep
    · cases hstep
      exact h.moves hc (fun _ => rfl) h.limit rfl
    · next hlive =>
      rw [Bool.not_eq_true] at hlive
      obtain ⟨L, hL, hstep⟩ := Option.bind_eq_some_iff.1 hstep
      cases hstep
      have htaken := live_taken htok hlive
      have hold : s.active tok.limiter = L.active := by rw [World.active, hL]; rfl
      have hleave : L.leave.active + 1 = L.active := by
        rw [← h.active, hold] at htaken
        simp only [SessionLimiter.leave, if_pos htaken]
        omega
      refine h.moves hc (fun k => ?_) (fun M hM => ?_) ?_
      · have hmove := total_set (f := SessionToken.holds k) (b := { tok with released := true }) htok
        have hdead : SessionToken.holds k { tok with released := true } = 0 := if_neg (by simp)
        rw [active_set hL]
        simp only [Call.holds]
        split
        · next hk =>
          subst hk
          have hone : SessionToken.holds tok.limiter tok = 1 := if_pos ⟨rfl, hlive⟩
          omega
        · next hk =>
          have hnone : SessionToken.holds k tok = 0 := if_neg fun hkk => hk hkk.1
          omega
      · rcases List.mem_or_eq_of_mem_set hM with hM | rfl
        · exact h.limit M hM
        · have := h.limit L (List.mem_of_getElem? hL)
          simp only [SessionLimiter.leave] at hleave ⊢
          omega
      · have hmove := total_set (f := SessionToken.live) (b := { tok with released := true }) htok
        have hone : SessionToken.live tok = 1 := if_pos hlive
        have hdead : SessionToken.live { tok with released := true } = 0 := if_neg (by simp)
        simp only [Call.metered]
        omega
  | freed =>
    cases hstep
    have hone : 0 < s.sessions_active := by
      have hmove := total_set (f := Call.metered) (b := Call.returned) hc
      have hmetered : Call.metered .freed = 1 := rfl
      have hrest : Call.metered .returned = 0 := rfl
      have := h.metrics
      omega
    refine h.moves hc (fun _ => rfl) h.limit ?_
    rw [if_pos hone]
    simp only [Call.metered]
    omega
  | lowered value =>
    cases hstep
    exact h.moves hc (fun _ => rfl) h.limit rfl
  | granted t => cases hstep
  | refused l => cases hstep
  | returned => cases hstep

theorem Counted.step {s s' : World} {e : Event} (h : Counted s) (hstep : s.step e = some s') : Counted s' := by
  cases e with
  | init_limiter limit =>
    rw [World.step] at hstep
    split at hstep
    · next hpos =>
      cases hstep
      refine ⟨fun l => ?_, fun L hL => ?_, h.metrics⟩
      · have hold := h.active l
        have hnew : (⟨s.limiters ++ [⟨limit, 0, hpos⟩], some s.limiters.length, s.tokens, s.sessions_active,
            s.gauge, s.calls⟩ : World).active l = s.active l := by
          simp only [World.active]
          rcases Nat.lt_trichotomy l s.limiters.length with hlt | heq | hgt
          · rw [List.getElem?_append_left hlt]
          · subst heq
            simp
          · rw [List.getElem?_eq_none (by simp; omega), List.getElem?_eq_none (by omega)]
        rw [hnew]
        exact hold
      · rcases List.mem_append.1 hL with hL | hL
        · exact h.limit L hL
        · rw [List.mem_singleton.1 hL]
          exact Nat.zero_le _
    · cases hstep
  | try_acquire =>
    obtain ⟨l, -, rfl⟩ := Option.map_eq_some_iff.1 hstep
    refine ⟨fun k => ?_, h.limit, ?_⟩
    · have := h.active k
      simp only [World.active, World.taken, total_concat, Call.holds] at this ⊢
      exact this
    · simp only [total_concat, Call.metered]
      exact h.metrics
  | release t =>
    rw [World.step] at hstep
    split at hstep
    · cases hstep
      refine ⟨fun k => ?_, h.limit, ?_⟩
      · have := h.active k
        simp only [World.active, World.taken, total_concat, Call.holds] at this ⊢
        exact this
      · simp only [total_concat, Call.metered]
        exact h.metrics
    · cases hstep
  | run i ok =>
    obtain ⟨c, hc, hstep⟩ := Option.bind_eq_some_iff.1 hstep
    exact h.section_of hc hstep

theorem runs_counted {es : List Event} {s : World} (h : Runs es s) : Counted s :=
  h.invariant (I := Counted) (fun hs hstep => hs.step hstep) counted_init

/-! ### What a run shows -/

/-- A call that is not between two sections. -/
def Call.resting : Call → Bool
  | .granted _ | .refused _ | .returned => true
  | _ => false

theorem holds_resting {calls : List Call} (h : ∀ c ∈ calls, c.resting = true) (l : ℕ) :
    total (Call.holds l) calls = 0 :=
  total_eq_zero fun c hc => by
    have hrest := h c hc
    cases c <;> first | rfl | cases hrest

theorem metered_resting {calls : List Call} (h : ∀ c ∈ calls, c.resting = true) :
    total Call.metered calls = 0 :=
  total_eq_zero fun c hc => by
    have hrest := h c hc
    cases c <;> first | rfl | cases hrest

/-- In every run of any calls, a limiter counts the slots that are taken, never more than its limit; it
    refuses a call exactly when all of them are taken; and where no call is under way, it and the metrics
    count the tokens that are not released, however often each of the others was released. -/
theorem slots_exact {es : List Event} {s : World} (h : Runs es s) :
    (∀ (l : ℕ) (L : SessionLimiter), s.limiters[l]? = some L → L.active = s.taken l ∧ L.active ≤ L.limit) ∧
    (∀ (l : ℕ) (L : SessionLimiter) (i : ℕ) (ok : Bool) (s' : World), s.limiters[l]? = some L →
      s.calls[i]? = some (.acquiring l) → s.step (.run i ok) = some s' →
        (s'.calls[i]? = some (.refused l) ↔ s.taken l = L.limit)) ∧
    ((∀ c ∈ s.calls, c.resting = true) → s.sessions_active = total SessionToken.live s.tokens ∧
      ∀ (l : ℕ) (L : SessionLimiter), s.limiters[l]? = some L →
        L.active = total (SessionToken.holds l) s.tokens) := by
  have hcounted := runs_counted h
  have hactive : ∀ (l : ℕ) (L : SessionLimiter), s.limiters[l]? = some L → L.active = s.taken l := by
    intro l L hL
    rw [← hcounted.active l, World.active, hL]
    rfl
  refine ⟨fun l L hL => ⟨hactive l L hL, hcounted.limit L (List.mem_of_getElem? hL)⟩, ?_, fun hrest => ⟨?_, ?_⟩⟩
  · intro l L i ok s' hL hi hstep
    have hlimit := hcounted.limit L (List.mem_of_getElem? hL)
    have htaken := hactive l L hL
    have hlt := lt_length_of_get hi
    simp only [World.step, hi, Option.bind_some, World.section_of, hL, Option.bind_eq_bind,
      SessionLimiter.enter] at hstep
    by_cases hfull : L.limit ≤ L.active
    · rw [if_pos hfull] at hstep
      cases hstep
      simp only [List.getElem?_set_self hlt, true_iff]
      omega
    · rw [if_neg hfull] at hstep
      cases hstep
      simp only [List.getElem?_set_self hlt, Option.some_inj, reduceCtorEq, false_iff]
      omega
  · rw [hcounted.metrics, metered_resting hrest, Nat.zero_add]
  · intro l L hL
    rw [hactive l L hL, World.taken, holds_resting hrest, Nat.zero_add]

/-- One slot, of which the token is released by two calls at once while a third is refused. -/
theorem slots_exact_released_twice :
    ∃ es s, Runs es s ∧ s.calls = [.granted 0, .returned, .returned, .refused 0] ∧ s.sessions_active = 0 := by
  have hrun : Runs [.init_limiter 1, .try_acquire, .run 0 true, .run 0 true, .run 0 true, .release 0,
      .release 0, .try_acquire, .run 3 true, .run 1 true, .run 2 true, .run 1 true, .run 1 true]
      ⟨[⟨1, 0, by decide⟩], some 0, [⟨0, true⟩], 0, 0, [.granted 0, .returned, .returned, .refused 0]⟩ :=
    Run.of_replay rfl
  exact ⟨_, _, hrun, rfl, ((slots_exact hrun).2.2 (by decide)).1⟩

end LocalVoice.Admission
