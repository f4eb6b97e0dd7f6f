import LocalVoice.AsrInferenceGate.Slot

/-! An inference slot is held while the backend is busy. The invariant ties each handler's await to
    the call and the jobs of its utterance; the only way to a drain that has to wait is a
    cancellation, so with one cancellation for each handler nothing cuts the drain short. -/

namespace LocalVoice.AsrInferenceGate
open LocalVoice.Lib

/-! ### What a step of the gate leaves of the other calls -/

/-- A call with its future left out. -/
def Call.kind : Call → Call
  | .waiting _ _ => .waiting .pending false
  | c => c

def Gate.kind (s : Gate) (k : ℕ) : Option Call := (s.calls[k]?).map Call.kind

/-- Only call `k` has moved. -/
structure Moved (k : ℕ) (s t : Gate) : Prop where
  length : t.calls.length = s.calls.length
  others : ∀ j ≠ k, t.kind j = s.kind j

section
variable {s t : Gate} {k : ℕ} {c c' : Call}

theorem Gate.kind_inside : s.kind k = some .inside ↔ s.calls[k]? = some .inside := by
  rw [Gate.kind]
  cases s.calls[k]? with
  | none => simp
  | some c => cases c <;> simp [Call.kind]

theorem Gate.kind_rejected {depth : ℕ} :
    s.kind k = some (.rejected depth) ↔ s.calls[k]? = some (.rejected depth) := by
  rw [Gate.kind]
  cases s.calls[k]? with
  | none => simp
  | some c => cases c <;> simp [Call.kind]

theorem kind_set {ws : List ℕ} {n : ℕ} {r : ℤ} {ad : List ℕ} (hk : s.calls[k]? = some c) (j : ℕ) :
    Gate.kind { s with waiters := ws, total_acquired := n, running := r, admitted := ad,
                       calls := s.calls.set k c' } j =
      if k = j then some c'.kind else s.kind j := by
  simp only [Gate.kind, List.getElem?_set]
  split
  · simp [lt_length_of_get hk]
  · rfl

/-- `_wake_next` changes futures only. -/
theorem wake_next_kind (s : Gate) (j : ℕ) : s.wake_next.kind j = s.kind j := by
  rcases s.wake_cases s.waiters with ⟨_, i, mc, rest, _, _, hi, hwake⟩ | ⟨_, hwake⟩
  · rw [Gate.wake_next, hwake]
    refine (kind_set hi j).trans ?_
    split
    · next h => rw [← h, Gate.kind, hi]; rfl
    · rfl
  · rw [Gate.wake_next, hwake]
    rfl

theorem wake_next_length (s : Gate) : s.wake_next.calls.length = s.calls.length := by
  rcases s.wake_cases s.waiters with ⟨_, _, _, _, _, _, _, hwake⟩ | ⟨_, hwake⟩ <;>
    simp [Gate.wake_next, hwake]

/-- A call that is replaced, before or after the permit went on. -/
theorem moved_set {n : ℕ} {ws : List ℕ} (hk : s.calls[k]? = some c) :
    Moved k s { s with waiters := ws, total_acquired := n, calls := s.calls.set k c' } :=
  ⟨by simp, fun j hj => (kind_set hk j).trans (if_neg (Ne.symm hj))⟩

theorem Moved.wake_next (h : Moved k s t) : Moved k s t.wake_next :=
  ⟨(wake_next_length t).trans h.length, fun j hj => (wake_next_kind t j).trans (h.others j hj)⟩

theorem leave_spec (h : s.leave k = some t) :
    s.kind k = some .inside ∧ t.kind k = some .ended ∧ Moved k s t := by
  simp only [Gate.leave] at h
  split at h
  · next hk =>
    obtain rfl := Option.some.inj h
    refine ⟨Gate.kind_inside.2 hk, ?_, (moved_set hk).wake_next⟩
    exact (wake_next_kind _ k).trans ((kind_set hk k).trans (if_pos rfl))
  · cases h

theorem resume_spec (h : s.resume k = some t) :
    (t.kind k = some .inside ∨ t.kind k = some .ended) ∧ Moved k s t := by
  simp only [Gate.resume] at h
  split at h
  · next hk =>
    obtain rfl := Option.some.inj h
    exact ⟨.inl ((kind_set hk k).trans (if_pos rfl)), moved_set hk⟩
  · next hk =>
    obtain rfl := Option.some.inj h
    refine ⟨.inr ?_, (moved_set hk).wake_next⟩
    exact (wake_next_kind _ k).trans ((kind_set hk k).trans (if_pos rfl))
  · next hk =>
    obtain rfl := Option.some.inj h
    exact ⟨.inr ((kind_set hk k).trans (if_pos rfl)), moved_set hk⟩
  · cases h

theorem cancel_spec (h : s.cancel k = some t) : t.kind k = s.kind k ∧ Moved k s t := by
  simp only [Gate.cancel] at h
  split at h
  · next hk =>
    obtain rfl := Option.some.inj h
    refine ⟨((kind_set hk k).trans (if_pos rfl)).trans ?_, moved_set hk⟩
    rw [Gate.kind, hk]
    rfl
  · next hk =>
    obtain rfl := Option.some.inj h
    refine ⟨((kind_set hk k).trans (if_pos rfl)).trans ?_, moved_set hk⟩
    rw [Gate.kind, hk]
    rfl
  · obtain rfl := Option.some.inj h
    exact ⟨rfl, rfl, fun _ _ => rfl⟩
  · cases h

/-- A new call has the next number. -/
theorem arrive_spec (s : Gate) :
    s.arrive.calls.length = s.calls.length + 1 ∧
      ∀ j ≠ s.calls.length, s.arrive.kind j = s.kind j := by
  have hcalls : ∃ c, s.arrive.calls = s.calls ++ [c] := by
    unfold Gate.arrive
    split
    · exact ⟨_, rfl⟩
    · split <;> exact ⟨_, rfl⟩
  obtain ⟨c, hcalls⟩ := hcalls
  refine ⟨by simp [hcalls], fun j hj => ?_⟩
  rw [Gate.kind, Gate.kind, hcalls]
  rcases Nat.lt_trichotomy j s.calls.length with hlt | heq | hgt
  · rw [List.getElem?_append_left hlt]
  · exact absurd heq hj
  · rw [List.getElem?_eq_none (by simp; omega), List.getElem?_eq_none (by omega)]

end

/-! ### The invariant -/

/-- 1 for a job that is not done. -/
def Job.unfinished (j : Job) : ℕ := if j.done then 0 else 1

/-- 1 for a job that a thread runs. -/
def Job.runs : Job → ℕ
  | .running => 1
  | _ => 0

theorem Job.unfinished_le_one (j : Job) : j.unfinished ≤ 1 := by
  rw [unfinished]
  split <;> decide

theorem Job.runs_le (j : Job) : j.runs ≤ j.unfinished := by
  cases j <;> simp [runs, unfinished, done]

theorem unfinished_eq_zero {j : Job} : j.unfinished = 0 ↔ j.done = true := by
  cases j <;> simp [Job.unfinished, Job.done]

theorem all_done_iff {l : List Job} : l.all Job.done = true ↔ total Job.unfinished l = 0 := by
  induction l with
  | nil => simp
  | cons j l ih => rw [List.all_cons, Bool.and_eq_true, total_cons, ih, Nat.add_eq_zero_iff,
      unfinished_eq_zero]

/-- The utterance a handler is in. -/
def Await.slot : Await → Option ℕ
  | .gate k _ | .lock k _ _ | .job k _ _ _ | .drain k _ _ => some k
  | .outside _ | .ended => none

/-- Utterance `k` has its permit and the lock. -/
def Server.Inside (s : Server) (k : ℕ) : Prop :=
  s.gate.kind k = some .inside ∧ (s.has_lock → s.lock = some (.utterance k))

/-- What an await says about the utterance of a handler that was cancelled `cancels` times. -/
def Await.Fits (s : Server) (cancels : ℕ) : Await → Prop
  | .outside _ | .ended => True
  | .gate k _ => s.gate.kind k = some (.waiting .pending false) ∧ s.slots[k]? = some []
  | .lock k _ _ => s.gate.kind k = some .inside ∧ s.slots[k]? = some []
  | .job k _ w _ => s.Inside k ∧
      ∃ l j, s.slots[k]? = some (l ++ [j]) ∧ total Job.unfinished l = 0 ∧
        (w = .cancelled → j.unfinished = 0 ∨ 1 ≤ cancels) ∧
        ∀ ok, w = .result ok → j.unfinished = 0
  | .drain k _ cancelled => s.Inside k ∧
      ∃ l, s.slots[k]? = some l ∧ total Job.unfinished l ≤ 1 ∧ 1 ≤ cancels ∧ cancelled = false

/-- The invariant without handler `h` and utterance `k`, where `h` is on its way. -/
structure Apart (limits : Limits) (cancels : ℕ → ℕ) (h k : ℕ) (s : Server) : Prop where
  gate : Inv 0 s.gate ∧ s.gate.limits = limits
  length : s.slots.length = s.gate.calls.length
  fits : ∀ (i : ℕ) (a : Await), i ≠ h → s.handlers[i]? = some a →
    a.Fits s (cancels i) ∧ a.slot ≠ some k
  distinct : ∀ (i j : ℕ) (a b : Await) (n : ℕ), i ≠ h → j ≠ h → s.handlers[i]? = some a →
    s.handlers[j]? = some b → a.slot = some n → b.slot = some n → i = j
  owned : ∀ (n : ℕ) (l : List Job), n ≠ k → s.slots[n]? = some l → total Job.unfinished l ≠ 0 →
    ∃ (i : ℕ) (a : Await), i ≠ h ∧ s.handlers[i]? = some a ∧ a.slot = some n
  refused : ∀ (n depth : ℕ), s.gate.kind n = some (.rejected depth) → s.slots[n]? = some []

/-- Every handler fits its utterance, no two share one, and jobs that are not done belong to a
    handler in their slot. -/
structure Hold (limits : Limits) (cancels : ℕ → ℕ) (s : Server) : Prop where
  gate : Inv 0 s.gate ∧ s.gate.limits = limits
  length : s.slots.length = s.gate.calls.length
  fits : ∀ (i : ℕ) (a : Await), s.handlers[i]? = some a → a.Fits s (cancels i)
  distinct : ∀ (i j : ℕ) (a b : Await) (n : ℕ), s.handlers[i]? = some a → s.handlers[j]? = some b →
    a.slot = some n → b.slot = some n → i = j
  owned : ∀ (n : ℕ) (l : List Job), s.slots[n]? = some l → total Job.unfinished l ≠ 0 →
    ∃ (i : ℕ) (a : Await), s.handlers[i]? = some a ∧ a.slot = some n
  refused : ∀ (n depth : ℕ), s.gate.kind n = some (.rejected depth) → s.slots[n]? = some []

section
variable {limits : Limits} {cancels : ℕ → ℕ} {s t : Server} {h k : ℕ} {a a₀ : Await}

theorem Await.Fits.frame {n m : ℕ} (hfits : a.Fits s n) (hnm : n ≤ m)
    (hsame : ∀ j, a.slot = some j → t.gate.kind j = s.gate.kind j ∧ t.slots[j]? = s.slots[j]? ∧
      (s.Inside j → t.Inside j)) : a.Fits t m := by
  cases a with
  | outside | ended => trivial
  | gate j plan | lock j plan c =>
    obtain ⟨hkind, hslots, _⟩ := hsame j rfl
    exact ⟨hkind.trans hfits.1, hslots.trans hfits.2⟩
  | job j rest w mc =>
    obtain ⟨_, hslots, hin⟩ := hsame j rfl
    obtain ⟨hi, l, x, hl, hzero, hcancelled, hresult⟩ := hfits
    exact ⟨hin hi, l, x, hslots.trans hl, hzero,
      fun hw => (hcancelled hw).imp_right fun hn => Nat.le_trans hn hnm, hresult⟩
  | drain j failed c =>
    obtain ⟨_, hslots, hin⟩ := hsame j rfl
    obtain ⟨hi, l, hl, hone, hn, hc⟩ := hfits
    exact ⟨hin hi, l, hslots.trans hl, hone, Nat.le_trans hn hnm, hc⟩

/-- An utterance with a handler in it has its list of futures. -/
theorem Await.Fits.slot_lt {n : ℕ} (hfits : a.Fits s n) (hslot : a.slot = some k) :
    k < s.slots.length := by
  cases a with
  | outside | ended => simp [Await.slot] at hslot
  | gate j plan | lock j plan c =>
    obtain rfl : j = k := by simpa [Await.slot] using hslot
    exact lt_length_of_get hfits.2
  | job j rest w mc =>
    obtain rfl : j = k := by simpa [Await.slot] using hslot
    obtain ⟨_, _, _, hl, _⟩ := hfits
    exact lt_length_of_get hl
  | drain j failed c =>
    obtain rfl : j = k := by simpa [Await.slot] using hslot
    obtain ⟨_, _, hl, _⟩ := hfits
    exact lt_length_of_get hl

theorem Hold.apart (hs : Hold limits cancels s) (hh : s.handlers[h]? = some a)
    (hslot : a.slot = some k) : Apart limits cancels h k s where
  gate := hs.gate
  length := hs.length
  fits i b hi hb := ⟨hs.fits i b hb, fun hk => hi (hs.distinct i h b a k hb hh hk hslot)⟩
  distinct i j b c n _ _ := hs.distinct i j b c n
  owned n l hn hl hne := by
    obtain ⟨i, b, hb, hbn⟩ := hs.owned n l hl hne
    refine ⟨i, b, ?_, hb, hbn⟩
    rintro rfl
    obtain rfl : a = b := Option.some.inj (hh.symm.trans hb)
    exact hn (Option.some.inj (hbn.symm.trans hslot))
  refused := hs.refused

/-- A handler outside the slots, and the utterance it may begin. -/
theorem Hold.apart_new (hs : Hold limits cancels s) (hh : s.handlers[h]? = some a)
    (hslot : a.slot = none) : Apart limits cancels h s.slots.length s where
  gate := hs.gate
  length := hs.length
  fits i b _ hb := ⟨hs.fits i b hb, fun hk => Nat.lt_irrefl _ ((hs.fits i b hb).slot_lt hk)⟩
  distinct i j b c n _ _ := hs.distinct i j b c n
  owned n l _ hl hne := by
    obtain ⟨i, b, hb, hbn⟩ := hs.owned n l hl hne
    refine ⟨i, b, ?_, hb, hbn⟩
    rintro rfl
    obtain rfl : a = b := Option.some.inj (hh.symm.trans hb)
    exact Option.some_ne_none n (hbn.symm.trans hslot)
  refused := hs.refused

/-- The handler has arrived, in its utterance or behind it. -/
theorem Apart.hold (hs : Apart limits cancels h k s) (hh : s.handlers[h]? = some a)
    (hfits : a.Fits s (cancels h)) (hslot : a.slot = some k ∨
      a.slot = none ∧ ∀ l, s.slots[k]? = some l → total Job.unfinished l = 0) :
    Hold limits cancels s := by
  have hown : ∀ n, a.slot = some n → n = k := by
    intro n hn
    rcases hslot with hk | ⟨hnone, _⟩
    · exact Option.some.inj (hn.symm.trans hk)
    · exact absurd (hnone.symm.trans hn) nofun
  refine ⟨hs.gate, hs.length, fun i b hb => ?_, fun i j b c n hb hc hbn hcn => ?_,
    fun n l hl hne => ?_, hs.refused⟩
  · by_cases hi : i = h
    · subst hi
      obtain rfl : a = b := Option.some.inj (hh.symm.trans hb)
      exact hfits
    · exact (hs.fits i b hi hb).1
  · by_cases hi : i = h <;> by_cases hj : j = h
    · rw [hi, hj]
    · subst hi
      obtain rfl : a = b := Option.some.inj (hh.symm.trans hb)
      exact absurd (hown n hbn ▸ hcn) (hs.fits j c hj hc).2
    · subst hj
      obtain rfl : a = c := Option.some.inj (hh.symm.trans hc)
      exact absurd (hown n hcn ▸ hbn) (hs.fits i b hi hb).2
    · exact hs.distinct i j b c n hi hj hb hc hbn hcn
  · by_cases hn : n = k
    · subst hn
      rcases hslot with hk | ⟨_, hzero⟩
      · exact ⟨h, a, hh, hk⟩
      · exact absurd (hzero l hl) hne
    · obtain ⟨i, b, _, hb, hbn⟩ := hs.owned n l hn hl hne
      exact ⟨i, b, hb, hbn⟩

/-- What moves only in utterance `k`. -/
theorem Apart.change (hs : Apart limits cancels h k s) (hhandlers : t.handlers = s.handlers)
    (hgate : Inv 0 t.gate ∧ t.gate.limits = limits)
    (hlength : t.slots.length = t.gate.calls.length)
    (hkind : ∀ j ≠ k, t.gate.kind j = s.gate.kind j) (hslots : ∀ j ≠ k, t.slots[j]? = s.slots[j]?)
    (hin : ∀ j ≠ k, s.Inside j → t.Inside j)
    (hrefused : ∀ depth, t.gate.kind k = some (.rejected depth) → t.slots[k]? = some []) :
    Apart limits cancels h k t where
  gate := hgate
  length := hlength
  fits i b hi hb := by
    obtain ⟨hfits, hk⟩ := hs.fits i b hi (hhandlers ▸ hb)
    refine ⟨hfits.frame (Nat.le_refl _) fun j hj => ?_, hk⟩
    have hne : j ≠ k := by
      rintro rfl
      exact hk hj
    exact ⟨hkind j hne, hslots j hne, hin j hne⟩
  distinct := by rw [hhandlers]; exact hs.distinct
  owned n l hn hl hne := by
    rw [hslots n hn] at hl
    rw [hhandlers]
    exact hs.owned n l hn hl hne
  refused n depth hkn := by
    by_cases hn : n = k
    · subst hn
      exact hrefused depth hkn
    · rw [hslots n hn]
      exact hs.refused n depth ((hkind n hn).symm.trans hkn)

/-- The gate has moved the call of utterance `k`. -/
theorem Apart.gate_step {g : Gate} (hs : Apart limits cancels h k s)
    (hgate : Inv 0 g ∧ g.limits = limits) (hmoved : Moved k s.gate g)
    (hrefused : ∀ depth, g.kind k = some (.rejected depth) → s.slots[k]? = some []) :
    Apart limits cancels h k { s with gate := g } :=
  hs.change rfl hgate (hs.length.trans hmoved.length.symm) hmoved.others (fun _ _ => rfl)
    (fun j hj hi => ⟨(hmoved.others j hj).trans hi.1, hi.2⟩) hrefused

/-! ### The operations -/

theorem handlers_await (hh : s.handlers[h]? = some a₀) : (s.await h a).handlers[h]? = some a :=
  (get_set_iff hh).2 (.inl ⟨rfl, rfl⟩)

theorem handlers_await_other {i : ℕ} (hi : i ≠ h) :
    (s.await h a).handlers[i]? = s.handlers[i]? :=
  List.getElem?_set_ne (Ne.symm hi)

theorem futures_eq {l : List Job} (hl : s.slots[k]? = some l) : s.futures k = l := by
  rw [Server.futures, hl]
  rfl

theorem Await.Fits.await {n : ℕ} {b : Await} (hfits : a.Fits s n) : a.Fits (s.await h b) n :=
  hfits.frame (Nat.le_refl n) fun _ _ => ⟨rfl, rfl, id⟩

theorem Apart.await (hs : Apart limits cancels h k s) : Apart limits cancels h k (s.await h a) where
  gate := hs.gate
  length := hs.length
  fits i b hi hb := by
    rw [handlers_await_other hi] at hb
    exact ⟨(hs.fits i b hi hb).1.await, (hs.fits i b hi hb).2⟩
  distinct i j b c n hi hj := by
    rw [handlers_await_other hi, handlers_await_other hj]
    exact hs.distinct i j b c n hi hj
  owned n l hn hl hne := by
    obtain ⟨i, b, hi, hb, hbn⟩ := hs.owned n l hn hl hne
    exact ⟨i, b, hi, (handlers_await_other hi).trans hb, hbn⟩
  refused := hs.refused

/-- The handler suspends. -/
theorem Apart.settle (hs : Apart limits cancels h k s) (hh : s.handlers[h]? = some a₀)
    (hfits : a.Fits s (cancels h)) (hslot : a.slot = some k ∨
      a.slot = none ∧ ∀ l, s.slots[k]? = some l → total Job.unfinished l = 0) :
    Hold limits cancels (s.await h a) :=
  hs.await.hold (handlers_await hh) hfits.await hslot

theorem after_slot (failed : Bool) : (after failed).slot = none := by cases failed <;> rfl

theorem after_fits {failed : Bool} {n : ℕ} : (after failed).Fits s n := by
  cases failed <;> trivial

/-- The permit is given back when no job is left. -/
theorem Apart.leave {failed : Bool} {l : List Job} (hs : Apart limits cancels h k s)
    (hh : s.handlers[h]? = some a₀) (hl : s.slots[k]? = some l)
    (hzero : total Job.unfinished l = 0) (hleave : s.leave h k failed = some t) :
    Hold limits cancels t := by
  obtain ⟨g, hg, rfl⟩ := Option.map_eq_some_iff.1 hleave
  obtain ⟨_, hended, hmoved⟩ := leave_spec hg
  have hgate : Inv 0 g ∧ g.limits = limits :=
    ⟨hs.gate.1.leave hg, (step_limits (e := .leave k) hg).trans hs.gate.2⟩
  have hs' : Apart limits cancels h k { s with gate := g } :=
    hs.gate_step hgate hmoved fun depth hd => absurd (hended.symm.trans hd) (by simp)
  refine hs'.settle hh after_fits (.inr ⟨after_slot failed, fun l' hl' => ?_⟩)
  obtain rfl : l = l' := Option.some.inj (hl.symm.trans hl')
  exact hzero

theorem Apart.release {failed : Bool} {l : List Job} (hs : Apart limits cancels h k s)
    (hh : s.handlers[h]? = some a₀) (hin : s.Inside k) (hl : s.slots[k]? = some l)
    (hzero : total Job.unfinished l = 0) (hrelease : s.release h k failed = some t) :
    Hold limits cancels t := by
  have hs' : Apart limits cancels h k { s with lock := none } := by
    refine hs.change rfl hs.gate hs.length (fun _ _ => rfl) (fun _ _ => rfl) (fun j hj hi => ?_)
      (hs.refused k)
    refine ⟨hi.1, fun hlock => absurd ?_ hj⟩
    have heq := (hi.2 hlock).symm.trans (hin.2 hlock)
    exact Holder.utterance.inj (Option.some.inj heq)
  exact hs'.leave hh hl hzero hrelease

/-- A drain that has to wait was brought about by a cancellation. -/
theorem Apart.drain {failed : Bool} {l : List Job} (hs : Apart limits cancels h k s)
    (hh : s.handlers[h]? = some a₀) (hin : s.Inside k) (hl : s.slots[k]? = some l)
    (hone : total Job.unfinished l ≤ 1) (hcancel : total Job.unfinished l = 0 ∨ 1 ≤ cancels h)
    (hdrain : s.drain h k failed = some t) : Hold limits cancels t := by
  simp only [Server.drain, futures_eq hl] at hdrain
  split at hdrain
  · next hdone => exact hs.release hh hin hl (all_done_iff.1 hdone) hdrain
  · next hdone =>
    obtain rfl := Option.some.inj hdrain
    have hpos := hcancel.resolve_left fun hzero => hdone (all_done_iff.2 hzero)
    exact hs.settle hh ⟨hin, l, hl, hone, hpos, rfl⟩ (.inl rfl)

/-- The body goes on when its last job is done. -/
theorem Apart.go_on {plan : List Fn} {l : List Job} (hs : Apart limits cancels h k s)
    (hh : s.handlers[h]? = some a₀) (hin : s.Inside k) (hl : s.slots[k]? = some l)
    (hzero : total Job.unfinished l = 0) (hgo : s.go_on h k plan = some t) :
    Hold limits cancels t := by
  cases plan with
  | nil => exact hs.drain hh hin hl (by omega) (.inl hzero) hgo
  | cons fn rest =>
    obtain rfl := Option.some.inj hgo
    rw [futures_eq hl]
    have hget : (s.slots.set k (l ++ [Job.pending]))[k]? = some (l ++ [Job.pending]) :=
      (get_set_iff hl).2 (.inl ⟨rfl, rfl⟩)
    have hs' : Apart limits cancels h k { s with slots := s.slots.set k (l ++ [Job.pending]) } := by
      refine hs.change rfl hs.gate ((List.length_set ..).trans hs.length) (fun _ _ => rfl)
        (fun j hj => List.getElem?_set_ne (Ne.symm hj)) (fun _ _ => id) fun depth hd => ?_
      exact absurd (hin.1.symm.trans hd) (by simp)
    exact hs'.settle hh ⟨hin, l, .pending, hget, hzero, nofun, nofun⟩ (.inl rfl)

/-- The lock that is free goes to the handler. -/
theorem Apart.enter {plan : List Fn} (hs : Apart limits cancels h k s)
    (hh : s.handlers[h]? = some a₀) (hfree : s.lock_free) (hkind : s.gate.kind k = some .inside)
    (hl : s.slots[k]? = some []) (henter : s.enter h k plan = some t) : Hold limits cancels t := by
  have hs' : Apart limits cancels h k
      { s with lock := if s.has_lock then some (.utterance k) else none } := by
    refine hs.change rfl hs.gate hs.length (fun _ _ => rfl) (fun _ _ => rfl) (fun j hj hi => ?_)
      (hs.refused k)
    refine ⟨hi.1, fun hlock => ?_⟩
    have hnone : s.lock = none := by
      have hhas : s.has_lock = true := hlock
      simpa [Server.lock_free, hhas] using hfree
    exact absurd (hnone.symm.trans (hi.2 hlock)) nofun
  exact hs'.go_on hh ⟨hkind, fun hlock => if_pos hlock⟩ hl rfl henter

theorem Apart.acquire {plan : List Fn} (hs : Apart limits cancels h k s)
    (hh : s.handlers[h]? = some a₀) (hkind : s.gate.kind k = some .inside)
    (hl : s.slots[k]? = some []) (hacquire : s.acquire h k plan = some t) :
    Hold limits cancels t := by
  rw [Server.acquire] at hacquire
  split at hacquire
  · next hfree => exact hs.enter hh hfree hkind hl hacquire
  · obtain rfl := Option.some.inj hacquire
    exact hs.settle hh ⟨hkind, hl⟩ (.inl rfl)

/-! ### The steps -/

theorem Hold.mono {cancels' : ℕ → ℕ} (hs : Hold limits cancels s)
    (hle : ∀ i, cancels i ≤ cancels' i) : Hold limits cancels' s :=
  ⟨hs.gate, hs.length, fun i b hb => (hs.fits i b hb).frame (hle i) fun _ _ => ⟨rfl, rfl, id⟩,
    hs.distinct, hs.owned, hs.refused⟩

/-- The handler changes its await within its utterance. -/
theorem Hold.settle (hs : Hold limits cancels s) (hh : s.handlers[h]? = some a₀)
    (hslot : a₀.slot = some k) (hsame : a.slot = some k) (hfits : a.Fits s (cancels h)) :
    Hold limits cancels (s.await h a) :=
  (hs.apart hh hslot).settle hh hfits (.inl hsame)

/-- A handler outside the slots changes its await, or ends. -/
theorem Hold.settle_outside (hs : Hold limits cancels s) (hh : s.handlers[h]? = some a₀)
    (hslot : a₀.slot = none) (hnone : a.slot = none) (hfits : a.Fits s (cancels h)) :
    Hold limits cancels (s.await h a) :=
  (hs.apart_new hh hslot).settle hh hfits (.inr ⟨hnone, fun _ hl =>
    absurd (lt_length_of_get hl) (Nat.lt_irrefl _)⟩)

theorem Hold.arrive (hs : Hold limits cancels s) (hh : s.handlers[h]? = some a)
    (hslot : a.slot = none) : Apart limits cancels h s.gate.calls.length
      { s with gate := s.gate.arrive, slots := s.slots ++ [[]] } := by
  have hs' := hs.apart_new hh hslot
  rw [hs.length] at hs'
  obtain ⟨hlength, hkind⟩ := arrive_spec s.gate
  refine hs'.change rfl ⟨hs.gate.1.arrive, (arrive_limits _).trans hs.gate.2⟩ ?_ hkind ?_
    (fun j hj hi => ⟨(hkind j hj).trans hi.1, hi.2⟩) fun _ _ => get_concat_iff.2 (.inr ⟨?_, rfl⟩)
  · simp [hlength, hs.length]
  · intro j hj
    refine Option.ext fun l => get_concat_iff.trans (or_iff_left fun hnew => hj ?_)
    exact hnew.1.trans hs.length
  · exact hs.length.symm

theorem Hold.utter {plan : List Fn} (hs : Hold limits cancels s)
    (hutter : s.utter h plan = some t) : Hold limits cancels t := by
  have hl : (s.slots ++ [[]])[s.gate.calls.length]? = some ([] : List Job) :=
    get_concat_iff.2 (.inr ⟨hs.length.symm, rfl⟩)
  rw [Server.utter] at hutter
  split at hutter
  · next hh hin =>
    exact (hs.arrive hh rfl).acquire hh (Gate.kind_inside.2 hin) hl hutter
  · next hh hwaiting =>
    obtain rfl := Option.some.inj hutter
    refine (hs.arrive hh rfl).settle hh ⟨?_, hl⟩ (.inl rfl)
    dsimp only
    rw [Gate.kind, hwaiting]
    rfl
  · next hh _ =>
    obtain rfl := Option.some.inj hutter
    refine (hs.arrive hh rfl).hold hh trivial (.inr ⟨rfl, fun l hl' => ?_⟩)
    obtain rfl : [] = l := Option.some.inj (hl.symm.trans hl')
    rfl
  · cases hutter

/-- At most one cancellation: it does not meet a drain, which follows another one. -/
theorem Hold.cancel (hs : Hold limits cancels s) {cancels' : ℕ → ℕ}
    (hle : ∀ i, cancels i ≤ cancels' i) (hfirst : cancels h = 0) (hpos : 1 ≤ cancels' h)
    (hcancel : s.cancel h = some t) : Hold limits cancels' t := by
  have hs' := hs.mono hle
  rw [Server.cancel] at hcancel
  split at hcancel
  · next hh =>
    obtain rfl := Option.some.inj hcancel
    exact hs'.settle_outside hh rfl rfl trivial
  · next k plan hh =>
    obtain ⟨g, hg, rfl⟩ := Option.map_eq_some_iff.1 hcancel
    obtain ⟨hkind, hmoved⟩ := cancel_spec hg
    have hfits : Await.Fits s (cancels' h) (.gate k plan) := hs'.fits _ _ hh
    have hgate : Inv 0 g ∧ g.limits = limits :=
      ⟨hs.gate.1.cancel hg, (step_limits (e := .cancel k) hg).trans hs.gate.2⟩
    have happart : Apart limits cancels' h k { s with gate := g } :=
      (hs'.apart hh rfl).gate_step hgate hmoved fun _ _ => hfits.2
    exact happart.hold hh ⟨hkind.trans hfits.1, hfits.2⟩ (.inl rfl)
  · next k plan c hh =>
    obtain rfl := Option.some.inj hcancel
    have hfits : Await.Fits s (cancels' h) (.lock k plan c) := hs'.fits _ _ hh
    exact hs'.settle hh rfl rfl hfits
  · next k rest mc hh =>
    obtain rfl := Option.some.inj hcancel
    have hfits : Await.Fits s (cancels' h) (.job k rest .pending mc) := hs'.fits _ _ hh
    obtain ⟨hin, l, j, hl, hzero, _⟩ := hfits
    exact hs'.settle hh rfl rfl ⟨hin, l, j, hl, hzero, fun _ => .inr hpos, nofun⟩
  · next k rest w mc _ hh =>
    obtain rfl := Option.some.inj hcancel
    have hfits : Await.Fits s (cancels' h) (.job k rest w mc) := hs'.fits _ _ hh
    exact hs'.settle hh rfl rfl hfits
  · next k failed c hh =>
    have hfits : Await.Fits s (cancels h) (.drain k failed c) := hs.fits _ _ hh
    obtain ⟨_, _, _, _, hdrain, _⟩ := hfits
    omega
  · cases hcancel

theorem Hold.resume (hs : Hold limits cancels s) (hresume : s.resume h = some t) :
    Hold limits cancels t := by
  rw [Server.resume] at hresume
  split at hresume
  · next k plan hh =>
    obtain ⟨g, hg, hgo⟩ := Option.bind_eq_some_iff.1 hresume
    obtain ⟨hkind, hmoved⟩ := resume_spec hg
    have hfits : Await.Fits s (cancels h) (.gate k plan) := hs.fits _ _ hh
    have hgate : Inv 0 g ∧ g.limits = limits :=
      ⟨hs.gate.1.resume hg, (step_limits (e := .resume k) hg).trans hs.gate.2⟩
    have happart : Apart limits cancels h k { s with gate := g } :=
      (hs.apart hh rfl).gate_step hgate hmoved fun _ _ => hfits.2
    split at hgo
    · next hin => exact happart.acquire hh (Gate.kind_inside.2 hin) hfits.2 hgo
    · obtain rfl := Option.some.inj hgo
      refine happart.settle hh trivial (.inr ⟨rfl, fun l hl => ?_⟩)
      obtain rfl : [] = l := Option.some.inj (hfits.2.symm.trans hl)
      rfl
  · next k plan hh =>
    have hfits : Await.Fits s (cancels h) (.lock k plan false) := hs.fits _ _ hh
    split at hresume
    · next hfree => exact (hs.apart hh rfl).enter hh hfree hfits.1 hfits.2 hresume
    · cases hresume
  · next k plan hh =>
    have hfits : Await.Fits s (cancels h) (.lock k plan true) := hs.fits _ _ hh
    exact (hs.apart hh rfl).leave hh hfits.2 rfl hresume
  · cases hresume
  · next k rest hh =>
    have hfits : Await.Fits s (cancels h) (.job k rest (.result true) false) := hs.fits _ _ hh
    obtain ⟨hin, l, j, hl, hzero, _, hresult⟩ := hfits
    refine (hs.apart hh rfl).go_on hh hin hl ?_ hresume
    rw [total_concat, hzero, hresult true rfl]
  · next k rest w mc hpending _ hh =>
    have hfits : Await.Fits s (cancels h) (.job k rest w mc) := hs.fits _ _ hh
    obtain ⟨hin, l, j, hl, hzero, hcancelled, hresult⟩ := hfits
    have hone : total Job.unfinished (l ++ [j]) = j.unfinished := by
      rw [total_concat, hzero, Nat.zero_add]
    refine (hs.apart hh rfl).drain hh hin hl (hone ▸ j.unfinished_le_one) ?_ hresume
    · rw [hone]
      cases w with
      | pending => exact (hpending rfl).elim
      | cancelled => exact hcancelled rfl
      | result ok => exact .inl (hresult ok rfl)
  · next k failed c hh =>
    have hfits : Await.Fits s (cancels h) (.drain k failed c) := hs.fits _ _ hh
    obtain ⟨hin, l, hl, hone, _, rfl⟩ := hfits
    rw [futures_eq hl, Bool.false_or] at hresume
    split at hresume
    · next hdone => exact (hs.apart hh rfl).release hh hin hl (all_done_iff.1 hdone) hresume
    · cases hresume
  · cases hresume

theorem Hold.set_state (hs : Hold limits cancels s) (hset : s.set_state h = some t) :
    Hold limits cancels t := by
  rw [Server.set_state] at hset
  split at hset
  · next k rest mc hh =>
    have hfits : Await.Fits s (cancels h) (.job k rest .pending mc) := hs.fits _ _ hh
    obtain ⟨hin, l, j, hl, hzero, _⟩ := hfits
    obtain ⟨w, hw, rfl⟩ := Option.map_eq_some_iff.1 hset
    rw [futures_eq hl, List.getLast?_concat, Option.bind_some] at hw
    have hdone : j.unfinished = 0 := by
      rw [unfinished_eq_zero]
      cases j with
      | pending | running => cases hw
      | cancelled | finished => rfl
    exact hs.settle hh rfl rfl ⟨hin, l, j, hl, hzero, fun _ => .inl hdone, fun _ _ => hdone⟩
  · cases hset

/-- What an await says of the jobs stays true when the one that is not done moves. -/
theorem Await.Fits.move {n m : ℕ} {old new : Job} {l : List Job} (hfits : a.Fits s m)
    (hl : s.slots[k]? = some l) (hn : l[n]? = some old) (hold : old.done = false) :
    a.Fits { s with slots := s.slots.set k (l.set n new) } m := by
  have hone : old.unfinished = 1 := by rw [Job.unfinished, hold]; rfl
  have hle : new.unfinished ≤ 1 := new.unfinished_le_one
  have hset : (s.slots.set k (l.set n new))[k]? = some (l.set n new) :=
    (get_set_iff hl).2 (.inl ⟨rfl, rfl⟩)
  by_cases hslot : a.slot = some k
  · cases a with
    | outside | ended => trivial
    | gate j plan | lock j plan c =>
      obtain rfl : j = k := by simpa [Await.slot] using hslot
      obtain rfl : l = [] := Option.some.inj (hl.symm.trans hfits.2)
      simp at hn
    | job j rest w mc =>
      obtain rfl : j = k := by simpa [Await.slot] using hslot
      obtain ⟨hin, l', x, hl', hzero, hcancelled, hresult⟩ := hfits
      obtain rfl : l = l' ++ [x] := Option.some.inj (hl.symm.trans hl')
      rcases get_concat_iff.1 hn with hearly | ⟨rfl, rfl⟩
      · have hpos : [n].length ≤ total Job.unfinished l' :=
          length_le_total (by simp) fun i hi => by
            obtain rfl := List.mem_singleton.1 hi
            exact ⟨old, hearly, by omega⟩
        rw [List.length_singleton] at hpos
        omega
      · have hlast : (l' ++ [x]).set l'.length new = l' ++ [new] := by
          rw [List.set_append_right _ _ (Nat.le_refl _), Nat.sub_self, List.set_cons_zero]
        refine ⟨hin, l', new, hset.trans (congrArg some hlast), hzero, fun hw => .inr ?_, fun ok hw => ?_⟩
        · have hx := hcancelled hw
          omega
        · have hx := hresult ok hw
          omega
    | drain j failed c =>
      obtain rfl : j = k := by simpa [Await.slot] using hslot
      obtain ⟨hin, l', hl', htotal, hpos, hc⟩ := hfits
      obtain rfl : l = l' := Option.some.inj (hl.symm.trans hl')
      have hsum := total_set (f := Job.unfinished) (b := new) hn
      exact ⟨hin, _, hset, by omega, hpos, hc⟩
  · refine hfits.frame (Nat.le_refl m) fun j hj => ⟨rfl, ?_, id⟩
    refine List.getElem?_set_ne ?_
    rintro rfl
    exact hslot hj

theorem Hold.move {n : ℕ} {old new : Job} (hs : Hold limits cancels s) (hold : old.done = false)
    (hmove : s.move k n old new = some t) : Hold limits cancels t := by
  rw [Server.move] at hmove
  split at hmove
  · next hn =>
    obtain rfl := Option.some.inj hmove
    obtain ⟨l, hl⟩ : ∃ l, s.slots[k]? = some l := by
      refine Option.ne_none_iff_exists'.1 fun hnone => ?_
      simp [Server.futures, hnone] at hn
    rw [futures_eq hl] at hn ⊢
    have hnil : s.slots[k]? ≠ some [] := by
      rw [hl]
      rintro ⟨⟩
      simp at hn
    refine ⟨hs.gate, (List.length_set ..).trans hs.length,
      fun i b hb => (hs.fits i b hb).move hl hn hold, hs.distinct, fun m l' hl' hne => ?_,
      fun m depth hm => ?_⟩
    · rcases (get_set_iff hl).1 hl' with ⟨rfl, rfl⟩ | ⟨_, hl'⟩
      · refine hs.owned k l hl fun hzero => ?_
        have hdone := List.all_eq_true.1 (all_done_iff.2 hzero) old (List.mem_of_getElem? hn)
        exact Bool.false_ne_true (hold.symm.trans hdone)
      · exact hs.owned m l' hl' hne
    · have hrefused := hs.refused m depth hm
      refine (get_set_iff hl).2 (.inr ⟨?_, hrefused⟩)
      rintro rfl
      exact hnil hrefused
  · cases hmove

/-- The lock changes hands outside the slots. -/
theorem Hold.set_lock {lock : Option Holder} (hs : Hold limits cancels s)
    (hother : ∀ k, s.has_lock → s.lock ≠ some (.utterance k)) :
    Hold limits cancels { s with lock := lock } :=
  ⟨hs.gate, hs.length, fun i b hb => (hs.fits i b hb).frame (Nat.le_refl _) fun j _ =>
    ⟨rfl, rfl, fun hi => ⟨hi.1, fun hlock => absurd (hi.2 hlock) (hother j hlock)⟩⟩,
    hs.distinct, hs.owned, hs.refused⟩

theorem Hold.connect (hs : Hold limits cancels s) :
    Hold limits cancels { s with handlers := s.handlers ++ [.outside false] } := by
  refine ⟨hs.gate, hs.length, fun i b hb => ?_, fun i j b c n hb hc hbn hcn => ?_,
    fun n l hl hne => ?_, hs.refused⟩
  · rcases get_concat_iff.1 hb with hb | ⟨_, rfl⟩
    · exact (hs.fits i b hb).frame (Nat.le_refl _) fun _ _ => ⟨rfl, rfl, id⟩
    · trivial
  · rcases get_concat_iff.1 hb with hb | ⟨_, rfl⟩
    · rcases get_concat_iff.1 hc with hc | ⟨_, rfl⟩
      · exact hs.distinct i j b c n hb hc hbn hcn
      · cases hcn
    · cases hbn
  · obtain ⟨i, b, hb, hbn⟩ := hs.owned n l hl hne
    exact ⟨i, b, get_concat_iff.2 (.inl hb), hbn⟩

theorem Hold.step {cancels' : ℕ → ℕ} {e : SlotEvent} (hs : Hold limits cancels s)
    (hle : ∀ i, cancels i ≤ cancels' i)
    (hfirst : ∀ i, e = .cancel i → cancels i = 0 ∧ 1 ≤ cancels' i) (hstep : s.step e = some t) :
    Hold limits cancels' t := by
  have hs' := hs.mono hle
  cases e with
  | connect =>
    obtain rfl := Option.some.inj hstep
    exact hs'.connect
  | utter h e => exact hs'.utter hstep
  | stop h =>
    rw [Server.step] at hstep
    split at hstep
    · next hh =>
      obtain rfl := Option.some.inj hstep
      exact hs'.settle_outside hh rfl rfl trivial
    · cases hstep
  | cancel h => exact hs.cancel hle (hfirst h rfl).1 (hfirst h rfl).2 hstep
  | resume h => exact hs'.resume hstep
  | set_state h => exact hs'.set_state hstep
  | call_check_cancel h =>
    rw [Server.step] at hstep
    split at hstep
    · exact hs'.move rfl hstep
    · cases hstep
  | start k n => exact hs'.move rfl hstep
  | finish k n ok => exact hs'.move rfl hstep
  | lock =>
    rw [Server.step] at hstep
    split at hstep
    · next hfree =>
      obtain rfl := Option.some.inj hstep
      refine hs'.set_lock fun k _ hk => ?_
      exact absurd (hfree.2.symm.trans hk) nofun
    · cases hstep
  | unlock =>
    rw [Server.step] at hstep
    split at hstep
    · next hother =>
      obtain rfl := Option.some.inj hstep
      refine hs'.set_lock fun k _ hk => ?_
      exact absurd (hother.symm.trans hk) (by simp)
    · cases hstep

theorem hold_init (limits : Limits) (has_lock : Bool) :
    Hold limits (fun _ => 0) (Server.init limits has_lock) := by
  refine ⟨⟨inv_init limits, rfl⟩, rfl, ?_, ?_, ?_, ?_⟩ <;>
    simp [Server.init, Gate.init, Gate.kind]

/-- Any interleaving in which each handler is cancelled at most once keeps the invariant. -/
theorem runs_hold {has_lock : Bool} {es : List SlotEvent} (hruns : SlotRuns limits has_lock es s)
    (honce : ∀ h, es.count (.cancel h) ≤ 1) : Hold limits (fun h => es.count (.cancel h)) s := by
  induction hruns with
  | nil => exact hold_init limits has_lock
  | @snoc es u t e _ hst ih =>
    simp only [List.count_append] at honce ⊢
    refine (ih fun h => Nat.le_trans (Nat.le_add_right _ _) (honce h)).step
      (fun i => Nat.le_add_right _ _) (fun i hi => ?_) hst
    subst hi
    have hi := honce i
    simp only [List.count_singleton_self] at hi ⊢
    omega

/-- The utterance of a job that a thread runs. -/
theorem Hold.inside {l : List Job} (hs : Hold limits cancels s) (hl : s.slots[k]? = some l)
    (hne : total Job.unfinished l ≠ 0) : s.Inside k ∧ total Job.unfinished l ≤ 1 := by
  obtain ⟨i, b, hb, hslot⟩ := hs.owned k l hl hne
  have hfits := hs.fits i b hb
  cases b with
  | outside | ended => cases hslot
  | gate j plan | lock j plan c =>
    obtain rfl : j = k := by simpa [Await.slot] using hslot
    obtain rfl : l = [] := Option.some.inj (hl.symm.trans hfits.2)
    exact absurd rfl hne
  | job j rest w mc =>
    obtain rfl : j = k := by simpa [Await.slot] using hslot
    obtain ⟨hin, l', x, hl', hzero, _⟩ := hfits
    obtain rfl : l = l' ++ [x] := Option.some.inj (hl.symm.trans hl')
    refine ⟨hin, ?_⟩
    rw [total_concat, hzero, Nat.zero_add]
    exact x.unfinished_le_one
  | drain j failed c =>
    obtain rfl : j = k := by simpa [Await.slot] using hslot
    obtain ⟨hin, l', hl', hone, _⟩ := hfits
    obtain rfl : l = l' := Option.some.inj (hl.symm.trans hl')
    exact ⟨hin, hone⟩

end

/-- For any number of handlers, every interleaving and at most one cancellation of each handler: no
    more jobs run than the gate has permits, a job that runs has its permit and the coordinator's
    lock, and a rejected utterance has submitted nothing. -/
theorem slot_held_while_busy {limits : Limits} {has_lock : Bool} {es : List SlotEvent} {s : Server}
    (hruns : SlotRuns limits has_lock es s) (honce : ∀ h, es.count (.cancel h) ≤ 1) :
    total (total Job.runs) s.slots ≤ limits.concurrency ∧
    (∀ (k : ℕ) (l : List Job), s.slots[k]? = some l → .running ∈ l →
      s.gate.calls[k]? = some .inside ∧ (s.has_lock → s.lock = some (.utterance k))) ∧
    ∀ k depth : ℕ, s.gate.calls[k]? = some (.rejected depth) → s.slots[k]? = some [] := by
  have hs := runs_hold hruns honce
  have hle : ∀ l, total Job.runs l ≤ total Job.unfinished l :=
    fun l => total_le_total fun j _ => j.runs_le
  refine ⟨?_, fun k l hl hrun => ?_, fun k depth hk => hs.refused k depth (Gate.kind_rejected.2 hk)⟩
  · have hcalls : total (total Job.runs) s.slots ≤ total Call.holds s.gate.calls := by
      refine total_le_of_get hs.length fun k l c hl hc => ?_
      by_cases hzero : total Job.unfinished l = 0
      · exact Nat.le_trans (hle l) (hzero ▸ Nat.zero_le _)
      · obtain ⟨hin, hone⟩ := hs.inside hl hzero
        obtain rfl : c = .inside := Option.some.inj (hc.symm.trans (Gate.kind_inside.1 hin.1))
        exact Nat.le_trans (hle l) hone
    have hcount := hs.gate.1.count
    have hbounded := hs.gate.1.bounded
    rw [hs.gate.2] at hbounded
    omega
  · have hne : total Job.unfinished l ≠ 0 := by
      intro hzero
      have hdone := List.all_eq_true.1 (all_done_iff.2 hzero) _ hrun
      cases hdone
    obtain ⟨hin, _⟩ := hs.inside hl hne
    exact ⟨Gate.kind_inside.1 hin.1, hin.2⟩

/-- One permit and one place in the queue: a handler is cancelled while a thread runs its job, the
    next utterance waits and the third one is rejected. -/
def cancelled_under_worker : List SlotEvent :=
  [.connect, .connect, .connect, .utter 0 .eos, .start 0 0, .utter 1 .vad, .utter 2 .vad,
    .cancel 0, .resume 0]

theorem slot_held_while_busy_cancelled :
    ∃ s, SlotRuns ⟨1, some 1, by decide⟩ true cancelled_under_worker s ∧
      s.slots[0]? = some [.running] ∧ s.gate.calls[0]? = some .inside := by
  obtain ⟨s, hrun, hslot⟩ := Run.of_replay_any Server.step
    (Server.init ⟨1, some 1, by decide⟩ true) cancelled_under_worker
    (fun s => s.slots[0]? = some [.running]) rfl
  have hslot := of_decide_eq_true hslot
  have honce : ∀ h, cancelled_under_worker.count (.cancel h) ≤ 1 := by
    intro h
    by_cases hh : h = 0
    · subst hh
      decide
    · simp [cancelled_under_worker, Ne.symm hh]
  have hheld := slot_held_while_busy hrun honce
  exact ⟨s, hrun, hslot, (hheld.2.1 0 _ hslot (List.mem_singleton.2 rfl)).1⟩

end LocalVoice.AsrInferenceGate
