import LocalVoice.ApiExecution.Calls
import LocalVoice.Lib.Tasks

/-! A request keeps its leases while its thread is in the backend. In its own body that is by the stage
    it is at; outside of it no thread of it is in the backend, or comes there any more. What one
    request has to keep is `Call.Ok`; the leases of a manager and the slot of the coordinator are
    counted over the requests. -/

namespace LocalVoice.ApiExecution
open LocalVoice.Lib LocalVoice.BackendCoordinator

/-- Inside `coordinator.acquire()`, with the work under way. -/
def Call.in_body (c : Call) : Bool :=
  match c.stage with
  | .decoding | .polling | .draining => true
  | .entering | .queued | .leaving _ | .returned _ => false

/-- The slot it holds. -/
def Call.holds_slot (c : Call) : ℕ := if c.in_body then 1 else 0

/-- Between the two ends of `manager.acquire()`. -/
def Call.leased (c : Call) : Bool :=
  match c.stage with
  | .queued | .decoding | .polling | .draining | .leaving _ => c.managed
  | .entering | .returned _ => false

/-- Its lease of the manager of `k`. -/
def Call.lease (k : Slot) (c : Call) : ℕ := if c.leased && c.kind.slot = k then 1 else 0

/-- A thread that is not and will not be in the backend. -/
def Thread.out : Thread → Bool
  | .none | .left _ => true
  | .queued | .inside | .withdrawn => false

/-- What an execution that gives `r` left behind. -/
def Call.Gives (c : Call) : Result → Prop
  | .native ok => c.thread = .left ok ∨ c.thread = .none
  | .disconnected | .watcher_failed => c.seen = true
  | .refused => c.thread = .none

/-- What a request that ends with `o` left behind. -/
def Call.Fits (c : Call) : Outcome → Prop
  | .returned r => c.Gives r
  | .cancelled => True
  | .failed => c.thread = .none

/-- What a request keeps. -/
structure Call.Ok (c : Call) : Prop where
  told : ∀ ok, c.future = .result ok → c.thread = .left ok
  first : c.native_first = true → c.seen = false ∧ ∃ ok, c.future = .result ok
  idle : c.stage = .entering ∨ c.stage = .queued → c.thread = .none
  alone : c.stage = .entering ∨ c.stage = .queued ∨ c.stage = .decoding → c.owner = .none
  unowned : c.in_body = false → c.owner = .none ∨ ∃ r, c.owner = .ended r
  fresh : c.owner = .created → c.thread = .none
  racing : c.owner = .none ∨ c.owner = .created ∨ c.owner = .racing ∨ c.owner = .awaiting →
    c.seen = false
  draining : c.owner = .draining → c.seen = true
  closing : ∀ r, c.owner = .closing r ∨ c.owner = .joining r ∨ c.owner = .ended r → c.Gives r
  ended : ∀ r, c.owner = .ended r → c.thread.out = true
  outside : c.in_body = false → c.thread ≠ .inside ∧ (c.thread = .queued → c.future = .cancelled)
  fits : ∀ o, c.stage = .leaving o ∨ c.stage = .returned o → c.Fits o

section
variable {c c' : Call} {m : Move} {r : Result} {o : Outcome}

theorem Call.Ok.new (kind : Kind) (managed : Bool) : (Call.new kind managed).Ok := by
  constructor <;> simp [Call.new]

/-- A native call that was over before the disconnect was seen is what the caller gets. -/
theorem Call.Ok.own_result (h : c.Ok) (hstage : c.stage = .returned o) (hfirst : c.native_first = true) :
    o = .cancelled ∨ ∃ ok, c.thread = .left ok ∧ o = .returned (.native ok) := by
  obtain ⟨hseen, ok, hfuture⟩ := h.first hfirst
  have hthread := h.told ok hfuture
  have hfits := h.fits o (Or.inr hstage)
  cases o with
  | cancelled => exact Or.inl rfl
  | failed => exact absurd (hthread.symm.trans hfits) (by simp)
  | returned r =>
    cases r with
    | native ok' =>
      rcases hfits with hleft | hnone
      · obtain rfl : ok = ok' := by simpa [hthread] using hleft
        exact Or.inr ⟨ok, hthread, rfl⟩
      · exact absurd (hthread.symm.trans hnone) (by simp)
    | disconnected | watcher_failed => exact absurd (hseen.symm.trans hfits) (by simp)
    | refused => exact absurd (hthread.symm.trans hfits) (by simp)

/-! ### The thread -/

/-- A step of the thread or of its future. -/
theorem Call.Ok.thread_move (h : c.Ok) (th : Thread) (f : Future) (first : Bool)
    (htold : ∀ ok, f = .result ok → th = .left ok)
    (hfirst : first = true → c.seen = false ∧ ∃ ok, f = .result ok)
    (hnone : c.thread = .none → th = .none) (hleft : ∀ ok, c.thread = .left ok → th = .left ok)
    (houtside : c.in_body = false → th ≠ .inside ∧ (th = .queued → f = .cancelled)) :
    Call.Ok { c with thread := th, future := f, native_first := first } := by
  have hgives : ∀ r, c.Gives r →
      Call.Gives { c with thread := th, future := f, native_first := first } r := by
    intro r hr
    cases r with
    | native ok => exact hr.imp (hleft ok) hnone
    | disconnected | watcher_failed => exact hr
    | refused => exact hnone hr
  refine ⟨htold, hfirst, fun hs => hnone (h.idle hs), h.alone, h.unowned, fun ho => hnone (h.fresh ho),
    h.racing, h.draining, fun r hr => hgives r (h.closing r hr), ?_, houtside, ?_⟩
  · intro r hr
    have hout := h.ended r hr
    cases hth : c.thread with
    | none => simp [hnone hth, Thread.out]
    | left ok => simp [hleft ok hth, Thread.out]
    | queued | inside | withdrawn => simp [hth, Thread.out] at hout
  · intro o ho
    have hfits := h.fits o ho
    cases o with
    | returned r => exact hgives r hfits
    | cancelled => trivial
    | failed => exact hnone hfits

/-- A thread takes a job whose future was not cancelled. -/
theorem Call.Ok.start (h : c.Ok) (hlive : c.future ≠ .cancelled) (hm : c.move .start = some c') :
    c'.Ok := by
  obtain ⟨hth, hm⟩ := Option.ite_none_right_eq_some.1 hm
  obtain rfl := Option.some.inj hm
  refine h.thread_move .inside c.future c.native_first ?_ h.first ?_ ?_ ?_
  · intro ok hok
    exact absurd (hth.symm.trans (h.told ok hok)) (by simp)
  · intro hnone
    exact absurd (hth.symm.trans hnone) (by simp)
  · intro ok hleft
    exact absurd (hth.symm.trans hleft) (by simp)
  · intro hout
    exact absurd ((h.outside hout).2 hth) hlive

theorem Call.Ok.leave {ok : Bool} (h : c.Ok) (hm : c.move (.leave ok) = some c') : c'.Ok := by
  obtain ⟨hth, hm⟩ := Option.ite_none_right_eq_some.1 hm
  obtain rfl := Option.some.inj hm
  refine h.thread_move (.left ok) c.future c.native_first ?_ h.first ?_ ?_ ?_
  · intro ok' hok
    exact absurd (hth.symm.trans (h.told ok' hok)) (by simp)
  · intro hnone
    exact absurd (hth.symm.trans hnone) (by simp)
  · intro ok' hleft
    exact absurd (hth.symm.trans hleft) (by simp)
  · intro _
    simp

theorem Call.Ok.set_future (h : c.Ok) (hm : c.move .set_future = some c') : c'.Ok := by
  simp only [Call.move] at hm
  split at hm
  · next ok hth hf =>
    obtain rfl := Option.some.inj hm
    have hmove := h.thread_move c.thread (.result ok) (!c.seen) ?_ ?_ id (fun _ => id) ?_
    · exact hmove
    · intro ok' hok
      obtain rfl := Future.result.inj hok
      exact hth
    · intro hseen
      exact ⟨by simpa using hseen, ok, rfl⟩
    · intro _
      simp [hth]
  · cases hm

theorem Call.Ok.withdraw (h : c.Ok) (hm : c.move .withdraw = some c') : c'.Ok := by
  obtain ⟨⟨hth, -⟩, hm⟩ := Option.ite_none_right_eq_some.1 hm
  obtain rfl := Option.some.inj hm
  refine h.thread_move .withdrawn c.future c.native_first ?_ h.first ?_ ?_ ?_
  · intro ok hok
    exact absurd (hth.symm.trans (h.told ok hok)) (by simp)
  · intro hnone
    exact absurd (hth.symm.trans hnone) (by simp)
  · intro ok hleft
    exact absurd (hth.symm.trans hleft) (by simp)
  · intro _
    simp

/-! ### The owner -/

theorem not_in_body (h : c.stage = .leaving o ∨ c.stage = .returned o) : c.in_body = false := by
  rcases h with h | h <;> simp [Call.in_body, h]

/-- Inside the body, and not in `_decode`, while the owner has a step to take. -/
theorem Call.Ok.body_of_owner (h : c.Ok) (hn : c.owner ≠ .none) (he : ∀ r, c.owner ≠ .ended r) :
    c.in_body = true ∧ ¬ (c.stage = .entering ∨ c.stage = .queued ∨ c.stage = .decoding) := by
  refine ⟨?_, fun hs => hn (h.alone hs)⟩
  by_contra hout
  rcases h.unowned (by simpa using hout) with ho | ⟨r, hr⟩
  · exact hn ho
  · exact he r hr

/-- The owner moves on, with the thread where it is. -/
theorem Call.Ok.own_move (h : c.Ok) (ho : c.owner ≠ .none ∧ ∀ r, c.owner ≠ .ended r) (owner : Owner)
    (seen : Bool) (hfirst : c.native_first = true → seen = false)
    (hcreated : owner ≠ .none ∧ owner ≠ .created)
    (hracing : owner = .racing ∨ owner = .awaiting → seen = false) (hdraining : owner = .draining → seen = true)
    (hclosing : ∀ r, owner = .closing r ∨ owner = .joining r ∨ owner = .ended r →
      Call.Gives { c with owner := owner, seen := seen } r)
    (hended : ∀ r, owner = .ended r → c.thread.out = true) :
    Call.Ok { c with owner := owner, seen := seen } := by
  obtain ⟨hbody, hstage⟩ := h.body_of_owner ho.1 ho.2
  refine ⟨h.told, fun hf => ⟨hfirst hf, (h.first hf).2⟩, h.idle, fun hs => absurd hs hstage, ?_, ?_, ?_,
    hdraining, hclosing, hended, h.outside, ?_⟩
  · intro hout
    exact absurd (hbody.symm.trans hout) (by simp)
  · intro hc
    exact absurd hc hcreated.2
  · rintro (hn | hn | hr)
    · exact absurd hn hcreated.1
    · exact absurd hn hcreated.2
    · exact hracing hr
  · intro o hs
    exact absurd (hbody.symm.trans (not_in_body hs)) (by simp)

theorem Call.Ok.watch (h : c.Ok) (w : Watcher) : Call.Ok { c with watcher := w } :=
  ⟨h.told, h.first, h.idle, h.alone, h.unowned, h.fresh, h.racing, h.draining, h.closing, h.ended, h.outside,
    h.fits⟩

/-- The owner submits the job. -/
theorem Call.Ok.submit (h : c.Ok) (ho : c.owner = .created) (owner : Owner) (w : Watcher)
    (hnext : owner = .racing ∨ owner = .awaiting) :
    Call.Ok { c with thread := .queued, watcher := w, owner := owner } := by
  have hseen := h.racing (Or.inr (Or.inl ho))
  have hthread := h.fresh ho
  obtain ⟨hbody, hstage⟩ := h.body_of_owner (by simp [ho]) (by simp [ho])
  have hfuture : ∀ ok, c.future ≠ .result ok := fun ok hok =>
    absurd (hthread.symm.trans (h.told ok hok)) (by simp)
  refine ⟨fun ok hok => absurd hok (hfuture ok), ?_, fun hs => absurd (hs.imp_right Or.inl) hstage,
    fun hs => absurd hs hstage, ?_, ?_, fun _ => hseen, ?_, ?_, ?_, ?_, ?_⟩
  · intro hf
    obtain ⟨-, ok, hok⟩ := h.first hf
    exact absurd hok (hfuture ok)
  · intro hout
    exact absurd (hbody.symm.trans hout) (by simp)
  · rcases hnext with rfl | rfl <;> simp
  · rcases hnext with rfl | rfl <;> simp
  · rcases hnext with rfl | rfl <;> simp
  · rcases hnext with rfl | rfl <;> simp
  · intro hout
    exact absurd (hbody.symm.trans hout) (by simp)
  · intro o hs
    exact absurd (hbody.symm.trans (not_in_body hs)) (by simp)

/-- Every section of `own_work`. -/
theorem Call.Ok.own (h : c.Ok) (hm : c.own = some c') : c'.Ok := by
  unfold Call.own at hm
  cases howner : c.owner with
  | none | ended r => simp [howner] at hm
  | created =>
    rw [howner] at hm
    obtain rfl := Option.some.inj hm
    refine h.submit howner _ _ ?_
    split <;> simp
  | racing =>
    have hseen := h.racing (by simp [howner])
    have ho : c.owner ≠ .none ∧ ∀ r, c.owner ≠ .ended r := by simp [howner]
    simp only [howner] at hm
    split at hm
    · next ok hf =>
      obtain rfl := Option.some.inj hm
      refine h.own_move ho (.closing (.native ok)) c.seen (fun hf => (h.first hf).1) (by simp) (by simp)
        (by simp) ?_ (by simp)
      rintro r (hr | hr | hr) <;> cases hr
      exact Or.inl (h.told ok hf)
    · next hw hne =>
      obtain rfl := Option.some.inj hm
      refine h.own_move ho .draining true ?_ (by simp) (by simp) (by simp) (by simp) (by simp)
      intro hf
      obtain ⟨-, ok, hok⟩ := h.first hf
      exact absurd hok (hne ok)
    · obtain rfl := Option.some.inj hm
      exact h.own_move ho .awaiting c.seen (fun hf => (h.first hf).1) (by simp) (fun _ => hseen) (by simp)
        (by simp) (by simp)
    · next hw hne =>
      obtain rfl := Option.some.inj hm
      refine h.own_move ho (.closing .watcher_failed) true ?_ (by simp) (by simp) (by simp) ?_ (by simp)
      · intro hf
        obtain ⟨-, ok, hok⟩ := h.first hf
        exact absurd hok (hne ok)
      · rintro r (hr | hr | hr) <;> cases hr
        rfl
    · cases hm
  | awaiting =>
    have ho : c.owner ≠ .none ∧ ∀ r, c.owner ≠ .ended r := by simp [howner]
    simp only [howner] at hm
    split at hm
    · next ok hf =>
      obtain rfl := Option.some.inj hm
      refine h.own_move ho (.closing (.native ok)) c.seen (fun hf => (h.first hf).1) (by simp) (by simp)
        (by simp) ?_ (by simp)
      rintro r (hr | hr | hr) <;> cases hr
      exact Or.inl (h.told ok hf)
    · cases hm
  | draining =>
    have hseen := h.draining howner
    have ho : c.owner ≠ .none ∧ ∀ r, c.owner ≠ .ended r := by simp [howner]
    simp only [howner] at hm
    split at hm
    · obtain rfl := Option.some.inj hm
      refine h.own_move ho (.closing .disconnected) c.seen (fun hf => (h.first hf).1) (by simp) (by simp)
        (by simp) ?_ (by simp)
      rintro r (hr | hr | hr) <;> cases hr
      exact hseen
    · cases hm
  | closing r =>
    have hgives := h.closing r (Or.inl howner)
    have ho : c.owner ≠ .none ∧ ∀ r, c.owner ≠ .ended r := by simp [howner]
    simp only [howner] at hm
    split at hm
    · cases hm
    · obtain rfl := Option.some.inj hm
      refine h.own_move ho (.joining r) c.seen (fun hf => (h.first hf).1) (by simp) (by simp)
        (by simp) ?_ (by simp)
      rintro r' (hr | hr | hr) <;> cases hr
      exact hgives
  | joining r =>
    have hgives := h.closing r (Or.inr (Or.inl howner))
    have ho : c.owner ≠ .none ∧ ∀ r, c.owner ≠ .ended r := by simp [howner]
    simp only [howner] at hm
    split at hm
    · next ok hf =>
      obtain rfl := Option.some.inj hm
      refine h.own_move ho (.ended r) c.seen (fun hf => (h.first hf).1) (by simp) (by simp)
        (by simp) ?_ ?_
      · rintro r' (hr | hr | hr) <;> cases hr
        exact hgives
      · intro _ _
        rw [h.told ok hf]
        rfl
    · cases hm

/-- An executor that takes no job ends the owner. -/
theorem Call.Ok.own_refused (h : c.Ok) (hm : c.move .own_refused = some c') : c'.Ok := by
  obtain ⟨howner, hm⟩ := Option.ite_none_right_eq_some.1 hm
  obtain rfl := Option.some.inj hm
  have hthread := h.fresh howner
  refine h.own_move (by simp [howner]) (.ended .refused) c.seen (fun hf => (h.first hf).1) (by simp)
    (by simp) (by simp) ?_ ?_
  · rintro r' (hr | hr | hr) <;> cases hr
    exact hthread
  · intro _ _
    rw [hthread]
    rfl

/-- What happens beside the calling task. -/
theorem Call.Ok.move (h : c.Ok) (hlive : m = .start → c.future ≠ .cancelled)
    (hm : c.move m = some c') : c'.Ok := by
  cases m with
  | start => exact h.start (hlive rfl) hm
  | leave ok => exact h.leave hm
  | set_future => exact h.set_future hm
  | withdraw => exact h.withdraw hm
  | own => exact h.own hm
  | own_refused => exact h.own_refused hm
  | watch w =>
    obtain ⟨-, hm⟩ := Option.ite_none_right_eq_some.1 hm
    obtain rfl := Option.some.inj hm
    exact h.watch _

/-! ### The calling task -/

/-- The calling task moves on. -/
theorem Call.Ok.stage (h : c.Ok) (st : Stage)
    (hidle : st = .entering ∨ st = .queued → c.thread = .none)
    (halone : st = .entering ∨ st = .queued ∨ st = .decoding → c.owner = .none)
    (hout : Call.in_body { c with stage := st } = false →
      (c.owner = .none ∨ ∃ r, c.owner = .ended r) ∧
        c.thread ≠ .inside ∧ (c.thread = .queued → c.future = .cancelled))
    (hfits : ∀ o, st = .leaving o ∨ st = .returned o → c.Fits o) : Call.Ok { c with stage := st } :=
  ⟨h.told, h.first, hidle, halone, fun hb => (hout hb).1, h.fresh, h.racing, h.draining, h.closing,
    h.ended, fun hb => (hout hb).2, hfits⟩

/-- A body that is left with no thread in the backend. -/
theorem Call.Ok.exit (h : c.Ok) (howner : c.owner = .none ∨ ∃ r, c.owner = .ended r)
    (hthread : c.thread ≠ .inside ∧ (c.thread = .queued → c.future = .cancelled)) (hfits : c.Fits o) :
    (c.exit o).Ok := by
  unfold Call.exit
  refine h.stage _ ?_ ?_ (fun _ => ⟨howner, hthread⟩) ?_
  · split <;> simp
  · split <;> simp
  · intro o' ho'
    obtain rfl : o = o' := by
      split at ho' <;> simpa using ho'
    exact hfits

/-- Before the body there is neither a thread nor an owner. -/
theorem Call.Ok.before (h : c.Ok) (hs : c.stage = .entering ∨ c.stage = .queued) :
    c.thread = .none ∧ c.owner = .none := ⟨h.idle hs, h.alone (hs.imp_right Or.inl)⟩

theorem Call.Ok.exit_before (h : c.Ok) (hs : c.stage = .entering ∨ c.stage = .queued)
    (hfits : c.thread = .none → c.Fits o) : (c.exit o).Ok := by
  obtain ⟨hthread, howner⟩ := h.before hs
  exact h.exit (Or.inl howner) (by simp [hthread]) (hfits hthread)

theorem Call.Ok.admit_asr (h : c.Ok) (hs : c.stage = .queued) :
    Call.Ok { c with stage := .decoding, thread := .queued } := by
  obtain ⟨hthread, howner⟩ := h.before (Or.inr hs)
  have hfuture : ∀ ok, c.future ≠ .result ok := fun ok hok =>
    absurd (hthread.symm.trans (h.told ok hok)) (by simp)
  refine ⟨fun ok hok => absurd hok (hfuture ok), ?_, by simp, fun _ => howner, by simp [Call.in_body], ?_,
    h.racing, h.draining, ?_, ?_, by simp [Call.in_body], by simp⟩
  · intro hf
    obtain ⟨-, ok, hok⟩ := h.first hf
    exact absurd hok (hfuture ok)
  all_goals simp [howner]

theorem Call.Ok.admit_kokoro (h : c.Ok) (hs : c.stage = .queued) :
    Call.Ok { c with stage := .polling, owner := .created } := by
  obtain ⟨hthread, howner⟩ := h.before (Or.inr hs)
  have hseen := h.racing (Or.inl howner)
  exact ⟨h.told, h.first, by simp, by simp, by simp [Call.in_body], fun _ => hthread, fun _ => hseen, by simp,
    by simp, by simp, by simp [Call.in_body], by simp⟩

/-- The future of `_decode` is cancelled, and its thread is not in the backend. -/
theorem Call.Ok.cancel_decode (h : c.Ok) (hs : c.stage = .decoding) (hthread : c.thread ≠ .inside) :
    (Call.exit { c with future := if c.future = .pending then .cancelled else c.future }
      .cancelled).Ok := by
  have hmoved : Call.Ok { c with future := if c.future = .pending then .cancelled else c.future } := by
    refine h.thread_move c.thread _ c.native_first ?_ ?_ id (fun _ => id) ?_
    · intro ok hok
      split at hok
      · cases hok
      · exact h.told ok hok
    · intro hf
      obtain ⟨hseen, ok, hok⟩ := h.first hf
      exact ⟨hseen, ok, by simp [hok]⟩
    · intro hout
      simp [Call.in_body, hs] at hout
  refine hmoved.exit (Or.inl (h.alone (by simp [hs]))) ⟨hthread, fun hq => ?_⟩ trivial
  cases hf : c.future with
  | pending | cancelled => simp
  | result ok => exact absurd (hq.symm.trans (h.told ok hf)) (by simp)

theorem move_stage (h : c.move m = some c') :
    c'.stage = c.stage ∧ c'.managed = c.managed ∧ c'.kind = c.kind := by
  cases m with
  | start | leave | withdraw | own_refused | watch =>
    obtain ⟨-, h⟩ := Option.ite_none_right_eq_some.1 h
    obtain rfl := Option.some.inj h
    exact ⟨rfl, rfl, rfl⟩
  | set_future =>
    simp only [Call.move] at h
    split at h
    · obtain rfl := Option.some.inj h
      exact ⟨rfl, rfl, rfl⟩
    · cases h
  | own =>
    simp only [Call.move, Call.own] at h
    repeat' split at h
    all_goals cases h <;> exact ⟨rfl, rfl, rfl⟩

end
end LocalVoice.ApiExecution
