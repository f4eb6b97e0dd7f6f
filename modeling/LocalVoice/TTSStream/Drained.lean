import LocalVoice.TTSStream.Cleanup

/-! The cleanup of a stream releases once, after its jobs have left the backend. With the flag up no
    job enters the backend any more, so the jobs inside are among those that the cleanup has still to
    look at or to drain; an item leaves that list only when its thread is out. -/

namespace LocalVoice.TTSStream
open LocalVoice.Lib

/-! ### One job -/

/-- A result in the wrapper is the thread's. -/
def Job.Told (j : Job) : Prop := ∀ ok, j.future = .result ok → j.thread = .finished ok

/-- What a move leaves as it was; with the flag up it brings no job into the backend. -/
structure Moved (flag : Bool) (j j' : Job) : Prop where
  record : j'.record = j.record
  started : j.started = true → j'.started = true
  done : j.done = true → j'.done = true
  told : j.Told → j'.Told
  inside : flag = true → j'.inside = true → j.inside = true

section
variable {flag : Bool} {j j' : Job} {m : Move} {i : ℕ}

theorem Job.inside_started (h : j.inside = true) : j.started = true := by
  have hthread : j.thread = .inside := by simpa [Job.inside] using h
  simp [Job.started, hthread]

theorem Job.not_inside_of_finished (h : j.finished = true) : j.inside = false := by
  unfold Job.finished at h
  split at h
  · next hthread => simp [Job.inside, hthread]
  · cases h

/-- A move of the thread only. -/
theorem moved_thread {th th' : Thread} {r : Record} {f : Future}
    (hold : ∀ ok, th ≠ .finished ok)
    (hstarted : (⟨r, th, f⟩ : Job).started = true → (⟨r, th', f⟩ : Job).started = true)
    (hinside : flag = true → th' = .inside → th = .inside) :
    Moved flag ⟨r, th, f⟩ ⟨r, th', f⟩ where
  record := rfl
  started := hstarted
  done h := h
  told h ok hok := absurd (h ok hok) (hold ok)
  inside hf hi := by
    have hth : th' = .inside := by simpa [Job.inside] using hi
    simp [Job.inside, hinside hf hth]

theorem Job.move_spec (h : j.move flag m = some j') : Moved flag j j' := by
  obtain ⟨r, th, f⟩ := j
  cases m with
  | start =>
    obtain ⟨rfl, h⟩ := Option.ite_none_right_eq_some.1 h
    obtain rfl := Option.some.inj h
    exact moved_thread nofun (fun _ => rfl) nofun
  | withdraw =>
    obtain ⟨⟨rfl, _⟩, h⟩ := Option.ite_none_right_eq_some.1 h
    obtain rfl := Option.some.inj h
    exact moved_thread nofun nofun nofun
  | read_flag =>
    obtain ⟨rfl, h⟩ := Option.ite_none_right_eq_some.1 h
    obtain rfl := Option.some.inj h
    refine moved_thread nofun (fun _ => ?_) fun hf => ?_
    · cases flag <;> rfl
    · rw [if_pos hf]
      nofun
  | leave =>
    obtain ⟨rfl, h⟩ := Option.ite_none_right_eq_some.1 h
    obtain rfl := Option.some.inj h
    exact moved_thread nofun (fun _ => rfl) nofun
  | finish ok =>
    obtain ⟨rfl, h⟩ := Option.ite_none_right_eq_some.1 h
    obtain rfl := Option.some.inj h
    exact moved_thread nofun (fun _ => rfl) nofun
  | set_future =>
    simp only [Job.move] at h
    split at h
    · next ok =>
      obtain rfl := Option.some.inj h
      refine ⟨rfl, id, fun _ => rfl, fun _ ok' hok => ?_, fun _ => id⟩
      have heq : ok = ok' := by simpa using hok
      exact congrArg Thread.finished heq
    · cases h
  | cancel =>
    obtain ⟨_, h⟩ := Option.ite_none_right_eq_some.1 h
    obtain rfl := Option.some.inj h
    exact ⟨rfl, id, fun _ => rfl, fun _ => nofun, fun _ => id⟩

/-- What ends `_consume_job`. -/
theorem Job.consume_spec {finished ok : Bool} (h : j.consume finished = some ok) :
    (finished = true → j.finished = true) ∧
      (ok = false → j.future = .result false) := by
  unfold Job.consume at h
  split at h
  · cases h
  · next hwait =>
    refine ⟨fun hf => by simpa [hf] using hwait, fun hok => ?_⟩
    split at h
    · cases h
    · exact absurd (Option.some.inj h) (by simp [hok])
    · next ok' hfuture => rw [hfuture, Option.some.inj h, hok]

end

/-! ### The items the cleanup has to drain -/

/-- The items that the snapshot has put on the list and the loop has not left behind. -/
def Phase.entries : Phase → List Entry
  | .scanning _ drain => drain
  | .draining e rest _ => e :: rest
  | _ => []

/-- Why the job of an item is on the list. -/
def Entry.Known (e : Entry) (j : Job) : Prop :=
  if e.finished then j.started = true
  else j.record = .bare ∨ j.started = true ∨ j.done = true

/-- The jobs that may be in the backend. -/
def Phase.Covers (i : ℕ) : Phase → Prop
  | .none | .created => True
  | .scanning n drain => n ≤ i ∨ ∃ e ∈ drain, e.job = i
  | .draining e rest .none => ∃ e' ∈ e :: rest, e'.job = i
  | .draining _ rest (some true) => ∃ e ∈ rest, e.job = i
  | .draining _ _ (some false) | .releasing _ _ | .ended _ => False

/-- How often the release callback ran. -/
def Phase.released : Phase → ℕ
  | .releasing _ .running | .releasing _ (.ended _) | .ended _ => 1
  | _ => 0

structure Inv (s : Owner) : Prop where
  flag : s.task ≠ .none → s.cancel_flag = true
  told : ∀ (i : ℕ) (j : Job), s.executor_jobs[i]? = some j → j.Told
  known : ∀ e ∈ s.task.entries, ∃ j : Job, s.executor_jobs[e.job]? = some j ∧ e.Known j
  covers : ∀ i, s.inside i = true → s.task.Covers i
  releases : s.releases = s.task.released

theorem inv_init : Inv Owner.init where
  flag h := absurd rfl h
  told i j h := by simp [Owner.init] at h
  known := nofun
  covers i h := trivial
  releases := rfl

section
variable {s t : Owner} {j j' : Job} {i k : ℕ} {e : Entry} {l : List Entry} {p : Phase}

theorem inside_iff : s.inside i = true ↔ ∃ j, s.executor_jobs[i]? = some j ∧ j.inside = true := by
  simp [Owner.inside, Option.any_eq_true]

@[simp] theorem entries_drain (l : List Entry) : (Phase.drain l).entries = l := by
  cases l <;> rfl

@[simp] theorem covers_drain : (Phase.drain l).Covers i ↔ ∃ e ∈ l, e.job = i := by
  cases l <;> simp [Phase.drain, Phase.Covers]

@[simp] theorem released_drain (l : List Entry) : (Phase.drain l).released = 0 := by
  cases l <;> rfl

theorem drain_ne_none (l : List Entry) : Phase.drain l ≠ .none := by
  cases l <;> nofun

theorem Entry.Known.moved {flag : Bool} (h : e.Known j) (hm : Moved flag j j') : e.Known j' := by
  unfold Entry.Known at h ⊢
  split
  · next hf => exact hm.started (by simpa [hf] using h)
  · next hf =>
    rw [if_neg hf] at h
    rcases h with hbare | hstarted | hdone
    · exact .inl (hm.record.trans hbare)
    · exact .inr (.inl (hm.started hstarted))
    · exact .inr (.inr (hm.done hdone))

/-- The snapshot leaves out only jobs that are not in the backend. -/
theorem snapshot_spec (j : Job) (i : ℕ) :
    (∀ e ∈ j.snapshot i, e.job = i ∧ e.Known j) ∧
      (j.inside = true → ∃ e ∈ j.snapshot i, e.job = i) := by
  cases hr : j.record with
  | bare =>
    simp only [Job.snapshot, hr, List.mem_singleton, forall_eq, exists_eq_left]
    exact ⟨⟨trivial, by simp [Entry.Known, hr]⟩, fun _ => trivial⟩
  | pair =>
    simp only [Job.snapshot, hr]
    split
    · next hskip =>
      refine ⟨nofun, fun hin => ?_⟩
      simp [Job.inside_started hin] at hskip
    · next hskip =>
      simp only [List.mem_singleton, forall_eq, exists_eq_left]
      refine ⟨⟨trivial, .inr ?_⟩, fun _ => trivial⟩
      simpa [Decidable.imp_iff_not_or, Bool.not_eq_false] using hskip
  | triple =>
    simp only [Job.snapshot, hr]
    split
    · next hstarted =>
      simp only [List.mem_singleton, forall_eq, exists_eq_left]
      exact ⟨⟨trivial, hstarted⟩, fun _ => trivial⟩
    · next hstarted => exact ⟨nofun, fun hin => absurd (Job.inside_started hin) hstarted⟩

theorem released_le (p : Phase) : p.released ≤ 1 := by
  unfold Phase.released
  split <;> simp

theorem not_covers_of_released (h : p.released ≠ 0) : ¬ p.Covers i := by
  unfold Phase.released at h
  split at h
  · exact id
  · exact id
  · exact id
  · exact absurd rfl h

/-! ### The invariant is kept -/

/-- A move of one job. -/
theorem Inv.job {m : Move} (h : Inv s) (hj : s.executor_jobs[k]? = some j)
    (hmove : j.move s.cancel_flag m = some j') :
    Inv { s with executor_jobs := s.executor_jobs.set k j' } := by
  have hm := Job.move_spec hmove
  have hk : k < s.executor_jobs.length := (List.getElem?_eq_some_iff.1 hj).1
  have hset : ∀ (i : ℕ) (j₁ : Job), (s.executor_jobs.set k j')[i]? = some j₁ →
      ∃ j₀ : Job, s.executor_jobs[i]? = some j₀ ∧ (j₁ = j₀ ∨ Moved s.cancel_flag j₀ j₁) := by
    intro i j₁ hi
    rw [List.getElem?_set] at hi
    split at hi
    · next heq =>
      exact ⟨j, heq ▸ hj, .inr (Option.some.inj hi ▸ hm)⟩
    · exact ⟨j₁, hi, .inl rfl⟩
  refine ⟨h.flag, fun i j₁ hi => ?_, fun e he => ?_, fun i hi => ?_, h.releases⟩
  · obtain ⟨j₀, h0, rfl | hmoved⟩ := hset i j₁ hi
    · exact h.told i j₁ h0
    · exact hmoved.told (h.told i j₀ h0)
  · obtain ⟨j₀, h0, hknown⟩ := h.known e he
    by_cases heq : k = e.job
    · obtain rfl : j = j₀ := Option.some.inj (hj.symm.trans (heq ▸ h0))
      exact ⟨j', by simp [← heq, hk], hknown.moved hm⟩
    · exact ⟨j₀, by simpa [heq] using h0, hknown⟩
  · -- before the start every job may be inside, after it the flag is up
    by_cases hnone : s.task = .none
    · show s.task.Covers i
      rw [hnone]
      trivial
    · obtain ⟨j₁, h1, hin⟩ := inside_iff.1 hi
      refine h.covers i (inside_iff.2 ?_)
      obtain ⟨j₀, h0, rfl | hmoved⟩ := hset i j₁ h1
      · exact ⟨j₁, h0, hin⟩
      · exact ⟨j₀, h0, hmoved.inside (h.flag hnone) hin⟩

/-- A new job is queued. -/
theorem Inv.submit (h : Inv s) (r : Record) :
    Inv { s with executor_jobs := s.executor_jobs ++ [⟨r, .queued, .pending⟩] } := by
  have hget : ∀ (i : ℕ) (j : Job), (s.executor_jobs ++ [⟨r, .queued, .pending⟩])[i]? = some j →
      s.executor_jobs[i]? = some j ∨ j = ⟨r, .queued, .pending⟩ := by
    intro i j hi
    rw [List.getElem?_append] at hi
    split at hi
    · exact .inl hi
    · exact .inr (List.mem_singleton.1 (List.mem_of_getElem? hi))
  refine ⟨h.flag, fun i j hi => ?_, fun e he => ?_, fun i hi => ?_, h.releases⟩
  · rcases hget i j hi with hold | rfl
    · exact h.told i j hold
    · exact nofun
  · obtain ⟨j, hj, hknown⟩ := h.known e he
    exact ⟨j, (List.getElem?_append_left (List.getElem?_eq_some_iff.1 hj).1).trans hj, hknown⟩
  · obtain ⟨j, hj, hin⟩ := inside_iff.1 hi
    rcases hget i j hj with hold | rfl
    · exact h.covers i (inside_iff.2 ⟨j, hold, hin⟩)
    · cases hin

theorem Inv.start (h : Inv s) (hflag : s.task = .none → s.cancel_flag = true) : Inv s.start := by
  unfold Owner.start
  split
  · next hnone =>
    refine ⟨fun _ => hflag hnone, h.told, nofun, fun _ _ => trivial, ?_⟩
    simpa [hnone, Phase.released] using h.releases
  · exact h

/-- The cleanup goes from phase `q` to phase `p`. -/
theorem Inv.advance {q : Phase} {n : ℕ} (h : Inv s) (htask : s.task = q) (hne : q ≠ .none)
    (hknown : ∀ e ∈ p.entries, e ∈ q.entries ∨
      ∃ j : Job, s.executor_jobs[e.job]? = some j ∧ e.Known j)
    (hcovers : ∀ i, s.inside i = true → q.Covers i → p.Covers i)
    (hn : n + q.released = s.releases + p.released) :
    Inv { s with task := p, releases := n } where
  flag _ := h.flag (htask ▸ hne)
  told := h.told
  known e he := (hknown e he).elim (fun hq => h.known e (htask ▸ hq)) id
  covers i hi := hcovers i hi (htask ▸ h.covers i hi)
  releases := by
    have hq : s.releases = q.released := h.releases.trans (congrArg Phase.released htask)
    show n = p.released
    omega

/-- The record at index `n` of the snapshot loop. -/
theorem Inv.scan {n : ℕ} {drain : List Entry} (h : Inv s) (htask : s.task = .scanning n drain)
    (hj : s.executor_jobs[n]? = some j) :
    Inv { s with task := .scanning (n + 1) (drain ++ j.snapshot n) } := by
  obtain ⟨hknown, hinside⟩ := snapshot_spec j n
  refine h.advance htask nofun (fun e he => ?_) (fun i hi hcov => ?_) rfl
  · rcases List.mem_append.1 he with hold | hnew
    · exact .inl hold
    · obtain ⟨hjob, hk⟩ := hknown e hnew
      exact .inr ⟨j, hjob ▸ hj, hk⟩
  · rcases hcov with hle | ⟨e, he, hjob⟩
    · rcases Nat.eq_or_lt_of_le hle with rfl | hlt
      · obtain ⟨j₁, h1, hin⟩ := inside_iff.1 hi
        obtain rfl : j = j₁ := Option.some.inj (hj.symm.trans h1)
        obtain ⟨e, he, hjob⟩ := hinside hin
        exact .inr ⟨e, List.mem_append_right _ he, hjob⟩
      · exact .inl hlt
    · exact .inr ⟨e, List.mem_append_left _ he, hjob⟩

/-- The snapshot is complete. -/
theorem Inv.scanned {n : ℕ} {drain : List Entry} (h : Inv s) (htask : s.task = .scanning n drain)
    (hend : s.executor_jobs[n]? = none) : Inv { s with task := .drain drain } := by
  refine h.advance htask nofun (fun e he => ?_) (fun i hi hcov => ?_) ?_
  · rw [entries_drain] at he
    exact .inl he
  · obtain ⟨j, hj, _⟩ := inside_iff.1 hi
    have hlt : i < s.executor_jobs.length := (List.getElem?_eq_some_iff.1 hj).1
    have hle : s.executor_jobs.length ≤ n := List.getElem?_eq_none_iff.1 hend
    rcases hcov with hni | hmem
    · omega
    · exact covers_drain.2 hmem
  · rw [released_drain]
    rfl

/-- `_consume_job` has ended. -/
theorem Inv.consume {rest : List Entry} {ok : Bool} (h : Inv s)
    (htask : s.task = .draining e rest .none) (hj : s.executor_jobs[e.job]? = some j)
    (hc : j.consume e.finished = some ok) (hsound : s.sound (.cleanup .consume) = true) :
    Inv { s with task := .draining e rest (some ok) } := by
  obtain ⟨hfin, hfuture⟩ := Job.consume_spec hc
  simp only [Owner.sound, htask, Bool.and_eq_true, Bool.or_eq_true, Bool.not_eq_true',
    List.all_eq_true, hj, Option.any_some, beq_eq_false_iff_ne] at hsound
  obtain ⟨hout, hrest⟩ := hsound
  have hleft : s.inside e.job = false := by
    rcases hout with hev | hout
    · simp [Owner.inside, hj, Job.not_inside_of_finished (hfin hev)]
    · exact hout
  refine h.advance htask nofun (fun e' he' => .inl he') (fun i hi hcov => ?_) rfl
  obtain ⟨e', he', rfl⟩ := hcov
  rcases List.mem_cons.1 he' with rfl | hmem
  · exact absurd (hleft.symm.trans hi) (by simp)
  · cases ok with
    | true => exact ⟨e', hmem, rfl⟩
    | false =>
      rcases hrest with hne | hall
      · exact absurd (hfuture rfl) hne
      · exact absurd ((hall e' hmem).symm.trans hi) (by simp)

/-- A section of the cleanup. -/
theorem Inv.cleanup {c : Section} (h : Inv s) (hstep : s.task.step s.executor_jobs c = some p)
    (hsound : s.sound (.cleanup c) = true) :
    Inv { s with task := p,
                 releases := if c = .release then s.releases + 1 else s.releases } := by
  unfold Phase.step at hstep
  split at hstep
  · next htask =>
    obtain rfl := Option.some.inj hstep
    exact h.advance htask nofun nofun (fun i _ _ => .inl (Nat.zero_le i)) rfl
  · next n drain htask =>
    obtain rfl := Option.some.inj hstep
    cases hj : s.executor_jobs[n]? with
    | some j => exact h.scan htask hj
    | none => exact h.scanned htask hj
  · next e rest htask =>
    obtain ⟨ok, hok, rfl⟩ := Option.map_eq_some_iff.1 hstep
    obtain ⟨j, hj, hc⟩ := Option.bind_eq_some_iff.1 hok
    exact h.consume htask hj hc hsound
  · next e rest _ htask =>
    obtain rfl := Option.some.inj hstep
    refine h.advance htask nofun (fun e' he' => .inl ?_) (fun i _ hcov => covers_drain.2 hcov) ?_
    · rw [entries_drain] at he'
      exact List.mem_cons_of_mem e he'
    · rw [released_drain]
      rfl
  · next htask =>
    obtain rfl := Option.some.inj hstep
    exact h.advance htask nofun nofun (fun i _ hcov => hcov) rfl
  · next htask =>
    obtain rfl := Option.some.inj hstep
    rw [← htask]
    exact h
  · next htask =>
    obtain rfl := Option.some.inj hstep
    exact h.advance htask nofun nofun (fun i _ hcov => hcov) rfl
  · next htask =>
    obtain rfl := Option.some.inj hstep
    exact h.advance htask nofun nofun (fun i _ hcov => hcov) rfl
  · next htask =>
    obtain rfl := Option.some.inj hstep
    exact h.advance htask nofun nofun (fun i _ hcov => hcov) rfl
  · next htask =>
    obtain rfl := Option.some.inj hstep
    rw [← htask]
    exact h
  · cases hstep

theorem inv_step {a : Act} (h : Inv s) (hstep : s.Drains a t) : Inv t := by
  obtain ⟨hok, hstep⟩ := hstep
  obtain ⟨hfirst, hsound⟩ := Bool.and_eq_true_iff.1 hok
  cases a with
  | submit r =>
    simp only [Owner.step] at hstep
    split at hstep
    · cases hstep
    · obtain rfl := Option.some.inj hstep
      exact h.submit r
  | raise_flag =>
    obtain rfl := Option.some.inj hstep
    exact ⟨fun _ => rfl, h.told, h.known, h.covers, h.releases⟩
  | job i m =>
    obtain ⟨j', hj', rfl⟩ := Option.map_eq_some_iff.1 hstep
    obtain ⟨j, hj, hmove⟩ := Option.bind_eq_some_iff.1 hj'
    exact h.job hj hmove
  | start =>
    obtain rfl := Option.some.inj hstep
    exact h.start fun hnone => by simpa [Owner.flag_first, hnone] using hfirst
  | wait =>
    obtain rfl := Option.some.inj hstep
    have hs := h.start fun hnone => by simpa [Owner.flag_first, hnone] using hfirst
    exact ⟨hs.flag, hs.told, hs.known, hs.covers, hs.releases⟩
  | give_up w =>
    obtain ⟨_, hstep⟩ := Option.ite_none_right_eq_some.1 hstep
    obtain rfl := Option.some.inj hstep
    exact ⟨h.flag, h.told, h.known, h.covers, h.releases⟩
  | wake w =>
    simp only [Owner.step] at hstep
    split at hstep
    · obtain rfl := Option.some.inj hstep
      exact ⟨h.flag, h.told, h.known, h.covers, h.releases⟩
    · cases hstep
  | cleanup c =>
    obtain ⟨p, hp, rfl⟩ := Option.map_eq_some_iff.1 hstep
    exact h.cleanup hp hsound

/-! ### The cleanup comes to its end -/

/-- The executor is done with the job and the loop has heard of it; a job that is not started and
    whose record has a `started` event is waited for by nobody. -/
def Job.Settled (j : Job) : Prop :=
  (j.started = true → j.finished = true) ∧ (j.started = true ∨ j.record = .bare → j.done = true)

/-- How many sections the cleanup has at most before its end, with `n` records. -/
def Phase.remaining (n : ℕ) : Phase → ℕ
  | .none | .ended _ => 0
  | .created => 3 * n + 5
  | .scanning i drain => 3 * (n - i) + 2 * drain.length + 4
  | .draining _ rest .none => 2 * rest.length + 5
  | .draining _ rest (some _) => 2 * rest.length + 4
  | .releasing _ .scheduled => 3
  | .releasing _ .running => 2
  | .releasing _ (.ended _) => 1

theorem remaining_drain (n : ℕ) (l : List Entry) :
    (Phase.drain l).remaining n < 2 * l.length + 4 := by
  cases l with
  | nil => simp [Phase.drain, Phase.remaining]
  | cons e rest =>
    show 2 * rest.length + 5 < 2 * (rest.length + 1) + 4
    omega

theorem snapshot_length (j : Job) (i : ℕ) : (j.snapshot i).length ≤ 1 := by
  unfold Job.snapshot
  split
  · split <;> simp
  · split <;> simp
  · simp

theorem Entry.Known.consume (h : e.Known j) (hj : j.Settled) :
    ∃ ok, j.consume e.finished = some ok := by
  have hdone : j.done = true := by
    unfold Entry.Known at h
    split at h
    · exact hj.2 (.inl h)
    · rcases h with hbare | hstarted | hdone
      · exact hj.2 (.inr hbare)
      · exact hj.2 (.inl hstarted)
      · exact hdone
  have hgo : (e.finished && !j.finished) = false := by
    cases hf : e.finished with
    | false => rfl
    | true =>
      rw [Entry.Known, if_pos hf] at h
      simp [hj.1 h]
  rw [Job.consume, hgo, if_neg (by simp)]
  cases hfuture : j.future with
  | pending => simp [Job.done, hfuture] at hdone
  | cancelled => exact ⟨_, rfl⟩
  | result ok => exact ⟨_, rfl⟩

/-- With every job settled none is in the backend. -/
theorem inside_settled (h : ∀ j ∈ s.executor_jobs, j.Settled) (i : ℕ) : s.inside i = false := by
  rw [Bool.eq_false_iff]
  intro hi
  obtain ⟨j, hj, hin⟩ := inside_iff.1 hi
  have hfin := (h j (List.mem_of_getElem? hj)).1 (Job.inside_started hin)
  exact absurd ((Job.not_inside_of_finished hfin).symm.trans hin) (by simp)

theorem sound_settled (h : ∀ j ∈ s.executor_jobs, j.Settled) (a : Act) : s.sound a = true := by
  unfold Owner.sound
  split
  · split
    · simp [inside_settled h]
    · rfl
  · rfl

/-- A section of the cleanup can always be taken once the jobs are settled. -/
theorem Inv.progress (h : Inv s) (hstarted : s.task ≠ .none)
    (hgoing : ∀ failed, s.task ≠ .ended failed) (hsettled : ∀ j ∈ s.executor_jobs, j.Settled) :
    ∃ c p, s.task.step s.executor_jobs c = some p ∧ p ≠ .none ∧
      p.remaining s.executor_jobs.length < s.task.remaining s.executor_jobs.length := by
  cases htask : s.task with
  | none => exact absurd htask hstarted
  | created => exact ⟨.scan, .scanning 0 [], rfl, nofun, by simp [Phase.remaining]⟩
  | scanning n drain =>
    cases hj : s.executor_jobs[n]? with
    | none =>
      refine ⟨.scan, .drain drain, by simp [Phase.step, hj], drain_ne_none drain, ?_⟩
      have hless := remaining_drain s.executor_jobs.length drain
      show _ < 3 * (s.executor_jobs.length - n) + 2 * drain.length + 4
      omega
    | some j =>
      refine ⟨.scan, .scanning (n + 1) (drain ++ j.snapshot n), by simp [Phase.step, hj], nofun, ?_⟩
      have hlt : n < s.executor_jobs.length := (List.getElem?_eq_some_iff.1 hj).1
      have hle := snapshot_length j n
      simp only [Phase.remaining, List.length_append]
      omega
  | draining e rest consumed =>
    cases consumed with
    | none =>
      obtain ⟨j, hj, hknown⟩ := h.known e (by simp [htask, Phase.entries])
      obtain ⟨ok, hok⟩ := hknown.consume (hsettled j (List.mem_of_getElem? hj))
      exact ⟨.consume, .draining e rest (some ok), by simp [Phase.step, hj, hok], nofun,
        Nat.lt_succ_self _⟩
    | some ok =>
      cases ok with
      | true => exact ⟨.resume false, .drain rest, rfl, drain_ne_none rest, remaining_drain _ rest⟩
      | false =>
        exact ⟨.resume false, .releasing true .scheduled, rfl, nofun, Nat.le_add_left 4 _⟩
  | releasing failed release =>
    cases release with
    | scheduled => exact ⟨.release, .releasing failed .running, rfl, nofun, Nat.lt_succ_self 2⟩
    | running =>
      exact ⟨.release_end true, .releasing failed (.ended true), rfl, nofun, Nat.lt_succ_self 1⟩
    | ended ok => exact ⟨.resume false, .ended (failed || !ok), rfl, nofun, Nat.lt_succ_self 0⟩
  | ended failed => exact absurd htask (hgoing failed)

/-- By `Phase.remaining`: the sections of the cleanup lead to its end. -/
theorem Inv.completes (h : Inv s) (hstarted : s.task ≠ .none)
    (hsettled : ∀ j ∈ s.executor_jobs, j.Settled) :
    ∃ bs t failed, (∀ b ∈ bs, ∃ c, b = .cleanup c) ∧ Run Owner.Drains s bs t ∧
      t.task = .ended failed := by
  generalize hn : s.task.remaining s.executor_jobs.length = n
  induction n using Nat.strongRecOn generalizing s with
  | ind n ih =>
    by_cases hend : ∃ failed, s.task = .ended failed
    · obtain ⟨failed, hend⟩ := hend
      exact ⟨[], s, failed, nofun, .nil, hend⟩
    · obtain ⟨c, p, hp, hp_started, hless⟩ :=
        h.progress hstarted (fun f hf => hend ⟨f, hf⟩) hsettled
      have hstep : s.Drains (.cleanup c) { s with
          task := p, releases := if c = .release then s.releases + 1 else s.releases } :=
        ⟨by simp [sound_settled hsettled, Owner.flag_first], by simp [Owner.step, hp]⟩
      obtain ⟨bs, t, failed, hbs, hrun, ht⟩ :=
        ih _ (hn ▸ hless) (inv_step h hstep) hp_started hsettled rfl
      refine ⟨.cleanup c :: bs, t, failed, fun b hb => ?_, Run.append (.single hstep) hrun, ht⟩
      rcases List.mem_cons.1 hb with rfl | hmem
      · exact ⟨c, rfl⟩
      · exact hbs b hmem

/-- In runs that raise the cancel flag before the cleanup starts and whose futures are collected as
    `Owner.sound` says, the release callback runs at most once, no job is in the backend from then
    on, and it has run when the cleanup ends. Once the jobs it waits for have settled the cleanup
    needs nobody else for that. -/
theorem released_once_drained {s : Owner} {as : List Act} (h : Run Owner.Drains .init as s) :
    s.releases ≤ 1 ∧ (s.releases ≠ 0 → ∀ j ∈ s.executor_jobs, j.inside = false) ∧
      (∀ failed, s.task = .ended failed → s.releases = 1) ∧
      (s.task ≠ .none → (∀ j ∈ s.executor_jobs, j.Settled) →
        ∃ bs t failed, (∀ b ∈ bs, ∃ c, b = .cleanup c) ∧ Run Owner.Drains s bs t ∧
          t.task = .ended failed ∧ t.releases = 1) := by
  have hinv : Inv s := h.invariant (I := Inv) inv_step inv_init
  refine ⟨?_, fun hreleased j hj => ?_, fun failed hend => ?_, fun hstarted hsettled => ?_⟩
  · rw [hinv.releases]
    exact released_le s.task
  · obtain ⟨i, hi⟩ := List.getElem?_of_mem hj
    rw [Bool.eq_false_iff]
    intro hin
    have hcovers := hinv.covers i (inside_iff.2 ⟨j, hi, hin⟩)
    exact not_covers_of_released (hinv.releases ▸ hreleased) hcovers
  · rw [hinv.releases, hend]
    rfl
  · obtain ⟨bs, t, failed, hbs, hrun, hend⟩ := hinv.completes hstarted hsettled
    have ht : Inv t := hrun.invariant (I := Inv) inv_step hinv
    exact ⟨bs, t, failed, hbs, hrun, hend, by rw [ht.releases, hend]; rfl⟩

/-- Three records. The wrapper of the first is cancelled with its thread in the backend, the second
    job fails as the last one, the third is queued; the cleanup and a waiter are cancelled. -/
def cancelled_in_backend : List Act :=
  [.submit .triple, .submit .triple, .submit .pair, .job 0 .start, .job 0 .read_flag, .job 1 .start,
    .job 1 .read_flag, .raise_flag, .start, .wait, .cleanup .scan, .cleanup .scan, .cleanup .scan,
    .cleanup .scan, .cleanup .scan, .job 0 .cancel, .give_up 0, .cleanup (.resume true), .wait,
    .job 2 .start, .job 2 .read_flag, .job 0 .leave, .job 0 (.finish true), .cleanup .consume,
    .cleanup (.resume false), .job 1 .leave, .job 1 (.finish false), .job 1 .set_future,
    .cleanup .consume, .cleanup (.resume true), .cleanup .release, .cleanup (.resume true),
    .cleanup (.release_end true), .cleanup (.resume false), .wake 1]

theorem released_once_drained_cancelled :
    ∃ s, Run Owner.Drains .init cancelled_in_backend s ∧ s.task = .ended true ∧ s.releases = 1 ∧
      (∀ j ∈ s.executor_jobs, j.inside = false) := by
  have hrun : Run Owner.Drains .init cancelled_in_backend
      { executor_jobs := [⟨.triple, .finished true, .cancelled⟩,
          ⟨.triple, .finished false, .result false⟩, ⟨.pair, .left, .pending⟩],
        cancel_flag := true, task := .ended true, waiters := [.returned false, .raised],
        releases := 1 } := Run.of_replay_if rfl
  obtain ⟨_, hout, hreleased, _⟩ := released_once_drained hrun
  exact ⟨_, hrun, rfl, hreleased true rfl, hout Nat.one_ne_zero⟩

/-- Two jobs in the backend, the first one fails: its exception ends the drain loop. -/
def failed_before_another : List Act :=
  [.submit .triple, .submit .triple, .job 0 .start, .job 0 .read_flag, .job 1 .start,
    .job 1 .read_flag, .raise_flag, .start, .cleanup .scan, .cleanup .scan, .cleanup .scan,
    .cleanup .scan, .job 0 .leave, .job 0 (.finish false), .job 0 .set_future, .cleanup .consume,
    .cleanup (.resume false), .cleanup .release]

/-- A job without its `finished` event; its wrapper is cancelled with the thread in the backend. -/
def cancelled_pair : List Act :=
  [.submit .pair, .job 0 .start, .job 0 .read_flag, .raise_flag, .start, .cleanup .scan,
    .cleanup .scan, .cleanup .scan, .job 0 .cancel, .cleanup .consume, .cleanup (.resume false),
    .cleanup .release]

/-- The leases are released with a job in the backend. -/
theorem released_under_jobs :
    (∃ s, Run Owner.Flagged .init failed_before_another s ∧ s.releases = 1 ∧ s.inside 1 = true) ∧
      ∃ s, Run Owner.Flagged .init cancelled_pair s ∧ s.releases = 1 ∧ s.inside 0 = true := by
  have hfailed : Run Owner.Flagged .init failed_before_another
      { executor_jobs := [⟨.triple, .finished false, .result false⟩, ⟨.triple, .inside, .pending⟩],
        cancel_flag := true, task := .releasing true .running, waiters := [], releases := 1 } :=
    Run.of_replay_if rfl
  have hpair : Run Owner.Flagged .init cancelled_pair
      { executor_jobs := [⟨.pair, .inside, .cancelled⟩], cancel_flag := true,
        task := .releasing false .running, waiters := [], releases := 1 } := Run.of_replay_if rfl
  exact ⟨⟨_, hfailed, rfl, rfl⟩, _, hpair, rfl, rfl⟩

end

end LocalVoice.TTSStream
