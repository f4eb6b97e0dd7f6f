import Mathlib.Algebra.BigOperators.Group.Finset.Basic
import Mathlib.Algebra.Order.BigOperators.Group.Finset
import LocalVoice.Lib.Run

/-! The sentence pipeline of `/tts/stream`, when no job fails and nothing is cancelled. The executor
    threads put the chunks of the jobs that were submitted into their queues, at any time; the drain
    loop takes them out, queue after queue, and submits the next job when the first chunk of a
    sentence comes and when the sentence is complete, if the window allows it.

        executor:  job i:  chunk, chunk, …, None  ──▶ queues[i]
        drain:     queues[current_idx] ──▶ yielded     (_submit next_to_submit) -/

namespace LocalVoice.TTSStream
open LocalVoice.Lib

/-- The request: how many jobs, the chunks of each, and the window. -/
structure Pipeline (β : Type) where
  jobs : ℕ
  chunks : ℕ → List β
  prefetch_max : ℕ
  jobs_pos : 1 ≤ jobs
  prefetch_pos : 1 ≤ prefetch_max

/-- The pipeline in flight: the jobs in the order they were submitted, what their threads have yet to
    put, the queues, and the variables of the drain loop. -/
structure Draining (β : Type) where
  submitted : List ℕ
  next_to_submit : ℕ
  unput : ℕ → List (Option β)
  queues : ℕ → List (Option β)
  current_idx : ℕ
  first_chunk_seen : Bool
  yielded : List β

/-- A thread puts its next item, or the drain loop takes one. -/
inductive Turn where
  | put (job : ℕ)
  | get
  deriving DecidableEq

/-- `_prefetch_window_allows`. -/
def prefetch_window_allows (next_to_submit current_idx prefetch_max : ℕ) : Bool :=
  (next_to_submit : ℤ) - 1 - current_idx < prefetch_max

namespace Pipeline
variable {β : Type} (p : Pipeline β)

/-- What the thread of a job puts: its chunks and a `None`. -/
def items (job : ℕ) : List (Option β) := (p.chunks job).map some ++ [none]

/-- `_submit(0, queues[0])`. -/
def start : Draining β := ⟨[0], 1, p.items, fun _ => [], 0, false, []⟩

/-- `_maybe_prefetch`. -/
def maybe_prefetch (s : Draining β) : Draining β :=
  if s.next_to_submit < p.jobs ∧
      prefetch_window_allows s.next_to_submit s.current_idx p.prefetch_max = true then
    { s with
      submitted := s.submitted ++ [s.next_to_submit]
      next_to_submit := s.next_to_submit + 1 }
  else s

/-- One turn. The drain loop is over when `current_idx` is behind the last job. -/
def step (s : Draining β) : Turn → Option (Draining β)
  | .put job =>
    match s.unput job with
    | item :: rest =>
      if job ∈ s.submitted then
        some { s with
          unput := Function.update s.unput job rest
          queues := Function.update s.queues job (s.queues job ++ [item]) }
      else none
    | [] => none
  | .get =>
    if s.current_idx < p.jobs then
      match s.queues s.current_idx with
      | [] => none
      | none :: rest =>
        let s := { s with queues := Function.update s.queues s.current_idx rest }
        let s := p.maybe_prefetch s
        some { s with current_idx := s.current_idx + 1, first_chunk_seen := false }
      | some chunk :: rest =>
        let s := { s with queues := Function.update s.queues s.current_idx rest }
        let s := if s.first_chunk_seen then s else p.maybe_prefetch s
        some { s with first_chunk_seen := true, yielded := s.yielded ++ [chunk] }
    else none

/-- From the start of the request. -/
def Runs (turns : List Turn) (s : Draining β) : Prop :=
  Run (fun s a t => p.step s a = some t) p.start turns s

end Pipeline

/-! ### The window -/

section
variable {β : Type} {p : Pipeline β} {s t : Draining β} {turns : List Turn}

/-- The submissions are in order, within the window, and one of them is for the job being drained. -/
structure Ahead (p : Pipeline β) (s : Draining β) : Prop where
  submitted : s.submitted = List.range s.next_to_submit
  next_le : s.next_to_submit ≤ p.jobs
  window : s.next_to_submit ≤ s.current_idx + 1 + p.prefetch_max
  current_le : s.current_idx ≤ p.jobs
  current_next : s.current_idx ≤ s.next_to_submit
  current_lt : s.current_idx < p.jobs → s.current_idx < s.next_to_submit

/-- One more job is submitted, or none. -/
structure Submits (p : Pipeline β) (s t : Draining β) : Prop where
  ahead : Ahead p t
  current_idx : t.current_idx = s.current_idx
  queues : t.queues = s.queues
  unput : t.unput = s.unput
  yielded : t.yielded = s.yielded

/-- What a call of `_maybe_prefetch` keeps, and what it is for. -/
theorem maybe_prefetch_spec (h : Ahead p s) (hcurrent : s.current_idx < p.jobs) :
    Submits p s (p.maybe_prefetch s) ∧
      (s.current_idx + 1 < p.jobs → s.current_idx + 1 < (p.maybe_prefetch s).next_to_submit) := by
  have hlt := h.current_lt hcurrent
  have hpos := p.prefetch_pos
  rw [Pipeline.maybe_prefetch]
  split
  · next hallowed =>
    obtain ⟨hnext, hwindow⟩ := hallowed
    rw [prefetch_window_allows, decide_eq_true_eq] at hwindow
    refine ⟨⟨⟨?_, hnext, ?_, h.current_le, Nat.le_succ_of_le h.current_next, fun _ => ?_⟩,
      rfl, rfl, rfl, rfl⟩, fun _ => ?_⟩
    · rw [List.range_succ, h.submitted]
    · dsimp only
      omega
    · exact Nat.lt_succ_of_lt hlt
    · exact Nat.succ_lt_succ hlt
  · next hrefused =>
    refine ⟨⟨h, rfl, rfl, rfl, rfl⟩, fun hmore => ?_⟩
    by_contra hle
    refine hrefused ⟨by omega, ?_⟩
    rw [prefetch_window_allows, decide_eq_true_eq]
    omega

/-- The queue of the current job without its first item. -/
def Draining.took (s : Draining β) (rest : List (Option β)) : Draining β :=
  { s with queues := Function.update s.queues s.current_idx rest }

theorem took_ahead (h : Ahead p s) (rest : List (Option β)) : Ahead p (s.took rest) :=
  ⟨h.submitted, h.next_le, h.window, h.current_le, h.current_next, h.current_lt⟩

/-! ### The chunks -/

/-- The yielded chunks are those of the jobs that were drained and some of the current one; of the
    others nothing has been taken. -/
structure Flowing (p : Pipeline β) (s : Draining β) (taken : List β) : Prop where
  yielded : s.yielded = (List.range s.current_idx).flatMap p.chunks ++ taken
  current : taken.map some ++ (s.queues s.current_idx ++ s.unput s.current_idx) =
    p.items s.current_idx
  later : ∀ i, s.current_idx < i → s.queues i ++ s.unput i = p.items i
  ends : s.current_idx = p.jobs → taken = []

/-- The `None` is the last item. -/
theorem items_none {chunks taken : List β} {rest : List (Option β)}
    (h : taken.map some ++ none :: rest = chunks.map some ++ [none]) :
    taken = chunks ∧ rest = [] := by
  induction taken generalizing chunks with
  | nil =>
    cases chunks with
    | nil => exact ⟨rfl, (List.cons.inj h).2⟩
    | cons c chunks => cases (List.cons.inj h).1
  | cons a taken ih =>
    cases chunks with
    | nil => cases (List.cons.inj h).1
    | cons c chunks =>
      obtain ⟨hhead, htail⟩ := List.cons.inj h
      obtain ⟨rfl, hrest⟩ := ih htail
      exact ⟨congrArg (· :: taken) (Option.some.inj hhead), hrest⟩

theorem put_flowing {taken : List β} {job : ℕ} {item : Option β} {rest : List (Option β)}
    (h : Flowing p s taken) (hput : s.unput job = item :: rest) :
    Flowing p { s with
      unput := Function.update s.unput job rest
      queues := Function.update s.queues job (s.queues job ++ [item]) } taken := by
  have hsame : ∀ i, Function.update s.queues job (s.queues job ++ [item]) i ++
      Function.update s.unput job rest i = s.queues i ++ s.unput i := by
    intro i
    by_cases hi : i = job
    · subst hi
      rw [Function.update_self, Function.update_self, hput, List.append_assoc,
        List.singleton_append]
    · rw [Function.update_of_ne hi, Function.update_of_ne hi]
  refine ⟨h.yielded, ?_, fun i hi => ?_, h.ends⟩
  · dsimp only
    rw [hsame]
    exact h.current
  · dsimp only
    rw [hsame]
    exact h.later i hi

theorem start_ahead (p : Pipeline β) : Ahead p p.start := by
  have hpos := p.jobs_pos
  refine ⟨rfl, hpos, ?_, Nat.zero_le _, Nat.zero_le _, fun _ => Nat.one_pos⟩
  show 1 ≤ 0 + 1 + p.prefetch_max
  omega

/-- What is still to do: two turns for each item that is not in its queue, one for each that is. -/
def Pipeline.remaining (p : Pipeline β) (s : Draining β) : ℕ :=
  ∑ i ∈ Finset.range p.jobs, (2 * (s.unput i).length + (s.queues i).length)

theorem remaining_less {i : ℕ} (hi : i < p.jobs)
    (hother : ∀ j, j ≠ i → t.unput j = s.unput j ∧ t.queues j = s.queues j)
    (hless : 2 * (t.unput i).length + (t.queues i).length <
      2 * (s.unput i).length + (s.queues i).length) : p.remaining t < p.remaining s := by
  refine Finset.sum_lt_sum (fun j _ => ?_) ⟨i, Finset.mem_range.2 hi, hless⟩
  by_cases hj : j = i
  · subst hj
    exact Nat.le_of_lt hless
  · rw [(hother j hj).1, (hother j hj).2]

/-- The sentence is complete. -/
theorem complete_keeps {taken : List β} {rest : List (Option β)} (h : Ahead p s)
    (hflow : Flowing p s taken) (hcurrent : s.current_idx < p.jobs)
    (hqueue : s.queues s.current_idx = none :: rest) :
    let t := p.maybe_prefetch (s.took rest)
    let t := { t with current_idx := t.current_idx + 1, first_chunk_seen := false }
    Ahead p t ∧ (∃ taken, Flowing p t taken) ∧ p.remaining t < p.remaining s := by
  obtain ⟨⟨hahead, hidx, hqueues, hunput, hyielded⟩, hnext⟩ :=
    maybe_prefetch_spec (took_ahead h rest) hcurrent
  generalize p.maybe_prefetch (s.took rest) = t at hahead hidx hqueues hunput hyielded hnext
  have hcur := hflow.current
  rw [hqueue] at hcur
  obtain ⟨rfl, hempty⟩ := items_none hcur
  have hidx : t.current_idx = s.current_idx := hidx
  have hother : ∀ i, i ≠ s.current_idx → t.queues i = s.queues i := fun i hi => by
    rw [hqueues]
    exact Function.update_of_ne hi _ _
  have hunput : t.unput = s.unput := hunput
  have hyielded : t.yielded = s.yielded := hyielded
  have hlt := hahead.current_lt (hidx ▸ hcurrent)
  refine ⟨⟨hahead.submitted, hahead.next_le, ?_, ?_, hlt, ?_⟩, ⟨[], ⟨?_, ?_, ?_, fun _ => rfl⟩⟩, ?_⟩
  · have hwindow := hahead.window
    dsimp only
    omega
  · dsimp only
    omega
  · dsimp only
    rw [hidx]
    exact hnext
  · dsimp only
    rw [hyielded, hidx, hflow.yielded, List.range_succ, List.flatMap_append, List.flatMap_singleton,
      List.append_nil]
  · dsimp only
    rw [hidx, hother _ (Nat.succ_ne_self _), hunput]
    exact hflow.later _ (Nat.lt_succ_self _)
  · intro i hi
    dsimp only at hi ⊢
    rw [hidx] at hi
    rw [hother i (by omega), hunput]
    exact hflow.later i (by omega)
  · refine remaining_less hcurrent (fun j hj => ⟨congrFun hunput j, hother j hj⟩) ?_
    dsimp only
    rw [hqueues, hunput, hqueue, Draining.took]
    dsimp only
    rw [Function.update_self, List.length_cons]
    omega

/-- A chunk is yielded. -/
theorem chunk_keeps {taken : List β} {chunk : β} {rest : List (Option β)} (h : Ahead p s)
    (hflow : Flowing p s taken) (hcurrent : s.current_idx < p.jobs)
    (hqueue : s.queues s.current_idx = some chunk :: rest) :
    let t := s.took rest
    let t := if t.first_chunk_seen then t else p.maybe_prefetch t
    let t := { t with first_chunk_seen := true, yielded := t.yielded ++ [chunk] }
    Ahead p t ∧ (∃ taken, Flowing p t taken) ∧ p.remaining t < p.remaining s := by
  have hsubmits : Submits p (s.took rest)
      (if (s.took rest).first_chunk_seen then s.took rest else p.maybe_prefetch (s.took rest)) := by
    split
    · exact ⟨took_ahead h rest, rfl, rfl, rfl, rfl⟩
    · exact (maybe_prefetch_spec (took_ahead h rest) hcurrent).1
  obtain ⟨hahead, hidx, hqueues, hunput, hyielded⟩ := hsubmits
  dsimp only
  generalize (if (s.took rest).first_chunk_seen then s.took rest
    else p.maybe_prefetch (s.took rest)) = t at hahead hidx hqueues hunput hyielded ⊢
  have hidx : t.current_idx = s.current_idx := hidx
  have hself : t.queues s.current_idx = rest := by
    rw [hqueues]
    exact Function.update_self _ _ _
  have hother : ∀ i, i ≠ s.current_idx → t.queues i = s.queues i := fun i hi => by
    rw [hqueues]
    exact Function.update_of_ne hi _ _
  have hunput : t.unput = s.unput := hunput
  have hyielded : t.yielded = s.yielded := hyielded
  refine ⟨⟨hahead.submitted, hahead.next_le, hahead.window, hahead.current_le, hahead.current_next,
    hahead.current_lt⟩, ⟨taken ++ [chunk], ⟨?_, ?_, ?_, fun hover => ?_⟩⟩, ?_⟩
  · dsimp only
    rw [hyielded, hidx, hflow.yielded, List.append_assoc]
  · dsimp only
    have hcur := hflow.current
    rw [hqueue] at hcur
    rw [hidx, hself, hunput, List.map_append, List.append_assoc]
    exact hcur
  · intro i hi
    dsimp only at hi ⊢
    rw [hidx] at hi
    rw [hother i (by omega), hunput]
    exact hflow.later i hi
  · dsimp only at hover
    omega
  · refine remaining_less hcurrent (fun j hj => ⟨congrFun hunput j, hother j hj⟩) ?_
    dsimp only
    rw [hself, hunput, hqueue, List.length_cons]
    omega

/-- What a turn keeps. -/
theorem step_keeps {turn : Turn} {taken : List β} (h : Ahead p s) (hflow : Flowing p s taken)
    (hstep : p.step s turn = some t) :
    Ahead p t ∧ (∃ taken, Flowing p t taken) ∧ p.remaining t < p.remaining s := by
  cases turn with
  | put job =>
    rw [Pipeline.step] at hstep
    split at hstep
    · next item rest hput =>
      split at hstep
      · next hjob =>
        obtain rfl := Option.some.inj hstep
        rw [h.submitted, List.mem_range] at hjob
        refine ⟨⟨h.submitted, h.next_le, h.window, h.current_le, h.current_next, h.current_lt⟩,
          ⟨taken, put_flowing hflow hput⟩, remaining_less (Nat.lt_of_lt_of_le hjob h.next_le)
            (fun j hj => ⟨Function.update_of_ne hj _ _, Function.update_of_ne hj _ _⟩) ?_⟩
        dsimp only
        rw [Function.update_self, Function.update_self, hput]
        simp only [List.length_append, List.length_cons, List.length_nil]
        omega
      · cases hstep
    · cases hstep
  | get =>
    rw [Pipeline.step] at hstep
    split at hstep
    · next hcurrent =>
      split at hstep
      · cases hstep
      · next rest hqueue =>
        obtain rfl := Option.some.inj hstep
        exact complete_keeps h hflow hcurrent hqueue
      · next chunk rest hqueue =>
        obtain rfl := Option.some.inj hstep
        exact chunk_keeps h hflow hcurrent hqueue
    · cases hstep

theorem start_flowing (p : Pipeline β) : Flowing p p.start [] :=
  ⟨rfl, rfl, fun _ _ => rfl, fun _ => rfl⟩

/-- What holds after every run, and what a run leads to. -/
structure Serves (p : Pipeline β) (turns : List Turn) (s : Draining β) : Prop where
  /-- Each job at most once, in the order of the indices, and within the window. -/
  submitted : s.submitted = List.range s.next_to_submit
  window : ∀ i ∈ s.submitted, i ≤ s.current_idx + p.prefetch_max
  /-- The queue that is awaited belongs to a job that was submitted, which has put an item or still
      can, and the run cannot go on for ever. -/
  awaited : s.current_idx < p.jobs → s.current_idx ∈ s.submitted ∧
    ((p.step s .get).isSome ∨ (p.step s (.put s.current_idx)).isSome)
  bounded : turns.length + p.remaining s ≤ p.remaining p.start
  in_order : ∃ taken, s.yielded = (List.range s.current_idx).flatMap p.chunks ++ taken
  /-- When the loop ends. -/
  ended : ¬ s.current_idx < p.jobs → s.submitted = List.range p.jobs ∧
    s.yielded = (List.range p.jobs).flatMap p.chunks

theorem awaited_ready {taken : List β} (h : Ahead p s) (hflow : Flowing p s taken)
    (hcurrent : s.current_idx < p.jobs) :
    (p.step s .get).isSome ∨ (p.step s (.put s.current_idx)).isSome := by
  have hjob : s.current_idx ∈ s.submitted := by
    rw [h.submitted, List.mem_range]
    exact h.current_lt hcurrent
  cases hqueue : s.queues s.current_idx with
  | cons item rest =>
    refine .inl ?_
    rw [Pipeline.step, if_pos hcurrent, hqueue]
    cases item <;> rfl
  | nil =>
    refine .inr ?_
    cases hput : s.unput s.current_idx with
    | cons item rest =>
      simp only [Pipeline.step, hput, if_pos hjob, Option.isSome_some]
    | nil =>
      -- all items were taken, so the last of them was a chunk
      have hcur := hflow.current
      rw [hqueue, hput, List.append_nil, Pipeline.items] at hcur
      have hlast := congrArg List.getLast? hcur
      rw [List.append_nil, List.getLast?_map, List.getLast?_concat] at hlast
      cases htaken : taken.getLast? with
      | none => rw [htaken] at hlast; cases hlast
      | some c => rw [htaken] at hlast; cases hlast

/-- The pipeline serves every sentence, whatever the timing of the threads. -/
theorem pipeline_serves (h : p.Runs turns s) : Serves p turns s := by
  have hinv : Ahead p s ∧ (∃ taken, Flowing p s taken) ∧
      turns.length + p.remaining s ≤ p.remaining p.start := by
    induction h with
    | nil => exact ⟨start_ahead p, ⟨[], start_flowing p⟩, by rw [List.length_nil, Nat.zero_add]⟩
    | @snoc turns s t turn _ hstep ih =>
      obtain ⟨hahead, ⟨taken, hflow⟩, hbound⟩ := ih
      obtain ⟨hahead', hflow', hless⟩ := step_keeps hahead hflow hstep
      refine ⟨hahead', hflow', ?_⟩
      rw [List.length_append, List.length_singleton]
      omega
  obtain ⟨hahead, ⟨taken, hflow⟩, hbound⟩ := hinv
  refine ⟨hahead.submitted, fun i hi => ?_, fun hcurrent => ?_, hbound, ⟨taken, hflow.yielded⟩,
    fun hover => ?_⟩
  · have hwindow := hahead.window
    rw [hahead.submitted, List.mem_range] at hi
    omega
  · refine ⟨?_, awaited_ready hahead hflow hcurrent⟩
    rw [hahead.submitted, List.mem_range]
    exact hahead.current_lt hcurrent
  · have hidx : s.current_idx = p.jobs := by
      have hle := hahead.current_le
      omega
    have hnext : s.next_to_submit = p.jobs := by
      have hle := hahead.next_le
      have hge := hahead.current_next
      omega
    refine ⟨by rw [hahead.submitted, hnext], ?_⟩
    rw [hflow.yielded, hidx, hflow.ends hidx, List.append_nil]

/-- Two sentences of which the first is empty, with a window of one. -/
theorem pipeline_serves_empty_first : ∃ (p : Pipeline ℕ) (turns : List Turn) (s : Draining ℕ),
    p.Runs turns s ∧ s.current_idx = p.jobs ∧ Serves p turns s := by
  have hrun := Run.of_replay_any
    (Pipeline.step ⟨2, fun i => List.replicate i 7, 1, by decide, by decide⟩)
    (Pipeline.start ⟨2, fun i => List.replicate i 7, 1, by decide, by decide⟩)
    [.put 0, .get, .put 1, .put 1, .get, .get] (fun s => s.current_idx == 2) (by decide)
  obtain ⟨s, hruns, hidx⟩ := hrun
  exact ⟨_, _, s, hruns, beq_iff_eq.1 hidx, pipeline_serves hruns⟩

end

end LocalVoice.TTSStream
