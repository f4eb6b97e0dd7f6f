import LocalVoice.SlvClient.Openings

/-! The consumer of `events()` on a running client: it yields what is queued, waits for a new item or
    for the end of a reader, whichever comes first, and returns when no reader is left. An item can
    leave the queue in three ways: it is yielded, an opening that was rejected drains it, or it is in
    the hands of a `get` task whose consumer is cancelled. Between the last test of the reader and the
    return lie the yields of a flush.

        outside ──▶ (head) ──▶ yielded ──▶ (head)
           ▲          ├──▶ waiting ──▶ yielded, (head) or flushing
           └──────────┴──────── flushing ──▶ flushing -/

namespace LocalVoice.SlvClient
open LocalVoice.Lib

/-! ### The consumer -/

/-- An event, with the socket it came from. -/
abbrev Item := ℕ × Event

/-- `done_task`, on `_reader_done.wait()`: it is woken by a `set()` also if the event is cleared
    before it runs. -/
inductive DoneTask where
  | created
  | parked (sets : ℕ)
  | done
  deriving DecidableEq

/-- Where the consumer is suspended: at a `yield` of the loop or of the flush, or in `asyncio.wait`,
    where `get_task` may be done with an item. -/
inductive Consumer where
  | outside
  | yielded
  | flushing
  | waiting (got : Option Item) (done_task : DoneTask)
  deriving DecidableEq

/-- What became of an item that left the queue. -/
inductive Fate where
  | yielded
  | drained
  | taken
  | lost
  deriving DecidableEq

/-- What `get_task` has taken has met its end. -/
def Fate.settle (fate : Fate) (f : Item × Fate) : Item × Fate :=
  if f.2 = .taken then (f.1, fate) else f

/-- The events that were yielded; and what is not in the code: the sockets that were accepted as
    healthy, the items that have left the queue, in their order, and for each return of `events()`,
    whether it was time. -/
structure Delivery where
  client : Client
  consumer : Consumer
  yielded : List Item
  accepted : List ℕ
  fates : List (Item × Fate)
  returns : List Bool

def Delivery.init (v2 : Bool) : Delivery := ⟨.init v2, .outside, [], [], [], []⟩

/-- `not self._closed and self._reader_task is not None and not self._reader_task.done()`. -/
def Shared.reads_on (c : Shared) : Bool := !c.closed && c.reader_task.any c.alive

/-- The application gets the event; it starts a task for a tool call. -/
def Client.dispatch (c : Client) (x : Item) : Client :=
  if x.2 = .tool_call then { c with tasks := c.tasks ++ [⟨.send (.tool_result x.1), .handling⟩] } else c

inductive Act where
  /-- A step of the client that is not the consumer's. -/
  | client (a : Label)
  /-- The handshake of a V2 opening queues a frame. -/
  | handshake (i : ℕ)
  /-- The consumer is called, or runs on. -/
  | resume
  | get_runs
  | done_runs
  | cancel
  deriving DecidableEq

namespace Delivery

def with_shared (D : Delivery) (shared : Shared) : Delivery :=
  { D with client := D.client.with_shared shared }

/-- An item leaves the queue. -/
def pops (D : Delivery) (x : Item) (rest : List Item) (fate : Fate) : Delivery :=
  { D.with_shared { D.client.shared with queue := rest } with fates := D.fates ++ [(x, fate)] }

def settles (D : Delivery) (fate : Fate) : Delivery := { D with fates := D.fates.map fate.settle }

/-- `yield`. -/
def yields (D : Delivery) (x : Item) (consumer : Consumer) : Delivery :=
  { D with client := D.client.dispatch x, consumer := consumer, yielded := D.yielded ++ [x] }

def leaves (D : Delivery) : Delivery :=
  { D with consumer := .outside, returns := D.returns ++ [!D.client.shared.reads_on] }

/-- The loop from its top. Where the event is cleared the queue is empty and the client open, so the
    next pass comes to the wait. -/
def head (D : Delivery) : Delivery :=
  match D.client.shared.queue with
  | x :: rest => (D.pops x rest .yielded).yields x .yielded
  | [] =>
    if D.client.shared.reader_done || D.client.shared.closed then
      if D.client.shared.reads_on then
        { D.with_shared { D.client.shared with reader_done := false } with
          consumer := .waiting none .created }
      else D.leaves
    else { D with consumer := .waiting none .created }

/-- The reader has finished: what it has queued is yielded. -/
def flush (D : Delivery) : Delivery :=
  match D.client.shared.queue with
  | x :: rest => (D.pops x rest .yielded).yields x .flushing
  | [] => D.leaves

/-- What is pending of the two tasks when the wait is over is cancelled; a `get` that is cancelled
    before it has run leaves its item in the queue. -/
def resume (D : Delivery) : Option Delivery :=
  match D.consumer with
  | .outside | .yielded => some D.head
  | .flushing => some D.flush
  | .waiting (some x) _ => some ((D.settles .yielded).yields x .yielded)
  | .waiting none .done =>
    if D.client.shared.reads_on then
      some (D.with_shared { D.client.shared with reader_done := false }).head
    else some D.flush
  | .waiting none _ => none

def get_runs (D : Delivery) : Option Delivery :=
  match D.consumer, D.client.shared.queue with
  | .waiting none done_task, x :: rest =>
    some { D.pops x rest .taken with consumer := .waiting (some x) done_task }
  | _, _ => none

def done_runs (D : Delivery) : Option Delivery :=
  match D.consumer with
  | .waiting got .created =>
    some { D with
      consumer := .waiting got
        (if D.client.shared.reader_done then .done else .parked D.client.shared.sets) }
  | .waiting got (.parked sets) =>
    if sets < D.client.shared.sets then some { D with consumer := .waiting got .done } else none
  | _ => none

/-- The consumer is cancelled. -/
def cancel (D : Delivery) : Option Delivery :=
  match D.consumer with
  | .outside => none
  | .waiting (some _) _ => some { D.settles .lost with consumer := .outside }
  | _ => some { D with consumer := .outside }

end Delivery

/-- The move empties the queue, after the rejection of an attempt. -/
def Phase.drains (c : Shared) : Move → Phase → Bool
  | .reject, .grace .. => c.ws.isNone && !c.reader_task.any c.alive
  | .go, .burying_reader _ _ w => w.isNone
  | .go, .burying_ws .. => true
  | _, _ => false

/-- The move creates a reader. -/
def Move.creates : Move → Bool
  | .configured _ => true
  | _ => false

/-- The attempt that a move rejects. -/
def Phase.rejects : Move → Phase → Option ℕ
  | .reject, .grace _ n _ => some n
  | _, _ => none

/-- The attempt that a move accepts. -/
def Phase.accepts : Move → Phase → Option ℕ
  | .healthy, .grace _ n _ => some n
  | _, _ => none

/-- The task that a step moves, by its phase. -/
def Client.moving (c : Client) : Label → Option (Move × Phase)
  | .task i m => c.tasks[i]?.map fun t => (m, t.phase)
  | _ => none

/-- The items that a step of the client drains. -/
def Client.drained (c : Client) (a : Label) : List Item :=
  if (c.moving a).any fun p => p.2.drains c.shared p.1 then c.shared.queue else []

def Delivery.step (D : Delivery) : Act → Option Delivery
  | .client .take | .client .events_clear => none
  | .client a => (D.client.step a).map fun c =>
    { D with
      client := c
      accepted := D.accepted ++ ((D.client.moving a).bind fun p => p.2.accepts p.1).toList
      fates := D.fates ++ (D.client.drained a).map (·, .drained) }
  | .handshake i => match D.client.tasks[i]?.map Task.phase with
    | some (.configuring _ n) =>
      if D.client.shared.v2 then some (D.with_shared (D.client.shared.put n .other)) else none
    | _ => none
  | .resume => D.resume
  | .get_runs => D.get_runs
  | .done_runs => D.done_runs
  | .cancel => D.cancel

def Delivers (D : Delivery) (a : Act) (E : Delivery) : Prop := D.step a = some E

/-! ### What `events()` promises -/

/-- The item that `get_task` has taken. -/
def Delivery.held (D : Delivery) : Option Item :=
  match D.consumer with
  | .waiting got _ => got
  | _ => none

/-- What was queued has left the queue in its order, each item once, or is still in it; the events
    yielded are those of it that were neither drained nor taken by `get_task`, which holds one at most;
    what was drained is of a rejected attempt, and of no session that was accepted; and `events()` has
    returned only when the client was closed or had no reader that goes on. -/
structure Exact (D : Delivery) : Prop where
  exact : D.fates.map Prod.fst ++ D.client.shared.queue = D.client.shared.emitted
  in_order : D.yielded = (D.fates.filter (·.2 = .yielded)).map Prod.fst
  kept : ∀ x fate, (x, fate) ∈ D.fates →
    fate = .yielded ∨ fate = .taken ∧ D.held = some x ∨
      fate = .drained ∧ x.1 ∈ D.client.shared.rejected ∧ x.1 ∉ D.accepted
  held_once : ∀ x, D.held = some x → D.fates.countP (·.2 = .taken) = 1
  returned : ∀ b ∈ D.returns, b = true

/-- A rejected attempt drains no item of another one that was not rejected; no reader is created while
    the consumer flushes; and it is not cancelled while `get_task` holds an item. -/
def Clean (D : Delivery) : Act → Prop
  | .client a =>
    (∀ x ∈ D.client.drained a, x.1 ∈ D.client.shared.rejected ∨
      (D.client.moving a).bind (fun p => p.2.rejects p.1) = some x.1) ∧
    (D.consumer = .flushing → (D.client.moving a).any (fun p => p.1.creates) = false)
  | .cancel => D.held = none
  | _ => True

instance (D : Delivery) (a : Act) : Decidable (Clean D a) := by
  unfold Clean
  split <;> infer_instance

/-! ### A step of the client -/

section
variable {c c' : Shared} {job : Job} {m : Move} {ph ph' : Phase}

theorem stops_cases (h : ph.stops m) : m = .cancel ∨ m = .fail := by
  cases ph <;> first | exact h | exact Or.inl h | exact False.elim h

/-- A move queues nothing, and what it drains is the queue. -/
theorem moved_queue (h : Moved c job m ph ph' c') : c'.emitted = c.emitted ∧
    (if ph.drains c m then c.queue else []) ++ c'.queue = c.queue := by
  cases h with
  | reject_wait hwoken htask halive =>
    have hany : c.reader_task.any c.alive = true := by rw [htask]; exact halive
    rw [Phase.drains, hany]
    cases c.ws <;> exact ⟨rfl, rfl⟩
  | reject hwoken hdone =>
    have hany : c.reader_task.any c.alive = false := by
      cases htask : c.reader_task with
      | none => rfl
      | some r => exact hdone r htask
    rw [Phase.drains, hany, Shared.drain]
    cases c.ws with
    | none => exact ⟨rfl, List.append_nil _⟩
    | some w => exact ⟨rfl, rfl⟩
  | @reader_buried k r w hdone =>
    cases w with
    | none => exact ⟨rfl, List.append_nil _⟩
    | some w => exact ⟨rfl, rfl⟩
  | ws_buried => exact ⟨rfl, List.append_nil _⟩
  | stopped hstops =>
    have hdrains : ph.drains c m = false := by
      rcases stops_cases hstops with rfl | rfl <;> rfl
    rw [hdrains]
    exact ⟨rfl, rfl⟩
  | _ => exact ⟨rfl, rfl⟩

theorem moved_reads_on (h : Moved c job m ph ph' c') (hon : c'.reads_on = true) :
    c.reads_on = true ∨ m.creates = true := by
  have hnone : ∀ {d : Shared}, d.reader_task = none → d.reads_on = true → False := by
    intro d htask hd
    rw [Shared.reads_on, htask, Option.any_none, Bool.and_false] at hd
    cases hd
  cases h with
  | configured hrate => exact .inr rfl
  | tear_wait htask halive => exact (hnone rfl hon).elim
  | tear hdone => exact (hnone rfl hon).elim
  | reject_wait hwoken htask halive => exact (hnone rfl hon).elim
  | reject hwoken hdone => exact (hnone rfl hon).elim
  | _ => exact .inl hon

/-- What readers queue comes last. -/
theorem happened_queue {a : Label} (h : Happened c a c') : ∃ new : List Item,
    c'.emitted = c.emitted ++ new ∧ c'.queue = c.queue ++ new := by
  have hnone : ∀ {d : Shared}, d.emitted = c.emitted → d.queue = c.queue → ∃ new : List Item,
      d.emitted = c.emitted ++ new ∧ d.queue = c.queue ++ new := by
    intro d hemitted hqueue
    exact ⟨[], hemitted.trans (List.append_nil _).symm, hqueue.trans (List.append_nil _).symm⟩
  cases h with
  | @frame s t f hreader =>
    cases f with
    | binary data => exact ⟨_, rfl, rfl⟩
    | tool_call => exact ⟨_, rfl, rfl⟩
    | other => exact ⟨_, rfl, rfl⟩
    | crash => exact ⟨_, rfl, rfl⟩
  | @reader_end s t normal code hreader hlive =>
    cases normal with
    | true => exact hnone rfl rfl
    | false => exact ⟨_, rfl, rfl⟩
  | _ => exact hnone rfl rfl

theorem happened_reads_on {a : Label} (h : Happened c a c') (hon : c'.reads_on = true) :
    c.reads_on = true := by
  have hset : ∀ {d : Shared} (s : ℕ) (r : Reader), d.reads_on = true → d.reader_task = c.reader_task →
      d.closed = c.closed → d.reader = Function.update c.reader s r →
      (r.alive = true → (c.reader s).alive = true) → c.reads_on = true := by
    intro d s r hd htask hclosed hreader halive
    rw [Shared.reads_on, htask, hclosed] at hd
    obtain ⟨hopen, hany⟩ := Bool.and_eq_true_iff.1 hd
    refine Bool.and_eq_true_iff.2 ⟨hopen, ?_⟩
    obtain ⟨r', hr', hlive⟩ := (Option.any_eq_true _ _).1 hany
    refine (Option.any_eq_true _ _).2 ⟨r', hr', ?_⟩
    rw [Shared.alive, hreader] at hlive
    by_cases heq : r' = s
    · subst heq
      rw [Function.update_self] at hlive
      exact halive hlive
    · rwa [Function.update_of_ne heq] at hlive
  cases h with
  | @start s t hreader hws =>
    exact hset s (.running t) hon rfl rfl rfl fun _ => by rw [hreader]; rfl
  | @start_dead s hreader hws => exact hset s .done hon rfl rfl rfl (by intro h; cases h)
  | @frame s t f hreader =>
    cases f with
    | crash => exact hset s .done hon rfl rfl rfl (by intro h; cases h)
    | _ => exact hon
  | @reader_end s t normal code hreader hlive =>
    cases normal <;> exact hset s .done hon rfl rfl rfl (by intro h; cases h)
  | @dropped s hreader => exact hset s .done hon rfl rfl rfl (by intro h; cases h)
  | @cancelled s t hreader => exact hset s .done hon rfl rfl rfl (by intro h; cases h)
  | _ => exact hon

end

section
variable {c c' : Client} {a : Label}

theorem start_frame (d : Shared) (job : Job) : (job.start d).2.emitted = d.emitted ∧
    (job.start d).2.queue = d.queue ∧ ((job.start d).2.reads_on = true → d.reads_on = true) := by
  cases job with
  | connect =>
    rw [Job.start]
    split <;> exact ⟨rfl, rfl, id⟩
  | close => exact ⟨rfl, rfl, (by intro h; cases h)⟩
  | _ => exact ⟨rfl, rfl, id⟩

/-- What readers queue comes last, and what is drained is the queue. -/
theorem step_queue (ha : a ≠ .take) (h : c.step a = some c') : ∃ new : List Item,
    c'.shared.emitted = c.shared.emitted ++ new ∧
    c.drained a ++ c'.shared.queue = c.shared.queue ++ new := by
  cases step_cases h with
  | @call job hjob =>
    obtain ⟨hemitted, hqueue, -⟩ := start_frame c.shared job
    exact ⟨[], hemitted.trans (List.append_nil _).symm, hqueue.trans (List.append_nil _).symm⟩
  | @task i m t ph _ ht hmoved htasks hlock hlock' =>
    obtain ⟨hemitted, hqueue⟩ := moved_queue hmoved
    refine ⟨[], hemitted.trans (List.append_nil _).symm, ?_⟩
    have hdrained : c.drained (.task i m) =
        if t.phase.drains c.shared m then c.shared.queue else [] := by
      rw [Client.drained, Client.moving, ht]
      rfl
    rw [hdrained, hqueue, List.append_nil]
  | @happened _ shared hh =>
    obtain ⟨new, hemitted, hqueue⟩ := happened_queue hh
    refine ⟨new, hemitted, ?_⟩
    have hdrained : c.drained a = [] := by cases hh <;> rfl
    rw [hdrained, List.nil_append]
    exact hqueue
  | take hqueue => exact absurd rfl ha
  | take_call hqueue => exact absurd rfl ha

/-- Only a configured socket gives the client a reader. -/
theorem step_reads_on (h : c.step a = some c') (hon : c'.shared.reads_on = true) :
    c.shared.reads_on = true ∨ (c.moving a).any (fun p => p.1.creates) = true := by
  cases step_cases h with
  | @call job hjob => exact .inl ((start_frame c.shared job).2.2 hon)
  | @task i m t ph _ ht hmoved htasks hlock hlock' =>
    refine (moved_reads_on hmoved hon).imp id fun hcreates => ?_
    rw [Client.moving, ht]
    exact hcreates
  | happened hh => exact .inl (happened_reads_on hh hon)
  | take hqueue => exact .inl hon
  | take_call hqueue => exact .inl hon

end

/-! ### Accepted and rejected attempts -/

/-- The socket of an attempt that is not decided. -/
def Phase.attempt : Phase → Option ℕ
  | .configuring _ n | .slammed _ n | .refused n | .grace _ n _ => some n
  | _ => none

/-- Each attempt has a socket of its own, which is neither accepted nor rejected yet, and no socket is
    both. -/
structure Judged (tasks : List Task) (opened : ℕ) (accepted rejected : List ℕ) : Prop where
  fresh : ∀ (i : ℕ) t n, tasks[i]? = some t → t.phase.attempt = some n →
    n < opened ∧ n ∉ accepted ∧ n ∉ rejected
  own : ∀ (i j : ℕ) t u n, tasks[i]? = some t → tasks[j]? = some u → t.phase.attempt = some n →
    u.phase.attempt = some n → i = j
  opened : ∀ n, n ∈ accepted ∨ n ∈ rejected → n < opened
  apart : ∀ n ∈ accepted, n ∉ rejected

theorem judged_init : Judged [] 0 [] [] := by
  refine ⟨fun i t n ht => ?_, fun i j t u n ht => ?_, fun n h => ?_, fun n h => ?_⟩
  · cases ht
  · cases ht
  · rcases h with h | h <;> cases h
  · cases h

/-- What a move does to the attempts: a socket is opened for one, and one is decided. -/
structure Attempted (c c' : Shared) (m : Move) (ph ph' : Phase) : Prop where
  opened : ph'.attempt = none ∧ c'.opened = c.opened ∨
    ph'.attempt = ph.attempt ∧ c'.opened = c.opened ∨
    ph'.attempt = some c.opened ∧ c'.opened = c.opened + 1
  rejected : c'.rejected = c.rejected ++ (ph.rejects m).toList
  decided : ∀ n, ph.accepts m = some n ∨ ph.rejects m = some n →
    ph.attempt = some n ∧ ph'.attempt = none
  once : ph.accepts m = none ∨ ph.rejects m = none

section
variable {c c' : Shared} {job : Job} {m : Move} {ph ph' : Phase}

theorem retry_attempt (k : ℕ) : (retry k).attempt = none := by
  cases k <;> rfl

theorem after_burial_attempt (k : ℕ) (w : Option ℕ) : (after_burial k w).attempt = none := by
  cases w with
  | none => exact retry_attempt k
  | some w => rfl

theorem after_reader_attempt (w : Option ℕ) : (after_reader w).attempt = none := by
  cases w <;> rfl

theorem close_ws_attempt (w : Option ℕ) : (close_ws w).attempt = none := by
  cases w <;> rfl

theorem after_open_attempt (job : Job) (ws : Option ℕ) : (job.after_open ws).attempt = none := by
  cases job with
  | send p => cases ws <;> rfl
  | _ => rfl

/-- A move that decides nothing. -/
theorem Attempted.undecided (hopened : ph'.attempt = none ∧ c'.opened = c.opened ∨
      ph'.attempt = ph.attempt ∧ c'.opened = c.opened ∨
      ph'.attempt = some c.opened ∧ c'.opened = c.opened + 1) (hrejected : c'.rejected = c.rejected)
    (haccepts : ph.accepts m = none) (hrejects : ph.rejects m = none) : Attempted c c' m ph ph' := by
  refine ⟨hopened, ?_, ?_, .inl haccepts⟩
  · rw [hrejects, hrejected]
    exact (List.append_nil _).symm
  · intro n hn
    rw [haccepts, hrejects] at hn
    rcases hn with hn | hn <;> cases hn

theorem moved_attempted (h : Moved c job m ph ph' c') : Attempted c c' m ph ph' := by
  cases h with
  | @healthy k n since hwoken =>
    refine ⟨.inl ⟨after_open_attempt .., rfl⟩, (List.append_nil _).symm, fun n' hn => ?_, .inr rfl⟩
    rcases hn with hn | hn
    · exact ⟨hn, after_open_attempt ..⟩
    · cases hn
  | reject_wait hwoken htask halive =>
    refine ⟨.inl ⟨rfl, rfl⟩, rfl, fun n' hn => ?_, .inl rfl⟩
    rcases hn with hn | hn
    · cases hn
    · exact ⟨hn, rfl⟩
  | reject hwoken hdone =>
    refine ⟨.inl ⟨after_burial_attempt .., rfl⟩, rfl, fun n' hn => ?_, .inl rfl⟩
    rcases hn with hn | hn
    · cases hn
    · exact ⟨hn, after_burial_attempt ..⟩
  | connected => exact .undecided (.inr (.inr ⟨rfl, rfl⟩)) rfl rfl rfl
  | configured hrate => exact .undecided (.inr (.inl ⟨rfl, rfl⟩)) rfl rfl rfl
  | slammed hlive => exact .undecided (.inr (.inl ⟨rfl, rfl⟩)) rfl rfl rfl
  | refused => exact .undecided (.inr (.inl ⟨rfl, rfl⟩)) rfl rfl rfl
  | tear hdone => exact .undecided (.inl ⟨after_reader_attempt _, rfl⟩) rfl rfl rfl
  | reader_closed hdone => exact .undecided (.inl ⟨after_reader_attempt _, rfl⟩) rfl rfl rfl
  | slam_closed => exact .undecided (.inl ⟨retry_attempt _, rfl⟩) rfl rfl rfl
  | reader_buried hdone => exact .undecided (.inl ⟨after_burial_attempt .., rfl⟩) rfl rfl rfl
  | ws_buried => exact .undecided (.inl ⟨retry_attempt _, rfl⟩) rfl rfl rfl
  | reader_ended hdone => exact .undecided (.inl ⟨close_ws_attempt _, rfl⟩) rfl rfl rfl
  | stopped hstops =>
    rcases stops_cases hstops with rfl | rfl <;> exact .undecided (.inl ⟨rfl, rfl⟩) rfl rfl rfl
  | _ => exact .undecided (.inl ⟨rfl, rfl⟩) rfl rfl rfl

/-- A task moves. -/
theorem Judged.moved {tasks : List Task} {accepted : List ℕ} {i : ℕ} {t : Task}
    (h : Judged tasks c.opened accepted c.rejected) (ht : tasks[i]? = some t)
    (hm : Attempted c c' m t.phase ph') :
    Judged (tasks.set i ⟨job, ph'⟩) c'.opened (accepted ++ (t.phase.accepts m).toList) c'.rejected := by
  have hle : c.opened ≤ c'.opened := by
    rcases hm.opened with ⟨-, heq⟩ | ⟨-, heq⟩ | ⟨-, heq⟩ <;> omega
  have hdecided : ∀ n, n ∈ (t.phase.accepts m).toList ∨ n ∈ (t.phase.rejects m).toList →
      t.phase.attempt = some n ∧ ph'.attempt = none := by
    intro n hn
    exact hm.decided n (hn.imp Option.mem_toList.1 Option.mem_toList.1)
  -- a socket stays undecided if it is not the one of an attempt that ends here
  have hold : ∀ n, n ∉ accepted → n ∉ c.rejected →
      (∀ n', t.phase.attempt = some n' → ph'.attempt = none → n' ≠ n) →
      n ∉ accepted ++ (t.phase.accepts m).toList ∧ n ∉ c'.rejected := by
    intro n hacc hrej hother
    rw [hm.rejected, List.mem_append, List.mem_append]
    constructor
    · rintro (hmem | hmem)
      · exact hacc hmem
      · obtain ⟨hattempt, hnone⟩ := hdecided n (.inl hmem)
        exact hother n hattempt hnone rfl
    · rintro (hmem | hmem)
      · exact hrej hmem
      · obtain ⟨hattempt, hnone⟩ := hdecided n (.inr hmem)
        exact hother n hattempt hnone rfl
  have hgoes : ∀ n, ph'.attempt = some n → t.phase.attempt = some n ∨ n = c.opened := by
    intro n hn
    rcases hm.opened with ⟨hnone, -⟩ | ⟨hsame, -⟩ | ⟨hnew, -⟩
    · rw [hnone] at hn
      cases hn
    · exact .inl (hsame.symm.trans hn)
    · exact .inr (Option.some.inj (hn.symm.trans hnew))
  have hnew : c.opened ∉ accepted ∧ c.opened ∉ c.rejected := by
    constructor
    · intro hmem
      exact Nat.lt_irrefl _ (h.opened _ (.inl hmem))
    · intro hmem
      exact Nat.lt_irrefl _ (h.opened _ (.inr hmem))
  refine ⟨fun j u n hu hn => ?_, fun j j' u u' n hu hu' hn hn' => ?_, fun n hn => ?_, fun n hn => ?_⟩
  · rcases (get_set_iff ht).1 hu with ⟨rfl, rfl⟩ | ⟨hij, hu⟩
    · have hends : ∀ n', t.phase.attempt = some n' → ph'.attempt = none → n' ≠ n := by
        intro n' _ hnone
        rw [hnone] at hn
        cases hn
      rcases hgoes n hn with hn' | rfl
      · obtain ⟨hlt, hacc, hrej⟩ := h.fresh i t n ht hn'
        exact ⟨Nat.lt_of_lt_of_le hlt hle, hold n hacc hrej hends⟩
      · refine ⟨?_, hold _ hnew.1 hnew.2 hends⟩
        rcases hm.opened with ⟨hnone, -⟩ | ⟨hsame, -⟩ | ⟨-, heq⟩
        · exact absurd hnone (by rw [hn]; nofun)
        · exact absurd (h.fresh i t _ ht (hsame.symm.trans hn)).1 (Nat.lt_irrefl _)
        · omega
    · obtain ⟨hlt, hacc, hrej⟩ := h.fresh j u n hu hn
      refine ⟨Nat.lt_of_lt_of_le hlt hle, hold n hacc hrej fun n' hattempt _ heq => ?_⟩
      exact hij (h.own i j t u n ht hu (heq ▸ hattempt) hn)
  · -- the socket of a new attempt is not the one of another
    have hother : ∀ (k : ℕ) v, i ≠ k → tasks[k]? = some v → ph'.attempt = some n →
        v.phase.attempt ≠ some n := by
      intro k v hik hv hph hvn
      rcases hgoes n hph with hn' | rfl
      · exact hik (h.own i k t v n ht hv hn' hvn)
      · exact Nat.lt_irrefl _ (h.fresh k v _ hv hvn).1
    rcases (get_set_iff ht).1 hu with ⟨rfl, rfl⟩ | ⟨hij, hu⟩
    · rcases (get_set_iff ht).1 hu' with ⟨rfl, -⟩ | ⟨hij', hu'⟩
      · rfl
      · exact absurd hn' (hother j' u' hij' hu' hn)
    · rcases (get_set_iff ht).1 hu' with ⟨rfl, rfl⟩ | ⟨hij', hu'⟩
      · exact absurd hn (hother j u hij hu hn')
      · exact h.own j j' u u' n hu hu' hn hn'
  · rw [hm.rejected, List.mem_append, List.mem_append] at hn
    refine Nat.lt_of_lt_of_le ?_ hle
    rcases hn with (hn | hn) | (hn | hn)
    · exact h.opened n (.inl hn)
    · exact (h.fresh i t n ht (hdecided n (.inl hn)).1).1
    · exact h.opened n (.inr hn)
    · exact (h.fresh i t n ht (hdecided n (.inr hn)).1).1
  · rw [hm.rejected, List.mem_append]
    rintro (hmem | hmem)
    · rcases List.mem_append.1 hn with hn | hn
      · exact h.apart n hn hmem
      · exact (h.fresh i t n ht (hdecided n (.inl hn)).1).2.2 hmem
    · rcases List.mem_append.1 hn with hn | hn
      · exact (h.fresh i t n ht (hdecided n (.inr hmem)).1).2.1 hn
      · rcases hm.once with hnone | hnone
        · rw [hnone] at hn
          cases hn
        · rw [hnone] at hmem
          cases hmem

/-- A new task has no attempt yet. -/
theorem Judged.concat {tasks : List Task} {opened : ℕ} {accepted rejected : List ℕ} {t : Task}
    (h : Judged tasks opened accepted rejected) (ht : t.phase.attempt = none) :
    Judged (tasks ++ [t]) opened accepted rejected := by
  have hget : ∀ {j : ℕ} {u : Task} {n : ℕ}, (tasks ++ [t])[j]? = some u →
      u.phase.attempt = some n → tasks[j]? = some u := by
    intro j u n hu hn
    rcases get_concat_iff.1 hu with hu | ⟨-, rfl⟩
    · exact hu
    · rw [ht] at hn
      cases hn
  exact ⟨fun i u n hu hn => h.fresh i u n (hget hu hn) hn,
    fun i j u v n hu hv hn hn' => h.own i j u v n (hget hu hn) (hget hv hn') hn hn', h.opened, h.apart⟩

theorem start_attempt (c : Shared) (job : Job) : (job.start c).1.attempt = none ∧
    (job.start c).2.opened = c.opened ∧ (job.start c).2.rejected = c.rejected := by
  cases job with
  | connect =>
    rw [Job.start]
    split <;> exact ⟨rfl, rfl, rfl⟩
  | reconnect =>
    refine ⟨?_, rfl, rfl⟩
    rw [Job.start]
    split <;> rfl
  | send p => exact ⟨rfl, rfl, rfl⟩
  | close =>
    refine ⟨?_, rfl, rfl⟩
    rw [Job.start]
    split
    · split
      · rfl
      · exact close_ws_attempt _
    · exact close_ws_attempt _

theorem happened_rejected {a : Label} (h : Happened c a c') :
    c'.opened = c.opened ∧ c'.rejected = c.rejected := by
  cases h with
  | @frame s t f hreader => cases f <;> exact ⟨rfl, rfl⟩
  | @reader_end s t normal code hreader hlive => cases normal <;> exact ⟨rfl, rfl⟩
  | _ => exact ⟨rfl, rfl⟩

end

/-! ### What became of the items -/

/-- What is recorded of the items: `held` is the one in the hands of `get_task`. What left the queue
    after it was drained. -/
structure Recorded (emitted queue : List Item) (rejected : List ℕ) (yielded : List Item)
    (fates : List (Item × Fate)) (held : Option Item) : Prop where
  exact : fates.map Prod.fst ++ queue = emitted
  in_order : yielded = (fates.filter (·.2 = .yielded)).map Prod.fst
  kept : ∀ x fate, (x, fate) ∈ fates →
    fate = .yielded ∨ fate = .taken ∧ held = some x ∨ fate = .drained ∧ x.1 ∈ rejected
  holds : ∀ x, held = some x → ∃ pre post, fates = pre ++ (x, .taken) :: post ∧
    (∀ f ∈ pre, f.2 ≠ .taken) ∧ ∀ f ∈ post, f.2 = .drained

theorem recorded_init (rejected : List ℕ) : Recorded [] [] rejected [] [] none where
  exact := rfl
  in_order := rfl
  kept := nofun
  holds := nofun

/-- A settled item keeps its place. -/
theorem map_settle_fst (fate : Fate) (fates : List (Item × Fate)) :
    (fates.map fate.settle).map Prod.fst = fates.map Prod.fst := by
  rw [List.map_map]
  refine List.map_congr_left fun f _ => ?_
  rw [Function.comp_apply, Fate.settle]
  split <;> rfl

theorem settle_of_ne (fate : Fate) {f : Item × Fate} (hf : f.2 ≠ .taken) : fate.settle f = f := if_neg hf

theorem map_settle_of_ne (fate : Fate) {fates : List (Item × Fate)} (h : ∀ f ∈ fates, f.2 ≠ .taken) :
    fates.map fate.settle = fates :=
  (List.map_congr_left fun f hf => settle_of_ne fate (h f hf)).trans (List.map_id _)

theorem filter_drained {fates : List (Item × Fate)} (h : ∀ f ∈ fates, f.2 = .drained) :
    fates.filter (·.2 = .yielded) = [] := by
  refine List.filter_eq_nil_iff.2 fun f hf => ?_
  rw [h f hf]
  decide

section
variable {emitted queue : List Item} {rejected : List ℕ} {yielded : List Item}
  {fates : List (Item × Fate)} {held : Option Item}

/-- The client goes on: what readers queue comes last, and what is drained is of rejected attempts. -/
theorem Recorded.goes_on (h : Recorded emitted queue rejected yielded fates held)
    {queue' : List Item} (new drained : List Item) (rejected' : List ℕ)
    (hqueue : drained ++ queue' = queue ++ new)
    (hle : ∀ n ∈ rejected, n ∈ rejected') (hdrained : ∀ x ∈ drained, x.1 ∈ rejected') :
    Recorded (emitted ++ new) queue' rejected' yielded (fates ++ drained.map (·, .drained)) held := by
  have hall : ∀ f ∈ drained.map (·, Fate.drained), f.2 = .drained := by
    intro f hf
    obtain ⟨x, -, rfl⟩ := List.mem_map.1 hf
    rfl
  refine ⟨?_, ?_, fun x fate hx => ?_, fun x hx => ?_⟩
  · have hfst : (drained.map (·, Fate.drained)).map Prod.fst = drained := by
      rw [List.map_map]
      exact List.map_id _
    rw [List.map_append, hfst, List.append_assoc, hqueue, ← List.append_assoc, h.exact]
  · rw [List.filter_append, filter_drained hall, List.append_nil]
    exact h.in_order
  · rcases List.mem_append.1 hx with hx | hx
    · rcases h.kept x fate hx with hfate | hfate | ⟨hfate, hrej⟩
      · exact .inl hfate
      · exact .inr (.inl hfate)
      · exact .inr (.inr ⟨hfate, hle _ hrej⟩)
    · obtain ⟨y, hy, heq⟩ := List.mem_map.1 hx
      obtain ⟨rfl, rfl⟩ := Prod.mk.inj heq
      exact .inr (.inr ⟨rfl, hdrained _ hy⟩)
  · obtain ⟨pre, post, rfl, hpre, hpost⟩ := h.holds x hx
    refine ⟨pre, post ++ drained.map (·, .drained), ?_, hpre, fun f hf => ?_⟩
    · rw [List.append_assoc, List.cons_append]
    · exact (List.mem_append.1 hf).elim (hpost f) (hall f)

variable {x : Item} {rest : List Item}

/-- The consumer takes an item and yields it. -/
theorem Recorded.pop (h : Recorded emitted (x :: rest) rejected yielded fates none) :
    Recorded emitted rest rejected (yielded ++ [x]) (fates ++ [(x, .yielded)]) none := by
  refine ⟨?_, ?_, fun y fate hy => ?_, nofun⟩
  · rw [List.map_append, List.append_assoc]
    exact h.exact
  · rw [List.filter_append, List.map_append, ← h.in_order]
    rfl
  · rcases List.mem_append.1 hy with hy | hy
    · exact h.kept y fate hy
    · obtain ⟨rfl, rfl⟩ := Prod.mk.inj (List.mem_singleton.1 hy)
      exact .inl rfl

/-- `get_task` takes it. -/
theorem Recorded.take (h : Recorded emitted (x :: rest) rejected yielded fates none) :
    Recorded emitted rest rejected yielded (fates ++ [(x, .taken)]) (some x) := by
  refine ⟨?_, ?_, fun y fate hy => ?_, fun y hy => ?_⟩
  · rw [List.map_append, List.append_assoc]
    exact h.exact
  · rw [List.filter_append, List.map_append, ← h.in_order]
    exact (List.append_nil _).symm
  · rcases List.mem_append.1 hy with hy | hy
    · rcases h.kept y fate hy with hfate | ⟨-, hheld⟩ | hfate
      · exact .inl hfate
      · cases hheld
      · exact .inr (.inr hfate)
    · obtain ⟨rfl, rfl⟩ := Prod.mk.inj (List.mem_singleton.1 hy)
      exact .inr (.inl ⟨rfl, rfl⟩)
  · obtain rfl := Option.some.inj hy
    refine ⟨fates, [], rfl, fun f hf heq => ?_, nofun⟩
    rcases h.kept f.1 f.2 hf with hfate | ⟨-, hheld⟩ | ⟨hfate, -⟩
    · rw [hfate] at heq
      cases heq
    · cases hheld
    · rw [hfate] at heq
      cases heq

/-- And the consumer yields it. -/
theorem Recorded.give (h : Recorded emitted queue rejected yielded fates (some x)) :
    Recorded emitted queue rejected (yielded ++ [x]) (fates.map (Fate.settle .yielded)) none := by
  obtain ⟨pre, post, rfl, hpre, hpost⟩ := h.holds x rfl
  have hpost' : ∀ f ∈ post, f.2 ≠ Fate.taken := by
    intro f hf
    rw [hpost f hf]
    decide
  have hsettled : (pre ++ (x, Fate.taken) :: post).map (Fate.settle .yielded) =
      pre ++ (x, Fate.yielded) :: post := by
    rw [List.map_append, List.map_cons, map_settle_of_ne _ hpre, map_settle_of_ne _ hpost']
    rfl
  have hin := h.in_order
  rw [List.filter_append, List.filter_cons_of_neg Bool.false_ne_true, filter_drained hpost,
    List.append_nil] at hin
  refine ⟨?_, ?_, fun y fate hy => ?_, nofun⟩
  · rw [map_settle_fst]
    exact h.exact
  · rw [hsettled, List.filter_append, List.filter_cons_of_pos rfl, filter_drained hpost,
      List.map_append, ← hin]
    rfl
  · rw [hsettled] at hy
    have hmem : (y, fate) = (x, Fate.yielded) ∨ (y, fate) ∈ pre ++ post := by
      rcases List.mem_append.1 hy with hy | hy
      · exact .inr (List.mem_append_left _ hy)
      · exact (List.mem_cons.1 hy).imp id (List.mem_append_right _)
    rcases hmem with heq | hmem
    · exact .inl (Prod.mk.inj heq).2
    · have hold : (y, fate) ∈ pre ++ (x, Fate.taken) :: post :=
        (List.mem_append.1 hmem).elim (List.mem_append_left _)
          fun hy => List.mem_append_right _ (List.mem_cons_of_mem _ hy)
      rcases h.kept y fate hold with hfate | ⟨rfl, -⟩ | hfate
      · exact .inl hfate
      · rcases List.mem_append.1 hmem with hy | hy
        · exact absurd rfl (hpre _ hy)
        · exact absurd rfl (hpost' _ hy)
      · exact .inr (.inr hfate)

/-- `get_task` holds one item at most. -/
theorem Recorded.held_once (h : Recorded emitted queue rejected yielded fates (some x)) :
    fates.countP (·.2 = .taken) = 1 := by
  obtain ⟨pre, post, rfl, hpre, hpost⟩ := h.holds x rfl
  have hpre0 : pre.countP (·.2 = .taken) = 0 := by
    refine List.countP_eq_zero.2 fun f hf => ?_
    simpa using hpre f hf
  have hpost0 : post.countP (·.2 = .taken) = 0 := by
    refine List.countP_eq_zero.2 fun f hf => ?_
    rw [hpost f hf]
    decide
  rw [List.countP_append, List.countP_cons_of_pos rfl, hpre0, hpost0]

end

/-! ### A clean run -/

/-- What clean steps keep. -/
structure Accounted (D : Delivery) : Prop where
  judged : Judged D.client.tasks D.client.shared.opened D.accepted D.client.shared.rejected
  recorded : Recorded D.client.shared.emitted D.client.shared.queue D.client.shared.rejected
    D.yielded D.fates D.held
  returned : ∀ b ∈ D.returns, b = true
  flushes : D.consumer = .flushing → D.client.shared.reads_on = false

theorem accounted_init (v2 : Bool) : Accounted (.init v2) :=
  ⟨judged_init, recorded_init [], nofun, nofun⟩

@[simp] theorem dispatch_shared (c : Client) (x : Item) : (c.dispatch x).shared = c.shared := by
  rw [Client.dispatch]
  split <;> rfl

theorem Judged.dispatch {c : Client} {opened : ℕ} {accepted rejected : List ℕ} (x : Item)
    (h : Judged c.tasks opened accepted rejected) :
    Judged (c.dispatch x).tasks opened accepted rejected := by
  rw [Client.dispatch]
  split
  · exact h.concat rfl
  · exact h

section
variable {D E : Delivery} {x : Item} {rest : List Item} {consumer : Consumer}

/-- The consumer yields an item of the queue. -/
theorem Accounted.pop (h : Accounted D) (hheld : D.held = none) (hqueue : D.client.shared.queue = x :: rest)
    (hconsumer : consumer = .yielded ∨ consumer = .flushing ∧ D.client.shared.reads_on = false) :
    Accounted ((D.pops x rest .yielded).yields x consumer) := by
  have hrecorded := h.recorded
  rw [hheld, hqueue] at hrecorded
  have hnone : ((D.pops x rest .yielded).yields x consumer).held = none := by
    rcases hconsumer with rfl | ⟨rfl, -⟩ <;> rfl
  have hshared : ((D.pops x rest .yielded).yields x consumer).client.shared =
      { D.client.shared with queue := rest } := dispatch_shared ..
  refine ⟨?_, ?_, h.returned, fun hflushing => ?_⟩
  · rw [hshared]
    exact h.judged.dispatch (c := (D.pops x rest .yielded).client) x
  · rw [hnone, hshared]
    exact hrecorded.pop
  · rw [hshared]
    rcases hconsumer with rfl | ⟨-, hoff⟩
    · cases hflushing
    · exact hoff

/-- The consumer yields what `get_task` has taken. -/
theorem Accounted.give {done_task : DoneTask} (h : Accounted D)
    (hconsumer : D.consumer = .waiting (some x) done_task) :
    Accounted ((D.settles .yielded).yields x .yielded) := by
  have hheld : D.held = some x := by rw [Delivery.held, hconsumer]
  have hrecorded := h.recorded
  rw [hheld] at hrecorded
  have hshared : ((D.settles .yielded).yields x .yielded).client.shared = D.client.shared :=
    dispatch_shared ..
  refine ⟨?_, ?_, h.returned, nofun⟩
  · rw [hshared]
    exact h.judged.dispatch (c := D.client) x
  · rw [hshared]
    exact hrecorded.give

/-- `get_task` takes an item. -/
theorem Accounted.take (h : Accounted D) (hheld : D.held = none) (hqueue : D.client.shared.queue = x :: rest)
    (done_task : DoneTask) :
    Accounted { D.pops x rest .taken with consumer := .waiting (some x) done_task } := by
  have hrecorded := h.recorded
  rw [hheld, hqueue] at hrecorded
  exact ⟨h.judged, hrecorded.take, h.returned, nofun⟩

/-- The consumer waits, or it is gone. -/
theorem Accounted.suspend (h : Accounted D) (hheld : D.held = none)
    (hconsumer : consumer = .outside ∨ ∃ done_task, consumer = .waiting D.held done_task) :
    Accounted { D with consumer := consumer } := by
  have hnone : ({ D with consumer := consumer } : Delivery).held = D.held := by
    rcases hconsumer with rfl | ⟨done_task, rfl⟩
    · exact hheld.symm
    · rfl
  refine ⟨h.judged, ?_, h.returned, fun hflushing => ?_⟩
  · rw [hnone]
    exact h.recorded
  · rcases hconsumer with rfl | ⟨done_task, rfl⟩ <;> cases hflushing

theorem Accounted.clear (h : Accounted D) :
    Accounted (D.with_shared { D.client.shared with reader_done := false }) :=
  ⟨h.judged, h.recorded, h.returned, h.flushes⟩

/-- `events()` returns. -/
theorem Accounted.leave (h : Accounted D) (hheld : D.held = none) (hoff : D.client.shared.reads_on = false) :
    Accounted D.leaves := by
  have hout := h.suspend hheld (.inl rfl)
  refine ⟨hout.judged, hout.recorded, fun b hb => ?_, nofun⟩
  rcases List.mem_append.1 hb with hb | hb
  · exact h.returned b hb
  · rw [List.mem_singleton.1 hb, hoff]
    rfl

theorem Accounted.head (h : Accounted D) (hheld : D.held = none) : Accounted D.head := by
  rw [Delivery.head]
  split
  · next x rest hqueue => exact h.pop hheld hqueue (.inl rfl)
  · split
    · split
      · exact h.clear.suspend hheld (.inr ⟨.created, congrArg (Consumer.waiting · _) hheld.symm⟩)
      · next hoff => exact h.leave hheld (Bool.eq_false_iff.2 hoff)
    · exact h.suspend hheld (.inr ⟨.created, congrArg (Consumer.waiting · _) hheld.symm⟩)

theorem Accounted.flush (h : Accounted D) (hheld : D.held = none) (hoff : D.client.shared.reads_on = false) :
    Accounted D.flush := by
  rw [Delivery.flush]
  split
  · next x rest hqueue => exact h.pop hheld hqueue (.inr ⟨rfl, hoff⟩)
  · exact h.leave hheld hoff

theorem Accounted.resume (h : Accounted D) (hE : D.resume = some E) : Accounted E := by
  rw [Delivery.resume] at hE
  split at hE
  · next hconsumer =>
    cases hE
    exact h.head (by rw [Delivery.held, hconsumer])
  · next hconsumer =>
    cases hE
    exact h.head (by rw [Delivery.held, hconsumer])
  · next hconsumer =>
    cases hE
    exact h.flush (by rw [Delivery.held, hconsumer]) (h.flushes hconsumer)
  · next x done_task hconsumer =>
    cases hE
    exact h.give hconsumer
  · next hconsumer =>
    have hheld : D.held = none := by rw [Delivery.held, hconsumer]
    split at hE
    · cases hE
      exact h.clear.head hheld
    · next hoff =>
      cases hE
      exact h.flush hheld (Bool.eq_false_iff.2 hoff)
  · cases hE

theorem Accounted.get_runs (h : Accounted D) (hE : D.get_runs = some E) : Accounted E := by
  rw [Delivery.get_runs] at hE
  split at hE
  · next done_task x rest hconsumer hqueue =>
    cases hE
    exact h.take (by rw [Delivery.held, hconsumer]) hqueue done_task
  · cases hE

theorem Accounted.done_runs (h : Accounted D) (hE : D.done_runs = some E) : Accounted E := by
  have hwaits : ∀ {got done_task done_task'}, D.consumer = .waiting got done_task →
      Accounted { D with consumer := .waiting got done_task' } := by
    intro got done_task done_task' hconsumer
    have hheld : D.held = got := by rw [Delivery.held, hconsumer]
    refine ⟨h.judged, ?_, h.returned, nofun⟩
    rw [← hheld]
    exact h.recorded
  rw [Delivery.done_runs] at hE
  split at hE
  · next hconsumer =>
    cases hE
    exact hwaits hconsumer
  · next hconsumer =>
    split at hE
    · cases hE
      exact hwaits hconsumer
    · cases hE
  · cases hE

/-- A consumer is cancelled with nothing in its hands. -/
theorem Accounted.cancel (h : Accounted D) (hclean : D.held = none) (hE : D.cancel = some E) : Accounted E := by
  rw [Delivery.cancel] at hE
  split at hE
  · cases hE
  · next x done_task hconsumer =>
    rw [Delivery.held, hconsumer] at hclean
    cases hclean
  · cases hE
    exact h.suspend hclean (.inl rfl)

/-- The handshake of an opening queues a frame. -/
theorem Accounted.handshake (h : Accounted D) (n : ℕ) : Accounted (D.with_shared (D.client.shared.put n .other)) := by
  have hgoes := h.recorded.goes_on [(n, .other)] [] _ rfl (fun _ => id) nofun
  rw [List.map_nil, List.append_nil] at hgoes
  exact ⟨h.judged, hgoes, h.returned, h.flushes⟩

end

section
variable {c c' : Client} {a : Label}

theorem moving_task {i : ℕ} {t : Task} (ht : c.tasks[i]? = some t) (m : Move) :
    c.moving (.task i m) = some (m, t.phase) := by
  rw [Client.moving, ht]
  rfl

theorem step_rejected (ha : a ≠ .take) (h : c.step a = some c') : c'.shared.rejected =
    c.shared.rejected ++ ((c.moving a).bind fun p => p.2.rejects p.1).toList := by
  cases step_cases h with
  | @call job hjob => exact (start_attempt c.shared job).2.2.trans (List.append_nil _).symm
  | @task i m t ph _ ht hmoved htasks hlock hlock' =>
    rw [moving_task ht]
    exact (moved_attempted hmoved).rejected
  | @happened _ shared hh =>
    have hmoving : c.moving a = none := by cases hh <;> rfl
    rw [hmoving]
    exact (happened_rejected hh).2.trans (List.append_nil _).symm
  | take hqueue => exact absurd rfl ha
  | take_call hqueue => exact absurd rfl ha

theorem step_judged {accepted : List ℕ} (ha : a ≠ .take) (h : c.step a = some c')
    (hjudged : Judged c.tasks c.shared.opened accepted c.shared.rejected) :
    Judged c'.tasks c'.shared.opened
      (accepted ++ ((c.moving a).bind fun p => p.2.accepts p.1).toList) c'.shared.rejected := by
  cases step_cases h with
  | @call job hjob =>
    obtain ⟨hattempt, hopened, hrejected⟩ := start_attempt c.shared job
    have hnone : accepted ++ (Option.bind (none : Option (Move × Phase))
        fun p => p.2.accepts p.1).toList = accepted := List.append_nil _
    have hcall := hjudged.concat (t := ⟨job, (job.start c.shared).1⟩) hattempt
    rw [← hopened, ← hrejected, ← hnone] at hcall
    exact hcall
  | @task i m t ph _ ht hmoved htasks hlock hlock' =>
    rw [moving_task ht, htasks]
    exact hjudged.moved ht (moved_attempted hmoved)
  | @happened _ shared hh =>
    have hmoving : c.moving a = none := by cases hh <;> rfl
    obtain ⟨hopened, hrejected⟩ := happened_rejected hh
    have hnone : accepted ++ (Option.bind (none : Option (Move × Phase))
        fun p => p.2.accepts p.1).toList = accepted := List.append_nil _
    rw [← hopened, ← hrejected, ← hnone] at hjudged
    rw [hmoving]
    exact hjudged
  | take hqueue => exact absurd rfl ha
  | take_call hqueue => exact absurd rfl ha

end

section
variable {D E : Delivery}

/-- The client takes a step of its own. -/
theorem Accounted.client {a : Label} {c : Client} (h : Accounted D) (ha : a ≠ .take)
    (hclean : Clean D (.client a)) (hstep : D.client.step a = some c) :
    Accounted { D with
      client := c
      accepted := D.accepted ++ ((D.client.moving a).bind fun p => p.2.accepts p.1).toList
      fates := D.fates ++ (D.client.drained a).map (·, .drained) } := by
  obtain ⟨new, hemitted, hqueue⟩ := step_queue ha hstep
  have hrejected := step_rejected ha hstep
  refine ⟨step_judged ha hstep h.judged, ?_, h.returned, fun hflushing => ?_⟩
  · have hgoes := h.recorded.goes_on new _ c.shared.rejected hqueue (fun n hn => ?_)
      fun x hx => ?_
    · rw [hemitted]
      exact hgoes
    · rw [hrejected]
      exact List.mem_append_left _ hn
    · rw [hrejected, List.mem_append]
      exact (hclean.1 x hx).imp id Option.mem_toList.2
  · refine Bool.eq_false_iff.2 fun hon => ?_
    rcases step_reads_on hstep hon with hon | hcreates
    · rw [h.flushes hflushing] at hon
      cases hon
    · rw [hclean.2 hflushing] at hcreates
      cases hcreates

theorem Accounted.step {a : Act} (h : Accounted D) (hclean : Clean D a) (hE : Delivers D a E) : Accounted E := by
  rw [Delivers] at hE
  cases a with
  | client a =>
    cases a with
    | take => cases hE
    | events_clear => cases hE
    | _ =>
      obtain ⟨c, hc, rfl⟩ := Option.map_eq_some_iff.1 hE
      exact h.client nofun hclean hc
  | handshake i =>
    rw [Delivery.step] at hE
    split at hE
    · split at hE
      · cases hE
        exact h.handshake _
      · cases hE
    · cases hE
  | resume => exact h.resume hE
  | get_runs => exact h.get_runs hE
  | done_runs => exact h.done_runs hE
  | cancel => exact h.cancel hclean hE

/-- Where the steps are clean the events are delivered exactly. -/
theorem Accounted.delivered (h : Accounted D) : Exact D := by
  refine ⟨h.recorded.exact, h.recorded.in_order, fun x fate hx => ?_, fun x hx => ?_, h.returned⟩
  · rcases h.recorded.kept x fate hx with hfate | hfate | ⟨hfate, hrejected⟩
    · exact .inl hfate
    · exact .inr (.inl hfate)
    · exact .inr (.inr ⟨hfate, hrejected, fun hmem => h.judged.apart x.1 hmem hrejected⟩)
  · have hrecorded := h.recorded
    rw [hx] at hrecorded
    exact hrecorded.held_once

end

/-- In every run of clean steps the events are delivered exactly. -/
theorem events_exact {v2 : Bool} {as : List Act} {D : Delivery}
    (h : Run (restrict Clean Delivers) (.init v2) as D) : Exact D :=
  Accounted.delivered (h.invariant (fun hs hst => hs.step hst.1 hst.2) (accounted_init v2))

/-- A socket is opened and configured, and its reader runs. -/
def attempted (i n : ℕ) (rate : Option ℕ) : List Act :=
  [.client (.task i .connected), .client (.task i (.configured rate)), .client (.reader_start n)]

/-- A session that is accepted. -/
def session_of (rate : Option ℕ) : List Act :=
  [.client (.call .connect)] ++ attempted 0 0 rate ++ [.client (.task 0 .healthy)]

/-- `reconnect()` up to its first socket; the consumer sees that the reader has ended. -/
def reconnected : List Act :=
  [.client (.call .reconnect), .client (.task 1 .go), .client (.task 1 .go), .client (.reader_cancel 0),
    .client (.task 1 .go), .client (.task 1 .go), .client (.task 1 .go)] ++ attempted 1 1 none

/-- The attempt is rejected: its reader queues the error, and the queue is drained. -/
def rejected : List Act :=
  [.client (.die 1), .client (.reader_end 1 false (some 4429)), .client (.task 1 .reject),
    .client (.task 1 .go)]

/-- An event is yielded, then one more is taken by `get_task`; the next attempt after a rejected one
    is accepted, and `close()` ends it. -/
def reopened : List Act :=
  session_of none ++ [.client (.frame 0 .other), .resume, .resume, .done_runs,
    .client (.frame 0 .other), .get_runs, .resume] ++ reconnected ++ rejected ++
  [.client (.task 1 .go)] ++ attempted 1 2 none ++ [.client (.task 1 .healthy), .resume,
    .client (.frame 2 .other), .get_runs, .resume, .client (.call .close), .client (.reader_cancel 2),
    .resume]

theorem events_exact_reopened : ∃ D, Run (restrict Clean Delivers) (.init false) reopened D ∧
    D.yielded = [(0, .other), (0, .other), (2, .other)] ∧ D.returns = [true] ∧ Exact D := by
  obtain ⟨D, hrun, hend⟩ := Run.of_replay_any
    (fun D a => if Clean D a then Delivery.step D a else none) (.init false) reopened
    (fun D => D.yielded = [(0, .other), (0, .other), (2, .other)] ∧ D.returns = [true])
    (by decide +kernel)
  have hrun' : Run (restrict Clean Delivers) (.init false) reopened D := Run.restrict_mono hrun
  obtain ⟨hyielded, hreturns⟩ := of_decide_eq_true hend
  exact ⟨D, hrun', hyielded, hreturns, events_exact hrun'⟩

/-- The last event of a session is still queued when an attempt to reopen it is rejected. -/
def drained_later : List Act :=
  session_of none ++ [.client (.frame 0 .other), .resume, .client (.frame 0 .tool_call)] ++
    reconnected ++ rejected

/-- The consumer is cancelled when `get_task` has an event. -/
def cancelled_holding : List Act :=
  session_of none ++ [.resume, .client (.frame 0 .other), .get_runs, .cancel]

/-- A reader ends while a send opens the next socket, whose handshake queues a frame before the
    consumer runs; the application is busy with the frame until that opening is through. -/
def flushed_over : List Act :=
  session_of (some 24000) ++ [.resume, .done_runs, .client (.die 0), .client (.call (.send (.other true))),
    .client (.task 1 .go), .client (.task 1 .failed), .client (.call (.send (.other true))),
    .client (.task 2 .go), .client (.task 2 .connected), .client (.reader_end 0 true none), .done_runs,
    .handshake 2, .resume, .client (.task 2 (.configured (some 24000))), .client (.task 2 .reject),
    .client (.reader_cancel 1), .client (.task 2 .go), .client (.task 2 .go), .client (.task 2 .go)] ++
  attempted 2 2 (some 24000) ++ [.client (.task 2 .healthy), .resume]

/-- The drain takes what it finds; what a cancelled consumer holds is gone; and a flush does not look
    at the reader again. -/
theorem delivered_inexactly :
    (∃ D, Run Delivers (.init false) drained_later D ∧ 0 ∈ D.accepted ∧
      ((0, .tool_call), .drained) ∈ D.fates ∧ ¬ Exact D) ∧
    (∃ D, Run Delivers (.init false) cancelled_holding D ∧ D.fates = [((0, .other), .lost)] ∧ ¬ Exact D) ∧
    ∃ D, Run Delivers (.init true) flushed_over D ∧ D.returns = [false] ∧ ¬ Exact D := by
  refine ⟨?_, ?_, ?_⟩
  · obtain ⟨D, hrun, hend⟩ := Run.of_replay_any Delivery.step (.init false) drained_later
      (fun D => 0 ∈ D.accepted ∧ ((0, .tool_call), .drained) ∈ D.fates) (by decide +kernel)
    obtain ⟨haccepted, hdrained⟩ := of_decide_eq_true hend
    refine ⟨D, hrun, haccepted, hdrained, fun h => ?_⟩
    rcases h.kept _ _ hdrained with hfate | ⟨hfate, -⟩ | ⟨-, -, hnot⟩
    · cases hfate
    · cases hfate
    · exact hnot haccepted
  · obtain ⟨D, hrun, hend⟩ := Run.of_replay_any Delivery.step (.init false) cancelled_holding
      (fun D => D.fates = [((0, .other), .lost)]) (by decide +kernel)
    have hfates := of_decide_eq_true hend
    refine ⟨D, hrun, hfates, fun h => ?_⟩
    have hlost : ((0, .other), .lost) ∈ D.fates := hfates ▸ List.mem_singleton_self _
    rcases h.kept _ _ hlost with hfate | ⟨hfate, -⟩ | ⟨hfate, -⟩ <;> cases hfate
  · obtain ⟨D, hrun, hend⟩ := Run.of_replay_any Delivery.step (.init true) flushed_over
      (fun D => D.returns = [false]) (by decide +kernel)
    have hreturns := of_decide_eq_true hend
    refine ⟨D, hrun, hreturns, fun h => ?_⟩
    cases h.returned false (hreturns ▸ List.mem_singleton_self _)

end LocalVoice.SlvClient
