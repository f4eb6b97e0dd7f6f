import LocalVoice.WorkerIO.Calls

/-! Where the permits are. Each is in the semaphore, with a call, or with an executor thread; the
    only one that never comes back is the permit a thread takes for a `send_request` that was
    cancelled while it waited. The done-callback cannot return it: the wrapper future it looks at is
    cancelled, so it has no result. -/

namespace LocalVoice.WorkerIO
open LocalVoice.Lib

/-- The permit an executor thread has taken. -/
def Thread.permit : Thread → ℕ
  | .acquired => 1
  | _ => 0

/-- The executor thread runs `acquire`, or has run it. -/
def Thread.ran : Thread → ℕ
  | .started | .acquired => 1
  | _ => 0

/-- The permits a call or its executor thread has. -/
def Phase.permit : Phase → ℕ
  | .acquiring _ thread _ | .abandoned thread => thread.permit
  | .late | .entered | .checked | .registered | .failed | .waiting | .taken _ | .yielded _
  | .leaving _ | .popped _ => 1
  | .blocked | .released | .ended => 0

/-- The call was cancelled while it waited, and its executor thread runs or has run. -/
def Phase.doomed : Phase → ℕ
  | .acquiring fut thread _ => if fut = .cancelled then thread.ran else 0
  | .abandoned thread => thread.ran
  | _ => 0

/-- The call has its queue in `_inflight`, if nobody else has taken it out. -/
def Phase.enlisted : Phase → Bool
  | .registered | .failed | .waiting | .taken _ | .yielded _ | .leaving _ => true
  | _ => false

/-- The call is over and no executor thread is in `acquire` for it. -/
def Phase.settled : Phase → Bool
  | .ended | .abandoned .dropped | .abandoned .acquired => true
  | _ => false

/-- The phases a call starts in. -/
def Phase.first : Phase → Bool
  | .acquiring .pending .submitted false | .blocked | .entered | .ended => true
  | _ => false

def Effect.taken : Effect → ℕ
  | .take_permit => 1
  | _ => 0

def Effect.given : Effect → ℕ
  | .give_permit => 1
  | _ => 0

theorem Phase.enlisted_permit {p : Phase} (h : p.enlisted = true) : p.permit = 1 := by
  cases p <;> first | rfl | simp [enlisted] at h

theorem Phase.settled_permit {p : Phase} (h : p.settled = true) : p.permit = p.doomed := by
  cases p with
  | ended => rfl
  | abandoned thread => cases thread <;> first | rfl | simp [settled] at h
  | _ => simp [settled] at h

theorem Phase.first_doomed {p : Phase} (h : p.first = true) : p.doomed = 0 := by
  unfold first at h
  split at h <;> first | rfl | cases h

section
variable {closed broken : Bool} {m : Move} {c c' : Call} {e : Effect}

/-- A move keeps what a call was started with. -/
theorem Call.move_frame (h : c.move closed broken m = some (c', e)) :
    c'.sync = c.sync ∧ c'.id = c.id ∧ c'.serialisable = c.serialisable := by
  unfold Call.move Call.goes at h
  split at h <;> (try split at h) <;> (try split at h) <;> cases h <;> exact ⟨rfl, rfl, rfl⟩

/-- A permit comes from the semaphore and goes back to it. -/
theorem Call.move_permit (h : c.move closed broken m = some (c', e)) :
    c'.phase.permit + e.given = c.phase.permit + e.taken := by
  unfold Call.move Call.goes at h
  split at h <;> (try split at h) <;> (try split at h) <;> cases h <;>
    simp [Phase.permit, Thread.permit, Effect.given, Effect.taken, *]

theorem Call.move_doomed_le (h : c.move closed broken m = some (c', e)) :
    c.phase.doomed ≤ c'.phase.doomed := by
  unfold Call.move Call.goes at h
  split at h <;> (try split at h) <;> (try split at h) <;> cases h <;>
    simp only [Phase.doomed, Thread.ran, reduceCtorEq, if_false, if_true, Nat.zero_le, Nat.le_refl, *]
  split <;> simp

/-- The move does not give up an acquire whose thread runs: the task is not cancelled while the
    thread is at it, and the thread does not start once the task has been cancelled. -/
def Phase.keeps (m : Move) (p : Phase) : Bool :=
  match m, p with
  | .cancel, .acquiring .pending thread _ => thread.ran = 0
  | .thread_start, .acquiring .cancelled _ _ => false
  | _, _ => true

/-- These are the moves that doom a call. -/
theorem Call.move_doomed_iff (h : c.move closed broken m = some (c', e)) :
    c'.phase.doomed = c.phase.doomed ↔ c.phase.keeps m = true := by
  unfold Call.move Call.goes at h
  split at h <;> (try split at h) <;> (try split at h) <;> cases h <;>
    simp only [Phase.doomed, Phase.keeps, Thread.ran, reduceCtorEq, if_false, if_true, *]
  · next fut _ _ => cases fut <;> simp
  · exact decide_eq_true_iff.symm

/-- What a move does to `_inflight`, and which calls have their queue there. -/
theorem Call.move_enlisted (h : c.move closed broken m = some (c', e)) :
    (∀ rid, e = .insert rid → c.id = some rid ∧ c'.phase.enlisted = true) ∧
    (∀ r, e = .remove r → r = c.id) ∧
    (c.phase.enlisted = true → c'.phase.enlisted = true ∨ e = .remove c.id) := by
  unfold Call.move Call.goes at h
  split at h <;> (try split at h) <;> (try split at h) <;> cases h <;>
    simp [Phase.enlisted, *]

end

/-! The semaphore and `_inflight` -/

section
variable {s t : Pool} {a : Action} {i j : ℕ} {c : Call} {e : Effect}

/-- `_inflight` after an effect of call `i`. -/
def Effect.inflight (i : ℕ) (d : Dict String ℕ) : Effect → Dict String ℕ
  | .insert rid => d.set rid i
  | .remove (some rid) => d.filterKeys (· ≠ rid)
  | _ => d

theorem apply_spec (h : s.apply i e = some t) :
    t = { s with available := t.available, inflight := e.inflight i s.inflight } ∧
      t.available + e.taken = s.available + e.given := by
  unfold Pool.apply at h
  split at h
  · cases h
    exact ⟨rfl, rfl⟩
  · split at h
    · cases h
      refine ⟨rfl, ?_⟩
      simp only [Effect.taken, Effect.given]
      omega
    · cases h
  all_goals
    cases h
    exact ⟨rfl, rfl⟩

/-- A move of a call, taken apart. -/
theorem move_cases {m : Move} (h : Steps s (.move i m) t) :
    ∃ c c' e, s.calls[i]? = some c ∧ c.move s.closed s.broken m = some (c', e) ∧
      t = { s with available := t.available, inflight := e.inflight i s.inflight,
                   calls := s.calls.set i c' } ∧
      t.available + e.taken = s.available + e.given := by
  simp only [Steps, Pool.step] at h
  obtain ⟨c, hc, h⟩ := Option.bind_eq_some_iff.1 h
  obtain ⟨⟨c', e⟩, hmove, h⟩ := Option.bind_eq_some_iff.1 h
  obtain ⟨u, happly, h⟩ := Option.bind_eq_some_iff.1 h
  obtain ⟨hu, havail⟩ := apply_spec happly
  obtain rfl := Option.some.inj h
  refine ⟨c, c', e, hc, hmove, ?_, havail⟩
  rw [hu]

theorem get_put (calls : List Call) (ev : Event) :
    (put calls i ev)[j]? =
      (calls[j]?).map fun c => if i = j then { c with queue := c.queue ++ [ev] } else c := by
  unfold put
  rw [List.getElem?_modify]
  by_cases hij : i = j <;> simp [hij]

theorem get_put_exit (calls : List Call) (ns : List ℕ) :
    (put_exit calls ns)[j]? =
      (calls[j]?).map fun c => if j ∈ ns then { c with queue := c.queue ++ [.worker_exit] } else c := by
  unfold put_exit
  rw [List.getElem?_mapIdx]

/-- A call without its queue. -/
def Call.bare (c : Call) : Call := { c with queue := [] }

theorem Call.of_bare {c c' : Call} (h : c'.bare = c.bare) : c' = { c with queue := c'.queue } := by
  cases c
  cases c'
  simp only [bare, mk.injEq] at h ⊢
  tauto

/-- The same calls, but for what is in their queues. -/
def SameBare (calls calls' : List Call) : Prop :=
  ∀ j : ℕ, (calls'[j]?).map Call.bare = (calls[j]?).map Call.bare

theorem put_bare (calls : List Call) (ev : Event) : SameBare calls (put calls i ev) := by
  intro j
  rw [get_put, Option.map_map]
  congr 1
  funext c
  by_cases hij : i = j <;> simp [hij, Call.bare]

theorem put_exit_bare (calls : List Call) (ns : List ℕ) : SameBare calls (put_exit calls ns) := by
  intro j
  rw [get_put_exit, Option.map_map]
  congr 1
  funext c
  by_cases hj : j ∈ ns <;> simp [hj, Call.bare]

theorem SameBare.total {calls calls' : List Call} (h : SameBare calls calls') {f : Call → ℕ}
    (hf : ∀ c, f c = f c.bare) : total f calls' = total f calls := by
  refine total_congr fun j => ?_
  have hbare := congrArg (Option.map f) (h j)
  rw [Option.map_map, Option.map_map] at hbare
  have hcomp : f ∘ Call.bare = f := funext fun c => (hf c).symm
  rwa [hcomp] at hbare

theorem SameBare.symm {calls calls' : List Call} (h : SameBare calls calls') :
    SameBare calls' calls := fun j => (h j).symm

/-- A call that is there before is there after, with the same fields but for its queue. -/
theorem SameBare.get {calls calls' : List Call} (h : SameBare calls calls')
    (hc : calls[j]? = some c) : ∃ c', calls'[j]? = some c' ∧ c'.bare = c.bare := by
  have hj := h j
  rw [hc, Option.map_some] at hj
  exact Option.map_eq_some_iff.1 hj

/-- A step that is not a move of a call: it adds a call, or leaves every call where it stands. -/
theorem other_cases (h : Steps s a t) (hmove : ∀ i m, a ≠ .move i m) :
    t.max_slots = s.max_slots ∧
    ((∃ sync id ser p, t.calls = s.calls ++ [.new sync id ser p] ∧ p.first = true ∧
        t.inflight = s.inflight ∧ t.available + p.permit = s.available) ∨
      (SameBare s.calls t.calls ∧ (t.inflight = s.inflight ∨ t.inflight = .empty) ∧
        t.available = s.available)) := by
  have hstart : ∀ sync id ser, (s.start sync id ser).max_slots = s.max_slots ∧
      ∃ sync' id' ser' p, (s.start sync id ser).calls = s.calls ++ [.new sync' id' ser' p] ∧
        p.first = true ∧ (s.start sync id ser).inflight = s.inflight ∧
        (s.start sync id ser).available + p.permit = s.available := by
    intro sync id ser
    unfold Pool.start
    split
    · cases sync <;> exact ⟨rfl, _, _, _, _, rfl, rfl, rfl, rfl⟩
    · split
      · exact ⟨rfl, _, _, _, _, rfl, rfl, rfl, rfl⟩
      · refine ⟨rfl, _, _, _, _, rfl, rfl, rfl, ?_⟩
        simp only [Phase.permit]
        omega
  cases a with
  | move i m => exact absurd rfl (hmove i m)
  | send_request id ser =>
    obtain rfl := Option.some.inj h
    exact ⟨(hstart ..).1, .inl (hstart ..).2⟩
  | request id ser =>
    obtain rfl := Option.some.inj h
    exact ⟨(hstart ..).1, .inl (hstart ..).2⟩
  | stdin_breaks | close =>
    obtain rfl := Option.some.inj h
    exact ⟨rfl, .inr ⟨fun _ => rfl, .inl rfl, rfl⟩⟩
  | emit line =>
    simp only [Steps, Pool.step] at h
    split at h
    · split at h <;> cases h <;> exact ⟨rfl, .inr ⟨fun _ => rfl, .inl rfl, rfl⟩⟩
    · cases h
  | put_line =>
    simp only [Steps, Pool.step] at h
    split at h
    · cases h
      exact ⟨rfl, .inr ⟨put_bare _ _, .inl rfl, rfl⟩⟩
    · cases h
  | sweep =>
    simp only [Steps, Pool.step] at h
    split at h
    · cases h
      exact ⟨rfl, .inr ⟨put_exit_bare _ _, .inr rfl, rfl⟩⟩
    · cases h
  | close_clear k =>
    simp only [Steps, Pool.step] at h
    split at h
    · cases h
      exact ⟨rfl, .inr ⟨fun _ => rfl, .inr rfl, rfl⟩⟩
    · cases h
  | close_put k =>
    simp only [Steps, Pool.step] at h
    split at h
    · cases h
      exact ⟨rfl, .inr ⟨put_bare _ _, .inl rfl, rfl⟩⟩
    · cases h

/-- A call stays in its place, with the id and the kind it was started with. -/
theorem step_calls (h : Steps s a t) (hc : s.calls[j]? = some c) :
    ∃ c', t.calls[j]? = some c' ∧ c'.id = c.id ∧ c'.sync = c.sync := by
  by_cases hmove : ∀ i m, a ≠ .move i m
  · obtain ⟨_, ⟨sync, id, ser, p, hcalls, _⟩ | ⟨hbare, _⟩⟩ := other_cases h hmove
    · exact ⟨c, hcalls ▸ get_concat_iff.2 (.inl hc), rfl, rfl⟩
    · obtain ⟨c', hc', heq⟩ := hbare.get hc
      exact ⟨c', hc', by rw [Call.of_bare heq], by rw [Call.of_bare heq]⟩
  · push Not at hmove
    obtain ⟨i, m, rfl⟩ := hmove
    obtain ⟨d, d', e, hd, hm, ht, _⟩ := move_cases h
    have hcalls : t.calls = s.calls.set i d' := by rw [ht]
    by_cases hij : i = j
    · subst hij
      obtain rfl : d = c := Option.some.inj (hd.symm.trans hc)
      obtain ⟨hsync, hid, _⟩ := Call.move_frame hm
      exact ⟨d', hcalls ▸ (get_set_iff hd).2 (.inl ⟨rfl, rfl⟩), hid, hsync⟩
    · exact ⟨c, hcalls ▸ (get_set_iff hd).2 (.inr ⟨hij, hc⟩), rfl, rfl⟩

end

/-! The accounting over runs -/

/-- The permits that calls and executor threads have. -/
def permits (s : Pool) : ℕ := total (fun c => c.phase.permit) s.calls

/-- The calls whose permit will not come back. -/
def doomed (s : Pool) : ℕ := total (fun c => c.phase.doomed) s.calls

/-- Every queue in `_inflight` is that of a call that has put it there and not left. -/
def Enlisted (s : Pool) : Prop :=
  ∀ rid i, s.inflight.get? rid = some i →
    ∃ c, s.calls[i]? = some c ∧ c.id = some rid ∧ c.phase.enlisted = true

/-- The step gives up no acquire whose thread runs. -/
def Keeps (s : Pool) : Action → Prop
  | .move i m => ∀ c, s.calls[i]? = some c → c.phase.keeps m = true
  | _ => True

section
variable {s t : Pool} {a : Action}

theorem step_permits (h : Steps s a t) :
    t.max_slots = s.max_slots ∧ t.available + permits t = s.available + permits s := by
  by_cases hmove : ∀ i m, a ≠ .move i m
  · obtain ⟨hmax, ⟨sync, id, ser, p, hcalls, _, _, havail⟩ | ⟨hbare, _, havail⟩⟩ :=
      other_cases h hmove
    · refine ⟨hmax, ?_⟩
      simp only [permits, hcalls, total_concat, Call.new]
      omega
    · have hsum : permits t = permits s := hbare.total fun _ => rfl
      exact ⟨hmax, by omega⟩
  · push Not at hmove
    obtain ⟨i, m, rfl⟩ := hmove
    obtain ⟨c, c', e, hc, hm, ht, havail⟩ := move_cases h
    have hset : total (fun c => c.phase.permit) (s.calls.set i c') + c.phase.permit =
        total (fun c => c.phase.permit) s.calls + c'.phase.permit := total_set hc
    have hperm := Call.move_permit hm
    have hcalls : t.calls = s.calls.set i c' := by rw [ht]
    refine ⟨by rw [ht], ?_⟩
    simp only [permits, hcalls]
    omega

/-- Steps doom calls or leave them; a step that keeps its permit dooms none. -/
theorem step_doomed (h : Steps s a t) :
    doomed s ≤ doomed t ∧ (doomed t = doomed s ↔ Keeps s a) := by
  by_cases hmove : ∀ i m, a ≠ .move i m
  · have hkeep : Keeps s a := by
      cases a with
      | move i m => exact absurd rfl (hmove i m)
      | _ => trivial
    have hsum : doomed t = doomed s := by
      obtain ⟨_, ⟨sync, id, ser, p, hcalls, hp, _⟩ | ⟨hbare, _⟩⟩ := other_cases h hmove
      · simp [doomed, hcalls, Call.new, Phase.first_doomed hp]
      · exact hbare.total fun _ => rfl
    exact ⟨by omega, fun _ => hkeep, fun _ => hsum⟩
  · push Not at hmove
    obtain ⟨i, m, rfl⟩ := hmove
    obtain ⟨c, c', e, hc, hm, ht, _⟩ := move_cases h
    have hset : total (fun c => c.phase.doomed) (s.calls.set i c') + c.phase.doomed =
        total (fun c => c.phase.doomed) s.calls + c'.phase.doomed := total_set hc
    have hle := Call.move_doomed_le hm
    have hiff := Call.move_doomed_iff hm
    have hcalls : t.calls = s.calls.set i c' := by rw [ht]
    have hkeeps : Keeps s (.move i m) ↔ c.phase.keeps m = true := by
      constructor
      · exact fun hk => hk c hc
      · intro hk d hd
        obtain rfl : c = d := Option.some.inj (hc.symm.trans hd)
        exact hk
    rw [hkeeps, ← hiff]
    simp only [doomed, hcalls]
    omega

theorem step_enlisted (h : Steps s a t) (hs : Enlisted s) : Enlisted t := by
  by_cases hmove : ∀ i m, a ≠ .move i m
  · obtain ⟨_, ⟨sync, id, ser, p, hcalls, _, hinf, _⟩ | ⟨hbare, hinf, _⟩⟩ := other_cases h hmove
    · intro rid j hj
      rw [hinf] at hj
      obtain ⟨c, hc, hid, hphase⟩ := hs rid j hj
      exact ⟨c, hcalls ▸ get_concat_iff.2 (.inl hc), hid, hphase⟩
    · intro rid j hj
      rcases hinf with hinf | hinf
      · rw [hinf] at hj
        obtain ⟨c, hc, hid, hphase⟩ := hs rid j hj
        obtain ⟨c', hc', heq⟩ := hbare.get hc
        refine ⟨c', hc', ?_, ?_⟩ <;> rw [Call.of_bare heq]
        · exact hid
        · exact hphase
      · simp [hinf] at hj
  · push Not at hmove
    obtain ⟨i, m, rfl⟩ := hmove
    obtain ⟨c, c', e, hc, hm, ht, _⟩ := move_cases h
    obtain ⟨hins, hrem, hstay⟩ := Call.move_enlisted hm
    obtain ⟨_, hid, _⟩ := Call.move_frame hm
    have hcalls : t.calls = s.calls.set i c' := by rw [ht]
    have hinf : t.inflight = e.inflight i s.inflight := by rw [ht]
    -- who was in `_inflight` and was not taken out by this move
    have hold : ∀ rid j, s.inflight.get? rid = some j → e ≠ .remove (some rid) →
        ∃ d, t.calls[j]? = some d ∧ d.id = some rid ∧ d.phase.enlisted = true := by
      intro rid j hj hne
      obtain ⟨d, hd, hdid, hphase⟩ := hs rid j hj
      by_cases hij : i = j
      · subst hij
        obtain rfl : c = d := Option.some.inj (hc.symm.trans hd)
        refine ⟨c', hcalls ▸ (get_set_iff hc).2 (.inl ⟨rfl, rfl⟩), hid.trans hdid, ?_⟩
        rcases hstay hphase with hin | hout
        · exact hin
        · exact absurd (hdid ▸ hout) hne
      · exact ⟨d, hcalls ▸ (get_set_iff hc).2 (.inr ⟨hij, hd⟩), hdid, hphase⟩
    intro rid j hj
    rw [hinf] at hj
    cases e with
    | insert rid' =>
      obtain ⟨hcid, hin⟩ := hins rid' rfl
      simp only [Effect.inflight, Dict.get?_set] at hj
      split at hj
      · next heq =>
        obtain rfl : i = j := Option.some.inj hj
        exact ⟨c', hcalls ▸ (get_set_iff hc).2 (.inl ⟨rfl, rfl⟩), by rw [hid, hcid, heq], hin⟩
      · exact hold rid j hj (by simp)
    | remove r =>
      cases r with
      | none => exact hold rid j hj (by simp)
      | some rid' =>
        simp only [Effect.inflight, Dict.get?_filterKeys] at hj
        split at hj
        · next hne =>
          refine hold rid j hj fun he => ?_
          obtain rfl : rid' = rid := Option.some.inj (Effect.remove.inj he)
          simp at hne
        · cases hj
    | _ => exact hold rid j hj (by simp)

/-- No more entries than permits that are out: entries are of different calls. -/
theorem Enlisted.length_le (h : Enlisted s) : s.inflight.items.length ≤ permits s := by
  have hget : ∀ p ∈ s.inflight.items, ∃ c, s.calls[p.2]? = some c ∧ c.id = some p.1 ∧
      c.phase.enlisted = true := fun p hp => h p.1 p.2 (Dict.mem_items.1 hp)
  have hnd : (s.inflight.items.map Prod.snd).Nodup := by
    refine List.Nodup.map_on ?_ (List.Nodup.of_map _ s.inflight.nodup)
    intro p hp q hq heq
    obtain ⟨c, hc, hcid, _⟩ := hget p hp
    obtain ⟨d, hd, hdid, _⟩ := hget q hq
    obtain rfl : c = d := Option.some.inj (hc.symm.trans (heq ▸ hd))
    exact Prod.ext (Option.some.inj (hcid.symm.trans hdid)) heq
  have hlen : (s.inflight.items.map Prod.snd).length ≤ permits s := by
    refine length_le_total hnd fun n hn => ?_
    obtain ⟨p, hp, rfl⟩ := List.mem_map.1 hn
    obtain ⟨c, hc, _, hin⟩ := hget p hp
    exact ⟨c, hc, Nat.le_of_eq (Phase.enlisted_permit hin).symm⟩
  simpa using hlen

end

section
variable {concurrency : ℤ} {queue : Bool} {as : List Action} {s : Pool}

theorem runs_permits (h : Runs concurrency queue as s) : s.available + permits s = s.max_slots :=
  Run.invariant (I := fun s => s.available + permits s = s.max_slots)
    (fun {s a t} hs hst => by
      obtain ⟨hmax, hsum⟩ := step_permits hst
      show t.available + permits t = t.max_slots
      have hs' : s.available + permits s = s.max_slots := hs
      omega)
    rfl h

theorem runs_enlisted (h : Runs concurrency queue as s) : Enlisted s :=
  Run.invariant (I := Enlisted) (fun hs hst => step_enlisted hst hs) (fun rid i hi => by cases hi) h

/-- No call is doomed exactly when every step of the run has kept its permit. -/
theorem runs_doomed_eq_zero (h : Runs concurrency queue as s) :
    doomed s = 0 ↔ Run (restrict Keeps Steps) (.init concurrency queue) as s := by
  constructor
  · induction h with
    | nil => exact fun _ => .nil
    | snoc _ hst ih =>
      intro hzero
      obtain ⟨hle, hiff⟩ := step_doomed hst
      exact .snoc (ih (by omega)) ⟨hiff.1 (by omega), hst⟩
  · intro hkeeps
    refine Run.invariant (I := fun s => doomed s = 0) (fun {s a t} hs hst => ?_) rfl hkeeps
    obtain ⟨_, hiff⟩ := step_doomed hst.2
    exact (hiff.2 hst.1).trans hs

end

/-- No call is in progress and no executor thread is in `acquire`. -/
def Settled (s : Pool) : Prop := ∀ c ∈ s.calls, c.phase.settled = true

/-- No more requests are registered than there are slots; and once everything has settled, all
    permits are back exactly when no `send_request` was cancelled with its acquire under way. -/
theorem slots_back_iff {concurrency : ℤ} {queue : Bool} {as : List Action} {s : Pool}
    (h : Runs concurrency queue as s) :
    s.inflight.items.length ≤ s.max_slots ∧
    (Settled s → (s.available = s.max_slots ↔
      Run (restrict Keeps Steps) (.init concurrency queue) as s)) := by
  have hsum := runs_permits h
  have hlen := (runs_enlisted h).length_le
  refine ⟨by omega, fun hsettled => ?_⟩
  have hperm : permits s = doomed s := by
    refine Nat.le_antisymm ?_ ?_
    · exact total_le_total fun c hc => Nat.le_of_eq (Phase.settled_permit (hsettled c hc))
    · exact total_le_total fun c hc => Nat.le_of_eq (Phase.settled_permit (hsettled c hc)).symm
  rw [← runs_doomed_eq_zero h]
  omega

/-- One slot: the task is cancelled when the thread has the permit and the loop has not heard of it. -/
def cancelled_too_late : List Action :=
  [.send_request "a" true, .move 0 .thread_start, .move 0 .thread_acquire, .move 0 .cancel,
    .move 0 .resume_acquire]

theorem cancelled_too_late_leaks :
    ¬ ∀ (concurrency : ℤ) (queue : Bool) (as : List Action) (s : Pool),
      Runs concurrency queue as s → Settled s → s.available = s.max_slots := by
  intro hall
  have hrun : Runs 1 true cancelled_too_late
      { Pool.init 1 true with
        available := 0, calls := [.new false (some "a") true (.abandoned .acquired)] } :=
    Run.of_replay rfl
  exact absurd (hall _ _ _ _ hrun (by simp [Settled, Call.new, Phase.settled])) (by decide)

/-- A call that gets a permit and writes its request. -/
def goes_ahead (i : ℕ) : List Action :=
  [.move i .thread_acquire, .move i .set_result, .move i .resume_acquire, .move i .check,
    .move i .register, .move i .write]

/-- The same call, cancelled before its thread starts, with a second one that runs to its end. -/
def cancelled_in_time : List Action :=
  [.send_request "a" true, .send_request "b" true, .move 0 .cancel, .move 0 .drop,
    .move 0 .resume_acquire, .move 1 .thread_start] ++ goes_ahead 1 ++
    [.emit ⟨some "b", true, 0⟩, .put_line, .move 1 .take, .move 1 .deliver, .move 1 .next,
      .move 1 .pop, .move 1 .release]

theorem slots_back_iff_in_time :
    ∃ s, Runs 1 true cancelled_in_time s ∧ Settled s ∧
      Run (restrict Keeps Steps) (.init 1 true) cancelled_in_time s := by
  have h : Runs 1 true cancelled_in_time
      { Pool.init 1 true with
        emitted := [⟨some "b", true, 0⟩],
        calls := [.new false (some "a") true (.abandoned .dropped),
          { Call.new false (some "b") true .ended with
            received := [⟨some "b", true, 0⟩], request_written := true, answered := true }] } :=
    Run.of_replay rfl
  refine ⟨_, h, ?_, ((slots_back_iff h).2 ?_).1 rfl⟩ <;> simp [Settled, Call.new, Phase.settled]

end LocalVoice.WorkerIO
