import LocalVoice.BackendManager.Sessions
import LocalVoice.BackendManager.Streams
import LocalVoice.Lib.Tasks
import Mathlib.Data.List.Perm.Basic

/-! A lease covers the work done under it. A consumer that waits for the last item of its thread
    leaves `acquire()` after the thread has left the backend, so a busy thread belongs to a body the
    manager counts, and no such body is left when a reload unloads. -/

namespace LocalVoice.BackendManager
open LocalVoice.Lib

/-- The calls of `_release_session` of a whole synthesis. -/
def Synthesis.tokens : Synthesis → ℕ
  | .clone => 1
  | .sentence => 0

section
variable {β ω : Type}

/-! ### One synthesis -/

/-- The thread works and has queued chunks, or it has left and its last item is on the queue. -/
def Stream.Fed (st : Stream β) : Prop :=
  st.worker.busy = true ∧ (∀ x ∈ st.queue, x = .chunk) ∨ st.worker = .left ∧ .done ∈ st.queue

/-- What holds of a synthesis that keeps to the condition. -/
def Stream.Ok (st : Stream β) : Prop :=
  match st.consumer with
  | .acquiring => st.backend = none ∧ (st.worker = .unsubmitted ∧ st.queue = []) ∧
      st.lease_releases = 0 ∧ st.session_releases = 0
  | .unstarted | .preparing => st.backend.isSome ∧ (st.worker = .unsubmitted ∧ st.queue = []) ∧
      st.lease_releases = 0 ∧ st.session_releases = 0
  | .reading => st.backend.isSome ∧ st.Fed ∧ st.lease_releases = 0 ∧ st.session_releases = 0
  | .leaving => st.backend.isSome ∧ st.worker.busy = false ∧
      st.lease_releases = 0 ∧ st.session_releases = 0
  | .closing => st.synthesis = .clone ∧ st.backend.isSome ∧ st.worker.busy = false ∧
      st.lease_releases = 1 ∧ st.session_releases = 0
  | .ended => st.worker.busy = false ∧ st.lease_releases = (if st.backend.isSome then 1 else 0) ∧
      st.session_releases = st.synthesis.tokens
  | .dropped => False

/-- How often the lease and the token of a synthesis were released, and that its thread is out of
    the backend by then. -/
structure Stream.Covered (st : Stream β) : Prop where
  lease : st.lease_releases ≤ 1
  session : st.session_releases ≤ 1
  out : st.lease_releases ≠ 0 ∨ st.session_releases ≠ 0 → st.worker.busy = false
  ended : st.consumer = .ended → st.lease_releases = (if st.backend.isSome then 1 else 0) ∧
    st.session_releases = st.synthesis.tokens

variable {st st' : Stream β} {m : StreamMove}

theorem ok_new (k : Synthesis) : (Stream.new β k).Ok := ⟨rfl, ⟨rfl, rfl⟩, rfl, rfl⟩

/-- A busy thread is read from. -/
theorem Stream.Ok.reading (h : st.Ok) (hb : st.worker.busy = true) : st.consumer = .reading := by
  have hidle : st.worker ≠ .unsubmitted := fun hw => by simp [hw, Worker.busy] at hb
  cases hc : st.consumer with
  | reading => rfl
  | dropped => simp [Stream.Ok, hc] at h
  | acquiring | unstarted | preparing =>
    simp only [Stream.Ok, hc] at h
    exact absurd h.2.1.1 hidle
  | leaving =>
    simp only [Stream.Ok, hc] at h
    exact absurd (h.2.1.symm.trans hb) (by simp)
  | closing =>
    simp only [Stream.Ok, hc] at h
    exact absurd (h.2.2.1.symm.trans hb) (by simp)
  | ended =>
    simp only [Stream.Ok, hc] at h
    exact absurd (h.1.symm.trans hb) (by simp)

theorem Stream.Ok.covered (h : st.Ok) : st.Covered := by
  have hb : st.lease_releases ≠ 0 ∨ st.session_releases ≠ 0 → st.worker.busy = false := by
    intro hne
    by_contra hbusy
    have hc := h.reading (Bool.eq_true_of_not_eq_false hbusy)
    simp only [Stream.Ok, hc] at h
    rcases hne with hne | hne
    · exact hne h.2.2.1
    · exact hne h.2.2.2
  cases hc : st.consumer with
  | dropped => simp [Stream.Ok, hc] at h
  | acquiring | unstarted | preparing | reading | leaving =>
    simp only [Stream.Ok, hc] at h
    obtain ⟨_, _, hl, hs⟩ := h
    exact ⟨by omega, by omega, hb, by simp [hc]⟩
  | closing =>
    simp only [Stream.Ok, hc] at h
    obtain ⟨_, _, _, hl, hs⟩ := h
    exact ⟨by omega, by omega, hb, by simp [hc]⟩
  | ended =>
    simp only [Stream.Ok, hc] at h
    obtain ⟨_, hl, hs⟩ := h
    refine ⟨by rw [hl]; split <;> decide, ?_, hb, fun _ => ⟨hl, hs⟩⟩
    rw [hs]
    cases st.synthesis <;> decide

theorem last_done (k : Synthesis) (raises : Bool) : .done ∈ k.last raises := by
  cases k <;> cases raises <;> decide

/-- No move takes the lease or gives it back. -/
theorem Stream.move_lease (hm : st.move m = some st') : st'.lease = st.lease := by
  cases m with
  | begin | drop | submit | release_session =>
    obtain ⟨hc, hm⟩ := Option.ite_none_right_eq_some.1 hm
    obtain rfl := Option.some.inj hm
    simp [Stream.lease, Consumer.holds, hc]
  | watchdog =>
    obtain ⟨⟨hc, _⟩, hm⟩ := Option.ite_none_right_eq_some.1 hm
    obtain rfl := Option.some.inj hm
    simp [Stream.lease, Consumer.holds, hc]
  | abort =>
    obtain ⟨hc | hc, hm⟩ := Option.ite_none_right_eq_some.1 hm
    all_goals
      obtain rfl := Option.some.inj hm
      simp [Stream.lease, Consumer.holds, hc]
  | read =>
    simp only [Stream.move] at hm
    split at hm
    · obtain rfl := Option.some.inj hm
      rfl
    · next hc _ =>
      obtain rfl := Option.some.inj hm
      simp [Stream.lease, Consumer.holds, hc]
    · next hc _ =>
      obtain rfl := Option.some.inj hm
      simp [Stream.lease, Consumer.holds, hc]
    · cases hm
  | set_stop | start | stops raises =>
    obtain ⟨_, hm⟩ := Option.ite_none_right_eq_some.1 hm
    obtain rfl := Option.some.inj hm
    rfl
  | next =>
    obtain ⟨_, hm⟩ := Option.ite_none_right_eq_some.1 hm
    split at hm
    all_goals
      obtain rfl := Option.some.inj hm
      rfl

/-- The last item of a thread comes after it has left. -/
theorem Stream.Ok.left_of_last {x : Item} {rest : List Item} (h : st.Ok)
    (hc : st.consumer = .reading) (hq : st.queue = x :: rest) (hx : x ≠ .chunk) :
    st.worker.busy = false := by
  simp only [Stream.Ok, hc] at h
  obtain ⟨_, hfed, _⟩ := h
  rcases hfed with ⟨_, hall⟩ | ⟨hw, _⟩
  · exact absurd (hall x (by simp [hq])) hx
  · simp [hw, Worker.busy]

/-- A consumer goes to its `finally`. -/
theorem Stream.Ok.to_leaving {q : List Item} {stop : Bool} (h : st.Ok)
    (hc : st.consumer = .preparing ∨ st.consumer = .reading) (hbusy : st.worker.busy = false) :
    ({ st with consumer := .leaving, queue := q, stop_event := stop } : Stream β).Ok := by
  rcases hc with hc | hc
  all_goals
    simp only [Stream.Ok, hc] at h
    exact ⟨h.1, hbusy, h.2.2⟩

/-- A move that keeps to the condition. -/
theorem Stream.Ok.move (h : st.Ok) (hm : st.move m = some st') (hdrop : m ≠ .drop)
    (hearly : m = .abort ∨ m = .watchdog → st.worker.busy = false) : st'.Ok := by
  cases m with
  | drop => exact absurd rfl hdrop
  | begin =>
    obtain ⟨hc, hm⟩ := Option.ite_none_right_eq_some.1 hm
    obtain rfl := Option.some.inj hm
    simpa only [Stream.Ok, hc] using h
  | submit =>
    obtain ⟨hc, hm⟩ := Option.ite_none_right_eq_some.1 hm
    obtain rfl := Option.some.inj hm
    simp only [Stream.Ok, hc] at h
    obtain ⟨hb, ⟨_, hq⟩, hreleases⟩ := h
    exact ⟨hb, .inl ⟨rfl, by simp [hq]⟩, hreleases⟩
  | read =>
    simp only [Stream.move] at hm
    split at hm
    · next rest hc hq =>
      obtain rfl := Option.some.inj hm
      simp only [Stream.Ok, hc] at h ⊢
      obtain ⟨hb, hfed, hreleases⟩ := h
      refine ⟨hb, ?_, hreleases⟩
      rcases hfed with ⟨hw, hall⟩ | ⟨hw, hdone⟩
      · exact .inl ⟨hw, fun x hx => hall x (by simp [hq, hx])⟩
      · exact .inr ⟨hw, by simpa [hq] using hdone⟩
    · next rest hc hq =>
      obtain rfl := Option.some.inj hm
      exact h.to_leaving (.inr hc) (h.left_of_last hc hq (by decide))
    · next rest hc hq =>
      obtain rfl := Option.some.inj hm
      exact h.to_leaving (.inr hc) (h.left_of_last hc hq (by decide))
    · cases hm
  | abort =>
    obtain ⟨hc, hm⟩ := Option.ite_none_right_eq_some.1 hm
    obtain rfl := Option.some.inj hm
    exact h.to_leaving hc (hearly (.inl rfl))
  | watchdog =>
    obtain ⟨⟨hc, _⟩, hm⟩ := Option.ite_none_right_eq_some.1 hm
    obtain rfl := Option.some.inj hm
    exact h.to_leaving (.inr hc) (hearly (.inr rfl))
  | set_stop =>
    obtain ⟨_, hm⟩ := Option.ite_none_right_eq_some.1 hm
    obtain rfl := Option.some.inj hm
    exact h
  | release_session =>
    obtain ⟨hc, hm⟩ := Option.ite_none_right_eq_some.1 hm
    obtain rfl := Option.some.inj hm
    simp only [Stream.Ok, hc] at h
    obtain ⟨hk, hb, hbusy, hl, hs⟩ := h
    exact ⟨hbusy, by simp [hl, hb], by simp [hs, hk, Synthesis.tokens]⟩
  | start =>
    obtain ⟨hw, hm⟩ := Option.ite_none_right_eq_some.1 hm
    obtain rfl := Option.some.inj hm
    have hc := h.reading (by simp [hw, Worker.busy])
    simp only [Stream.Ok, hc] at h ⊢
    obtain ⟨hb, ⟨_, hall⟩ | ⟨hleft, _⟩, hreleases⟩ := h
    · exact ⟨hb, .inl ⟨rfl, hall⟩, hreleases⟩
    · exact absurd (hw.symm.trans hleft) nofun
  | next =>
    obtain ⟨hw, hm⟩ := Option.ite_none_right_eq_some.1 hm
    have hc := h.reading (by simp [hw, Worker.busy])
    split at hm
    · obtain rfl := Option.some.inj hm
      simp only [Stream.Ok, hc] at h ⊢
      exact ⟨h.1, .inr ⟨rfl, by simp⟩, h.2.2⟩
    · obtain rfl := Option.some.inj hm
      simp only [Stream.Ok, hc] at h ⊢
      obtain ⟨hb, ⟨hbusy, hall⟩ | ⟨hleft, _⟩, hreleases⟩ := h
      · refine ⟨hb, .inl ⟨hbusy, fun x hx => ?_⟩, hreleases⟩
        rcases List.mem_append.1 hx with hold | hnew
        · exact hall x hold
        · exact List.mem_singleton.1 hnew
      · exact absurd (hw.symm.trans hleft) nofun
  | stops raises =>
    obtain ⟨hw, hm⟩ := Option.ite_none_right_eq_some.1 hm
    have hc := h.reading (by simp [hw, Worker.busy])
    obtain rfl := Option.some.inj hm
    simp only [Stream.Ok, hc] at h ⊢
    exact ⟨h.1, .inr ⟨rfl, List.mem_append_right _ (last_done _ raises)⟩, h.2.2⟩

theorem Stream.Ok.refused (h : st.Ok) (hc : st.consumer = .acquiring) :
    st.refused.Ok ∧ st.refused.lease = none := by
  simp only [Stream.Ok, hc] at h
  obtain ⟨hb, ⟨hw, _⟩, hl, hs⟩ := h
  unfold Stream.refused
  split
  all_goals
    next hk =>
      exact ⟨⟨by simp [hw, Worker.busy], by simp [hl, hb], by simp [hs, hk, Synthesis.tokens]⟩, rfl⟩

theorem Stream.Ok.entered (h : st.Ok) (hc : st.consumer = .acquiring) (b : β) (raises : Bool) :
    (st.entered b raises).Ok ∧ (st.entered b raises).lease = some (.inside b) := by
  simp only [Stream.Ok, hc] at h
  obtain ⟨_, ⟨hw, hq⟩, hreleases⟩ := h
  cases hk : st.synthesis with
  | sentence =>
    simp only [Stream.entered, hk]
    exact ⟨⟨rfl, ⟨hw, hq⟩, hreleases⟩, rfl⟩
  | clone =>
    cases raises with
    | true =>
      simp only [Stream.entered, hk]
      exact ⟨⟨rfl, by simp [hw, Worker.busy], hreleases⟩, rfl⟩
    | false =>
      simp only [Stream.entered, hk]
      exact ⟨⟨rfl, ⟨hw, hq⟩, hreleases⟩, rfl⟩

theorem Stream.Ok.exited (h : st.Ok) (hc : st.consumer = .leaving) :
    st.exited.Ok ∧ st.exited.lease = none := by
  simp only [Stream.Ok, hc] at h
  obtain ⟨hb, hbusy, hl, hs⟩ := h
  cases hk : st.synthesis with
  | clone =>
    simp only [Stream.exited, hk]
    exact ⟨⟨rfl, hb, hbusy, by simp [hl], hs⟩, rfl⟩
  | sentence =>
    simp only [Stream.exited, hk]
    exact ⟨⟨hbusy, by simp [hl, hb], by simp [hs, Synthesis.tokens]⟩, rfl⟩

/-! ### The bodies the manager counts -/

/-- The leases when one synthesis is exchanged for another. -/
theorem held_set {l : List (Stream β)} {i : ℕ} (hi : l[i]? = some st) :
    ∃ rest : Multiset (Request β), held l = st.lease.elim rest (· ::ₘ rest) ∧
      ∀ st', held (l.set i st') = st'.lease.elim rest (· ::ₘ rest) := by
  obtain ⟨hlt, hget⟩ := List.getElem?_eq_some_iff.1 hi
  have hset : ∀ st', held (l.set i st') =
      st'.lease.elim (held (l.eraseIdx i)) (· ::ₘ held (l.eraseIdx i)) := by
    intro st'
    have hperm := (List.set_perm_cons_eraseIdx hlt st').filterMap Stream.lease
    rw [held, Multiset.coe_eq_coe.2 hperm]
    cases hlease : st'.lease with
    | none => rw [List.filterMap_cons_none hlease]; rfl
    | some r => rw [List.filterMap_cons_some hlease]; rfl
  refine ⟨_, ?_, hset⟩
  have hself : l.set i st = l := by rw [← hget, List.set_getElem_self]
  rw [← hset, hself]

theorem lease_acquiring (hc : st.consumer = .acquiring) : st.lease = none := by
  rw [Stream.lease, hc]
  rfl

/-- A synthesis without a lease is exchanged. -/
theorem held_set_none {l : List (Stream β)} {i : ℕ} (hi : l[i]? = some st) (hnone : st.lease = none)
    (st' : Stream β) : held (l.set i st') = st'.lease.elim (held l) (· ::ₘ held l) := by
  obtain ⟨others, hbefore, hafter⟩ := held_set hi
  rw [hnone] at hbefore
  rw [hafter, hbefore]
  rfl

theorem held_set_same {l : List (Stream β)} {i : ℕ} (hi : l[i]? = some st)
    (hsame : st'.lease = st.lease) : held (l.set i st') = held l := by
  obtain ⟨others, hbefore, hafter⟩ := held_set hi
  rw [hafter, hsame, hbefore]

theorem waiting_not_held (l : List (Stream β)) : Request.waiting ∉ held l := by
  intro hmem
  obtain ⟨st, _, hlease⟩ := List.mem_filterMap.1 (Multiset.mem_coe.1 hmem)
  unfold Stream.lease at hlease
  split at hlease
  · obtain ⟨b, _, hb⟩ := Option.map_eq_some_iff.1 hlease
    cases hb
  · cases hlease

/-- The manager's invariant; the leases are among its requests; each synthesis is as it should. -/
structure StreamsInv (s : Streams β ω) : Prop where
  manager : Inv s.cfg
  held : held s.streams ≤ s.cfg.requests
  ok : ∀ st ∈ s.streams, st.Ok

theorem streams_inv_init (ref : Option String) (w : ω) : StreamsInv (Streams.init (β := β) ref w) :=
  ⟨inv_init ref, le_rfl, nofun⟩

/-- A lease is among the manager's requests. -/
theorem StreamsInv.counted {s : Streams β ω} {r : Request β} (h : StreamsInv s)
    (hst : st ∈ s.streams) (hlease : st.lease = some r) : r ∈ s.cfg.requests :=
  Multiset.mem_of_le h.held (Multiset.mem_coe.2 (List.mem_filterMap.2 ⟨st, hst, hlease⟩))

/-- The body of a synthesis whose thread is busy is one the manager counts. -/
theorem StreamsInv.busy_counted {s : Streams β ω} (h : StreamsInv s) (hst : st ∈ s.streams)
    (hb : st.worker.busy = true) :
    ∃ b, st.backend = some b ∧ Request.inside b ∈ s.cfg.requests := by
  have hok := h.ok st hst
  have hc := hok.reading hb
  simp only [Stream.Ok, hc] at hok
  obtain ⟨b, hbackend⟩ := Option.isSome_iff_exists.1 hok.1
  refine ⟨b, hbackend, h.counted hst ?_⟩
  rw [Stream.lease, hc, hbackend]
  rfl

variable [DecidableEq β] {sv : Services β ω} {s t : Streams β ω}

theorem streams_inv_step {a : StreamAction β} (h : StreamsInv s)
    (hstep : restrict Waits (StreamStep sv) s a t) : StreamsInv t := by
  obtain ⟨hok, hstep⟩ := hstep
  have hmanager : Inv t.cfg := by
    rcases hstep.manager_step with ⟨hcfg, _⟩ | ⟨c, hc⟩
    · exact hcfg ▸ h.manager
    · exact inv_step h.manager hc
  have hset : ∀ {i : ℕ} {st'}, st'.Ok → ∀ st ∈ s.streams.set i st', st.Ok := by
    intro i st' hst' st hmem
    rcases List.mem_or_eq_of_mem_set hmem with hold | rfl
    · exact h.ok st hold
    · exact hst'
  cases hstep with
  | manager _ hheld => exact ⟨hmanager, hheld, h.ok⟩
  | arrive k =>
    refine ⟨hmanager, ?_, fun st hst => ?_⟩
    · have hsame : held (s.streams ++ [.new β k]) = held s.streams := by
        rw [held, List.filterMap_append]
        exact congrArg _ (List.append_nil _)
      exact hsame ▸ h.held.trans (Multiset.le_cons_self _ _)
    · rcases List.mem_append.1 hst with hold | hnew
      · exact h.ok st hold
      · exact List.mem_singleton.1 hnew ▸ ok_new k
  | @refuse i st rest hi hc hr =>
    obtain ⟨hst', hlease'⟩ := (h.ok st (List.mem_of_getElem? hi)).refused hc
    refine ⟨hmanager, ?_, hset hst'⟩
    have hle : held s.streams ≤ rest :=
      (Multiset.le_cons_of_notMem (waiting_not_held _)).1 (hr ▸ h.held)
    show held (s.streams.set i st.refused) ≤ rest
    rw [held_set_none hi (lease_acquiring hc), hlease']
    exact hle
  | @enter i raises st rest b m hi hc hr he =>
    obtain ⟨hst', hlease'⟩ := (h.ok st (List.mem_of_getElem? hi)).entered hc b raises
    refine ⟨hmanager, ?_, hset hst'⟩
    have hle : held s.streams ≤ rest :=
      (Multiset.le_cons_of_notMem (waiting_not_held _)).1 (hr ▸ h.held)
    show held (s.streams.set i (st.entered b raises)) ≤ .inside b ::ₘ rest
    rw [held_set_none hi (lease_acquiring hc), hlease']
    exact Multiset.cons_le_cons _ hle
  | @move i m st st' hi hm =>
    have hst : st.Ok := h.ok st (List.mem_of_getElem? hi)
    refine ⟨hmanager, ?_, hset (hst.move hm ?_ ?_)⟩
    · show held (s.streams.set i st') ≤ s.cfg.requests
      rw [held_set_same hi (Stream.move_lease hm)]
      exact h.held
    · rintro rfl
      exact hok
    · rintro (rfl | rfl)
      · exact hok st hi
      · exact hok st hi
  | @exit i st rest b hi hc hb hr =>
    obtain ⟨hst', hlease'⟩ := (h.ok st (List.mem_of_getElem? hi)).exited hc
    obtain ⟨others, hbefore, hafter⟩ := held_set hi
    refine ⟨hmanager, ?_, hset hst'⟩
    have hlease : st.lease = some (.inside b) := by
      rw [Stream.lease, hc, hb]
      rfl
    have hle : Request.inside b ::ₘ others ≤ .inside b ::ₘ rest := by
      have hheld := h.held
      rwa [hbefore, hlease, hr] at hheld
    show held (s.streams.set i st.exited) ≤ .leaving ::ₘ rest
    rw [hafter, hlease']
    exact ((Multiset.cons_le_cons_iff _).1 hle).trans (Multiset.le_cons_self _ _)

/-- A reload unloads when no thread is busy. -/
theorem StreamsInv.idle_at_unload {a : Action β} {c : Call β} (h : StreamsInv s)
    (hstep : StreamStep sv s (.manager a) t) (hc : c ∈ a.unloads) :
    ∀ st ∈ s.streams, st.worker.busy = false := by
  intro st hst
  by_contra hbusy
  obtain ⟨b, _, hmem⟩ := h.busy_counted hst (Bool.eq_true_of_not_eq_false hbusy)
  cases hstep with
  | manager hst _ =>
    obtain ⟨_, call, hactive⟩ := hst.drained_of_unloads hc
    exact not_inside_of_counted (h.manager.stage _ hactive).2.2 b hmem

/-! ### The way out -/

/-- The consumer's own steps on its way out. -/
def StreamAction.of_consumer (i : ℕ) : StreamAction β → Prop
  | .move j .read | .move j .release_session | .exit j => j = i
  | _ => False

/-- Synthesis `i` can come to its end by steps of its consumer. -/
def Completes (sv : Services β ω) (s : Streams β ω) (i : ℕ) : Prop :=
  ∃ actions t st, (∀ a ∈ actions, a.of_consumer i) ∧
    Run (restrict Waits (StreamStep sv)) s actions t ∧ t.streams[i]? = some st ∧
    st.consumer = .ended

theorem Completes.step {i : ℕ} {a : StreamAction β} (ha : a.of_consumer i)
    (hstep : restrict Waits (StreamStep sv) s a t) (h : Completes sv t i) : Completes sv s i := by
  obtain ⟨actions, u, st, hof, hrun, hu, hc⟩ := h
  refine ⟨a :: actions, u, st, fun b hb => ?_, Run.append (.single hstep) hrun, hu, hc⟩
  rcases List.mem_cons.1 hb with rfl | hmem
  · exact ha
  · exact hof b hmem

theorem StreamsInv.completes_leaving {i : ℕ} (h : StreamsInv s) (hi : s.streams[i]? = some st)
    (hc : st.consumer = .leaving) : Completes sv s i := by
  have hlt := lt_length_of_get hi
  have hok := h.ok st (List.mem_of_getElem? hi)
  simp only [Stream.Ok, hc] at hok
  obtain ⟨b, hb⟩ := Option.isSome_iff_exists.1 hok.1
  have hmem : Request.inside b ∈ s.cfg.requests := by
    refine h.counted (List.mem_of_getElem? hi) ?_
    rw [Stream.lease, hc, hb]
    rfl
  obtain ⟨rest, hr⟩ := Multiset.exists_cons_of_mem hmem
  have hexit : restrict Waits (StreamStep sv) s (.exit i) _ := ⟨trivial, .exit s hi hc hb hr⟩
  refine Completes.step (by rfl) hexit ?_
  have hget : (s.streams.set i st.exited)[i]? = some st.exited := by simp [hlt]
  cases hk : st.synthesis with
  | sentence => exact ⟨[], _, _, nofun, .nil, hget, by simp [Stream.exited, hk]⟩
  | clone =>
    have hmove : st.exited.move .release_session = some { st.exited with
        consumer := .ended, session_releases := st.exited.session_releases + 1 } :=
      if_pos (by simp [Stream.exited, hk])
    refine Completes.step (a := .move i .release_session) (by rfl) ⟨trivial, .move _ hget hmove⟩ ?_
    exact ⟨[], _, _, nofun, .nil, List.getElem?_set_self (by simpa using hlt), rfl⟩

/-- By the length of the queue: a consumer whose thread has left reads its last item. -/
theorem StreamsInv.completes_reading {s : Streams β ω} {st : Stream β} {i : ℕ} (h : StreamsInv s)
    (hi : s.streams[i]? = some st) (hc : st.consumer = .reading) (hw : st.worker = .left) :
    Completes sv s i := by
  have hlt := lt_length_of_get hi
  have hok := h.ok st (List.mem_of_getElem? hi)
  simp only [Stream.Ok, hc] at hok
  obtain ⟨_, ⟨hbusy, _⟩ | ⟨_, hdone⟩, _⟩ := hok
  · simp [hw, Worker.busy] at hbusy
  · cases hq : st.queue with
    | nil => simp [hq] at hdone
    | cons x rest =>
      cases x with
      | chunk =>
        have hstep : restrict Waits (StreamStep sv) s (.move i .read)
            { s with streams := s.streams.set i { st with queue := rest } } :=
          ⟨trivial, .move _ hi (by simp [Stream.move, hc, hq])⟩
        refine Completes.step (by rfl) hstep ?_
        exact (streams_inv_step h hstep).completes_reading (List.getElem?_set_self hlt) hc hw
      | error | done =>
        have hstep : restrict Waits (StreamStep sv) s (.move i .read)
            { s with streams := s.streams.set i { st with consumer := .leaving, queue := rest } } :=
          ⟨trivial, .move _ hi (by simp [Stream.move, hc, hq])⟩
        refine Completes.step (by rfl) hstep ?_
        exact (streams_inv_step h hstep).completes_leaving (List.getElem?_set_self hlt) rfl
termination_by st.queue.length
decreasing_by simp [hq]

/-- In runs that keep to the condition the lease and the token of each synthesis are released at
    most once, after its thread has left the backend, and exactly once at its end, to which the
    consumer gets by itself once the thread has left; and when a reload unloads, no thread is in a
    backend or on its way into one. -/
theorem lease_covers_work (sv : Services β ω) (ref : Option String) (w₀ : ω)
    {actions : List (StreamAction β)} {s : Streams β ω}
    (hrun : Run (restrict Waits (StreamStep sv)) (.init ref w₀) actions s) :
    (∀ i st, s.streams[i]? = some st → st.Covered ∧
      (st.consumer = .leaving ∨ st.consumer = .reading ∧ st.worker = .left → Completes sv s i)) ∧
    ∀ a t, StreamStep sv s (.manager a) t → ∀ b, Call.unload b ∈ a.unloads →
      ∀ st ∈ s.streams, st.worker.busy = false := by
  have hinv : StreamsInv s :=
    hrun.invariant (I := StreamsInv) streams_inv_step (streams_inv_init ref w₀)
  refine ⟨fun i st hi => ⟨(hinv.ok st (List.mem_of_getElem? hi)).covered, ?_⟩, ?_⟩
  · rintro (hc | ⟨hc, hw⟩)
    · exact hinv.completes_leaving hi hc
    · exact hinv.completes_reading hi hc hw
  · intro a t hstep b hb
    exact hinv.idle_at_unload hstep hb

end

/-! ### Runs with one synthesis -/

/-- Synthesis 0 alone on a started manager. -/
def alone (n : ℤ) (requests : Multiset (Request ℕ)) (st : Stream ℕ) : Streams ℕ Unit :=
  ⟨serving .ready n requests 0 none, (), [st]⟩

def arrive_actions (k : Synthesis) : List (StreamAction ℕ) :=
  [.manager (.start (.built 0)), .manager .started, .arrive k, .enter 0 false]

theorem arrive_run (k : Synthesis) : Run (restrict Waits (StreamStep plain_services))
    (.init none ()) (arrive_actions k)
    (alone 1 (.inside 0 ::ₘ 0) ((Stream.new ℕ k).entered 0 false)) :=
  (((Run.single
    ⟨by trivial, .manager _ (.start_built _ _ (.built 0) rfl rfl) (Multiset.zero_le _)⟩).snoc
    ⟨by trivial, .manager _ (.started _ _ rfl) (Multiset.zero_le _)⟩).snoc
    ⟨by trivial, .arrive ⟨serving .ready 0 0 0 none, (), []⟩ k⟩).snoc
    ⟨by trivial, .enter (alone 0 (.waiting ::ₘ 0) (.new ℕ k)) rfl rfl rfl rfl⟩

theorem move_step {n : ℤ} {requests : Multiset (Request ℕ)} {m : StreamMove} {st st' : Stream ℕ}
    (h : st.move m = some st') :
    StreamStep plain_services (alone n requests st) (.move 0 m) (alone n requests st') :=
  .move (alone n requests st) rfl h

theorem exit_step {st : Stream ℕ} (hc : st.consumer = .leaving) (hb : st.backend = some 0) :
    StreamStep plain_services (alone 1 (.inside 0 ::ₘ 0) st) (.exit 0)
      (alone 1 (.leaving ::ₘ 0) st.exited) :=
  .exit (alone 1 (.inside 0 ::ₘ 0) st) rfl hc hb rfl

/-- Moves of synthesis 0 that cannot break the condition. -/
theorem moves_run {n : ℤ} {requests : Multiset (Request ℕ)} {l : List StreamMove}
    {st st' : Stream ℕ} (h : replay Stream.move st l = some st')
    (hms : ∀ m ∈ l, m ≠ .drop ∧ m ≠ .abort ∧ m ≠ .watchdog) :
    Run (restrict Waits (StreamStep plain_services)) (alone n requests st) (l.map (.move 0))
      (alone n requests st') := by
  induction l generalizing st with
  | nil =>
    obtain rfl : st = st' := Option.some.inj h
    exact .nil
  | cons m l ih =>
    obtain ⟨u, hu, hrest⟩ := Option.bind_eq_some_iff.1 h
    have hwaits : Waits (alone n requests st) (.move 0 m) := by
      obtain ⟨hdrop, habort, hwatchdog⟩ := hms m (List.mem_cons_self ..)
      cases m with
      | drop => exact absurd rfl hdrop
      | abort => exact absurd rfl habort
      | watchdog => exact absurd rfl hwatchdog
      | _ => trivial
    exact Run.append (.single ⟨hwaits, move_step hu⟩)
      (ih hrest fun m' hm' => hms m' (List.mem_cons_of_mem _ hm'))

theorem held_alone {st : Stream ℕ} (h : st.consumer.holds = false)
    (requests : Multiset (Request ℕ)) : held [st] ≤ requests := by
  have hlease : st.lease = none := if_neg (by simp [h])
  rw [held, List.filterMap_cons_none hlease]
  exact Multiset.zero_le _

/-- The manager once the synthesis is over: its lease is counted down, and a reload begins and finds
    nobody in. -/
def reload_actions : List (StreamAction ℕ) :=
  [.manager .leave, .manager (.call none), .manager .begin, .manager .set_draining,
    .manager .closed, .manager .check_drain]

theorem reload_run {st : Stream ℕ} (h : st.consumer.holds = false) :
    Run (restrict Waits (StreamStep plain_services)) (alone 1 (.leaving ::ₘ 0) st) reload_actions
      ⟨serving .draining 0 0 0 (some (.drained plain_call)), (), [st]⟩ := by
  have hheld := held_alone h
  have h2 : Run (restrict Waits (StreamStep plain_services)) (alone 1 (.leaving ::ₘ 0) st)
      [.manager .leave, .manager (.call none), .manager .begin]
      ⟨serving .ready 0 0 0 (some (.entered plain_call)), (), [st]⟩ :=
    ((Run.single ⟨by trivial, .manager _ (.leave _ _ rfl) (hheld _)⟩).snoc
      ⟨by trivial, .manager _ (.call _ _ none rfl) (hheld _)⟩).snoc
      ⟨by trivial, .manager _ (.begin (serving .ready 0 0 (none ::ₘ 0) none) _ rfl rfl rfl)
        (hheld _)⟩
  have h4 : Run (restrict Waits (StreamStep plain_services))
      ⟨serving .ready 0 0 0 (some (.entered plain_call)), (), [st]⟩
      [.manager .set_draining, .manager .closed, .manager .check_drain]
      ⟨serving .draining 0 0 0 (some (.drained plain_call)), (), [st]⟩ :=
    ((Run.single ⟨by trivial, .manager _ (.set_draining _ _ rfl) (hheld _)⟩).snoc
      ⟨by trivial, .manager _
        (.closed (serving .draining 0 0 0 (some (.closing plain_call ∅))) _ rfl) (hheld _)⟩).snoc
      ⟨by trivial, .manager _ (.check_drained
        (serving .draining 0 0 0 (some (.checking plain_call))) _ rfl rfl) (hheld _)⟩
  exact h2.append h4

/-- The swap of that reload unloads backend 0. -/
theorem unload_step (st : Stream ℕ) (h : st.consumer.holds = false) : ∃ a t,
    StreamStep plain_services
      ⟨serving .draining 0 0 0 (some (.drained plain_call)), (), [st]⟩ (.manager a) t ∧
    Call.unload 0 ∈ a.unloads :=
  ⟨_, _, .manager _ (.swap _ _ (.built 1) (.built 1) rfl rfl) (held_alone h _),
    List.mem_cons_self ..⟩

/-- The clone stream to its end: one chunk, then the last item. -/
def exhausted : List StreamMove :=
  [.begin, .submit, .start, .next, .read, .stops false, .read]

theorem lease_covers_work_exhausted :
    ∃ actions s a t, Run (restrict Waits (StreamStep plain_services)) (.init none ()) actions s ∧
      StreamStep plain_services s (.manager a) t ∧ Call.unload 0 ∈ a.unloads ∧
      ∀ st ∈ s.streams, st.worker.busy = false ∧ st.Covered := by
  have hmoves := (arrive_run .clone).append (moves_run (l := exhausted) rfl (by decide))
  have hexit := hmoves.snoc ⟨by trivial, exit_step rfl rfl⟩
  have hrun := (hexit.append (moves_run (l := [.release_session]) rfl (by decide))).append
    (reload_run rfl)
  obtain ⟨a, t, hstep, hunload⟩ :=
    unload_step ⟨.clone, .ended, some 0, .left, [], false, 1, 1⟩ rfl
  obtain ⟨hcovered, hidle⟩ := lease_covers_work plain_services none () hrun
  refine ⟨_, _, a, t, hrun, hstep, hunload, fun st hst => ⟨hidle a t hstep 0 hunload st hst, ?_⟩⟩
  obtain ⟨i, hi⟩ := List.getElem?_of_mem hst
  exact (hcovered i st hi).1

/-- A response body that was never started is not started later, and nothing else releases. -/
theorem dropped_stays {s t : Streams ℕ Unit} {as : List (StreamAction ℕ)} {st : Stream ℕ} {i : ℕ}
    (hrun : Run (StreamStep plain_services) s as t) (hi : s.streams[i]? = some st)
    (hk : st.synthesis = .clone) (hc : st.consumer = .dropped) (hw : st.worker = .unsubmitted) :
    t.streams[i]? = some st := by
  refine hrun.invariant (I := fun s => s.streams[i]? = some st) (fun {s a t} hs hstep => ?_) hi
  have hother : ∀ {j : ℕ} {st₁ st₂ : Stream ℕ}, s.streams[j]? = some st₁ → st₁ ≠ st →
      (s.streams.set j st₂)[i]? = some st := by
    intro j st₁ st₂ hj hne
    have hji : j ≠ i := fun heq => hne (Option.some.inj (hj.symm.trans (heq ▸ hs)))
    rwa [List.getElem?_set_ne hji]
  cases hstep with
  | manager => exact hs
  | arrive k => exact (List.getElem?_append_left (lt_length_of_get hs)).trans hs
  | refuse hj hcj _ => exact hother hj fun heq => by simp [heq, hc] at hcj
  | enter hj hcj _ _ => exact hother hj fun heq => by simp [heq, hc] at hcj
  | exit hj hcj _ _ => exact hother hj fun heq => by simp [heq, hc] at hcj
  | @move j m st₁ st₂ hj hm =>
    refine hother hj fun heq => ?_
    rw [heq] at hm
    cases m <;> simp [Stream.move, hk, hc, hw] at hm

theorem run_of_restrict {s t : Streams ℕ Unit} {as : List (StreamAction ℕ)}
    (h : Run (restrict Waits (StreamStep plain_services)) s as t) :
    Run (StreamStep plain_services) s as t := h.mono fun hst => hst.2

/-- The consumer leaves by `m` after the moves `l`, and a reload comes. -/
theorem reload_after {k : Synthesis} {l : List StreamMove} {m : StreamMove} {st st' : Stream ℕ}
    (hms : replay Stream.move ((Stream.new ℕ k).entered 0 false) l = some st)
    (hkeeps : ∀ m ∈ l, m ≠ .drop ∧ m ≠ .abort ∧ m ≠ .watchdog) (hm : st.move m = some st')
    (hc : st'.consumer = .leaving) (hb : st'.backend = some 0)
    (hout : st'.exited.consumer.holds = false) :
    ∃ actions s a t, Run (StreamStep plain_services) (.init none ()) actions s ∧
      StreamStep plain_services s (.manager a) t ∧ Call.unload 0 ∈ a.unloads ∧
      s.streams = [st'.exited] := by
  have hbefore := run_of_restrict ((arrive_run k).append (moves_run hms hkeeps))
  have hexit := (hbefore.snoc (move_step hm)).snoc (exit_step hc hb)
  obtain ⟨a, t, hstep, hunload⟩ := unload_step st'.exited hout
  exact ⟨_, _, a, t, hexit.append (run_of_restrict (reload_run hout)), hstep, hunload, rfl⟩

/-- A disconnect in the middle of a clone stream, and the watchdog of a sentence: the lease is
    released and the reload unloads the backend that the thread iterates. A clone stream whose body
    is not started never releases anything. -/
theorem unloaded_in_use :
    (∀ k, ∃ actions s a t st, Run (StreamStep plain_services) (.init none ()) actions s ∧
      StreamStep plain_services s (.manager a) t ∧ Call.unload 0 ∈ a.unloads ∧
      s.streams = [st] ∧ st.synthesis = k ∧ st.backend = some 0 ∧ st.worker = .iterating ∧
      st.lease_releases = 1) ∧
    ∃ actions s, Run (StreamStep plain_services) (.init none ()) actions s ∧
      ∀ as t, Run (StreamStep plain_services) s as t → ∃ st, t.streams[0]? = some st ∧
        st.consumer = .dropped ∧ st.lease_releases = 0 ∧ st.session_releases = 0 := by
  constructor
  · intro k
    cases k with
    | clone =>
      obtain ⟨actions, s, a, t, hrun, hstep, hunload, hs⟩ := reload_after (k := .clone)
        (l := [.begin, .submit, .start]) (m := .abort) rfl (by decide) rfl rfl rfl rfl
      exact ⟨actions, s, a, t, _, hrun, hstep, hunload, hs, rfl, rfl, rfl, rfl⟩
    | sentence =>
      obtain ⟨actions, s, a, t, hrun, hstep, hunload, hs⟩ := reload_after (k := .sentence)
        (l := [.submit, .start]) (m := .watchdog) rfl (by decide) rfl rfl rfl rfl
      exact ⟨actions, s, a, t, _, hrun, hstep, hunload, hs, rfl, rfl, rfl, rfl⟩
  · have hdrop := (run_of_restrict (arrive_run .clone)).snoc (move_step (m := .drop) rfl)
    exact ⟨_, _, hdrop, fun as t hrun => ⟨_, dropped_stays hrun rfl rfl rfl rfl, rfl, rfl, rfl⟩⟩

end LocalVoice.BackendManager
