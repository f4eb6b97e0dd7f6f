import LocalVoice.ServerLoop.Advertised

/-! Every tool call is answered once. The socket of an event was assigned before the event is handled,
    so the result of a call waits for, and is written to, its own socket or a later one; while its own
    socket is there, that is the one in `_ws`. -/

namespace LocalVoice.ServerLoop
open LocalVoice.Lib LocalVoice.SlvClient

/-! ### Where events come from -/

/-- Events are queued, and readers read, from sockets that were assigned. -/
structure Sourced (c : Shared) : Prop where
  queued : ∀ q ∈ c.queue, q.1 < c.opened
  reading : ∀ s t, (c.reader s).target = some t → t < c.opened

section
variable {c c' : Shared} {job : Job} {m : Move} {ph ph' : Phase}

theorem Sourced.mono (h : Sourced c) (hopened : c.opened ≤ c'.opened)
    (hqueue : ∀ q ∈ c'.queue, q ∈ c.queue)
    (hreader : ∀ s t, (c'.reader s).target = some t → (c.reader s).target = some t) : Sourced c' where
  queued := fun q hq => Nat.lt_of_lt_of_le (h.queued q (hqueue q hq)) hopened
  reading := fun s t ht => Nat.lt_of_lt_of_le (h.reading s t (hreader s t ht)) hopened

/-- What is put comes from a socket that was assigned. -/
theorem Sourced.append (h : Sourced c) {l : List (ℕ × Event)} {t : ℕ} (ht : t < c.opened)
    (hl : ∀ q ∈ l, q.1 = t) (hopened : c'.opened = c.opened) (hqueue : c'.queue = c.queue ++ l)
    (hreader : ∀ s t, (c'.reader s).target = some t → (c.reader s).target = some t) : Sourced c' where
  queued := by
    intro q hq
    rw [hqueue] at hq
    rw [hopened]
    rcases List.mem_append.1 hq with hq | hq
    · exact h.queued q hq
    · rw [hl q hq]
      exact ht
  reading := by
    intro s u hu
    rw [hopened]
    exact h.reading s u (hreader s u hu)

theorem target_set_reader {s u t : ℕ} {r : Reader} (hr : r.target = none)
    (h : ((c.set_reader s r).reader u).target = some t) : (c.reader u).target = some t := by
  by_cases hus : u = s
  · subst hus
    simp [Shared.set_reader, hr] at h
  · simpa [Shared.set_reader, Function.update_of_ne hus] using h

theorem Sourced.moved (h : Sourced c) (hmoved : Moved c job m ph ph' c') : Sourced c' := by
  have hdetach : Sourced c.detach :=
    h.mono (Nat.le_refl _) (fun _ => id) fun s t ht => target_cancelled s ▸ ht
  have hdrain : ∀ {d : Shared} (w : Option ℕ), Sourced d → Sourced (d.drain w) := by
    intro d w hd
    refine hd.mono (Nat.le_refl _) ?_ fun _ _ => id
    cases w <;> simp [Shared.drain]
  cases hmoved with
  | tear_wait => exact hdetach
  | tear => exact hdetach
  | reject_wait => exact hdetach.mono (Nat.le_refl _) (fun _ => id) fun _ _ => id
  | reject => exact hdrain _ (hdetach.mono (Nat.le_refl _) (fun _ => id) fun _ _ => id)
  | reader_buried => exact hdrain _ h
  | ws_buried => exact hdrain _ (h.mono (Nat.le_refl _) (fun _ => id) fun _ _ => id)
  | connected => exact h.mono (Nat.le_succ _) (fun _ => id) fun _ _ => id
  | configured => exact h.mono (Nat.le_refl _) (fun _ => id) fun _ _ => target_set_reader rfl
  | _ => exact h.mono (Nat.le_refl _) (fun _ => id) fun _ _ => id

theorem Sourced.started (h : Sourced c) (job : Job) : Sourced (job.start c).2 := by
  cases job with
  | connect =>
    simp only [Job.start]
    split
    · exact h
    · exact h.mono (Nat.le_refl _) (fun _ => id) fun _ _ => id
  | close => exact h.mono (Nat.le_refl _) (fun _ => id) fun s t ht => target_cancelled s ▸ ht
  | _ => exact h

theorem Sourced.happened {a : SlvClient.Label} (h : Sourced c) (hlatest : WsLatest c)
    (hh : Happened c a c') : Sourced c' := by
  cases hh with
  | die => exact h.mono (Nat.le_refl _) (fun _ => id) fun _ _ => id
  | @start s t hreader hws =>
    refine ⟨h.queued, fun u v hv => ?_⟩
    by_cases hus : u = s
    · subst hus
      have htarget : t = v := by simpa [Shared.set_reader, Reader.target] using hv
      have hlast := hlatest t hws
      show v < c.opened
      omega
    · exact h.reading u v (by simpa [Shared.set_reader, Function.update_of_ne hus] using hv)
  | start_dead => exact h.mono (Nat.le_refl _) (fun _ => id) fun _ _ => target_set_reader rfl
  | @frame s t f hreader =>
    have ht : t < c.opened := h.reading s t (by simp [hreader, Reader.target])
    cases f with
    | binary data =>
      refine h.append ht ?_ rfl rfl fun _ _ => id
      simp
    | tool_call => exact h.append ht (by simp) rfl rfl fun _ _ => id
    | other => exact h.append ht (by simp) rfl rfl fun _ _ => id
    | crash => exact h.append ht (by simp) rfl rfl fun _ _ => target_set_reader (c := c) rfl
  | @reader_end s t normal code hreader hlive =>
    have ht : t < c.opened := h.reading s t (by simp [hreader, Reader.target])
    cases normal with
    | true => exact h.mono (Nat.le_refl _) (fun _ => id) fun _ _ => target_set_reader (c := c) rfl
    | false => exact h.append ht (by simp) rfl rfl fun _ _ => target_set_reader (c := c) rfl
  | dropped => exact h.mono (Nat.le_refl _) (fun _ => id) fun _ _ => target_set_reader rfl
  | cancelled => exact h.mono (Nat.le_refl _) (fun _ => id) fun _ _ => target_set_reader (c := c) rfl
  | cleared => exact h.mono (Nat.le_refl _) (fun _ => id) fun _ _ => id

end

/-! ### Answers -/

/-- What a tool task hands over says whether its tool succeeded. -/
def State.Prepared (c : State) (i : ℕ) : Prop :=
  ∃ r o, c.reply i = some r ∧ c.outcome i = some o ∧ r.ok = o.succeeded

/-- Where the result of a call that came on `s` stands. -/
def State.Placed (c : State) (i s : ℕ) : Phase → Prop
  | .handling => True
  | .waiting => c.Prepared i
  | .writing w => s ≤ w ∧ c.Prepared i
  | .ended => True
  | _ => False

/-- An answer of a call that is over, to its own socket or a later one. -/
structure Told (c : State) (a : Answer) : Prop where
  origin : ∃ s, c.origin a.call = some s ∧ s ≤ a.socket
  ended : c.finished a.call = true
  outcome : ∃ o, c.outcome a.call = some o ∧ a.ok = o.succeeded

/-- Calls wait with what they answer, each was answered once, and none was lost. -/
structure Answering (c : State) : Prop where
  sourced : Sourced c.client.shared
  awaited : ∀ i s e, c.dispatching = some (i, s, e) → s < c.client.shared.opened
  placed : ∀ (i : ℕ) s ph, c.client.tasks[i]? = some ⟨.send (.tool_result s), ph⟩ →
    s < c.client.shared.opened ∧ c.Placed i s ph
  told : ∀ a ∈ c.answers, Told c a
  once : (c.answers.map Answer.call).Nodup
  none_lost : c.lost = []

section
variable {c c' : State} {i s : ℕ} {m : Move} {t : Task} {ph ph' : Phase} {a : Answer}

theorem origin_iff : c.origin i = some s ↔ ∃ ph, c.client.tasks[i]? = some ⟨.send (.tool_result s), ph⟩ := by
  constructor
  · intro h
    simp only [State.origin, State.task] at h
    split at h
    · next u ph hu =>
      obtain rfl := Option.some.inj h
      exact ⟨ph, hu⟩
    · cases h
  · rintro ⟨ph, hph⟩
    simp [State.origin, State.task, hph]

theorem ended_stays {d d' : Shared} {job : Job} : ¬ Moved d job m .ended ph d' := by
  rintro ⟨⟩
  assumption

theorem wrote_ended {d d' : Shared} {job : Job} (h : Moved d job .wrote (.writing s) ph d') : ph = .ended := by
  cases h <;> rfl

theorem moved_opened {d d' : Shared} {job : Job} (h : Moved d job m ph ph' d') : d.opened ≤ d'.opened := by
  cases moved_ws h with
  | same _ hopened => exact Nat.le_of_eq hopened.symm
  | cleared _ hopened => exact Nat.le_of_eq hopened.symm
  | assigned _ hopened => exact hopened ▸ Nat.le_succ _

/-- What was told stays told. -/
theorem Told.frame (h : Told c a) (htask : ∀ t, c.client.tasks[a.call]? = some t → t.phase = .ended →
    c'.client.tasks[a.call]? = some t) (houtcome : c'.outcome a.call = c.outcome a.call) : Told c' a := by
  obtain ⟨s, hs, hle⟩ := h.origin
  obtain ⟨ph, hph⟩ := origin_iff.1 hs
  obtain rfl : ph = .ended := (finished_iff hph).1 h.ended
  have hsame := htask _ hph rfl
  exact ⟨⟨s, origin_iff.2 ⟨_, hsame⟩, hle⟩, (finished_iff hsame).2 rfl, houtcome ▸ h.outcome⟩

theorem State.Placed.frame (h : c.Placed i s ph) (hreply : c'.reply i = c.reply i)
    (houtcome : c'.outcome i = c.outcome i) : c'.Placed i s ph := by
  cases ph <;> simp_all [State.Placed, State.Prepared]

/-- A move of a tool task. -/
theorem placed_moved {d' : Shared} (hlatest : WsLatest c.client.shared) (hs : s < c.client.shared.opened)
    (h : c.Placed i s ph) (hm : Moved c.client.shared (.send (.tool_result s)) m ph ph' d')
    (hhandled : m = .go → ph = .handling → c.Prepared i) : c.Placed i s ph' := by
  cases ph with
  | handling =>
    cases hm with
    | handled => exact hhandled rfl rfl
    | stopped => trivial
  | waiting =>
    cases hm with
    | @send_open p w hjob hws =>
      have hlast := hlatest w hws
      exact ⟨by omega, h⟩
    | send_dead => trivial
    | revive hjob hws hclosed hconnect =>
      cases hjob
      cases hconnect
    | too_late hjob => cases hjob
    | lock hjob => cases hjob
    | stopped => trivial
  | writing w => cases hm <;> trivial
  | ended => exact absurd hm ended_stays
  | _ => exact h.elim

/-- A call whose socket is there is not lost. -/
theorem not_lost {d' : Shared} (hlatest : WsLatest c.client.shared)
    (hwriting : ∀ w, ph = .writing w → w < c.client.shared.opened)
    (h : c.Placed i s ph) (hm : Moved c.client.shared (.send (.tool_result s)) m ph .ended d')
    (hws : c.client.shared.ws = some s) (hlive : c.client.shared.live s = true)
    (hwrote : ∀ w, ph = .writing w → m ≠ .wrote) (hcut : m ≠ .cancel ∧ m ≠ .fail) : ph = .ended := by
  cases ph with
  | handling =>
    cases hm with
    | stopped hstops =>
      rcases stops_move hstops with hcancel | hfail
      · exact absurd hcancel hcut.1
      · exact absurd hfail hcut.2
  | waiting =>
    cases hm with
    | send_dead hjob hnone =>
      rw [hws] at hnone
      cases hnone
    | too_late hjob => cases hjob
    | stopped hstops =>
      rcases stops_move hstops with hcancel | hfail
      · exact absurd hcancel hcut.1
      · exact absurd hfail hcut.2
  | writing w =>
    have hlast := hlatest s hws
    have hw := hwriting w rfl
    obtain rfl : s = w := Nat.le_antisymm h.1 (by omega)
    cases hm with
    | wrote_result => exact absurd rfl (hwrote _ rfl)
    | wrote => exact absurd rfl (hwrote _ rfl)
    | failed hdead =>
      rw [hlive] at hdead
      cases hdead
    | stopped hstops =>
      rcases stops_move hstops with hcancel | hfail
      · exact absurd hcancel hcut.1
      · exact absurd hfail hcut.2
  | ended => rfl
  | _ => exact h.elim

/-- A move of a task keeps the calls answered. -/
theorem Answering.turned (h : Answering c) (hadv : Advertising c) (ht : Turned c i m t ph c')
    (hsettled : settled c i m = true) (hhandled : m = .go → t.phase = .handling → c.Prepared i) :
    Answering c' := by
  obtain ⟨job, phase⟩ := t
  have hopened := moved_opened ht.moved
  have hset : ∀ (j : ℕ) u, c'.client.tasks[j]? = some u ↔
      i = j ∧ (⟨job, ph⟩ : Task) = u ∨ i ≠ j ∧ c.client.tasks[j]? = some u := by
    intro j u
    rw [ht.tasks]
    exact get_set_iff ht.task
  have htold : ∀ b, Told c b → Told c' b := by
    refine fun b hb => hb.frame (fun u hu hend => ?_) (by rw [ht.outcome])
    refine (hset _ u).2 (Or.inr ⟨?_, hu⟩)
    rintro rfl
    obtain rfl := Option.some.inj (ht.task.symm.trans hu)
    obtain rfl : phase = .ended := hend
    exact ended_stays ht.moved
  refine ⟨h.sourced.moved ht.moved, ?_, ?_, ?_, ?_, ?_⟩
  · intro j s e hj
    exact Nat.lt_of_lt_of_le (h.awaited j s e (ht.dispatching ▸ hj)) hopened
  · intro j s ph' hj
    rcases (hset _ _).1 hj with ⟨rfl, heq⟩ | ⟨-, hj⟩
    · cases heq
      obtain ⟨hs, hplaced⟩ := h.placed i s phase ht.task
      have hnow := placed_moved hadv.gens.latest hs hplaced ht.moved hhandled
      exact ⟨Nat.lt_of_lt_of_le hs hopened, hnow.frame (by rw [ht.reply]) (by rw [ht.outcome])⟩
    · obtain ⟨hs, hplaced⟩ := h.placed j s ph' hj
      exact ⟨Nat.lt_of_lt_of_le hs hopened, hplaced.frame (by rw [ht.reply]) (by rw [ht.outcome])⟩
  · intro b hb
    cases ht.noted with
    | @answered s hadvert hphase hm horigin hadvertised hcarried hanswers hlost =>
      rw [hanswers] at hb
      rcases List.mem_append.1 hb with hb | hb
      · exact htold b (h.told b hb)
      · obtain rfl := List.mem_singleton.1 hb
        obtain ⟨s', hs'⟩ := Option.isSome_iff_exists.1 horigin
        obtain ⟨ph', hph'⟩ := origin_iff.1 hs'
        cases ht.task.symm.trans hph'
        obtain rfl : phase = .writing s := hphase
        obtain ⟨-, hle, r, o, hr, ho, hok⟩ := h.placed i s' _ ht.task
        obtain rfl : ph = .ended := wrote_ended (hm ▸ ht.moved)
        have hnow := (hset i ⟨.send (.tool_result s'), .ended⟩).2 (Or.inl ⟨rfl, rfl⟩)
        exact ⟨⟨s', origin_iff.2 ⟨_, hnow⟩, hle⟩, (finished_iff hnow).2 rfl,
          ⟨o, by rw [ht.outcome]; exact ho, by simp [hr, hok]⟩⟩
    | advertised _ _ _ _ _ hanswers => exact htold b (h.told b (hanswers ▸ hb))
    | dropped _ _ hanswers => exact htold b (h.told b (hanswers ▸ hb))
    | lost _ _ _ _ _ _ hanswers => exact htold b (h.told b (hanswers ▸ hb))
    | same _ _ hanswers => exact htold b (h.told b (hanswers ▸ hb))
  · cases ht.noted with
    | @answered s hadvert hphase hm horigin hadvertised hcarried hanswers hlost =>
      rw [hanswers, List.map_append]
      refine List.nodup_append.2 ⟨h.once, by simp, fun j hj k hk => ?_⟩
      obtain rfl : k = i := by simpa using hk
      rintro rfl
      obtain ⟨b, hb, rfl⟩ := List.mem_map.1 hj
      have hend := (finished_iff ht.task).1 (h.told b hb).ended
      rw [hend] at hphase
      cases hphase
    | advertised _ _ _ _ _ hanswers => exact hanswers ▸ h.once
    | dropped _ _ hanswers => exact hanswers ▸ h.once
    | lost _ _ _ _ _ _ hanswers => exact hanswers ▸ h.once
    | same _ _ hanswers => exact hanswers ▸ h.once
  · cases ht.noted with
    | lost hadvert hwrote hph hown =>
      obtain ⟨s, hs, halive⟩ := (Option.any_eq_true _ _).1 hown
      simp only [Bool.and_eq_true, decide_eq_true_eq] at halive
      obtain ⟨ph', hph'⟩ := origin_iff.1 hs
      cases ht.task.symm.trans hph'
      subst hph
      simp only [settled, hadvert, hown, Bool.not_true, Bool.or_false, Bool.not_eq_true',
        Bool.or_eq_false_iff, decide_eq_false_iff_not] at hsettled
      have hend := not_lost hadv.gens.latest
        (fun w hw => (hadv.gens.known w _ (hadv.gens.writing i _ w ht.task hw)).1)
        (h.placed i s _ ht.task).2 ht.moved halive.1 halive.2 hwrote ⟨hsettled.1.2, hsettled.2⟩
      subst hend
      exact absurd ht.moved ended_stays
    | advertised _ _ _ _ _ _ hlost => exact hlost ▸ h.none_lost
    | dropped _ _ _ hlost => exact hlost ▸ h.none_lost
    | answered _ _ _ _ _ _ _ hlost => exact hlost ▸ h.none_lost
    | same _ _ _ hlost => exact hlost ▸ h.none_lost

/-- New tasks are no results, or calls from a socket that was assigned. -/
theorem Answering.framed {l : List Task} (h : Answering c)
    (hsourced : Sourced c'.client.shared) (hopened : c.client.shared.opened ≤ c'.client.shared.opened)
    (htasks : c'.client.tasks = c.client.tasks ++ l)
    (hl : ∀ t ∈ l, ∀ s, t.job = .send (.tool_result s) →
      t.phase = .handling ∧ s < c'.client.shared.opened)
    (hawaited : ∀ i s e, c'.dispatching = some (i, s, e) → s < c'.client.shared.opened)
    (hreply : c'.reply = c.reply) (houtcome : c'.outcome = c.outcome) (hanswers : c'.answers = c.answers)
    (hlost : c'.lost = c.lost) : Answering c' := by
  have hkept : ∀ (j : ℕ) u, c.client.tasks[j]? = some u → c'.client.tasks[j]? = some u := by
    intro j u hu
    rw [htasks, List.getElem?_append_left (List.getElem?_eq_some_iff.1 hu).1]
    exact hu
  refine ⟨hsourced, hawaited, ?_, ?_, by rw [hanswers]; exact h.once, by rw [hlost]; exact h.none_lost⟩
  · intro j s ph' hj
    by_cases hlt : j < c.client.tasks.length
    · rw [htasks, List.getElem?_append_left hlt] at hj
      obtain ⟨hs, hplaced⟩ := h.placed j s ph' hj
      exact ⟨Nat.lt_of_lt_of_le hs hopened, hplaced.frame (by rw [hreply]) (by rw [houtcome])⟩
    · rw [htasks, List.getElem?_append_right (Nat.le_of_not_lt hlt)] at hj
      obtain ⟨hphase, hs⟩ := hl _ (List.mem_of_getElem? hj) s rfl
      obtain rfl : ph' = .handling := hphase
      exact ⟨hs, trivial⟩
  · intro b hb
    refine (h.told b (hanswers ▸ hb)).frame (fun u hu _ => hkept _ u hu) (by rw [houtcome])

/-- A tool came to its end. -/
theorem Answering.updated (h : Answering c) (ht : c.client.tasks[i]? = some t) (hphase : t.phase = .handling)
    (hclient : c'.client = c.client) (hdispatching : c'.dispatching = c.dispatching)
    (hreply : ∀ j, j ≠ i → c'.reply j = c.reply j) (houtcome : ∀ j, j ≠ i → c'.outcome j = c.outcome j)
    (hanswers : c'.answers = c.answers) (hlost : c'.lost = c.lost) : Answering c' := by
  refine ⟨hclient ▸ h.sourced, by rw [hclient, hdispatching]; exact h.awaited, ?_, ?_,
    by rw [hanswers]; exact h.once, by rw [hlost]; exact h.none_lost⟩
  · intro j s ph' hj
    rw [hclient] at hj ⊢
    obtain ⟨hs, hplaced⟩ := h.placed j s ph' hj
    refine ⟨hs, ?_⟩
    by_cases hji : j = i
    · subst hji
      obtain rfl := Option.some.inj (ht.symm.trans hj)
      obtain rfl : ph' = .handling := hphase
      trivial
    · exact hplaced.frame (hreply j hji) (houtcome j hji)
  · intro b hb
    have htold := h.told b (hanswers ▸ hb)
    refine htold.frame (fun u hu _ => by rw [hclient]; exact hu) (houtcome _ ?_)
    intro hbi
    have hend := htold.ended
    rw [hbi] at hend
    have hphase' : t.phase = .ended := (finished_iff ht).1 hend
    rw [hphase] at hphase'
    cases hphase'

theorem Answering.handle (h : Answering c) (hs : s < c.client.shared.opened) (e : Event) :
    Answering (c.handle s e) := by
  simp only [State.handle]
  split
  · refine h.framed (l := [⟨.send (.tool_result s), .handling⟩]) h.sourced (Nat.le_refl _) rfl ?_ h.awaited
      rfl rfl rfl rfl
    intro u hu s' hjob
    obtain rfl := List.mem_singleton.1 hu
    cases hjob
    exact ⟨rfl, hs⟩
  · exact h

theorem Answering.advertise (h : Answering c) (complete : Bool) : Answering (c.advertise complete) := by
  refine h.framed (l := [⟨.send (.other true), .waiting⟩]) h.sourced (Nat.le_refl _) rfl ?_ h.awaited
    rfl rfl rfl rfl
  intro u hu s' hjob
  obtain rfl := List.mem_singleton.1 hu
  cases hjob

theorem Answering.pop {q : ℕ × Event} {rest : List (ℕ × Event)} (h : Answering c)
    (hqueue : c.client.shared.queue = q :: rest) : Answering (c.pop rest) := by
  refine h.framed (l := []) ?_ (Nat.le_refl _) (List.append_nil _).symm (by simp) h.awaited rfl rfl rfl rfl
  refine h.sourced.mono (Nat.le_refl _) (fun q' hq' => ?_) fun _ _ => id
  rw [hqueue]
  exact List.mem_cons_of_mem _ hq'

/-- A step of the client that is no move of a task. -/
theorem Answering.client {b : SlvClient.Label} {client : Client} (h : Answering c) (hadv : Advertising c)
    (hstep : c.client.step b = some client) (hmove : ∀ i m, b ≠ .task i m) (htake : b ≠ .take) :
    Answering { c with client := client } := by
  cases step_cases hstep with
  | @call job hjob =>
    have hopened : c.client.shared.opened ≤ (job.start c.client.shared).2.opened := by
      cases start_ws job (c := c.client.shared) with
      | same _ hopened => exact Nat.le_of_eq hopened.symm
      | cleared _ hopened => exact Nat.le_of_eq hopened.symm
      | assigned _ hopened => exact hopened ▸ Nat.le_succ _
    refine h.framed (h.sourced.started job) hopened rfl ?_
      (fun i s e hi => Nat.lt_of_lt_of_le (h.awaited i s e hi) hopened) rfl rfl rfl rfl
    intro u hu s' hjob'
    obtain rfl := List.mem_singleton.1 hu
    exact absurd hjob' (hjob s')
  | task => exact absurd rfl (hmove _ _)
  | @happened _ shared hh =>
    have hopened : c.client.shared.opened ≤ shared.opened := Nat.le_of_eq (happened_sockets hh).2.1.symm
    exact h.framed (l := []) (h.sourced.happened hadv.gens.latest hh) hopened (List.append_nil _).symm
      (by simp) (fun i s e hi => Nat.lt_of_lt_of_le (h.awaited i s e hi) hopened) rfl rfl rfl rfl
  | take => exact absurd rfl htake
  | take_call => exact absurd rfl htake

/-- Every attended step keeps the calls answered. -/
theorem Answering.acted {str : PyVal → String} {b : Label} (h : Answering c) (hadv : Advertising c)
    (hattended : attended str c b = true) (hacted : Acted str c b c') : Answering c' := by
  cases hacted with
  | @move i m m' t ph _ ht hm hgo =>
    simp only [attended, Bool.and_eq_true] at hattended
    rcases hm with ⟨rfl, -⟩ | ⟨rfl, hraises⟩
    · exact h.turned hadv ht hattended.2 fun hm hphase => absurd hphase (hgo hm)
    · exact h.turned hadv ht (settled_cut hraises hattended.2) (by simp)
  | client hstep hmove htake => exact h.client hadv hstep hmove htake
  | advertise => exact h.advertise _
  | @dispatch complete s e rest hqueue hgen =>
    have hs : s < c.client.shared.opened := h.sourced.queued (s, e) (by simp [hqueue])
    exact (h.pop hqueue).handle hs e
  | @readvertise complete s e rest hqueue hgen =>
    have hs : s < c.client.shared.opened := h.sourced.queued (s, e) (by simp [hqueue])
    have hnow := (h.pop hqueue).advertise complete
    refine hnow.framed (l := []) hnow.sourced (Nat.le_refl _) (List.append_nil _).symm (by simp) ?_ rfl rfl
      rfl rfl
    rintro j s' e' ⟨⟩
    exact hs
  | @handle i s e hdispatching =>
    have hnow := h.handle (h.awaited i s e hdispatching) e
    exact hnow.framed (l := []) hnow.sourced (Nat.le_refl _) (List.append_nil _).symm (by simp) (by simp) rfl
      rfl rfl rfl
  | @cut i o t ph _ horigin hphase hreply ht =>
    have hother : ∀ j, j ≠ i → Function.update c.outcome i (some o) j = c.outcome j :=
      fun j hji => Function.update_of_ne hji _ _
    have hnow : Answering { c with outcome := Function.update c.outcome i (some o) } :=
      h.updated ht.task hphase rfl rfl (fun _ _ => rfl) hother rfl rfl
    exact hnow.turned ⟨hadv.gens, hadv.known, hadv.whole, hadv.sends⟩ ht
      (settled_unread hadv horigin (unread_of_cut hattended hreply)) (by simp)
  | @returns i o r t ph _ horigin hphase hreply ht =>
    have hnow : Answering { c with
        outcome := Function.update c.outcome i (some o)
        reply := Function.update c.reply i (some r) } :=
      h.updated ht.task hphase rfl rfl (fun j hji => Function.update_of_ne hji _ _)
        (fun j hji => Function.update_of_ne hji _ _) rfl rfl
    have hadv' : Advertising { c with
        outcome := Function.update c.outcome i (some o)
        reply := Function.update c.reply i (some r) } := ⟨hadv.gens, hadv.known, hadv.whole, hadv.sends⟩
    exact hnow.turned hadv' ht (settled_handling hadv' horigin ht.task hphase) fun _ _ =>
      ⟨r, o, Function.update_self .., Function.update_self .., handled_ok hreply⟩

theorem answering_init (v2 : Bool) : Answering (State.init v2) where
  sourced := ⟨by simp [State.init, Client.init, Shared.init],
    by simp [State.init, Client.init, Shared.init, Reader.target]⟩
  awaited := by simp [State.init]
  placed := by simp [State.init, Client.init]
  told := by simp [State.init]
  once := by simp [State.init]
  none_lost := rfl

end

/-! ### Runs -/

/-- The recorded generation is that of a socket with the tools, and an event of the current session
    whose socket has none is kept until they are sent. Each answer is that of one call, and says `ok`
    if its tool succeeded; no call ended without an answer while its socket was there. -/
structure Served (str : PyVal → String) (c : State) : Prop where
  advertised : ∀ g, c.advertised_gen = some g → ∃ s ∈ c.carried, c.gen s = some g
  readvertised : ∀ complete s e rest c', c.client.shared.queue = (s, e) :: rest →
    attended str c (.dispatch complete) = true → c.next str (.dispatch complete) = some c' →
    c.client.shared.ws = some s ∨ c.gen s = some c.client.shared.session_gen → s ∉ c.carried →
    ∃ i, c'.dispatching = some (i, s, e) ∧ c'.advert i = some true
  told : ∀ a ∈ c.answers, Told c a
  once : (c.answers.map Answer.call).Nodup
  none_lost : c.lost = []

/-- An event whose socket does not carry the tools waits for them. -/
theorem Advertising.readvertised {str : PyVal → String} {c c' : State} {complete : Bool} {s : ℕ}
    {e : Event} {rest : List (ℕ × Event)} (h : Advertising c)
    (hqueue : c.client.shared.queue = (s, e) :: rest)
    (hattended : attended str c (.dispatch complete) = true)
    (hnext : c.next str (.dispatch complete) = some c')
    (hs : c.client.shared.ws = some s ∨ c.gen s = some c.client.shared.session_gen)
    (hcarried : s ∉ c.carried) : ∃ i, c'.dispatching = some (i, s, e) ∧ c'.advert i = some true := by
  simp only [attended, hqueue, Bool.and_eq_true, Bool.or_eq_true, decide_eq_true_eq] at hattended
  obtain ⟨hcomplete, htrial⟩ := hattended
  have hgen : c.gen s = some c.client.shared.session_gen := by
    rcases hs with hws | hgen
    · rcases h.gens.current s hws with hgen | ⟨i, t, ht, hs⟩
      · exact hgen
      · have hall := List.all_eq_true.1 htrial t (List.mem_of_getElem? ht)
        simp [hs] at hall
    · exact hgen
  have hnew : c.advertised_gen ≠ some c.client.shared.session_gen := by
    intro hold
    obtain ⟨u, hu, hgu⟩ := h.known _ hold
    obtain rfl := h.gens.unique u s _ hgu hgen
    exact hcarried hu
  obtain rfl : complete = true := hcomplete.resolve_right hnew
  cases next_cases hnext with
  | dispatch _ hgen => exact absurd hgen hnew
  | @readvertise complete s' e' rest' hqueue' =>
    cases hqueue.symm.trans hqueue'
    refine ⟨c.client.tasks.length, rfl, ?_⟩
    have hfresh : c.adverts.find? (fun a => a.1 = c.client.tasks.length) = none := by
      refine List.find?_eq_none.2 fun a ha => ?_
      obtain ⟨ph, hph⟩ := h.sends a ha
      have hlt := (List.getElem?_eq_some_iff.1 hph).1
      simpa using Nat.ne_of_lt hlt
    have hsame : (c.pop rest).adverts = c.adverts := rfl
    have hlength : (c.pop rest).client.tasks.length = c.client.tasks.length := rfl
    simp [State.advert, State.advertise, List.find?_append, hsame, hlength, hfresh]

/-- A session opens, and its first event waits for the tools. -/
def first_event (f : Shared.Frame) : List Label :=
  [.client (.call .connect), .client (.task 0 .connected), .client (.task 0 (.configured none)),
    .client (.reader_start 0), .client (.task 0 .healthy), .client (.frame 0 f), .dispatch true,
    .client (.task 1 .go)]

/-- It is a tool call, that comes to its end. -/
def one_call (o : Outcome) : List Label :=
  first_event .tool_call ++ [.client (.task 1 .wrote), .handle, .returns 2 o, .client (.task 2 .go)]

end LocalVoice.ServerLoop
