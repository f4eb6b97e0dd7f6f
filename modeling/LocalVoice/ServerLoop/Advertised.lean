import LocalVoice.ServerLoop.Generations

/-! A generation that counts as advertised has the tools. What a move of a task leaves in the app is
    taken apart first; then the recorded generation is that of a socket which a complete
    advertisement was written to. -/

namespace LocalVoice.ServerLoop
open LocalVoice.Lib LocalVoice.SlvClient

/-! ### What a move leaves -/

/-- What a move of task `i` from `t.phase` to `ph` leaves: an advertisement is written, one is dropped
    on a dead socket or a closed client, an answer is written, a call is lost, or nothing. -/
inductive Noted (c : State) (i : ℕ) (m : Move) (t : Task) (ph : Phase) (c' : State) : Prop where
  | advertised {complete : Bool} {s : ℕ} (hadvert : c.advert i = some complete)
      (hphase : t.phase = .writing s) (hm : m = .wrote)
      (hgen : c'.advertised_gen = some c'.client.shared.session_gen)
      (hcarried : c'.carried = if complete then c.carried ++ [s] else c.carried)
      (hanswers : c'.answers = c.answers) (hlost : c'.lost = c.lost)
  | dropped {complete : Bool} (hadvert : c.advert i = some complete)
      (hdrop : m = .failed ∨ m = .go ∧ t.phase = .waiting ∧ ph = .ended)
      (hanswers : c'.answers = c.answers) (hlost : c'.lost = c.lost)
  | answered {s : ℕ} (hadvert : c.advert i = none) (hphase : t.phase = .writing s) (hm : m = .wrote)
      (horigin : (c.origin i).isSome = true) (hadvertised : c'.advertised_gen = c.advertised_gen)
      (hcarried : c'.carried = c.carried)
      (hanswers : c'.answers = c.answers ++ [⟨i, s, (c.reply i).any Reply.ok⟩])
      (hlost : c'.lost = c.lost)
  | lost (hadvert : c.advert i = none) (hm : ∀ s, t.phase = .writing s → m ≠ .wrote)
      (hph : ph = .ended) (hown : c.own_alive i = true)
      (hadvertised : c'.advertised_gen = c.advertised_gen) (hcarried : c'.carried = c.carried)
      (hanswers : c'.answers = c.answers)
  | same (hadvertised : c'.advertised_gen = c.advertised_gen) (hcarried : c'.carried = c.carried)
      (hanswers : c'.answers = c.answers) (hlost : c'.lost = c.lost)

/-- A move of task `i` from `t` to `ph`. -/
structure Turned (c : State) (i : ℕ) (m : Move) (t : Task) (ph : Phase) (c' : State) : Prop where
  task : c.client.tasks[i]? = some t
  step : c.client.step (.task i m) = some c'.client
  moved : Moved c.client.shared t.job m t.phase ph c'.client.shared
  tasks : c'.client.tasks = c.client.tasks.set i ⟨t.job, ph⟩
  gen : c'.gen = numbered c.gen c'.client.shared m t.phase
  adverts : c'.adverts = c.adverts
  dispatching : c'.dispatching = c.dispatching
  reply : c'.reply = c.reply
  outcome : c'.outcome = c.outcome
  noted : Noted c i m t ph c'

section
variable {c c' : State} {i : ℕ} {m : Move} {t : Task} {client : Client}

theorem number_eq (ht : c.client.tasks[i]? = some t) : ({ c with client := client } : State).number c i m =
    { c with client := client, gen := numbered c.gen client.shared m t.phase } := by
  obtain ⟨job, phase⟩ := t
  simp only [State.number, State.task, ht, Option.map_some]
  cases m with
  | healthy => cases phase <;> rfl
  | _ => rfl

theorem finished_iff {ph : Phase} {job : Job} (hi : c.client.tasks[i]? = some ⟨job, ph⟩) :
    c.finished i = true ↔ ph = .ended := by
  simp [State.finished, State.task, hi]

/-- A call that ends without an answer is lost if its socket is there. -/
theorem noted_lose {ph : Phase} {d : State} (hadvert : c.advert i = none)
    (hm : ∀ s, t.phase = .writing s → m ≠ .wrote) (hph : ph = .ended)
    (hadvertised : d.advertised_gen = c.advertised_gen) (hcarried : d.carried = c.carried)
    (hanswers : d.answers = c.answers) (hlost : d.lost = c.lost) : Noted c i m t ph (d.lose i c) := by
  simp only [State.lose]
  split
  · next hown => exact .lost hadvert hm hph hown hadvertised hcarried hanswers
  · exact .same hadvertised hcarried hanswers hlost

/-- What the app makes of a move. -/
theorem observe_noted {ph : Phase} {d : State} (ht : c.client.tasks[i]? = some t)
    (hi : d.client.tasks[i]? = some ⟨t.job, ph⟩) (hadvertised : d.advertised_gen = c.advertised_gen)
    (hcarried : d.carried = c.carried) (hanswers : d.answers = c.answers) (hlost : d.lost = c.lost)
    (hreply : d.reply = c.reply) : Noted c i m t ph (d.observe c i m) := by
  have hsame : Noted c i m t ph d := .same hadvertised hcarried hanswers hlost
  have hphase : (c.task i).map Task.phase = some t.phase := by simp [State.task, ht]
  simp only [State.observe, hphase]
  cases hadvert : c.advert i with
  | some complete =>
    cases hp : t.phase with
    | writing s =>
      simp only
      split
      · next hm => exact .advertised hadvert hp hm rfl (by rw [hcarried]) hanswers hlost
      · split
        · next hm => exact .dropped hadvert (Or.inl hm) hanswers hlost
        · exact hsame
    | waiting =>
      simp only
      split
      · next hgo =>
        simp only [Bool.and_eq_true, decide_eq_true_eq, finished_iff hi] at hgo
        exact .dropped hadvert (Or.inr ⟨hgo.1, hp, hgo.2⟩) hanswers hlost
      · exact hsame
    | _ => exact hsame
  | none =>
    cases hp : t.phase with
    | writing s =>
      simp only
      split
      · next hm =>
        split
        · next horigin =>
          exact .answered hadvert hp hm horigin hadvertised hcarried (by simp [hanswers, hreply]) hlost
        · exact hsame
      · next hm =>
        split
        · next hend =>
          exact noted_lose hadvert (fun _ _ => hm) ((finished_iff hi).1 hend) hadvertised hcarried
            hanswers hlost
        · exact hsame
    | _ =>
      simp only
      split
      · next hend =>
        exact noted_lose hadvert (by simp [hp]) ((finished_iff hi).1 hend) hadvertised hcarried
          hanswers hlost
      · exact hsame

theorem observe_rest (d : State) : (d.observe c i m).client = d.client ∧ (d.observe c i m).gen = d.gen ∧
    (d.observe c i m).adverts = d.adverts ∧ (d.observe c i m).dispatching = d.dispatching ∧
    (d.observe c i m).reply = d.reply ∧ (d.observe c i m).outcome = d.outcome := by
  simp only [State.observe, State.lose]
  repeat' split
  all_goals exact ⟨rfl, rfl, rfl, rfl, rfl, rfl⟩

/-- A move, with what it leaves. -/
theorem turn_cases (h : c.move i m = some c') : ∃ t ph, Turned c i m t ph c' := by
  obtain ⟨client, hstep, rfl⟩ := Option.map_eq_some_iff.1 h
  obtain ⟨t, ph, ht, hmoved, htasks, -, -⟩ := client_move_cases hstep
  rw [number_eq ht]
  obtain ⟨hclient, hgen, hadverts, hdispatching, hreply, houtcome⟩ := observe_rest (c := c) (i := i) (m := m)
    { c with client := client, gen := numbered c.gen client.shared m t.phase }
  have hi : client.tasks[i]? = some ⟨t.job, ph⟩ := by
    rw [htasks]
    exact (get_set_iff ht).2 (Or.inl ⟨rfl, rfl⟩)
  exact ⟨t, ph, ht, hclient ▸ hstep, hclient ▸ hmoved, hclient ▸ htasks, by rw [hclient, hgen], hadverts,
    hdispatching, hreply, houtcome, observe_noted ht hi rfl rfl rfl rfl rfl⟩

/-- A step of the client, as the app sees it: a move of a task, or what is none. -/
theorem other_cases {a : SlvClient.Label} (h : c.other a = some c') :
    (∃ i m m', a = .task i m ∧ c.move i m' = some c' ∧
      (m' = m ∧ c.raises i m = false ∨ m' = .cancel ∧ c.raises i m = true) ∧
      (m = .go → ∀ t, c.task i = some t → t.phase ≠ .handling)) ∨
    (∀ i m, a ≠ .task i m) ∧ a ≠ .take ∧
      ∃ client, c.client.step a = some client ∧ c' = { c with client := client } := by
  cases a with
  | task i m =>
    simp only [State.other] at h
    split at h
    · cases h
    · next hhandling =>
      have hgo : m = .go → ∀ t, c.task i = some t → t.phase ≠ .handling := by
        rintro rfl t ht hphase
        simp [ht, hphase] at hhandling
      split at h
      · next hraises => exact Or.inl ⟨i, m, .cancel, rfl, h, Or.inr ⟨rfl, hraises⟩, hgo⟩
      · next hraises => exact Or.inl ⟨i, m, m, rfl, h, Or.inl ⟨rfl, by simpa using hraises⟩, hgo⟩
  | take => cases h
  | _ =>
    obtain ⟨client, hstep, rfl⟩ := Option.map_eq_some_iff.1 h
    exact Or.inr ⟨by simp, by simp, client, hstep, rfl⟩

end

/-- A step of the app. -/
inductive Acted (str : PyVal → String) (c : State) : Label → State → Prop where
  | move {i : ℕ} {m m' : Move} {t : Task} {ph : Phase} {c' : State} (ht : Turned c i m' t ph c')
      (hm : m' = m ∧ c.raises i m = false ∨ m' = .cancel ∧ c.raises i m = true)
      (hgo : m = .go → t.phase ≠ .handling) : Acted str c (.client (.task i m)) c'
  | client {a : SlvClient.Label} {client : Client} (hstep : c.client.step a = some client)
      (ha : ∀ i m, a ≠ .task i m) (htake : a ≠ .take) :
      Acted str c (.client a) { c with client := client }
  | advertise {complete : Bool} : Acted str c (.advertise complete) (c.advertise complete)
  | dispatch {complete : Bool} {s : ℕ} {e : Event} {rest : List (ℕ × Event)}
      (hqueue : c.client.shared.queue = (s, e) :: rest)
      (hgen : c.advertised_gen = some c.client.shared.session_gen) :
      Acted str c (.dispatch complete) ((c.pop rest).handle s e)
  | readvertise {complete : Bool} {s : ℕ} {e : Event} {rest : List (ℕ × Event)}
      (hqueue : c.client.shared.queue = (s, e) :: rest)
      (hgen : c.advertised_gen ≠ some c.client.shared.session_gen) :
      Acted str c (.dispatch complete) { (c.pop rest).advertise complete with
        dispatching := some (c.client.tasks.length, s, e) }
  | handle {i s : ℕ} {e : Event} (hdispatching : c.dispatching = some (i, s, e)) :
      Acted str c .handle { c.handle s e with dispatching := none }
  | cut {i : ℕ} {o : Outcome} {t : Task} {ph : Phase} {c' : State} (horigin : (c.origin i).isSome = true)
      (hphase : t.phase = .handling)
      (hreply : ∀ r, handle_server_tool_call str o = some r → c.client.shared.v2 = true ∧ r.encodable = false)
      (ht : Turned { c with outcome := Function.update c.outcome i (some o) } i .cancel t ph c') :
      Acted str c (.returns i o) c'
  | returns {i : ℕ} {o : Outcome} {r : Reply} {t : Task} {ph : Phase} {c' : State}
      (horigin : (c.origin i).isSome = true) (hphase : t.phase = .handling)
      (hreply : handle_server_tool_call str o = some r)
      (ht : Turned { c with
        outcome := Function.update c.outcome i (some o)
        reply := Function.update c.reply i (some r) } i .go t ph c') : Acted str c (.returns i o) c'

/-- Every step is one of those. -/
theorem next_cases {str : PyVal → String} {c c' : State} {a : Label} (h : c.next str a = some c') :
    Acted str c a c' := by
  cases a with
  | client a =>
    rcases other_cases h with ⟨i, m, m', rfl, hmove, hm, hgo⟩ | ⟨ha, htake, client, hstep, rfl⟩
    · obtain ⟨t, ph, ht⟩ := turn_cases hmove
      exact .move ht hm fun hm => hgo hm t ht.task
    · exact .client hstep ha htake
  | advertise complete =>
    cases h
    exact .advertise
  | dispatch complete =>
    simp only [State.next, State.dispatch] at h
    split at h
    · next s e rest hdispatching hqueue =>
      split at h
      · next hgen =>
        cases h
        exact .dispatch hqueue hgen
      · next hgen =>
        cases h
        exact .readvertise hqueue hgen
    · cases h
  | handle =>
    simp only [State.next] at h
    split at h
    · next i s e hdispatching =>
      split at h
      · cases h
        exact .handle hdispatching
      · cases h
    · cases h
  | returns i o =>
    simp only [State.next, State.returns] at h
    split at h
    · next hreturns =>
      simp only [Bool.and_eq_true, Option.any_eq_true, decide_eq_true_eq] at hreturns
      obtain ⟨horigin, u, hu, hphase⟩ := hreturns
      split at h
      · next hnone =>
        obtain ⟨t, ph, ht⟩ := turn_cases h
        obtain rfl : t = u := Option.some.inj (ht.task.symm.trans hu)
        exact .cut horigin hphase (by simp [hnone]) ht
      · next r hreply =>
        split at h
        · next hcut =>
          obtain ⟨t, ph, ht⟩ := turn_cases h
          obtain rfl : t = u := Option.some.inj (ht.task.symm.trans hu)
          refine .cut horigin hphase (fun r' hr' => ?_) ht
          obtain rfl := Option.some.inj (hreply.symm.trans hr')
          simpa using hcut
        · obtain ⟨t, ph, ht⟩ := turn_cases h
          obtain rfl : t = u := Option.some.inj (ht.task.symm.trans hu)
          exact .returns horigin hphase hreply ht
    · cases h

/-! ### The condition -/

/-- A move of a task: an advertisement is neither dropped on a dead socket nor by a closed client, and
    a call whose socket is there is not cut off, by what `json.dumps` raises or otherwise. -/
def settled (c : State) (i : ℕ) (m : Move) : Bool :=
  match c.advert i with
  | some _ => m ≠ .failed && (m ≠ .go || (c.task i).all (fun t => t.phase ≠ .waiting) ||
      c.client.shared.ws.isSome || !c.client.shared.closed)
  | none => !(c.raises i m || m = .cancel || m = .fail) || !c.own_alive i

/-- What a step asks for: the list of the tools can be made, an event is not dispatched while its
    socket is on trial, and a tool whose socket is there ends with what can be written. -/
def attended (str : PyVal → String) (c : State) : Label → Bool
  | .client a => unhurried c.client a && match a with
    | .task i m => settled c i m
    | _ => true
  | .advertise complete => complete
  | .dispatch complete =>
    (complete || c.advertised_gen = some c.client.shared.session_gen) && match c.client.shared.queue with
    | (s, _) :: _ => c.client.tasks.all fun t => trial t.phase ≠ some s
    | [] => true
  | .handle => true
  | .returns i o =>
    (handle_server_tool_call str o).any (fun r => !c.client.shared.v2 || r.encodable) || !c.own_alive i

/-! ### The recorded generation -/

/-- The recorded generation is that of a socket which carries the tools. Advertisements are complete,
    and they are sends. -/
structure Advertising (c : State) : Prop where
  gens : Gens c.client c.gen
  known : ∀ g, c.advertised_gen = some g → ∃ s ∈ c.carried, c.gen s = some g
  whole : ∀ a ∈ c.adverts, a.2 = true
  sends : ∀ a ∈ c.adverts, ∃ ph, c.client.tasks[a.1]? = some ⟨.send (.other true), ph⟩

section
variable {c c' : State} {i : ℕ} {m : Move} {t : Task} {ph : Phase} {complete : Bool}

theorem advert_mem (h : c.advert i = some complete) : (i, complete) ∈ c.adverts := by
  obtain ⟨a, ha, rfl⟩ := Option.map_eq_some_iff.1 h
  have hkey : a.1 = i := by simpa using List.find?_some ha
  subst hkey
  exact List.mem_of_find?_eq_some ha

/-- A move takes no generation from a socket. -/
theorem Gens.numbered_keeps {client : Client} {gen : ℕ → Option ℕ} {shared : Shared} {s g : ℕ}
    (h : Gens client gen) (ht : client.tasks[i]? = some t) (hg : gen s = some g) :
    numbered gen shared m t.phase s = some g := by
  obtain ⟨job, phase⟩ := t
  cases m with
  | healthy =>
    cases phase with
    | grace k n since =>
      have hne : s ≠ n := by
        rintro rfl
        rw [(h.tried i _ s ht rfl).2] at hg
        cases hg
      simpa [numbered, Function.update_of_ne hne] using hg
    | _ => exact hg
  | _ => exact hg

/-- An advertisement that ends where it waits finds no socket, and a closed client. -/
theorem unsent_closed {client client' : Client}
    (ht : client.tasks[i]? = some ⟨.send (.other true), .waiting⟩)
    (h : client.step (.task i .go) = some client')
    (hend : client'.tasks[i]? = some ⟨.send (.other true), .ended⟩) :
    client.shared.ws = none ∧ client.shared.closed = true := by
  have hset : ∀ ph : Phase, (client.tasks.set i ⟨.send (.other true), ph⟩)[i]? =
      some ⟨.send (.other true), .ended⟩ → ph = .ended := by
    intro ph hph
    rcases (get_set_iff ht).1 hph with ⟨-, hph⟩ | ⟨hne, -⟩
    · cases hph
      rfl
    · exact absurd rfl hne
  simp only [Client.step, Client.move, ht] at h
  split at h
  · cases h
  · cases hws : client.shared.ws with
    | some s =>
      simp only [Phase.move, hws, Option.map_some, Option.some.injEq] at h
      subst h
      cases hset _ hend
    | none =>
      simp only [Phase.move, hws, Payload.connect_if_dead] at h
      refine ⟨rfl, ?_⟩
      cases hclosed : client.shared.closed with
      | true => rfl
      | false =>
        simp only [hclosed, Bool.not_true, Bool.or_self, Bool.false_eq_true, if_false, Option.map_some,
          Option.some.injEq] at h
        subst h
        cases hset _ hend

theorem wrote_gen {c c' : Shared} {job : Job} {s : ℕ} (h : Moved c job .wrote (.writing s) ph c') :
    c'.session_gen = c.session_gen := by
  cases h <;> rfl

/-- A move of a task keeps the tools and generations together. -/
theorem Advertising.turned (h : Advertising c) (ht : Turned c i m t ph c')
    (hunhurried : unhurried c.client (.task i m) = true) (hsettled : settled c i m = true) :
    Advertising c' := by
  have hgens : Gens c'.client c'.gen := by
    obtain ⟨u, ph', hu, -, -, hgens⟩ := h.gens.moved ht.step hunhurried
    obtain rfl : t = u := Option.some.inj (ht.task.symm.trans hu)
    rw [ht.gen]
    exact hgens
  have hgen : ∀ s g, c.gen s = some g → c'.gen s = some g := by
    intro s g hg
    rw [ht.gen]
    exact h.gens.numbered_keeps ht.task hg
  refine ⟨hgens, ?_, ht.adverts ▸ h.whole, ?_⟩
  · intro g hg
    have hold : c'.advertised_gen = c.advertised_gen → c'.carried = c.carried →
        ∃ s ∈ c'.carried, c'.gen s = some g := by
      intro hadvertised hcarried
      obtain ⟨s, hs, hsg⟩ := h.known g (hadvertised ▸ hg)
      exact ⟨s, hcarried ▸ hs, hgen s g hsg⟩
    cases ht.noted with
    | @advertised complete s hadvert hphase hm hnow hcarried =>
      obtain rfl : complete = true := h.whole _ (advert_mem hadvert)
      have hsame : c'.client.shared.session_gen = c.client.shared.session_gen := by
        have hmoved := ht.moved
        rw [hphase, hm] at hmoved
        exact wrote_gen hmoved
      rw [hnow, hsame] at hg
      refine ⟨s, by simp [hcarried], hgen s g ?_⟩
      rw [← hg]
      exact h.gens.writing i t s ht.task hphase
    | @dropped complete hadvert hdrop =>
      simp only [settled, hadvert, Bool.and_eq_true, Bool.or_eq_true, decide_eq_true_eq] at hsettled
      rcases hdrop with rfl | ⟨rfl, hphase, rfl⟩
      · exact absurd rfl hsettled.1
      · obtain ⟨ph', hph'⟩ := h.sends _ (advert_mem hadvert)
        obtain rfl := Option.some.inj (ht.task.symm.trans hph')
        obtain rfl : ph' = .waiting := hphase
        obtain ⟨hws, hclosed⟩ := unsent_closed ht.task ht.step
          (by rw [ht.tasks]; exact (get_set_iff ht.task).2 (Or.inl ⟨rfl, rfl⟩))
        have hwaits : c.task i = some ⟨.send (.other true), .waiting⟩ := ht.task
        simp [hwaits, hws, hclosed] at hsettled
    | answered _ _ _ _ hadvertised hcarried => exact hold hadvertised hcarried
    | lost _ _ _ _ hadvertised hcarried => exact hold hadvertised hcarried
    | same hadvertised hcarried => exact hold hadvertised hcarried
  · intro a ha
    obtain ⟨ph', hph'⟩ := h.sends a (ht.adverts ▸ ha)
    rw [ht.tasks]
    by_cases hai : i = a.1
    · subst hai
      obtain rfl := Option.some.inj (ht.task.symm.trans hph')
      exact ⟨ph, (get_set_iff ht.task).2 (Or.inl ⟨rfl, rfl⟩)⟩
    · exact ⟨ph', (get_set_iff ht.task).2 (Or.inr ⟨hai, hph'⟩)⟩

/-- Tasks are added at the end, and what was recorded stays. -/
theorem Advertising.framed (h : Advertising c) (hgens : Gens c'.client c.gen) (hgen : c'.gen = c.gen)
    (hadvertised : c'.advertised_gen = c.advertised_gen) (hcarried : c'.carried = c.carried)
    (hadverts : ∀ a ∈ c'.adverts, a ∈ c.adverts ∨
      a.2 = true ∧ ∃ ph, c'.client.tasks[a.1]? = some ⟨.send (.other true), ph⟩)
    (htasks : ∃ l, c'.client.tasks = c.client.tasks ++ l) : Advertising c' where
  gens := hgen ▸ hgens
  known := by
    rw [hadvertised, hcarried, hgen]
    exact h.known
  whole := by
    intro a ha
    rcases hadverts a ha with hold | ⟨hwhole, -⟩
    · exact h.whole a hold
    · exact hwhole
  sends := by
    intro a ha
    rcases hadverts a ha with hold | ⟨-, hsend⟩
    · obtain ⟨ph, hph⟩ := h.sends a hold
      obtain ⟨l, hl⟩ := htasks
      refine ⟨ph, ?_⟩
      rw [hl, List.getElem?_append_left (List.getElem?_eq_some_iff.1 hph).1]
      exact hph
    · exact hsend

theorem Advertising.advertise (h : Advertising c) : Advertising (c.advertise true) := by
  refine h.framed (h.gens.added rfl rfl rfl rfl rfl (by simp) (by simp [acting, Phase.busy])) rfl rfl rfl ?_
    ⟨_, rfl⟩
  intro a ha
  rcases List.mem_append.1 ha with hold | hnew
  · exact Or.inl hold
  · obtain rfl := List.mem_singleton.1 hnew
    exact Or.inr ⟨rfl, .waiting, by simp [State.advertise]⟩

theorem Advertising.handle (h : Advertising c) (s : ℕ) (e : Event) : Advertising (c.handle s e) := by
  simp only [State.handle]
  split
  · exact h.framed (h.gens.added rfl rfl rfl rfl rfl (by simp) (by simp [acting, Phase.busy])) rfl rfl rfl
      (fun _ => Or.inl) ⟨_, rfl⟩
  · exact h

theorem Advertising.pop (h : Advertising c) (rest : List (ℕ × Event)) : Advertising (c.pop rest) :=
  h.framed (h.gens.passed rfl rfl rfl rfl) rfl rfl rfl (fun _ => Or.inl)
    ⟨[], (List.append_nil _).symm⟩

/-- A step of the client that is no move of a task adds tasks at most. -/
theorem stepped_tasks {client client' : Client} {a : SlvClient.Label} (h : client.step a = some client')
    (hmove : ∀ i m, a ≠ .task i m) : ∃ l, client'.tasks = client.tasks ++ l := by
  cases step_cases h with
  | call => exact ⟨_, rfl⟩
  | task => exact absurd rfl (hmove _ _)
  | happened => exact ⟨[], by simp [Client.with_shared]⟩
  | take => exact ⟨[], by simp [Client.with_shared]⟩
  | take_call => exact ⟨_, rfl⟩

/-- Where the send that a move cuts off waits, there is nothing to ask for. -/
theorem unhurried_cut {client : Client} {u : Task} (hu : client.tasks[i]? = some u)
    (hphase : u.phase = .waiting) : unhurried client (.task i .cancel) = true := by
  simp [unhurried, hu, hphase, trial, takes_lock]

theorem raises_waits (h : c.raises i m = true) (hu : c.client.tasks[i]? = some t) : t.phase = .waiting := by
  simp only [State.raises, Bool.and_eq_true] at h
  have hwaits := h.1.1.2
  simpa [State.task, hu] using hwaits

theorem settled_cut (h : c.raises i m = true) (hsettled : settled c i m = true) :
    settled c i .cancel = true := by
  cases hadvert : c.advert i with
  | some complete => simp [settled, hadvert]
  | none =>
    simp only [settled, hadvert, h] at hsettled ⊢
    simpa using hsettled

/-- Where a tool call is handled, there is nothing to ask for. -/
theorem unhurried_handling {client : Client} {u : Task} (hu : client.tasks[i]? = some u)
    (hphase : u.phase = .handling) : unhurried client (.task i m) = true := by
  obtain ⟨job, phase⟩ := u
  obtain rfl : phase = .handling := hphase
  simp only [unhurried, hu, Option.all_some, trial, Bool.and_eq_true, Bool.or_eq_true]
  refine ⟨Or.inl ?_, Or.inl (Or.inr (by simp))⟩
  cases job <;> cases m <;> rfl

/-- The task of a call carries no advertisement. -/
theorem Advertising.advert_of_origin (h : Advertising c) (ho : (c.origin i).isSome = true) :
    c.advert i = none := by
  cases hadvert : c.advert i with
  | none => rfl
  | some complete =>
    obtain ⟨ph, hph⟩ := h.sends _ (advert_mem hadvert)
    have hother : c.task i = some ⟨.send (.other true), ph⟩ := hph
    simp [State.origin, hother] at ho

/-- A tool whose end cannot be written has lost its socket. -/
theorem unread_of_cut {str : PyVal → String} {o : Outcome} (h : attended str c (.returns i o) = true)
    (hreply : ∀ r, handle_server_tool_call str o = some r →
      c.client.shared.v2 = true ∧ r.encodable = false) : c.own_alive i = false := by
  simp only [attended, Bool.or_eq_true, Option.any_eq_true] at h
  rcases h with ⟨r, hr, hwritten⟩ | hgone
  · obtain ⟨hv2, hencodable⟩ := hreply r hr
    simp [hv2, hencodable] at hwritten
  · simpa using hgone

theorem settled_unread {outcome : ℕ → Option Outcome} (h : Advertising c)
    (ho : (c.origin i).isSome = true) (hgone : c.own_alive i = false) :
    settled { c with outcome := outcome } i m = true := by
  have hnone : State.advert { c with outcome := outcome } i = none := h.advert_of_origin ho
  have hgone' : State.own_alive { c with outcome := outcome } i = false := hgone
  simp [settled, hnone, hgone']

theorem settled_handling (h : Advertising c) (ho : (c.origin i).isSome = true)
    (ht : c.client.tasks[i]? = some t) (hphase : t.phase = .handling) : settled c i .go = true := by
  have hraises : c.raises i .go = false := by
    simp [State.raises, State.task, ht, hphase]
  simp [settled, h.advert_of_origin ho, hraises]

/-- Every attended step keeps the tools and the recorded generation together. -/
theorem Advertising.acted {str : PyVal → String} {a : Label} (h : Advertising c)
    (hattended : attended str c a = true) (hacted : Acted str c a c') : Advertising c' := by
  cases hacted with
  | @move i m m' t ph c' ht hm hgo =>
    simp only [attended, Bool.and_eq_true] at hattended
    rcases hm with ⟨rfl, -⟩ | ⟨rfl, hraises⟩
    · exact h.turned ht hattended.1 hattended.2
    · exact h.turned ht (unhurried_cut ht.task (raises_waits hraises ht.task))
        (settled_cut hraises hattended.2)
  | client hstep ha htake =>
    simp only [attended, Bool.and_eq_true] at hattended
    exact h.framed (h.gens.stepped hstep ha hattended.1) rfl rfl rfl (fun _ => Or.inl)
      (stepped_tasks hstep ha)
  | advertise =>
    obtain rfl : _ = true := hattended
    exact h.advertise
  | dispatch => exact (h.pop _).handle _ _
  | @readvertise complete s e rest hqueue hgen =>
    simp only [attended, hgen, decide_false, Bool.or_false, Bool.and_eq_true] at hattended
    obtain rfl : complete = true := hattended.1
    have hadvertise := (h.pop rest).advertise
    exact ⟨hadvertise.gens, hadvertise.known, hadvertise.whole, hadvertise.sends⟩
  | @handle i s e hdispatching =>
    have hhandle := h.handle s e
    exact ⟨hhandle.gens, hhandle.known, hhandle.whole, hhandle.sends⟩
  | @cut i o t ph c' horigin hphase hreply ht =>
    have hsame : Advertising { c with outcome := Function.update c.outcome i (some o) } :=
      ⟨h.gens, h.known, h.whole, h.sends⟩
    refine hsame.turned ht (unhurried_handling ht.task hphase) ?_
    exact settled_unread h horigin (unread_of_cut hattended hreply)
  | @returns i o r t ph c' horigin hphase hreply ht =>
    have hsame : Advertising { c with
        outcome := Function.update c.outcome i (some o)
        reply := Function.update c.reply i (some r) } := ⟨h.gens, h.known, h.whole, h.sends⟩
    refine hsame.turned ht (unhurried_handling ht.task hphase) ?_
    exact settled_handling hsame horigin ht.task hphase

theorem advertising_init (v2 : Bool) : Advertising (State.init v2) where
  gens := gens_init v2
  known := by
    rintro g ⟨⟩
  whole := by simp [State.init]
  sends := by simp [State.init]

end

end LocalVoice.ServerLoop
