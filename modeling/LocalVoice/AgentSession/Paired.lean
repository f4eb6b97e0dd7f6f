import LocalVoice.AgentSession.History

/-! Tool calls and their results in the history. A history that is made of whole rounds is valid for the
    chat API; between two writes the last round may lack results. The rollback restores that, as long
    as the history was not cleared behind the anchor. -/

namespace LocalVoice.AgentSession
open LocalVoice.Lib

/-! ### Whole rounds -/

/-- A message of the assistant with calls, and a result for each. -/
structure Round where
  content : Option String
  calls : List ToolCall
  results : List String
  matched : results.length = calls.length

def Round.results_messages (r : Round) : List Message :=
  List.zipWith (fun call content => .tool call.id content) r.calls r.results

def Round.messages (r : Round) : List Message := .tool_calls r.content r.calls :: r.results_messages

inductive Block where
  | user (content : String)
  | assistant (content : String)
  | round (r : Round)

def Block.messages : Block → List Message
  | .user content => [.user content]
  | .assistant content => [.assistant content]
  | .round r => r.messages

/-- The history is made of whole blocks. -/
def Whole (h : List Message) : Prop := ∃ blocks : List Block, h = blocks.flatMap Block.messages

/-- Each tool message has the message with its call before it, with only tool messages in between, and
    after each message with calls come the results, one for each call. -/
structure Paired (h : List Message) : Prop where
  called : ∀ pre id content post, h = pre ++ .tool id content :: post → ∃ front c calls mid,
    pre = front ++ .tool_calls c calls :: mid ∧ (∀ m ∈ mid, m.is_tool = true) ∧ id ∈ calls.map ToolCall.id
  answered : ∀ pre c calls post, h = pre ++ .tool_calls c calls :: post →
    (post.takeWhile Message.is_tool).filterMap Message.tool_call_id = calls.map ToolCall.id

section
variable {h : List Message}

theorem results_tool {r : Round} : ∀ m ∈ r.results_messages, m.is_tool = true := by
  intro m hm
  obtain ⟨i, hi⟩ := List.mem_iff_getElem?.1 hm
  simp only [Round.results_messages, List.getElem?_zipWith] at hi
  split at hi
  · cases hi
    rfl
  · cases hi

theorem results_ids {r : Round} :
    r.results_messages.filterMap Message.tool_call_id = r.calls.map ToolCall.id := by
  obtain ⟨content, calls, results, hmatched⟩ := r
  simp only [Round.results_messages]
  induction calls generalizing results with
  | nil => rfl
  | cons call calls ih =>
    cases results with
    | nil => cases hmatched
    | cons result results =>
      have hrest : results.length = calls.length := Nat.succ.inj hmatched
      simp [Message.tool_call_id, ih results hrest]

/-- A block begins with a message that is no tool message. -/
theorem blocks_head (blocks : List Block) (m : Message) (rest : List Message)
    (heq : blocks.flatMap Block.messages = m :: rest) : m.is_tool = false := by
  cases blocks with
  | nil => cases heq
  | cons b bs =>
    cases b with
    | user content =>
      cases heq
      rfl
    | assistant content =>
      cases heq
      rfl
    | round r =>
      cases heq
      rfl

theorem takeWhile_whole (hw : Whole h) : h.takeWhile Message.is_tool = [] := by
  obtain ⟨blocks, rfl⟩ := hw
  cases hb : blocks.flatMap Block.messages with
  | nil => rfl
  | cons m rest => simp [List.takeWhile, blocks_head blocks m rest hb]

theorem whole_nil : Whole [] := ⟨[], rfl⟩

theorem Whole.block (hw : Whole h) (b : Block) : Whole (h ++ b.messages) := by
  obtain ⟨blocks, rfl⟩ := hw
  exact ⟨blocks ++ [b], by simp⟩

theorem paired_nil : Paired [] := by
  constructor <;> intro pre _ _ post heq <;> simp at heq

/-- A message that takes no part in a round, before a paired history. -/
theorem Paired.cons_plain (hp : Paired h) (m : Message) (htool : ∀ id content, m ≠ .tool id content)
    (hcalls : ∀ c calls, m ≠ .tool_calls c calls) : Paired (m :: h) where
  called := by
    intro pre id content post heq
    cases pre with
    | nil => exact absurd (List.cons.inj heq).1 (htool id content)
    | cons a pre =>
      obtain ⟨front, c, calls, mid, rfl, hmid, hid⟩ := hp.called pre id content post (List.cons.inj heq).2
      exact ⟨a :: front, c, calls, mid, rfl, hmid, hid⟩
  answered := by
    intro pre c calls post heq
    cases pre with
    | nil => exact absurd (List.cons.inj heq).1 (hcalls c calls)
    | cons a pre => exact hp.answered pre c calls post (List.cons.inj heq).2

/-- A round before a history of whole blocks. -/
theorem Paired.cons_round (hp : Paired h) (hw : Whole h) (r : Round) : Paired (r.messages ++ h) where
  called := by
    intro pre id content post heq
    cases pre with
    | nil => cases heq
    | cons a pre =>
      obtain ⟨rfl, hrest⟩ := List.cons.inj heq
      rcases List.append_eq_append_iff.1 hrest with ⟨l, rfl, hh⟩ | ⟨l, hr, hh⟩
      · obtain ⟨front, c, calls, mid, rfl, hmid, hid⟩ := hp.called l id content post hh
        exact ⟨r.messages ++ front, c, calls, mid, by simp [Round.messages], hmid, hid⟩
      · -- the tool message is a result of the round, since the rest does not begin with one
        cases l with
        | nil =>
          obtain ⟨blocks, rfl⟩ := hw
          have hhead := blocks_head blocks _ _ hh.symm
          cases hhead
        | cons m l =>
          obtain ⟨rfl, -⟩ := List.cons.inj hh
          refine ⟨[], r.content, r.calls, pre, rfl, fun n hn => ?_, ?_⟩
          · exact results_tool n (by rw [hr]; exact List.mem_append_left _ hn)
          · rw [← results_ids, hr]
            simp [Message.tool_call_id]
  answered := by
    intro pre c calls post heq
    cases pre with
    | nil =>
      obtain ⟨hm, rfl⟩ := List.cons.inj heq
      obtain ⟨rfl, rfl⟩ := Message.tool_calls.inj hm
      rw [List.append_eq, List.takeWhile_append_of_pos results_tool, takeWhile_whole hw, List.append_nil, results_ids]
    | cons a pre =>
      obtain ⟨rfl, hrest⟩ := List.cons.inj heq
      rcases List.append_eq_append_iff.1 hrest with ⟨l, rfl, hh⟩ | ⟨l, hr, hh⟩
      · exact hp.answered l c calls post hh
      · cases l with
        | nil => exact hp.answered [] c calls post hh.symm
        | cons m l =>
          obtain ⟨rfl, -⟩ := List.cons.inj hh
          have htool := results_tool (.tool_calls c calls) (by rw [hr]; simp)
          cases htool

/-- What is made of whole blocks is valid. -/
theorem paired_of_whole (hw : Whole h) : Paired h := by
  obtain ⟨blocks, rfl⟩ := hw
  induction blocks with
  | nil => exact paired_nil
  | cons b bs ih =>
    cases b with
    | user content => exact ih.cons_plain (.user content) nofun nofun
    | assistant content => exact ih.cons_plain (.assistant content) nofun nofun
    | round r => exact ih.cons_round ⟨bs, rfl⟩ r

end

/-! ### Between two writes -/

/-- The history ends with a round that lacks the results of these calls. -/
def Lacking (h : List Message) (pending : List String) : Prop :=
  ∃ front content answered waiting results, h = front ++ .tool_calls content (answered ++ waiting) ::
      List.zipWith (fun call content => .tool call.id content) answered results ∧
    Whole front ∧ results.length = answered.length ∧ pending = waiting.map ToolCall.id

theorem Lacking.whole {h : List Message} (hl : Lacking h []) : Whole h := by
  obtain ⟨front, content, answered, waiting, results, rfl, hfront, hlength, hpending⟩ := hl
  obtain rfl : waiting = [] := List.map_eq_nil_iff.1 hpending.symm
  rw [List.append_nil]
  exact hfront.block (.round ⟨content, answered, results, hlength⟩)

/-- The calls are written. -/
theorem Whole.calls {h : List Message} (hw : Whole h) (content : Option String) (calls : List ToolCall) :
    Lacking (h ++ [.tool_calls content calls]) (calls.map ToolCall.id) :=
  ⟨h, content, [], calls, [], rfl, hw, rfl, rfl⟩

/-- The next result is written. -/
theorem Lacking.result {h : List Message} {id : String} {rest : List String}
    (hl : Lacking h (id :: rest)) (result : String) : Lacking (h ++ [.tool id result]) rest := by
  obtain ⟨front, content, answered, waiting, results, rfl, hfront, hlength, hpending⟩ := hl
  cases waiting with
  | nil => cases hpending
  | cons call later =>
    obtain ⟨rfl, rfl⟩ := List.cons.inj hpending
    refine ⟨front, content, answered ++ [call], later, results ++ [result], ?_, hfront, by simp [hlength],
      rfl⟩
    rw [List.zipWith_append hlength.symm]
    simp

/-! ### Runs -/

/-- A result is written to the round of its call, and a turn whose history was cleared is rolled back
    only when that drops nothing, and no call in the history waits for a result. -/
def anchored (c : State) (a : Label) : Bool :=
  match a, c.turn with
  | .result _, some t => !t.cut
  | .cap, some t | .cancel, some t | .fail, some t =>
    !t.cleared || (decide (c.session.history.length ≤ t.rollback_anchor) &&
      (t.pending.isEmpty || t.cut))
  | _, _ => true

/-- The history, while a turn writes it: whole up to the anchor, unless it was cleared; and with the
    last round in the making. -/
structure Turn.Fits (t : Turn) (h : List Message) : Prop where
  anchor : t.cleared = false → t.rollback_anchor ≤ h.length ∧ Whole (h.take t.rollback_anchor)
  cut : t.cut = true → t.cleared = true
  whole : t.pending = [] ∨ t.cut = true → Whole h
  lacking : t.cut = false → t.pending ≠ [] → Lacking h t.pending

/-- Between turns the history is whole. -/
def Valid (c : State) : Prop :=
  match c.turn with
  | none => Whole c.session.history
  | some t => t.Fits c.session.history

section
variable {t : Turn} {h : List Message}

/-- More messages leave the anchor where it is. -/
theorem Turn.Fits.anchor_append (hf : t.Fits h) (l : List Message) (hcleared : t.cleared = false) :
    t.rollback_anchor ≤ (h ++ l).length ∧ Whole ((h ++ l).take t.rollback_anchor) := by
  obtain ⟨hle, hwhole⟩ := hf.anchor hcleared
  rw [List.take_append_of_le_length hle, List.length_append]
  exact ⟨Nat.le_trans hle (Nat.le_add_right _ _), hwhole⟩

theorem fits_start {messages : List Message} (hw : Whole h) : (Turn.start h messages).Fits h where
  anchor := fun _ => ⟨Nat.le_refl _, by simpa [Turn.start] using hw⟩
  cut := nofun
  whole := fun _ => hw
  lacking := fun _ hne => absurd rfl hne

theorem fits_reset : Turn.Fits { t with cleared := true, cut := true } [] where
  anchor := nofun
  cut := fun _ => rfl
  whole := fun _ => whole_nil
  lacking := nofun

theorem fits_calls (hf : t.Fits h) (hpending : t.pending = []) (content : Option String)
    (calls : List ToolCall) (messages : List Message) :
    Turn.Fits { t with messages := messages, pending := calls.map ToolCall.id, cut := false }
      (h ++ [.tool_calls content calls]) where
  anchor := hf.anchor_append _
  cut := nofun
  whole := by
    intro hnone
    have hl := (hf.whole (Or.inl hpending)).calls content calls
    have hids : calls.map ToolCall.id = [] := hnone.resolve_right nofun
    rw [hids] at hl
    exact hl.whole
  lacking := fun _ _ => (hf.whole (Or.inl hpending)).calls content calls

theorem fits_result (hf : t.Fits h) (hcut : t.cut = false) {id : String} {rest : List String}
    (hpending : t.pending = id :: rest) (content : String) (messages : List Message) :
    Turn.Fits { t with messages := messages, pending := rest } (h ++ [.tool id content]) := by
  have hl : Lacking (h ++ [.tool id content]) rest := by
    have hlacking := hf.lacking hcut (by rw [hpending]; exact List.cons_ne_nil _ _)
    rw [hpending] at hlacking
    exact hlacking.result content
  refine ⟨hf.anchor_append _, hf.cut, fun hnone => ?_, fun _ _ => hl⟩
  rcases hnone with hnone | hnone
  · obtain rfl : rest = [] := hnone
    exact hl.whole
  · rw [show t.cut = true from hnone] at hcut
    cases hcut

theorem fits_text {c : State} (hf : t.Fits c.session.history) (hpending : t.pending = [])
    (content : String) : Valid (c.add_text t content) := by
  cases hecho : (c.session.append (.assistant content)).echoes with
  | true =>
    simp only [Valid, State.add_text, Session.add_assistant, Session.maybe_recover_from_echo, hecho,
      if_true, Bool.or_true]
    exact ⟨nofun, fun _ => rfl, fun _ => whole_nil, nofun⟩
  | false =>
    simp only [Valid, State.add_text, Session.add_assistant, Session.maybe_recover_from_echo, hecho,
      Bool.false_eq_true, if_false, Bool.or_false]
    refine ⟨hf.anchor_append _, hf.cut, fun _ => ?_, fun _ hne => absurd hpending hne⟩
    exact (hf.whole (Or.inl hpending)).block (.assistant content)

/-- The rollback restores whole rounds. -/
theorem whole_rollback {s : Session} (hf : t.Fits s.history)
    (hanchored : t.cleared = false ∨ s.history.length ≤ t.rollback_anchor ∧ (t.pending = [] ∨ t.cut = true)) :
    Whole (t.rollback s).1.history := by
  unfold Turn.rollback Session.rollback_to
  split
  · next hle =>
    rcases hanchored with hcleared | ⟨-, hnone⟩
    · have hwhole := (hf.anchor hcleared).2
      rwa [List.take_of_length_le hle] at hwhole
    · exact hf.whole hnone
  · next hgt =>
    rcases hanchored with hcleared | ⟨hle, -⟩
    · exact (hf.anchor hcleared).2
    · exact absurd hle hgt

/-- The iteration cap: the anchor stays good. -/
theorem fits_cap {s : Session} (hf : t.Fits s.history)
    (hanchored : t.cleared = false ∨ s.history.length ≤ t.rollback_anchor ∧ (t.pending = [] ∨ t.cut = true)) :
    Turn.Fits { (t.rollback s).2 with pending := [], closed := true } (t.rollback s).1.history where
  anchor := by
    intro hcleared
    obtain ⟨hle, hwhole⟩ := hf.anchor hcleared
    have htaken : (t.rollback s).1.history = s.history.take t.rollback_anchor := by
      unfold Turn.rollback Session.rollback_to
      split
      · next hshort => rw [List.take_of_length_le hshort]
      · rfl
    rw [htaken]
    refine ⟨?_, ?_⟩
    · rw [List.length_take]
      exact Nat.le_min.2 ⟨Nat.le_refl _, hle⟩
    · rw [show ({ (t.rollback s).2 with pending := [], closed := true } : Turn).rollback_anchor =
        t.rollback_anchor from rfl, List.take_take, Nat.min_self]
      exact hwhole
  cut := hf.cut
  whole := fun _ => whole_rollback hf hanchored
  lacking := fun _ hne => absurd rfl hne

theorem anchored_rollback {c : State} {a : Label} (ht : c.turn = some t)
    (ha : a = .cap ∨ a = .cancel ∨ a = .fail) (hok : anchored c a = true) : t.cleared = false ∨
      c.session.history.length ≤ t.rollback_anchor ∧ (t.pending = [] ∨ t.cut = true) := by
  rcases ha with rfl | rfl | rfl <;> simpa [anchored, ht] using hok

end

theorem valid_step {c c' : State} {a : Label} (hv : Valid c) (ha : anchored c a = true)
    (hstep : step c a c') : Valid c' := by
  cases ht : c.turn with
  | none =>
    simp only [Valid, ht] at hv
    cases a <;> simp only [step, State.step, ht, Option.map_none, reduceCtorEq, Option.some.injEq] at hstep
    case begin text messages =>
      subst hstep
      exact fits_start (hv.block (.user text))
    case reset =>
      subst hstep
      exact whole_nil
  | some t =>
    simp only [Valid, ht] at hv
    cases a with
    | begin text messages => simp [step, State.step, ht] at hstep
    | calls content calls =>
      simp only [step, State.step, ht, Option.ite_none_left_eq_some, Option.some.injEq] at hstep
      obtain ⟨hopen, rfl⟩ := hstep
      simp only [ne_eq, decide_not, Bool.or_eq_true, Bool.not_eq_true', decide_eq_false_iff_not, not_or,
        not_not] at hopen
      exact fits_calls hv hopen.1 content calls _
    | result content =>
      simp only [step, State.step, ht] at hstep
      cases hpending : t.pending with
      | nil =>
        rw [hpending] at hstep
        cases hstep
      | cons id rest =>
        rw [hpending] at hstep
        cases hstep
        simp only [anchored, ht, Bool.not_eq_true'] at ha
        exact fits_result hv ha hpending content _
    | text content =>
      simp only [step, State.step, ht, Option.ite_none_left_eq_some, Option.some.injEq] at hstep
      obtain ⟨hopen, rfl⟩ := hstep
      simp only [ne_eq, decide_not, Bool.or_eq_true, Bool.not_eq_true', decide_eq_false_iff_not, not_or,
        not_not] at hopen
      exact fits_text hv hopen.1 content
    | cap =>
      simp only [step, State.step, ht, Option.ite_none_left_eq_some, Option.some.injEq] at hstep
      obtain ⟨-, rfl⟩ := hstep
      exact fits_cap hv (anchored_rollback ht (Or.inl rfl) ha)
    | finish =>
      simp only [step, State.step, ht, Option.ite_none_left_eq_some, Option.some.injEq] at hstep
      obtain ⟨hnone, rfl⟩ := hstep
      exact hv.whole (Or.inl (not_not.1 hnone))
    | cancel =>
      simp only [step, State.step, ht, Option.some.injEq] at hstep
      subst hstep
      exact whole_rollback hv (anchored_rollback ht (Or.inr (Or.inl rfl)) ha)
    | fail =>
      simp only [step, State.step, ht, Option.some.injEq] at hstep
      subst hstep
      exact whole_rollback hv (anchored_rollback ht (Or.inr (Or.inr rfl)) ha)
    | reset =>
      simp only [step, State.step, ht, Option.some.injEq] at hstep
      subst hstep
      exact fits_reset

/-- In a run that keeps its anchors good, the history is valid for the chat API whenever no turn is in
    flight. -/
theorem history_paired {as : List Label} {c : State}
    (h : Run (restrict (fun c a => anchored c a = true) step) State.init as c) (hidle : c.turn = none) :
    Paired c.session.history := by
  have hvalid : Valid c :=
    Run.invariant (I := Valid) (fun hv hst => valid_step hv hst.1 hst.2)
      (show Valid State.init from whole_nil) h
  simp only [Valid, hidle] at hvalid
  exact paired_of_whole hvalid

/-! ### A reset in the middle of a round -/

def lamp : ToolCall := ⟨"call_1", "lamp", "{}"⟩

def radio : ToolCall := ⟨"call_2", "radio", "{}"⟩

/-- A turn is reset and cancelled while its call runs, and the next one makes two calls. -/
def reset_and_cancelled : List Label :=
  [.begin "light" [], .calls none [lamp], .reset, .cancel, .begin "both" [], .calls none [lamp, radio],
    .result "on", .result "off", .text "done", .finish]

theorem history_paired_reset : ∃ c,
    Run (restrict (fun c a => anchored c a = true) step) State.init reset_and_cancelled c ∧
    c.session.history.length = 5 ∧ Paired c.session.history := by
  obtain ⟨c, hrun, hend⟩ := Run.of_replay_any
    (fun c a => if anchored c a = true then State.step c a else none) State.init reset_and_cancelled
    (fun c => decide (c.turn = none ∧ c.session.history.length = 5)) (by decide +kernel)
  obtain ⟨hidle, hlength⟩ := of_decide_eq_true hend
  have hrestricted := Run.restrict_mono hrun
  exact ⟨c, hrestricted, hlength, history_paired hrestricted hidle⟩

/-- The result of a call that was reset away is written all the same. -/
theorem orphaned_result : ¬ ∀ as c, Run step State.init as c → c.turn = none →
    Paired c.session.history := by
  intro hall
  obtain ⟨c, hrun, hend⟩ := Run.of_replay_any State.step State.init
    [.begin "light" [], .calls none [lamp], .reset, .result "on", .text "done", .finish]
    (fun c => decide (c.turn = none ∧ c.session.history = [.tool "call_1" "on", .assistant "done"]))
    (by decide +kernel)
  obtain ⟨hidle, hhistory⟩ := of_decide_eq_true hend
  obtain ⟨front, _, _, mid, hfront, -⟩ := (hall _ c hrun hidle).called [] "call_1" "on" _ hhistory
  simp at hfront

end LocalVoice.AgentSession
