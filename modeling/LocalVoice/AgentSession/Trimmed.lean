import LocalVoice.AgentSession.History
import LocalVoice.Lib.Oldest

/-! `Session.messages`: the history in the budget of the LLM. A turn is a message of the user with what
    follows it up to the next one; the oldest turns are dropped until the rest fits. Messages in front
    of the first turn belong to none: they are neither counted nor kept once a turn does not fit, and
    they stay uncounted where all turns fit. Without any message of the user, single messages are
    dropped. -/

namespace LocalVoice.AgentSession
open LocalVoice.Lib

/-! ### Messages and turns -/

def Message.is_user : Message → Bool
  | .user _ => true
  | _ => false

def Message.content : Message → Option String
  | .system content | .user content | .assistant content | .tool _ content => some content
  | .tool_calls content _ => content

def Message.calls : Message → List ToolCall
  | .tool_calls _ calls => calls
  | _ => []

/-- A normal reply: the message of an assistant with a text and without calls. -/
def Message.is_reply : Message → Bool
  | .assistant _ => true
  | .tool_calls (some _) [] => true
  | _ => false

/-- The token counter, and what `json.dumps` makes of the calls, if it does not raise. -/
structure Counter where
  count : String → ℕ
  dumps : List ToolCall → Option String

def Counter.msg_tokens (c : Counter) (m : Message) : ℕ :=
  (match m.content with
  | none => 0
  | some content => if content = "" then 0 else c.count content) +
  (if m.calls = [] then 0
  else match c.dumps m.calls with
    | none => 0
    | some json => c.count json) + 4

def Counter.weight (c : Counter) (m : Message) : ℤ := c.msg_tokens m

/-- `sum(self._msg_tokens(m) for m in t)` -/
def Counter.tokens (c : Counter) (t : List Message) : ℤ := weigh c.weight t

/-- The messages behind the first one of a user, cut before each further one. -/
def turn_loop (turn : List Message) : List Message → List (List Message)
  | [] => [turn]
  | m :: rest => if m.is_user then turn :: turn_loop [m] rest else turn_loop (turn ++ [m]) rest

/-- The messages before the first one of a user. -/
def orphans (rest : List Message) : List Message := rest.takeWhile fun m => !m.is_user

/-- The messages from the first one of a user on. -/
def body (rest : List Message) : List Message := rest.dropWhile fun m => !m.is_user

def group_turns (rest : List Message) : List (List Message) :=
  match body rest with
  | [] => []
  | m :: rest => turn_loop [m] rest

def is_complete (turn : List Message) : Bool := turn.getLast?.any Message.is_reply

/-! ### Trimming -/

/-- The payload of `on_session_trimmed`; `fallback` is for a history without any turn. -/
structure TrimEvent where
  dropped : ℕ
  kept : ℕ
  approx_tokens : ℤ
  budget : ℤ
  max_input_tokens : ℤ
  fallback : Bool
  deriving DecidableEq

/-- `int(max_tokens * 0.75)` -/
def token_budget (max_tokens : ℤ) : ℤ := (max_tokens * 3).tdiv 4

namespace Session
variable (s : Session) (c : Counter)

/-- There are no turns: the oldest messages are dropped. -/
def drop_messages (system : Message) (rest : List Message) (max_tokens : ℤ) :
    List Message × Session × Option TrimEvent :=
  let budget := token_budget max_tokens
  if c.tokens rest ≤ budget then (system :: rest, s, none)
  else
    let r := drop_oldest c.weight budget 0 (c.tokens rest) rest
    (system :: r.1, { s with prefix_cache_warmed := false },
      some ⟨r.2.2, r.1.length, r.2.1, budget, max_tokens, true⟩)

/-- The oldest of these turns are dropped, but none of the trailing one. -/
def drop_turns (system : Message) (turns : List (List Message)) (trailing rest : List Message)
    (max_tokens : ℤ) : List Message × Session × Option TrimEvent :=
  let budget := token_budget max_tokens
  let total := weigh c.tokens turns + c.tokens trailing
  if total ≤ budget then (system :: rest, s, none)
  else
    let min_keep := if trailing = [] then 1 else 0
    let r := drop_oldest c.tokens budget min_keep total turns
    let rebuilt := system :: r.1.flatten ++ trailing
    if 0 < r.2.2 then
      (rebuilt, { s with prefix_cache_warmed := false },
        some ⟨r.2.2, r.1.length, r.2.1, budget, max_tokens, false⟩)
    else (rebuilt, s, none)

/-- The messages to send, the session, and the event. -/
def trim_to_budget (messages : List Message) (max_tokens : ℤ) :
    List Message × Session × Option TrimEvent :=
  match messages with
  | [] => ([], s, none)
  | [system] => ([system], s, none)
  | system :: rest =>
    match (group_turns rest).getLast? with
    | none => s.drop_messages c system rest max_tokens
    | some last =>
      -- a turn that is not complete is pinned
      if is_complete last then s.drop_turns c system (group_turns rest) [] rest max_tokens
      else s.drop_turns c system (group_turns rest).dropLast last rest max_tokens

def messages (system_prompt : String) (max_input_tokens : Option ℤ) :
    List Message × Session × Option TrimEvent :=
  let base := .system system_prompt :: s.history
  match max_input_tokens with
  | none => (base, s, none)
  | some max_tokens => s.trim_to_budget c base max_tokens

end Session

/-! ### What is to be kept -/

/-- The last message of a user, and what follows it. -/
def latest_turn : List Message → List Message
  | [] => []
  | m :: rest =>
    if rest.any Message.is_user then latest_turn rest else if m.is_user then m :: rest else []

def starts_turn (kept : List Message) : Prop := ∃ m rest, kept = m :: rest ∧ m.is_user = true

/-- What may be kept of a history: turns are whole, the latest one is there, and the budget is kept
    unless nothing else is. -/
structure Fits (c : Counter) (budget : ℤ) (history kept : List Message) : Prop where
  suffix : kept <:+ history
  whole_turns : kept = history ∨ starts_turn kept
  latest : latest_turn history <:+ kept
  budgeted : c.tokens kept ≤ budget ∨ kept = latest_turn history

def Longest (P : List Message → Prop) (kept : List Message) : Prop :=
  P kept ∧ ∀ k, P k → k.length ≤ kept.length

/-- What `messages` keeps of a history, and what it leaves of the flag. -/
structure Trims (c : Counter) (max_input_tokens : Option ℤ) (history kept : List Message)
    (warmed : Bool) : Prop where
  untrimmed : max_input_tokens = none → kept = history
  suffix : kept <:+ history
  whole_turns : (∃ m ∈ history, m.is_user = true) → kept = history ∨ starts_turn kept
  latest : latest_turn history <:+ kept
  fitting : ∀ max_tokens, max_input_tokens = some max_tokens →
    c.tokens history ≤ token_budget max_tokens → kept = history
  no_turns : ∀ max_tokens, max_input_tokens = some max_tokens → (∀ m ∈ history, m.is_user = false) →
    Longest (fun k => k <:+ history ∧ (c.tokens k ≤ token_budget max_tokens ∨ k = [])) kept ∧
      (kept ≠ history → warmed = false)
  turns : ∀ max_tokens, max_input_tokens = some max_tokens → starts_turn history →
    Longest (Fits c (token_budget max_tokens) history) kept ∧ (kept ≠ history → warmed = false)
  orphaned : ∀ max_tokens, max_input_tokens = some max_tokens → (∃ m ∈ history, m.is_user = true) →
    token_budget max_tokens < c.tokens (body history) →
    Longest (Fits c (token_budget max_tokens) history) kept ∧
      (kept.length < (body history).length → warmed = false)

/-! What `Session.messages` keeps of a history is its longest suffix that may be kept. A suffix that
    begins with a message of the user is made of whole turns, so that dropping turns from the front
    comes by every candidate. -/

section
variable {c : Counter} {m : Message} {rest kept k turn trailing front history : List Message}
  {ts turns pinned : List (List Message)} {budget max_tokens : ℤ}

/-! ### Tokens -/

theorem weight_nonneg (m : Message) : 0 ≤ c.weight m := Int.natCast_nonneg _

theorem tokens_append (l l' : List Message) : c.tokens (l ++ l') = c.tokens l + c.tokens l' := weigh_append

theorem tokens_suffix (h : k <:+ kept) : c.tokens k ≤ c.tokens kept := weigh_suffix_le weight_nonneg h

theorem tokens_flatten : weigh c.tokens ts = c.tokens ts.flatten := by
  induction ts with
  | nil => rfl
  | cons t ts ih =>
    rw [List.flatten_cons, tokens_append, ← ih]
    rfl

/-! ### Turns -/

def IsTurn (turn : List Message) : Prop :=
  ∃ m rest, turn = m :: rest ∧ m.is_user = true ∧ ∀ m' ∈ rest, m'.is_user = false

theorem IsTurn.concat (h : IsTurn turn) (hm : m.is_user = false) : IsTurn (turn ++ [m]) := by
  obtain ⟨u, rest, rfl, hu, hrest⟩ := h
  refine ⟨u, rest ++ [m], rfl, hu, fun m' hm' => ?_⟩
  rcases List.mem_append.1 hm' with hm' | hm'
  · exact hrest m' hm'
  · rwa [List.mem_singleton.1 hm']

theorem turn_loop_flatten : (turn_loop turn rest).flatten = turn ++ rest := by
  induction rest generalizing turn with
  | nil => simp [turn_loop]
  | cons m rest ih =>
    unfold turn_loop
    split <;> simp [ih]

theorem turn_loop_turns (h : IsTurn turn) : ∀ t ∈ turn_loop turn rest, IsTurn t := by
  induction rest generalizing turn with
  | nil => simpa [turn_loop] using h
  | cons m rest ih =>
    unfold turn_loop
    split
    · next hm =>
      intro t ht
      rcases List.mem_cons.1 ht with rfl | ht
      · exact h
      · exact ih ⟨m, [], rfl, hm, fun _ hm' => by cases hm'⟩ t ht
    · next hm => exact ih (h.concat (by simpa using hm))

theorem body_head (hbody : body history = m :: rest) : m.is_user = true := by
  have hhead := List.head?_dropWhile_not (fun m : Message => !m.is_user) history
  unfold body at hbody
  rw [hbody] at hhead
  simpa using hhead

theorem orphans_body (history : List Message) : orphans history ++ body history = history :=
  List.takeWhile_append_dropWhile

theorem body_suffix : body history <:+ history := List.dropWhile_suffix _

theorem orphans_none : ∀ m ∈ orphans history, m.is_user = false := by
  intro m hm
  simpa using List.all_eq_true.1 List.all_takeWhile m hm

theorem group_flatten : (group_turns history).flatten = body history := by
  unfold group_turns
  split
  · next h => rw [h]; rfl
  · next h => rw [h]; exact turn_loop_flatten

theorem group_turns_turns : ∀ t ∈ group_turns history, IsTurn t := by
  unfold group_turns
  split
  · exact fun _ ht => by cases ht
  · next h => exact turn_loop_turns ⟨_, [], rfl, body_head h, fun _ hm' => by cases hm'⟩

/-- Behind messages that are none of the user's. -/
theorem suffix_behind (hnone : ∀ m ∈ front, m.is_user = false) (hk : k <:+ front ++ rest)
    (hstarts : starts_turn k) : k <:+ rest := by
  induction front with
  | nil => exact hk
  | cons m front ih =>
    rcases List.suffix_cons_iff.1 hk with rfl | hk
    · obtain ⟨m', rest', heq, hm'⟩ := hstarts
      obtain ⟨rfl, -⟩ := List.cons.inj heq
      rw [hnone m List.mem_cons_self] at hm'
      cases hm'
    · exact ih (fun m' hm' => hnone m' (List.mem_cons_of_mem _ hm')) hk

/-- A suffix that begins with a message of the user is made of whole turns. -/
theorem suffix_turns (hts : ∀ t ∈ ts, IsTurn t) (hk : k <:+ ts.flatten) (hstarts : starts_turn k) :
    ∃ ks, ks <:+ ts ∧ k = ks.flatten := by
  induction ts with
  | nil =>
    obtain ⟨m, rest, rfl, -⟩ := hstarts
    cases List.suffix_nil.1 hk
  | cons t ts ih =>
    obtain ⟨u, tail, rfl, -, htail⟩ := hts t List.mem_cons_self
    rcases List.suffix_cons_iff.1 hk with rfl | hk
    · exact ⟨_, List.suffix_refl _, rfl⟩
    · obtain ⟨ks, hks, heq⟩ := ih (fun t ht => hts t (List.mem_cons_of_mem _ ht))
        (suffix_behind htail hk hstarts)
      exact ⟨ks, hks.trans (List.suffix_cons _ _), heq⟩

theorem latest_append (hturn : IsTurn turn) : latest_turn (front ++ turn) = turn := by
  obtain ⟨u, tail, rfl, hu, htail⟩ := hturn
  induction front with
  | nil =>
    have hnone : tail.any Message.is_user = false := List.any_eq_false.2 fun m hm => by simp [htail m hm]
    simp [latest_turn, hnone, hu]
  | cons m front ih => simp [latest_turn, hu, ih]

theorem latest_none (hnone : ∀ m ∈ history, m.is_user = false) : latest_turn history = [] := by
  induction history with
  | nil => rfl
  | cons m rest ih =>
    have hrest : rest.any Message.is_user = false :=
      List.any_eq_false.2 fun m' hm' => by simp [hnone m' (List.mem_cons_of_mem _ hm')]
    simp [latest_turn, hrest, hnone m List.mem_cons_self]

theorem latest_of_turns (hturns : group_turns history = ts ++ [turn]) : latest_turn history = turn := by
  have hmem : turn ∈ group_turns history := by simp [hturns]
  have hsplit := orphans_body history
  rw [← group_flatten, hturns, List.flatten_append, List.flatten_singleton, ← List.append_assoc] at hsplit
  rw [← hsplit]
  exact latest_append (group_turns_turns turn hmem)

theorem starts_flatten (hts : ∀ t ∈ ts, IsTurn t) (hne : ts ≠ []) : starts_turn ts.flatten := by
  cases ts with
  | nil => exact absurd rfl hne
  | cons t ts =>
    obtain ⟨u, tail, rfl, hu, -⟩ := hts t List.mem_cons_self
    exact ⟨u, tail ++ ts.flatten, rfl, hu⟩

theorem flatten_suffix {ks : List (List Message)} (h : ks <:+ ts) : ks.flatten <:+ ts.flatten := by
  obtain ⟨front, rfl⟩ := h
  rw [List.flatten_append]
  exact List.suffix_append _ _

/-! ### Dropping turns -/

/-- The last turns, as many as fit, are the longest that may be kept. -/
theorem longest_turns (hts : ts <:+ group_turns history) (hne : ts ≠ [])
    (hover : budget < c.tokens (body history)) (henough : c.tokens ts.flatten ≤ budget ∨ ts.length ≤ 1)
    (hlonger : ∀ ks, ks <:+ group_turns history → ts.length < ks.length → budget < c.tokens ks.flatten) :
    Longest (Fits c budget history) ts.flatten := by
  have hturns : ∀ t ∈ group_turns history, IsTurn t := group_turns_turns
  have hflat : (group_turns history).flatten = body history := group_flatten
  have hstarts := starts_flatten (fun t ht => hturns t (hts.subset ht)) hne
  have hsuffix : ts.flatten <:+ history := (hflat ▸ flatten_suffix hts).trans body_suffix
  obtain ⟨before, last, rfl⟩ : ∃ before last, ts = before ++ [last] :=
    ⟨ts.dropLast, ts.getLast hne, (List.dropLast_concat_getLast hne).symm⟩
  have hlatest : latest_turn history = last := by
    obtain ⟨front, hfront⟩ := hts
    have hgroup : group_turns history = (front ++ before) ++ [last] := by
      rw [← hfront, List.append_assoc]
    exact latest_of_turns hgroup
  have hlast : latest_turn history <:+ (before ++ [last]).flatten := by
    rw [hlatest, List.flatten_append, List.flatten_singleton]
    exact List.suffix_append _ _
  refine ⟨⟨hsuffix, Or.inr hstarts, hlast, ?_⟩, fun k hk => ?_⟩
  · refine henough.imp_right fun hle => ?_
    obtain rfl : before = [] := by simpa using hle
    rw [hlatest]
    simp
  · rcases hk.budgeted with hbudget | rfl
    · rcases hk.whole_turns with rfl | hk'
      · exact absurd (Int.lt_of_lt_of_le hover (tokens_suffix body_suffix)) (Int.not_lt.2 hbudget)
      · have hbody : k <:+ (group_turns history).flatten := by
          rw [hflat]
          exact suffix_behind orphans_none (by rw [orphans_body]; exact hk.suffix) hk'
        obtain ⟨ks, hks, rfl⟩ := suffix_turns hturns hbody hk'
        rcases Nat.lt_or_ge (before ++ [last]).length ks.length with hlt | hge
        · exact absurd (hlonger ks hks hlt) (Int.not_lt.2 hbudget)
        · exact (flatten_suffix (List.suffix_of_suffix_length_le hks hts hge)).length_le
    · exact hlast.length_le

/-- The turns that may be dropped, and those that are pinned: the last one if it is not complete. -/
structure Pinned (history : List Message) (turns pinned : List (List Message)) (trailing : List Message) :
    Prop where
  all : group_turns history = turns ++ pinned
  which : trailing = [] ∧ pinned = [] ∧ turns ≠ [] ∨ trailing ≠ [] ∧ pinned = [trailing]

theorem Pinned.flatten (h : Pinned history turns pinned trailing) : pinned.flatten = trailing := by
  rcases h.which with ⟨rfl, rfl, -⟩ | ⟨-, rfl⟩
  · rfl
  · exact List.append_nil _

theorem Pinned.body (h : Pinned history turns pinned trailing) :
    turns.flatten ++ trailing = body history := by
  rw [← group_flatten, h.all, List.flatten_append, h.flatten]

theorem Pinned.tokens (h : Pinned history turns pinned trailing) (c : Counter) :
    weigh c.tokens turns + c.tokens trailing = c.tokens (AgentSession.body history) := by
  rw [tokens_flatten, ← tokens_append, h.body]

/-- What is left when the oldest turns are dropped. -/
theorem Pinned.longest (h : Pinned history turns pinned trailing)
    (hover : budget < c.tokens (AgentSession.body history)) {r : List (List Message) × ℤ × ℕ}
    (hr : Oldest c.tokens budget (if trailing = [] then 1 else 0) (c.tokens trailing) turns r) :
    Longest (Fits c budget history) (r.1.flatten ++ trailing) := by
  have hkept : ∀ ks : List (List Message), (ks ++ pinned).flatten = ks.flatten ++ trailing := by
    intro ks
    rw [List.flatten_append, h.flatten]
  have htokens : ∀ ks : List (List Message),
      c.tokens (ks ++ pinned).flatten = weigh c.tokens ks + c.tokens trailing := by
    intro ks
    rw [hkept, tokens_append, tokens_flatten]
  rw [← hkept]
  refine longest_turns ?_ ?_ hover ?_ fun ks hks hlt => ?_
  · rw [h.all]
    exact List.suffix_append_self_iff.2 hr.suffix
  · rcases h.which with ⟨ht, -, hne⟩ | ⟨-, rfl⟩
    · have hlength := hr.kept (by rw [if_pos ht]; exact List.length_pos_of_ne_nil hne)
      rw [if_pos ht] at hlength
      exact fun hnil => by simp [(List.append_eq_nil_iff.1 hnil).1] at hlength
    · simp
  · rw [htokens, ← hr.total]
    refine hr.enough.imp_right fun hle => ?_
    rcases h.which with ⟨ht, rfl, -⟩ | ⟨ht, rfl⟩
    · rw [if_pos ht] at hle
      simpa using hle
    · rw [if_neg ht] at hle
      simpa using hle
  · -- a longer suffix of the turns keeps the pinned one too
    rw [h.all] at hks
    have hpinned : pinned <:+ ks := List.suffix_of_suffix_length_le (List.suffix_append _ _) hks
      (by rw [List.length_append] at hlt; omega)
    obtain ⟨ks', rfl⟩ := hpinned
    rw [htokens]
    refine hr.longest ks' (List.suffix_append_self_iff.1 hks) ?_
    simpa using hlt

/-! ### What is kept -/

theorem latest_suffix : latest_turn history <:+ history := by
  induction history with
  | nil => exact List.suffix_refl _
  | cons m rest ih =>
    unfold latest_turn
    split
    · exact ih.trans (List.suffix_cons _ _)
    · split
      · exact List.suffix_refl _
      · exact List.nil_suffix

theorem no_user_of_none (h : group_turns history = []) : ∀ m ∈ history, m.is_user = false := by
  have hbody : body history = [] := by rw [← group_flatten, h]; rfl
  intro m hm
  rw [← orphans_body history, hbody, List.append_nil] at hm
  exact orphans_none m hm

theorem user_of_turn (ht : turn ∈ group_turns history) : ∃ m ∈ history, m.is_user = true := by
  obtain ⟨u, rest, rfl, hu, -⟩ := group_turns_turns turn ht
  refine ⟨u, body_suffix.subset ?_, hu⟩
  rw [← group_flatten]
  exact List.mem_flatten_of_mem ht List.mem_cons_self

theorem body_of_starts (h : starts_turn history) : body history = history := by
  obtain ⟨m, rest, rfl, hm⟩ := h
  simp [body, hm]

/-- The whole history, where it fits. -/
theorem longest_all (hfits : c.tokens history ≤ budget) : Longest (Fits c budget history) history :=
  ⟨⟨List.suffix_refl _, Or.inl rfl, latest_suffix, Or.inl hfits⟩, fun _ hk => hk.suffix.length_le⟩

variable {s : Session} {system : Message}

/-- What `messages` makes of a history, kept as it is or not. -/
structure Sent (c : Counter) (max_input_tokens : Option ℤ) (s : Session) (system : Message)
    (r : List Message × Session × Option TrimEvent) : Prop where
  history : r.2.1.history = s.history
  trims : ∃ kept, r.1 = system :: kept ∧
    Trims c max_input_tokens s.history kept r.2.1.prefix_cache_warmed

/-- The history does not have to be trimmed. -/
theorem sent_all (hfits : c.tokens (body s.history) ≤ token_budget max_tokens)
    (hnone : (∀ m ∈ s.history, m.is_user = false) → c.tokens s.history ≤ token_budget max_tokens) :
    Sent c (some max_tokens) s system (system :: s.history, s, none) := by
  refine ⟨rfl, s.history, rfl, fun _ => rfl, List.suffix_refl _, fun _ => Or.inl rfl, latest_suffix,
    fun _ _ _ => rfl, ?_, ?_, ?_⟩
  · intro m hm hall
    obtain rfl := Option.some.inj hm
    exact ⟨⟨⟨List.suffix_refl _, Or.inl (hnone hall)⟩, fun _ hk => hk.1.length_le⟩, fun h => absurd rfl h⟩
  · intro m hm hstarts
    obtain rfl := Option.some.inj hm
    rw [body_of_starts hstarts] at hfits
    exact ⟨longest_all hfits, fun h => absurd rfl h⟩
  · intro m hm _ hover
    obtain rfl := Option.some.inj hm
    exact absurd hfits (Int.not_le.2 hover)

/-- A history without any turn. -/
theorem drop_messages_sent (hnone : ∀ m ∈ s.history, m.is_user = false) :
    Sent c (some max_tokens) s system (s.drop_messages c system s.history max_tokens) := by
  have hbody : c.tokens (body s.history) ≤ c.tokens s.history := tokens_suffix body_suffix
  unfold Session.drop_messages
  dsimp only
  split
  · next hfits => exact sent_all (Int.le_trans hbody hfits) fun _ => hfits
  · next hover =>
    have hr : Oldest c.weight (token_budget max_tokens) 0 0 s.history
        (drop_oldest c.weight (token_budget max_tokens) 0 (c.tokens s.history + 0) s.history) :=
      drop_oldest_spec
    rw [Int.add_zero] at hr
    generalize drop_oldest c.weight (token_budget max_tokens) 0 (c.tokens s.history) s.history = r at hr
    have hweigh : c.tokens r.1 = r.2.1 := by rw [hr.total, Int.add_zero]; rfl
    refine ⟨rfl, r.1, rfl, nofun, hr.suffix, ?_, ?_, ?_, ?_, ?_, ?_⟩
    · rintro ⟨m, hm, huser⟩
      rw [hnone m hm] at huser
      cases huser
    · rw [latest_none hnone]
      exact List.nil_suffix
    · intro m hm hfits
      obtain rfl := Option.some.inj hm
      exact absurd hfits hover
    · intro m hm _
      obtain rfl := Option.some.inj hm
      refine ⟨⟨⟨hr.suffix, ?_⟩, fun k hk => ?_⟩, fun _ => rfl⟩
      · rw [hweigh]
        exact hr.enough.imp_right fun hle => List.eq_nil_of_length_eq_zero (Nat.le_zero.1 hle)
      · rcases hk.2 with hbudget | rfl
        · refine Nat.not_lt.1 fun hlt => ?_
          have hlong := hr.longest k hk.1 hlt
          rw [Int.add_zero] at hlong
          exact absurd hlong (Int.not_lt.2 hbudget)
        · exact Nat.zero_le _
    · rintro m hm ⟨u, rest, heq, huser⟩
      rw [hnone u (by simp [heq])] at huser
      cases huser
    · rintro m hm ⟨u, hu, huser⟩
      rw [hnone u hu] at huser
      cases huser

/-- A history with turns. -/
theorem drop_turns_sent (h : Pinned s.history turns pinned trailing) :
    Sent c (some max_tokens) s system (s.drop_turns c system turns trailing s.history max_tokens) := by
  have huser : ∃ m ∈ s.history, m.is_user = true := by
    rcases h.which with ⟨-, rfl, hne⟩ | ⟨-, rfl⟩
    · obtain ⟨turn, hturn⟩ := List.exists_mem_of_ne_nil _ hne
      exact user_of_turn (by rw [h.all]; exact List.mem_append_left _ hturn)
    · exact user_of_turn (by rw [h.all]; exact List.mem_append_right _ (List.mem_singleton_self _))
  have htokens := h.tokens c
  unfold Session.drop_turns
  dsimp only
  split
  · next hfits =>
    rw [htokens] at hfits
    refine sent_all hfits fun hnone => ?_
    obtain ⟨m, hm, hu⟩ := huser
    rw [hnone m hm] at hu
    cases hu
  · next hover =>
    rw [htokens, Int.not_le] at hover
    have hr : Oldest c.tokens (token_budget max_tokens) (if trailing = [] then 1 else 0) (c.tokens trailing)
        turns (drop_oldest c.tokens (token_budget max_tokens) (if trailing = [] then 1 else 0)
          (weigh c.tokens turns + c.tokens trailing) turns) := drop_oldest_spec
    generalize drop_oldest c.tokens (token_budget max_tokens) (if trailing = [] then 1 else 0)
      (weigh c.tokens turns + c.tokens trailing) turns = r at hr
    have hlongest := h.longest hover hr
    -- nothing is dropped only where the turns are kept
    have hdropped : (r.1.flatten ++ trailing).length < (body s.history).length → 0 < r.2.2 := by
      intro hlt
      refine Nat.pos_of_ne_zero fun hzero => ?_
      have hlength := hr.dropped
      rw [hzero, Nat.zero_add] at hlength
      rw [hr.suffix.eq_of_length hlength, h.body] at hlt
      exact absurd hlt (Nat.lt_irrefl _)
    have hsent : ∀ warmed : Bool, (0 < r.2.2 → warmed = false) →
        Trims c (some max_tokens) s.history (r.1.flatten ++ trailing) warmed := by
      intro warmed hwarmed
      refine ⟨nofun, hlongest.1.suffix, fun _ => hlongest.1.whole_turns, hlongest.1.latest, ?_, ?_, ?_, ?_⟩
      · intro m hm hfits
        obtain rfl := Option.some.inj hm
        exact absurd (Int.lt_of_lt_of_le hover (tokens_suffix body_suffix)) (Int.not_lt.2 hfits)
      · intro m hm hnone
        obtain ⟨u, hu, huser⟩ := huser
        rw [hnone u hu] at huser
        cases huser
      · intro m hm hstarts
        obtain rfl := Option.some.inj hm
        refine ⟨hlongest, fun hne => hwarmed (hdropped ?_)⟩
        rw [body_of_starts hstarts]
        exact Nat.lt_of_le_of_ne hlongest.1.suffix.length_le
          fun heq => hne (hlongest.1.suffix.eq_of_length heq)
      · intro m hm _ _
        obtain rfl := Option.some.inj hm
        exact ⟨hlongest, fun hlt => hwarmed (hdropped hlt)⟩
    split
    · exact ⟨rfl, _, by simp, hsent _ fun _ => rfl⟩
    · next hnot => exact ⟨rfl, _, by simp, hsent _ fun hpos => absurd hpos hnot⟩

theorem pinned_of_last (hlast : (group_turns history).getLast? = some turn) :
    (is_complete turn = true → Pinned history (group_turns history) [] []) ∧
      Pinned history (group_turns history).dropLast [turn] turn := by
  have hne : group_turns history ≠ [] := fun hnil => by simp [hnil] at hlast
  have hturn : turn ≠ [] := by
    obtain ⟨u, rest, rfl, -⟩ := group_turns_turns turn (List.mem_of_getLast? hlast)
    exact List.cons_ne_nil _ _
  refine ⟨fun _ => ⟨(List.append_nil _).symm, Or.inl ⟨rfl, rfl, hne⟩⟩, ?_, Or.inr ⟨hturn, rfl⟩⟩
  rw [List.getLast?_eq_some_getLast hne] at hlast
  rw [← Option.some.inj hlast]
  exact (List.dropLast_concat_getLast hne).symm

/-- What is sent of any history. -/
theorem messages_trims (s : Session) (c : Counter) (system_prompt : String) (max_input_tokens : Option ℤ) :
    Sent c max_input_tokens s (.system system_prompt) (s.messages c system_prompt max_input_tokens) := by
  cases max_input_tokens with
  | none => exact ⟨rfl, s.history, rfl, fun _ => rfl, List.suffix_refl _, fun _ => Or.inl rfl, latest_suffix,
      nofun, nofun, nofun, nofun⟩
  | some max_tokens =>
    unfold Session.messages Session.trim_to_budget
    cases hhistory : s.history with
    | nil =>
      refine ⟨rfl, [], rfl, ?_⟩
      rw [hhistory]
      refine ⟨fun _ => rfl, List.suffix_refl _, fun _ => Or.inl rfl, List.suffix_refl _,
        fun _ _ _ => rfl, ?_, ?_, ?_⟩
      · exact fun _ _ _ => ⟨⟨⟨List.suffix_refl _, Or.inr rfl⟩, fun _ hk => hk.1.length_le⟩,
          fun h => absurd rfl h⟩
      · rintro _ _ ⟨_, _, hnil, -⟩
        cases hnil
      · rintro _ _ ⟨_, hm, -⟩
        cases hm
    | cons m rest =>
      dsimp only
      rw [← hhistory]
      cases hlast : (group_turns s.history).getLast? with
      | none => exact drop_messages_sent (no_user_of_none (List.getLast?_eq_none_iff.1 hlast))
      | some turn =>
        dsimp only
        split
        · next hcomplete => exact drop_turns_sent ((pinned_of_last hlast).1 hcomplete)
        · exact drop_turns_sent (pinned_of_last hlast).2

end

/-- One token for each character. -/
def characters : Counter := ⟨String.length, fun _ => none⟩

/-- Two results that are left of a round. -/
def left_over : Session := ⟨[.tool "call_1" "sunny", .tool "call_2" "rain"], true, false, false⟩

/-- A history without any turn is not kept whole, and what is kept begins with no turn. -/
theorem messages_without_turn : ¬ ∀ (s : Session) (max_tokens : ℤ), ∃ kept,
    (s.messages characters "" (some max_tokens)).1 = .system "" :: kept ∧
      (kept = s.history ∨ starts_turn kept) := by
  intro hall
  obtain ⟨kept, heq, hkept⟩ := hall left_over 16
  have hsent : (left_over.messages characters "" (some 16)).1 = [.system "", .tool "call_2" "rain"] := by
    decide
  rw [hsent] at heq
  obtain rfl := (List.cons.inj heq).2
  rcases hkept with hwhole | ⟨m, rest, hstarts, huser⟩
  · exact absurd hwhole (by decide)
  · obtain ⟨rfl, -⟩ := List.cons.inj hstarts
    cases huser

end LocalVoice.AgentSession
