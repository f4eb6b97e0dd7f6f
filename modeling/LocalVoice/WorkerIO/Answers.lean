import LocalVoice.WorkerIO.Slots

/-! What callers receive. The lines a caller gets are its own and in the worker's order, whatever the
    interleaving. And a request whose worker is gone finds the sentinel in its queue, unless it has
    registered after the reader's last sweep: the reader does not set `_closed`, so such a request
    is written to nobody and waits for its timeout. -/

namespace LocalVoice.WorkerIO
open LocalVoice.Lib

def Event.line : Event → List Line
  | .worker line => [line]
  | .worker_exit => []

def Phase.line : Phase → List Line
  | .taken e => e.line
  | _ => []

/-- The lines that have reached a call: received, taken from its queue, still in it. -/
def Call.lines (c : Call) : List Line := c.received ++ c.phase.line ++ c.queue.flatMap Event.line

/-- The line the reader has looked up and not put yet. -/
def on_its_way (s : Pool) (i : ℕ) : List Line :=
  match s.reader with
  | .putting j line => if j = i then [line] else []
  | _ => []

/-- The lines of a call, with those on their way, are addressed to it and in the worker's order. -/
structure Call.Served (c : Call) (way log : List Line) : Prop where
  own : ∀ line ∈ c.lines ++ way, line.rid = c.id
  ordered : (c.lines ++ way).Sublist log

structure Delivered (s : Pool) : Prop where
  target : ∀ i line, s.reader = .putting i line → i < s.calls.length
  served : ∀ (i : ℕ) (c : Call), s.calls[i]? = some c → c.Served (on_its_way s i) s.emitted

section
variable {closed broken : Bool} {m : Move} {c c' : Call} {e : Effect}

/-- A move may drop a line, and adds none. -/
theorem Call.move_lines (h : c.move closed broken m = some (c', e)) : c'.lines.Sublist c.lines := by
  unfold Call.move Call.goes at h
  split at h <;> (try split at h) <;> (try split at h) <;> cases h <;>
    simp [Call.lines, Phase.line, Event.line, *]

theorem Call.Served.mono {way way' log log' : List Line} (h : c.Served way log)
    (hid : c'.id = c.id) (hlines : (c'.lines ++ way').Sublist (c.lines ++ way))
    (hlog : log.Sublist log') : c'.Served way' log' where
  own line hl := (h.own line (hlines.subset hl)).trans hid.symm
  ordered := (hlines.trans h.ordered).trans hlog

theorem lines_put (c : Call) (ev : Event) :
    Call.lines { c with queue := c.queue ++ [ev] } = c.lines ++ ev.line := by
  simp [Call.lines]

end

section
variable {s t : Pool} {a : Action} {i : ℕ} {c : Call}

theorem on_its_way_reading (h : s.reader = .reading) (i : ℕ) : on_its_way s i = [] := by
  simp [on_its_way, h]

theorem served_new {sync ser : Bool} {id : Option String} {p : Phase} (h : p.first = true)
    (log : List Line) : (Call.new sync id ser p).Served [] log := by
  have hlines : (Call.new sync id ser p).lines = [] := by
    cases p <;> simp_all [Phase.first, Call.lines, Call.new, Phase.line]
  constructor <;> simp [hlines]

theorem start_delivered (hs : Delivered s) (sync ser : Bool) (id : Option String) :
    Delivered (s.start sync id ser) := by
  have happend : ∀ p, p.first = true → ∀ n, Delivered
      { s with available := n, calls := s.calls ++ [.new sync id ser p] } := by
    intro p hp n
    constructor
    · intro i line hi
      have hlt := hs.target i line hi
      simp only [List.length_append, List.length_cons]
      omega
    · intro i c hc
      rcases get_concat_iff.1 hc with hc | ⟨rfl, rfl⟩
      · exact hs.served i c hc
      · have hway : on_its_way s s.calls.length = [] := by
          unfold on_its_way
          split
          · next j line hj =>
            have hlt := hs.target j line hj
            rw [if_neg (by omega)]
          · rfl
        show (Call.new sync id ser p).Served (on_its_way s s.calls.length) s.emitted
        rw [hway]
        exact served_new hp _
  unfold Pool.start
  split
  · cases sync <;> exact happend _ rfl _
  · split <;> exact happend _ rfl _

/-- A call whose queue grows by a sentinel or not at all. -/
theorem served_put {way log : List Line} (h : c.Served way log) (b : Prop) [Decidable b] :
    Call.Served (if b then { c with queue := c.queue ++ [.worker_exit] } else c) way log := by
  split
  · refine h.mono rfl ?_ (List.Sublist.refl _)
    rw [lines_put]
    simp [Event.line]
  · exact h

theorem step_delivered (h : Steps s a t) (henl : Enlisted s) (hs : Delivered s) : Delivered t := by
  cases a with
  | send_request id ser | request id ser =>
    obtain rfl := Option.some.inj h
    exact start_delivered hs _ _ _
  | stdin_breaks | close =>
    obtain rfl := Option.some.inj h
    exact ⟨hs.target, hs.served⟩
  | move i m =>
    obtain ⟨d, d', e, hd, hm, ht, _⟩ := move_cases h
    have hcalls : t.calls = s.calls.set i d' := by rw [ht]
    have hreader : t.reader = s.reader := by rw [ht]
    constructor
    · intro j line hj
      rw [hcalls, List.length_set]
      exact hs.target j line (hreader ▸ hj)
    · intro j c hc
      have hway : on_its_way t j = on_its_way s j := by unfold on_its_way; rw [hreader]
      rw [hway, show t.emitted = s.emitted by rw [ht]]
      rw [hcalls] at hc
      rcases (get_set_iff hd).1 hc with ⟨rfl, rfl⟩ | ⟨_, hc⟩
      · exact (hs.served i d hd).mono (Call.move_frame hm).2.1
          ((Call.move_lines hm).append (List.Sublist.refl _)) (List.Sublist.refl _)
      · exact hs.served j c hc
  | emit line =>
    simp only [Steps, Pool.step] at h
    split at h
    · next hreading =>
      have hway := on_its_way_reading hreading
      split at h
      · next i hi =>
        cases h
        obtain ⟨rid, hrid, hi⟩ := Option.bind_eq_some_iff.1 hi
        have hline : line.rid = some rid := (Option.filter_eq_some_iff.1 hrid).1
        obtain ⟨d, hd, hdid, _⟩ := henl rid i hi
        constructor
        · intro j line' hj
          obtain ⟨rfl, rfl⟩ := Reader.putting.inj hj
          exact lt_length_of_get hd
        · intro j c hc
          obtain ⟨hown, hord⟩ := hs.served j c hc
          rw [hway, List.append_nil] at hown hord
          by_cases hij : i = j
          · subst hij
            obtain rfl : d = c := Option.some.inj (hd.symm.trans hc)
            constructor
            · intro l hl
              simp only [on_its_way, if_true, List.mem_append, List.mem_singleton] at hl
              rcases hl with hl | rfl
              · exact hown l hl
              · exact hline.trans hdid.symm
            · simp only [on_its_way, if_true]
              exact hord.append (List.Sublist.refl _)
          · constructor
            · intro l hl
              simp only [on_its_way, if_neg hij, List.append_nil] at hl
              exact hown l hl
            · simp only [on_its_way, if_neg hij, List.append_nil]
              exact hord.trans (List.sublist_append_left _ _)
      · cases h
        refine ⟨hs.target, fun j c hc => ?_⟩
        exact (hs.served j c hc).mono rfl (List.Sublist.refl _) (List.sublist_append_left _ _)
    · cases h
  | put_line =>
    simp only [Steps, Pool.step] at h
    split at h
    · next i line hreader =>
      cases h
      constructor
      · intro j l hj
        cases hj
      · intro j c hc
        simp only [get_put] at hc
        obtain ⟨d, hd, rfl⟩ := Option.map_eq_some_iff.1 hc
        refine (hs.served j d hd).mono ?_ ?_ (List.Sublist.refl _)
        · split <;> rfl
        · by_cases hij : i = j
          · simp [hij, lines_put, on_its_way, hreader, Event.line]
          · simp [hij, on_its_way, hreader]
    · cases h
  | sweep =>
    simp only [Steps, Pool.step] at h
    split at h
    · next hreading =>
      cases h
      constructor
      · intro j l hj
        cases hj
      · intro j c hc
        simp only [get_put_exit] at hc
        obtain ⟨d, hd, rfl⟩ := Option.map_eq_some_iff.1 hc
        have hserved := hs.served j d hd
        rw [on_its_way_reading hreading] at hserved
        exact served_put hserved _
    · cases h
  | close_clear k =>
    simp only [Steps, Pool.step] at h
    split at h
    · cases h
      exact ⟨hs.target, hs.served⟩
    · cases h
  | close_put k =>
    simp only [Steps, Pool.step] at h
    split at h
    · cases h
      constructor
      · intro j l hj
        have hlt := hs.target j l hj
        simpa [put] using hlt
      · intro j c hc
        simp only [get_put] at hc
        obtain ⟨d, hd, rfl⟩ := Option.map_eq_some_iff.1 hc
        exact served_put (hs.served j d hd) _
    · cases h

end

/-! Who is woken -/

/-- The events a caller stops at. -/
def Event.ends : Event → Bool
  | .worker line => line.terminal
  | .worker_exit => true

/-- The queue holds a terminal event or the sentinel. -/
def Call.answerable (c : Call) : Bool := c.queue.any Event.ends

/-- A `close()` has the queue of call `i` still to wake. -/
def Pending (s : Pool) (i : ℕ) : Prop := ∃ ns, some ns ∈ s.closers ∧ i ∈ ns

/-- The call is registered and has not seen its last event. -/
def Phase.open : Phase → Bool
  | .registered | .waiting => true
  | .taken e => !e.ends
  | .yielded terminal => !terminal
  | _ => false

/-- The call's request is written and its last event may be still to come. -/
def Phase.listening : Phase → Bool
  | .waiting | .taken _ | .yielded _ => true
  | _ => false

/-- The call has not registered. -/
def Phase.early : Phase → Bool
  | .acquiring .. | .blocked | .late | .abandoned _ | .entered | .checked => true
  | _ => false

/-- No id is used twice. -/
def Distinct (s : Pool) : Prop :=
  ∀ (i j : ℕ) (c d : Call) (rid : String), s.calls[i]? = some c → s.calls[j]? = some d →
    c.id = some rid → d.id = some rid → i = j

section
variable {closed broken : Bool} {m : Move} {c c' : Call} {e : Effect}

/-- A call becomes open by registering, and stays so with what its queue holds. -/
theorem Call.move_open (h : c.move closed broken m = some (c', e)) (ho : c'.phase.open = true) :
    (∃ rid, e = .insert rid) ∨
      c.phase.open = true ∧ e = .quiet ∧ (c.answerable = true → c'.answerable = true) := by
  unfold Call.move Call.goes at h
  split at h <;> (try split at h) <;> (try split at h) <;> cases h <;>
    simp_all [Phase.open, Call.answerable, Event.ends]

theorem Call.move_listening (h : c.move closed broken m = some (c', e))
    (hl : c'.phase.listening = true) : c.phase.listening = true ∨ closed = false := by
  unfold Call.move Call.goes at h
  split at h <;> (try split at h) <;> (try split at h) <;> cases h <;>
    simp_all [Phase.listening]

theorem Call.move_early (h : c.move closed broken m = some (c', e)) (he : c'.phase.early = true) :
    c.phase.early = true ∧ c'.queue = c.queue := by
  unfold Call.move Call.goes at h
  split at h <;> (try split at h) <;> (try split at h) <;> cases h <;>
    simp_all [Phase.early]

theorem Call.move_register {rid : String} (h : c.move closed broken .register = some (c', e))
    (hid : c.id = some rid) :
    c.phase = .checked ∧ c' = { c with phase := .registered } ∧ e = .insert rid := by
  unfold Call.move Call.goes at h
  cases hp : c.phase <;> simp only [hp, hid, reduceCtorEq] at h
  cases h
  exact ⟨rfl, by rw [← hid], rfl⟩

/-- Only `register` puts an entry into `_inflight`. -/
theorem Call.move_insert {rid : String} (h : c.move closed broken m = some (c', .insert rid)) :
    m = .register ∧ c.phase = .checked ∧ c' = { c with phase := .registered } := by
  unfold Call.move Call.goes at h
  split at h <;> (try split at h) <;> (try split at h) <;> cases h
  exact ⟨rfl, ‹_›, rfl⟩

end

/-- An open call will be woken: it is answerable, or in `_inflight` for the reader and `close()` to
    find, or on the list of a `close()`. After a `close()` nobody in `_inflight` listens. -/
structure Woken (s : Pool) : Prop where
  kept : ∀ (i : ℕ) (c : Call), s.calls[i]? = some c → c.phase.open = true →
    c.answerable = true ∨ (∃ rid, s.inflight.get? rid = some i) ∨ Pending s i
  closing : s.closers ≠ [] → s.closed = true
  cleared : s.cleared = true → s.closed = true
  unheard : s.cleared = true → ∀ (rid : String) (i : ℕ) (c : Call),
    s.inflight.get? rid = some i → s.calls[i]? = some c → c.phase.listening = false
  pending_lt : ∀ i, Pending s i → i < s.calls.length
  early : ∀ (i : ℕ) (c : Call), s.calls[i]? = some c → c.phase.early = true →
    c.queue = [] ∧ ¬ Pending s i ∧ ∀ line, s.reader ≠ .putting i line

theorem Phase.enlisted_not_early {p : Phase} (h : p.enlisted = true) : p.early = false := by
  cases p <;> first | rfl | simp [enlisted] at h

section
variable {s t : Pool} {a : Action} {i : ℕ} {c : Call}

theorem start_woken (hdel : Delivered s) (hs : Woken s) (sync ser : Bool) (id : Option String) :
    Woken (s.start sync id ser) := by
  have happend : ∀ p, p.first = true → ∀ n, Woken
      { s with available := n, calls := s.calls ++ [.new sync id ser p] } := by
    intro p hp n
    have hnot : ¬ Pending s s.calls.length := fun hpend => Nat.lt_irrefl _ (hs.pending_lt _ hpend)
    constructor
    case kept =>
      intro i c hc ho
      rcases get_concat_iff.1 hc with hc | ⟨rfl, rfl⟩
      · exact hs.kept i c hc ho
      · cases p <;> simp_all [Phase.first, Phase.open, Call.new]
    case closing => exact hs.closing
    case cleared => exact hs.cleared
    case unheard =>
      intro hcl rid i c hi hc
      rcases get_concat_iff.1 hc with hc | ⟨_, rfl⟩
      · exact hs.unheard hcl rid i c hi hc
      · cases p <;> simp_all [Phase.first, Phase.listening, Call.new]
    case pending_lt =>
      intro i hi
      have hlt := hs.pending_lt i hi
      simp only [List.length_append, List.length_cons]
      omega
    case early =>
      intro i c hc he
      rcases get_concat_iff.1 hc with hc | ⟨rfl, rfl⟩
      · exact hs.early i c hc he
      · exact ⟨rfl, hnot, fun line hl => Nat.lt_irrefl _ (hdel.target _ line hl)⟩
  unfold Pool.start
  split
  · cases sync <;> exact happend _ rfl _
  · split <;> exact happend _ rfl _

theorem move_woken {m : Move} (h : Steps s (.move i m) t) (hdis : Distinct s) (henl : Enlisted s)
    (hs : Woken s) : Woken t := by
  obtain ⟨d, d', e, hd, hm, ht, _⟩ := move_cases h
  obtain ⟨_, hid, _⟩ := Call.move_frame hm
  obtain ⟨hins, hrem, _⟩ := Call.move_enlisted hm
  have hcalls : t.calls = s.calls.set i d' := by rw [ht]
  have hinf : t.inflight = e.inflight i s.inflight := by rw [ht]
  have hpend : ∀ j, Pending t j ↔ Pending s j := fun j => by rw [ht]; rfl
  -- the entry of another call stays, since its id is another one
  have hother : ∀ rid j, j ≠ i → s.inflight.get? rid = some j → t.inflight.get? rid = some j := by
    intro rid j hj hget
    obtain ⟨c, hc, hcid, _⟩ := henl rid j hget
    have hne : ∀ rid', d.id = some rid' → rid ≠ rid' := by
      rintro rid' hdid rfl
      exact hj (hdis j i c d rid hc hd hcid hdid)
    rw [hinf]
    cases e with
    | insert rid' =>
      have hne' := hne rid' (hins rid' rfl).1
      simpa [Effect.inflight, hne'] using hget
    | remove r =>
      cases r with
      | none => exact hget
      | some rid' =>
        have hne' := hne rid' (hrem _ rfl).symm
        simpa [Effect.inflight, Dict.get?_filterKeys, hne'] using hget
    | _ => exact hget
  -- an entry of this step is an old one, or the mover's
  have hentry : ∀ rid j, t.inflight.get? rid = some j → s.inflight.get? rid = some j ∨
      j = i ∧ ∃ rid', e = .insert rid' := by
    intro rid j hget
    rw [hinf] at hget
    cases e with
    | insert rid' =>
      simp only [Effect.inflight, Dict.get?_set] at hget
      split at hget
      · exact .inr ⟨(Option.some.inj hget).symm, rid', rfl⟩
      · exact .inl hget
    | remove r =>
      cases r with
      | none => exact .inl hget
      | some rid' =>
        simp only [Effect.inflight, Dict.get?_filterKeys] at hget
        split at hget
        · exact .inl hget
        · cases hget
    | _ => exact .inl hget
  constructor
  case kept =>
    intro j c hc ho
    rw [hcalls] at hc
    rcases (get_set_iff hd).1 hc with ⟨rfl, rfl⟩ | ⟨hij, hc⟩
    · rcases Call.move_open hm ho with ⟨rid, rfl⟩ | ⟨ho', rfl, hans⟩
      · exact .inr (.inl ⟨rid, by simp [hinf, Effect.inflight]⟩)
      · rcases hs.kept i d hd ho' with hk | ⟨rid, hk⟩ | hk
        · exact .inl (hans hk)
        · exact .inr (.inl ⟨rid, hinf ▸ hk⟩)
        · exact .inr (.inr ((hpend i).2 hk))
    · rcases hs.kept j c hc ho with hk | ⟨rid, hk⟩ | hk
      · exact .inl hk
      · exact .inr (.inl ⟨rid, hother rid j (Ne.symm hij) hk⟩)
      · exact .inr (.inr ((hpend j).2 hk))
  case closing =>
    rw [ht]
    exact hs.closing
  case cleared =>
    rw [ht]
    exact hs.cleared
  case unheard =>
    intro hcl rid j c hget hc
    have hcl' : s.cleared = true := by rw [ht] at hcl; exact hcl
    have hclosed := hs.cleared hcl'
    rw [hcalls] at hc
    rcases (get_set_iff hd).1 hc with ⟨rfl, rfl⟩ | ⟨hij, hc⟩
    · rcases hentry rid i hget with hold | ⟨_, rid', rfl⟩
      · cases hl : d'.phase.listening with
        | false => rfl
        | true =>
          rcases Call.move_listening hm hl with hl' | hopen
          · exact absurd (hs.unheard hcl' rid i d hold hd) (by simp [hl'])
          · simp [hclosed] at hopen
      · rw [(Call.move_insert hm).2.2]
        rfl
    · rcases hentry rid j hget with hold | ⟨rfl, _⟩
      · exact hs.unheard hcl' rid j c hold hc
      · exact absurd rfl hij
  case pending_lt =>
    intro j hj
    rw [hcalls, List.length_set]
    exact hs.pending_lt j ((hpend j).1 hj)
  case early =>
    intro j c hc he
    rw [hcalls] at hc
    rw [show t.reader = s.reader by rw [ht], hpend]
    rcases (get_set_iff hd).1 hc with ⟨rfl, rfl⟩ | ⟨_, hc⟩
    · obtain ⟨he', hq⟩ := Call.move_early hm he
      rw [hq]
      exact hs.early i d hd he'
    · exact hs.early j c hc he

/-- What a sentinel or a line in a queue changes: the call may become answerable. -/
theorem answerable_put {ev : Event} (h : c.answerable = true) :
    Call.answerable { c with queue := c.queue ++ [ev] } = true := by
  unfold Call.answerable at h ⊢
  simp [h]

theorem answerable_exit (c : Call) :
    Call.answerable { c with queue := c.queue ++ [.worker_exit] } = true := by
  simp [Call.answerable, Event.ends]

/-- A line or a sentinel for the call `i`, which is not early. -/
theorem put_woken {e : Event} (hs : Woken s) (hi : ∀ c, s.calls[i]? = some c → c.phase.early = false)
    (hcalls : t.calls = put s.calls i e) (hinf : t.inflight = s.inflight)
    (hclosed : t.closed = s.closed) (hcleared : t.cleared = s.cleared)
    (hreader : ∀ j line, t.reader = .putting j line → s.reader = .putting j line)
    (hclosers : t.closers ≠ [] → s.closers ≠ [])
    (hkept : ∀ j, Pending s j → Pending t j ∨ i = j ∧ e.ends = true)
    (hpend : ∀ j, Pending t j → Pending s j) : Woken t := by
  have hget : ∀ (j : ℕ) (c : Call), t.calls[j]? = some c → ∃ d, s.calls[j]? = some d ∧
      c = if i = j then { d with queue := d.queue ++ [e] } else d := by
    intro j c hc
    rw [hcalls, get_put] at hc
    obtain ⟨d, hd, heq⟩ := Option.map_eq_some_iff.1 hc
    exact ⟨d, hd, heq.symm⟩
  constructor
  case kept =>
    intro j c hc ho
    obtain ⟨d, hd, rfl⟩ := hget j c hc
    have ho' : d.phase.open = true := by
      split at ho <;> exact ho
    rcases hs.kept j d hd ho' with hk | hk | hk
    · left
      split
      · exact answerable_put hk
      · exact hk
    · exact .inr (.inl (hinf ▸ hk))
    · rcases hkept j hk with hk | ⟨rfl, hends⟩
      · exact .inr (.inr hk)
      · left
        simp [Call.answerable, hends]
  case closing =>
    intro hne
    rw [hclosed]
    exact hs.closing (hclosers hne)
  case cleared =>
    rw [hclosed, hcleared]
    exact hs.cleared
  case unheard =>
    intro hcl rid j c hj hc
    obtain ⟨d, hd, rfl⟩ := hget j c hc
    have hquiet := hs.unheard (hcleared ▸ hcl) rid j d (hinf ▸ hj) hd
    split <;> exact hquiet
  case pending_lt =>
    intro j hj
    have hlt := hs.pending_lt j (hpend j hj)
    simpa [hcalls, put] using hlt
  case early =>
    intro j c hc he
    obtain ⟨d, hd, rfl⟩ := hget j c hc
    by_cases hij : i = j
    · subst hij
      rw [if_pos rfl] at he
      have hnot := hi d hd
      exact absurd he (by simp [hnot])
    · rw [if_neg hij] at he ⊢
      obtain ⟨hq, hnp, hnr⟩ := hs.early j d hd he
      exact ⟨hq, fun hj => hnp (hpend j hj), fun line hl => hnr line (hreader j line hl)⟩

theorem sweep_woken (h : Steps s .sweep t) (henl : Enlisted s) (hs : Woken s) : Woken t := by
  simp only [Steps, Pool.step] at h
  split at h
  · cases h
    have hget : ∀ (j : ℕ) (c : Call),
        (put_exit s.calls (s.inflight.items.map Prod.snd))[j]? = some c → ∃ d, s.calls[j]? = some d ∧
          c = if j ∈ s.inflight.items.map Prod.snd then { d with queue := d.queue ++ [.worker_exit] }
            else d := by
      intro j c hc
      rw [get_put_exit] at hc
      obtain ⟨d, hd, heq⟩ := Option.map_eq_some_iff.1 hc
      exact ⟨d, hd, heq.symm⟩
    constructor
    case kept =>
      intro j c hc ho
      obtain ⟨d, hd, rfl⟩ := hget j c hc
      have ho' : d.phase.open = true := by
        split at ho <;> exact ho
      by_cases hin : j ∈ s.inflight.items.map Prod.snd
      · left
        rw [if_pos hin]
        exact answerable_exit d
      · rw [if_neg hin]
        rcases hs.kept j d hd ho' with hk | ⟨rid, hk⟩ | hk
        · exact .inl hk
        · exact absurd (List.mem_map.2 ⟨_, Dict.mem_items.2 hk, rfl⟩) hin
        · exact .inr (.inr hk)
    case closing => exact hs.closing
    case cleared => exact hs.cleared
    case unheard =>
      intro _ rid j c hj
      cases hj
    case pending_lt =>
      intro j hj
      have hlt := hs.pending_lt j hj
      simpa [put_exit] using hlt
    case early =>
      intro j c hc he
      obtain ⟨d, hd, rfl⟩ := hget j c hc
      by_cases hin : j ∈ s.inflight.items.map Prod.snd
      · obtain ⟨p, hp, rfl⟩ := List.mem_map.1 hin
        obtain ⟨d', hd', _, hen⟩ := henl p.1 p.2 (Dict.mem_items.1 hp)
        obtain rfl : d = d' := Option.some.inj (hd.symm.trans hd')
        rw [if_pos hin] at he
        have hnot := Phase.enlisted_not_early hen
        exact absurd he (by simp [hnot])
      · rw [if_neg hin] at he ⊢
        obtain ⟨hq, hnp, _⟩ := hs.early j d hd he
        exact ⟨hq, hnp, fun line hl => by cases hl⟩
  · cases h

theorem clear_woken {k : ℕ} (h : Steps s (.close_clear k) t) (henl : Enlisted s) (hs : Woken s) :
    Woken t := by
  simp only [Steps, Pool.step] at h
  split at h
  · next hk =>
    cases h
    have hlt : k < s.closers.length := lt_length_of_get hk
    have hne : s.closers ≠ [] := List.ne_nil_of_mem (List.mem_of_getElem? hk)
    have hpend : ∀ j, Pending { s with closers := s.closers.set k (some (s.inflight.items.map Prod.snd)) } j ↔
        Pending s j ∨ j ∈ s.inflight.items.map Prod.snd := by
      intro j
      constructor
      · rintro ⟨ns, hns, hj⟩
        obtain ⟨n, hn⟩ := List.getElem?_of_mem hns
        rcases (get_set_iff hk).1 hn with ⟨_, hnew⟩ | ⟨_, hold⟩
        · obtain rfl := Option.some.inj hnew
          exact .inr hj
        · exact .inl ⟨ns, List.mem_of_getElem? hold, hj⟩
      · rintro (⟨ns, hns, hj⟩ | hj)
        · obtain ⟨n, hn⟩ := List.getElem?_of_mem hns
          have hkn : k ≠ n := by
            rintro rfl
            rw [hk] at hn
            cases hn
          exact ⟨ns, List.mem_of_getElem? ((get_set_iff hk).2 (.inr ⟨hkn, hn⟩)), hj⟩
        · exact ⟨_, List.mem_of_getElem? ((get_set_iff hk).2 (.inl ⟨rfl, rfl⟩)), hj⟩
    constructor
    case kept =>
      intro j c hc ho
      rcases hs.kept j c hc ho with hans | ⟨rid, hin⟩ | hp
      · exact .inl hans
      · exact .inr (.inr ((hpend j).2 (.inr (List.mem_map.2 ⟨_, Dict.mem_items.2 hin, rfl⟩))))
      · exact .inr (.inr ((hpend j).2 (.inl hp)))
    case closing => exact fun _ => hs.closing hne
    case cleared => exact fun _ => hs.closing hne
    case unheard =>
      intro _ rid j c hj
      cases hj
    case pending_lt =>
      intro j hj
      rcases (hpend j).1 hj with hj | hj
      · exact hs.pending_lt j hj
      · obtain ⟨p, hp, rfl⟩ := List.mem_map.1 hj
        obtain ⟨c, hc, _⟩ := henl p.1 p.2 (Dict.mem_items.1 hp)
        exact lt_length_of_get hc
    case early =>
      intro j c hc he
      obtain ⟨hq, hnp, hnr⟩ := hs.early j c hc he
      refine ⟨hq, fun hj => ?_, hnr⟩
      rcases (hpend j).1 hj with hj | hj
      · exact hnp hj
      · obtain ⟨p, hp, rfl⟩ := List.mem_map.1 hj
        obtain ⟨d, hd, _, hen⟩ := henl p.1 p.2 (Dict.mem_items.1 hp)
        obtain rfl : c = d := Option.some.inj (hc.symm.trans hd)
        have hnot := Phase.enlisted_not_early hen
        exact absurd he (by simp [hnot])
  · cases h

theorem close_put_woken {k : ℕ} (h : Steps s (.close_put k) t) (hs : Woken s) : Woken t := by
  simp only [Steps, Pool.step] at h
  split at h
  · next i rest hk =>
    cases h
    have hi : Pending s i := ⟨_, List.mem_of_getElem? hk, by simp⟩
    have hne : s.closers ≠ [] := List.ne_nil_of_mem (List.mem_of_getElem? hk)
    refine put_woken hs (i := i) (e := .worker_exit) ?_ rfl rfl rfl rfl (fun _ _ hl => hl)
      (fun _ => hne) ?_ ?_
    · intro c hc
      cases he : c.phase.early with
      | false => rfl
      | true => exact absurd hi (hs.early i c hc he).2.1
    · rintro j ⟨ns, hns, hj⟩
      obtain ⟨n, hn⟩ := List.getElem?_of_mem hns
      by_cases hkn : k = n
      · subst hkn
        obtain rfl : ns = i :: rest := by simpa [hk] using hn.symm
        rcases List.mem_cons.1 hj with rfl | hj
        · exact .inr ⟨rfl, rfl⟩
        · exact .inl ⟨rest, List.mem_of_getElem? ((get_set_iff hk).2 (.inl ⟨rfl, rfl⟩)), hj⟩
      · exact .inl ⟨ns, List.mem_of_getElem? ((get_set_iff hk).2 (.inr ⟨hkn, hn⟩)), hj⟩
    · rintro j ⟨ns, hns, hj⟩
      obtain ⟨n, hn⟩ := List.getElem?_of_mem hns
      rcases (get_set_iff hk).1 hn with ⟨_, hnew⟩ | ⟨_, hold⟩
      · obtain rfl := Option.some.inj hnew
        exact ⟨_, List.mem_of_getElem? hk, List.mem_cons_of_mem _ hj⟩
      · exact ⟨ns, List.mem_of_getElem? hold, hj⟩
  · cases h

theorem step_woken (h : Steps s a t) (hdis : Distinct s) (henl : Enlisted s) (hdel : Delivered s)
    (hs : Woken s) : Woken t := by
  cases a with
  | send_request id ser | request id ser =>
    obtain rfl := Option.some.inj h
    exact start_woken hdel hs _ _ _
  | move i m => exact move_woken h hdis henl hs
  | stdin_breaks =>
    obtain rfl := Option.some.inj h
    exact ⟨hs.kept, hs.closing, hs.cleared, hs.unheard, hs.pending_lt, hs.early⟩
  | close =>
    obtain rfl := Option.some.inj h
    have hpend : ∀ j, Pending { s with closers := s.closers ++ [none] } j ↔ Pending s j := by
      simp [Pending]
    constructor
    case kept =>
      intro j c hc ho
      rcases hs.kept j c hc ho with hk | hk | hk
      · exact .inl hk
      · exact .inr (.inl hk)
      · exact .inr (.inr ((hpend j).2 hk))
    case closing => exact fun _ => rfl
    case cleared => exact fun _ => rfl
    case unheard => exact hs.unheard
    case pending_lt => exact fun j hj => hs.pending_lt j ((hpend j).1 hj)
    case early =>
      intro j c hc he
      obtain ⟨hq, hnp, hnr⟩ := hs.early j c hc he
      exact ⟨hq, fun hj => hnp ((hpend j).1 hj), hnr⟩
  | emit line =>
    simp only [Steps, Pool.step] at h
    split at h
    · split at h
      · next i hi =>
        cases h
        obtain ⟨rid, _, hi⟩ := Option.bind_eq_some_iff.1 hi
        obtain ⟨d, hd, _, hen⟩ := henl rid i hi
        refine ⟨hs.kept, hs.closing, hs.cleared, hs.unheard, hs.pending_lt, fun j c hc he => ?_⟩
        obtain ⟨hq, hnp, _⟩ := hs.early j c hc he
        refine ⟨hq, hnp, fun l hl => ?_⟩
        obtain ⟨rfl, _⟩ := Reader.putting.inj hl
        obtain rfl : c = d := Option.some.inj (hc.symm.trans hd)
        have hnot := Phase.enlisted_not_early hen
        exact absurd he (by simp [hnot])
      · cases h
        exact ⟨hs.kept, hs.closing, hs.cleared, hs.unheard, hs.pending_lt, hs.early⟩
    · cases h
  | put_line =>
    simp only [Steps, Pool.step] at h
    split at h
    · next i line hreader =>
      cases h
      refine put_woken hs (i := i) (e := .worker line) ?_ rfl rfl rfl rfl (fun _ _ hl => by cases hl)
        (fun hne => hne) (fun _ hj => .inl hj) (fun _ hj => hj)
      intro c hc
      cases he : c.phase.early with
      | false => rfl
      | true => exact absurd hreader ((hs.early i c hc he).2.2 line)
    · cases h
  | sweep => exact sweep_woken h henl hs
  | close_clear k => exact clear_woken h henl hs
  | close_put k => exact close_put_woken h hs

end

/-! Runs -/

/-- The action puts a request into `_inflight`. -/
def Pool.registers (s : Pool) : Action → Bool
  | .move i .register => ((s.calls[i]?).bind Call.id).isSome
  | _ => false

/-- No request registers once the reader is done. -/
def InTime (s : Pool) (a : Action) : Prop := s.registers a = true → s.reader ≠ .finished

instance (s : Pool) (a : Action) : Decidable (InTime s a) := inferInstanceAs (Decidable (_ → _))

/-- Nobody is left waiting for a worker that is gone: with the reader done, every registered queue
    holds a terminal event or the sentinel; with the reader done or a `close()` over, so does the
    queue of every caller that waits, but for those a `close()` is about to wake. And what callers
    have received is theirs, in the order the worker emitted it. -/
structure Answered (s : Pool) : Prop where
  registered : s.reader = .finished → ∀ (rid : String) (i : ℕ) (c : Call),
    s.inflight.get? rid = some i → s.calls[i]? = some c → c.answerable = true
  waiting : s.reader = .finished ∨ s.cleared = true → ∀ (i : ℕ) (c : Call),
    s.calls[i]? = some c → c.phase = .waiting → c.answerable = true ∨ Pending s i
  own : ∀ c ∈ s.calls, ∀ line ∈ c.received, line.rid = c.id
  ordered : ∀ c ∈ s.calls, c.received.Sublist s.emitted

section
variable {s t : Pool} {a : Action} {concurrency : ℤ} {queue : Bool} {as : List Action}

theorem step_distinct (h : Steps s a t) (ht : Distinct t) : Distinct s := by
  intro i j c d rid hc hd hcid hdid
  obtain ⟨c', hc', hid, _⟩ := step_calls h hc
  obtain ⟨d', hd', hid', _⟩ := step_calls h hd
  exact ht i j c' d' rid hc' hd' (hid.trans hcid) (hid'.trans hdid)

theorem runs_delivered (h : Runs concurrency queue as s) : Delivered s := by
  have hinv : Enlisted s ∧ Delivered s := by
    refine Run.invariant (I := fun s => Enlisted s ∧ Delivered s) (fun hs hst => ?_) ?_ h
    · exact ⟨step_enlisted hst hs.1, step_delivered hst hs.1 hs.2⟩
    · constructor
      · intro rid i hi
        cases hi
      · constructor
        · intro i line hi
          cases hi
        · intro i c hc
          simp [Pool.init] at hc
  exact hinv.2

theorem woken_init : Woken (.init concurrency queue) := by
  constructor <;> simp [Pool.init, Pending]

theorem runs_woken (h : Runs concurrency queue as s) (hdis : Distinct s) : Woken s := by
  induction h with
  | nil => exact woken_init
  | snoc hrun hst ih =>
    have hdis' := step_distinct hst hdis
    exact step_woken hst hdis' (runs_enlisted hrun) (runs_delivered hrun) (ih hdis')

/-- With every registration in time, `_inflight` stays empty after the sweep. -/
theorem step_swept (h : Steps s a t) (hin : InTime s a)
    (hs : s.reader = .finished → ∀ rid, s.inflight.get? rid = none) :
    t.reader = .finished → ∀ rid, t.inflight.get? rid = none := by
  intro ht rid
  cases a with
  | move i m =>
    obtain ⟨d, d', e, hd, hm, heq, _⟩ := move_cases h
    have hreader : s.reader = .finished := by rw [heq] at ht; exact ht
    have hinf : t.inflight = e.inflight i s.inflight := by rw [heq]
    rw [hinf]
    cases e with
    | insert rid' =>
      obtain ⟨rfl, _, _⟩ := Call.move_insert hm
      have hid := ((Call.move_enlisted hm).1 rid' rfl).1
      exact absurd hreader (hin (by simp [Pool.registers, hd, hid]))
    | remove r =>
      cases r with
      | none => exact hs hreader rid
      | some rid' => simp [Effect.inflight, Dict.get?_filterKeys, hs hreader rid]
    | _ => exact hs hreader rid
  | send_request id ser | request id ser =>
    obtain rfl := Option.some.inj h
    unfold Pool.start at ht ⊢
    split at ht <;> (try split at ht) <;> simp_all
  | stdin_breaks | close =>
    obtain rfl := Option.some.inj h
    exact hs ht rid
  | emit line =>
    simp only [Steps, Pool.step] at h
    split at h
    · split at h <;> cases h
      · cases ht
      · exact hs ht rid
    · cases h
  | put_line =>
    simp only [Steps, Pool.step] at h
    split at h
    · cases h
      cases ht
    · cases h
  | sweep =>
    simp only [Steps, Pool.step] at h
    split at h
    · cases h
      rfl
    · cases h
  | close_clear k =>
    simp only [Steps, Pool.step] at h
    split at h
    · cases h
      rfl
    · cases h
  | close_put k =>
    simp only [Steps, Pool.step] at h
    split at h
    · cases h
      exact hs ht rid
    · cases h

theorem runs_swept (h : Run (restrict InTime Steps) (.init concurrency queue) as s) :
    s.reader = .finished → ∀ rid, s.inflight.get? rid = none :=
  Run.invariant (I := fun s => s.reader = .finished → ∀ rid, s.inflight.get? rid = none)
    (fun hs hst => step_swept hst.2 hst.1 hs) (fun _ _ => rfl) h

theorem answered_of (hwoken : Woken s) (hdel : Delivered s)
    (hswept : s.reader = .finished → ∀ rid, s.inflight.get? rid = none) : Answered s where
  registered hfin rid i c hi := by simp [hswept hfin rid] at hi
  waiting hgone i c hc hwait := by
    rcases hwoken.kept i c hc (by rw [hwait]; rfl) with hans | ⟨rid, hin⟩ | hpend
    · exact .inl hans
    · rcases hgone with hfin | hclear
      · simp [hswept hfin rid] at hin
      · have hnot := hwoken.unheard hclear rid i c hin hc
        simp [hwait, Phase.listening] at hnot
    · exact .inr hpend
  own c hc line hl := by
    obtain ⟨i, hi⟩ := List.getElem?_of_mem hc
    exact (hdel.served i c hi).own line (by simp [Call.lines, hl])
  ordered c hc := by
    obtain ⟨i, hi⟩ := List.getElem?_of_mem hc
    refine List.Sublist.trans ?_ (hdel.served i c hi).ordered
    simp [Call.lines]

/-- A request that registers after the sweep is registered with an empty queue. -/
theorem late_register (h : Steps s a t) (hwoken : Woken s) (hlate : ¬ InTime s a) : ¬ Answered t := by
  intro hans
  unfold InTime at hlate
  push Not at hlate
  obtain ⟨hreg, hfin⟩ := hlate
  unfold Pool.registers at hreg
  split at hreg
  · next i =>
    obtain ⟨d, d', e, hd, hm, heq, _⟩ := move_cases h
    obtain ⟨rid, hid⟩ : ∃ rid, d.id = some rid := by
      simpa [hd, Option.isSome_iff_exists] using hreg
    obtain ⟨hcheck, rfl, rfl⟩ := Call.move_register hm hid
    have hempty := (hwoken.early i d hd (by rw [hcheck]; rfl)).1
    have hget : t.inflight.get? rid = some i := by rw [heq]; simp [Effect.inflight]
    have hcall : t.calls[i]? = some { d with phase := .registered } := by
      rw [heq]
      exact (get_set_iff hd).2 (.inl ⟨rfl, rfl⟩)
    have hreader : t.reader = .finished := by rw [heq]; exact hfin
    have hanswer := hans.registered hreader rid i _ hget hcall
    simp [Call.answerable, hempty] at hanswer
  · cases hreg

theorem runs_det (h : Runs concurrency queue as s) (h' : Runs concurrency queue as t) : s = t :=
  Run.det h h' fun _ _ _ _ hst hst' => Option.some.inj (hst.symm.trans hst')

/-- In a run with distinct ids every state is answered exactly when no request registers after the
    reader's last sweep. -/
theorem answered_iff (h : Runs concurrency queue as s) (hdis : Distinct s) :
    (∀ bs u, bs <+: as → Runs concurrency queue bs u → Answered u) ↔
      Run (restrict InTime Steps) (.init concurrency queue) as s := by
  induction h with
  | nil =>
    refine ⟨fun _ => .nil, fun _ bs u hbs hu => ?_⟩
    obtain rfl := List.prefix_nil.1 hbs
    obtain rfl := runs_det Run.nil hu
    exact answered_of woken_init (runs_delivered Run.nil) fun _ _ => rfl
  | @snoc as s t a hrun hst ih =>
    have hdis' := step_distinct hst hdis
    have hlast : Runs concurrency queue (as ++ [a]) t := Run.snoc hrun hst
    constructor
    · intro hall
      have hbefore := (ih hdis').1 fun bs u hbs => hall bs u (hbs.trans (List.prefix_append _ _))
      refine .snoc hbefore ⟨?_, hst⟩
      by_contra hlate
      exact late_register hst (runs_woken hrun hdis') hlate (hall _ t (List.prefix_refl _) hlast)
    · intro hrestrict bs u hbs hu
      rcases List.prefix_concat_iff.1 hbs with rfl | hbs
      · obtain rfl := runs_det hlast hu
        exact answered_of (runs_woken hlast hdis) (runs_delivered hlast) (runs_swept hrestrict)
      · obtain ⟨s', hs', _⟩ := hrestrict.concat_inv
        obtain rfl := runs_det hrun (Run.mono (fun hst => hst.2) hs')
        exact (ih hdis').2 hs' bs u hbs hu

end

theorem distinct_single {s : Pool} {c : Call} (h : s.calls = [c]) : Distinct s := by
  intro i j _ _ _ hi hj _ _
  have hi' := lt_length_of_get hi
  have hj' := lt_length_of_get hj
  simp only [h, List.length_singleton] at hi' hj'
  omega

/-- The reader has crashed; the worker still takes lines. -/
def after_the_sweep : List Action :=
  [.sweep, .send_request "a" true, .move 0 .thread_start] ++ goes_ahead 0

theorem after_the_sweep_unanswered :
    ¬ ∀ (concurrency : ℤ) (queue : Bool) (as : List Action) (s : Pool),
      Runs concurrency queue as s → Distinct s → Answered s := by
  intro hall
  have hrun : Runs 1 true after_the_sweep
      { Pool.init 1 true with
        available := 0, inflight := Dict.empty.set "a" 0, reader := .finished,
        calls := [{ Call.new false (some "a") true .waiting with request_written := true }] } :=
    Run.of_replay rfl
  have hans := hall _ _ _ _ hrun (distinct_single rfl)
  simpa [Call.answerable, Call.new] using hans.registered rfl "a" 0 _ rfl rfl

/-- The worker exits with a request in flight. -/
def before_the_sweep : List Action :=
  [.send_request "a" true, .move 0 .thread_start] ++ goes_ahead 0 ++ [.sweep]

theorem answered_iff_before_the_sweep :
    ∃ s, Runs 1 true before_the_sweep s ∧ s.reader = .finished ∧
      ∀ bs u, bs <+: before_the_sweep → Runs 1 true bs u → Answered u := by
  have hrun : Runs 1 true before_the_sweep
      { Pool.init 1 true with
        available := 0, reader := .finished,
        calls := [{ Call.new false (some "a") true .waiting with
          queue := [.worker_exit], request_written := true }] } :=
    Run.of_replay rfl
  exact ⟨_, hrun, rfl, (answered_iff hrun (distinct_single rfl)).2 (Run.of_replay_if rfl)⟩

end LocalVoice.WorkerIO
