import LocalVoice.SlvClient.ToolResults

/-! Runs in which calls do not get in each other's way: `connect()`, which takes no lock, begins while no
    other call opens or tears down, and a socket is opened when the readers of the ones before are done.
    Then one call at a time is busy, and whatever a reader does, it is the reader of the last socket. -/

namespace LocalVoice.SlvClient
open LocalVoice.Lib

/-! ### The busy call -/

/-- The phases of an opening, and of what `reconnect()` does before. -/
def Phase.busy : Phase → Bool
  | .handling | .waiting | .locked | .writing _ | .ending_reader _ | .ending_ws _ | .ended => false
  | _ => true

/-- No call is busy, or one is, in this phase. -/
def Busy (l : List Task) : Option Phase → Prop
  | none => ∀ (i : ℕ) t, l[i]? = some t → t.phase.busy = false
  | some ph => ph.busy = true ∧ ∃ i : ℕ, (∃ job, l[i]? = some ⟨job, ph⟩) ∧
      ∀ (j : ℕ) t, l[j]? = some t → t.phase.busy = true → j = i

/-- A phase as what is busy. -/
def Phase.as_busy (ph : Phase) : Option Phase := if ph.busy then some ph else none

section
variable {l : List Task} {b : Option Phase} {i : ℕ} {t : Task} {job : Job} {ph : Phase}

theorem Busy.of_get (h : Busy l b) (ht : l[i]? = some t) (hbusy : t.phase.busy = true) :
    b = some t.phase := by
  cases b with
  | none =>
    rw [h i t ht] at hbusy
    cases hbusy
  | some ph =>
    obtain ⟨-, j, ⟨job, hj⟩, honly⟩ := h
    obtain rfl := honly i t ht hbusy
    rw [hj] at ht
    obtain rfl := Option.some.inj ht
    rfl

/-- A task that is not busy, and does not become so. -/
theorem Busy.set_calm (h : Busy l b) (ht : l[i]? = some t) (hcalm : t.phase.busy = false)
    (hph : ph.busy = false) : Busy (l.set i ⟨job, ph⟩) b := by
  have hnew : ∀ (j : ℕ) u, (l.set i ⟨job, ph⟩)[j]? = some u → u.phase.busy = true → l[j]? = some u := by
    intro j u hu hbusy
    rcases (get_set_iff ht).1 hu with ⟨-, rfl⟩ | ⟨-, hu⟩
    · rw [hph] at hbusy
      cases hbusy
    · exact hu
  cases b with
  | none =>
    intro j u hu
    by_contra hbusy
    rw [Bool.not_eq_false] at hbusy
    rw [h j u (hnew j u hu hbusy)] at hbusy
    cases hbusy
  | some p =>
    obtain ⟨hp, j, ⟨job', hj⟩, honly⟩ := h
    refine ⟨hp, j, ⟨job', (get_set_iff ht).2 (Or.inr ⟨?_, hj⟩)⟩, fun k u hu hbusy => ?_⟩
    · rintro rfl
      rw [hj] at ht
      obtain rfl := Option.some.inj ht
      rw [hp] at hcalm
      cases hcalm
    · exact honly k u (hnew k u hu hbusy) hbusy

/-- The task that becomes busy is the only one, if no other is. -/
theorem busy_set (hothers : ∀ (j : ℕ) u, l[j]? = some u → u.phase.busy = true → j = i)
    (ht : l[i]? = some t) : Busy (l.set i ⟨job, ph⟩) ph.as_busy := by
  unfold Phase.as_busy
  split
  · next hph =>
    refine ⟨hph, i, ⟨job, (get_set_iff ht).2 (Or.inl ⟨rfl, rfl⟩)⟩, fun j u hu hbusy => ?_⟩
    rcases (get_set_iff ht).1 hu with ⟨rfl, -⟩ | ⟨-, hu⟩
    · rfl
    · exact hothers j u hu hbusy
  · next hph =>
    intro j u hu
    rcases (get_set_iff ht).1 hu with ⟨-, rfl⟩ | ⟨hne, hu⟩
    · exact Bool.eq_false_iff.2 hph
    · by_contra hbusy
      exact hne (hothers j u hu (by rwa [Bool.not_eq_false] at hbusy)).symm

/-- The busy task goes on. -/
theorem Busy.set_busy (h : Busy l b) (ht : l[i]? = some t) (hbusy : t.phase.busy = true) :
    Busy (l.set i ⟨job, ph⟩) ph.as_busy := by
  refine busy_set (fun j u hu hu' => ?_) ht
  cases b with
  | none =>
    rw [h i t ht] at hbusy
    cases hbusy
  | some p =>
    obtain ⟨-, k, -, honly⟩ := h
    exact (honly j u hu hu').trans (honly i t ht hbusy).symm

/-- A task becomes busy while no other is. -/
theorem Busy.set_idle (h : Busy l none) (ht : l[i]? = some t) :
    Busy (l.set i ⟨job, ph⟩) ph.as_busy :=
  busy_set (fun j u hu hbusy => by rw [h j u hu] at hbusy; cases hbusy) ht

theorem Busy.concat_calm (h : Busy l b) (hph : ph.busy = false) : Busy (l ++ [⟨job, ph⟩]) b := by
  cases b with
  | none =>
    intro i u hu
    rcases get_concat_iff.1 hu with hu | ⟨-, rfl⟩
    · exact h i u hu
    · exact hph
  | some p =>
    obtain ⟨hp, i, ⟨job', hi⟩, honly⟩ := h
    refine ⟨hp, i, ⟨job', get_concat_iff.2 (Or.inl hi)⟩, fun j u hu hbusy => ?_⟩
    rcases get_concat_iff.1 hu with hu | ⟨-, rfl⟩
    · exact honly j u hu hbusy
    · rw [hph] at hbusy
      cases hbusy

theorem Busy.concat_idle (h : Busy l none) : Busy (l ++ [⟨job, ph⟩]) ph.as_busy := by
  unfold Phase.as_busy
  split
  · next hph =>
    refine ⟨hph, l.length, ⟨job, get_concat_iff.2 (Or.inr ⟨rfl, rfl⟩)⟩, fun j u hu hbusy => ?_⟩
    rcases get_concat_iff.1 hu with hu | ⟨hj, -⟩
    · rw [h j u hu] at hbusy
      cases hbusy
    · exact hj
  · next hph => exact h.concat_calm (Bool.eq_false_iff.2 hph)

end

/-! ### The order -/

def Client.idle (c : Client) : Bool := c.tasks.all fun t => !t.phase.busy

/-- The readers that are left are in the list. -/
def Shared.only_alive (c : Shared) (readers : Option ℕ) : Bool :=
  (List.range c.opened).all fun s => !c.alive s || readers = some s

/-- The send would open a socket. -/
def Shared.revives (c : Shared) (p : Payload) : Bool := c.ws.isNone && !c.closed && p.connect_if_dead

/-- No call gets in the way of a busy one, and a socket is opened when the readers of the ones before
    are done, but for the one that `reconnect()` itself waits for. -/
def orderly (c : Client) : Label → Bool
  | .call .connect => c.shared.ws.isSome || (c.idle && c.shared.only_alive none)
  | .task i .go => match c.tasks[i]? with
    | some ⟨.send p, .waiting⟩ => !c.shared.revives p || (c.idle && c.shared.only_alive none)
    | some ⟨_, .locked⟩ => c.idle && c.shared.only_alive c.shared.reader_task
    | _ => true
  | _ => true

theorem idle_iff {c : Client} : c.idle = true ↔ Busy c.tasks none := by
  simp only [Client.idle, List.all_eq_true, Bool.not_eq_true', Busy]
  exact ⟨fun h i t ht => h t (List.mem_of_getElem? ht), fun h t ht => by
    obtain ⟨i, hi⟩ := List.mem_iff_getElem?.1 ht
    exact h i t hi⟩

/-! ### Readers -/

section
variable {c : Shared}

@[simp] theorem alive_set_reader (s t : ℕ) (r : Reader) :
    (c.set_reader s r).alive t = if t = s then r.alive else c.alive t := by
  unfold Shared.alive Shared.set_reader
  by_cases h : t = s
  · subst h
    simp
  · simp [h]

theorem alive_cancel (r : Reader) : r.cancel.alive = r.alive := by
  cases r <;> rfl

theorem cancelled_readers_eq (s : ℕ) : c.cancelled_readers s = c.reader s ∨
    c.reader_task = some s ∧ c.cancelled_readers s = (c.reader s).cancel := by
  unfold Shared.cancelled_readers
  cases htask : c.reader_task with
  | none => exact Or.inl rfl
  | some r =>
    by_cases h : s = r
    · subst h
      exact Or.inr ⟨rfl, by simp⟩
    · exact Or.inl (by simp [h])

@[simp] theorem alive_cancelled (s : ℕ) : (c.cancelled_readers s).alive = c.alive s := by
  rcases cancelled_readers_eq (c := c) s with h | ⟨-, h⟩
  · rw [h]
    rfl
  · rw [h, alive_cancel]
    rfl

@[simp] theorem alive_detach (s : ℕ) : c.detach.alive s = c.alive s := alive_cancelled s

@[simp] theorem alive_judge (n s : ℕ) : (c.judge n).alive s = c.alive s := alive_cancelled s

@[simp] theorem alive_shut (s : ℕ) : c.shut.alive s = c.alive s := alive_cancelled s

/-- The socket that a reader has begun to read. -/
def Reader.target : Reader → Option ℕ
  | .running t | .cancelled (some t) => some t
  | _ => none

theorem target_cancel (r : Reader) : r.cancel.target = r.target := by
  cases r with
  | cancelled t => cases t <;> rfl
  | _ => rfl

theorem target_cancelled (s : ℕ) : (c.cancelled_readers s).target = (c.reader s).target := by
  rcases cancelled_readers_eq (c := c) s with h | ⟨-, h⟩
  · rw [h]
  · rw [h, target_cancel]

theorem cancelled_absent {s : ℕ} : c.cancelled_readers s = .absent ↔ c.reader s = .absent := by
  rcases cancelled_readers_eq (c := c) s with h | ⟨-, h⟩
  · rw [h]
  · rw [h]
    cases c.reader s <;> simp [Reader.cancel]

end

/-! ### The last socket -/

/-- The phases in which no reader is left. -/
def Phase.calm : Phase → Bool
  | .closing_ws _ | .pausing | .dialing _ | .configuring .. | .slammed .. | .refused _ | .burying_ws ..
  | .backing_off _ => true
  | _ => false

/-- The socket that a phase is about. -/
def Phase.sock : Phase → Option ℕ
  | .configuring _ n | .slammed _ n | .refused n | .grace _ n _ => some n
  | .closing_reader r _ | .burying_reader _ r _ => some r
  | _ => none

/-- What is about a socket is about the last one: `_ws`, each reader that is left, the accepted
    session, and the busy call. -/
structure Core (c : Shared) (b : Option Phase) : Prop where
  ws_latest : WsLatest c
  alive_latest : ∀ s, c.alive s = true → s + 1 = c.opened
  target : ∀ s t, (c.reader s).target = some t → t = s
  absent : ∀ s, c.opened ≤ s → c.reader s = .absent
  session_latest : ∀ g, c.session = some g → g + 1 = c.opened
  calm : ∀ ph, b = some ph → ph.calm = true → ∀ s, c.alive s = false
  sock : ∀ ph n, b = some ph → ph.sock = some n → n + 1 = c.opened
  grace : ∀ k n since, b = some (.grace k n since) → c.reader_task = some n
  dialing : ∀ k, b = some (.dialing k) → c.session = none
  unread : ∀ k n, b = some (.configuring k n) → c.reader n = .absent

/-- What the order says about a move: a busy call is the one that is, and a call becomes busy while
    none is, and when the readers before are done. -/
structure Admitted (c : Shared) (b : Option Phase) (ph ph' : Phase) : Prop where
  busy : ph.busy = true → b = some ph
  idle : ph.busy = false → ph'.busy = true → b = none
  revive : ph = .waiting → ph'.busy = true → ∀ s, c.alive s = false
  tear : ph = .locked → ph'.busy = true → ∀ s, c.alive s = true → c.reader_task = some s

/-- The busy call after a move. -/
def busy_after (b : Option Phase) (ph ph' : Phase) : Option Phase :=
  if ph.busy || ph'.busy then ph'.as_busy else b

section
variable {c c' : Shared} {b : Option Phase} {job : Job} {m : Move} {ph ph' : Phase}

/-- While no call is busy, nothing is said about one. -/
theorem Core.rest (h : Core c b) : Core c none where
  ws_latest := h.ws_latest
  alive_latest := h.alive_latest
  target := h.target
  absent := h.absent
  session_latest := h.session_latest
  calm := nofun
  sock := nofun
  grace := nofun
  dialing := nofun
  unread := nofun

/-- What no reader, socket, session or phase is touched by. -/
theorem Core.congr (h : Core c b) (hws : c'.ws = c.ws ∨ c'.ws = none) (hopened : c'.opened = c.opened)
    (hreader : c'.reader = c.reader) (htask : c'.reader_task = c.reader_task ∨ b = none)
    (hsession : c'.session = c.session ∨ c'.session = none) : Core c' b := by
  have halive : ∀ s, c'.alive s = c.alive s := fun s => by simp only [Shared.alive, hreader]
  refine ⟨fun s hs => ?_, fun s => ?_, fun s t => ?_, fun s => ?_, fun g => ?_, fun ph hb hcalm s => ?_,
    fun ph n hb => ?_, fun k n since hb => ?_, fun k hb => ?_, fun k n hb => ?_⟩
  · rw [hopened]
    refine h.ws_latest s ?_
    rcases hws with hws | hws
    · rwa [← hws]
    · rw [hws] at hs
      cases hs
  · rw [halive, hopened]
    exact h.alive_latest s
  · rw [hreader]
    exact h.target s t
  · rw [hopened, hreader]
    exact h.absent s
  · intro hg
    rw [hopened]
    refine h.session_latest g ?_
    rcases hsession with hsession | hsession
    · rwa [← hsession]
    · rw [hsession] at hg
      cases hg
  · rw [halive]
    exact h.calm ph hb hcalm s
  · rw [hopened]
    exact h.sock ph n hb
  · rcases htask with htask | hnone
    · rw [htask]
      exact h.grace k n since hb
    · rw [hnone] at hb
      cases hb
  · rcases hsession with hsession | hsession
    · rw [hsession]
      exact h.dialing k hb
    · exact hsession
  · rw [hreader]
    exact h.unread k n hb

/-- Another phase is busy, and what there is to say about it holds. -/
theorem Core.turn (h : Core c b) (ph : Phase) (hcalm : ph.calm = true → ∀ s, c.alive s = false)
    (hsock : ∀ n, ph.sock = some n → n + 1 = c.opened)
    (hgrace : ∀ k n since, ph = .grace k n since → c.reader_task = some n)
    (hdialing : ∀ k, ph = .dialing k → c.session = none)
    (hunread : ∀ k n, ph = .configuring k n → c.reader n = .absent) : Core c ph.as_busy := by
  unfold Phase.as_busy
  split
  · exact
      { h with
        calm := fun p hp hcalm' => hcalm (Option.some.inj hp ▸ hcalm')
        sock := fun p n hp hn => hsock n (Option.some.inj hp ▸ hn)
        grace := fun k n since hp => hgrace k n since (Option.some.inj hp)
        dialing := fun k hp => hdialing k (Option.some.inj hp)
        unread := fun k n hp => hunread k n (Option.some.inj hp) }
  · exact h.rest

theorem Core.shut (h : Core c b) : Core c.shut b :=
  { h with
    alive_latest := fun s hs => h.alive_latest s (by rwa [alive_shut] at hs)
    target := fun s t ht => h.target s t (target_cancelled s ▸ ht)
    absent := fun s hs => cancelled_absent.2 (h.absent s hs)
    calm := fun ph hb hcalm s => (alive_shut s).trans (h.calm ph hb hcalm s)
    unread := fun k n hb => cancelled_absent.2 (h.unread k n hb) }

/-- A reader that was alive goes on, or comes to its end. -/
theorem Core.set_reader (h : Core c b) {s : ℕ} (hs : c.alive s = true) {r : Reader}
    (hr : ∀ t, r.target = some t → t = s) : Core (c.set_reader s r) b := by
  have hbusy : ∀ ph, b = some ph → ph.calm = false := by
    intro ph hb
    by_contra hcalm
    rw [h.calm ph hb (by rwa [Bool.not_eq_false] at hcalm) s] at hs
    cases hs
  have hself : (c.set_reader s r).reader s = r := by simp [Shared.set_reader]
  have hother : ∀ t, t ≠ s → (c.set_reader s r).reader t = c.reader t := fun t ht => by
    simp [Shared.set_reader, ht]
  refine
    { h with
      alive_latest := fun t ht => ?_
      target := fun t u hu => ?_
      absent := fun t ht => ?_
      calm := fun ph hb hcalm => ?_
      unread := fun k n hb => ?_ }
  · by_cases hts : t = s
    · subst hts
      exact h.alive_latest t hs
    · rw [alive_set_reader, if_neg hts] at ht
      exact h.alive_latest t ht
  · by_cases hts : t = s
    · subst hts
      rw [hself] at hu
      exact hr u hu
    · rw [hother t hts] at hu
      exact h.target t u hu
  · have hlatest : s + 1 = c.opened := h.alive_latest s hs
    have hopened : c.opened ≤ t := ht
    rw [hother t (by omega)]
    exact h.absent t hopened
  · rw [hbusy ph hb] at hcalm
    cases hcalm
  · have hcalm := hbusy _ hb
    cases hcalm

/-! ### Steps -/

theorem Core.begin_attempt (h : Core c b) (k : ℕ) (hnone : ∀ s, c.alive s = false) :
    Core c.begin_attempt (Phase.dialing k).as_busy := by
  have hbegun : Core c.begin_attempt none :=
    h.rest.congr (Or.inl rfl) rfl rfl (Or.inl rfl) (Or.inr rfl)
  exact hbegun.turn _ (fun _ s => hnone s) nofun nofun (fun _ _ => rfl) nofun

theorem Core.assign {k : ℕ} (h : Core c (some (.dialing k))) :
    Core c.assign (Phase.configuring k c.opened).as_busy where
  ws_latest := by
    intro s hs
    obtain rfl := Option.some.inj hs
    rfl
  alive_latest := by
    intro s hs
    rw [show c.assign.alive s = c.alive s from rfl, h.calm _ rfl rfl s] at hs
    cases hs
  target := h.target
  absent := fun s hs => h.absent s (Nat.le_of_succ_le hs)
  session_latest := by
    intro g hg
    rw [show c.assign.session = c.session from rfl, h.dialing k rfl] at hg
    cases hg
  calm := fun _ _ _ s => h.calm _ rfl rfl s
  sock := by
    intro ph n hph hn
    cases hph
    obtain rfl := Option.some.inj hn
    rfl
  grace := nofun
  dialing := nofun
  unread := by
    intro k' n hph
    cases hph
    exact h.absent c.opened (Nat.le_refl _)

theorem Core.create_reader {k n : ℕ} (h : Core c (some (.configuring k n))) (rate since : Option ℕ) :
    Core (c.create_reader n rate) (Phase.grace k n since).as_busy := by
  have hlast : n + 1 = c.opened := h.sock _ n rfl rfl
  have hself : (c.create_reader n rate).reader n = .created := by
    simp [Shared.create_reader, Shared.set_reader]
  have hother : ∀ s, s ≠ n → (c.create_reader n rate).reader s = c.reader s := fun s hs => by
    simp [Shared.create_reader, Shared.set_reader, hs]
  exact {
    ws_latest := h.ws_latest
    alive_latest := by
      intro s hs
      by_cases hsn : s = n
      · rw [hsn]
        exact hlast
      · rw [Shared.alive, hother s hsn] at hs
        exact h.alive_latest s hs
    target := by
      intro s t ht
      by_cases hsn : s = n
      · rw [hsn, hself] at ht
        cases ht
      · rw [hother s hsn] at ht
        exact h.target s t ht
    absent := by
      intro s hs
      have hopened : c.opened ≤ s := hs
      rw [hother s (by omega)]
      exact h.absent s hopened
    session_latest := h.session_latest
    calm := by
      intro ph hph hcalm
      cases hph
      cases hcalm
    sock := by
      intro ph m hph hm
      cases hph
      obtain rfl := Option.some.inj hm
      exact hlast
    grace := by
      intro k' m since' hph
      cases hph
      rfl
    dialing := nofun
    unread := nofun }

theorem Core.accept {k n : ℕ} {since : Option ℕ} (h : Core c (some (.grace k n since))) :
    Core (c.accept n) none :=
  { h.rest with
    session_latest := by
      intro g hg
      obtain rfl := Option.some.inj hg
      exact h.sock _ n rfl rfl
    dialing := nofun }

/-- Without a live reader of the last socket there is none. -/
theorem Core.none_alive {r : ℕ} (h : Core c b) (hr : r + 1 = c.opened) (hdone : c.alive r = false)
    (s : ℕ) : c.alive s = false := by
  by_contra hs
  rw [Bool.not_eq_false] at hs
  have hlatest := h.alive_latest s hs
  obtain rfl : s = r := by omega
  rw [hdone] at hs
  cases hs

theorem Core.retry (h : Core c b) (hnone : ∀ s, c.alive s = false) (k : ℕ) :
    Core c (retry k).as_busy := by
  cases k with
  | zero => exact h.turn .ended (fun _ s => hnone s) nofun nofun nofun nofun
  | succ k => exact h.turn (.backing_off (k + 1)) (fun _ s => hnone s) nofun nofun nofun nofun

theorem Core.after_burial (h : Core c b) (hnone : ∀ s, c.alive s = false) (k : ℕ) (w : Option ℕ) :
    Core (c.drain w) (after_burial k w).as_busy := by
  have hdrained : Core (c.drain w) none := h.rest.congr (Or.inl rfl) rfl rfl (Or.inl rfl) (Or.inl rfl)
  cases w with
  | none => exact hdrained.retry hnone k
  | some w => exact hdrained.turn (.burying_ws k w) (fun _ s => hnone s) nofun nofun nofun nofun

theorem Core.after_reader (h : Core c b) (hnone : ∀ s, c.alive s = false) (w : Option ℕ) :
    Core c (after_reader w).as_busy := by
  cases w with
  | none => exact h.turn .pausing (fun _ s => hnone s) nofun nofun nofun nofun
  | some w => exact h.turn (.closing_ws w) (fun _ s => hnone s) nofun nofun nofun nofun

theorem Core.detach (h : Core c b) : Core c.detach none :=
  h.shut.rest.congr (Or.inr rfl) rfl rfl (Or.inr rfl) (Or.inl rfl)

theorem Core.judge (h : Core c b) (n : ℕ) : Core (c.judge n) none :=
  h.shut.rest.congr (Or.inr rfl) rfl rfl (Or.inr rfl) (Or.inl rfl)

theorem Core.drop_ws (h : Core c b) : Core c.drop_ws b :=
  h.congr (Or.inr rfl) rfl rfl (Or.inl rfl) (Or.inl rfl)

theorem Core.close_sock (h : Core c b) (s : ℕ) : Core (c.close_sock s) b :=
  h.congr (Or.inl rfl) rfl rfl (Or.inl rfl) (Or.inl rfl)

theorem after_open_calm (job : Job) (ws : Option ℕ) : (job.after_open ws).busy = false := by
  cases job with
  | send p => cases ws <;> rfl
  | _ => rfl

theorem close_ws_calm (ws : Option ℕ) : (close_ws ws).busy = false := by
  cases ws <;> rfl

/-- The phase a busy call goes on to is what is busy. -/
theorem busy_after_busy (hph : ph.busy = true) : busy_after b ph ph' = ph'.as_busy := by
  rw [busy_after, hph, Bool.true_or, if_pos rfl]

theorem busy_after_calm (hph : ph.busy = false) (hph' : ph'.busy = false) : busy_after b ph ph' = b := by
  rw [busy_after, hph, hph']
  rfl

theorem busy_after_begin (hph' : ph'.busy = true) : busy_after b ph ph' = ph'.as_busy := by
  rw [busy_after, hph', Bool.or_true, if_pos rfl]

theorem as_busy_calm (hph : ph.busy = false) : ph.as_busy = none := by
  rw [Phase.as_busy, hph]
  rfl

/-- A move keeps what is about the last socket with it. -/
theorem Core.moved (h : Core c b) (ha : Admitted c b ph ph') (hm : Moved c job m ph ph' c') :
    Core c' (busy_after b ph ph') := by
  cases hm with
  | handled => exact h
  | send_open => exact h
  | send_dead => exact h
  | too_late => exact h
  | lock => exact h
  | wrote_result => exact h.congr (Or.inl rfl) rfl rfl (Or.inl rfl) (Or.inl rfl)
  | wrote => exact h
  | failed => exact h.congr (Or.inr rfl) rfl rfl (Or.inl rfl) (Or.inl rfl)
  | revive => exact h.begin_attempt backoffs (ha.revive rfl rfl)
  | @tear_wait r _ halive =>
    refine h.detach.turn (.closing_reader r c.ws) nofun (fun n hn => ?_) nofun nofun nofun
    obtain rfl := Option.some.inj hn
    exact h.alive_latest r halive
  | tear hdone =>
    have hbusy : (SlvClient.after_reader c.ws).busy = true := by cases c.ws <;> rfl
    rw [busy_after_begin hbusy]
    refine h.detach.after_reader (fun s => ?_) c.ws
    rw [alive_detach]
    by_contra hs
    rw [Bool.not_eq_false] at hs
    rw [hdone s (ha.tear rfl hbusy s hs)] at hs
    cases hs
  | @reader_closed r w hdone =>
    rw [busy_after_busy rfl]
    exact h.after_reader (h.none_alive (h.sock _ r (ha.busy rfl) rfl) hdone) w
  | ws_closed =>
    exact (h.close_sock _).turn .pausing (fun _ => h.calm _ (ha.busy rfl) rfl) nofun nofun nofun nofun
  | paused => exact h.begin_attempt backoffs (h.calm _ (ha.busy rfl) rfl)
  | connected =>
    have hb := ha.busy rfl
    subst hb
    exact h.assign
  | configured =>
    have hb := ha.busy rfl
    subst hb
    exact h.create_reader _ _
  | @slammed k n =>
    exact h.turn (.slammed k n) (fun _ => h.calm _ (ha.busy rfl) rfl)
      (fun s hs => h.sock _ s (ha.busy rfl) hs) nofun nofun nofun
  | @refused k n =>
    exact h.turn (.refused n) (fun _ => h.calm _ (ha.busy rfl) rfl)
      (fun s hs => h.sock _ s (ha.busy rfl) hs) nofun nofun nofun
  | slam_closed =>
    rw [busy_after_busy rfl]
    exact h.drop_ws.retry (h.calm _ (ha.busy rfl) rfl) _
  | refuse_closed => exact h.drop_ws.rest
  | healthy =>
    have hb := ha.busy rfl
    subst hb
    rw [busy_after_busy rfl, as_busy_calm (after_open_calm _ _)]
    exact h.accept
  | @reject_wait k n r since _ _ halive =>
    refine (h.judge n).turn (.burying_reader k r c.ws) nofun (fun s hs => ?_) nofun nofun nofun
    obtain rfl := Option.some.inj hs
    exact h.alive_latest r halive
  | @reject k n since _ hdone =>
    rw [busy_after_busy rfl]
    refine (h.judge n).after_burial (fun s => ?_) k c.ws
    rw [alive_judge]
    exact h.none_alive (h.sock _ n (ha.busy rfl) rfl) (hdone n (h.grace k n since (ha.busy rfl))) s
  | @reader_buried k r w hdone =>
    rw [busy_after_busy rfl]
    exact h.after_burial (h.none_alive (h.sock _ r (ha.busy rfl) rfl) hdone) k w
  | @ws_buried k w =>
    rw [busy_after_busy rfl]
    have hdrained : Core ((c.close_sock w).drain none) b :=
      h.congr (Or.inl rfl) rfl rfl (Or.inl rfl) (Or.inl rfl)
    exact hdrained.retry (h.calm _ (ha.busy rfl) rfl) k
  | backed_off => exact h.begin_attempt _ (h.calm _ (ha.busy rfl) rfl)
  | reader_ended =>
    rw [busy_after_calm rfl (close_ws_calm _)]
    exact h
  | ws_ended => exact h.congr (Or.inr rfl) rfl rfl (Or.inl rfl) (Or.inl rfl)
  | stopped =>
    unfold busy_after
    split
    · exact h.rest
    · exact h

theorem alive_of_reader {s : ℕ} {r : Reader} (hreader : c.reader s = r) (hr : r.alive = true) :
    c.alive s = true := by
  rw [Shared.alive, hreader, hr]

theorem Core.end_reader (h : Core c b) {s : ℕ} (hs : c.alive s = true) : Core (c.end_reader s) b :=
  (h.set_reader hs (r := .done) nofun).congr (Or.inl rfl) rfl rfl (Or.inl rfl) (Or.inl rfl)

theorem Core.happened (h : Core c b) {a : Label} (hh : Happened c a c') : Core c' b := by
  cases hh with
  | die => exact h.close_sock _
  | @start s t hreader hws =>
    have hs := alive_of_reader hreader rfl
    refine h.set_reader hs fun u hu => ?_
    obtain rfl : t = u := Option.some.inj hu
    have hlast := h.alive_latest s hs
    have hlatest := h.ws_latest t hws
    omega
  | start_dead hreader => exact h.set_reader (alive_of_reader hreader rfl) nofun
  | @frame s t f hreader =>
    cases f with
    | crash =>
      refine (h.end_reader (alive_of_reader hreader rfl)).congr (Or.inl rfl) rfl rfl (Or.inl rfl) (Or.inl rfl)
    | _ => exact h.congr (Or.inl rfl) rfl rfl (Or.inl rfl) (Or.inl rfl)
  | @reader_end s t normal code hreader =>
    have hended := h.end_reader (alive_of_reader hreader rfl)
    cases normal <;> exact hended.congr (Or.inl rfl) rfl rfl (Or.inl rfl) (Or.inl rfl)
  | dropped hreader => exact h.set_reader (alive_of_reader hreader rfl) nofun
  | cancelled hreader =>
    exact (h.end_reader (alive_of_reader hreader rfl)).congr (Or.inl rfl) rfl rfl (Or.inl rfl) (Or.inl rfl)
  | cleared => exact h.congr (Or.inl rfl) rfl rfl (Or.inl rfl) (Or.inl rfl)

/-- A step of an orderly run, seen from the busy call. -/
inductive Turned (c : Shared) (b : Option Phase) : Label → Shared → Option Phase → Prop where
  | moved {i : ℕ} {job : Job} {m : Move} {ph ph' : Phase} {c' : Shared} (ha : Admitted c b ph ph')
      (hm : Moved c job m ph ph' c') : Turned c b (.task i m) c' (busy_after b ph ph')
  | call {job : Job} : Turned c b (.call job) c b
  | dial (hb : b = none) (hws : c.ws = none) (hnone : ∀ s, c.alive s = false) :
      Turned c b (.call .connect) c.begin_attempt (some (.dialing backoffs))
  | shut : Turned c b (.call .close) c.shut b
  | happened {a : Label} {c' : Shared} (h : Happened c a c') : Turned c b a c' b
  | taken {rest : List (ℕ × Event)} : Turned c b .take { c with queue := rest } b

theorem Core.turned (h : Core c b) {a : Label} {b' : Option Phase} (ht : Turned c b a c' b') :
    Core c' b' := by
  cases ht with
  | moved ha hm => exact h.moved ha hm
  | call => exact h
  | dial _ _ hnone => exact h.begin_attempt backoffs hnone
  | shut => exact h.shut
  | happened hh => exact h.happened hh
  | taken => exact h.congr (Or.inl rfl) rfl rfl (Or.inl rfl) (Or.inl rfl)

end

/-! ### Orderly runs -/

theorem only_alive_iff {c : Shared} {b : Option Phase} (h : Core c b) {readers : Option ℕ} :
    c.only_alive readers = true ↔ ∀ s, c.alive s = true → readers = some s := by
  simp only [Shared.only_alive, List.all_eq_true, List.mem_range, Bool.or_eq_true, Bool.not_eq_true',
    decide_eq_true_eq]
  constructor
  · intro hall s hs
    have hlast := h.alive_latest s hs
    rcases hall s (by omega) with hdead | hmem
    · rw [hs] at hdead
      cases hdead
    · exact hmem
  · intro hall s _
    cases hs : c.alive s with
    | false => exact Or.inl rfl
    | true => exact Or.inr (hall s hs)

theorem none_alive_of {c : Shared} {b : Option Phase} (h : Core c b) (hnone : c.only_alive none = true)
    (s : ℕ) : c.alive s = false := by
  by_contra hs
  rw [Bool.not_eq_false] at hs
  cases (only_alive_iff h).1 hnone s hs

/-- A call becomes busy in a send that finds no socket, or in `reconnect()` with both locks. -/
theorem moved_begins {c c' : Shared} {job : Job} {m : Move} {ph ph' : Phase}
    (hm : Moved c job m ph ph' c') (hph : ph.busy = false) (hph' : ph'.busy = true) :
    m = .go ∧ ((∃ p, job = .send p ∧ ph = .waiting ∧ c.revives p = true) ∨ ph = .locked) := by
  cases hm with
  | @revive p hjob hws hclosed hconnect =>
    refine ⟨rfl, Or.inl ⟨p, hjob, rfl, ?_⟩⟩
    simp [Shared.revives, hws, hclosed, hconnect]
  | tear_wait => exact ⟨rfl, Or.inr rfl⟩
  | tear => exact ⟨rfl, Or.inr rfl⟩
  | reader_ended =>
    rw [close_ws_calm] at hph'
    cases hph'
  | _ => first | (cases hph'; done) | cases hph

theorem Busy.eq_none {l : List Task} {b : Option Phase} (h : Busy l b) (hidle : Busy l none) :
    b = none := by
  cases b with
  | none => rfl
  | some p =>
    obtain ⟨hp, i, ⟨job, hi⟩, -⟩ := h
    rw [hidle i _ hi] at hp
    cases hp

/-- The move of a task that the order lets through. -/
theorem admitted_of {c : Client} {b : Option Phase} {i : ℕ} {t : Task} {m : Move} {ph : Phase}
    {c' : Shared} (hb : Busy c.tasks b) (hcore : Core c.shared b) (horder : orderly c (.task i m) = true)
    (ht : c.tasks[i]? = some t) (hm : Moved c.shared t.job m t.phase ph c') :
    Admitted c.shared b t.phase ph := by
  obtain ⟨job, phase⟩ := t
  refine ⟨fun hbusy => hb.of_get ht hbusy, fun hph hph' => ?_, fun hph hph' => ?_, fun hph hph' => ?_⟩
  · obtain ⟨rfl, ⟨p, hjob, hwaiting, hrevives⟩ | hlocked⟩ := moved_begins hm hph hph'
    · cases hjob
      cases hwaiting
      simp only [orderly, ht, hrevives, Bool.and_eq_true, Bool.not_true, Bool.false_or] at horder
      exact hb.eq_none (idle_iff.1 horder.1)
    · cases hlocked
      simp only [orderly, ht, Bool.and_eq_true] at horder
      exact hb.eq_none (idle_iff.1 horder.1)
  · cases hph
    obtain ⟨rfl, ⟨p, hjob, -, hrevives⟩ | hlocked⟩ := moved_begins hm rfl hph'
    · cases hjob
      simp only [orderly, ht, hrevives, Bool.and_eq_true, Bool.not_true, Bool.false_or] at horder
      exact none_alive_of hcore horder.2
    · cases hlocked
  · cases hph
    obtain ⟨rfl, -⟩ := moved_begins hm rfl hph'
    simp only [orderly, ht, Bool.and_eq_true] at horder
    exact (only_alive_iff hcore).1 horder.2

theorem Busy.set_after {l : List Task} {c : Shared} {b : Option Phase} {i : ℕ} {t : Task} {ph : Phase}
    (hb : Busy l b) (ht : l[i]? = some t) (ha : Admitted c b t.phase ph) :
    Busy (l.set i ⟨t.job, ph⟩) (busy_after b t.phase ph) := by
  cases hph : t.phase.busy with
  | true =>
    rw [busy_after_busy hph]
    exact hb.set_busy ht hph
  | false =>
    cases hph' : ph.busy with
    | true =>
      rw [busy_after_begin hph']
      have hnone := ha.idle hph hph'
      subst hnone
      exact hb.set_idle ht
    | false =>
      rw [busy_after_calm hph hph']
      exact hb.set_calm ht hph hph'

/-- A step that the order lets through turns from one busy call to the next. -/
theorem turned_of {c c' : Client} {a : Label} {b : Option Phase} (hb : Busy c.tasks b)
    (hcore : Core c.shared b) (horder : orderly c a = true) (h : Stepped c a c') :
    ∃ b', Busy c'.tasks b' ∧ Turned c.shared b a c'.shared b' := by
  cases h with
  | @task i m t ph _ ht hm htasks =>
    have ha := admitted_of hb hcore horder ht hm
    refine ⟨busy_after b t.phase ph, ?_, .moved ha hm⟩
    rw [htasks]
    exact hb.set_after ht ha
  | @call job =>
    cases job with
    | send p => exact ⟨b, hb.concat_calm rfl, .call⟩
    | reconnect =>
      refine ⟨b, hb.concat_calm ?_, .call⟩
      simp only [Job.start]
      split <;> rfl
    | connect =>
      simp only [Job.start]
      split
      · exact ⟨b, hb.concat_calm rfl, .call⟩
      · next hws =>
        simp only [orderly, hws, Bool.false_or, Bool.and_eq_true] at horder
        have hnone := hb.eq_none (idle_iff.1 horder.1)
        subst hnone
        refine ⟨_, hb.concat_idle, .dial rfl ?_ (none_alive_of hcore horder.2)⟩
        simpa using hws
    | close =>
      refine ⟨b, hb.concat_calm ?_, .shut⟩
      simp only [Job.start]
      split
      · split
        · rfl
        · exact close_ws_calm _
      · exact close_ws_calm _
  | happened hh => exact ⟨b, hb, .happened hh⟩
  | take => exact ⟨b, hb, .taken⟩
  | take_call => exact ⟨b, hb.concat_calm rfl, .taken⟩

end LocalVoice.SlvClient
