import LocalVoice.AsrWorker.MelFiles
import LocalVoice.AsrWorker.Utf8

/-! The lanes and the mel files of a worker, step by step. The lanes that are held are those of the
    sessions, and what the pool gave is of a session or was released (`Lanes`); while a line is handled
    the mel files are those of the other sessions and the ones that the line has in hand (`Holds`), and
    when it is answered they are files of sessions again (`Kept`). -/

namespace LocalVoice.AsrWorker
open LocalVoice.Lib

/-! ### Lanes -/

/-- The numbers of the sessions: each is in the list once, and of one session. -/
structure Tallied (sessions : Dict Bytes Session) (number : Session → ℕ) (l : List ℕ) : Prop where
  nodup : l.Nodup
  mem : ∀ n, n ∈ l ↔ ∃ sid st, sessions.get? sid = some st ∧ number st = n
  apart : ∀ sid sid' st st', sessions.get? sid = some st → sessions.get? sid' = some st' →
    number st = number st' → sid = sid'

section
variable {sessions : Dict Bytes Session} {number : Session → ℕ} {l : List ℕ} {sid : Bytes}
  {st st' : Session}

theorem tallied_empty (number : Session → ℕ) : Tallied .empty number [] := by
  refine ⟨.nil, fun n => ⟨fun hn => absurd hn List.not_mem_nil, ?_⟩, fun sid sid' st st' hget => ?_⟩
  · rintro ⟨sid, st, hget, -⟩
    cases hget
  · cases hget

/-- A session that keeps its number. -/
theorem Tallied.put (h : Tallied sessions number l) (hget : sessions.get? sid = some st)
    (hsame : number st' = number st) : Tallied (sessions.set sid st') number l := by
  have hold : ∀ s u, (sessions.set sid st').get? s = some u →
      ∃ u', sessions.get? s = some u' ∧ number u' = number u := by
    intro s u hu
    rw [Dict.get?_set] at hu
    split at hu
    · next hs =>
      obtain rfl := Option.some.inj hu
      exact ⟨st, hs ▸ hget, hsame.symm⟩
    · exact ⟨u, hu, rfl⟩
  refine ⟨h.nodup, fun n => (h.mem n).trans ⟨?_, ?_⟩, fun s s' u u' hu hu' heq => ?_⟩
  · rintro ⟨s, u, hu, rfl⟩
    by_cases hs : s = sid
    · subst hs
      obtain rfl := Option.some.inj (hget.symm.trans hu)
      exact ⟨s, st', by rw [Dict.get?_set, if_pos rfl], hsame⟩
    · exact ⟨s, u, by rw [Dict.get?_set, if_neg hs]; exact hu, rfl⟩
  · rintro ⟨s, u, hu, rfl⟩
    obtain ⟨u', hu', heq⟩ := hold s u hu
    exact ⟨s, u', hu', heq⟩
  · obtain ⟨v, hv, hvu⟩ := hold s u hu
    obtain ⟨v', hv', hvu'⟩ := hold s' u' hu'
    exact h.apart s s' v v' hv hv' (hvu.trans (heq.trans hvu'.symm))

/-- A session ends. -/
theorem Tallied.drop (h : Tallied sessions number l) (hget : sessions.get? sid = some st) :
    Tallied (sessions.erase sid) number (l.filter (· ≠ number st)) := by
  have hold : ∀ s u, (sessions.erase sid).get? s = some u → s ≠ sid ∧ sessions.get? s = some u := by
    intro s u hu
    rw [Dict.get?_erase] at hu
    split at hu
    · cases hu
    · next hs => exact ⟨hs, hu⟩
  refine ⟨h.nodup.filter _, fun n => ?_, fun s s' u u' hu hu' heq => ?_⟩
  · rw [List.mem_filter, h.mem n, decide_eq_true_eq]
    constructor
    · rintro ⟨⟨s, u, hu, rfl⟩, hne⟩
      refine ⟨s, u, ?_, rfl⟩
      rw [Dict.get?_erase, if_neg]
      · exact hu
      · rintro rfl
        exact hne (congrArg number (Option.some.inj (hu.symm.trans hget)))
    · rintro ⟨s, u, hu, rfl⟩
      obtain ⟨hs, hu⟩ := hold s u hu
      exact ⟨⟨s, u, hu, rfl⟩, fun heq => hs (h.apart s sid u st hu hget heq)⟩
  · exact h.apart s s' u u' (hold s u hu).2 (hold s' u' hu').2 heq

/-- A session begins. -/
theorem Tallied.add (h : Tallied sessions number l) (hget : sessions.get? sid = none)
    (hnew : number st ∉ l) : Tallied (sessions.set sid st) number (l ++ [number st]) := by
  have hcase : ∀ s u, (sessions.set sid st).get? s = some u →
      s = sid ∧ u = st ∨ s ≠ sid ∧ sessions.get? s = some u := by
    intro s u hu
    rw [Dict.get?_set] at hu
    split at hu
    · next hs => exact .inl ⟨hs, (Option.some.inj hu).symm⟩
    · next hs => exact .inr ⟨hs, hu⟩
  have hother : ∀ s u, sessions.get? s = some u → number u ≠ number st := by
    intro s u hu heq
    exact hnew ((h.mem _).2 ⟨s, u, hu, heq⟩)
  refine ⟨?_, fun n => ?_, fun s s' u u' hu hu' heq => ?_⟩
  · refine List.nodup_append.2 ⟨h.nodup, List.nodup_singleton _, fun a ha b hb hab => ?_⟩
    exact hnew (List.mem_singleton.1 hb ▸ hab ▸ ha)
  · rw [List.mem_append, h.mem n, List.mem_singleton]
    constructor
    · rintro (⟨s, u, hu, rfl⟩ | rfl)
      · refine ⟨s, u, ?_, rfl⟩
        rw [Dict.get?_set, if_neg]
        · exact hu
        · rintro rfl
          rw [hget] at hu
          cases hu
      · exact ⟨sid, st, by rw [Dict.get?_set, if_pos rfl], rfl⟩
    · rintro ⟨s, u, hu, rfl⟩
      rcases hcase s u hu with ⟨-, rfl⟩ | ⟨-, hu⟩
      · exact .inr rfl
      · exact .inl ⟨s, u, hu, rfl⟩
  · rcases hcase s u hu with ⟨rfl, rfl⟩ | ⟨-, hu⟩ <;> rcases hcase s' u' hu' with ⟨rfl, rfl⟩ | ⟨-, hu'⟩
    · rfl
    · exact absurd heq.symm (hother s' u' hu')
    · next hu₀ => exact absurd heq (hother s u hu₀)
    · exact h.apart s s' u u' hu hu' heq

end

/-- The lanes that are held are those of the sessions, and each grant of a lane is of a session or was
    released, once. -/
structure Lanes (cfg : Config) (w : Worker) : Prop where
  held : Tallied w.sessions Session.laneId w.held
  slots : ∀ lane ∈ w.held, lane < cfg.max_slots
  once : ∃ live, Tallied w.sessions Session.grant live ∧
    (w.released ++ live).Perm (List.range w.granted)

section
variable {cfg : Config} {w : Worker} {sid : Bytes} {st st' : Session}

theorem lanes_init (cfg : Config) : Lanes cfg .init :=
  ⟨tallied_empty _, fun _ h => absurd h List.not_mem_nil, [], tallied_empty _, .nil⟩

/-- A step that is not about the sessions. -/
theorem Lanes.same (h : Lanes cfg w) {w' : Worker} (hsessions : w'.sessions = w.sessions)
    (hheld : w'.held = w.held) (hreleased : w'.released = w.released) (hgranted : w'.granted = w.granted) :
    Lanes cfg w' := by
  refine ⟨?_, ?_, ?_⟩
  · rw [hsessions, hheld]
    exact h.held
  · rw [hheld]
    exact h.slots
  · rw [hsessions, hreleased, hgranted]
    exact h.once

theorem Lanes.put (h : Lanes cfg w) (hget : w.sessions.get? sid = some st)
    (hlane : st'.laneId = st.laneId) (hgrant : st'.grant = st.grant) : Lanes cfg (w.put sid st') := by
  obtain ⟨live, hlive, hperm⟩ := h.once
  exact ⟨h.held.put hget hlane, h.slots, live, hlive.put hget hgrant, hperm⟩

theorem Lanes.drop (h : Lanes cfg w) (hget : w.sessions.get? sid = some st)
    (hlane : st'.laneId = st.laneId) (hgrant : st'.grant = st.grant) : Lanes cfg (w.drop sid st') := by
  obtain ⟨live, hlive, hperm⟩ := h.once
  have hmem : st.grant ∈ live := (hlive.mem _).2 ⟨sid, st, hget, rfl⟩
  refine ⟨?_, fun lane hl => h.slots lane (List.mem_filter.1 hl).1, _, hlive.drop hget, ?_⟩
  · rw [Worker.drop, hlane]
    exact h.held.drop hget
  · rw [Worker.drop, hgrant]
    have hsplit : (st.grant :: live.filter (· ≠ st.grant)).Perm live := by
      refine (List.perm_ext_iff_of_nodup ?_ hlive.nodup).2 fun n => ?_
      · refine List.nodup_cons.2 ⟨fun hn => ?_, hlive.nodup.filter _⟩
        exact of_decide_eq_true (List.mem_filter.1 hn).2 rfl
      · rw [List.mem_cons, List.mem_filter, decide_eq_true_eq]
        by_cases hn : n = st.grant
        · exact ⟨fun _ => hn ▸ hmem, fun _ => .inl hn⟩
        · exact ⟨fun hor => (hor.resolve_left hn).1, fun hl => .inr ⟨hl, hn⟩⟩
    rw [List.append_assoc]
    exact (hsplit.append_left _).trans hperm

theorem acquire_free {pick lane : ℕ} (h : w.acquire cfg pick = some lane) :
    lane < cfg.max_slots ∧ lane ∉ w.held := by
  have hmem : lane ∈ (List.range cfg.max_slots).filter (· ∉ w.held) := by
    simp only [Worker.acquire] at h
    split at h
    · next hpick => exact Option.some.inj h ▸ hpick
    · exact List.mem_of_head? h
  obtain ⟨hrange, hfree⟩ := List.mem_filter.1 hmem
  exact ⟨List.mem_range.1 hrange, of_decide_eq_true hfree⟩

theorem Lanes.emplace (h : Lanes cfg w) (hget : w.sessions.get? sid = none) {lane : ℕ}
    (hlane : lane < cfg.max_slots ∧ lane ∉ w.held) (now : ℕ) (beginMeta : Fields) :
    Lanes cfg (w.emplace sid lane now beginMeta) := by
  obtain ⟨live, hlive, hperm⟩ := h.once
  have hnew : w.granted ∉ live := fun hmem =>
    Nat.lt_irrefl _ (List.mem_range.1 (hperm.mem_iff.1 (List.mem_append_right _ hmem)))
  refine ⟨h.held.add hget hlane.2, fun l hl => ?_, _, hlive.add hget hnew, ?_⟩
  · rcases List.mem_append.1 hl with hl | hl
    · exact h.slots l hl
    · exact List.mem_singleton.1 hl ▸ hlane.1
  · rw [← List.append_assoc]
    have hrange : List.range (w.granted + 1) = List.range w.granted ++ [w.granted] := List.range_succ
    exact (hperm.append_right _).trans (.of_eq hrange.symm)

end

/-! ### What a line keeps -/

/-- What holds of a worker whose line of `sid` began in `w₀`: the mel files are those of the other
    sessions, and some of `own`. -/
structure Holds (cfg : Config) (w₀ : Worker) (sid : Bytes) (own : List Bytes) (w : Worker) : Prop where
  lanes : Lanes cfg w
  known : ∀ s st, w.sessions.get? s = some st → utf8 s = true
  files : ∀ path data, w.files.get? path = some data →
    path ∈ own ∨ ∃ s st, s ≠ sid ∧ w.sessions.get? s = some st ∧ st.melPathOwned = path
  lines : w.lines = w₀.lines
  events : w.events = w₀.events
  goes_on : w.aborted = w₀.aborted

/-- The mel file of a session. -/
def Worker.own_files (w : Worker) (sid : Bytes) : List Bytes :=
  (w.sessions.get? sid).toList.map Session.melPathOwned

theorem Worker.mem_own_files {w : Worker} {sid path : Bytes} : path ∈ w.own_files sid ↔
    ∃ st, w.sessions.get? sid = some st ∧ st.melPathOwned = path := by
  rw [Worker.own_files, List.mem_map]
  exact exists_congr fun st => and_congr_left' Option.mem_toList

theorem Worker.own_files_some {w : Worker} {sid : Bytes} {st : Session}
    (hget : w.sessions.get? sid = some st) : w.own_files sid = [st.melPathOwned] := by
  rw [Worker.own_files, hget]
  rfl

/-- What holds between lines. -/
structure Kept (cfg : Config) (w : Worker) : Prop where
  lanes : Lanes cfg w
  known : ∀ sid st, w.sessions.get? sid = some st → utf8 sid = true
  files : ∀ path data, w.files.get? path = some data →
    ∃ sid st, w.sessions.get? sid = some st ∧ st.melPathOwned = path

/-- What a line does, in the end: it is answered. -/
structure Answered (cfg : Config) (w₀ w : Worker) : Prop where
  kept : Kept cfg w
  lines : w.lines = w₀.lines
  events : ∃ ev, w.events = w₀.events ++ [(some w₀.lines, ev)]
  goes_on : w.aborted = w₀.aborted

section
variable {cfg : Config} {w₀ w w' : Worker} {sid : Bytes} {own : List Bytes} {st st' : Session}

theorem Kept.holds (h : Kept cfg w) (sid : Bytes) : Holds cfg w sid (w.own_files sid) w := by
  refine ⟨h.lanes, h.known, fun path data hpath => ?_, rfl, rfl, rfl⟩
  obtain ⟨s, st, hget, rfl⟩ := h.files path data hpath
  by_cases hs : s = sid
  · subst hs
    exact .inl (Worker.mem_own_files.2 ⟨st, hget, rfl⟩)
  · exact .inr ⟨s, st, hs, hget, rfl⟩

namespace Holds

theorem weaken (h : Holds cfg w₀ sid own w) {own' : List Bytes} (hle : ∀ path ∈ own, path ∈ own') :
    Holds cfg w₀ sid own' w :=
  ⟨h.lanes, h.known, fun path data hpath => (h.files path data hpath).imp (hle path) id, h.lines,
    h.events, h.goes_on⟩

/-- A mel file is removed. -/
theorem remove (h : Holds cfg w₀ sid own w) (path : Bytes) :
    Holds cfg w₀ sid (own.filter (· ≠ path)) (w.remove path) := by
  refine ⟨h.lanes.same rfl rfl rfl rfl, h.known, fun path' data hpath => ?_, h.lines, h.events, h.goes_on⟩
  rw [Worker.remove, Dict.get?_erase] at hpath
  split at hpath
  · cases hpath
  · next hne =>
    exact (h.files path' data hpath).imp (fun hmem => List.mem_filter.2 ⟨hmem, decide_eq_true hne⟩) id

/-- The mel file of the session is removed. -/
theorem remove_own {path : Bytes} (h : Holds cfg w₀ sid [path] w) :
    Holds cfg w₀ sid [] (w.remove path) := by
  refine (h.remove path).weaken fun path' hmem => ?_
  obtain ⟨hmem, hne⟩ := List.mem_filter.1 hmem
  exact absurd (List.mem_singleton.1 hmem) (of_decide_eq_true hne)

theorem write_mel (h : Holds cfg w₀ sid [] w) (extract : Bytes → Bytes) (s pcmB64 : Bytes)
    (elapsed : ℕ) : Holds cfg w₀ sid [(w.write_mel cfg extract s pcmB64 elapsed).2]
      (w.write_mel cfg extract s pcmB64 elapsed).1 := by
  refine ⟨h.lanes.same rfl rfl rfl rfl, h.known, fun path data hpath => ?_, h.lines, h.events, h.goes_on⟩
  rw [Worker.write_mel, Dict.get?_set] at hpath
  split at hpath
  · next heq => exact .inl (List.mem_singleton.2 heq)
  · exact (h.files path data hpath).imp (fun hmem => absurd hmem List.not_mem_nil) id

theorem put (h : Holds cfg w₀ sid own w) (hget : w.sessions.get? sid = some st)
    (hlane : st'.laneId = st.laneId) (hgrant : st'.grant = st.grant) :
    Holds cfg w₀ sid own (w.put sid st') := by
  refine ⟨h.lanes.put hget hlane hgrant, fun s u hu => ?_, fun path data hpath => ?_, h.lines, h.events,
    h.goes_on⟩
  · rw [Worker.put, Dict.get?_set] at hu
    split at hu
    · next hs => exact hs ▸ h.known sid st hget
    · exact h.known s u hu
  · refine (h.files path data hpath).imp id ?_
    rintro ⟨s, u, hs, hu, hown⟩
    exact ⟨s, u, hs, by rw [Worker.put, Dict.get?_set, if_neg hs]; exact hu, hown⟩

theorem drop (h : Holds cfg w₀ sid own w) (hget : w.sessions.get? sid = some st)
    (hlane : st'.laneId = st.laneId) (hgrant : st'.grant = st.grant) :
    Holds cfg w₀ sid own (w.drop sid st') := by
  refine ⟨h.lanes.drop hget hlane hgrant, fun s u hu => ?_, fun path data hpath => ?_, h.lines, h.events,
    h.goes_on⟩
  · rw [Worker.drop, Dict.get?_erase] at hu
    split at hu
    · cases hu
    · exact h.known s u hu
  · refine (h.files path data hpath).imp id ?_
    rintro ⟨s, u, hs, hu, hown⟩
    exact ⟨s, u, hs, by rw [Worker.drop, Dict.get?_erase, if_neg hs]; exact hu, hown⟩

theorem emplace (h : Holds cfg w₀ sid own w) (hget : w.sessions.get? sid = none) {lane : ℕ}
    (hlane : lane < cfg.max_slots ∧ lane ∉ w.held) (hsid : utf8 sid = true) (now : ℕ)
    (beginMeta : Fields) : Holds cfg w₀ sid own (w.emplace sid lane now beginMeta) := by
  refine ⟨h.lanes.emplace hget hlane now beginMeta, fun s u hu => ?_, fun path data hpath => ?_, h.lines,
    h.events, h.goes_on⟩
  · rw [Worker.emplace, Dict.get?_set] at hu
    split at hu
    · next hs => exact hs ▸ hsid
    · exact h.known s u hu
  · refine (h.files path data hpath).imp id ?_
    rintro ⟨s, u, hs, hu, hown⟩
    exact ⟨s, u, hs, by rw [Worker.emplace, Dict.get?_set, if_neg hs]; exact hu, hown⟩

/-- The files that are left are those of the session. -/
theorem kept (h : Holds cfg w₀ sid own w)
    (hown : ∀ path ∈ own, ∃ st, w.sessions.get? sid = some st ∧ st.melPathOwned = path) : Kept cfg w := by
  refine ⟨h.lanes, h.known, fun path data hpath => ?_⟩
  rcases h.files path data hpath with hmem | ⟨s, st, -, hget, hpath⟩
  · obtain ⟨st, hget, hpath⟩ := hown path hmem
    exact ⟨sid, st, hget, hpath⟩
  · exact ⟨s, st, hget, hpath⟩

/-- The line is answered with what is printed last. -/
theorem print (h : Holds cfg w₀ sid own w)
    (hown : ∀ path ∈ own, ∃ st, w.sessions.get? sid = some st ∧ st.melPathOwned = path) {ev : Event}
    (hprint : w.print ev = some w') : Answered cfg w₀ w' := by
  have hkept := h.kept hown
  rw [Worker.print] at hprint
  split at hprint
  · cases hprint
    refine ⟨⟨hkept.lanes.same rfl rfl rfl rfl, hkept.known, hkept.files⟩, h.lines, ⟨ev, ?_⟩, h.goes_on⟩
    rw [h.events, h.lines]
  · cases hprint

end Holds

end

end LocalVoice.AsrWorker
