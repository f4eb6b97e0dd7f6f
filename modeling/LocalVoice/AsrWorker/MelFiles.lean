import LocalVoice.AsrWorker.Worker
import Mathlib.Data.Nat.Digits.Defs

/-! Whose the temporary mel files are. The clock stands in their names, so no two have the same one; a
    line touches the session it names, the file of that session and files that it makes itself, and the
    sweep those of the sessions it reaps. -/

namespace LocalVoice.AsrWorker
open LocalVoice.Lib

/-! ### Names -/

/-- The digits are read back. -/
theorem to_string_digits (n : ℕ) :
    (to_string n).map (fun b => b.toNat - 0x30) = (Nat.digits 10 n).reverse := by
  rw [to_string, List.map_map]
  conv_rhs => rw [← List.map_id (Nat.digits 10 n).reverse]
  refine List.map_congr_left fun d hd => ?_
  have hlt : d < 10 := Nat.digits_lt_base (by omega) (List.mem_reverse.1 hd)
  simp only [Function.comp_apply, UInt8.toNat_ofNat', id]
  omega

theorem to_string_inj {m n : ℕ} (h : to_string m = to_string n) : m = n := by
  have hdigits : Nat.digits 10 m = Nat.digits 10 n := by
    rw [← List.reverse_inj, ← to_string_digits, ← to_string_digits, h]
  exact Nat.digits.injective 10 hdigits

theorem underscore_not_mem (n : ℕ) : (0x5F : UInt8) ∉ to_string n := by
  intro h
  obtain ⟨d, hd, hb⟩ := List.mem_map.1 h
  have hlt : d < 10 := Nat.digits_lt_base (by omega) (List.mem_reverse.1 hd)
  have hnat := congrArg UInt8.toNat hb
  simp only [UInt8.toNat_ofNat'] at hnat
  have h5f : (0x5F : UInt8).toNat = 95 := rfl
  omega

/-- What stands behind the last separator. -/
theorem last_field_inj {sep : UInt8} {x y a b : Bytes} (ha : sep ∉ a) (hb : sep ∉ b)
    (h : x ++ [sep] ++ a = y ++ [sep] ++ b) : a = b := by
  have hback : ∀ (z c : Bytes), sep ∉ c →
      ((z ++ [sep] ++ c).reverse.takeWhile (· ≠ sep)) = c.reverse := by
    intro z c hc
    rw [List.reverse_append, List.reverse_append, List.takeWhile_append_of_pos]
    · simp
    · intro e he
      simpa using fun heq : e = sep => hc (heq ▸ List.mem_reverse.1 he)
  rw [← List.reverse_inj, ← hback x a ha, ← hback y b hb, h]

theorem mel_file_inj {cfg : Config} {sid sid' : Bytes} {m n : ℕ}
    (h : mel_file cfg sid m = mel_file cfg sid' n) : m = n := by
  have hname := List.append_cancel_right h
  exact to_string_inj (last_field_inj (underscore_not_mem m) (underscore_not_mem n) hname)

theorem mel_file_ne_nil (cfg : Config) (sid : Bytes) (ticks : ℕ) : mel_file cfg sid ticks ≠ [] := by
  intro h
  have hlen := congrArg List.length h
  simp [mel_file, ascii] at hlen

/-! ### What the handling of a line touches -/

/-- A name that is given between two states. -/
def Fresh (cfg : Config) (w w' : Worker) (path : Bytes) : Prop :=
  ∃ sid ticks, w.ticks < ticks ∧ ticks ≤ w'.ticks ∧ path = mel_file cfg sid ticks

/-- Between `w` and `w'` a line of `sid` is handled, whose mel file was `own` and becomes `own'`. -/
structure Touches (cfg : Config) (sid own : Bytes) (w : Worker) (own' : Bytes) (w' : Worker) : Prop where
  others : ∀ s, s ≠ sid → w'.sessions.get? s = w.sessions.get? s
  ticks : w.ticks ≤ w'.ticks
  owned : own' = own ∨ Fresh cfg w w' own'
  files : ∀ path, path ≠ own → ¬ Fresh cfg w w' path → w'.files.get? path = w.files.get? path

namespace Touches
variable {cfg : Config} {sid own own' own'' : Bytes} {w w' w'' : Worker}

/-- The sessions change at `sid` only, the files not at all. -/
theorem same (hsessions : ∀ s, s ≠ sid → w'.sessions.get? s = w.sessions.get? s)
    (hticks : w'.ticks = w.ticks) (hfiles : w'.files = w.files) : Touches cfg sid own w own w' where
  others := hsessions
  ticks := Nat.le_of_eq hticks.symm
  owned := .inl rfl
  files := fun path _ _ => by rw [hfiles]

theorem trans (h : Touches cfg sid own w own' w') (h' : Touches cfg sid own' w' own'' w'') :
    Touches cfg sid own w own'' w'' := by
  have hleft : ∀ path, Fresh cfg w w' path → Fresh cfg w w'' path := by
    rintro path ⟨s, t, hlo, hhi, rfl⟩
    exact ⟨s, t, hlo, Nat.le_trans hhi h'.ticks, rfl⟩
  have hright : ∀ path, Fresh cfg w' w'' path → Fresh cfg w w'' path := by
    rintro path ⟨s, t, hlo, hhi, rfl⟩
    exact ⟨s, t, Nat.lt_of_le_of_lt h.ticks hlo, hhi, rfl⟩
  refine ⟨fun s hs => (h'.others s hs).trans (h.others s hs), Nat.le_trans h.ticks h'.ticks, ?_, ?_⟩
  · rcases h'.owned with rfl | hfresh
    · exact h.owned.imp_right (hleft _)
    · exact .inr (hright _ hfresh)
  · intro path hpath hold
    have hmid : path ≠ own' := by
      rintro rfl
      rcases h.owned with rfl | hfresh
      · exact hpath rfl
      · exact hold (hleft _ hfresh)
    rw [h'.files path hmid fun hf => hold (hright _ hf),
      h.files path hpath fun hf => hold (hleft _ hf)]

theorem put (st : Session) : Touches cfg sid own w own (w.put sid st) :=
  same (fun s hs => by simp [Worker.put, hs]) rfl rfl

theorem print {ev : Event} (h : w.print ev = some w') : Touches cfg sid own w own w' := by
  unfold Worker.print at h
  split at h
  · obtain rfl := Option.some.inj h
    exact same (fun _ _ => rfl) rfl rfl
  · cases h

theorem drop (st : Session) : Touches cfg sid own w own (w.drop sid st) :=
  same (fun s hs => by simp [Worker.drop, hs]) rfl rfl

theorem emplace (lane now : ℕ) (beginMeta : Fields) :
    Touches cfg sid own w own (w.emplace sid lane now beginMeta) :=
  same (fun s hs => by simp [Worker.emplace, hs]) rfl rfl

theorem remove : Touches cfg sid own w own (w.remove own) where
  others := fun _ _ => rfl
  ticks := Nat.le_refl _
  owned := .inl rfl
  files := fun path hpath _ => by simp [Worker.remove, hpath]

theorem remove_own (h : Touches cfg sid own w own' w') : Touches cfg sid own w own' (w'.remove own) where
  others := h.others
  ticks := h.ticks
  owned := h.owned
  files := fun path hpath hold => by
    rw [← h.files path hpath hold]
    simp [Worker.remove, hpath]

theorem write_mel (extract : Bytes → Bytes) (s pcmB64 : Bytes) (elapsed : ℕ) :
    Touches cfg sid own w (w.write_mel cfg extract s pcmB64 elapsed).2
      (w.write_mel cfg extract s pcmB64 elapsed).1 := by
  have hnew : Fresh cfg w (w.write_mel cfg extract s pcmB64 elapsed).1
      (w.write_mel cfg extract s pcmB64 elapsed).2 :=
    ⟨s, w.ticks + elapsed + 1, by omega, Nat.le_refl _, rfl⟩
  refine ⟨fun _ _ => rfl, by simp only [Worker.write_mel]; omega, .inr hnew, fun path _ hold => ?_⟩
  have hne : path ≠ mel_file cfg s (w.ticks + elapsed + 1) := fun heq => hold (heq ▸ hnew)
  simp [Worker.write_mel, hne]

end Touches

namespace Worker
variable {cfg : Config} {w w' : Worker} {input : Fields} {env : Env} {sid : Bytes}

theorem print_sessions {ev : Event} (h : w.print ev = some w') : w'.sessions = w.sessions := by
  unfold print at h
  split at h
  · obtain rfl := Option.some.inj h
    rfl
  · cases h

/-- The mel file of a session. -/
def owned (w : Worker) (sid : Bytes) : Bytes :=
  ((w.sessions.get? sid).map Session.melPathOwned).getD []

theorem owned_of_get {st : Session} (h : w.sessions.get? sid = some st) :
    w.owned sid = st.melPathOwned := by
  simp [owned, h]

/-- `begin` takes no mel file. -/
theorem begin_touches (hid : value_str input "id" = some sid)
    (h : w.handleBegin cfg input env = some w') :
    Touches cfg sid (w.owned sid) w (w.owned sid) w' ∧
      ∀ st, w'.sessions.get? sid = some st → st.melPathOwned = w.owned sid := by
  simp only [handleBegin, hid, Option.bind_eq_bind, Option.bind_some] at h
  split at h
  · refine ⟨.print h, fun st hst => ?_⟩
    rw [print_sessions h] at hst
    exact (owned_of_get hst).symm
  · split at h
    · next st hget =>
      refine ⟨(Touches.put _).trans (.print h), fun st' hst => ?_⟩
      rw [print_sessions h, put, Dict.get?_set, if_pos rfl] at hst
      obtain rfl := Option.some.inj hst
      exact (owned_of_get hget).symm
    · next hget =>
      split at h
      · refine ⟨.print h, fun st hst => ?_⟩
        rw [print_sessions h, hget] at hst
        cases hst
      · refine ⟨(Touches.emplace _ _ _).trans (.print h), fun st hst => ?_⟩
        rw [print_sessions h, emplace, Dict.get?_set, if_pos rfl] at hst
        obtain rfl := Option.some.inj hst
        simp [owned, hget]

theorem hop_pcm_touches (st : Session) :
    Touches cfg sid st.melPathOwned w (w.hop_pcm cfg sid st env).2.1.melPathOwned
      (w.hop_pcm cfg sid st env).1 := by
  unfold hop_pcm
  split
  · exact .same (fun _ _ => rfl) rfl rfl
  · split
    · exact .same (fun _ _ => rfl) rfl rfl
    · dsimp only
      split
      · exact Touches.remove.trans (.write_mel _ _ _ _)
      · exact .remove

theorem end_pcm_touches (st : Session) (carried : Bool) :
    Touches cfg sid st.melPathOwned w (w.end_pcm cfg sid st carried env).2.1.melPathOwned
      (w.end_pcm cfg sid st carried env).1 := by
  unfold end_pcm
  split
  · split
    · exact .same (fun _ _ => rfl) rfl rfl
    · dsimp only
      split
      · exact Touches.remove.trans (.write_mel _ _ _ _)
      · exact .remove
  · exact .same (fun _ _ => rfl) rfl rfl

/-- `end` drops the session. -/
theorem end_touches (hid : value_str input "id" = some sid)
    (h : w.handleEnd cfg input env = some w') :
    (∃ own', Touches cfg sid (w.owned sid) w own' w') ∧ w'.sessions.get? sid = none := by
  simp only [handleEnd, hid, Option.bind_eq_bind, Option.bind_some] at h
  split at h
  · next hget => exact ⟨⟨_, .print h⟩, by rw [print_sessions h, hget]⟩
  · next session hget =>
    obtain ⟨finalEv, -, h⟩ := Option.bind_eq_some_iff.1 h
    have hpcm := @end_pcm_touches cfg w env sid (session.carry input) (string? input "pcm_b64").isSome
    have hcarry : (session.carry input).melPathOwned = w.owned sid := (owned_of_get hget).symm
    rw [hcarry] at hpcm
    rw [owned_of_get hget] at hpcm ⊢
    refine ⟨⟨_, ((hpcm.remove_own.trans .remove).trans (.drop _)).trans (.print h)⟩, ?_⟩
    rw [print_sessions h, drop, Dict.get?_erase, if_pos rfl]

/-- A hop changes the transcript so far and its count, nothing else. -/
theorem hop_keeps {st st' : Session} {ev : Event} (h : w.hop cfg sid st env = some (st', ev)) :
    ∃ rawDecoded chunkId, st' = { st with rawDecoded := rawDecoded, chunkId := chunkId } := by
  unfold hop at h
  split at h
  · obtain ⟨rfl, -⟩ := Prod.mk.inj (Option.some.inj h)
    exact ⟨_, _, rfl⟩
  · split at h
    · obtain ⟨kept, -, h⟩ := Option.map_eq_some_iff.1 h
      dsimp only at h
      split at h
      · obtain ⟨rfl, -⟩ := Prod.mk.inj h
        exact ⟨_, _, rfl⟩
      · obtain ⟨rfl, -⟩ := Prod.mk.inj h
        exact ⟨_, _, rfl⟩
    · obtain ⟨rfl, -⟩ := Prod.mk.inj (Option.some.inj h)
      exact ⟨_, _, rfl⟩

/-- A `chunk` puts the session back with the mel file it has then. -/
theorem chunk_touches (hid : value_str input "id" = some sid)
    (h : w.handleChunk cfg input env = some w') :
    ∃ own', Touches cfg sid (w.owned sid) w own' w' ∧
      ∀ st, w'.sessions.get? sid = some st → st.melPathOwned = own' := by
  simp only [handleChunk, hid, Option.bind_eq_bind, Option.bind_some] at h
  split at h
  · next hget =>
    refine ⟨_, .print h, fun st hst => ?_⟩
    rw [print_sessions h, hget] at hst
    cases hst
  · next session hget =>
    obtain ⟨isLast, -, h⟩ := Option.bind_eq_some_iff.1 h
    have hput : ∀ {w₁ w₂ : Worker} {st : Session} {ev : Event},
        (w₁.put sid st).print ev = some w₂ →
        ∀ st', w₂.sessions.get? sid = some st' → st'.melPathOwned = st.melPathOwned := by
      intro w₁ w₂ st ev hprint st' hst
      rw [print_sessions hprint, put, Dict.get?_set, if_pos rfl] at hst
      rw [Option.some.inj hst]
    split at h
    · -- the session that `handleEnd` finds has the chunk's audio already
      obtain ⟨⟨own', hend⟩, hgone⟩ := end_touches hid h
      have hsame : (w.put sid ((session.carry input).touch env.now)).owned sid = w.owned sid := by
        rw [owned_of_get hget, owned, put, Dict.get?_set, if_pos rfl]
        rfl
      rw [hsame] at hend
      refine ⟨own', (Touches.put _).trans hend, fun st hst => ?_⟩
      rw [hgone] at hst
      cases hst
    · rw [owned_of_get hget]
      have hpcm := Touches.trans (.put _) (@hop_pcm_touches cfg (w.put sid ((session.carry input).touch env.now)) env
        sid ((session.carry input).touch env.now))
      split at h
      · next w₁ st₁ failed heq =>
        rw [heq] at hpcm
        exact ⟨_, (hpcm.trans (.put _)).trans (.print h), hput h⟩
      · next w₁ st₁ heq =>
        rw [heq] at hpcm
        obtain ⟨⟨st₂, ev⟩, hhop, h⟩ := Option.bind_eq_some_iff.1 h
        refine ⟨_, (hpcm.trans (.put _)).trans (.print h), fun st hst => ?_⟩
        obtain ⟨_, _, rfl⟩ := hop_keeps hhop
        exact hput h st hst

/-- What is done with a line: its handler runs, or something is printed. -/
inductive Handled (cfg : Config) (w : Worker) (env : Env) (parsed : Except Bytes Json) (w' : Worker) :
    Prop where
  | printed (ev : Event) (h : w.print ev = some w')
      (hkind : ∀ input, parsed = .ok (.object input) → ∀ kind ∈ ["begin", "chunk", "end"],
        string? input "event" ≠ some (ascii kind))
  | begins (input : Fields) (hparsed : parsed = .ok (.object input))
      (hkind : string? input "event" = some (ascii "begin")) (h : w.handleBegin cfg input env = some w')
  | chunk (input : Fields) (hparsed : parsed = .ok (.object input))
      (hkind : string? input "event" = some (ascii "chunk")) (h : w.handleChunk cfg input env = some w')
  | ends (input : Fields) (hparsed : parsed = .ok (.object input))
      (hkind : string? input "event" = some (ascii "end")) (h : w.handleEnd cfg input env = some w')

theorem string_of_value {event : Bytes} (hsome : (input.lookup (ascii "event")).isNone = false)
    (h : value_str input "event" = some event) : string? input "event" = some event := by
  unfold value_str at h
  unfold string?
  split at h
  · next hnone => simp [hnone] at hsome
  · next s hstr =>
    obtain rfl := Option.some.inj h
    rw [hstr]
  · cases h

theorem handled_of {parse : Bytes → Except Bytes Json} {line : Bytes}
    (h : w.handle_line cfg parse line env = some w') : Handled cfg w env (parse line) w' := by
  unfold handle_line at h
  split at h
  · next what hparse => exact .printed _ h fun input hin => by rw [hparse] at hin; cases hin
  · next parsed hparse =>
    rw [hparse]
    unfold handle at h
    split at h
    · next input =>
      split at h
      · next hnone =>
        refine .printed _ h fun input' hin kind _ hstr => ?_
        obtain rfl := Json.object.inj (Except.ok.inj hin)
        simp only [Option.isNone_iff_eq_none] at hnone
        simp [string?, hnone] at hstr
      · next hsome =>
        simp only [Option.bind_eq_bind] at h
        obtain ⟨event, hevent, h⟩ := Option.bind_eq_some_iff.1 h
        have hkind := string_of_value (by simpa using hsome) hevent
        split at h
        · next heq => exact .begins input rfl (heq ▸ hkind) h
        · next hbegin =>
          split at h
          · next heq => exact .chunk input rfl (heq ▸ hkind) h
          · next hchunk =>
            split at h
            · next heq => exact .ends input rfl (heq ▸ hkind) h
            · next hend =>
              obtain ⟨evId, -, h⟩ := Option.bind_eq_some_iff.1 h
              refine .printed _ h fun input' hin kind hmem hstr => ?_
              obtain rfl := Json.object.inj (Except.ok.inj hin)
              rw [hkind] at hstr
              obtain rfl := Option.some.inj hstr
              simp only [List.mem_cons, List.not_mem_nil, or_false] at hmem
              rcases hmem with rfl | rfl | rfl
              · exact hbegin rfl
              · exact hchunk rfl
              · exact hend rfl
    · next hno => exact .printed _ h fun input hin => (hno input (Except.ok.inj hin)).elim

/-- A handler runs for some session. -/
theorem handled_touches {parsed : Except Bytes Json} (h : Handled cfg w env parsed w') :
    ∃ sid own', Touches cfg sid (w.owned sid) w own' w' ∧
      ∀ st, w'.sessions.get? sid = some st → st.melPathOwned = own' := by
  cases h with
  | printed ev h =>
    refine ⟨[], _, .print h, fun st hst => ?_⟩
    rw [print_sessions h] at hst
    exact (owned_of_get hst).symm
  | begins input hparsed hkind h =>
    have hid := h
    unfold handleBegin at hid
    obtain ⟨sid, hid, -⟩ := Option.bind_eq_some_iff.1 hid
    exact ⟨sid, _, begin_touches hid h⟩
  | chunk input hparsed hkind h =>
    have hid := h
    unfold handleChunk at hid
    obtain ⟨sid, hid, -⟩ := Option.bind_eq_some_iff.1 hid
    exact ⟨sid, chunk_touches hid h⟩
  | ends input hparsed hkind h =>
    have hid := h
    unfold handleEnd at hid
    obtain ⟨sid, hid, -⟩ := Option.bind_eq_some_iff.1 hid
    obtain ⟨⟨own', htouch⟩, hgone⟩ := end_touches hid h
    exact ⟨sid, own', htouch, fun st hst => by rw [hgone] at hst; cases hst⟩

/-! ### The sweep -/

theorem sweep_spec {idle : List (Bytes × Session)} (h : idle.foldlM reap w = some w') :
    w'.ticks = w.ticks ∧
      (∀ e ∈ idle, w'.sessions.get? e.1 = none) ∧
      (∀ sid st, w'.sessions.get? sid = some st → w.sessions.get? sid = some st) ∧
      ∀ path, (∀ e ∈ idle, e.2.melPathOwned ≠ path) → w'.files.get? path = w.files.get? path := by
  induction idle generalizing w with
  | nil =>
    obtain rfl := Option.some.inj h
    exact ⟨rfl, fun _ he => by simp at he, fun _ _ hst => hst, fun _ _ => rfl⟩
  | cons e idle ih =>
    rw [List.foldlM_cons] at h
    obtain ⟨w₁, hreap, h⟩ := Option.bind_eq_some_iff.1 h
    obtain ⟨hticks, hgone, hold, hfiles⟩ := ih h
    unfold reap at hreap
    split at hreap
    · obtain rfl := Option.some.inj hreap
      refine ⟨hticks, fun e' he => ?_, fun sid st hst => ?_, fun path hpath => ?_⟩
      · rcases List.mem_cons.1 he with rfl | he
        · cases hget : w'.sessions.get? e'.1 with
          | none => rfl
          | some st => simpa [drop] using hold e'.1 st hget
        · exact hgone e' he
      · have hst := hold sid st hst
        simp only [drop, remove, Dict.get?_erase] at hst
        split at hst
        · cases hst
        · exact hst
      · rw [hfiles path fun e he => hpath e (List.mem_cons_of_mem _ he)]
        have hne := (hpath e List.mem_cons_self).symm
        simp [drop, remove, hne]
    · cases hreap

end Worker

/-! ### Ownership -/

/-- Each session has a mel file of its own, or none. -/
structure Owned (cfg : Config) (w : Worker) : Prop where
  named : ∀ sid st, w.sessions.get? sid = some st → st.melPathOwned = [] ∨
    ∃ s ticks, ticks ≤ w.ticks ∧ st.melPathOwned = mel_file cfg s ticks
  apart : ∀ sid sid' st st', sid ≠ sid' → w.sessions.get? sid = some st →
    w.sessions.get? sid' = some st' → st.melPathOwned = st'.melPathOwned → st.melPathOwned = []

namespace Owned
variable {cfg : Config} {w w' : Worker} {sid own' : Bytes}

theorem init : Owned cfg .init where
  named := fun _ _ h => by cases h
  apart := fun _ _ _ _ _ h => by cases h

/-- A file that a session has is none of those that are made later. -/
theorem not_fresh (h : Owned cfg w) {st : Session} (hget : w.sessions.get? sid = some st) :
    ¬ Fresh cfg w w' st.melPathOwned := by
  rintro ⟨s, t, hlo, -, heq⟩
  rcases h.named sid st hget with hnil | ⟨s', t', hle, heq'⟩
  · exact mel_file_ne_nil cfg s t (heq.symm.trans hnil)
  · obtain rfl := mel_file_inj (heq'.symm.trans heq)
    omega

theorem touches (h : Owned cfg w) (htouch : Touches cfg sid (w.owned sid) w own' w')
    (hown : ∀ st, w'.sessions.get? sid = some st → st.melPathOwned = own') : Owned cfg w' := by
  have hcase : own' = [] ∨ Fresh cfg w w' own' ∨
      ∃ st, w.sessions.get? sid = some st ∧ st.melPathOwned = own' := by
    rcases htouch.owned with heq | hfresh
    · cases hget : w.sessions.get? sid with
      | none => exact .inl (by rw [heq]; simp [Worker.owned, hget])
      | some st => exact .inr (.inr ⟨st, rfl, by rw [heq, Worker.owned_of_get hget]⟩)
    · exact .inr (.inl hfresh)
  have hdiff : ∀ s st, s ≠ sid → w.sessions.get? s = some st → st.melPathOwned = own' → own' = [] := by
    intro s st hs hget heq
    rcases hcase with hnil | hfresh | ⟨st₀, hget₀, heq₀⟩
    · exact hnil
    · exact ((h.not_fresh hget) (heq ▸ hfresh)).elim
    · rw [← heq]
      exact h.apart s sid st st₀ hs hget hget₀ (heq.trans heq₀.symm)
  refine ⟨fun s st hget => ?_, fun s s' st st' hne hget hget' heq => ?_⟩
  · by_cases hs : s = sid
    · subst hs
      rw [hown st hget]
      rcases hcase with hnil | ⟨s', t, -, hhi, heq⟩ | ⟨st₀, hget₀, heq₀⟩
      · exact .inl hnil
      · exact .inr ⟨s', t, hhi, heq⟩
      · rw [← heq₀]
        refine (h.named s st₀ hget₀).imp_right ?_
        rintro ⟨s', t, hle, heq⟩
        exact ⟨s', t, Nat.le_trans hle htouch.ticks, heq⟩
    · rw [htouch.others s hs] at hget
      refine (h.named s st hget).imp_right ?_
      rintro ⟨s', t, hle, heq⟩
      exact ⟨s', t, Nat.le_trans hle htouch.ticks, heq⟩
  · by_cases hs : s = sid
    · subst hs
      rw [htouch.others s' hne.symm] at hget'
      rw [hown st hget] at heq ⊢
      exact hdiff s' st' hne.symm hget' heq.symm
    · rw [htouch.others s hs] at hget
      by_cases hs' : s' = sid
      · subst hs'
        rw [hown st' hget'] at heq
        rw [heq]
        exact hdiff s st hne hget heq
      · rw [htouch.others s' hs'] at hget'
        exact h.apart s s' st st' hne hget hget' heq

/-- Where sessions only go, nothing is shared. -/
theorem less (h : Owned cfg w) (hticks : w'.ticks = w.ticks)
    (hold : ∀ sid st, w'.sessions.get? sid = some st → w.sessions.get? sid = some st) : Owned cfg w' :=
  ⟨fun sid st hget => by rw [hticks]; exact h.named sid st (hold sid st hget),
    fun sid sid' st st' hne hget hget' =>
      h.apart sid sid' st st' hne (hold sid st hget) (hold sid' st' hget')⟩

/-- A step keeps the files apart. -/
theorem step {parse : Bytes → Except Bytes Json} {a : Label} (h : Owned cfg w)
    (hstep : AsrWorker.step cfg parse w a w') : Owned cfg w' := by
  unfold AsrWorker.step at hstep
  cases a with
  | line line env =>
    simp only [Worker.next] at hstep
    split at hstep
    · cases hstep
    · split at hstep
      · obtain rfl := Option.some.inj hstep
        exact h
      · obtain rfl := Option.some.inj hstep
        cases hline : w.handle_line cfg parse line env with
        | none => exact h.less rfl fun _ _ hget => hget
        | some w₁ =>
          obtain ⟨sid, own', htouch, hown⟩ := Worker.handled_touches (Worker.handled_of hline)
          exact (h.touches htouch hown).less rfl fun _ _ hget => hget
  | sweep now =>
    simp only [Worker.next] at hstep
    split at hstep
    · cases hstep
    · obtain rfl := Option.some.inj hstep
      cases hsweep : w.sweep now with
      | none => exact h.less rfl fun _ _ hget => hget
      | some w₁ =>
        obtain ⟨hticks, -, hold, -⟩ := Worker.sweep_spec hsweep
        exact h.less hticks hold

theorem reached {parse : Bytes → Except Bytes Json} {as : List Label}
    (h : Run (AsrWorker.step cfg parse) .init as w) : Owned cfg w :=
  h.invariant (fun hI hst => hI.step hst) init

end Owned

end LocalVoice.AsrWorker
