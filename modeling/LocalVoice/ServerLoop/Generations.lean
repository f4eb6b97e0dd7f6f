import LocalVoice.ServerLoop.Session
import LocalVoice.SlvClient.Closing

/-! Generations and sockets. Where no `connect()` runs beside another opening or a send, and no opening
    is cut off between its socket and its acceptance, the socket in `_ws` is in the hands of the call
    that opens it, or it has the current generation. -/

namespace LocalVoice.ServerLoop
open LocalVoice.Lib LocalVoice.SlvClient

/-! ### Phases -/

/-- An opening, or what comes before and after one, or a send that writes. -/
def acting (ph : Phase) : Bool :=
  ph.busy || match ph with
  | .writing _ => true
  | _ => false

/-- The socket that an attempt has assigned and not accepted yet. -/
def trial : Phase → Option ℕ
  | .configuring _ n => some n
  | .slammed _ n => some n
  | .refused n => some n
  | .grace _ n _ => some n
  | _ => none

/-- The move takes the send lock, and opens or writes. -/
def takes_lock (job : Job) (m : Move) (ph : Phase) : Bool :=
  match job, m, ph with
  | .send _, .go, .waiting => true
  | _, .go, .locked => true
  | _, _, _ => false

def quiet (l : List Task) : Bool := l.all fun t => !acting t.phase

/-- The generation of each socket after a move. -/
def numbered (gen : ℕ → Option ℕ) (c' : Shared) (m : Move) (ph : Phase) : ℕ → Option ℕ :=
  match m, ph with
  | .healthy, .grace _ n _ => Function.update gen n (some c'.session_gen)
  | _, _ => gen

theorem acting_of_trial {ph : Phase} {n : ℕ} (h : trial ph = some n) : acting ph = true := by
  cases ph <;> first | rfl | cases h

theorem acting_retry (k : ℕ) : trial (retry k) = none := by
  cases k <;> rfl

theorem trial_after_reader (w : Option ℕ) : trial (after_reader w) = none := by
  cases w <;> rfl

theorem trial_after_burial (k : ℕ) (w : Option ℕ) : trial (after_burial k w) = none := by
  cases w with
  | none => exact acting_retry k
  | some w => rfl

theorem trial_close_ws (w : Option ℕ) : trial (close_ws w) = none ∧ acting (close_ws w) = false := by
  cases w <;> exact ⟨rfl, rfl⟩

/-- A move that neither assigns a socket nor accepts one. -/
structure Plain (c : Shared) (job : Job) (m : Move) (ph ph' : Phase) (c' : Shared) : Prop where
  session_gen : c'.session_gen = c.session_gen
  opened : c'.opened = c.opened
  ws : c'.ws = c.ws ∨ c'.ws = none
  on_trial : trial ph' = none ∨ trial ph' = trial ph
  kept : trial ph' = trial ph ∨ trial ph = none ∨ c'.ws = none ∨ (m = .cancel ∨ m = .fail) ∧ c' = c
  writing : ∀ s, ph' = .writing s → c.ws = some s ∧ takes_lock job m ph = true
  acts : acting ph' = true → acting ph = true ∨ takes_lock job m ph = true
  numbers : ∀ gen, numbered gen c' m ph = gen

section
variable {c c' : Shared} {job : Job} {m : Move} {ph ph' : Phase}

/-- A move that ends a task, or takes it to a phase that is not its own yet. -/
theorem plain_of (hgen : c'.session_gen = c.session_gen) (hopened : c'.opened = c.opened)
    (hws : c'.ws = c.ws ∨ c'.ws = none) (htrial : trial ph' = none)
    (hkept : trial ph = none ∨ c'.ws = none ∨ (m = .cancel ∨ m = .fail) ∧ c' = c)
    (hwriting : ∀ s, ph' ≠ .writing s)
    (hacting : acting ph' = true → acting ph = true ∨ takes_lock job m ph = true)
    (hm : m ≠ .healthy) : Plain c job m ph ph' c' where
  session_gen := hgen
  opened := hopened
  ws := hws
  on_trial := Or.inl htrial
  kept := Or.inr hkept
  writing := fun s hs => absurd hs (hwriting s)
  acts := hacting
  numbers := by
    intro gen
    cases m <;> first | rfl | exact absurd rfl hm

theorem after_reader_writes (w : Option ℕ) (s : ℕ) : after_reader w ≠ .writing s := by
  cases w <;> simp [after_reader]

theorem retry_writes (k s : ℕ) : retry k ≠ .writing s := by
  cases k <;> simp [retry]

theorem after_burial_writes (k : ℕ) (w : Option ℕ) (s : ℕ) : after_burial k w ≠ .writing s := by
  cases w with
  | none => exact retry_writes k s
  | some w => simp [after_burial]

theorem close_ws_writes (w : Option ℕ) (s : ℕ) : close_ws w ≠ .writing s := by
  cases w <;> simp [close_ws]

/-- A move assigns the socket of an attempt, accepts it, or is plain. -/
theorem moved_kind (h : Moved c job m ph ph' c') : Plain c job m ph ph' c' ∨
    (∃ k, m = .connected ∧ ph = .dialing k ∧ ph' = .configuring k c.opened ∧ c' = c.assign) ∨
    ∃ k n since, m = .healthy ∧ ph = .grace k n since ∧ ph' = job.after_open c.ws ∧
      c' = c.accept n := by
  cases h with
  | connected => exact Or.inr (Or.inl ⟨_, rfl, rfl, rfl, rfl⟩)
  | healthy => exact Or.inr (Or.inr ⟨_, _, _, rfl, rfl, rfl, rfl⟩)
  | @send_open p s hjob hws =>
    subst hjob
    exact Or.inl ⟨rfl, rfl, Or.inl rfl, Or.inl rfl, Or.inl rfl,
      fun t ht => ⟨by cases ht; exact hws, rfl⟩, fun _ => Or.inr rfl, fun _ => rfl⟩
  | configured => exact Or.inl ⟨rfl, rfl, Or.inl rfl, Or.inr rfl, Or.inl rfl, by simp,
      fun _ => Or.inl rfl, fun _ => rfl⟩
  | slammed => exact Or.inl ⟨rfl, rfl, Or.inl rfl, Or.inr rfl, Or.inl rfl, by simp,
      fun _ => Or.inl rfl, fun _ => rfl⟩
  | refused => exact Or.inl ⟨rfl, rfl, Or.inl rfl, Or.inr rfl, Or.inl rfl, by simp,
      fun _ => Or.inl rfl, fun _ => rfl⟩
  | revive hjob =>
    subst hjob
    exact Or.inl (plain_of rfl rfl (Or.inl rfl) rfl (Or.inl rfl) (by simp) (fun _ => Or.inr rfl)
      (by simp))
  | lock => exact Or.inl (plain_of rfl rfl (Or.inl rfl) rfl (Or.inl rfl) (by simp)
      (fun hacting => by cases hacting) (by simp))
  | handled => exact Or.inl (plain_of rfl rfl (Or.inl rfl) rfl (Or.inl rfl) (by simp)
      (fun hacting => by cases hacting) (by simp))
  | send_dead => exact Or.inl (plain_of rfl rfl (Or.inl rfl) rfl (Or.inl rfl) (by simp)
      (fun hacting => by cases hacting) (by simp))
  | too_late => exact Or.inl (plain_of rfl rfl (Or.inl rfl) rfl (Or.inl rfl) (by simp)
      (fun hacting => by cases hacting) (by simp))
  | failed => exact Or.inl (plain_of rfl rfl (Or.inr rfl) rfl (Or.inl rfl) (by simp)
      (fun _ => Or.inl rfl) (by simp))
  | tear_wait => exact Or.inl (plain_of rfl rfl (Or.inr rfl) rfl (Or.inl rfl) (by simp)
      (fun _ => Or.inr (by cases job <;> rfl)) (by simp))
  | tear => exact Or.inl (plain_of rfl rfl (Or.inr rfl) (trial_after_reader _) (Or.inl rfl)
      (after_reader_writes _) (fun _ => Or.inr (by cases job <;> rfl)) (by simp))
  | reader_closed => exact Or.inl (plain_of rfl rfl (Or.inl rfl) (trial_after_reader _) (Or.inl rfl)
      (after_reader_writes _) (fun _ => Or.inl rfl) (by simp))
  | slam_closed => exact Or.inl (plain_of rfl rfl (Or.inr rfl) (acting_retry _) (Or.inr (Or.inl rfl))
      (retry_writes _) (fun _ => Or.inl rfl) (by simp))
  | refuse_closed => exact Or.inl (plain_of rfl rfl (Or.inr rfl) rfl (Or.inr (Or.inl rfl)) (by simp)
      (fun _ => Or.inl rfl) (by simp))
  | reject_wait => exact Or.inl (plain_of rfl rfl (Or.inr rfl) rfl (Or.inr (Or.inl rfl)) (by simp)
      (fun _ => Or.inl rfl) (by simp))
  | reject => exact Or.inl (plain_of rfl rfl (Or.inr rfl) (trial_after_burial _ _)
      (Or.inr (Or.inl rfl)) (after_burial_writes _ _) (fun _ => Or.inl rfl) (by simp))
  | reader_buried => exact Or.inl (plain_of rfl rfl (Or.inl rfl) (trial_after_burial _ _) (Or.inl rfl)
      (after_burial_writes _ _) (fun _ => Or.inl rfl) (by simp))
  | ws_buried => exact Or.inl (plain_of rfl rfl (Or.inl rfl) (acting_retry _) (Or.inl rfl)
      (retry_writes _) (fun _ => Or.inl rfl) (by simp))
  | reader_ended => exact Or.inl (plain_of rfl rfl (Or.inl rfl) (trial_close_ws _).1 (Or.inl rfl)
      (close_ws_writes _) (fun hacting => by rw [(trial_close_ws _).2] at hacting; cases hacting)
      (by simp))
  | ws_ended => exact Or.inl (plain_of rfl rfl (Or.inr rfl) rfl (Or.inl rfl) (by simp)
      (fun hacting => by cases hacting) (by simp))
  | stopped hstops =>
    have hcut := stops_move hstops
    refine Or.inl (plain_of rfl rfl (Or.inl rfl) rfl (Or.inr (Or.inr ⟨hcut, rfl⟩)) (by simp)
      (fun hacting => by cases hacting) ?_)
    rcases hcut with rfl | rfl <;> simp
  | _ => exact Or.inl (plain_of rfl rfl (Or.inl rfl) rfl (Or.inl rfl) (by simp) (fun _ => Or.inl rfl)
      (by simp))

end

/-! ### Sockets and their generations -/

/-- One call opens or writes at a time; what it tries is the last socket, which has no generation yet;
    what it writes to has the current one, as `_ws` has if no call tries it. -/
structure Gens (c : Client) (gen : ℕ → Option ℕ) : Prop where
  latest : WsLatest c.shared
  alone : ∀ (i j : ℕ) t u, c.tasks[i]? = some t → c.tasks[j]? = some u → acting t.phase = true →
    acting u.phase = true → i = j
  tried : ∀ (i : ℕ) t n, c.tasks[i]? = some t → trial t.phase = some n →
    n + 1 = c.shared.opened ∧ gen n = none
  writing : ∀ (i : ℕ) t s, c.tasks[i]? = some t → t.phase = .writing s →
    gen s = some c.shared.session_gen
  current : ∀ s, c.shared.ws = some s → gen s = some c.shared.session_gen ∨
    ∃ (i : ℕ) (t : Task), c.tasks[i]? = some t ∧ trial t.phase = some s
  known : ∀ s g, gen s = some g → s < c.shared.opened ∧ g ≤ c.shared.session_gen
  unique : ∀ s t g, gen s = some g → gen t = some g → s = t

section
variable {c c' : Client} {gen : ℕ → Option ℕ} {i : ℕ} {t : Task} {m : Move} {ph : Phase}

/-- Only the task that moves acts. -/
theorem Gens.only (h : Gens c gen) (ht : c.tasks[i]? = some t)
    (hacts : acting t.phase = true ∨ quiet c.tasks = true) :
    ∀ (j : ℕ) u, j ≠ i → c.tasks[j]? = some u → acting u.phase = false := by
  intro j u hne hu
  by_contra hacting
  rw [Bool.not_eq_false] at hacting
  rcases hacts with hself | hquiet
  · exact hne (h.alone j i u t hu ht hacting hself)
  · have hall := List.all_eq_true.1 hquiet u (List.mem_of_getElem? hu)
    rw [hacting] at hall
    cases hall

/-- A plain move. -/
theorem Gens.plain (h : Gens c gen) (ht : c.tasks[i]? = some t)
    (hp : Plain c.shared t.job m t.phase ph c'.shared) (hlatest : WsLatest c'.shared)
    (htasks : c'.tasks = c.tasks.set i ⟨t.job, ph⟩)
    (hquiet : takes_lock t.job m t.phase = true → quiet c.tasks = true)
    (hcut : m = .cancel ∨ m = .fail → ∀ n, trial t.phase = some n → c.shared.ws ≠ some n) :
    Gens c' gen := by
  have hothers : acting ph = true → ∀ (j : ℕ) u, j ≠ i → c.tasks[j]? = some u →
      acting u.phase = false := fun hacting => h.only ht ((hp.acts hacting).imp_right hquiet)
  have hset : ∀ (j : ℕ) u, c'.tasks[j]? = some u →
      i = j ∧ (⟨t.job, ph⟩ : Task) = u ∨ i ≠ j ∧ c.tasks[j]? = some u := by
    intro j u hu
    rw [htasks] at hu
    exact (get_set_iff ht).1 hu
  refine ⟨hlatest, ?_, ?_, ?_, ?_, ?_, h.unique⟩
  · intro j k u v hu hv hacts hacts'
    rcases hset j u hu with ⟨rfl, rfl⟩ | ⟨hj, hu⟩ <;> rcases hset k v hv with ⟨rfl, rfl⟩ | ⟨hk, hv⟩
    · rfl
    · rw [hothers hacts k v (Ne.symm hk) hv] at hacts'
      cases hacts'
    · rw [hothers hacts' j u (Ne.symm hj) hu] at hacts
      cases hacts
    · exact h.alone j k u v hu hv hacts hacts'
  · intro j u n hu hn
    rw [hp.opened]
    rcases hset j u hu with ⟨rfl, rfl⟩ | ⟨-, hu⟩
    · rcases hp.on_trial with hnone | hsame
      · rw [hnone] at hn
        cases hn
      · exact h.tried i t n ht (hsame ▸ hn)
    · exact h.tried j u n hu hn
  · intro j u s hu hs
    rw [hp.session_gen]
    rcases hset j u hu with ⟨rfl, rfl⟩ | ⟨-, hu⟩
    · obtain ⟨hws, htakes⟩ := hp.writing s hs
      rcases h.current s hws with hgen | ⟨k, v, hv, htrial⟩
      · exact hgen
      · have hall := List.all_eq_true.1 (hquiet htakes) v (List.mem_of_getElem? hv)
        rw [acting_of_trial htrial] at hall
        cases hall
    · exact h.writing j u s hu hs
  · intro s hs
    rw [hp.session_gen]
    rcases hp.ws with hsame | hnone
    · rw [hsame] at hs
      rcases h.current s hs with hgen | ⟨j, u, hu, htrial⟩
      · exact Or.inl hgen
      · refine Or.inr ?_
        by_cases hji : i = j
        · subst hji
          obtain rfl : t = u := Option.some.inj (ht.symm.trans hu)
          refine ⟨i, ⟨t.job, ph⟩, by rw [htasks]; exact (get_set_iff ht).2 (Or.inl ⟨rfl, rfl⟩), ?_⟩
          rcases hp.kept with hkept | hnone | hnone | ⟨hm, -⟩
          · exact hkept.trans htrial
          · rw [hnone] at htrial
            cases htrial
          · rw [hsame, hs] at hnone
            cases hnone
          · exact absurd hs (hcut hm s htrial)
        · exact ⟨j, u, by rw [htasks]; exact (get_set_iff ht).2 (Or.inr ⟨hji, hu⟩), htrial⟩
    · rw [hnone] at hs
      cases hs
  · intro s g hg
    rw [hp.opened, hp.session_gen]
    exact h.known s g hg

/-- A task that acts moves on, and no other one does. -/
theorem Gens.turn {gen' : ℕ → Option ℕ} (h : Gens c gen) (ht : c.tasks[i]? = some t)
    (hacts : acting t.phase = true) (htasks : c'.tasks = c.tasks.set i ⟨t.job, ph⟩)
    (hlatest : WsLatest c'.shared)
    (htried : ∀ n, trial ph = some n → n + 1 = c'.shared.opened ∧ gen' n = none)
    (hwriting : ∀ s, ph = .writing s → gen' s = some c'.shared.session_gen)
    (hcurrent : ∀ s, c'.shared.ws = some s → gen' s = some c'.shared.session_gen ∨ trial ph = some s)
    (hknown : ∀ s g, gen' s = some g → s < c'.shared.opened ∧ g ≤ c'.shared.session_gen)
    (hunique : ∀ s u g, gen' s = some g → gen' u = some g → s = u) : Gens c' gen' := by
  have hothers := h.only ht (Or.inl hacts)
  have hset : ∀ (j : ℕ) u, c'.tasks[j]? = some u →
      i = j ∧ (⟨t.job, ph⟩ : Task) = u ∨ acting u.phase = false := by
    intro j u hu
    rw [htasks] at hu
    exact ((get_set_iff ht).1 hu).imp_right fun ⟨hj, hu⟩ => hothers j u (Ne.symm hj) hu
  refine ⟨hlatest, ?_, ?_, ?_, ?_, hknown, hunique⟩
  · intro j k u v hu hv hu' hv'
    rcases hset j u hu with ⟨rfl, -⟩ | hcalm
    · rcases hset k v hv with ⟨rfl, -⟩ | hcalm
      · rfl
      · rw [hcalm] at hv'
        cases hv'
    · rw [hcalm] at hu'
      cases hu'
  · intro j u n hu hn
    rcases hset j u hu with ⟨rfl, rfl⟩ | hcalm
    · exact htried n hn
    · rw [acting_of_trial hn] at hcalm
      cases hcalm
  · intro j u s hu hs
    rcases hset j u hu with ⟨rfl, rfl⟩ | hcalm
    · exact hwriting s hs
    · rw [hs] at hcalm
      cases hcalm
  · intro s hs
    refine (hcurrent s hs).imp_right fun htrial => ⟨i, ⟨t.job, ph⟩, ?_, htrial⟩
    rw [htasks]
    exact (get_set_iff ht).2 (Or.inl ⟨rfl, rfl⟩)

/-- An attempt assigns its socket. -/
theorem Gens.assigned {k : ℕ} (h : Gens c gen) (ht : c.tasks[i]? = some t)
    (hphase : t.phase = .dialing k) (hshared : c'.shared = c.shared.assign)
    (htasks : c'.tasks = c.tasks.set i ⟨t.job, .configuring k c.shared.opened⟩) : Gens c' gen := by
  have hnone : gen c.shared.opened = none := by
    refine Option.eq_none_iff_forall_ne_some.2 fun g hg => ?_
    exact Nat.lt_irrefl _ (h.known _ g hg).1
  refine h.turn ht (by rw [hphase]; rfl) htasks ?_ ?_ ?_ ?_ ?_ h.unique <;> rw [hshared]
  · exact fun s hs => by cases hs; rfl
  · rintro n ⟨⟩
    exact ⟨rfl, hnone⟩
  · rintro s ⟨⟩
  · rintro s ⟨⟩
    exact Or.inr rfl
  · intro s g hg
    obtain ⟨hlt, hle⟩ := h.known s g hg
    exact ⟨Nat.lt_succ_of_lt hlt, hle⟩

/-- A socket is accepted. -/
theorem Gens.accepted {k n : ℕ} {since : Option ℕ} (h : Gens c gen) (ht : c.tasks[i]? = some t)
    (hphase : t.phase = .grace k n since) (hshared : c'.shared = c.shared.accept n)
    (htasks : c'.tasks = c.tasks.set i ⟨t.job, t.job.after_open c.shared.ws⟩) :
    Gens c' (Function.update gen n (some c'.shared.session_gen)) := by
  obtain ⟨hlast, -⟩ := h.tried i t n ht (by rw [hphase]; rfl)
  have hws : ∀ s, c.shared.ws = some s → s = n := by
    intro s hs
    have hs' := h.latest s hs
    omega
  have hgen : c'.shared.session_gen = c.shared.session_gen + 1 := by rw [hshared]; rfl
  have hold : ∀ s g, gen s = some g → g ≠ c.shared.session_gen + 1 := by
    intro s g hg
    have hle := (h.known s g hg).2
    omega
  refine h.turn ht (by rw [hphase]; rfl) htasks ?_ ?_ ?_ ?_ ?_ ?_
  · rw [hshared]
    exact h.latest
  · intro m hm
    cases hjob : t.job with
    | send p => cases hopen : c.shared.ws <;> rw [hjob, hopen] at hm <;> cases hm
    | _ =>
      rw [hjob] at hm
      cases hm
  · intro s hs
    have hopen : c.shared.ws = some s := by
      cases hjob : t.job with
      | send p =>
        cases hw : c.shared.ws with
        | none =>
          rw [hjob, hw] at hs
          cases hs
        | some w =>
          rw [hjob, hw] at hs
          cases hs
          rfl
      | _ =>
        rw [hjob] at hs
        cases hs
    rw [hws s hopen, Function.update_self]
  · intro s hs
    rw [hshared] at hs
    rw [hws s hs, Function.update_self]
    exact Or.inl rfl
  · intro s g hg
    rw [hgen]
    have hopened : c'.shared.opened = c.shared.opened := by rw [hshared]; rfl
    rw [hopened]
    by_cases hsn : s = n
    · subst hsn
      rw [Function.update_self, hgen] at hg
      obtain rfl := Option.some.inj hg
      exact ⟨by omega, Nat.le_refl _⟩
    · rw [Function.update_of_ne hsn] at hg
      obtain ⟨hlt, hle⟩ := h.known s g hg
      exact ⟨hlt, Nat.le_succ_of_le hle⟩
  · intro s u g hs hu
    rw [hgen] at hs hu
    by_cases hsn : s = n <;> by_cases hun : u = n
    · rw [hsn, hun]
    · subst hsn
      rw [Function.update_self] at hs
      rw [Function.update_of_ne hun] at hu
      exact absurd (Option.some.inj hs).symm (hold u g hu)
    · subst hun
      rw [Function.update_self] at hu
      rw [Function.update_of_ne hsn] at hs
      exact absurd (Option.some.inj hu).symm (hold s g hs)
    · rw [Function.update_of_ne hsn] at hs
      rw [Function.update_of_ne hun] at hu
      exact h.unique s u g hs hu

/-- A task is added, and `_ws`, the sockets and the generation stay. -/
theorem Gens.added {t : Task} (h : Gens c gen) (htasks : c'.tasks = c.tasks ++ [t])
    (hws : c'.shared.ws = c.shared.ws) (hopened : c'.shared.opened = c.shared.opened)
    (hgen : c'.shared.session_gen = c.shared.session_gen) (htrial : trial t.phase = none)
    (hwriting : ∀ s, t.phase ≠ .writing s)
    (hacts : acting t.phase = true → quiet c.tasks = true) : Gens c' gen := by
  have hcalm : acting t.phase = true → ∀ (j : ℕ) u, c.tasks[j]? = some u → acting u.phase = false := by
    intro hact j u hu
    simpa using List.all_eq_true.1 (hacts hact) u (List.mem_of_getElem? hu)
  have hget : ∀ (j : ℕ) u, c'.tasks[j]? = some u → c.tasks[j]? = some u ∨ j = c.tasks.length ∧ t = u := by
    intro j u hu
    rw [htasks] at hu
    exact get_concat_iff.1 hu
  refine ⟨?_, ?_, ?_, ?_, ?_, ?_, h.unique⟩
  · intro s hs
    rw [hopened]
    exact h.latest s (hws ▸ hs)
  · intro j k u v hu hv hu' hv'
    rcases hget j u hu with hu | ⟨rfl, rfl⟩ <;> rcases hget k v hv with hv | ⟨rfl, rfl⟩
    · exact h.alone j k u v hu hv hu' hv'
    · rw [hcalm hv' j u hu] at hu'
      cases hu'
    · rw [hcalm hu' k v hv] at hv'
      cases hv'
    · rfl
  · intro j u n hu hn
    rw [hopened]
    rcases hget j u hu with hu | ⟨rfl, rfl⟩
    · exact h.tried j u n hu hn
    · rw [htrial] at hn
      cases hn
  · intro j u s hu hs
    rw [hgen]
    rcases hget j u hu with hu | ⟨rfl, rfl⟩
    · exact h.writing j u s hu hs
    · exact absurd hs (hwriting s)
  · intro s hs
    rw [hgen]
    refine (h.current s (hws ▸ hs)).imp_right ?_
    rintro ⟨j, u, hu, hn⟩
    exact ⟨j, u, by rw [htasks]; exact get_concat_iff.2 (Or.inl hu), hn⟩
  · intro s g hg
    rw [hopened, hgen]
    exact h.known s g hg

/-- What happens to the readers and to what was received changes none of this. -/
theorem Gens.passed (h : Gens c gen) (htasks : c'.tasks = c.tasks)
    (hws : c'.shared.ws = c.shared.ws) (hopened : c'.shared.opened = c.shared.opened)
    (hgen : c'.shared.session_gen = c.shared.session_gen) : Gens c' gen := by
  refine ⟨?_, by rw [htasks]; exact h.alone, ?_, ?_, ?_, ?_, h.unique⟩
  · intro s hs
    rw [hopened]
    exact h.latest s (hws ▸ hs)
  · rw [htasks, hopened]
    exact h.tried
  · rw [htasks, hgen]
    exact h.writing
  · rw [htasks, hws, hgen]
    exact h.current
  · rw [hopened, hgen]
    exact h.known

theorem happened_sockets {c c' : Shared} {a : SlvClient.Label} (h : Happened c a c') :
    c'.ws = c.ws ∧ c'.opened = c.opened ∧ c'.session_gen = c.session_gen := by
  cases h with
  | @frame _ t f => cases f <;> exact ⟨rfl, rfl, rfl⟩
  | @reader_end _ _ normal => cases normal <;> exact ⟨rfl, rfl, rfl⟩
  | _ => exact ⟨rfl, rfl, rfl⟩

theorem gens_init (v2 : Bool) : Gens (Client.init v2) fun _ => none where
  latest := by
    rintro s ⟨⟩
  alone := by simp [Client.init]
  tried := by simp [Client.init]
  writing := by simp [Client.init]
  current := by
    rintro s ⟨⟩
  known := by simp
  unique := by simp

/-- What a step of the client asks for: `connect()`, which takes no lock, and what takes the lock, begin
    while no call opens or writes; no opening is cut off while its socket is in `_ws`. -/
def unhurried (c : Client) : SlvClient.Label → Bool
  | .call .connect => c.shared.ws.isSome || quiet c.tasks
  | .task i m => (c.tasks[i]?).all fun t =>
    (!takes_lock t.job m t.phase || quiet c.tasks) &&
      ((m ≠ .cancel && m ≠ .fail) || trial t.phase = none || c.shared.ws ≠ trial t.phase)
  | _ => true

/-- A move of a task keeps the generations. -/
theorem Gens.moved (h : Gens c gen) (hstep : c.step (.task i m) = some c')
    (hunhurried : unhurried c (.task i m) = true) :
    ∃ t ph, c.tasks[i]? = some t ∧ Moved c.shared t.job m t.phase ph c'.shared ∧
      c'.tasks = c.tasks.set i ⟨t.job, ph⟩ ∧ Gens c' (numbered gen c'.shared m t.phase) := by
  obtain ⟨t, ph, ht, hmoved, htasks, -, -⟩ := client_move_cases hstep
  refine ⟨t, ph, ht, hmoved, htasks, ?_⟩
  simp only [unhurried, ht, Option.all_some, Bool.and_eq_true, Bool.or_eq_true, Bool.not_eq_true',
    decide_eq_true_eq] at hunhurried
  obtain ⟨hquiet, hcut⟩ := hunhurried
  rcases moved_kind hmoved with hp | ⟨k, rfl, hphase, rfl, hshared⟩ | ⟨k, n, since, rfl, hphase, rfl, hshared⟩
  · rw [hp.numbers]
    refine h.plain ht hp (h.latest.step (moved_ws hmoved)) htasks (fun htakes => ?_) fun hm n hn hws => ?_
    · rw [htakes] at hquiet
      simpa using hquiet
    · rw [hn, hws] at hcut
      rcases hm with rfl | rfl <;> simp at hcut
  · exact h.assigned ht hphase hshared htasks
  · rw [hphase]
    exact h.accepted ht hphase hshared htasks

/-- So does every other step of the client. -/
theorem Gens.stepped {a : SlvClient.Label} (h : Gens c gen) (hstep : c.step a = some c')
    (ha : ∀ i m, a ≠ .task i m) (hunhurried : unhurried c a = true) : Gens c' gen := by
  cases step_cases hstep with
  | @call job hjob =>
    cases job with
    | connect =>
      simp only [unhurried, Bool.or_eq_true] at hunhurried
      refine h.added (t := ⟨.connect, (Job.connect.start c.shared).1⟩) rfl ?_ ?_ ?_ ?_ ?_ ?_ <;>
        simp only [Job.start] <;> split <;> simp_all [trial, acting, Phase.busy, Shared.begin_attempt]
    | reconnect =>
      refine h.added (t := ⟨.reconnect, (Job.reconnect.start c.shared).1⟩) rfl rfl rfl rfl ?_ ?_ ?_ <;>
        simp only [Job.start] <;> split <;> simp [trial, acting, Phase.busy]
    | send p => exact h.added rfl rfl rfl rfl rfl (by simp [Job.start]) (by simp [Job.start, acting, Phase.busy])
    | close =>
      refine h.added (t := ⟨.close, (Job.close.start c.shared).1⟩) rfl rfl rfl rfl ?_ ?_ ?_
      · cases hr : c.shared.reader_task with
        | none => simp [Job.start, hr, (trial_close_ws _).1]
        | some r =>
          simp only [Job.start, hr]
          split
          · rfl
          · exact (trial_close_ws _).1
      · intro s
        cases hr : c.shared.reader_task with
        | none => simp [Job.start, hr, close_ws_writes]
        | some r =>
          simp only [Job.start, hr]
          split
          · simp
          · exact close_ws_writes _ s
      · intro hacts
        cases hr : c.shared.reader_task with
        | none => simp [Job.start, hr, (trial_close_ws _).2] at hacts
        | some r =>
          simp only [Job.start, hr] at hacts
          split at hacts
          · cases hacts
          · rw [(trial_close_ws _).2] at hacts
            cases hacts
  | task => exact absurd rfl (ha _ _)
  | happened hh =>
    obtain ⟨hws, hopened, hgen⟩ := happened_sockets hh
    exact h.passed rfl hws hopened hgen
  | take => exact h.passed rfl rfl rfl rfl
  | take_call => exact h.added rfl rfl rfl rfl rfl (by simp) (by simp [acting, Phase.busy])

end

end LocalVoice.ServerLoop
