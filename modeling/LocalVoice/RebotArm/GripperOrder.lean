import Mathlib.Tactic.Linarith
import LocalVoice.RebotArm.Gripper

/-! Which order of the sections keeps the gripper's commands apart. In every run of `orderly` steps a
    tick replaces only the state it read, an opening moves on to its target and stays there, a hold
    stays under the cap of the last grasp that closed, and a grasp that returns `True` was held. -/

namespace LocalVoice.RebotArm.Gripper

/-! ### Orderly steps -/

/-- A grasp that has set the force, and has not closed. -/
def Call.forced : Call → Bool
  | .grasping g _ => g.forces
  | _ => false

/-- A grasp that has closed, and waits for `HOLDING`. -/
def Call.waits : Call → Bool
  | .waiting .. => true
  | _ => false

/-- A grasp that has not returned. -/
def Call.in_flight : Call → Bool
  | .forcing .. | .grasping .. | .waiting .. | .abandoning .. => true
  | .ramping .. | .watching .. | .creeping .. | .bumping .. => true
  | _ => false

/-- The next section of the tick comes in time: it sets the state that it read, no command having set it
    since, it sends the angle of the opening that it moved on, and a force that it read from the last
    grasp that closed; and it reads no force of a grasp that has yet to close. -/
def State.tick_in_time (s : State) : Bool :=
  match s.tick with
  | .sampled _ => s.fields.state ≠ .holding || s.calls.all fun call => !call.forced
  | .commanding _ _ _ _ _ begun _ => begun = s.trace.begun
  | .confirming x seen => seen = s.trace.epoch || s.fields.contact_elapsed + x.dt < 2 / 100
  | .gripping _ cap => cap = s.trace.cap
  | .setting _ _ _ seen => seen = s.trace.epoch
  | _ => true

/-- A tick's section comes in time, a grasp is called when no other is in flight, and `close_gripper`
    closes when no grasp waits. -/
def orderly (s : State) : Label → Prop
  | .go => s.tick_in_time = true
  | .call (.grasp _) => s.calls.all (fun call => !call.in_flight) = true
  | .run i _ => (s.calls[i]?.all fun call =>
      match call with
      | .closing => s.calls.all fun other => !other.waits
      | _ => true) = true
  | _ => True

instance (s : State) : ∀ a, Decidable (orderly s a)
  | .go => inferInstanceAs (Decidable (_ = true))
  | .call (.grasp _) => inferInstanceAs (Decidable (_ = true))
  | .run _ _ => inferInstanceAs (Decidable (_ = true))
  | .tick _ _ => isTrue trivial
  | .call (.open_gripper _) => isTrue trivial
  | .call .close_gripper => isTrue trivial
  | .call .release_gripper => isTrue trivial

/-! ### What is kept -/

/-- The transitions of the state machine. -/
inductive Follows : GS → GS → Prop where
  | opened : Follows .opening .idle
  | empty : Follows .closing .idle
  | touched : Follows .closing .contact
  | gripped : Follows .contact .holding
  | home : Follows .homing .idle

/-- The commands of a run are kept apart. -/
structure State.Kept (s : State) : Prop where
  moves : ∀ m ∈ s.trace.moves, m.read = m.epoch ∧ m.found = m.saw ∧ Follows m.saw m.next
  falls : s.trace.commanded.Pairwise fun x y => x.2 ≤ y.2
  aims : ∀ x ∈ s.trace.commanded,
    s.trace.aim ≤ x.2 ∧ x.2 ≤ max s.trace.aim (s.trace.start - open_rate_slow * x.1)
  holds : ∀ x ∈ s.trace.holds, ∀ n cap, x.1 = some (n, cap) → x.2 ≤ cap
  grasped : ∀ own, .grasped true own ∈ s.calls → own ∈ s.trace.entered

/-! ### The effect of a command -/

/-- What a step of a command does to the state and the opening. -/
inductive Effect (c : Fields) (r : Trace) : Fields → Trace → Prop where
  | quiet {c'} (hstate : c'.state = c.state) (hq : c'.open_q_des = c.open_q_des)
      (htarget : c'.open_target = c.open_target) : Effect c r c' r
  | opens {aim : ℚ} (haim : aim = c.open_target ∨ open_soft_limit ≤ aim ∧ aim ≤ 0) :
      Effect c r (c.open_to aim) (r.opens aim c.pos)
  | sets {c'} (cap : Option (ℕ × ℚ)) (hstate : c'.state ≠ .holding)
      (hq : c'.open_q_des = c.open_q_des) (htarget : c'.open_target = c.open_target) :
      Effect c r c' { r with epoch := r.epoch + 1, cap := cap }

theorem clip_le (x : ℚ) {lo hi : ℚ} : clip x lo hi ≤ hi := min_le_right _ _

theorem le_clip (x : ℚ) {lo hi : ℚ} (h : lo ≤ hi) : lo ≤ clip x lo hi :=
  le_min (le_max_right _ _) h

theorem clip_mono {x y : ℚ} (lo hi : ℚ) (h : x ≤ y) : clip x lo hi ≤ clip y lo hi :=
  min_le_min_right _ (max_le_max_right _ h)

theorem clip_self {x lo hi : ℚ} (hlo : lo ≤ x) (hhi : x ≤ hi) : clip x lo hi = x := by
  rw [clip, max_eq_left hlo, min_eq_left hhi]

/-- The target of `open_gripper` is within the limits. -/
theorem target_range (distance_m : ℚ) :
    open_soft_limit ≤ target distance_m ∧ target distance_m ≤ 0 := by
  refine ⟨le_max_right _ _, max_le ?_ (by norm_num [open_soft_limit])⟩
  have hd : 0 ≤ clip distance_m 0 max_dist_m := le_clip _ (by norm_num [max_dist_m])
  have hangle : angle_open ≤ 0 := by norm_num [angle_open]
  exact mul_nonpos_of_nonneg_of_nonpos (div_nonneg hd (by norm_num [max_dist_m])) hangle

variable {c c' : Fields} {r r' : Trace} {late : Bool} {call call' : Call}

theorem Call.effect (h : call.step c r late = some (c', r', call')) : Effect c r c' r' := by
  cases call with
  | opening distance_m => cases h; exact .opens (.inr (target_range distance_m))
  | releasing => cases h; exact .opens (.inl rfl)
  | parking => cases h; exact .sets r.cap (by simp [Fields.park]) rfl rfl
  | closing => cases h; exact .sets r.cap (by simp [Fields.close]) rfl rfl
  | grasping g cap => cases h; exact .sets (some (r.epoch + 1, cap)) (by simp [Fields.close]) rfl rfl
  | abandoning own => cases h; exact .sets r.cap (by simp) rfl rfl
  | sending_home => cases h; exact .sets r.cap (by simp) rfl rfl
  | open_ended ok => cases h
  | close_ended => cases h
  | release_ended => cases h
  | grasped ok own => cases h
  | _ => cases h; exact .quiet rfl rfl rfl

/-! ### The state -/

/-- The state that a tick goes on to act in, and when it read it. -/
def Tick.seen : Tick → Option (GS × ℕ)
  | .opening _ n | .commanding _ n .. | .stalling _ n => some (.opening, n)
  | .closing _ n => some (.closing, n)
  | .touching _ n | .confirming _ n => some (.contact, n)
  | .homing _ n => some (.homing, n)
  | .setting saw _ _ n => some (saw, n)
  | _ => none

structure Moved (c : Fields) (r : Trace) (t : Tick) : Prop where
  seen : ∀ g n, t.seen = some (g, n) → n ≤ r.epoch ∧ (n = r.epoch → c.state = g)
  setting : ∀ saw next pos n, t = .setting saw next pos n → Follows saw next
  moves : ∀ m ∈ r.moves, m.read = m.epoch ∧ m.found = m.saw ∧ Follows m.saw m.next
  entered : c.state = .holding → r.epoch ∈ r.entered

theorem Moved.effect {t : Tick} (hm : Moved c r t) (h : Effect c r c' r') : Moved c' r' t := by
  cases h with
  | quiet hstate =>
    refine ⟨fun g n hg => ?_, hm.setting, hm.moves, fun hold => hm.entered (hstate ▸ hold)⟩
    rw [hstate]
    exact hm.seen g n hg
  | opens =>
    refine ⟨fun g n hg => ?_, hm.setting, hm.moves, fun hold => by cases hold⟩
    have hle := (hm.seen g n hg).1
    exact ⟨Nat.le_succ_of_le hle, fun heq => absurd hle (heq ▸ Nat.not_succ_le_self _)⟩
  | sets cap hstate =>
    refine ⟨fun g n hg => ?_, hm.setting, hm.moves, fun hold => absurd hold hstate⟩
    have hle := (hm.seen g n hg).1
    exact ⟨Nat.le_succ_of_le hle, fun heq => absurd hle (heq ▸ Nat.not_succ_le_self _)⟩

/-- A step of the tick that sets no state. -/
theorem Moved.frame {t t' : Tick} (hm : Moved c r t) (hstate : c'.state = c.state)
    (hepoch : r'.epoch = r.epoch) (hmoves : r'.moves = r.moves) (hentered : r'.entered = r.entered)
    (hseen : ∀ g n, t'.seen = some (g, n) → t.seen = some (g, n))
    (hset : ∀ saw next pos n, t' = .setting saw next pos n → Follows saw next) : Moved c' r' t' := by
  refine ⟨fun g n hg => ?_, hset, ?_, ?_⟩
  · rw [hstate, hepoch]
    exact hm.seen g n (hseen g n hg)
  · rw [hmoves]
    exact hm.moves
  · rw [hstate, hepoch, hentered]
    exact hm.entered

/-- A tick sets the state in time. -/
theorem Moved.move {t : Tick} {saw next : GS} (hm : Moved c r t) (hseen : t.seen = some (saw, r.epoch))
    (hf : Follows saw next) (hstate : c'.state = next) :
    Moved c' (r.moved saw c.state next r.epoch) .idle := by
  have hfound : c.state = saw := (hm.seen saw _ hseen).2 rfl
  refine ⟨fun g n hg => (by cases hg), fun _ _ _ _ h => (by cases h), fun m hmem => ?_, fun hold => ?_⟩
  · rcases List.mem_cons.1 hmem with rfl | hmem
    · exact ⟨rfl, hfound, hf⟩
    · exact hm.moves m hmem
  · have hnext : next = .holding := hstate ▸ hold
    simp [Trace.moved, hnext]

theorem Fields.move_state (c : Fields) (saw next : GS) (pos : ℚ) : (c.move saw next pos).state = next := by
  unfold Fields.move
  split <;> rfl

theorem Tick.read_seen {x : Sample} {g : GS} {n : ℕ} (h : (Tick.read c r x).seen = some (g, n)) :
    n = r.epoch ∧ c.state = g := by
  unfold Tick.read at h
  split at h
  all_goals first
    | cases h; exact ⟨rfl, by assumption⟩
    | cases h

theorem Tick.read_ne_setting {x : Sample} {saw next : GS} {pos : ℚ} {n : ℕ} :
    Tick.read c r x ≠ .setting saw next pos n := by
  unfold Tick.read
  split <;> intro h <;> cases h

/-- A closing tick goes on to set `IDLE` or `CONTACT`, or ends. -/
theorem Tick.closed_cases (x : Sample) (n : ℕ) :
    Tick.closed c x n = .idle ∨
      ∃ next, Follows .closing next ∧ Tick.closed c x n = .setting .closing next x.pos n := by
  unfold Tick.closed
  split
  · split
    · exact .inr ⟨_, .empty, rfl⟩
    · split
      · exact .inr ⟨_, .touched, rfl⟩
      · exact .inl rfl
  · exact .inl rfl

theorem Moved.go {calls : List Call} {t t' : Tick} (hm : Moved c r t)
    (htime : State.tick_in_time ⟨c, r, t, calls⟩ = true) (h : t.step c r = some (c', r', t')) :
    Moved c' r' t' := by
  cases t with
  | idle => cases h
  | sampled x =>
    cases h
    refine ⟨fun g n hg => ?_, fun _ _ _ _ h => absurd h Tick.read_ne_setting, hm.moves, hm.entered⟩
    obtain ⟨rfl, hstate⟩ := Tick.read_seen hg
    exact ⟨Nat.le_refl _, fun _ => hstate⟩
  | opening x n => cases h; exact hm.frame rfl rfl rfl rfl (fun _ _ h => h) fun _ _ _ _ h => by cases h
  | commanding x n target q ramp_done begun spent =>
    cases h
    split
    · refine hm.frame rfl rfl rfl rfl (fun _ _ h => h) fun _ _ _ _ h => ?_
      cases h
      exact .opened
    · split
      · exact hm.frame rfl rfl rfl rfl (fun _ _ h => h) fun _ _ _ _ h => by cases h
      · exact hm.frame rfl rfl rfl rfl (fun _ _ h => by cases h) fun _ _ _ _ h => by cases h
  | stalling x n =>
    cases h
    split
    · refine hm.frame rfl rfl rfl rfl (fun _ _ h => h) fun _ _ _ _ h => ?_
      cases h
      exact .opened
    · exact hm.frame rfl rfl rfl rfl (fun _ _ h => by cases h) fun _ _ _ _ h => by cases h
  | closing x n =>
    cases h
    rcases Tick.closed_cases (c := { c with close_elapsed := c.close_elapsed + x.dt }) x n with
      hidle | ⟨next, hf, hset⟩
    · rw [hidle]
      exact hm.frame rfl rfl rfl rfl (fun _ _ h => by cases h) fun _ _ _ _ h => by cases h
    · rw [hset]
      refine hm.frame rfl rfl rfl rfl (fun _ _ h => h) fun _ _ _ _ h => ?_
      cases h
      exact hf
  | touching x n => cases h; exact hm.frame rfl rfl rfl rfl (fun _ _ h => h) fun _ _ _ _ h => by cases h
  | confirming x n =>
    simp only [Tick.step] at h
    split at h
    · next hlong =>
      obtain rfl : n = r.epoch := by simpa [State.tick_in_time, not_lt.2 hlong] using htime
      cases h
      exact hm.move rfl .gripped rfl
    · cases h
      exact hm.frame rfl rfl rfl rfl (fun _ _ h => by cases h) fun _ _ _ _ h => by cases h
  | gripping force cap =>
    cases h
    exact hm.frame rfl rfl rfl rfl (fun _ _ h => by cases h) fun _ _ _ _ h => by cases h
  | homing x n =>
    cases h
    split
    · refine hm.frame rfl rfl rfl rfl (fun _ _ h => h) fun _ _ _ _ h => ?_
      cases h
      exact .home
    · exact hm.frame rfl rfl rfl rfl (fun _ _ h => by cases h) fun _ _ _ _ h => by cases h
  | setting saw next pos n =>
    cases h
    obtain rfl : n = r.epoch := by simpa [State.tick_in_time] using htime
    exact hm.move rfl (hm.setting _ _ _ _ rfl) (c.move_state saw next pos)

/-! ### The opening -/

/-- A tick that may still move the opening on. -/
def Tick.ahead : Tick → Option Sample
  | .sampled x | .opening x _ => some x
  | _ => none

structure Ramped (c : Fields) (r : Trace) (t : Tick) : Prop where
  target : c.open_target = r.aim
  low : open_soft_limit ≤ r.aim
  high : r.aim ≤ 0
  dt : ∀ x, t.ahead = some x → 0 ≤ x.dt
  begun : r.begun ≤ r.epoch
  below : c.open_q_des ≤ max r.aim (r.start - open_rate_slow * r.spent)
  beyond : r.commanded ≠ [] → r.aim ≤ c.open_q_des
  sent : ∀ x n target q ramp_done begun spent,
    t = .commanding x n target q ramp_done begun spent → begun ≤ r.begun ∧
      (begun = r.begun → q = c.open_q_des ∧ r.aim ≤ q ∧ spent = r.spent)
  each : ∀ x ∈ r.commanded, r.aim ≤ x.2 ∧ Fields.safe_mit c.open_q_des ≤ x.2 ∧
    x.2 ≤ max r.aim (r.start - open_rate_slow * x.1)
  falls : r.commanded.Pairwise fun x y => x.2 ≤ y.2

theorem Ramped.effect {t : Tick} (hr : Ramped c r t) (h : Effect c r c' r') : Ramped c' r' t := by
  cases h with
  | quiet _ hq htarget =>
    obtain ⟨htar, hlow, hhigh, hdt, hbegun, hbelow, hover, hsent, heach, hfalls⟩ := hr
    rw [← hq] at hbelow hover hsent heach
    exact ⟨htarget.trans htar, hlow, hhigh, hdt, hbegun, hbelow, hover, hsent, heach, hfalls⟩
  | @opens aim haim =>
    have hrange : open_soft_limit ≤ aim ∧ aim ≤ 0 := by
      rcases haim with rfl | hrange
      · exact hr.target ▸ ⟨hr.low, hr.high⟩
      · exact hrange
    refine ⟨rfl, hrange.1, hrange.2, hr.dt, Nat.le_refl _, ?_, fun h => absurd rfl h, ?_, ?_, .nil⟩
    · simp [Trace.opens, Fields.open_to]
    · intro x n target q ramp_done begun spent ht
      have hle : begun ≤ r.epoch := Nat.le_trans (hr.sent _ _ _ _ _ _ _ ht).1 hr.begun
      exact ⟨Nat.le_succ_of_le hle, fun heq => absurd hle (heq ▸ Nat.not_succ_le_self _)⟩
    · intro x hx
      cases hx
  | sets cap _ hq htarget =>
    obtain ⟨htar, hlow, hhigh, hdt, hbegun, hbelow, hover, hsent, heach, hfalls⟩ := hr
    rw [← hq] at hbelow hover hsent heach
    exact ⟨htarget.trans htar, hlow, hhigh, hdt, Nat.le_succ_of_le hbegun, hbelow, hover, hsent, heach,
      hfalls⟩

theorem Fields.slow_le_rate (c : Fields) : open_rate_slow ≤ c.rate := by
  unfold Fields.rate
  split
  · norm_num [open_rate_slow, open_rate]
  · exact le_refl _

/-- The section that moves the opening on lowers an angle that is over the target, and leaves the
    target no lower than the slower rate leads. -/
theorem Ramped.ramp {x : Sample} {n : ℕ} (hr : Ramped c r (.opening x n)) :
    Ramped (c.ramp x.dt) { r with spent := r.spent + x.dt }
      (.commanding x n (c.ramp x.dt).open_target (c.ramp x.dt).open_q_des (c.ramp x.dt).ramp_done r.begun
        (r.spent + x.dt)) := by
  have hdt : 0 ≤ x.dt := hr.dt x rfl
  have hrate : open_rate_slow * x.dt ≤ c.rate * x.dt := mul_le_mul_of_nonneg_right c.slow_le_rate hdt
  have hslow : 0 ≤ open_rate_slow * x.dt := mul_nonneg (by norm_num [open_rate_slow]) hdt
  have hover : r.aim ≤ (c.ramp x.dt).open_q_des := hr.target ▸ le_max_right _ _
  refine ⟨hr.target, hr.low, hr.high, fun _ h => (by cases h), hr.begun, ?_, fun _ => hover, ?_, ?_, hr.falls⟩
  · -- either the ramp has come to the target, or it went at least as far as the slower rate
    refine max_le ?_ (hr.target ▸ le_max_left _ _)
    rcases le_max_iff.1 hr.below with hle | hle
    · exact le_max_of_le_left (by linarith)
    · refine le_max_of_le_right ?_
      show c.open_q_des - c.rate * x.dt ≤ r.start - open_rate_slow * (r.spent + x.dt)
      rw [mul_add]
      linarith
  · intro _ _ _ _ _ _ _ h
    cases h
    exact ⟨Nat.le_refl _, fun _ => ⟨rfl, hover, rfl⟩⟩
  · intro y hy
    obtain ⟨haim, hq, hbelow⟩ := hr.each y hy
    refine ⟨haim, le_trans (clip_mono _ _ ?_) hq, hbelow⟩
    have hle : r.aim ≤ c.open_q_des := hr.beyond (List.ne_nil_of_mem hy)
    exact max_le (by linarith) (hr.target ▸ hle)

/-- The angle that a tick sends in time is at least the target, and no more than those before it. -/
theorem Ramped.send {x : Sample} {n : ℕ} {target q spent : ℚ} {ramp_done : Bool} {t' : Tick}
    (hr : Ramped c r (.commanding x n target q ramp_done r.begun spent)) (hahead : t'.ahead = none)
    (hother : ∀ x n target q ramp_done begun spent,
      t' ≠ .commanding x n target q ramp_done begun spent) :
    Ramped c { r with commanded := (spent, Fields.safe_mit q) :: r.commanded } t' := by
  obtain ⟨rfl, haim, rfl⟩ := (hr.sent _ _ _ _ _ _ _ rfl).2 rfl
  have hlow : r.aim ≤ Fields.safe_mit c.open_q_des :=
    le_trans (le_of_eq (clip_self hr.low hr.high).symm) (clip_mono _ _ haim)
  have hbelow : Fields.safe_mit c.open_q_des ≤ max r.aim (r.start - open_rate_slow * r.spent) :=
    le_trans (min_le_left _ _)
      (max_le hr.below (le_trans hr.low (le_max_left _ _)))
  refine ⟨hr.target, hr.low, hr.high, fun x hx => ?_, hr.begun, hr.below, fun _ => haim, ?_, ?_, ?_⟩
  · rw [hahead] at hx
    cases hx
  · intro x n target q ramp_done begun spent h
    exact absurd h (hother _ _ _ _ _ _ _)
  · intro y hy
    rcases List.mem_cons.1 hy with rfl | hy
    · exact ⟨hlow, le_refl _, hbelow⟩
    · exact hr.each y hy
  · exact List.pairwise_cons.2 ⟨fun y hy => (hr.each y hy).2.1, hr.falls⟩

/-- A step of the tick that leaves the opening alone. -/
theorem Ramped.frame {t t' : Tick} (hr : Ramped c r t) (moves : List Move)
    (holds : List (Option (ℕ × ℚ) × ℚ)) (entered : List ℕ) (hq : c'.open_q_des = c.open_q_des)
    (htarget : c'.open_target = c.open_target) (hahead : ∀ x, t'.ahead = some x → t.ahead = some x)
    (hother : ∀ x n target q ramp_done begun spent,
      t' ≠ .commanding x n target q ramp_done begun spent) :
    Ramped c' { r with moves := moves, holds := holds, entered := entered } t' := by
  obtain ⟨htar, hlow, hhigh, hdt, hle, hbelow, hover, hsent, heach, hfalls⟩ := hr
  rw [← hq] at hbelow hover heach
  exact ⟨htarget.trans htar, hlow, hhigh, fun x hx => hdt x (hahead x hx), hle, hbelow, hover,
    fun _ _ _ _ _ _ _ h => absurd h (hother _ _ _ _ _ _ _), heach, hfalls⟩

/-- Where a tick goes on without a ramp to do or an angle to send. -/
def Tick.past (t : Tick) : Prop :=
  t.ahead = none ∧ ∀ x n target q ramp_done begun spent,
    t ≠ .commanding x n target q ramp_done begun spent

theorem Tick.past_idle : Tick.idle.past := ⟨rfl, fun _ _ _ _ _ _ _ h => by cases h⟩

theorem Tick.past_setting (saw next : GS) (pos : ℚ) (n : ℕ) : (Tick.setting saw next pos n).past :=
  ⟨rfl, fun _ _ _ _ _ _ _ h => by cases h⟩

theorem Tick.past_stalling (x : Sample) (n : ℕ) : (Tick.stalling x n).past :=
  ⟨rfl, fun _ _ _ _ _ _ _ h => by cases h⟩

theorem Tick.past_closed (x : Sample) (n : ℕ) : (Tick.closed c x n).past := by
  rcases Tick.closed_cases (c := c) x n with h | ⟨next, _, h⟩ <;> rw [h]
  · exact past_idle
  · exact past_setting ..

theorem Fields.move_opening (c : Fields) (saw next : GS) (pos : ℚ) :
    (c.move saw next pos).open_q_des = c.open_q_des ∧ (c.move saw next pos).open_target = c.open_target := by
  unfold Fields.move
  split <;> exact ⟨rfl, rfl⟩

theorem Fields.move_force (c : Fields) (saw next : GS) (pos : ℚ) :
    (c.move saw next pos).target_force = c.target_force := by
  unfold Fields.move
  split <;> rfl

theorem Tick.read_ahead {x y : Sample} (h : (Tick.read c r x).ahead = some y) : x = y := by
  unfold Tick.read at h
  split at h
  all_goals first
    | cases h; rfl
    | cases h

theorem Tick.read_ne_commanding {x y : Sample} {n begun : ℕ} {target q spent : ℚ} {ramp_done : Bool} :
    Tick.read c r x ≠ .commanding y n target q ramp_done begun spent := by
  unfold Tick.read
  split <;> intro h <;> cases h

theorem Ramped.go {calls : List Call} {t t' : Tick} (hr : Ramped c r t)
    (htime : State.tick_in_time ⟨c, r, t, calls⟩ = true) (h : t.step c r = some (c', r', t')) :
    Ramped c' r' t' := by
  -- what a tick that is past the ramp goes on to is past it too
  have hpast : ∀ {c'' t''} (moves : List Move) (holds : List (Option (ℕ × ℚ) × ℚ)) (entered : List ℕ),
      c''.open_q_des = c.open_q_des → c''.open_target = c.open_target → t''.past →
        Ramped c'' { r with moves := moves, holds := holds, entered := entered } t'' :=
    fun moves holds entered hq htarget hp =>
      hr.frame moves holds entered hq htarget (fun x hx => by rw [hp.1] at hx; cases hx) hp.2
  cases t with
  | idle => cases h
  | sampled x =>
    cases h
    refine hr.frame r.moves r.holds r.entered rfl rfl (fun y hy => ?_) fun _ _ _ _ _ _ _ =>
      Tick.read_ne_commanding
    exact congrArg some (Tick.read_ahead hy)
  | opening x n => cases h; exact hr.ramp
  | commanding x n target q ramp_done begun spent =>
    obtain rfl : begun = r.begun := by simpa [State.tick_in_time] using htime
    cases h
    split
    · exact hr.send (Tick.past_setting ..).1 (Tick.past_setting ..).2
    · split
      · exact hr.send (Tick.past_stalling ..).1 (Tick.past_stalling ..).2
      · exact hr.send Tick.past_idle.1 Tick.past_idle.2
  | stalling x n =>
    cases h
    split
    · exact hpast r.moves r.holds r.entered rfl rfl (Tick.past_setting ..)
    · exact hpast r.moves r.holds r.entered rfl rfl Tick.past_idle
  | closing x n =>
    cases h
    exact hpast r.moves r.holds r.entered rfl rfl (Tick.past_closed ..)
  | touching x n =>
    cases h
    exact hpast r.moves r.holds r.entered rfl rfl ⟨rfl, fun _ _ _ _ _ _ _ h => by cases h⟩
  | confirming x n =>
    simp only [Tick.step] at h
    split at h
    · cases h
      exact hpast _ r.holds _ (Fields.move_opening ..).1 (Fields.move_opening ..).2 Tick.past_idle
    · cases h
      exact hpast r.moves r.holds r.entered rfl rfl Tick.past_idle
  | gripping force cap =>
    cases h
    exact hpast r.moves _ r.entered rfl rfl Tick.past_idle
  | homing x n =>
    cases h
    split
    · exact hpast r.moves r.holds r.entered rfl rfl (Tick.past_setting ..)
    · exact hpast r.moves r.holds r.entered rfl rfl Tick.past_idle
  | setting saw next pos n =>
    cases h
    exact hpast _ r.holds _ (Fields.move_opening ..).1 (Fields.move_opening ..).2 Tick.past_idle

/-! ### The grasps -/

/-- Nothing but the call that made `own` can have set `HOLDING`. -/
def Calm (own : ℕ) (c : Fields) (r : Trace) : Prop :=
  r.epoch = own ∨ c.state = .idle ∨ c.state = .opening ∨ c.state = .homing

/-- What a grasp relies on at each of its steps. -/
def Call.Fits (c : Fields) (r : Trace) : Call → Prop
  | .forcing g cap => g.forces = true ∧ cap ≤ tau_max
  | .grasping _ cap => c.target_force ≤ cap ∧ cap ≤ tau_max
  | .waiting _ cap own => r.cap = some (own, cap) ∧ cap ≤ tau_max ∧ Calm own c r
  | .ramping _ cap tf own | .watching _ cap tf _ own => r.cap = some (own, cap) ∧ cap ≤ tau_max ∧
      tf ≤ cap ∧ own ∈ r.entered
  | .creeping _ cap tf _ own | .bumping _ cap tf own => r.cap = some (own, cap) ∧ cap ≤ tau_max ∧
      tf ≤ cap ∧ own ∈ r.entered
  | .grasped true own => own ∈ r.entered
  | _ => True

structure Owned (c : Fields) (r : Trace) (t : Tick) (calls : List Call) : Prop where
  top : c.target_force ≤ tau_max
  holds : ∀ x ∈ r.holds, ∀ n cap, x.1 = some (n, cap) → x.2 ≤ cap
  gripping : ∀ force n cap, t = .gripping force (some (n, cap)) → force ≤ cap
  free : (∀ call ∈ calls, call.forced = false) → ∀ n cap, r.cap = some (n, cap) → c.target_force ≤ cap
  fits : ∀ (i : ℕ) call, calls[i]? = some call → call.Fits c r
  one : ∀ (i j : ℕ) a b, calls[i]? = some a → calls[j]? = some b → a.in_flight = true →
    b.in_flight = true → i = j

theorem Grasp.initial_le (g : Grasp) (cap : ℚ) : g.initial cap ≤ cap := by
  unfold Grasp.initial
  split
  · exact clip_le _
  · exact le_refl _

/-- What a call relies on, when others leave the force and the cap alone. -/
theorem Call.Fits.frame (hf : call.Fits c r) (hforce : c'.target_force = c.target_force)
    (hcap : r'.cap = r.cap) (hentered : ∀ n ∈ r.entered, n ∈ r'.entered)
    (hcalm : call.waits = true → ∀ own, Calm own c r → Calm own c' r') : call.Fits c' r' := by
  cases call with
  | forcing g cap => exact hf
  | grasping g cap => exact ⟨(le_of_eq hforce).trans hf.1, hf.2⟩
  | waiting g cap own => exact ⟨hcap.trans hf.1, hf.2.1, hcalm rfl own hf.2.2⟩
  | ramping g cap tf own => exact ⟨hcap.trans hf.1, hf.2.1, hf.2.2.1, hentered _ hf.2.2.2⟩
  | watching g cap tf p0 own => exact ⟨hcap.trans hf.1, hf.2.1, hf.2.2.1, hentered _ hf.2.2.2⟩
  | creeping g cap tf p0 own => exact ⟨hcap.trans hf.1, hf.2.1, hf.2.2.1, hentered _ hf.2.2.2⟩
  | bumping g cap tf own => exact ⟨hcap.trans hf.1, hf.2.1, hf.2.2.1, hentered _ hf.2.2.2⟩
  | grasped ok own =>
    cases ok with
    | false => trivial
    | true => exact hentered _ hf
  | _ => trivial

/-- A call that is no grasp in flight relies on nothing that a command changes. -/
theorem Call.Fits.apart (hf : call.Fits c r) (hno : call.in_flight = false)
    (hentered : r'.entered = r.entered) : call.Fits c' r' := by
  cases call with
  | grasped ok own =>
    cases ok with
    | false => trivial
    | true => exact (congrArg (own ∈ ·) hentered).mpr hf
  | forcing | grasping | waiting | abandoning | ramping | watching | creeping | bumping => cases hno
  | _ => trivial

theorem Effect.entered (h : Effect c r c' r') : r'.entered = r.entered := by
  cases h <;> rfl

theorem Effect.holds (h : Effect c r c' r') : r'.holds = r.holds := by
  cases h <;> rfl

theorem Tick.read_gripping {x : Sample} {force : ℚ} {cap : Option (ℕ × ℚ)}
    (h : Tick.read c r x = .gripping force cap) :
    c.state = .holding ∧ c.target_force = force ∧ r.cap = cap := by
  unfold Tick.read at h
  split at h
  all_goals first
    | cases h; exact ⟨by assumption, rfl, rfl⟩
    | cases h

/-- No step of a command begins a grasp. -/
theorem Call.in_flight_of_step (h : call.step c r late = some (c', r', call'))
    (hfly : call'.in_flight = true) : call.in_flight = true := by
  cases call with
  | opening | opened | parking | closing | releasing | sending_home => cases h; cases hfly
  | settling =>
    cases h
    split at hfly
    · cases hfly
    · split at hfly <;> cases hfly
  | emptying | homing =>
    cases h
    split at hfly <;> cases hfly
  | open_ended | close_ended | release_ended | grasped => cases h
  | _ => rfl

/-- A step of a command that is no grasp in flight leaves the force and the cap alone, and where it
    is not `close_gripper` that closes, a grasp that waits is left calm. -/
theorem Call.step_apart (h : call.step c r late = some (c', r', call')) (hno : call.in_flight = false) :
    c'.target_force = c.target_force ∧ r'.cap = r.cap ∧ call'.Fits c' r' ∧
      (call ≠ .closing → ∀ own, Calm own c r → Calm own c' r') := by
  cases call with
  | opening distance_m => cases h; exact ⟨rfl, rfl, trivial, fun _ _ _ => .inr (.inr (.inl rfl))⟩
  | opened target => cases h; exact ⟨rfl, rfl, trivial, fun _ _ h => h⟩
  | settling =>
    cases h
    refine ⟨rfl, rfl, ?_, fun _ _ h => h⟩
    split
    · trivial
    · split <;> trivial
  | parking => cases h; exact ⟨rfl, rfl, trivial, fun _ _ _ => .inr (.inl rfl)⟩
  | closing => cases h; exact ⟨rfl, rfl, trivial, fun h => absurd rfl h⟩
  | releasing => cases h; exact ⟨rfl, rfl, trivial, fun _ _ _ => .inr (.inr (.inl rfl))⟩
  | emptying =>
    cases h
    refine ⟨rfl, rfl, ?_, fun _ _ h => h⟩
    split <;> trivial
  | sending_home => cases h; exact ⟨rfl, rfl, trivial, fun _ _ _ => .inr (.inr (.inr rfl))⟩
  | homing =>
    cases h
    refine ⟨rfl, rfl, ?_, fun _ _ h => h⟩
    split <;> trivial
  | open_ended | close_ended | release_ended | grasped => cases h
  | forcing | grasping | waiting | abandoning | ramping | watching | creeping | bumping => cases hno

/-- A step of a grasp in flight: it goes on as it may, and the force stays under the cap of the last
    grasp that closed, unless it has set the force and not closed. -/
theorem Call.step_flying {t : Tick} (h : call.step c r late = some (c', r', call')) (hm : Moved c r t)
    (hf : call.Fits c r) (hfly : call.in_flight = true) (htop : c.target_force ≤ tau_max)
    (hfree : call.forced = false → ∀ n cap, r.cap = some (n, cap) → c.target_force ≤ cap) :
    call'.Fits c' r' ∧ c'.target_force ≤ tau_max ∧
      (call'.forced = false → ∀ n cap, r'.cap = some (n, cap) → c'.target_force ≤ cap) := by
  cases call with
  | forcing g cap =>
    cases h
    have hle : g.initial cap ≤ cap := g.initial_le cap
    exact ⟨⟨hle, hf.2⟩, hle.trans hf.2, fun hno => by simp [Call.forced, hf.1] at hno⟩
  | grasping g cap =>
    cases h
    refine ⟨⟨rfl, hf.2, .inl rfl⟩, htop, fun _ n k hk => ?_⟩
    obtain ⟨_, rfl⟩ : r.epoch + 1 = n ∧ cap = k := by simpa [Trace.closes] using hk
    exact hf.1
  | waiting g cap own =>
    obtain ⟨hcap, htau, hcalm⟩ := hf
    cases h
    refine ⟨?_, htop, fun _ => hfree rfl⟩
    split
    · trivial
    · split
      · next hold =>
        have hown : r.epoch = own := by
          rcases hcalm with hown | h | h | h
          · exact hown
          all_goals rw [hold] at h; cases h
        have hentered : own ∈ r.entered := hown ▸ hm.entered hold
        split
        · exact ⟨hcap, htau, g.initial_le cap, hentered⟩
        · exact hentered
      · split
        · trivial
        · exact ⟨hcap, htau, hcalm⟩
  | abandoning own => cases h; exact ⟨trivial, htop, fun _ => hfree rfl⟩
  | ramping g cap tf own =>
    cases h
    refine ⟨?_, htop, fun _ => hfree rfl⟩
    split
    · exact hf.2.2.2
    · exact hf
  | watching g cap tf p0 own =>
    cases h
    refine ⟨?_, htop, fun _ => hfree rfl⟩
    split
    · exact hf
    · exact hf.2.2.2
  | creeping g cap tf p0 own =>
    cases h
    refine ⟨?_, htop, fun _ => hfree rfl⟩
    split
    · exact hf.2.2.2
    · exact ⟨hf.1, hf.2.1, min_le_left _ _, hf.2.2.2⟩
  | bumping g cap tf own =>
    cases h
    obtain ⟨hcap, htau, hle, hentered⟩ := hf
    refine ⟨⟨hcap, htau, hle, hentered⟩, hle.trans htau, fun _ n k hk => ?_⟩
    obtain ⟨rfl, rfl⟩ : own = n ∧ cap = k := by simpa [hcap] using hk
    exact hle
  | _ => cases hfly

/-- A step of a call, the others standing where they are. -/
theorem Owned.runs {t : Tick} {calls : List Call} {i : ℕ} (ho : Owned c r t calls) (hm : Moved c r t)
    (hi : calls[i]? = some call) (h : call.step c r late = some (c', r', call'))
    (hclosing : call = .closing → ∀ other ∈ calls, other.waits = false) :
    Owned c' r' t (calls.set i call') := by
  have heff : Effect c r c' r' := Call.effect h
  have hone : ∀ (j k : ℕ) a b, (calls.set i call')[j]? = some a → (calls.set i call')[k]? = some b →
      a.in_flight = true → b.in_flight = true → j = k := by
    -- what is in flight now was before
    have hbefore : ∀ (j : ℕ) a, (calls.set i call')[j]? = some a → a.in_flight = true →
        ∃ a', calls[j]? = some a' ∧ a'.in_flight = true := by
      intro j a ha hfly
      rcases (Lib.get_set_iff hi).1 ha with ⟨rfl, rfl⟩ | ⟨_, ha⟩
      · exact ⟨call, hi, Call.in_flight_of_step h hfly⟩
      · exact ⟨a, ha, hfly⟩
    intro j k a b ha hb hfa hfb
    obtain ⟨a', ha', hfa'⟩ := hbefore j a ha hfa
    obtain ⟨b', hb', hfb'⟩ := hbefore k b hb hfb
    exact ho.one j k a' b' ha' hb' hfa' hfb'
  have hmem : ∀ other ∈ calls, other = call ∨ other ∈ calls.set i call' := by
    intro other hother
    obtain ⟨j, hj⟩ := List.getElem?_of_mem hother
    by_cases hij : i = j
    · subst hij
      exact .inl (Option.some.inj (hj.symm.trans hi))
    · exact .inr (List.mem_of_getElem? ((Lib.get_set_iff hi).2 (.inr ⟨hij, hj⟩)))
  cases hfly : call.in_flight with
  | false =>
    obtain ⟨hforce, hcap, hfits, hcalm⟩ := Call.step_apart h hfly
    refine ⟨hforce ▸ ho.top, heff.holds ▸ ho.holds, ho.gripping, ?_, ?_, hone⟩
    · intro hno n cap hcap'
      rw [hforce]
      refine ho.free (fun other hother => ?_) n cap (hcap ▸ hcap')
      rcases hmem other hother with rfl | hother
      · cases other with
        | grasping g cap => cases hfly
        | _ => rfl
      · exact hno other hother
    · intro j other hj
      rcases (Lib.get_set_iff hi).1 hj with ⟨rfl, rfl⟩ | ⟨_, hj⟩
      · exact hfits
      · refine (ho.fits j other hj).frame hforce hcap (fun n hn => heff.entered ▸ hn) fun hw => ?_
        refine hcalm fun hc => ?_
        rw [hclosing hc other (List.mem_of_getElem? hj)] at hw
        cases hw
  | true =>
    -- no other grasp is in flight
    have hothers : ∀ (j : ℕ) other, i ≠ j → calls[j]? = some other → other.in_flight = false := by
      intro j other hij hj
      cases hfj : other.in_flight with
      | false => rfl
      | true => exact absurd (ho.one i j _ _ hi hj hfly hfj) hij
    have hunforced : ∀ (j : ℕ) other, i ≠ j → calls[j]? = some other → other.forced = false := by
      intro j other hij hj
      have hno := hothers j other hij hj
      cases other with
      | grasping g cap => cases hno
      | _ => rfl
    have hfree : call.forced = false → ∀ n cap, r.cap = some (n, cap) → c.target_force ≤ cap := by
      refine fun hno => ho.free fun other hother => ?_
      obtain ⟨j, hj⟩ := List.getElem?_of_mem hother
      by_cases hij : i = j
      · subst hij
        obtain rfl := Option.some.inj (hj.symm.trans hi)
        exact hno
      · exact hunforced j other hij hj
    obtain ⟨hfits, htop, hfree'⟩ :=
      Call.step_flying h hm (ho.fits i call hi) hfly ho.top hfree
    refine ⟨htop, heff.holds ▸ ho.holds, ho.gripping, ?_, ?_, hone⟩
    · intro hno
      exact hfree' (hno call' (List.mem_of_getElem? ((Lib.get_set_iff hi).2 (.inl ⟨rfl, rfl⟩))))
    · intro j other hj
      rcases (Lib.get_set_iff hi).1 hj with ⟨rfl, rfl⟩ | ⟨hij, hj⟩
      · exact hfits
      · exact (ho.fits j other hj).apart (hothers j other hij hj) heff.entered

/-- A grasp is called when no other is in flight; any other command, at any time. -/
theorem Owned.called {t : Tick} {calls : List Call} (ho : Owned c r t calls) (command : Command)
    (hgrasp : ∀ g, command = .grasp g → ∀ other ∈ calls, other.in_flight = false) :
    Owned c r t (calls ++ [command.call c]) := by
  refine ⟨ho.top, ho.holds, ho.gripping, ?_, ?_, ?_⟩
  · exact fun hno => ho.free fun other hother => hno other (List.mem_append_left _ hother)
  · intro i call hi
    rcases Lib.get_concat_iff.1 hi with hi | ⟨_, rfl⟩
    · exact ho.fits i call hi
    · cases command with
      | grasp g =>
        simp only [Command.call]
        split
        · next hforces => exact ⟨hforces, clip_le _⟩
        · next hforces =>
          have hnone : g.force = none := by
            cases hg : g.force with
            | none => rfl
            | some f => simp [Grasp.forces, hg] at hforces
          refine ⟨?_, clip_le _⟩
          rw [Grasp.cap, hnone]
          exact le_min (le_max_left _ _) ho.top
      | _ => trivial
  · intro i j a b hi hj hfa hfb
    -- a new call in flight is a grasp, and so the only one
    have hnew : ∀ other ∈ calls, (command.call c).in_flight = true → other.in_flight = true → False := by
      intro other hother hfly hfo
      cases command with
      | grasp g => rw [hgrasp g rfl other hother] at hfo; cases hfo
      | _ => cases hfly
    rcases Lib.get_concat_iff.1 hi with hi | ⟨rfl, rfl⟩ <;>
      rcases Lib.get_concat_iff.1 hj with hj | ⟨rfl, rfl⟩
    · exact ho.one i j a b hi hj hfa hfb
    · exact (hnew a (List.mem_of_getElem? hi) hfb hfa).elim
    · exact (hnew b (List.mem_of_getElem? hj) hfa hfb).elim
    · rfl

/-- A tick reads a force that no grasp will exceed, sends it in time, and sets no state that a grasp
    that waits could take for its own. -/
theorem Owned.go {calls : List Call} {t t' : Tick} (ho : Owned c r t calls) (hm : Moved c r t)
    (htime : State.tick_in_time ⟨c, r, t, calls⟩ = true) (h : t.step c r = some (c', r', t')) :
    Owned c' r' t' calls := by
  have hkeep : ∀ {c'' r'' t''}, c''.target_force = c.target_force → r''.cap = r.cap →
      r''.holds = r.holds → (∀ n ∈ r.entered, n ∈ r''.entered) →
      (∀ force n cap, t'' = .gripping force (some (n, cap)) → force ≤ cap) →
      (∀ own, Calm own c r → Calm own c'' r'') → Owned c'' r'' t'' calls := by
    intro c'' r'' t'' hforce hcap hholds hentered hgrip hcalm
    refine ⟨hforce ▸ ho.top, hholds ▸ ho.holds, hgrip, ?_, ?_, ho.one⟩
    · rw [hforce, hcap]
      exact ho.free
    · exact fun i call hi => (ho.fits i call hi).frame hforce hcap hentered fun _ => hcalm
  cases t with
  | idle => cases h
  | sampled x =>
    cases h
    refine hkeep rfl rfl rfl (fun _ hn => hn) (fun force n cap hg => ?_) fun _ hc => hc
    obtain ⟨hold, rfl, hcap⟩ := Tick.read_gripping hg
    have hno : ∀ call ∈ calls, call.forced = false := by
      simpa [State.tick_in_time, hold] using htime
    exact ho.free hno n cap hcap
  | opening x n =>
    cases h
    exact hkeep rfl rfl rfl (fun _ hn => hn) (fun _ _ _ hg => by cases hg) fun _ hc => hc
  | commanding x n target q ramp_done begun spent =>
    cases h
    refine hkeep rfl rfl rfl (fun _ hn => hn) (fun _ _ _ hg => ?_) fun _ hc => hc
    split at hg
    · cases hg
    · split at hg <;> cases hg
  | stalling x n =>
    cases h
    refine hkeep rfl rfl rfl (fun _ hn => hn) (fun _ _ _ hg => ?_) fun _ hc => hc
    split at hg <;> cases hg
  | closing x n =>
    cases h
    refine hkeep rfl rfl rfl (fun _ hn => hn) (fun _ _ _ hg => ?_) fun _ hc => hc
    rcases Tick.closed_cases (c := { c with close_elapsed := c.close_elapsed + x.dt }) x n with
      hidle | ⟨next, _, hset⟩
    · rw [hidle] at hg
      cases hg
    · rw [hset] at hg
      cases hg
  | touching x n =>
    cases h
    exact hkeep rfl rfl rfl (fun _ hn => hn) (fun _ _ _ hg => by cases hg) fun _ hc => hc
  | confirming x n =>
    simp only [Tick.step] at h
    split at h
    · next hlong =>
      obtain rfl : n = r.epoch := by simpa [State.tick_in_time, not_lt.2 hlong] using htime
      have hstate : c.state = .contact := (hm.seen _ _ rfl).2 rfl
      cases h
      refine hkeep (Fields.move_force ..) rfl rfl (fun _ hn => List.mem_cons_of_mem _ hn)
        (fun _ _ _ hg => by cases hg) fun own hc => ?_
      rcases hc with hown | hc | hc | hc
      · exact .inl hown
      all_goals rw [hstate] at hc; cases hc
    · cases h
      exact hkeep rfl rfl rfl (fun _ hn => hn) (fun _ _ _ hg => by cases hg) fun _ hc => hc
  | gripping force cap =>
    obtain rfl : cap = r.cap := by simpa [State.tick_in_time] using htime
    cases h
    refine ⟨ho.top, fun x hx n k hk => ?_, fun _ _ _ hg => (by cases hg), ho.free, ?_, ho.one⟩
    · rcases List.mem_cons.1 hx with rfl | hx
      · exact ho.gripping force n k (congrArg _ hk)
      · exact ho.holds x hx n k hk
    · exact fun i call hi => (ho.fits i call hi).frame rfl rfl (fun _ hn => hn) fun _ _ hc => hc
  | homing x n =>
    cases h
    refine hkeep rfl rfl rfl (fun _ hn => hn) (fun _ _ _ hg => ?_) fun _ hc => hc
    split at hg <;> cases hg
  | setting saw next pos n =>
    obtain rfl : n = r.epoch := by simpa [State.tick_in_time] using htime
    have hstate : c.state = saw := (hm.seen _ _ rfl).2 rfl
    have hfollows : Follows saw next := hm.setting _ _ _ _ rfl
    cases h
    refine hkeep (Fields.move_force ..) rfl rfl (fun m hn => ?_) (fun _ _ _ hg => by cases hg)
      fun own hc => ?_
    · simp only [Trace.moved]
      split
      · exact List.mem_cons_of_mem _ hn
      · exact hn
    · rcases hc with hown | hc
      · exact .inl hown
      · refine .inr (.inl ?_)
        rw [Fields.move_state]
        rw [hstate] at hc
        cases hfollows with
        | opened | empty | home => rfl
        | touched | gripped => simp at hc

/-! ### Runs -/

/-- The invariant of an orderly run. -/
structure State.Inv (s : State) : Prop where
  moved : Moved s.fields s.trace s.tick
  ramped : Ramped s.fields s.trace s.tick
  owned : Owned s.fields s.trace s.tick s.calls

theorem State.init_inv : State.init.Inv where
  moved := ⟨fun _ _ h => (by cases h), fun _ _ _ _ h => (by cases h), fun _ h => (by cases h),
    fun h => (by cases h)⟩
  ramped := ⟨rfl, le_refl _, by norm_num [State.init, Trace.init, open_soft_limit],
    fun _ h => (by cases h), Nat.le_refl _, le_max_left _ _, fun h => absurd rfl h,
    fun _ _ _ _ _ _ _ h => (by cases h), fun _ h => (by cases h), .nil⟩
  owned := ⟨by norm_num [State.init, Fields.init, default_force, tau_max], fun _ h => (by cases h),
    fun _ _ _ h => (by cases h), fun _ _ _ h => (by cases h), fun _ _ h => (by cases h),
    fun _ _ _ _ h => (by cases h)⟩

/-- Feedback changes neither the state nor what the commands have set. -/
theorem Fields.sample_keeps (c : Fields) (feedback : Option (ℚ × ℚ)) :
    ∃ pos vel, c.sample feedback = { c with pos := pos, vel := vel } := by
  cases feedback with
  | none => exact ⟨c.pos, c.vel, rfl⟩
  | some f =>
    simp only [Fields.sample]
    split
    · exact ⟨_, _, rfl⟩
    · exact ⟨c.pos, c.vel, rfl⟩

/-- A tick begins, no earlier than the one before has ended. -/
theorem State.Inv.tick {s s' : State} {elapsed : ℚ} {feedback : Option (ℚ × ℚ)} (hs : s.Inv)
    (h : s.next (.tick elapsed feedback) = some s') : s'.Inv := by
  obtain ⟨c, r, t, calls⟩ := s
  obtain ⟨hm, hr, ho⟩ := hs
  simp only [State.next] at h
  split at h
  · split at h
    · next hlong =>
      have hdt : 0 ≤ elapsed := le_trans (by norm_num [ctrl_rate]) hlong
      obtain ⟨pos, vel, hc⟩ := c.sample_keeps feedback
      rw [hc] at h
      cases h
      refine ⟨?_, ?_, ?_⟩
      · exact ⟨fun _ _ h => (by cases h), fun _ _ _ _ h => (by cases h), hm.moves, hm.entered⟩
      · refine ⟨hr.target, hr.low, hr.high, fun x hx => ?_, hr.begun, hr.below, hr.beyond,
          fun _ _ _ _ _ _ _ h => (by cases h), hr.each, hr.falls⟩
        cases hx
        exact hdt
      · refine ⟨ho.top, ho.holds, fun _ _ _ h => (by cases h), ho.free, fun i call hi => ?_, ho.one⟩
        exact (ho.fits i call hi).frame rfl rfl (fun _ hn => hn) fun _ _ hc => hc
    · cases h
  · cases h

/-- An orderly step keeps the invariant. -/
theorem State.Inv.step {s s' : State} {a : Label} (hs : s.Inv) (h : Lib.restrict orderly step s a s') :
    s'.Inv := by
  obtain ⟨hok, h⟩ := h
  cases a with
  | tick elapsed feedback => exact hs.tick h
  | go =>
    obtain ⟨⟨c', r', t'⟩, hstep, rfl⟩ := Option.map_eq_some_iff.1 h
    exact ⟨hs.moved.go hok hstep, hs.ramped.go hok hstep, hs.owned.go hs.moved hok hstep⟩
  | call command =>
    cases h
    refine ⟨hs.moved, hs.ramped, hs.owned.called command fun g hg => ?_⟩
    subst hg
    simpa [orderly] using hok
  | run i late =>
    obtain ⟨call, hi, h⟩ := Option.bind_eq_some_iff.1 h
    obtain ⟨⟨c', r', call'⟩, hstep, h⟩ := Option.bind_eq_some_iff.1 h
    cases h
    refine ⟨hs.moved.effect (Call.effect hstep), hs.ramped.effect (Call.effect hstep),
      hs.owned.runs hs.moved hi hstep fun hc => ?_⟩
    subst hc
    simpa [orderly, hi] using hok

theorem State.Inv.kept {s : State} (hs : s.Inv) : s.Kept where
  moves := hs.moved.moves
  falls := hs.ramped.falls
  aims x hx := ⟨(hs.ramped.each x hx).1, (hs.ramped.each x hx).2.2⟩
  holds := hs.owned.holds
  grasped own hmem := by
    obtain ⟨i, hi⟩ := List.getElem?_of_mem hmem
    exact hs.owned.fits i _ hi

/-- In every run whose sections come in order, the gripper's commands are kept apart. -/
theorem commands_kept {as : List Label} {s : State} (h : Lib.Run (Lib.restrict orderly step) .init as s) :
    s.Kept := by
  have hs : s.Inv := h.invariant (I := State.Inv) (fun hs hst => hs.step hst) State.init_inv
  exact hs.kept

/-- A grasp of 1 N·m meets an object a radian from the stop: it is held with that force. -/
theorem commands_kept_of_grasp : ∃ as s, Lib.Run (Lib.restrict orderly step) .init as s ∧ s.Kept ∧
    s.trace.entered = [1] ∧ s.trace.holds = [(some (1, 1), 1)] := by
  have hreplay : (Lib.replay (fun s a => if orderly s a then State.next s a else none) .init
      [.call (.grasp ⟨some 1, false, 0, 0, 0⟩), .run 0 false, .run 0 false,
        .tick (1 / 2) (some (-1, 0)), .go, .go, .go, .tick (1 / 2) none, .go, .go, .go, .run 0 false,
        .tick (1 / 2) none, .go, .go]).any
      (fun s => s.trace.entered = [1] ∧ s.trace.holds = [(some (1, 1), 1)]) = true := by decide +kernel
  obtain ⟨s, hs, hends⟩ := Lib.Run.of_replay_any _ _ _ _ hreplay
  have hrun := Lib.Run.restrict_mono hs
  have hheld := of_decide_eq_true hends
  exact ⟨_, s, hrun, commands_kept hrun, hheld.1, hheld.2⟩

/-- A tick sees the gripper arrive, `close_gripper` closes, and the tick sets `IDLE`. -/
theorem closing_lost : ∃ as s, Lib.Run step .init as s ∧ ¬ s.Kept := by
  have hrun : (Lib.replay State.next .init [.call (.open_gripper 0), .run 0 false, .tick (1 / 500) none,
      .go, .go, .go, .call .close_gripper, .run 1 false, .go]).any
      (fun s => s.trace.moves.any fun m => m.found ≠ m.saw) = true := by decide +kernel
  obtain ⟨s, hs, hlost⟩ := Lib.Run.of_replay_any _ _ _ _ hrun
  refine ⟨_, s, hs, fun hk => ?_⟩
  obtain ⟨m, hm, hne⟩ := List.any_eq_true.1 hlost
  simp [(hk.moves m hm).2.1] at hne

end LocalVoice.RebotArm.Gripper
