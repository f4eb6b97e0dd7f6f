import LocalVoice.RebotArm.Actuator

/-! Every wrapper whose motors were enabled is published, in the hands of one thread, or disconnected.
    The state of the torque follows the controller of the published wrapper, as long as `set_torque`
    does not turn it on without one. -/

namespace LocalVoice.RebotArm
open LocalVoice.Lib

/-! ### Wrappers in hand -/

/-- The wrapper that only this thread has. -/
def Thread.hand : Thread → Option ℕ
  | .connect _ (.burying stale) => stale
  | .connect _ (.opening w) => some w
  | .connect _ (.gripping w) => some w
  | .connect _ (.publishing w) => some w
  | .connect _ (.handing_back w) => some w
  | .disconnect (.taken robot _) => robot
  | _ => none

/-- A wrapper that is usable once it is published. -/
structure Wrapper.Ready (x : Wrapper) (gen : ℕ) : Prop where
  gen : x.gen = gen
  enabled : x.enabled = true
  controller : x.controller = true
  connected : x.connected = true

/-- The thread holds the connect lock. -/
def Thread.locked : Thread → Bool
  | .connect _ .waiting => false
  | .connect _ (.ended ..) => false
  | .connect .. => true
  | _ => false

/-- The thread has unpublished what there was, and has published nothing yet. -/
def Thread.emptied : Thread → Bool
  | .connect _ (.burying _) => true
  | .connect _ .building => true
  | .connect _ (.opening _) => true
  | .connect _ (.gripping _) => true
  | .connect _ (.publishing _) => true
  | _ => false

/-- What a thread knows of the wrapper that it has, or had, and of the generation. -/
def Thread.Knows (c : Shared) : Thread → Prop
  | .connect gen (.opening w) => (c.wrapper w).gen = gen
  | .connect gen (.gripping w) => (c.wrapper w).Ready gen
  | .connect gen (.publishing w) => (c.wrapper w).Ready gen
  | .connect _ (.ended true (some w)) => w < c.built ∧ (c.wrapper w).down = true
  | .disconnect (.taken _ g) => g ≤ c.generation
  | .disconnect (.returning g) => g ≤ c.generation
  | .disconnect (.ended g) => g ≤ c.generation
  | _ => True

/-- What a thread has was built, is not published, and was not disconnected. -/
def Shared.Private (c : Shared) (w : ℕ) : Prop :=
  w < c.built ∧ c.robot ≠ some w ∧ (c.wrapper w).down = false

/-- A wrapper that is published was enabled by a `connect()` of this generation. -/
structure Shared.Published (c : Shared) (w : ℕ) : Prop where
  built : w < c.built
  gen : (c.wrapper w).gen = c.generation
  enabled : (c.wrapper w).enabled = true
  connected : (c.wrapper w).connected = true
  up : (c.wrapper w).down = false

section
variable {c : Shared} {w v : ℕ} {f : Wrapper → Wrapper}

@[simp] theorem modify_robot : (c.modify w f).robot = c.robot := rfl
@[simp] theorem modify_generation : (c.modify w f).generation = c.generation := rfl
@[simp] theorem modify_built : (c.modify w f).built = c.built := rfl
@[simp] theorem modify_torque : (c.modify w f).torque_on = c.torque_on := rfl
@[simp] theorem modify_self : (c.modify w f).wrapper w = f (c.wrapper w) := by simp [Shared.modify]

theorem modify_other (h : v ≠ w) : (c.modify w f).wrapper v = c.wrapper v := by
  simp [Shared.modify, h]

end

section
variable {x : Wrapper} {enable : Bool} {o low : Sdk}

@[simp] theorem connect_gen : (x.connect o).gen = x.gen := by cases o <;> rfl
@[simp] theorem connect_down : (x.connect o).down = x.down := by cases o <;> rfl
@[simp] theorem connect_misused : (x.connect o).misused = x.misused := by cases o <;> rfl

theorem set_torque_frame : (x.set_torque enable o low).gen = x.gen ∧
    (x.set_torque enable o low).down = x.down ∧ (x.set_torque enable o low).misused = x.misused ∧
    (x.set_torque enable o low).connected = x.connected ∧
    (x.enabled = true → (x.set_torque enable o low).enabled = true) := by
  unfold Wrapper.set_torque
  split
  · split
    · split <;> simp +contextual
    · simp
  · split <;> simp +contextual

end

/-! ### What a step does -/

/-- What a thread does: nothing that matters to the wrappers; it takes the published wrapper, calls
    `disconnect()` on the one it has, builds one, drives or opens the one it has, publishes it, or
    drives the one that is published. -/
inductive Moved (c : Shared) : Thread → Shared → Thread → Prop where
  | quiet {t t' : Thread} (b : Bool) : t'.hand = t.hand →
    (t.Knows c → t'.Knows { c with connect_lock := b }) →
    (∀ gen stage, t = .connect gen stage → ∃ stage', t' = .connect gen stage') →
    (t'.emptied = true → t.emptied = true) →
    (c.connect_lock = true → b = true ∨ t.locked = true) →
    (t'.locked = true → b = true ∧ (t.locked = true ∨ c.connect_lock = false) ∨
      b = c.connect_lock ∧ t.locked = true) →
    Moved c t { c with connect_lock := b } t'
  | replaces {gen : ℕ} : Moved c (.connect gen .unpublishing)
    { c with robot := none, torque_on := false } (.connect gen (.burying c.robot))
  | disconnects : Moved c (.disconnect .called)
    { c with robot := none, torque_on := false, generation := c.generation + 1 }
    (.disconnect (.taken c.robot (c.generation + 1)))
  | buries_stale {gen : ℕ} {stale : Option ℕ} : Moved c (.connect gen (.burying stale)) (c.bury stale)
    (.connect gen .building)
  | buries {robot : Option ℕ} {g : ℕ} : Moved c (.disconnect (.taken robot g)) (c.bury robot)
    (.disconnect (.returning g))
  | hands_back {gen w : ℕ} : Moved c (.connect gen (.handing_back w)) (c.bury (some w)).unlock
    (.connect gen (.ended true (some w)))
  | builds {gen : ℕ} : Moved c (.connect gen .building)
    { c.modify c.built fun _ => .init gen with built := c.built + 1 } (.connect gen (.opening c.built))
  | opens {gen w : ℕ} (o : Sdk) : Moved c (.connect gen (.opening w)) (c.modify w fun x => x.connect o)
    (.connect gen (if o = .ok then .gripping w else .handing_back w))
  | grips {gen w : ℕ} : Moved c (.connect gen (.gripping w)) (c.modify w .driven)
    (.connect gen (.publishing w))
  | publishes {gen w : ℕ} : c.generation = gen → Moved c (.connect gen (.publishing w))
    { c with robot := some w, torque_on := true } (.connect gen (.priming w))
  | operates {w : ℕ} {stage stage' : Sequence} : c.robot = some w →
    Moved c (.sequence stage) (c.modify w .driven) (.sequence stage')
  | torques {enable : Bool} (o low : Sdk) : Moved c (.set_torque enable .locked)
    (c.set_torque enable o low) (.set_torque enable .ended)

section
variable {c c' : Shared} {t t' : Thread} {o low : Sdk}

/-- A step of `connect` that leaves the lock, or frees it. -/
theorem moved_quiet {gen : ℕ} {stage stage' : Connect}
    (hhand : (Thread.connect gen stage').hand = (Thread.connect gen stage).hand)
    (hknows : (Thread.connect gen stage).Knows c → (Thread.connect gen stage').Knows c)
    (hemptied : (Thread.connect gen stage').emptied = true →
      (Thread.connect gen stage).emptied = true)
    (hlocked : (Thread.connect gen stage).locked = true) :
    Moved c (.connect gen stage) c (.connect gen stage') := by
  refine .quiet c.connect_lock hhand hknows ?_ hemptied Or.inl fun _ => Or.inr ⟨rfl, hlocked⟩
  rintro gen' stage'' heq
  cases heq
  exact ⟨stage', rfl⟩

theorem moved_fails {gen : ℕ} {stage : Connect} {raised : Bool} {built : Option ℕ}
    (hhand : (Thread.connect gen stage).hand = none)
    (hknows : (Thread.connect gen (.ended raised built)).Knows c)
    (hlocked : (Thread.connect gen stage).locked = true) :
    Moved c (.connect gen stage) c.unlock (.connect gen (.ended raised built)) := by
  refine .quiet false hhand.symm (fun _ => ?_) ?_ (by simp [Thread.emptied])
    (fun _ => Or.inr hlocked) (by simp [Thread.locked])
  · cases raised <;> cases built <;> exact hknows
  · rintro gen' stage'' heq
    cases heq
    exact ⟨_, rfl⟩

theorem moved_connect {gen : ℕ} {stage stage' : Connect} (h : stage.step c gen o = some (c', stage')) :
    Moved c (.connect gen stage) c' (.connect gen stage') := by
  cases stage with
  | waiting =>
    simp only [Connect.step] at h
    split at h
    · cases h
    · next hfree =>
      cases h
      refine .quiet true rfl (fun _ => trivial) ?_ (by simp [Thread.emptied])
        (fun _ => Or.inl rfl) (fun _ => Or.inl ⟨rfl, Or.inr (by simpa using hfree)⟩)
      rintro gen' stage'' heq
      cases heq
      exact ⟨_, rfl⟩
  | checking =>
    simp only [Connect.step] at h
    split at h <;> cases h
    · exact moved_quiet rfl (fun _ => trivial) (by simp [Thread.emptied]) rfl
    · exact moved_fails rfl trivial rfl
  | resolving =>
    simp only [Connect.step] at h
    split at h <;> cases h
    · exact moved_quiet rfl (fun _ => trivial) (by simp [Thread.emptied]) rfl
    · exact moved_fails rfl trivial rfl
  | unpublishing => cases h; exact .replaces
  | burying stale => cases h; exact .buries_stale
  | building =>
    simp only [Connect.step] at h
    split at h <;> cases h
    · exact .builds
    · exact moved_fails rfl trivial rfl
  | opening w => cases h; exact .opens o
  | gripping w => cases h; exact .grips
  | publishing w =>
    simp only [Connect.step] at h
    split at h <;> cases h
    · next hgen => exact .publishes hgen
    · exact moved_quiet rfl (fun _ => trivial) (by simp [Thread.emptied]) rfl
  | handing_back w => cases h; exact .hands_back
  | priming w => cases h; exact moved_fails rfl trivial rfl
  | ended => cases h

theorem moved_disconnect {stage stage' : Disconnect} (h : stage.step c = some (c', stage')) :
    Moved c (.disconnect stage) c' (.disconnect stage') := by
  cases stage with
  | called => cases h; exact .disconnects
  | taken robot g => cases h; exact .buries
  | returning g =>
    cases h
    exact .quiet c.connect_lock rfl (fun hknows => hknows) (by simp) (by simp [Thread.emptied])
      Or.inl (by simp [Thread.locked])
  | ended => cases h

theorem moved_sequence {stage stage' : Sequence} (h : stage.step c o = some (c', stage')) :
    Moved c (.sequence stage) c' (.sequence stage') := by
  have hquiet : ∀ stage', Moved c (.sequence stage) c (.sequence stage') := fun stage' =>
    .quiet c.connect_lock rfl (fun hknows => hknows) (by simp) (by simp [Thread.emptied])
      Or.inl (by simp [Thread.locked])
  have hoperate : ∀ rest, Sequence.operate c o rest = (c', stage') →
      Moved c (.sequence stage) c' (.sequence stage') := by
    intro rest hop
    unfold Sequence.operate at hop
    split at hop
    · cases hop
      exact hquiet _
    · next w hrobot =>
      cases hop
      exact .operates hrobot
  cases stage with
  | called frames => cases h; exact hquiet _
  | next frames => cases frames <;> cases h <;> exact hquiet _
  | moving frame frames =>
    simp only [Sequence.step, Option.some.injEq] at h
    split at h
    · exact hoperate _ h
    · cases h
      exact hquiet _
  | gripping frame frames =>
    simp only [Sequence.step, Option.some.injEq] at h
    split at h
    · exact hoperate _ h
    · cases h
      exact hquiet _
  | reading => cases h; exact hquiet _
  | ended => cases h

theorem moved_step (h : t.step c o low = some (c', t')) : Moved c t c' t' := by
  cases t with
  | connect gen stage =>
    obtain ⟨⟨d, stage'⟩, hstep, hr⟩ := Option.map_eq_some_iff.1 h
    cases hr
    exact moved_connect hstep
  | disconnect stage =>
    obtain ⟨⟨d, stage'⟩, hstep, hr⟩ := Option.map_eq_some_iff.1 h
    cases hr
    exact moved_disconnect hstep
  | set_torque enable stage =>
    obtain ⟨⟨d, stage'⟩, hstep, hr⟩ := Option.map_eq_some_iff.1 h
    cases hr
    cases stage with
    | called =>
      cases hstep
      exact .quiet c.connect_lock rfl (fun hknows => hknows) (by simp)
        (by simp [Thread.emptied]) Or.inl (by simp [Thread.locked])
    | locked => cases hstep; exact .torques o low
    | ended => cases hstep
  | sequence stage =>
    obtain ⟨⟨d, stage'⟩, hstep, hr⟩ := Option.map_eq_some_iff.1 h
    cases hr
    exact moved_sequence hstep

end

/-- What a step of `t` leaves for the invariant: where each wrapper is now, and what was not touched. -/
structure Effect (c : Shared) (t : Thread) (c' : Shared) (t' : Thread) : Prop where
  built : c.built ≤ c'.built
  generation : c.generation ≤ c'.generation
  down : ∀ w < c.built, (c.wrapper w).down = true → (c'.wrapper w).down = true
  gen : ∀ w < c.built, (c'.wrapper w).gen = (c.wrapper w).gen
  others : ∀ w < c.built, t.hand ≠ some w → c.robot ≠ some w → c'.wrapper w = c.wrapper w
  unharmed : ∀ w < c'.built, (c'.wrapper w).misused = true → w < c.built ∧ (c.wrapper w).misused = true
  builder : ∀ w < c'.built, w < c.built ∨ ∃ stage, t' = .connect (c'.wrapper w).gen stage
  calls : ∀ gen stage, t = .connect gen stage → ∃ stage', t' = .connect gen stage'
  knows : t'.Knows c'
  hand : ∀ w, t'.hand = some w → c'.Private w ∧ (t.hand = some w ∨ c.robot = some w ∨ c.built ≤ w)
  robot : ∀ w, c'.robot = some w → c'.Published w ∧
    (c.robot = some w ∨ t.hand = some w ∧ t.locked = true)
  kept : ∀ w < c'.built, (c'.wrapper w).enabled = true → (c'.wrapper w).down = false →
    c'.robot = some w ∨ t'.hand = some w ∨ w < c.built ∧ (c.wrapper w).enabled = true ∧
      (c.wrapper w).down = false ∧ c.robot ≠ some w ∧ t.hand ≠ some w

section
variable {c c' : Shared} {t t' : Thread} {w : ℕ} {f : Wrapper → Wrapper}

/-- A step that changes no wrapper. -/
theorem Effect.of_same (hwrapper : c'.wrapper = c.wrapper) (hbuilt : c'.built = c.built)
    (hgeneration : c.generation ≤ c'.generation)
    (hcalls : ∀ gen stage, t = .connect gen stage → ∃ stage', t' = .connect gen stage')
    (hknows : t'.Knows c')
    (hhand : ∀ w, t'.hand = some w → c'.Private w ∧ (t.hand = some w ∨ c.robot = some w))
    (hrobot : ∀ w, c'.robot = some w → c'.Published w ∧
      (c.robot = some w ∨ t.hand = some w ∧ t.locked = true))
    (hkept : ∀ w, c.robot = some w ∨ t.hand = some w → c'.robot = some w ∨ t'.hand = some w) :
    Effect c t c' t' where
  built := Nat.le_of_eq hbuilt.symm
  generation := hgeneration
  down := by simp [hwrapper]
  gen := by simp [hwrapper]
  others := by simp [hwrapper]
  unharmed := by simp +contextual [hwrapper, hbuilt]
  builder := by simp +contextual [hbuilt]
  calls := hcalls
  knows := hknows
  hand := fun w hw => (hhand w hw).imp_right fun h => h.imp_right Or.inl
  robot := hrobot
  kept := by
    intro w hw henabled hdown
    rw [hwrapper] at henabled hdown
    by_cases hheld : c.robot = some w ∨ t.hand = some w
    · exact (hkept w hheld).imp_right Or.inl
    · exact Or.inr (Or.inr ⟨hbuilt ▸ hw, henabled, hdown, fun h => hheld (Or.inl h),
        fun h => hheld (Or.inr h)⟩)

/-- A step that changes one wrapper, which it has or which is published, and leaves it where it is, or
    disconnected. -/
theorem Effect.of_modify (hplace : t.hand = some w ∨ t.hand = none ∧ c.robot = some w)
    (hgen : (f (c.wrapper w)).gen = (c.wrapper w).gen)
    (hdown : (c.wrapper w).down = true → (f (c.wrapper w)).down = true)
    (hmisused : (f (c.wrapper w)).misused = (c.wrapper w).misused)
    (hcalls : ∀ gen stage, t = .connect gen stage → ∃ stage', t' = .connect gen stage')
    (hknows : t'.Knows (c.modify w f))
    (hhand : ∀ v, t'.hand = some v → (c.modify w f).Private v ∧ t.hand = some v)
    (hrobot : ∀ v, c.robot = some v → (c.modify w f).Published v)
    (hkept : (f (c.wrapper w)).down = false → c.robot = some w ∨ t'.hand = some w) :
    Effect c t (c.modify w f) t' where
  built := Nat.le_refl _
  generation := Nat.le_refl _
  down := by
    intro v _ hv
    by_cases hvw : v = w
    · subst hvw
      simpa using hdown hv
    · rw [modify_other hvw]
      exact hv
  gen := by
    intro v _
    by_cases hvw : v = w
    · subst hvw
      simpa using hgen
    · rw [modify_other hvw]
  others := by
    intro v _ hno hunpublished
    refine modify_other ?_
    rintro rfl
    exact hplace.elim hno fun h => hunpublished h.2
  unharmed := by
    intro v hv hmis
    refine ⟨hv, ?_⟩
    by_cases hvw : v = w
    · subst hvw
      rw [modify_self, hmisused] at hmis
      exact hmis
    · rwa [modify_other hvw] at hmis
  builder := fun v hv => Or.inl hv
  calls := hcalls
  knows := hknows
  hand := fun v hv => (hhand v hv).imp_right Or.inl
  robot := fun v hv => ⟨hrobot v hv, Or.inl hv⟩
  kept := by
    intro v hv henabled hup
    by_cases hvw : v = w
    · subst hvw
      rw [modify_self] at hup
      exact (hkept hup).imp_right Or.inl
    · rw [modify_other hvw] at henabled hup
      by_cases hv' : c.robot = some v
      · exact Or.inl hv'
      · refine Or.inr (Or.inr ⟨hv, henabled, hup, hv', fun hhand' => ?_⟩)
        rcases hplace with hplace | ⟨hnone, -⟩
        · exact hvw (Option.some.inj (hhand'.symm.trans hplace))
        · rw [hnone] at hhand'
          cases hhand'

theorem Effect.bury {robot : Option ℕ} (hhand : t.hand = robot)
    (hcalls : ∀ gen stage, t = .connect gen stage → ∃ stage', t' = .connect gen stage')
    (hknows : t'.Knows (c.bury robot)) (hnone : t'.hand = none)
    (hprivate : ∀ w, t.hand = some w → c.Private w)
    (hpublished : ∀ w, c.robot = some w → c.Published w) : Effect c t (c.bury robot) t' := by
  cases robot with
  | none =>
    refine .of_same rfl rfl (Nat.le_refl _) hcalls hknows (by simp [hnone])
      (fun w hw => ⟨hpublished w hw, Or.inl hw⟩) ?_
    rintro w (hw | hw)
    · exact Or.inl hw
    · rw [hhand] at hw
      cases hw
  | some w =>
    obtain ⟨-, hne, -⟩ := hprivate w hhand
    refine .of_modify (Or.inl hhand) rfl (fun _ => rfl) rfl hcalls hknows (by simp [hnone]) ?_ (by simp [Wrapper.disconnect])
    intro v hv
    have hvw : v ≠ w := by
      rintro rfl
      exact hne hv
    obtain ⟨hbuilt, hgen, henabled, hconnected, hup⟩ := hpublished v hv
    constructor <;> simpa [modify_other hvw]

/-- Opening, gripping and driving leave a wrapper where it is. -/
theorem Effect.drive (hplace : t.hand = some w ∨ t.hand = none ∧ c.robot = some w)
    (hgen : (f (c.wrapper w)).gen = (c.wrapper w).gen)
    (hdown : (f (c.wrapper w)).down = (c.wrapper w).down)
    (hmisused : (f (c.wrapper w)).misused = (c.wrapper w).misused)
    (henabled : (c.wrapper w).enabled = true → (f (c.wrapper w)).enabled = true)
    (hconnected : (c.wrapper w).connected = true → (f (c.wrapper w)).connected = true)
    (hcalls : ∀ gen stage, t = .connect gen stage → ∃ stage', t' = .connect gen stage')
    (hknows : t'.Knows (c.modify w f)) (hhand : t'.hand = t.hand)
    (hprivate : ∀ w, t.hand = some w → c.Private w)
    (hpublished : ∀ w, c.robot = some w → c.Published w) : Effect c t (c.modify w f) t' := by
  refine .of_modify hplace hgen (fun h => hdown.trans h) hmisused hcalls hknows ?_ ?_ ?_
  · intro v hv
    rw [hhand] at hv
    obtain ⟨hbuilt, hne, hup⟩ := hprivate v hv
    refine ⟨⟨hbuilt, hne, ?_⟩, hv⟩
    by_cases hvw : v = w
    · subst hvw
      rw [modify_self, hdown, hup]
    · rwa [modify_other hvw]
  · intro v hv
    obtain ⟨hbuilt, hgen', henabled', hconnected', hup⟩ := hpublished v hv
    by_cases hvw : v = w
    · subst hvw
      exact ⟨hbuilt, by simpa [hgen] using hgen', by simpa using henabled henabled',
        by simpa using hconnected hconnected', by simpa [hdown] using hup⟩
    · constructor <;> simpa [modify_other hvw]
  · rintro -
    rw [hhand]
    exact hplace.symm.imp_left And.right

/-- The lock and the state of the torque are not part of it. -/
theorem Effect.flags {torque_on connect_lock : Bool} (h : Effect c t c' t')
    (hknows : t'.Knows { c' with torque_on, connect_lock }) :
    Effect c t { c' with torque_on, connect_lock } t' where
  built := h.built
  generation := h.generation
  down := h.down
  gen := h.gen
  others := h.others
  unharmed := h.unharmed
  builder := h.builder
  calls := h.calls
  knows := hknows
  hand := h.hand
  robot := fun w hw => by
    obtain ⟨⟨hbuilt, hgen, henabled, hconnected, hup⟩, hplace⟩ := h.robot w hw
    exact ⟨⟨hbuilt, hgen, henabled, hconnected, hup⟩, hplace⟩
  kept := h.kept

theorem moved_effect (h : Moved c t c' t') (hknows : t.Knows c)
    (hprivate : ∀ w, t.hand = some w → c.Private w)
    (hpublished : ∀ w, c.robot = some w → c.Published w)
    (hempty : t.emptied = true → c.robot = none) : Effect c t c' t' := by
  have hdriven : ∀ w < c.built, (c.wrapper w).down = false → (c.wrapper w).driven.misused =
      (c.wrapper w).misused := by
    intro w _ hup
    simp [Wrapper.driven, hup]
  cases h with
  | quiet b hhand hk hcalls =>
    refine .of_same rfl rfl (Nat.le_refl _) hcalls ?_ ?_ ?_ ?_
    · exact hk hknows
    · intro w hw
      rw [hhand] at hw
      exact ⟨hprivate w hw, Or.inl hw⟩
    · intro w hw
      obtain ⟨hbuilt, hgen, henabled, hconnected, hup⟩ := hpublished w hw
      exact ⟨⟨hbuilt, hgen, henabled, hconnected, hup⟩, Or.inl hw⟩
    · intro w hw
      rw [hhand]
      exact hw
  | replaces =>
    refine .of_same rfl rfl (Nat.le_refl _) ?_ trivial ?_ (by simp) (fun w hw => hw.symm.imp_left nofun)
    · rintro gen stage heq
      cases heq
      exact ⟨_, rfl⟩
    · intro w hw
      obtain ⟨hbuilt, -, -, -, hup⟩ := hpublished w hw
      exact ⟨⟨hbuilt, by simp, hup⟩, Or.inr hw⟩
  | disconnects =>
    refine .of_same rfl rfl (Nat.le_succ _) (by simp) (Nat.le_refl _) ?_ (by simp)
      (fun w hw => hw.symm.imp_left nofun)
    intro w hw
    obtain ⟨hbuilt, -, -, -, hup⟩ := hpublished w hw
    exact ⟨⟨hbuilt, by simp, hup⟩, Or.inr hw⟩
  | buries_stale =>
    refine .bury rfl ?_ trivial rfl hprivate hpublished
    rintro gen stage heq
    cases heq
    exact ⟨_, rfl⟩
  | @buries robot g =>
    refine .bury rfl (by simp) ?_ rfl hprivate hpublished
    cases robot <;> exact hknows
  | @hands_back gen w =>
    have hcalls : ∀ gen' stage, Thread.connect gen (.handing_back w) = .connect gen' stage →
        ∃ stage', Thread.connect gen (.ended true (some w)) = .connect gen' stage' := by
      rintro gen' stage heq
      cases heq
      exact ⟨_, rfl⟩
    have hdown : (Thread.connect gen (.ended true (some w))).Knows (c.bury (some w)) :=
      ⟨(hprivate w rfl).1, by simp [Shared.bury, Wrapper.disconnect]⟩
    exact (Effect.bury (t := .connect gen (.handing_back w)) rfl hcalls hdown rfl hprivate
      hpublished).flags hdown
  | @builds gen =>
    have hself : ∀ w < c.built, w ≠ c.built := fun w hw => Nat.ne_of_lt hw
    have hwrapper : ∀ w < c.built, (c.modify c.built fun _ => .init gen).wrapper w = c.wrapper w :=
      fun w hw => modify_other (hself w hw)
    exact {
      built := Nat.le_succ _
      generation := Nat.le_refl _
      down := fun w hw hdown => by rw [hwrapper w hw]; exact hdown
      gen := fun w hw => by rw [hwrapper w hw]
      others := fun w hw _ _ => hwrapper w hw
      unharmed := by
        intro w hw hmis
        rcases Nat.lt_succ_iff_lt_or_eq.1 hw with hw | rfl
        · rw [hwrapper w hw] at hmis
          exact ⟨hw, hmis⟩
        · simp [Wrapper.init] at hmis
      builder := by
        intro w hw
        rcases Nat.lt_succ_iff_lt_or_eq.1 hw with hw | rfl
        · exact Or.inl hw
        · exact Or.inr ⟨.opening c.built, by simp [Wrapper.init]⟩
      calls := by
        rintro gen' stage heq
        cases heq
        exact ⟨_, rfl⟩
      knows := by simp [Thread.Knows, Wrapper.init]
      hand := by
        rintro w hw
        obtain rfl : c.built = w := Option.some.inj hw
        refine ⟨⟨Nat.lt_succ_self _, fun hrobot => ?_, by simp [Wrapper.init]⟩,
          Or.inr (Or.inr (Nat.le_refl _))⟩
        exact Nat.lt_irrefl _ (hpublished _ hrobot).built
      robot := by
        intro w hw
        obtain ⟨hbuilt, hgen, henabled, hconnected, hup⟩ := hpublished w hw
        refine ⟨⟨Nat.lt_succ_of_lt hbuilt, ?_, ?_, ?_, ?_⟩, Or.inl hw⟩ <;> simpa [hwrapper w hbuilt]
      kept := by
        intro w hw henabled hup
        rcases Nat.lt_succ_iff_lt_or_eq.1 hw with hw | rfl
        · rw [hwrapper w hw] at henabled hup
          by_cases hrobot : c.robot = some w
          · exact Or.inl hrobot
          · exact Or.inr (Or.inr ⟨hw, henabled, hup, hrobot, by simp [Thread.hand]⟩)
        · simp [Wrapper.init] at henabled }
  | @opens gen w o =>
    refine .drive (Or.inl rfl) connect_gen connect_down connect_misused ?_ ?_ ?_ ?_ ?_ hprivate
      hpublished
    · intro henabled
      cases o <;> simp [Wrapper.connect, henabled]
    · intro hconnected
      cases o <;> simp [Wrapper.connect, hconnected]
    · rintro gen' stage heq
      cases heq
      exact ⟨_, rfl⟩
    · split
      · next ho =>
        subst ho
        have hgen : (c.wrapper w).gen = gen := hknows
        exact ⟨by simpa using hgen, by simp [Wrapper.connect], by simp [Wrapper.connect],
          by simp [Wrapper.connect]⟩
      · trivial
    · split <;> rfl
  | @grips gen w =>
    obtain ⟨hbuilt, -, hup⟩ := hprivate w rfl
    refine .drive (Or.inl rfl) rfl rfl (hdriven w hbuilt hup) (fun h => h) (fun h => h) ?_ ?_ rfl hprivate
      hpublished
    · rintro gen' stage heq
      cases heq
      exact ⟨_, rfl⟩
    · have hready : (c.wrapper w).Ready gen := hknows
      show ((c.modify w .driven).wrapper w).Ready gen
      rw [modify_self]
      exact ⟨hready.gen, hready.enabled, hready.controller, hready.connected⟩
  | @publishes gen w hgen =>
    obtain ⟨hbuilt, -, hup⟩ := hprivate w rfl
    have hready : (c.wrapper w).Ready gen := hknows
    refine .of_same rfl rfl (Nat.le_refl _) ?_ trivial (by simp [Thread.hand]) ?_ ?_
    · rintro gen' stage heq
      cases heq
      exact ⟨_, rfl⟩
    · rintro v hv
      obtain rfl : w = v := Option.some.inj hv
      exact ⟨⟨hbuilt, hready.gen.trans hgen.symm, hready.enabled, hready.connected, hup⟩,
        Or.inr ⟨rfl, rfl⟩⟩
    · -- nothing was published when this connect began to build
      rintro v (hv | hv)
      · rw [hempty rfl] at hv
        cases hv
      · exact Or.inl hv
  | @operates w stage stage' hrobot =>
    obtain ⟨hbuilt, -, -, -, hup⟩ := hpublished w hrobot
    exact .drive (Or.inr ⟨rfl, hrobot⟩) rfl rfl (hdriven w hbuilt hup) (fun h => h) (fun h => h)
      (by simp) trivial rfl hprivate hpublished
  | @torques enable o low =>
    unfold Shared.set_torque
    split
    · next hnone =>
      refine .of_same rfl rfl (Nat.le_refl _) (by simp) trivial (by simp [Thread.hand]) ?_ ?_
      · intro w hw
        rw [hnone] at hw
        cases hw
      · simp [hnone, Thread.hand]
    · next w hrobot =>
      obtain ⟨hbuilt, -, -, -, hup⟩ := hpublished w hrobot
      obtain ⟨hgen, hdown, hmis, hconnected, henabled⟩ :=
        @set_torque_frame (c.wrapper w).driven enable o low
      have hdrive : Effect c (.set_torque enable .locked)
          (c.modify w fun x => x.driven.set_torque enable o low) (.set_torque enable .ended) :=
        .drive (Or.inr ⟨rfl, hrobot⟩) hgen hdown (hmis.trans (hdriven w hbuilt hup)) henabled
          (fun h => hconnected.trans h) (by simp) trivial rfl hprivate hpublished
      exact hdrive.flags trivial

/-- The lock is held by the thread in `connect` that is past it, and nothing is published then until
    this thread does. -/
theorem moved_lock (h : Moved c t c' t') (hlock : t.locked = true → c.connect_lock = true)
    (hempty : t.emptied = true → c.robot = none) :
    (t'.locked = true → c'.connect_lock = true ∧ (t.locked = true ∨ c.connect_lock = false)) ∧
    (c.connect_lock = true → c'.connect_lock = true ∨ t.locked = true) ∧
    (t'.emptied = true → c'.robot = none) := by
  have hbury : ∀ robot, (c.bury robot).connect_lock = c.connect_lock ∧
      (c.bury robot).robot = c.robot := by
    rintro (_ | w) <;> exact ⟨rfl, rfl⟩
  cases h with
  | quiet b _ _ _ hemptied hkeeps hlocked =>
    refine ⟨fun ht' => ?_, hkeeps, fun ht' => hempty (hemptied ht')⟩
    rcases hlocked ht' with h | ⟨rfl, ht⟩
    · exact h
    · exact ⟨hlock ht, Or.inl ht⟩
  | replaces => exact ⟨fun _ => ⟨hlock rfl, Or.inl rfl⟩, Or.inl, fun _ => rfl⟩
  | disconnects => exact ⟨by simp [Thread.locked], Or.inl, by simp [Thread.emptied]⟩
  | @buries_stale gen stale =>
    rw [(hbury stale).1, (hbury stale).2]
    exact ⟨fun _ => ⟨hlock rfl, Or.inl rfl⟩, Or.inl, fun _ => hempty rfl⟩
  | @buries robot g =>
    rw [(hbury robot).1]
    exact ⟨by simp [Thread.locked], Or.inl, by simp [Thread.emptied]⟩
  | hands_back => exact ⟨by simp [Thread.locked], fun _ => Or.inr rfl, by simp [Thread.emptied]⟩
  | builds => exact ⟨fun _ => ⟨hlock rfl, Or.inl rfl⟩, Or.inl, fun _ => hempty rfl⟩
  | opens => exact ⟨fun _ => ⟨hlock rfl, Or.inl rfl⟩, Or.inl, fun _ => hempty rfl⟩
  | grips => exact ⟨fun _ => ⟨hlock rfl, Or.inl rfl⟩, Or.inl, fun _ => hempty rfl⟩
  | publishes => exact ⟨fun _ => ⟨hlock rfl, Or.inl rfl⟩, Or.inl, by simp [Thread.emptied]⟩
  | operates => exact ⟨by simp [Thread.locked], Or.inl, by simp [Thread.emptied]⟩
  | torques =>
    unfold Shared.set_torque
    split <;> exact ⟨by simp [Thread.locked], Or.inl, by simp [Thread.emptied]⟩

/-- What others know of their wrappers stays. -/
theorem Effect.knows_other (h : Effect c t c' t') {u : Thread} (hu : u.Knows c)
    (hprivate : ∀ w, u.hand = some w → c.Private w) (halone : ∀ w, u.hand = some w → t.hand ≠ some w) :
    u.Knows c' := by
  have hsame : ∀ w, u.hand = some w → c'.wrapper w = c.wrapper w := fun w hw =>
    h.others w (hprivate w hw).1 (halone w hw) (hprivate w hw).2.1
  have hgeneration := h.generation
  rcases u with ⟨gen, stage⟩ | stage | _ | _
  · cases stage with
    | opening w => exact (congrArg Wrapper.gen (hsame w rfl)).trans hu
    | gripping w => simpa only [Thread.Knows, hsame w rfl] using hu
    | publishing w => simpa only [Thread.Knows, hsame w rfl] using hu
    | ended raised built =>
      cases raised <;> cases built
      case true.some w => exact ⟨Nat.lt_of_lt_of_le hu.1 h.built, h.down w hu.1 hu.2⟩
      all_goals trivial
    | _ => trivial
  · cases stage with
    | called => trivial
    | _ => exact Nat.le_trans hu hgeneration
  · trivial
  · trivial

end

/-! ### Runs -/

/-- The condition on a step: a `set_torque(True)` that gets the lock finds a published wrapper, and its
    own `set_torque` does not raise, or does so before it drops a controller that runs; and a
    `disconnect()` does not return while another one has a wrapper of its generation or before in its
    hands that it has not disconnected. -/
def owned (c : State) : Label → Bool
  | .call _ => true
  | .go i o _ => match c.threads[i]? with
    | some (.set_torque true .locked) => match c.shared.robot with
      | none => false
      | some w => o = .ok || (o ≠ .start_raises && (c.shared.wrapper w).controller)
    | some (.disconnect (.returning g)) => c.threads.all fun t => match t with
      | .disconnect (.taken (some w) _) => g ≤ (c.shared.wrapper w).gen
      | _ => true
    | _ => true

structure Inv (c : State) : Prop where
  knows : ∀ (i : ℕ) t, c.threads[i]? = some t → t.Knows c.shared
  hand : ∀ (i : ℕ) t w, c.threads[i]? = some t → t.hand = some w → c.shared.Private w
  alone : ∀ (i j : ℕ) t u w, c.threads[i]? = some t → c.threads[j]? = some u → t.hand = some w →
    u.hand = some w → i = j
  published : ∀ w, c.shared.robot = some w → c.shared.Published w
  locked : ∀ (i : ℕ) t, c.threads[i]? = some t → t.locked = true → c.shared.connect_lock = true
  one_lock : ∀ (i j : ℕ) t u, c.threads[i]? = some t → c.threads[j]? = some u → t.locked = true →
    u.locked = true → i = j
  emptied : ∀ (i : ℕ) t, c.threads[i]? = some t → t.emptied = true → c.shared.robot = none
  kept : ∀ w < c.shared.built, (c.shared.wrapper w).enabled = true →
    (c.shared.wrapper w).down = false →
    c.shared.robot = some w ∨ ∃ (i : ℕ) (t : Thread), c.threads[i]? = some t ∧ t.hand = some w
  unharmed : ∀ w < c.shared.built, (c.shared.wrapper w).misused = false
  builder : ∀ w < c.shared.built,
    ∃ (i : ℕ) (stage : Connect), c.threads[i]? = some (.connect (c.shared.wrapper w).gen stage)

theorem emptied_locked {t : Thread} (h : t.emptied = true) : t.locked = true := by
  rcases t with ⟨gen, stage⟩ | _ | _ | _
  · cases stage <;> first | rfl | cases h
  all_goals cases h

section
variable {c : State} {s : Shared} {i : ℕ} {t t' : Thread}

theorem inv_init : Inv State.init where
  knows := by simp [State.init]
  hand := by simp [State.init]
  alone := by simp [State.init]
  published := by simp [State.init, Shared.init]
  locked := by simp [State.init]
  one_lock := by simp [State.init]
  emptied := by simp [State.init]
  kept := by simp [State.init, Shared.init]
  unharmed := by simp [State.init, Shared.init]
  builder := by simp [State.init, Shared.init]

/-- A thread that begins has nothing. -/
theorem Inv.begin (h : Inv c) (call : Call) :
    Inv { c with threads := c.threads ++ [call.thread c.shared] } := by
  have hnew : (call.thread c.shared).Knows c.shared ∧ (call.thread c.shared).hand = none ∧
      (call.thread c.shared).locked = false := by
    cases call <;> exact ⟨trivial, rfl, rfl⟩
  obtain ⟨hknows, hhand, hlocked⟩ := hnew
  have hheld : ∀ {j : ℕ} {u : Thread} {w : ℕ}, (c.threads ++ [call.thread c.shared])[j]? = some u → u.hand = some w →
      c.threads[j]? = some u := by
    intro j u w hj hw
    rcases get_concat_iff.1 hj with hj | ⟨-, rfl⟩
    · exact hj
    · rw [hhand] at hw
      cases hw
  have hold : ∀ {j : ℕ} {u : Thread}, (c.threads ++ [call.thread c.shared])[j]? = some u → u.locked = true →
      c.threads[j]? = some u := by
    intro j u hj hu
    rcases get_concat_iff.1 hj with hj | ⟨-, rfl⟩
    · exact hj
    · rw [hlocked] at hu
      cases hu
  exact {
    knows := by
      intro j u hj
      rcases get_concat_iff.1 hj with hj | ⟨-, rfl⟩
      · exact h.knows j u hj
      · exact hknows
    hand := fun j u w hj hw => h.hand j u w (hheld hj hw) hw
    alone := fun j k u v w hj hk hu hv => h.alone j k u v w (hheld hj hu) (hheld hk hv) hu hv
    published := h.published
    locked := fun j u hj hu => h.locked j u (hold hj hu) hu
    one_lock := fun j k u v hj hk hu hv => h.one_lock j k u v (hold hj hu) (hold hk hv) hu hv
    emptied := fun j u hj hu => h.emptied j u (hold hj (emptied_locked hu)) hu
    kept := by
      intro w hw henabled hup
      refine (h.kept w hw henabled hup).imp_right ?_
      rintro ⟨j, u, hj, hu⟩
      exact ⟨j, u, get_concat_iff.2 (Or.inl hj), hu⟩
    unharmed := h.unharmed
    builder := by
      intro w hw
      obtain ⟨j, stage, hj⟩ := h.builder w hw
      exact ⟨j, stage, get_concat_iff.2 (Or.inl hj)⟩ }

theorem Inv.moved (h : Inv c) (hi : c.threads[i]? = some t) (hm : Moved c.shared t s t') :
    Inv ⟨s, c.threads.set i t'⟩ := by
  have heffect : Effect c.shared t s t' :=
    moved_effect hm (h.knows i t hi) (fun w hw => h.hand i t w hi hw) h.published (h.emptied i t hi)
  obtain ⟨hlock, hkeeps, hempty⟩ := moved_lock hm (h.locked i t hi) (h.emptied i t hi)
  have halone : ∀ {j : ℕ} {u : Thread} {w : ℕ}, i ≠ j → c.threads[j]? = some u → u.hand = some w → t.hand ≠ some w :=
    fun hne hj hu ht => hne (h.alone _ _ _ _ _ hi hj ht hu)
  have hother : ∀ {j : ℕ} {u : Thread}, i ≠ j → c.threads[j]? = some u → u.locked = true → t.locked = false := by
    intro j u hne hj hu
    by_contra ht
    exact hne (h.one_lock i j t u hi hj (by simpa using ht) hu)
  exact {
    knows := by
      intro j u hj
      rcases (get_set_iff hi).1 hj with ⟨rfl, rfl⟩ | ⟨hne, hj⟩
      · exact heffect.knows
      · exact heffect.knows_other (h.knows j u hj) (fun w hw => h.hand j u w hj hw)
          fun w hw => halone hne hj hw
    hand := by
      intro j u w hj hw
      rcases (get_set_iff hi).1 hj with ⟨rfl, rfl⟩ | ⟨hne, hj⟩
      · exact (heffect.hand w hw).1
      · obtain ⟨hbuilt, hrobot, hup⟩ := h.hand j u w hj hw
        have hown := halone hne hj hw
        refine ⟨Nat.lt_of_lt_of_le hbuilt heffect.built, fun hnew => ?_, ?_⟩
        · rcases (heffect.robot w hnew).2 with hold | ⟨hold, -⟩
          · exact hrobot hold
          · exact hown hold
        · rw [heffect.others w hbuilt hown hrobot, hup]
    alone := by
      have hown : ∀ {j : ℕ} {u : Thread} {w : ℕ}, i ≠ j → c.threads[j]? = some u → u.hand = some w → t'.hand ≠ some w := by
        intro j u w hne hj hu ht'
        obtain ⟨hbuilt, hrobot, -⟩ := h.hand j u w hj hu
        rcases (heffect.hand w ht').2 with ht | hpub | hnew
        · exact halone hne hj hu ht
        · exact hrobot hpub
        · exact absurd hbuilt (Nat.not_lt.2 hnew)
      intro j k u v w hj hk hu hv
      rcases (get_set_iff hi).1 hj with ⟨rfl, rfl⟩ | ⟨hnej, hj⟩ <;>
        rcases (get_set_iff hi).1 hk with ⟨rfl, rfl⟩ | ⟨hnek, hk⟩
      · rfl
      · exact absurd hu (hown hnek hk hv)
      · exact absurd hv (hown hnej hj hu)
      · exact h.alone j k u v w hj hk hu hv
    published := fun w hw => (heffect.robot w hw).1
    locked := by
      intro j u hj hu
      rcases (get_set_iff hi).1 hj with ⟨rfl, rfl⟩ | ⟨hne, hj⟩
      · exact (hlock hu).1
      · refine (hkeeps (h.locked j u hj hu)).resolve_right fun ht => ?_
        rw [hother hne hj hu] at ht
        cases ht
    one_lock := by
      have hown : ∀ {j : ℕ} {u : Thread}, i ≠ j → c.threads[j]? = some u → u.locked = true → t'.locked = false := by
        intro j u hne hj hu
        by_contra ht'
        rcases (hlock (by simpa using ht')).2 with ht | hfree
        · rw [hother hne hj hu] at ht
          cases ht
        · rw [h.locked j u hj hu] at hfree
          cases hfree
      intro j k u v hj hk hu hv
      rcases (get_set_iff hi).1 hj with ⟨rfl, rfl⟩ | ⟨hnej, hj⟩ <;>
        rcases (get_set_iff hi).1 hk with ⟨rfl, rfl⟩ | ⟨hnek, hk⟩
      · rfl
      · rw [hown hnek hk hv] at hu
        cases hu
      · rw [hown hnej hj hu] at hv
        cases hv
      · exact h.one_lock j k u v hj hk hu hv
    emptied := by
      intro j u hj hu
      rcases (get_set_iff hi).1 hj with ⟨rfl, rfl⟩ | ⟨hne, hj⟩
      · exact hempty hu
      · refine Option.eq_none_iff_forall_ne_some.2 fun w hw => ?_
        rcases (heffect.robot w hw).2 with hold | ⟨-, ht⟩
        · rw [h.emptied j u hj hu] at hold
          cases hold
        · rw [hother hne hj (emptied_locked hu)] at ht
          cases ht
    kept := by
      intro w hw henabled hup
      rcases heffect.kept w hw henabled hup with hrobot | ht' | ⟨hbuilt, henabled, hup, hrobot, ht⟩
      · exact Or.inl hrobot
      · exact Or.inr ⟨i, t', (get_set_iff hi).2 (Or.inl ⟨rfl, rfl⟩), ht'⟩
      · rcases h.kept w hbuilt henabled hup with hpub | ⟨j, u, hj, hu⟩
        · exact absurd hpub hrobot
        · refine Or.inr ⟨j, u, (get_set_iff hi).2 (Or.inr ⟨?_, hj⟩), hu⟩
          rintro rfl
          obtain rfl : t = u := Option.some.inj (hi.symm.trans hj)
          exact ht hu
    unharmed := by
      intro w hw
      by_contra hmis
      obtain ⟨hbuilt, hold⟩ := heffect.unharmed w hw (by simpa using hmis)
      rw [h.unharmed w hbuilt] at hold
      cases hold
    builder := by
      intro w hw
      rcases heffect.builder w hw with hbuilt | ⟨stage, rfl⟩
      · obtain ⟨j, stage, hj⟩ := h.builder w hbuilt
        rw [heffect.gen w hbuilt]
        by_cases hji : i = j
        · subst hji
          obtain rfl : t = _ := Option.some.inj (hi.symm.trans hj)
          obtain ⟨stage', rfl⟩ := heffect.calls _ _ rfl
          exact ⟨i, stage', (get_set_iff hi).2 (Or.inl ⟨rfl, rfl⟩)⟩
        · exact ⟨j, stage, (get_set_iff hi).2 (Or.inr ⟨hji, hj⟩)⟩
      · exact ⟨i, stage, (get_set_iff hi).2 (Or.inl ⟨rfl, rfl⟩)⟩ }

theorem inv_step {c' : State} {a : Label} (h : Inv c) (hstep : step c a c') : Inv c' := by
  cases a with
  | call call =>
    obtain rfl := Option.some.inj hstep
    exact h.begin call
  | go i o low =>
    simp only [step, State.next, Option.bind_eq_bind, Option.bind_eq_some_iff] at hstep
    obtain ⟨t, hi, ⟨s, t'⟩, ht, heq⟩ := hstep
    obtain rfl := Option.some.inj heq
    exact h.moved hi (moved_step ht)

end

/-! ### The torque -/

/-- The torque is only on while the published wrapper has a controller that runs. -/
def Shared.Controlled (c : Shared) : Prop :=
  c.torque_on = true → ∃ w, c.robot = some w ∧ (c.wrapper w).controller = true

section
variable {c c' : Shared} {t t' : Thread}

/-- The section of `set_torque` on a published wrapper, where the condition holds. -/
theorem Shared.Controlled.set_torque {enable : Bool} {o low : Sdk}
    (hpublished : ∀ w, c.robot = some w → c.Published w)
    (howned : enable = true → ∃ w, c.robot = some w ∧
      (o = .ok ∨ o ≠ .start_raises ∧ (c.wrapper w).controller = true)) :
    (c.set_torque enable o low).Controlled := by
  intro hon
  unfold Shared.set_torque at hon ⊢
  cases hrobot : c.robot with
  | none =>
    rw [hrobot] at hon
    obtain ⟨w, hw, -⟩ := howned hon
    rw [hrobot] at hw
    cases hw
  | some w =>
    rw [hrobot] at hon
    obtain ⟨v, hv, ho⟩ := howned hon
    obtain rfl : w = v := Option.some.inj (hrobot.symm.trans hv)
    obtain rfl : enable = true := hon
    have hconnected : (c.wrapper w).driven.connected = true := (hpublished w hrobot).connected
    refine ⟨w, hrobot, ?_⟩
    show ((c.modify w fun x => x.driven.set_torque true o low).wrapper w).controller = true
    rw [modify_self]
    rcases ho with rfl | ⟨hne, hcontroller⟩
    · simp [Wrapper.set_torque, hconnected]
    · have hcontroller : (c.wrapper w).driven.controller = true := hcontroller
      cases o <;> simp_all [Wrapper.set_torque]

/-- The other steps leave the controller of the published wrapper. -/
theorem Shared.Controlled.moved (h : c.Controlled) (hm : Moved c t c' t') (hknows : t.Knows c)
    (hhand : ∀ w, t.hand = some w → c.Private w) (hpublished : ∀ w, c.robot = some w → c.Published w)
    (hno : ∀ enable, t ≠ .set_torque enable .locked) : c'.Controlled := by
  -- what the thread has is not the published wrapper
  have hmodify : ∀ w f, t.hand = some w → (c.modify w f).Controlled := by
    intro w f hw hon
    obtain ⟨v, hv, hcontroller⟩ := h hon
    refine ⟨v, hv, ?_⟩
    rw [modify_other]
    · exact hcontroller
    · rintro rfl
      exact (hhand v hw).2.1 hv
  have hbury : ∀ robot, t.hand = robot → (c.bury robot).Controlled := by
    rintro (_ | w) hw
    · exact h
    · exact hmodify w _ hw
  cases hm with
  | quiet => exact h
  | replaces => nofun
  | disconnects => nofun
  | buries_stale => exact hbury _ rfl
  | buries => exact hbury _ rfl
  | hands_back => exact hbury _ rfl
  | builds =>
    intro hon
    obtain ⟨v, hv, hcontroller⟩ := h hon
    refine ⟨v, hv, ?_⟩
    show ((c.modify c.built fun _ => .init _).wrapper v).controller = true
    rw [modify_other (Nat.ne_of_lt (hpublished v hv).built)]
    exact hcontroller
  | opens => exact hmodify _ _ rfl
  | grips => exact hmodify _ _ rfl
  | @publishes gen w =>
    have hready : (c.wrapper w).Ready gen := hknows
    exact fun _ => ⟨w, rfl, hready.controller⟩
  | @operates w _ _ hrobot =>
    intro hon
    obtain ⟨v, hv, hcontroller⟩ := h hon
    obtain rfl : w = v := Option.some.inj (hrobot.symm.trans hv)
    exact ⟨w, hrobot, by rw [modify_self]; exact hcontroller⟩
  | torques => exact absurd rfl (hno _)

end

/-! ### Returned disconnects -/

/-- Once a `disconnect()` has returned, others only have wrappers of later calls of `connect()` to
    disconnect. -/
def After (c : State) : Prop :=
  ∀ (i j : ℕ) g w g', c.threads[i]? = some (.disconnect (.ended g)) →
    c.threads[j]? = some (.disconnect (.taken (some w) g')) → g ≤ (c.shared.wrapper w).gen

section
variable {c c' : Shared} {t : Thread} {o low : Sdk} {g : ℕ}

theorem step_ended (h : t.step c o low = some (c', .disconnect (.ended g))) :
    t = .disconnect (.returning g) := by
  cases t with
  | disconnect stage =>
    obtain ⟨⟨d, stage'⟩, hstep, hr⟩ := Option.map_eq_some_iff.1 h
    cases hr
    cases stage <;> cases hstep
    rfl
  | _ =>
    obtain ⟨r, -, hr⟩ := Option.map_eq_some_iff.1 h
    cases hr

theorem step_taken {robot : Option ℕ} (h : t.step c o low = some (c', .disconnect (.taken robot g))) :
    robot = c.robot := by
  cases t with
  | disconnect stage =>
    obtain ⟨⟨d, stage'⟩, hstep, hr⟩ := Option.map_eq_some_iff.1 h
    cases hr
    cases stage <;> cases hstep
    rfl
  | _ =>
    obtain ⟨r, -, hr⟩ := Option.map_eq_some_iff.1 h
    cases hr

end

theorem After.step {c c' : State} {a : Label} (h : After c) (hinv : Inv c) (hstep : step c a c')
    (howned : owned c a = true) : After c' := by
  cases a with
  | call call =>
    obtain rfl := Option.some.inj hstep
    have hold : ∀ (i : ℕ) stage,
        (c.threads ++ [call.thread c.shared])[i]? = some (.disconnect stage) → stage ≠ .called →
        c.threads[i]? = some (.disconnect stage) := by
      intro i stage hi hne
      rcases get_concat_iff.1 hi with hi | ⟨-, hnew⟩
      · exact hi
      · cases call <;> cases hnew
        exact absurd rfl hne
    exact fun i j g w g' hi hj =>
      h i j g w g' (hold i _ hi Disconnect.noConfusion) (hold j _ hj Disconnect.noConfusion)
  | go k o low =>
    simp only [RebotArm.step, State.next, Option.bind_eq_bind, Option.bind_eq_some_iff] at hstep
    obtain ⟨t, hk, ⟨s, t'⟩, ht, heq⟩ := hstep
    obtain rfl := Option.some.inj heq
    have heffect := moved_effect (moved_step ht) (hinv.knows k t hk)
      (fun w hw => hinv.hand k t w hk hw) hinv.published (hinv.emptied k t hk)
    intro i j g w g' hi hj
    rcases (get_set_iff hk).1 hj with ⟨rfl, rfl⟩ | ⟨-, hj'⟩
    · -- it has just been taken, so it was published in this generation
      have hpub : c.shared.robot = some w := (step_taken ht).symm
      obtain ⟨hbuilt, hgen, -⟩ := hinv.published w hpub
      rcases (get_set_iff hk).1 hi with ⟨-, heq⟩ | ⟨-, hi⟩
      · cases heq
      · have hle : g ≤ c.shared.generation := hinv.knows i _ hi
        rw [heffect.gen w hbuilt, hgen]
        exact hle
    · have hbuilt := (hinv.hand j _ w hj' rfl).1
      rw [heffect.gen w hbuilt]
      rcases (get_set_iff hk).1 hi with ⟨rfl, rfl⟩ | ⟨-, hi'⟩
      · obtain rfl := step_ended ht
        simp only [owned, hk, List.all_eq_true] at howned
        simpa using howned _ (List.mem_of_getElem? hj')
      · exact h i j g w g' hi' hj'

/-! ### The arm -/

/-- What `_torque_state` says holds of the arm, and no wrapper is driven once it is down. -/
structure Shared.Honest (c : Shared) : Prop where
  torque : c.torque_on = true →
    ∃ w, c.robot = some w ∧ (c.wrapper w).enabled = true ∧ (c.wrapper w).controller = true
  unharmed : ∀ w < c.built, (c.wrapper w).misused = false

/-- Every wrapper whose motors were enabled is published, is in the hands of a thread that goes on, or
    is down. What a `connect()` built that raised is down; and when a `disconnect()` has returned,
    nothing was called `connect()` since it began, and the calls from before have ended, nothing is
    published and all are down. -/
structure State.Accounted (c : State) : Prop where
  owner : ∀ w < c.shared.built, (c.shared.wrapper w).enabled = true →
    (c.shared.wrapper w).down = true ∨ c.shared.robot = some w ∨ ∃ t ∈ c.threads, t.hand = some w
  raised : ∀ gen w, .connect gen (.ended true (some w)) ∈ c.threads → (c.shared.wrapper w).down = true
  returned : ∀ g, .disconnect (.ended g) ∈ c.threads →
    (∀ gen stage, .connect gen stage ∈ c.threads →
      gen < g ∧ ∃ raised built, stage = .ended raised built) →
    c.shared.robot = none ∧
      ∀ w < c.shared.built, (c.shared.wrapper w).enabled = true → (c.shared.wrapper w).down = true

theorem Inv.accounted {c : State} (h : Inv c) (hafter : After c) : c.Accounted where
  owner := by
    intro w hw henabled
    by_cases hup : (c.shared.wrapper w).down = true
    · exact Or.inl hup
    · refine Or.inr ((h.kept w hw henabled (by simpa using hup)).imp_right ?_)
      rintro ⟨i, t, hi, ht⟩
      exact ⟨t, List.mem_of_getElem? hi, ht⟩
  raised := by
    intro gen w ht
    obtain ⟨i, hi⟩ := List.mem_iff_getElem?.1 ht
    exact (h.knows i _ hi).2
  returned := by
    intro g hg hconnects
    obtain ⟨i, hi⟩ := List.mem_iff_getElem?.1 hg
    have hold : ∀ w < c.shared.built, (c.shared.wrapper w).gen < g := by
      intro w hw
      obtain ⟨j, stage, hj⟩ := h.builder w hw
      exact (hconnects _ _ (List.mem_of_getElem? hj)).1
    have hle : g ≤ c.shared.generation := h.knows i _ hi
    have hrobot : c.shared.robot = none := by
      refine Option.eq_none_iff_forall_ne_some.2 fun w hw => ?_
      obtain ⟨hbuilt, hgen, -⟩ := h.published w hw
      have hlt := hold w hbuilt
      omega
    refine ⟨hrobot, fun w hw henabled => ?_⟩
    by_contra hup
    rcases h.kept w hw henabled (by simpa using hup) with hpub | ⟨j, t, hj, ht⟩
    · rw [hrobot] at hpub
      cases hpub
    · have hlt := hold w hw
      rcases t with ⟨gen, stage⟩ | stage | _ | _
      · obtain ⟨-, raised, built, rfl⟩ := hconnects gen stage (List.mem_of_getElem? hj)
        cases ht
      · cases stage with
        | taken robot g' =>
          obtain rfl : robot = some w := ht
          have hlate := hafter i j g w g' hi hj
          omega
        | _ => cases ht
      all_goals cases ht

/-- In every run whose steps all meet the condition, the arm is owned. -/
theorem arm_owned {as : List Label} {c : State}
    (hrun : Run (restrict (fun c a => owned c a = true) step) State.init as c) :
    c.shared.Honest ∧ c.Accounted := by
  have hkept : Inv c ∧ c.shared.Controlled ∧ After c := by
    refine Run.invariant (I := fun c => Inv c ∧ c.shared.Controlled ∧ After c) ?_
      ⟨inv_init, nofun, by simp [After, State.init]⟩ hrun
    rintro c a c' ⟨hinv, htorque, hafter⟩ ⟨howned, hstep⟩
    refine ⟨inv_step hinv hstep, ?_, hafter.step hinv hstep howned⟩
    cases a with
    | call call =>
      obtain rfl := Option.some.inj hstep
      exact htorque
    | go i o low =>
      simp only [step, State.next, Option.bind_eq_bind, Option.bind_eq_some_iff] at hstep
      obtain ⟨t, hi, ⟨s, t'⟩, ht, heq⟩ := hstep
      obtain rfl := Option.some.inj heq
      by_cases hsection : ∃ enable, t = .set_torque enable .locked
      · obtain ⟨enable, rfl⟩ := hsection
        cases ht
        refine Shared.Controlled.set_torque hinv.published fun hon => ?_
        subst hon
        simp only [owned, hi] at howned
        split at howned
        · cases howned
        · next w hw => exact ⟨w, hw, by simpa using howned⟩
      · exact htorque.moved (moved_step ht) (hinv.knows i t hi) (fun w hw => hinv.hand i t w hi hw)
          hinv.published fun enable heq => hsection ⟨enable, heq⟩
  obtain ⟨hinv, htorque, hafter⟩ := hkept
  refine ⟨⟨fun hon => ?_, hinv.unharmed⟩, hinv.accounted hafter⟩
  obtain ⟨w, hw, hcontroller⟩ := htorque hon
  exact ⟨w, hw, (hinv.published w hw).enabled, hcontroller⟩

/-- `connect()`, as the only thread, up to its end. -/
def connects : List Label := .call .connect :: List.replicate 10 (.go 0 .ok .ok)

/-- The torque is turned off and on, and the arm is disconnected. -/
theorem arm_owned_off_and_on : ∃ c : State, c.shared.Honest ∧ c.Accounted ∧ c.shared.built = 1 := by
  obtain ⟨c, hrun, hc⟩ := Run.of_replay_any
    (fun c a => if owned c a = true then c.next a else none) State.init
    (connects ++ [.call (.set_torque false), .go 1 .ok .ok, .go 1 .ok .ok, .call (.set_torque true),
      .go 2 .ok .ok, .go 2 .ok .ok, .call .disconnect, .go 3 .ok .ok, .go 3 .ok .ok, .go 3 .ok .ok])
    (fun c => c.shared.built = 1) (by decide +kernel)
  obtain ⟨hhonest, haccounted⟩ := arm_owned (Run.restrict_mono hrun)
  exact ⟨c, hhonest, haccounted, of_decide_eq_true hc⟩

/-- `set_torque(True)` whose controller does not start reports the torque as on; so does one that gets
    the lock after a `disconnect()`; and a second `disconnect()` returns before the first one has
    disconnected the wrapper. -/
theorem energised_unowned :
    (¬ ∀ as c, Run step State.init as c → c.shared.torque_on = true →
      ∃ w, c.shared.robot = some w ∧ (c.shared.wrapper w).controller = true) ∧
    (¬ ∀ as c, Run step State.init as c → c.shared.torque_on = true → c.shared.robot ≠ none) ∧
    ¬ ∀ as c, Run step State.init as c → c.Accounted := by
  refine ⟨fun hall => ?_, fun hall => ?_, fun hall => ?_⟩
  · obtain ⟨c, hrun, hc⟩ := Run.of_replay_any State.next State.init
      (connects ++ [.call (.set_torque true), .go 1 .ok .ok, .go 1 .start_raises .ok])
      (fun c => c.shared.torque_on && c.shared.robot = some 0 && !(c.shared.wrapper 0).controller)
      (by decide +kernel)
    simp only [Bool.and_eq_true, decide_eq_true_eq, Bool.not_eq_true'] at hc
    obtain ⟨⟨hon, hrobot⟩, hcontroller⟩ := hc
    obtain ⟨w, hw, hrunning⟩ := hall _ c hrun hon
    obtain rfl : 0 = w := Option.some.inj (hrobot.symm.trans hw)
    rw [hcontroller] at hrunning
    cases hrunning
  · obtain ⟨c, hrun, hc⟩ := Run.of_replay_any State.next State.init
      (connects ++ [.call (.set_torque true), .go 1 .ok .ok, .call .disconnect, .go 2 .ok .ok,
        .go 1 .ok .ok])
      (fun c => c.shared.torque_on && decide (c.shared.robot = none)) (by decide +kernel)
    simp only [Bool.and_eq_true, decide_eq_true_eq] at hc
    exact hall _ c hrun hc.1 hc.2
  · obtain ⟨c, hrun, hc⟩ := Run.of_replay_any State.next State.init
      (connects ++ [.call .disconnect, .call .disconnect, .go 1 .ok .ok, .go 2 .ok .ok, .go 2 .ok .ok,
        .go 2 .ok .ok])
      (fun c => decide (c.threads = [.connect 0 (.ended false (some 0)),
          .disconnect (.taken (some 0) 1), .disconnect (.ended 2)]) &&
        decide (0 < c.shared.built) && (c.shared.wrapper 0).enabled && !(c.shared.wrapper 0).down)
      (by decide +kernel)
    simp only [Bool.and_eq_true, decide_eq_true_eq, Bool.not_eq_true'] at hc
    obtain ⟨⟨⟨hthreads, hbuilt⟩, henabled⟩, hup⟩ := hc
    have hreturned := (hall _ c hrun).returned 2 (by simp [hthreads])
      (by simp +contextual [hthreads])
    rw [hreturned.2 0 hbuilt henabled] at hup
    cases hup

end LocalVoice.RebotArm
