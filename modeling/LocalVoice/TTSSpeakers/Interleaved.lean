import LocalVoice.Lib.Run
import LocalVoice.Lib.Tasks
import LocalVoice.TTSSpeakers.Visible

/-! Lookups and registrations on several threads. A lookup checks the cache, reads the file and stores
    its table in three steps; a registration writes the file under the file lock and drops the
    model's table in a second step. A lookup that reads before the one and stores after the other
    leaves the table of the old file in the cache:

        lookup:        check ── read ────────────────────────────── store
        registration:                 write ──── invalidate -/

namespace LocalVoice.TTSSpeakers
open LocalVoice.Lib

inductive LookupStage where
  | started
  | missed
  | read (table : Table)
  | returned

inductive RegisterStage where
  | started
  | written
  | refused
  | returned

/-- A call of `_load_speaker_map`, with the canonical model id, or of `register_speaker`. -/
inductive Thread where
  | lookup (model_id : String) (stage : LookupStage)
  | register (r : Registration) (created : String) (stage : RegisterStage)

/-- If the thread is a lookup, and the model id it goes by. -/
def Thread.who : Thread → Bool × String
  | .lookup model_id _ => (true, model_id)
  | .register r _ _ => (false, r.model_id)

def Thread.done : Thread → Bool
  | .lookup _ .returned | .register _ _ .refused | .register _ _ .returned => true
  | _ => false

/-- The module's state and the calls, numbered as they come. -/
structure Shared where
  reg : Registry
  threads : List Thread

inductive Op where
  | lookup (model_id : String)
  | check (l : ℕ)
  | read (l : ℕ)
  | store (l : ℕ)
  | register (r : Registration) (created : String)
  | write (i : ℕ)
  | refuse (i : ℕ)
  | invalidate (i : ℕ)

/-- The id `choose_id` gives when it does not refuse; its own lookup is one of the lookups. -/
def pick_id (d : FileData) (r : Registration) : ℤ :=
  r.speaker_id.getD (max (max_of (existing_ids d r.model_id) + 1) 10000)

/-- A call of `register_speaker` writes what the step of a thread does. -/
theorem register_writes {s t : Registry} {r : Registration} {created : String} {spec : SpeakerSpec}
    (h : s.register_speaker r created = .ok (spec, t)) :
    ∃ d, read_speaker_file_for_update s.file = .ok d ∧ spec = r.spec created (pick_id d r) ∧
      t.file = write_json (put d r.model_id spec) := by
  obtain ⟨_, _, h⟩ := bind_eq_ok.1 h
  obtain ⟨d, hread, h⟩ := bind_eq_ok.1 h
  obtain ⟨⟨id, s'⟩, hid, h⟩ := bind_eq_ok.1 h
  obtain ⟨rfl, rfl⟩ := Prod.mk.inj (Except.ok.inj h)
  have hpick : id = pick_id d r := by
    rw [pick_id]
    cases hsid : r.speaker_id with
    | none =>
      rw [hsid] at hid
      exact (Prod.mk.inj (Except.ok.inj hid)).1.symm
    | some sid =>
      rw [hsid, Registry.choose_id] at hid
      split at hid
      · obtain ⟨p, _, hrest⟩ := bind_eq_ok.1 hid
        split at hrest
        · cases hrest
        · exact (Prod.mk.inj (Except.ok.inj hrest)).1.symm
      · exact (Prod.mk.inj (Except.ok.inj hid)).1.symm
  exact ⟨d, hread, congrArg _ hpick, rfl⟩

def Shared.go (s : Shared) (i : ℕ) (reg : Registry) (t : Thread) : Shared :=
  ⟨reg, s.threads.set i t⟩

def Shared.step (s : Shared) : Op → Option Shared
  | .lookup model_id =>
    some ⟨s.reg, s.threads ++ [.lookup (canonical_model_id model_id) .started]⟩
  | .check l =>
    match s.threads[l]? with
    | some (.lookup c .started) =>
      some (s.go l s.reg (.lookup c (if (s.reg.cache c).isSome then .returned else .missed)))
    | _ => none
  | .read l =>
    match s.threads[l]? with
    | some (.lookup c .missed) =>
      match s.reg.build c with
      | .ok table => some (s.go l s.reg (.lookup c (.read table)))
      | .error _ => some (s.go l s.reg (.lookup c .returned))
    | _ => none
  | .store l =>
    match s.threads[l]? with
    | some (.lookup c (.read table)) =>
      some (s.go l { s.reg with cache := Function.update s.reg.cache c (some table) }
        (.lookup c .returned))
    | _ => none
  | .register r created =>
    match validate_embedding_payload r.payload with
    | .ok _ => some ⟨s.reg, s.threads ++ [.register r created .started]⟩
    | .error _ => none
  | .write i =>
    match s.threads[i]?, read_speaker_file_for_update s.reg.file with
    | some (.register r created .started), .ok d =>
      some (s.go i { s.reg with
          file := write_json (put d r.model_id (r.spec created (pick_id d r))) }
        (.register r created .written))
    | _, _ => none
  | .refuse i =>
    match s.threads[i]? with
    | some (.register r created .started) => some (s.go i s.reg (.register r created .refused))
    | _ => none
  | .invalidate i =>
    match s.threads[i]? with
    | some (.register r created .written) =>
      some (s.go i { s.reg with cache := Function.update s.reg.cache r.model_id none }
        (.register r created .returned))
    | _ => none

/-- `SharedRuns reg ops s`: some interleaving of calls leads from `reg` to `s`. -/
def SharedRuns (reg : Registry) (ops : List Op) (s : Shared) : Prop :=
  Run (fun s op t => Shared.step s op = some t) ⟨reg, []⟩ ops s

/-- A lookup of the model has read the file before a registration of the model wrote it, and stored
    its table after the cache was invalidated. -/
def Straddled (c : String) (ops : List Op) (s : Shared) : Prop :=
  ∃ l i, (s.threads[l]?).map Thread.who = some (true, c) ∧
    (s.threads[i]?).map Thread.who = some (false, c) ∧
    [.read l, .write i, .invalidate i, .store l].Sublist ops

/-- A registration of the model has written the file, and may or must still invalidate the cache. -/
def Registering (c : String) (i : ℕ) (stage : RegisterStage) (s : Shared) : Prop :=
  ∃ r created, s.threads[i]? = some (.register r created stage) ∧ r.model_id = c

/-- No thread has become another one. -/
def Stay (s s' : Shared) : Prop :=
  ∀ (j : ℕ) (w : Bool × String), (s.threads[j]?).map Thread.who = some w →
    (s'.threads[j]?).map Thread.who = some w

/-- The invariant about the table of model `c`. -/
structure UpToDate (c : String) (ops : List Op) (s : Shared) : Prop where
  spelled : s.reg.file.Spelled
  valid : ∀ (i : ℕ) (r : Registration) (created : String) (stage : RegisterStage),
    s.threads[i]? = some (.register r created stage) → validate_embedding_payload r.payload = .ok ()
  reads : ∀ (l : ℕ) (table : Table), s.threads[l]? = some (.lookup c (.read table)) → .read l ∈ ops ∧
    (s.reg.build c = .ok table ∨ ∃ i stage, Registering c i stage s ∧
      (stage = .written ∨ stage = .returned) ∧ [.read l, .write i].Sublist ops)
  cached : ∀ table, s.reg.cache c = some table →
    s.reg.build c = .ok table ∨ (∃ i, Registering c i .written s) ∨ Straddled c ops s
  ordered : ∀ l i, Registering c i .returned s → [.read l, .write i].Sublist ops →
    [.read l, .write i, .invalidate i].Sublist ops

section
variable {c : String} {ops : List Op} {op : Op} {s s' : Shared} {i j l : ℕ} {t t' u : Thread}
  {reg : Registry} {stage : RegisterStage}

/-- A pair that is not completed by the last step was there before. -/
theorem pair_sublist {a b : Op} (h : [a, b].Sublist (ops ++ [op])) (hb : b ≠ op) :
    [a, b].Sublist ops := by
  obtain ⟨l₁, l₂, heq, h₁, h₂⟩ := List.sublist_append_iff.1 h
  rcases List.sublist_singleton.1 h₂ with rfl | rfl
  · rw [heq, List.append_nil]
    exact h₁
  · have hlast := congrArg List.getLast? heq
    rw [List.getLast?_concat] at hlast
    exact absurd (Option.some.inj hlast) hb

theorem get_go (hi : s.threads[i]? = some t) :
    (s.go i reg t').threads[j]? = some u ↔ i = j ∧ t' = u ∨ i ≠ j ∧ s.threads[j]? = some u :=
  get_set_iff hi

/-- A thread stays what it is. -/
theorem who_go (hi : s.threads[i]? = some t) (hwho : t'.who = t.who) (j : ℕ) :
    ((s.go i reg t').threads[j]?).map Thread.who = (s.threads[j]?).map Thread.who := by
  refine Option.ext fun w => ?_
  rw [Option.map_eq_some_iff, Option.map_eq_some_iff]
  by_cases hj : i = j
  · subst hj
    simp [get_go hi, hi, hwho]
  · simp [get_go hi, hj]

theorem Straddled.mono (h : Straddled c ops s) (hwho : Stay s s') :
    Straddled c (ops ++ [op]) s' := by
  obtain ⟨l, i, hl, hi, hsub⟩ := h
  exact ⟨l, i, hwho l _ hl, hwho i _ hi, hsub.trans (List.sublist_append_left _ _)⟩

/-- A step that leaves file, cache and registrations as they are. -/
theorem UpToDate.quiet (h : UpToDate c ops s) (hreg : s'.reg = s.reg)
    (hwho : Stay s s')
    (hvalid : ∀ (j : ℕ) (r : Registration) (created : String) (stage : RegisterStage),
      s'.threads[j]? = some (.register r created stage) →
        validate_embedding_payload r.payload = .ok ())
    (hread : ∀ (l : ℕ) (table : Table), s'.threads[l]? = some (.lookup c (.read table)) →
      s.threads[l]? = some (.lookup c (.read table)) ∨ op = .read l ∧ s.reg.build c = .ok table)
    (hstage : ∀ j stage, stage = .written ∨ stage = .returned →
      (Registering c j stage s' ↔ Registering c j stage s))
    (hop : ∀ j, op ≠ .write j) : UpToDate c (ops ++ [op]) s' where
  spelled := hreg ▸ h.spelled
  valid := hvalid
  reads l table hl := by
    rw [hreg]
    rcases hread l table hl with hold | ⟨rfl, hbuild⟩
    · obtain ⟨hmem, hsame⟩ := h.reads l table hold
      refine ⟨List.mem_append_left _ hmem, hsame.imp_right ?_⟩
      rintro ⟨i, stage, hi, hdone, hsub⟩
      exact ⟨i, stage, (hstage i stage hdone).2 hi, hdone,
        hsub.trans (List.sublist_append_left _ _)⟩
    · exact ⟨List.mem_append_right _ (List.mem_singleton.2 rfl), .inl hbuild⟩
  cached table hcache := by
    rw [hreg] at hcache ⊢
    rcases h.cached table hcache with hbuild | ⟨i, hi⟩ | hstr
    · exact .inl hbuild
    · exact .inr (.inl ⟨i, (hstage i _ (.inl rfl)).2 hi⟩)
    · exact .inr (.inr (hstr.mono hwho))
  ordered l i hi hsub := by
    have hbefore := h.ordered l i ((hstage i _ (.inr rfl)).1 hi)
      (pair_sublist hsub (Ne.symm (hop i)))
    exact hbefore.trans (List.sublist_append_left _ _)

theorem stay_go (reg : Registry) (t' : Thread) (hi : s.threads[i]? = some t)
    (hwho : t'.who = t.who) : Stay s (s.go i reg t') :=
  fun j _ hw => (who_go hi hwho j).trans hw

theorem stay_concat : Stay s ⟨reg, s.threads ++ [t]⟩ := by
  intro j w hw
  obtain ⟨u, hu, rfl⟩ := Option.map_eq_some_iff.1 hw
  exact Option.map_eq_some_iff.2 ⟨u, get_concat_iff.2 (.inl hu), rfl⟩

theorem UpToDate.valid_go (h : UpToDate c ops s) (hi : s.threads[i]? = some t)
    (hwho : t'.who = t.who) (hsame : ∀ r created stage, t' = .register r created stage →
      ∃ stage', t = .register r created stage') (j : ℕ) (r : Registration) (created : String)
    (stage : RegisterStage) (hj : (s.go i reg t').threads[j]? = some (.register r created stage)) :
    validate_embedding_payload r.payload = .ok () := by
  rcases (get_go hi).1 hj with ⟨rfl, ht'⟩ | ⟨_, hold⟩
  · obtain ⟨stage', rfl⟩ := hsame r created stage ht'
    exact h.valid _ r created stage' hi
  · exact h.valid j r created stage hold

/-- A lookup that moves registers nothing. -/
theorem registering_lookup {m m' : String} {st st' : LookupStage}
    (hi : s.threads[i]? = some (.lookup m st)) :
    Registering c j stage (s.go i reg (.lookup m' st')) ↔ Registering c j stage s := by
  constructor
  · rintro ⟨r, created, hj, hr⟩
    rcases (get_go hi).1 hj with ⟨_, ht⟩ | ⟨_, hold⟩
    · cases ht
    · exact ⟨r, created, hold, hr⟩
  · rintro ⟨r, created, hj, hr⟩
    refine ⟨r, created, (get_go hi).2 (.inr ⟨?_, hj⟩), hr⟩
    rintro rfl
    rw [hi] at hj
    cases hj

/-- Another registration than the one that moves. -/
theorem registering_other (hi : s.threads[i]? = some t) (hj : i ≠ j) :
    Registering c j stage (s.go i reg t') ↔ Registering c j stage s := by
  simp [Registering, get_go hi, hj]

/-- Where the registration of a thread stands, and for which model it is. -/
theorem Registering.stage_of {r : Registration} {created : String} {stage' : RegisterStage}
    (h : Registering c i stage s) (hi : s.threads[i]? = some (.register r created stage')) :
    stage = stage' ∧ r.model_id = c := by
  obtain ⟨r', created', hget, hr⟩ := h
  cases hi.symm.trans hget
  exact ⟨rfl, hr⟩

/-- A lookup that has read had read before another thread moved. -/
theorem reader_go {l : ℕ} {m : String} {table : Table} (hi : s.threads[i]? = some t)
    (hl : (s.go i reg t').threads[l]? = some (.lookup m (.read table)))
    (ht' : t' ≠ .lookup m (.read table)) :
    s.threads[l]? = some (.lookup m (.read table)) := by
  rcases (get_go hi).1 hl with ⟨_, ht⟩ | ⟨_, hold⟩
  · exact absurd ht ht'
  · exact hold

theorem build_go (h : SameLayers s.reg reg) : (s.go i reg t).reg.build c = s.reg.build c :=
  h.build c

theorem UpToDate.concat (h : UpToDate c ops s) (hop : ∀ j, op ≠ .write j)
    (hnew : (∃ m, t = .lookup m .started) ∨ ∃ r created, t = .register r created .started ∧
      validate_embedding_payload r.payload = .ok ()) :
    UpToDate c (ops ++ [op]) ⟨s.reg, s.threads ++ [t]⟩ := by
  refine h.quiet rfl stay_concat (fun j r created stage hj => ?_) (fun l table hl => ?_)
    (fun j stage hdone => ⟨?_, ?_⟩) hop
  · rcases get_concat_iff.1 hj with hold | ⟨_, rfl⟩
    · exact h.valid j r created stage hold
    · rcases hnew with ⟨m, hm⟩ | ⟨r', created', hr', hvalid⟩
      · cases hm
      · cases hr'
        exact hvalid
  · rcases get_concat_iff.1 hl with hold | ⟨_, rfl⟩
    · exact .inl hold
    · rcases hnew with ⟨m, hm⟩ | ⟨r', created', hr', _⟩
      · cases hm
      · cases hr'
  · rintro ⟨r, created, hj, hr⟩
    rcases get_concat_iff.1 hj with hold | ⟨_, rfl⟩
    · exact ⟨r, created, hold, hr⟩
    · rcases hnew with ⟨m, hm⟩ | ⟨r', created', hr', _⟩
      · cases hm
      · cases hr'
        rcases hdone with hd | hd <;> cases hd
  · rintro ⟨r, created, hj, hr⟩
    exact ⟨r, created, get_concat_iff.2 (.inl hj), hr⟩

/-- A lookup that moves without storing: it may have read the table as it is. -/
theorem UpToDate.lookup_moves {m : String} {st st' : LookupStage} (h : UpToDate c ops s)
    (hi : s.threads[i]? = some (.lookup m st)) (hop : ∀ j, op ≠ .write j)
    (hread : ∀ table, st' = .read table → m = c → op = .read i ∧ s.reg.build c = .ok table) :
    UpToDate c (ops ++ [op]) (s.go i s.reg (.lookup m st')) := by
  refine h.quiet rfl (stay_go _ _ hi rfl) (h.valid_go hi rfl nofun) (fun l table hl => ?_)
    (fun j stage _ => registering_lookup hi) hop
  rcases (get_go hi).1 hl with ⟨rfl, ht⟩ | ⟨_, hold⟩
  · cases ht
    exact .inr (hread table rfl rfl)
  · exact .inl hold

theorem UpToDate.store {m : String} {table : Table} (h : UpToDate c ops s)
    (hi : s.threads[i]? = some (.lookup m (.read table))) :
    UpToDate c (ops ++ [.store i])
      (s.go i { s.reg with cache := Function.update s.reg.cache m (some table) }
        (.lookup m .returned)) := by
  have hsame : SameLayers s.reg { s.reg with cache := Function.update s.reg.cache m (some table) } :=
    ⟨rfl, rfl, rfl⟩
  have hstay := stay_go { s.reg with cache := Function.update s.reg.cache m (some table) }
    (.lookup m .returned) hi rfl
  refine ⟨h.spelled, h.valid_go hi rfl nofun, fun l table' hl => ?_, fun table' hcache => ?_,
    fun l j hj hsub => ?_⟩
  · obtain ⟨hmem, hbuild⟩ := h.reads l table' (reader_go hi hl nofun)
    refine ⟨List.mem_append_left _ hmem, ?_⟩
    rw [build_go hsame]
    refine hbuild.imp_right ?_
    rintro ⟨j, stage, hj, hdone, hsub⟩
    exact ⟨j, stage, (registering_lookup hi).2 hj, hdone,
      hsub.trans (List.sublist_append_left _ _)⟩
  · rw [build_go hsame]
    have hnow : Function.update s.reg.cache m (some table) c = some table' := hcache
    by_cases hm : c = m
    · subst hm
      rw [Function.update_self] at hnow
      obtain rfl := Option.some.inj hnow
      obtain ⟨-, hbuild | ⟨j, stage, hj, hdone, hsub⟩⟩ := h.reads i table hi
      · exact .inl hbuild
      · rcases hdone with rfl | rfl
        · exact .inr (.inl ⟨j, (registering_lookup hi).2 hj⟩)
        -- the registration is over: this store is the last step of a straddling lookup
        · have hwho : (s.threads[j]?).map Thread.who = some (false, c) := by
            obtain ⟨r, created, hget, rfl⟩ := hj
            rw [hget]
            rfl
          have hlookup : (s.threads[i]?).map Thread.who = some (true, c) := by
            rw [hi]
            rfl
          exact .inr (.inr ⟨i, j, hstay i _ hlookup, hstay j _ hwho,
            (h.ordered i j hj hsub).append (List.Sublist.refl [Op.store i])⟩)
    · rw [Function.update_of_ne hm] at hnow
      rcases h.cached table' hnow with hbuild | ⟨j, hj⟩ | hstr
      · exact .inl hbuild
      · exact .inr (.inl ⟨j, (registering_lookup hi).2 hj⟩)
      · exact .inr (.inr (hstr.mono hstay))
  · exact (h.ordered l j ((registering_lookup hi).1 hj) (pair_sublist hsub nofun)).trans
      (List.sublist_append_left _ _)

theorem UpToDate.write {r : Registration} {created : String} {d : FileData}
    (h : UpToDate c ops s) (hi : s.threads[i]? = some (.register r created .started))
    (hread : read_speaker_file_for_update s.reg.file = .ok d) :
    UpToDate c (ops ++ [.write i])
      (s.go i { s.reg with
          file := write_json (put d r.model_id (r.spec created (pick_id d r))) }
        (.register r created .written)) := by
  obtain ⟨hshows, hkept⟩ := read_spec hread h.spelled
  have hparse : parse_speaker_entry (pick_id d r) (entry_of (r.spec created (pick_id d r))) =
      .ok (r.spec created (pick_id d r)) :=
    parse_entry_of rfl (payload_ne_empty (h.valid i r created _ hi))
  have hput : WellKept (put d r.model_id (r.spec created (pick_id d r))) := hkept.put hparse
  have hstay := stay_go
    { s.reg with file := write_json (put d r.model_id (r.spec created (pick_id d r))) }
    (.register r created .written) hi rfl
  have hwritten : Registering r.model_id i .written (s.go i { s.reg with
      file := write_json (put d r.model_id (r.spec created (pick_id d r))) }
        (.register r created .written)) :=
    ⟨r, created, (get_go hi).2 (.inl ⟨rfl, rfl⟩), rfl⟩
  have hmoved : ∀ j stage, stage = .written ∨ stage = .returned → Registering c j stage s →
      Registering c j stage (s.go i { s.reg with
        file := write_json (put d r.model_id (r.spec created (pick_id d r))) }
          (.register r created .written)) := by
    intro j stage hdone hj
    refine (registering_other hi ?_).2 hj
    rintro rfl
    obtain ⟨hstage, _⟩ := hj.stage_of hi
    rcases hdone with rfl | rfl <;> cases hstage
  have hother : c ≠ r.model_id → (s.go i { s.reg with
      file := write_json (put d r.model_id (r.spec created (pick_id d r))) }
        (.register r created .written)).reg.build c = s.reg.build c := by
    intro hm
    rw [s.reg.build_eq c hshows hkept, ← layered_put_other hparse hm]
    exact build_written rfl hput c
  refine ⟨hput.sorted.spelled, h.valid_go hi rfl ?_, fun l table hl => ?_, fun table hcache => ?_,
    fun l j hj hsub => ?_⟩
  · rintro r' created' stage ⟨⟩
    exact ⟨.started, rfl⟩
  · obtain ⟨hmem, hbuild⟩ := h.reads l table (reader_go hi hl nofun)
    refine ⟨List.mem_append_left _ hmem, ?_⟩
    by_cases hm : c = r.model_id
    · subst hm
      exact .inr ⟨i, .written, hwritten, .inl rfl,
        (List.singleton_sublist.2 hmem).append (List.Sublist.refl [Op.write i])⟩
    · rcases hbuild with hbuild | ⟨j, stage, hj, hdone, hsub⟩
      · exact .inl ((hother hm).trans hbuild)
      · exact .inr ⟨j, stage, hmoved j stage hdone hj, hdone,
          hsub.trans (List.sublist_append_left _ _)⟩
  · by_cases hm : c = r.model_id
    · subst hm
      exact .inr (.inl ⟨i, hwritten⟩)
    · rcases h.cached table hcache with hbuild | ⟨j, hj⟩ | hstr
      · exact .inl ((hother hm).trans hbuild)
      · exact .inr (.inl ⟨j, hmoved j _ (.inl rfl) hj⟩)
      · exact .inr (.inr (hstr.mono hstay))
  · have hne : i ≠ j := by
      rintro rfl
      cases (hj.stage_of ((get_go hi).2 (.inl ⟨rfl, rfl⟩))).1
    have hsub' := pair_sublist hsub (by simpa using Ne.symm hne)
    exact (h.ordered l j ((registering_other hi hne).1 hj) hsub').trans
      (List.sublist_append_left _ _)

theorem UpToDate.refuse {r : Registration} {created : String} (h : UpToDate c ops s)
    (hi : s.threads[i]? = some (.register r created .started)) :
    UpToDate c (ops ++ [.refuse i]) (s.go i s.reg (.register r created .refused)) := by
  refine h.quiet rfl (stay_go _ _ hi rfl) (h.valid_go hi rfl ?_) (fun l table hl => ?_)
    (fun j stage hdone => ?_) nofun
  · rintro r' created' stage ⟨⟩
    exact ⟨.started, rfl⟩
  · exact .inl (reader_go hi hl nofun)
  · by_cases hj : i = j
    · subst hj
      -- thread `i` is at neither of the two stages, before or after
      constructor
      · intro hreg
        obtain ⟨hstage, _⟩ := hreg.stage_of ((get_go hi).2 (.inl ⟨rfl, rfl⟩))
        rcases hdone with rfl | rfl <;> cases hstage
      · intro hreg
        obtain ⟨hstage, _⟩ := hreg.stage_of hi
        rcases hdone with rfl | rfl <;> cases hstage
    · exact registering_other hi hj

theorem UpToDate.invalidate {r : Registration} {created : String} (h : UpToDate c ops s)
    (hi : s.threads[i]? = some (.register r created .written)) :
    UpToDate c (ops ++ [.invalidate i])
      (s.go i { s.reg with cache := Function.update s.reg.cache r.model_id none }
        (.register r created .returned)) := by
  have hsame : SameLayers s.reg
      { s.reg with cache := Function.update s.reg.cache r.model_id none } := ⟨rfl, rfl, rfl⟩
  have hstay := stay_go { s.reg with cache := Function.update s.reg.cache r.model_id none }
    (.register r created .returned) hi rfl
  refine ⟨h.spelled, h.valid_go hi rfl ?_, fun l table hl => ?_, fun table hcache => ?_,
    fun l j hj hsub => ?_⟩
  · rintro r' created' stage ⟨⟩
    exact ⟨.written, rfl⟩
  · obtain ⟨hmem, hbuild⟩ := h.reads l table (reader_go hi hl nofun)
    refine ⟨List.mem_append_left _ hmem, ?_⟩
    rw [build_go hsame]
    refine hbuild.imp_right ?_
    rintro ⟨j, stage, hj, hdone, hsub⟩
    have hsub' := hsub.trans (List.sublist_append_left ops [.invalidate i])
    by_cases hne : i = j
    · subst hne
      obtain ⟨_, hr⟩ := hj.stage_of hi
      exact ⟨i, .returned, ⟨r, created, (get_go hi).2 (.inl ⟨rfl, rfl⟩), hr⟩, .inr rfl, hsub'⟩
    · exact ⟨j, stage, (registering_other hi hne).2 hj, hdone, hsub'⟩
  · rw [build_go hsame]
    have hnow : Function.update s.reg.cache r.model_id none c = some table := hcache
    by_cases hm : c = r.model_id
    · rw [hm, Function.update_self] at hnow
      cases hnow
    · rw [Function.update_of_ne hm] at hnow
      rcases h.cached table hnow with hbuild | ⟨j, hj⟩ | hstr
      · exact .inl hbuild
      · refine .inr (.inl ⟨j, (registering_other hi ?_).2 hj⟩)
        rintro rfl
        exact hm (hj.stage_of hi).2.symm
      · exact .inr (.inr (hstr.mono hstay))
  · have hsub' := pair_sublist hsub nofun
    by_cases hne : i = j
    · subst hne
      exact hsub'.append (List.Sublist.refl [Op.invalidate i])
    · exact (h.ordered l j ((registering_other hi hne).1 hj) hsub').trans
        (List.sublist_append_left _ _)

theorem UpToDate.step (h : UpToDate c ops s) (hstep : s.step op = some s') :
    UpToDate c (ops ++ [op]) s' := by
  cases op with
  | lookup m =>
    obtain rfl := Option.some.inj hstep
    exact h.concat nofun (.inl ⟨_, rfl⟩)
  | check l =>
    rw [Shared.step] at hstep
    split at hstep
    · next m hi =>
      obtain rfl := Option.some.inj hstep
      refine h.lookup_moves hi nofun fun table hst => ?_
      split at hst <;> cases hst
    · cases hstep
  | read l =>
    rw [Shared.step] at hstep
    split at hstep
    · next m hi =>
      split at hstep
      · next table hbuild =>
        obtain rfl := Option.some.inj hstep
        refine h.lookup_moves hi nofun ?_
        rintro table' ⟨⟩ rfl
        exact ⟨rfl, hbuild⟩
      · obtain rfl := Option.some.inj hstep
        exact h.lookup_moves hi nofun nofun
    · cases hstep
  | store l =>
    rw [Shared.step] at hstep
    split at hstep
    · next m table hi =>
      obtain rfl := Option.some.inj hstep
      exact h.store hi
    · cases hstep
  | register r created =>
    rw [Shared.step] at hstep
    split at hstep
    · next hvalid =>
      obtain rfl := Option.some.inj hstep
      exact h.concat nofun (.inr ⟨r, created, rfl, hvalid⟩)
    · cases hstep
  | write i =>
    rw [Shared.step] at hstep
    split at hstep
    · next hi hread =>
      obtain rfl := Option.some.inj hstep
      exact h.write hi hread
    · cases hstep
  | refuse i =>
    rw [Shared.step] at hstep
    split at hstep
    · next hi =>
      obtain rfl := Option.some.inj hstep
      exact h.refuse hi
    · cases hstep
  | invalidate i =>
    rw [Shared.step] at hstep
    split at hstep
    · next hi =>
      obtain rfl := Option.some.inj hstep
      exact h.invalidate hi
    · cases hstep

theorem up_to_date_start {s₀ : Registry} (hs : s₀.Coherent) (hspelled : s₀.file.Spelled) :
    UpToDate c [] ⟨s₀, []⟩ :=
  ⟨hspelled, nofun, nofun, fun table hcache => .inl (hs c table hcache), nofun⟩

theorem runs_up_to_date {s₀ : Registry} (hs : s₀.Coherent) (hspelled : s₀.file.Spelled)
    (hruns : SharedRuns s₀ ops s) : UpToDate c ops s := by
  induction hruns with
  | nil => exact up_to_date_start hs hspelled
  | snoc _ hst ih => exact ih.step hst

end

/-- For every interleaving of lookups and registrations in which no lookup of the model reads the
    file before a registration of the model writes it and stores its table after that registration
    has invalidated the cache: when all calls have returned, a lookup returns the presets under the
    last written file under the environment. -/
theorem lookup_last_written {s₀ : Registry} {ops : List Op} {s : Shared} (hs : s₀.Coherent)
    (hspelled : s₀.file.Spelled) (hruns : SharedRuns s₀ ops s) (hdone : ∀ t ∈ s.threads, t.done)
    (model_id : String) (hapart : ¬ Straddled (canonical_model_id model_id) ops s) :
    (s.reg.load_speaker_map model_id).map Prod.fst = s.reg.build (canonical_model_id model_id) := by
  refine load_value fun table hcache => ?_
  rcases (runs_up_to_date hs hspelled hruns).cached table hcache with hbuild | ⟨i, hi⟩ | hstr
  · exact hbuild
  · obtain ⟨r, created, hget, _⟩ := hi
    exact absurd (hdone _ (List.mem_of_getElem? hget)) nofun
  · exact absurd hstr hapart

/-! ### A registration during a lookup -/

/-- The lookup is over before the registration writes. -/
def apart_ops : List Op :=
  [.lookup "qwen3-tts", .check 0, .read 0, .register (one_sample none) "now", .store 0, .write 1,
    .invalidate 1]

/-- The lookup stores what it read before the registration. -/
def straddling_ops : List Op :=
  [.lookup "qwen3-tts", .check 0, .read 0, .register (one_sample none) "now", .write 1,
    .invalidate 1, .store 0]

/-- Which of the four steps it is. -/
def Op.kind : Op → ℕ
  | .read _ => 1
  | .write _ => 2
  | .invalidate _ => 3
  | .store _ => 4
  | _ => 0

theorem lookup_last_written_apart :
    ∃ s, SharedRuns (no_file fun _ => none) apart_ops s ∧
      (s.reg.load_speaker_map "qwen3-tts").map Prod.fst =
        s.reg.build (canonical_model_id "qwen3-tts") := by
  obtain ⟨s, hruns, hdone⟩ : ∃ s, SharedRuns (no_file fun _ => none) apart_ops s ∧
      ∀ t ∈ s.threads, t.done := ⟨_, Run.of_replay rfl, by decide⟩
  refine ⟨s, hruns, ?_⟩
  refine lookup_last_written (no_file_coherent _) (no_file_spelled _) hruns hdone "qwen3-tts" ?_
  rintro ⟨l, i, _, _, hsub⟩
  have hkinds : [1, 2, 3, 4].Sublist (apart_ops.map Op.kind) := hsub.map Op.kind
  exact absurd hkinds (by decide)

/-- The voice is in the file and not in the table that lookups return. -/
theorem straddling_lookup_hides : ¬ ∀ (s₀ : Registry) (ops : List Op) (s : Shared),
    s₀.Coherent → s₀.file.Spelled → SharedRuns s₀ ops s → (∀ t ∈ s.threads, t.done) →
    ∀ model_id, (s.reg.load_speaker_map model_id).map Prod.fst =
      s.reg.build (canonical_model_id model_id) := by
  intro hall
  obtain ⟨s, hruns, hdone, ⟨table, hcache, hold⟩, hfile⟩ : ∃ s,
      SharedRuns (no_file fun _ => none) straddling_ops s ∧ (∀ t ∈ s.threads, t.done) ∧
      (∃ table, s.reg.cache "qwen3-tts" = some table ∧ table 10000 = none) ∧
      s.reg.file = write_json (put Dict.empty "qwen3-tts" ((one_sample none).spec "now" 10000)) :=
    ⟨_, Run.of_replay rfl, by decide, ⟨_, rfl, rfl⟩, rfl⟩
  have heq := hall _ _ s (no_file_coherent _) (no_file_spelled _) hruns hdone "qwen3-tts"
  have hcanonical : canonical_model_id "qwen3-tts" = "qwen3-tts" := by decide
  have hempty : WellKept Dict.empty := fun _ _ hget => absurd hget nofun
  have hparse : parse_speaker_entry 10000 (entry_of ((one_sample none).spec "now" 10000)) =
      .ok ((one_sample none).spec "now" 10000) := parse_entry_of rfl (by decide)
  rw [Registry.load_speaker_map, hcanonical, hcache, build_written hfile (hempty.put hparse)] at heq
  obtain rfl := Except.ok.inj heq
  rw [layered, layer_put hparse, if_pos ⟨rfl, rfl⟩] at hold
  cases henv : s.reg.env_overrides 10000 <;> simp [henv] at hold

end LocalVoice.TTSSpeakers
