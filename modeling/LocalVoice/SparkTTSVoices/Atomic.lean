import LocalVoice.SparkTTSVoices.Staging

/-! A transaction is atomic under stops: wherever it is stopped, and however often the recoveries
    after it are, the first recovery that runs to its end leaves the old pair or the new one. The
    invariant (`Crash`) says what every state on the way looks like: the pair is between its commit
    steps only while the journal and the backups are there, and the only journal that leads to a
    transaction directory is the transaction's own. -/

namespace LocalVoice.SparkTTSVoices
open LocalVoice.Lib

section
variable {β α : Type}

section
variable (c : Codec β α) (root : Root) (t : Token) (s : SafeId) (op : Operation α) (d₀ : Dir β)

/-- The pair is the old one or the new one. -/
def Settled (d : Dir β) : Prop :=
  pair d s = nodes (pair_files d₀ s) ∨ pair d s = nodes (published c t op)

/-- What holds in every state a transaction from `d₀` or a recovery after it can be stopped in. -/
structure Crash (d : Dir β) : Prop where
  others : ∀ m, m ≠ json_name s → m ≠ npz_name s → m ≠ txdir_name t → m ≠ journal_name t →
    (is_tmp_name m = false → d.lookup m = d₀.lookup m) ∧ ∀ es, d.lookup m ≠ some (.folder es)
  txdir : ∀ b, d.lookup (txdir_name t) ≠ some (.file b)
  journal : d.lookup (journal_name t) = none ∨ Journaled c root t s op (pair_files d₀ s) d ∨
    ∃ b, d.lookup (journal_name t) = some (.file b) ∧ c.load_json b = none
  backups : Journaled c root t s op (pair_files d₀ s) d → ∀ es, d.lookup (txdir_name t) = some (.folder es) →
    (∀ x, es.lookup "old.json" = some x → (nodes (pair_files d₀ s)).1 = some (.file x)) ∧
      ∀ x, es.lookup "old.npz" = some x → (nodes (pair_files d₀ s)).2 = some (.file x)
  pair_ok : Settled c t s op d₀ d ∨
    (pair d s = halfway c t (pair_files d₀ s) op ∧ Armed c root t s op (pair_files d₀ s) d)

end

variable {c : Codec β α} {root : Root} {t : Token} {s : SafeId} {op : Operation α} {d₀ d d' : Dir β}

/-! ### What keeps the invariant -/

/-- In a settled state the material of the transaction may be lost bit by bit. -/
theorem Crash.shrink (h : Crash c root t s op d₀ d ∧ Settled c t s op d₀ d)
    (hv : s.val ≠ txdir_name t) (hd : Shrunk t d d') :
    Crash c root t s op d₀ d' ∧ Settled c t s op d₀ d' := by
  obtain ⟨h, hs⟩ := h
  have hsettled : Settled c t s op d₀ d' := by
    unfold Settled
    rw [pair_congr hv hd.others]
    exact hs
  refine ⟨⟨fun m hj hn ht hr => ?_, fun b hb => h.txdir b (hd.file b hb), ?_, fun hjd es' hes' => ?_,
    Or.inl hsettled⟩, hsettled⟩
  · rw [hd.others m ht hr]
    exact h.others m hj hn ht hr
  · rcases hd.journal with hjr | hjr
    · exact Or.inl hjr
    · unfold Journaled
      rw [hjr]
      exact h.journal
  · obtain ⟨es, hes, hsub⟩ := hd.folder es' hes'
    have hjd' : Journaled c root t s op (pair_files d₀ s) d := by
      rcases hd.journal with hjr | hjr
      · simp [Journaled, hjr] at hjd
      · unfold Journaled at hjd ⊢
        rwa [hjr] at hjd
    obtain ⟨h1, h2⟩ := h.backups hjd' es hes
    exact ⟨fun x hx => h1 x (hsub _ _ hx), fun x hx => h2 x (hsub _ _ hx)⟩

/-- Changing the two canonical files. -/
theorem Crash.set_pair (h : Crash c root t s op d₀ d) (hv : s.val ≠ txdir_name t)
    (hm : ∀ m, m ≠ json_name s → m ≠ npz_name s → d'.lookup m = d.lookup m)
    (hp : Settled c t s op d₀ d' ∨
      (pair d' s = halfway c t (pair_files d₀ s) op ∧ Armed c root t s op (pair_files d₀ s) d)) :
    Crash c root t s op d₀ d' := by
  have htx := hm (txdir_name t) (ne_txdir t (last_char_json s) (by decide)).symm
    (ne_txdir t (last_char_npz s) (by decide)).symm
  have hjr := hm (journal_name t) (journal_ne_json hv)
    (ne_of_last_char (last_char_journal t) (last_char_npz s) (by decide))
  refine ⟨fun m hj hn ht hr => ?_, ?_, ?_, ?_, ?_⟩
  · rw [hm m hj hn]
    exact h.others m hj hn ht hr
  · rw [htx]
    exact h.txdir
  · unfold Journaled
    rw [hjr]
    exact h.journal
  · unfold Journaled
    rw [hjr, htx]
    exact h.backups
  · unfold Armed Journaled
    rw [hjr, htx]
    exact hp

/-- A temporary file. -/
theorem Crash.put_tmp (h : Crash c root t s op d₀ d) {m : String} (hm : is_tmp_name m = true)
    (b : β) : Crash c root t s op d₀ (put m b d) := by
  have hlast := last_char_tmp hm
  have hkeep : ∀ n, n ≠ m → (put m b d).lookup n = d.lookup n := fun n hn => by
    rw [lookup_put, if_neg hn]
  have hj := hkeep (json_name s) (ne_of_last_char (last_char_json s) hlast (by decide))
  have hn := hkeep (npz_name s) (ne_of_last_char (last_char_npz s) hlast (by decide))
  have htx := hkeep (txdir_name t) (ne_txdir t hlast (by decide)).symm
  have hjr := hkeep (journal_name t) (ne_of_last_char (last_char_journal t) hlast (by decide))
  have hpair : pair (put m b d) s = pair d s := by simp [pair, hj, hn]
  refine ⟨fun n hj hn ht hr => ?_, ?_, ?_, ?_, ?_⟩
  · rw [lookup_put]
    split
    · rename_i heq
      subst heq
      simp [hm]
    · exact h.others n hj hn ht hr
  · rw [htx]
    exact h.txdir
  · unfold Journaled
    rw [hjr]
    exact h.journal
  · unfold Journaled
    rw [hjr, htx]
    exact h.backups
  · unfold Settled Armed Journaled
    rw [hpair, hjr, htx]
    exact h.pair_ok

theorem pair_settled_file (h : Settled c t s op d₀ d) :
    (∀ es, d.lookup (json_name s) ≠ some (.folder es)) ∧
      ∀ es, d.lookup (npz_name s) ≠ some (.folder es) := by
  have hfile : ∀ p : Option (β × β), (∀ es, (nodes p).1 ≠ some (.folder es)) ∧
      ∀ es, (nodes p).2 ≠ some (.folder es) := by
    rintro (_ | ⟨a, b⟩) <;> simp [nodes]
  rcases h with h | h
  all_goals
    rw [show d.lookup (json_name s) = _ from congrArg Prod.fst h,
      show d.lookup (npz_name s) = _ from congrArg Prod.snd h]
    exact hfile _

/-- The canonical names never lead to a directory. -/
theorem Crash.pair_file (h : Crash c root t s op d₀ d) :
    (∀ es, d.lookup (json_name s) ≠ some (.folder es)) ∧
      ∀ es, d.lookup (npz_name s) ≠ some (.folder es) := by
  rcases h.pair_ok with h | ⟨h, -⟩
  · exact pair_settled_file h
  · rw [show d.lookup (json_name s) = _ from congrArg Prod.fst h,
      show d.lookup (npz_name s) = _ from congrArg Prod.snd h]
    cases op <;> cases pair_files d₀ s <;> simp [halfway, nodes]

/-- The transaction directory, in a state the invariant allows. -/
theorem Crash.subdir_cases (h : Crash c root t s op d₀ d) :
    d.lookup (txdir_name t) = none ∨ ∃ es, d.lookup (txdir_name t) = some (.folder es) := by
  cases hd : d.lookup (txdir_name t) with
  | none => exact Or.inl rfl
  | some x =>
    cases x with
    | file b => exact absurd hd (h.txdir b)
    | folder es => exact Or.inr ⟨es, rfl⟩

theorem Crash.journal_file (h : Crash c root t s op d₀ d) (es : Folder β) :
    d.lookup (journal_name t) ≠ some (.folder es) := by
  intro hes
  rcases h.journal with hj | hj | ⟨b, hj, -⟩
  · simp [hj] at hes
  · rw [show d.lookup (journal_name t) = _ from hj] at hes
    cases hes
  · simp [hj] at hes

/-! ### Before and during the commit -/

/-- Before the transaction. -/
theorem AtRest.crash (hrest : AtRest d₀) (hfresh : Fresh c t s op d₀) :
    Crash c root t s op d₀ d₀ :=
  ⟨fun m _ _ _ _ => ⟨fun _ => rfl, hrest.files_only m⟩, fun b => by simp [hfresh.txdir],
    Or.inl hfresh.journal, fun hjd => by simp [Journaled, hfresh.journal] at hjd,
    Or.inl (Or.inl (hrest.complete s))⟩

theorem Building.pair_eq {done : Folder β → Prop} (h : Building t d₀ done d) (hrest : AtRest d₀) :
    pair d s = nodes (pair_files d₀ s) := by
  rw [← hrest.complete s]
  simp [pair, h.others _ (ne_txdir t (last_char_json s) (by decide)),
    h.others _ (ne_txdir t (last_char_npz s) (by decide))]

theorem Building.crash {done : Folder β → Prop} (h : Building t d₀ done d) (hrest : AtRest d₀)
    (hfresh : Fresh c t s op d₀) : Crash c root t s op d₀ d := by
  obtain ⟨es, hes, -⟩ := h.txdir
  have hjr : d.lookup (journal_name t) = none := by
    rw [h.others _ (ne_txdir t (last_char_journal t) (by decide)), hfresh.journal]
  refine ⟨fun m _ _ ht _ => ?_, fun b => by simp [hes], Or.inl hjr, fun hjd => ?_,
    Or.inl (Or.inl (h.pair_eq hrest))⟩
  · rw [h.others m ht]
    exact ⟨fun _ => rfl, hrest.files_only m⟩
  · simp [Journaled, hjr] at hjd

/-- Writing the journal over copies of the old pair. -/
theorem Building.put_journal (h : Building t d₀ (Copies (pair_files d₀ s)) d) (hrest : AtRest d₀)
    (hfresh : Fresh c t s op d₀) {b : β}
    (hb : c.load_json b = none ∨ b = c.dumps (own_data root t s (pair_files d₀ s) op)) :
    Crash c root t s op d₀ (put (journal_name t) b d) ∧
      pair (put (journal_name t) b d) s = nodes (pair_files d₀ s) := by
  have hkeep : ∀ m, m ≠ journal_name t → (put (journal_name t) b d).lookup m = d.lookup m :=
    fun m hm => by rw [lookup_put, if_neg hm]
  have hself : (put (journal_name t) b d).lookup (journal_name t) = some (.file b) := by
    rw [lookup_put, if_pos rfl]
  have htx : (put (journal_name t) b d).lookup (txdir_name t) = d.lookup (txdir_name t) :=
    hkeep _ (ne_txdir t (last_char_journal t) (by decide)).symm
  have hpair : pair (put (journal_name t) b d) s = nodes (pair_files d₀ s) := by
    rw [pair_congr hfresh.voice fun m _ hm => hkeep m hm, h.pair_eq hrest]
  obtain ⟨es, hes, hcj, hcn⟩ := h.txdir
  refine ⟨⟨fun m _ _ ht hr => ?_, ?_, ?_, fun _ es' hes' => ?_, Or.inl (Or.inl hpair)⟩, hpair⟩
  · rw [hkeep m hr, h.others m ht]
    exact ⟨fun _ => rfl, hrest.files_only m⟩
  · rw [htx, hes]
    simp
  · rcases hb with hb | rfl
    · exact Or.inr (Or.inr ⟨b, hself, hb⟩)
    · exact Or.inr (Or.inl hself)
  · obtain rfl : es = es' := by simpa [htx, hes] using hes'
    rw [hcj, hcn]
    cases pair_files d₀ s with
    | none => simp
    | some ab => simp [nodes]

theorem Building.armed (h : Building t d₀ (Copies (pair_files d₀ s)) d) :
    Armed c root t s op (pair_files d₀ s)
      (put (journal_name t) (c.dumps (own_data root t s (pair_files d₀ s) op)) d) := by
  obtain ⟨es, hes, hcj, hcn⟩ := h.txdir
  refine ⟨by rw [Journaled, lookup_put, if_pos rfl], es, ?_, fun a b hab => ?_⟩
  · rw [lookup_put, if_neg (ne_txdir t (last_char_journal t) (by decide)).symm, hes]
  · rw [hcj, hcn, hab]
    exact ⟨rfl, rfl⟩

/-- Both commit steps keep the invariant, and the second one settles the pair. -/
theorem Crash.steps (h : Crash c root t s op d₀ d)
    (harmed : Armed c root t s op (pair_files d₀ s) d)
    (hpair : pair d s = nodes (pair_files d₀ s)) (hv : s.val ≠ txdir_name t) :
    Crash c root t s op d₀ (first_step c t s op d) ∧
      Crash c root t s op d₀ (second_step c t s op (first_step c t s op d)) ∧
      Settled c t s op d₀ (second_step c t s op (first_step c t s op d)) := by
  obtain ⟨d₁, hshrink₁, harmed₁, hm₁, hpair₁⟩ := first_step_spec op harmed hpair
  obtain ⟨d₂, hshrink₂, hm₂, hpair₂⟩ := second_step_spec c t s op d
  have h₁ := (Crash.shrink ⟨h, Or.inl hpair⟩ hv hshrink₁).1
  have h₂ := (Crash.shrink ⟨h, Or.inl hpair⟩ hv hshrink₂).1
  exact ⟨h₁.set_pair hv hm₁ (Or.inr ⟨hpair₁, harmed₁⟩),
    h₂.set_pair hv hm₂ (Or.inl (Or.inr hpair₂)), Or.inr hpair₂⟩

/-! ### Recovery from such a state -/

/-- A cleanup of the transaction in a settled state. -/
theorem Crash.cleanup_holds (os : Os c) (h : Crash c root t s op d₀ d) (hs : Settled c t s op d₀ d)
    (hv : s.val ≠ txdir_name t) :
    (cleanup_transaction os (txdir_name t) (journal_name t)).Holds (Crash c root t s op d₀)
      (fun _ d => Crash c root t s op d₀ d ∧ Settled c t s op d₀ d) d :=
  holds_cleanup os (fun _ hd => hd.1) (fun _ hd => hd.1.journal_file)
    (fun _ _ hd hd' => Crash.shrink hd hv hd') ⟨h, hs⟩

/-- Restoring both backups, and the cleanup. -/
theorem Crash.restore_holds (os : Os c) (h : Crash c root t s op d₀ d) (hv : s.val ≠ txdir_name t) {a b : β}
    (hold : pair_files d₀ s = some (a, b)) (harmed : Armed c root t s op (pair_files d₀ s) d)
    (hp : pair d s = nodes (pair_files d₀ s) ∨ pair d s = halfway c t (pair_files d₀ s) op) :
    (execute os (journal_name t) (.restore (txdir_name t) (json_name s) (npz_name s) a b)).Holds
      (Crash c root t s op d₀) (fun _ d => Crash c root t s op d₀ d ∧ Settled c t s op d₀ d) d := by
  have hne := json_ne_npz s s
  -- after the JSON file
  have h1 : Crash c root t s op d₀ (put (json_name s) a d) := by
    refine h.set_pair hv (fun m hm _ => by rw [lookup_put, if_neg hm]) ?_
    have hpair : pair (put (json_name s) a d) s = (some (.file a), (pair d s).2) := by
      simp [pair, lookup_put, hne.symm]
    rcases hp with hp | hp
    · left; left
      rw [hpair, hp, hold]
      rfl
    · cases op with
      | write =>
        right
        refine ⟨?_, harmed⟩
        rw [hpair, hp, hold]
        rfl
      | delete =>
        left; left
        rw [hpair, hp, hold]
        rfl
  -- after the NPZ file
  have hpair : pair (put (npz_name s) b (put (json_name s) a d)) s = nodes (pair_files d₀ s) := by
    rw [hold]
    simp [pair, lookup_put, hne, nodes]
  have h2 : Crash c root t s op d₀ (put (npz_name s) b (put (json_name s) a d)) :=
    h1.set_pair hv (fun m _ hm => by rw [lookup_put, if_neg hm]) (Or.inl (Or.inl hpair))
  refine Prog.holds_bind (holds_restore os h (fun _ b' hm _ => h.put_tmp hm b') h.pair_file.1 h1 ?_)
  rw [if_pos rfl]
  refine Prog.holds_bind (holds_restore os h1 (fun _ b' hm _ => h1.put_tmp hm b') h1.pair_file.2 h2 ?_)
  rw [if_pos rfl]
  exact h2.cleanup_holds os (Or.inl hpair) hv

/-- Removing a half-published pair that was not there before, and the cleanup. -/
theorem Crash.remove_holds (os : Os c) (h : Crash c root t s op d₀ d) (hv : s.val ≠ txdir_name t)
    (hold : pair_files d₀ s = none) (harmed : Armed c root t s op (pair_files d₀ s) d)
    (hp : pair d s = halfway c t (pair_files d₀ s) op) :
    (execute os (journal_name t) (.remove (txdir_name t) (json_name s) (npz_name s))).Holds
      (Crash c root t s op d₀) (fun _ d => Crash c root t s op d₀ d ∧ Settled c t s op d₀ d) d := by
  have hne := json_ne_npz s s
  have hj : d.lookup (json_name s) = none := by
    rw [show d.lookup (json_name s) = _ from congrArg Prod.fst hp, hold]
    cases op <;> rfl
  have h1 : Crash c root t s op d₀ (Finmap.erase (json_name s) d) := by
    refine h.set_pair hv (fun m hm _ => by rw [lookup_erase_ite, if_neg hm]) (Or.inr ⟨?_, harmed⟩)
    rw [← hp]
    simp [pair, hne.symm, hj]
  have hpair : pair (Finmap.erase (npz_name s) (Finmap.erase (json_name s) d)) s =
      nodes (pair_files d₀ s) := by
    rw [hold]
    simp [pair, lookup_erase_ite, nodes]
  have h2 : Crash c root t s op d₀ (Finmap.erase (npz_name s) (Finmap.erase (json_name s) d)) :=
    h1.set_pair hv (fun m _ hm => by rw [lookup_erase_ite, if_neg hm]) (Or.inl (Or.inl hpair))
  refine Prog.holds_bind (holds_unlink h h.pair_file.1 h1 ?_)
  rw [if_pos rfl]
  refine Prog.holds_bind (holds_unlink h1 h1.pair_file.2 h2 ?_)
  rw [if_pos rfl]
  exact h2.cleanup_holds os (Or.inl hpair) hv

/-- The transaction directory is the only directory. -/
theorem Crash.folder_eq (h : Crash c root t s op d₀ d) {m : String} {es : Folder β}
    (hm : d.lookup m = some (.folder es)) : m = txdir_name t := by
  by_contra ht
  by_cases hr : m = journal_name t
  · exact h.journal_file es (hr ▸ hm)
  · by_cases hj : m = json_name s
    · exact h.pair_file.1 es (hj ▸ hm)
    · by_cases hn : m = npz_name s
      · exact h.pair_file.2 es (hn ▸ hm)
      · exact (h.others m hj hn ht hr).2 es hm

/-- The JSON file of the voice does not lead to the transaction directory. -/
theorem Crash.json_unnamed (h : Crash c root t s op d₀ d) (hfresh : Fresh c t s op d₀) {b : β}
    {data : String → Option Json} (hb : read d (json_name s) = some b)
    (hdata : c.load_json b = some data) : ¬ NamesTx data t := by
  have hb' := read_eq_some.1 hb
  have hold : (nodes (pair_files d₀ s)).1 = some (.file b) → ¬ NamesTx data t := by
    cases hf : pair_files d₀ s with
    | none =>
      rintro ⟨⟩
    | some ab =>
      rintro ⟨⟩
      exact (hfresh.json _ _ _ (pair_files_eq_some.1 hf).1 hdata).1
  rcases h.pair_ok with (hp | hp) | ⟨hp, -⟩
  · exact hold ((congrArg Prod.fst hp).symm.trans hb')
  · have hnew := (congrArg Prod.fst hp).symm.trans hb'
    cases op with
    | delete => cases hnew
    | write json_data npz_arrays =>
      obtain rfl : new_json c t json_data = b := by simpa [published, nodes] using hnew
      obtain rfl := Option.some.inj ((c.load_dumps _).symm.trans hdata)
      have hdata := hfresh.data json_data npz_arrays rfl
      unfold NamesTx at hdata ⊢
      simpa using hdata
  · have hhalf := (congrArg Prod.fst hp).symm.trans hb'
    cases op with
    | delete => cases hhalf
    | write => exact hold hhalf

variable [DecidableEq β]

/-- A transaction that is not over goes back to the old pair, or is stuck there. -/
theorem Crash.restore_or_remove_holds (os : Os c) {es : Folder β} (h : Crash c root t s op d₀ d)
    (hv : s.val ≠ txdir_name t) (hjd : Journaled c root t s op (pair_files d₀ s) d)
    (htx : d.lookup (txdir_name t) = some (.folder es))
    (hover : ¬ is_over c d es (own_fields root t s (pair_files d₀ s) op) (json_name s) (npz_name s)
      = true) :
    (execute os (journal_name t) (restore_or_remove es
      (own_fields root t s (pair_files d₀ s) op) (json_name s) (npz_name s))).Holds
      (Crash c root t s op d₀) (fun _ d => Crash c root t s op d₀ d ∧ Settled c t s op d₀ d) d := by
  have hp : pair d s = nodes (pair_files d₀ s) ∨
      (pair d s = halfway c t (pair_files d₀ s) op ∧ Armed c root t s op (pair_files d₀ s) d) := by
    rcases h.pair_ok with (hp | hp) | hp
    · exact Or.inl hp
    · exact absurd (is_over_new hp) hover
    · exact Or.inr hp
  obtain ⟨hbj, hbn⟩ := h.backups hjd es htx
  unfold restore_or_remove
  rw [(own_genuine _).tx_dir]
  cases hold : pair_files d₀ s with
  | none =>
    rw [hold] at hbj hbn hp hover
    have hnone : es.lookup "old.json" = none := by
      cases hx : es.lookup "old.json" with
      | none => rfl
      | some x => cases hbj x hx
    cases op with
    | delete =>
      -- there was no pair, so its deletion is over
      refine absurd ?_ hover
      have hpair : pair d s = nodes none := hp.elim id fun hp => hp.1
      have hj : d.lookup (json_name s) = none := congrArg Prod.fst hpair
      have hn : d.lookup (npz_name s) = none := congrArg Prod.snd hpair
      simp [is_over, own_fields, own_journal, hj, hn]
    | write json_data npz_arrays =>
      rcases hp with hp | ⟨hp, harmed⟩
      · refine absurd ?_ hover
        have hj : d.lookup (json_name s) = none := congrArg Prod.fst hp
        have hn : d.lookup (npz_name s) = none := congrArg Prod.snd hp
        simp [is_over, own_fields, own_journal, hj, hn]
      · exact h.remove_holds os hv hold (hold ▸ harmed) (hold ▸ hp)
  | some ab =>
    obtain ⟨a, b⟩ := ab
    rw [hold] at hbj hbn hp
    have hpresent : (own_fields root t s (some (a, b)) op).old_present = true := by cases op <;> rfl
    rw [if_pos hpresent]
    have hstuck : (es.lookup "old.json" = none ∨ es.lookup "old.npz" = none) →
        Settled c t s op d₀ d := by
      rintro hmiss
      rcases hp with hp | ⟨-, -, es', hes', hbackup⟩
      · exact Or.inl (hold ▸ hp)
      · obtain rfl : es = es' := by simpa [htx] using hes'
        obtain ⟨h1, h2⟩ := hbackup a b rfl
        rcases hmiss with hmiss | hmiss
        · rw [h1] at hmiss
          cases hmiss
        · rw [h2] at hmiss
          cases hmiss
    cases hx : es.lookup "old.json" with
    | none => exact ⟨h, h, hstuck (Or.inl hx)⟩
    | some x =>
      cases hy : es.lookup "old.npz" with
      | none => exact ⟨h, h, hstuck (Or.inr hy)⟩
      | some y =>
        obtain rfl : a = x := by simpa [nodes] using hbj x hx
        obtain rfl : b = y := by simpa [nodes] using hbn y hy
        refine h.restore_holds os hv hold ⟨hjd, es, htx, fun a' b' hab => ?_⟩ ?_
        · rw [hold] at hab
          cases hab
          exact ⟨hx, hy⟩
        · rw [hold]
          exact hp.imp id fun hp => hp.1

/-- Recovering the transaction's own journal settles the pair. -/
theorem Crash.recover_holds (os : Os c) (h : Crash c root t s op d₀ d) (hfresh : Fresh c t s op d₀) :
    (recover_transaction os root (journal_name t)).Holds (Crash c root t s op d₀)
      (fun _ d => Crash c root t s op d₀ d ∧ Settled c t s op d₀ d) d := by
  have hv := hfresh.voice
  -- a journal that is passed over
  have hignore : recovery_plan c root d (journal_name t) = .ignore → Settled c t s op d₀ d →
      (recover_transaction os root (journal_name t)).Holds (Crash c root t s op d₀)
        (fun _ d => Crash c root t s op d₀ d ∧ Settled c t s op d₀ d) d := fun hplan hs => by
    refine Prog.holds_bind (Prog.holds_get h ?_)
    rw [hplan]
    exact ⟨h, h, hs⟩
  by_cases hjd : Journaled c root t s op (pair_files d₀ s) d
  · rcases h.subdir_cases with htx | ⟨es, htx⟩
    · refine hignore (recovery_plan_ignore fun jr es hl => ?_) ?_
      · obtain rfl := Option.some.inj ((read_journaled hjd).symm.trans hl.1)
        have hes := hl.2
        rw [(own_genuine _).tx_dir, subdir, htx] at hes
        cases hes
      · exact h.pair_ok.resolve_right fun hp => by
          obtain ⟨-, -, es, hes, -⟩ := hp
          simp [htx] at hes
    · refine Prog.holds_bind (Prog.holds_get h ?_)
      rw [plan_journaled hjd htx]
      split
      · rename_i hover
        refine h.cleanup_holds os ?_ hv
        rcases h.pair_ok with hs | ⟨hp, -, es', hes', hbackup⟩
        · exact hs
        · obtain rfl : es = es' := by simpa [htx] using hes'
          exact Or.inl (is_over_halfway hfresh hp hbackup hover)
      · rename_i hover
        exact h.restore_or_remove_holds os hv hjd htx hover
  · have hs := h.pair_ok.resolve_right fun hp => hjd hp.2.1
    refine hignore (recovery_plan_ignore fun jr es hl => ?_) hs
    obtain ⟨b, data, hb, hdata, -⟩ := hl.data
    rcases h.journal with hj | hj | ⟨b', hj, hload⟩
    · rw [read_eq_some, hj] at hb
      cases hb
    · exact absurd hj hjd
    · obtain rfl : b' = b := by simpa [hj] using read_eq_some.1 hb
      rw [hload] at hdata
      cases hdata

/-- Every other journal is passed over. -/
theorem Crash.plan_other (h : Crash c root t s op d₀ d) (hfresh : Fresh c t s op d₀) {m : String}
    (hm : is_journal_name m = true) (hne : m ≠ journal_name t) :
    recovery_plan c root d m = .ignore := by
  have hlast := last_char_is_journal hm
  refine recovery_plan_ignore fun jr es hl => ?_
  obtain ⟨b, data, hb, hdata, hread⟩ := hl.data
  have hnames : NamesTx data t := read_journal_names hread (h.folder_eq (subdir_eq_some.1 hl.2))
  by_cases hj : m = json_name s
  · exact h.json_unnamed hfresh (hj ▸ hb) hdata hnames
  · have hn : m ≠ npz_name s := ne_of_last_char hlast (last_char_npz s) (by decide)
    have htmp : is_tmp_name m = false := not_tmp hlast (by decide)
    have hsame := (h.others m hj hn (ne_txdir t hlast (by decide)) hne).1 htmp
    refine (hfresh.json m b data ?_ hdata).1 hnames
    rw [read_eq_some, ← hsame]
    exact read_eq_some.1 hb

/-- The recovery of one journal keeps the pair settled, and that of the own journal settles it. -/
theorem Crash.recover_one_holds (os : Os c) (h : Crash c root t s op d₀ d) (hfresh : Fresh c t s op d₀)
    {m : String} (hm : is_journal_name m = true) :
    (recover_transaction os root m).Holds (Crash c root t s op d₀)
      (fun _ d' => Crash c root t s op d₀ d' ∧
        (m = journal_name t ∨ Settled c t s op d₀ d → Settled c t s op d₀ d')) d := by
  by_cases hne : m = journal_name t
  · subst hne
    exact (h.recover_holds os hfresh).mono (fun _ hd => hd) fun _ _ hd => ⟨hd.1, fun _ => hd.2⟩
  · refine Prog.holds_bind (Prog.holds_get h ?_)
    rw [h.plan_other hfresh hm hne]
    exact ⟨h, h, fun hs => hs.resolve_left hne⟩

/-- The first loop of a recovery pass settles the pair. -/
theorem Crash.recover_journals_holds (os : Os c) (h : Crash c root t s op d₀ d)
    (hfresh : Fresh c t s op d₀) :
    (Prog.forEach (recover_transaction os root)
      ((os.scan (d.keys.filter fun n => is_journal_name n)).insertionSort (· ≤ ·))).Holds
      (Crash c root t s op d₀)
      (fun _ d => Crash c root t s op d₀ d ∧ Settled c t s op d₀ d) d := by
  have hkeep : ∀ m ∈ (os.scan (d.keys.filter fun n => is_journal_name n)).insertionSort (· ≤ ·),
      ∀ e, Crash c root t s op d₀ e ∧ Settled c t s op d₀ e →
        (recover_transaction os root m).Holds (Crash c root t s op d₀)
          (fun _ d => Crash c root t s op d₀ d ∧ Settled c t s op d₀ d) e := fun m hm e he =>
    (he.1.recover_one_holds os hfresh (mem_journals.1 hm).2).mono (fun _ hd => hd)
      fun _ _ hd => ⟨hd.1, hd.2 (Or.inr he.2)⟩
  rcases h.pair_ok with hs | ⟨-, hjd, -⟩
  · exact Prog.holds_forEach (fun _ hd => hd.1) hkeep ⟨h, hs⟩
  · have hmem : journal_name t ∈ d := Finmap.mem_of_lookup_eq_some hjd
    exact Prog.holds_forEach_mem (fun _ hd => hd)
      (mem_journals.2 ⟨hmem, is_journal_name_own t⟩)
      (fun m hm e he => (he.recover_one_holds os hfresh (mem_journals.1 hm).2).mono (fun _ hd => hd)
        fun _ _ hd => hd.1)
      hkeep (fun e he => he.recover_holds os hfresh) h

/-- A recovery pass settles the pair. -/
theorem Crash.recover_all_holds (os : Os c) (h : Crash c root t s op d₀ d) (hfresh : Fresh c t s op d₀) :
    (recover_transactions os root).Holds (Crash c root t s op d₀)
      (fun _ d => Crash c root t s op d₀ d ∧ Settled c t s op d₀ d) d := by
  refine Prog.holds_bind (Prog.holds_get h (Prog.holds_bind ?_))
  refine (h.recover_journals_holds os hfresh).mono (fun _ hd => hd) fun _ e he => ?_
  refine Prog.holds_bind (Prog.holds_get he.1 ?_)
  exact Prog.holds_forEach (fun _ hd => hd.1) (fun m _ e he => holds_remove_orphan os
    (fun _ hd => hd.1) (fun _ hd => hd.1.journal_file)
    (fun _ _ hd hd' => Crash.shrink hd hfresh.voice hd') (fun _ hm => he.1.folder_eq hm) he) he

/-! ### The transaction itself -/

theorem Crash.commit_holds (os : Os c) (h : Crash c root t s op d₀ d) (hfresh : Fresh c t s op d₀)
    (name₁ name₂ : String) {step₁ step₂ : Dir β → Dir β} (h1 : Crash c root t s op d₀ (step₁ d))
    (h2 : Crash c root t s op d₀ (step₂ (step₁ d))) (hs : Settled c t s op d₀ (step₂ (step₁ d))) :
    (commit os root t name₁ name₂ step₁ step₂).Holds (Crash c root t s op d₀)
      (fun _ => Crash c root t s op d₀) d := by
  unfold commit
  refine Prog.holds_bind (Prog.holds_get h ?_)
  split
  · refine Prog.holds_bind ((h.recover_holds os hfresh).mono (fun _ hd => hd) fun _ e he => ?_)
    exact ⟨he.1, he.1⟩
  · refine Prog.holds_bind (Prog.holds_step h h1 ?_)
    refine Prog.holds_bind (Prog.holds_get h1 ?_)
    split
    · refine Prog.holds_bind ((h1.recover_holds os hfresh).mono (fun _ hd => hd) fun _ e he => ?_)
      exact ⟨he.1, he.1⟩
    · refine Prog.holds_bind (Prog.holds_step h1 h2 ?_)
      refine Prog.holds_bind ((h2.cleanup_holds os hs hfresh.voice).mono (fun _ hd => hd) fun _ e he => ?_)
      exact ⟨he.1, he.1⟩

/-- Once the copies are made: the journal, and then the commit. -/
theorem Building.finish_holds (os : Os c) (h : Building t d₀ (Copies (pair_files d₀ s)) d)
    (hrest : AtRest d₀) (hfresh : Fresh c t s op d₀) :
    (write_file os (journal_name t) (c.dumps (own_data root t s (pair_files d₀ s) op)) >>=
      fun _ => commit_of os root t s op).Holds
      (Crash c root t s op d₀) (fun _ => Crash c root t s op d₀) d := by
  have htorn : Crash c root t s op d₀ _ ∧ _ := h.put_journal hrest hfresh (Or.inl (os.part_dumps
    (own_data root t s (pair_files d₀ s) op)))
  obtain ⟨hcrash, hpair⟩ : Crash c root t s op d₀ _ ∧ _ := h.put_journal hrest hfresh (Or.inr rfl)
  have htwice : ∀ x y : β, put (journal_name t) y (put (journal_name t) x d) =
      put (journal_name t) y d := fun x y => Finmap.insert_insert d
  obtain ⟨h1, h2, hs⟩ := hcrash.steps h.armed hpair hfresh.voice
  refine Prog.holds_bind ⟨h.crash hrest hfresh, htorn.1, ?_⟩
  rw [htwice]
  exact ⟨hcrash, hcrash.commit_holds os hfresh _ _ h1 h2 hs⟩

/-- Every state a transaction can be stopped in meets the invariant. -/
theorem transaction_crash (os : Os c) (hrest : AtRest d₀) (hfresh : Fresh c t s op d₀) :
    (transaction os root t s op).Holds (Crash c root t s op d₀) (fun _ => Crash c root t s op d₀)
      d₀ :=
  transaction_holds os hfresh.txdir (hrest.crash hfresh) (fun _ hd => hd.crash hrest hfresh)
    (fun _ hd => hd.crash hrest hfresh) fun _ hd => hd.finish_holds os hrest hfresh

/-- Wherever a transaction is stopped, and however often the recoveries after it, the first recovery
    that runs to its end leaves the old pair or the new one, and the pairs of the other voices. -/
theorem transaction_crash_atomic (os : Os c) (hrest : AtRest d₀) (hfresh : Fresh c t s op d₀)
    {d₁ d₂ : Dir β} (hstop : (transaction os root t s op).Stops d₀ d₁)
    (hattempts : Prog.Attempts (fun os : Os c => recover_transactions os root) d₁ d₂) (os' : Os c) :
    (pair ((recover_transactions os' root).run d₂).2 s = pair d₀ s ∨
      pair ((recover_transactions os' root).run d₂).2 s = nodes (published c t op)) ∧
    ∀ s', s' ≠ s →
      pair_files ((recover_transactions os' root).run d₂).2 s' = pair_files d₀ s' ∧
      (s'.val ≠ txdir_name t → pair ((recover_transactions os' root).run d₂).2 s' = pair d₀ s') := by
  obtain ⟨hcrash, hsettled⟩ := Prog.recovered (transaction_crash os hrest hfresh)
    (fun os _ hd => Crash.recover_all_holds os hd hfresh) hstop hattempts os'
  refine ⟨?_, fun s' hs' => ?_⟩
  · rw [hrest.complete s]
    exact hsettled
  · have hnpz : Finmap.lookup (npz_name s') ((recover_transactions os' root).run d₂).2 =
        d₀.lookup (npz_name s') :=
      (hcrash.others _ (json_ne_npz s s').symm (fun h => hs' (npz_name_inj h))
        (ne_txdir t (last_char_npz s') (by decide))
        (ne_of_last_char (last_char_npz s') (last_char_journal t) (by decide))).1
        (not_tmp (last_char_npz s') (by decide))
    have hpair : s'.val ≠ txdir_name t →
        pair ((recover_transactions os' root).run d₂).2 s' = pair d₀ s' := fun hv' => by
      refine Prod.ext ?_ hnpz
      exact (hcrash.others _ (fun h => hs' (json_name_inj h)) (json_ne_npz s' s)
        (ne_txdir t (last_char_json s') (by decide)) (journal_ne_json hv').symm).1
        (not_tmp (last_char_json s') (by decide))
    refine ⟨?_, hpair⟩
    by_cases hv' : s'.val = txdir_name t
    · -- the id is the token's, so there was no such voice
      have hjr : json_name s' = journal_name t := by
        rw [json_name, hv']
        rfl
      have hnone : pair_files d₀ s' = none := by
        rw [pair_files, hjr, read, hfresh.journal]
      have hn : d₀.lookup (npz_name s') = none := by
        have hcomplete := congrArg Prod.snd (hrest.complete s')
        rwa [hnone] at hcomplete
      rw [hnone, pair_files, read, read, hnpz, hn]
      split
      · rename_i h
        cases h
      · rfl
    · exact pair_files_congr (hpair hv')

end

/-! ### A stopped registration -/

/-- In an empty directory no token is in use. -/
theorem fresh_empty {β α : Type} {c : Codec β α} {t : Token} {s : SafeId} {op : Operation α}
    (hv : s.val ≠ txdir_name t) (hdata : ∀ json_data npz_arrays, op = .write json_data npz_arrays →
      ¬ NamesTx json_data.get? t) : Fresh c t s op ∅ :=
  ⟨rfl, rfl, hv, fun n b data h => by simp [read] at h, fun n b h => by simp [read] at h, hdata⟩

/-- A registration stopped between its commit steps; the first recovery is stopped after its first
    step, the second one runs to its end. -/
theorem transaction_crash_atomic_anna :
    (pair ((recover_transactions (Sample.os none) Sample.root).run
        ((recover_transactions (Sample.os none) Sample.root).after 1
          ((transaction (Sample.os none) Sample.root Sample.first Sample.anna
            (.write Sample.profile ())).after 8 ∅))).2 Sample.anna = pair ∅ Sample.anna ∨
      pair ((recover_transactions (Sample.os none) Sample.root).run
        ((recover_transactions (Sample.os none) Sample.root).after 1
          ((transaction (Sample.os none) Sample.root Sample.first Sample.anna
            (.write Sample.profile ())).after 8 ∅))).2 Sample.anna =
        nodes (published Sample.codec Sample.first (.write Sample.profile ()))) :=
  (transaction_crash_atomic (Sample.os none) at_rest_empty
    (fresh_empty (by decide) fun _ _ h => by cases h; exact sample_unnamed _)
    (Prog.stops_after 8 _ _) (.again (Sample.os none) .none (Prog.stops_after 1 _ _))
    (Sample.os none)).1

end LocalVoice.SparkTTSVoices
