import LocalVoice.Lib.Run
import LocalVoice.SparkTTSVoices.Leftovers

/-! What is committed, and what recovery makes of it later. A journal that a failed cleanup leaves
    behind decides by the canonical files alone whether its transaction is over, so it takes a later
    commit on the same voice for a transaction that was interrupted and rolls it back. As long as
    every commit avoids such journals (`Clear`), no recovery undoes one (`commits_last`). -/

namespace LocalVoice.SparkTTSVoices
open LocalVoice.Lib

section
variable {β α : Type}

/-! ### Calls -/

/-- The directory, what the last operation on each voice has left that returned success, and whether
    a caller holds the lock and has recovered the pending journals. -/
structure Session (β : Type) where
  dir : Dir β
  last : SafeId → Option (β × β)
  locked : Bool

/-- The parts of a call: it recovers, and then commits a transaction, or releases the lock without
    one, as listing, loading and every call that is turned away do. -/
inductive Call (c : Codec β α) where
  | recover (os : Os c)
  | transact (os : Os c) (t : Token) (voice_id : String) (op : Operation α)
  | release

/-- What a caller has checked of the pair: a registration finds both files or none, a deletion finds
    both. All the other checks only turn more calls away. -/
def Checked (d : Dir β) (s : SafeId) : Operation α → Prop
  | .write _ _ => (d.lookup (json_name s)).isSome = (d.lookup (npz_name s)).isSome
  | .delete => (d.lookup (json_name s)).isSome ∧ (d.lookup (npz_name s)).isSome

/-- The token is in use nowhere, and no journal is about a voice of that name. -/
structure Unused (c : Codec β α) (root : Root) (t : Token) (s : SafeId) (op : Operation α)
    (d : Dir β) : Prop extends Fresh c t s op d where
  paths : ∀ n b data, read d n = some b → c.load_json b = some data →
    root.locate (((data "json_path").map Json.toStr).getD "") ≠ some (journal_name t)

section
variable [DecidableEq β]

/-- What `last` is after a transaction. -/
def record (c : Codec β α) (t : Token) (s : SafeId) (op : Operation α)
    (last : SafeId → Option (β × β)) : Outcome → SafeId → Option (β × β)
  | .committed => Function.update last s (published c t op)
  | .raised => last

inductive Step (c : Codec β α) (root : Root) : Session β → Call c → Session β → Prop where
  | recover (σ : Session β) (os : Os c) (h : σ.locked = false) : Step c root σ (.recover os)
      { dir := ((recover_transactions os root).run σ.dir).2, last := σ.last, locked := true }
  | transact (σ : Session β) (os : Os c) (t : Token) (voice_id : String) (op : Operation α)
      (s : SafeId) (h : σ.locked = true) (hs : safe_id voice_id = some s)
      (hchecked : Checked σ.dir s op) (hunused : Unused c root t s op σ.dir) :
      Step c root σ (.transact os t voice_id op)
        { dir := ((transaction os root t s op).run σ.dir).2
          last := record c t s op σ.last ((transaction os root t s op).run σ.dir).1
          locked := false }
  | release (σ : Session β) (h : σ.locked = true) : Step c root σ .release { σ with locked := false }

end

/-! ### The journals a commit has to avoid -/

/-- The recovery of the journal would undo the operation. -/
def Undoes (op : Operation α) (jr : Journal) (es : Folder β) : Prop :=
  match op with
  | .write _ _ => jr.old_present = true → "old.json" ∈ es ∧ "old.npz" ∈ es
  | .delete => jr.operation = some (.str "write") ∧ jr.old_present = true ∧ "old.json" ∈ es ∧
      "old.npz" ∈ es

/-- No journal on the voice would undo the operation, and a registered JSON file that has the name of
    a journal does not lead to a transaction directory. -/
structure Clear (c : Codec β α) (root : Root) (s : SafeId) (op : Operation α) (d : Dir β) : Prop where
  pending : ∀ m jr es, is_journal_name m = true → Leads c d m jr es →
    root.locate jr.json_path = some (json_name s) → ¬ Undoes op jr es
  reserved : ∀ json_data npz_arrays jr, op = .write json_data npz_arrays →
    is_journal_name (json_name s) = true →
    read_journal (json_name s) json_data.get? = some jr → subdir d jr.tx_dir = none

/-- Every commit is clear when it starts. -/
def Safe (c : Codec β α) (root : Root) (σ : Session β) : Call c → Prop
  | .transact _ _ voice_id op => ∀ s, safe_id voice_id = some s → Clear c root s op σ.dir
  | _ => True

/-! ### Up to the journal -/

variable {c : Codec β α} {root : Root} {t : Token} {s : SafeId} {op : Operation α} {d₀ d d' : Dir β}
  {last : SafeId → Option (β × β)} {m : String} {jr : Journal} {es : Folder β}

theorem read_journal_path {data : String → Option Json} (h : read_journal m data = some jr) :
    jr.json_path = ((data "json_path").map Json.toStr).getD "" := by
  unfold read_journal at h
  dsimp only at h
  split at h
  · cases h
    rfl
  · cases h

/-- No journal leads to the directory of an unused token. -/
theorem Fresh.leads_ne (hfresh : Fresh c t s op d₀) (hb : read d m = read d₀ m)
    (hl : Leads c d m jr es) : jr.tx_dir ≠ txdir_name t := by
  intro htx
  obtain ⟨b, data, hr, hdata, hread⟩ := hl.data
  exact (hfresh.json m b data (hb ▸ hr) hdata).1 (read_journal_names hread htx)

theorem journal_ne_txdir (hm : is_journal_name m = true) (t : Token) : m ≠ txdir_name t :=
  ne_txdir t (last_char_is_journal hm) (by decide)

theorem read_congr (h : d'.lookup m = d.lookup m) : read d' m = read d m := by
  rw [read, read, h]

theorem subdir_congr (h : d'.lookup m = d.lookup m) : subdir d' m = subdir d m := by
  rw [subdir, subdir, h]

variable [DecidableEq β]

/-- Filling the directory of an unused token. -/
theorem Building.kept {done : Folder β → Prop} (h : Building t d₀ done d) (hk : Kept c root last d₀)
    (hfresh : Fresh c t s op d₀) : Kept c root last d := by
  have hj : ∀ s, d.lookup (json_name s) = d₀.lookup (json_name s) := fun s =>
    h.others _ (ne_txdir t (last_char_json s) (by decide))
  have hn : ∀ s, d.lookup (npz_name s) = d₀.lookup (npz_name s) := fun s =>
    h.others _ (ne_txdir t (last_char_npz s) (by decide))
  refine ⟨fun s => (hn s).trans (hk.npz s), fun s => ?_, fun m es hes => ?_,
    fun m jr es hm hl => ?_⟩
  · rw [hj s]
    exact hk.json s
  · by_cases ht : m = txdir_name t
    · exact ⟨t, ht⟩
    · exact hk.folders m es (h.others m ht ▸ hes)
  · have hread := read_congr (h.others m (journal_ne_txdir hm t))
    have hsub := subdir_congr (h.others _ (hfresh.leads_ne hread hl))
    obtain ⟨t₂, s₂, hm₂, hgen, hpair, hquiet, hnone⟩ := hk.quiet m jr es hm
      ⟨hread ▸ hl.1, hsub ▸ hl.2⟩
    have hsame : pair d s₂ = pair d₀ s₂ := Prod.ext (hj s₂) (hn s₂)
    exact ⟨t₂, s₂, hm₂, hgen, hsame.trans hpair, hquiet.mono hsame fun _ _ h => h, hnone⟩

/-- The transaction's own journal is quiet over the old pair. -/
theorem own_quiet {old : Option (β × β)} (hpair : pair d s = nodes old)
    (hop : op = .delete → old ≠ none) (hcopies : Copies old es) :
    Quiet c d old s (own_fields root t s old op) es := by
  cases old with
  | some ab =>
    obtain ⟨a, b⟩ := ab
    refine Or.inr ⟨?_, Or.inr (Or.inr ⟨a, b, rfl, hcopies.1, hcopies.2⟩)⟩
    cases op <;> rfl
  | none =>
    have hj : d.lookup (json_name s) = none := congrArg Prod.fst hpair
    have hn : d.lookup (npz_name s) = none := congrArg Prod.snd hpair
    cases op with
    | delete => exact absurd rfl (hop rfl)
    | write => simp [Quiet, is_over, own_fields, own_journal, hj, hn]

/-- Writing the journal. -/
theorem Building.journal_kept (h : Building t d₀ (Copies (last s)) d) (hk : Kept c root last d₀)
    (hunused : Unused c root t s op d₀) (hpair : pair d₀ s = nodes (last s))
    (hop : op = .delete → last s ≠ none) :
    Kept c root last (put (journal_name t) (c.dumps (own_data root t s (last s) op)) d) ∧
      Armed c root t s op (last s)
        (put (journal_name t) (c.dumps (own_data root t s (last s) op)) d) ∧
      pair (put (journal_name t) (c.dumps (own_data root t s (last s) op)) d) s =
        nodes (last s) := by
  have hfresh := hunused.toFresh
  have hbuild := h.kept hk hfresh
  obtain ⟨es, hes, hcopies⟩ := h.txdir
  generalize hput : put (journal_name t) (c.dumps (own_data root t s (last s) op)) d = e
  have hkeep : ∀ m, m ≠ journal_name t → e.lookup m = d.lookup m := fun m hm => by
    rw [← hput, lookup_put, if_neg hm]
  have hself : Journaled c root t s op (last s) e := by
    rw [Journaled, ← hput, lookup_put, if_pos rfl]
  have hpairs : ∀ s, s.val ≠ txdir_name t → pair e s = pair d s := fun s hs =>
    pair_congr hs fun m _ hm => hkeep m hm
  have htx : e.lookup (txdir_name t) = some (.folder es) := by
    rw [hkeep _ (ne_txdir t (last_char_journal t) (by decide)).symm, hes]
  have hnone : ∀ s, s.val = txdir_name t → last s = none := fun s hs =>
    hk.unpublished hfresh.journal hs
  have hpair' : pair e s = nodes (last s) := by
    rw [hpairs s hfresh.voice, ← hpair]
    simp [pair, h.others _ (ne_txdir t (last_char_json s) (by decide)),
      h.others _ (ne_txdir t (last_char_npz s) (by decide))]
  refine ⟨⟨fun s' => ?_, fun s' => ?_, fun m es' hes' => ?_, fun m jr es' hm hl => ?_⟩,
    ⟨hself, es, htx, fun a b hab => ?_⟩, hpair'⟩
  · rw [hkeep _ (ne_of_last_char (last_char_npz s') (last_char_journal t) (by decide))]
    exact hbuild.npz s'
  · by_cases hs' : s'.val = txdir_name t
    · exact Or.inr ⟨hnone s' hs', t, hs'⟩
    · rw [hkeep _ (journal_ne_json hs').symm]
      exact hbuild.json s'
  · by_cases hm : m = journal_name t
    · rw [hm, show e.lookup (journal_name t) = _ from hself] at hes'
      cases hes'
    · exact hbuild.folders m es' (hkeep m hm ▸ hes')
  · by_cases hm' : m = journal_name t
    · subst hm'
      have hown := hself.leads htx
      obtain rfl := Option.some.inj (hown.1.symm.trans hl.1)
      obtain rfl := Option.some.inj (hown.2.symm.trans hl.2)
      exact ⟨t, s, rfl, own_genuine _, hpair', own_quiet hpair' hop hcopies, hnone⟩
    · have hread := read_congr (hkeep m hm')
      have htx_ne : jr.tx_dir ≠ journal_name t := fun htx => by
        have hfile := subdir_eq_some.1 hl.2
        rw [htx, show e.lookup (journal_name t) = _ from hself] at hfile
        cases hfile
      obtain ⟨t₂, s₂, hm₂, hgen, hpair₂, hquiet, hnone₂⟩ := hbuild.quiet m jr es' hm
        ⟨hread ▸ hl.1, subdir_congr (hkeep _ htx_ne) ▸ hl.2⟩
      have hs₂ : s₂.val ≠ txdir_name t := fun hs₂ => by
        obtain ⟨b, data, hb, hdata, hjr⟩ := hl.data
        rw [hread, read_congr (h.others m (journal_ne_txdir hm t))] at hb
        refine hunused.paths m b data hb hdata ?_
        rw [← read_journal_path hjr, hgen.json_path, json_name, hs₂]
        rfl
      exact ⟨t₂, s₂, hm₂, hgen, (hpairs s₂ hs₂).trans hpair₂,
        hquiet.mono (hpairs s₂ hs₂) fun _ _ h => h, hnone₂⟩
  · rw [hab] at hcopies
    exact hcopies

/-! ### The commit -/

/-- Another pair for one voice, if the journals on that voice are quiet over it and its JSON file
    leads nowhere. -/
theorem Kept.republish (h : Kept c root last d) {new : Option (β × β)}
    (hm : ∀ m, m ≠ json_name s → m ≠ npz_name s → d'.lookup m = d.lookup m)
    (hpair : pair d' s = nodes new)
    (hjournals : ∀ t jr es, is_journal_name (journal_name t) = true →
      Leads c d (journal_name t) jr es → Genuine root t s jr → Quiet c d' new s jr es)
    (hjson : ∀ jr es, is_journal_name (json_name s) = true → ¬ Leads c d' (json_name s) jr es) :
    Kept c root (Function.update last s new) d' := by
  have hj : d'.lookup (json_name s) = _ := congrArg Prod.fst hpair
  have hn : d'.lookup (npz_name s) = _ := congrArg Prod.snd hpair
  have hfile := nodes_file new
  have hother : ∀ s', s' ≠ s → d'.lookup (json_name s') = d.lookup (json_name s') ∧
      d'.lookup (npz_name s') = d.lookup (npz_name s') := fun s' hs' =>
    ⟨hm _ (fun he => hs' (json_name_inj he)) (json_ne_npz s' s),
      hm _ (json_ne_npz s s').symm fun he => hs' (npz_name_inj he)⟩
  have hfolder : ∀ m es, d'.lookup m = some (.folder es) → m ≠ json_name s ∧ m ≠ npz_name s := by
    rintro m es hes
    refine ⟨?_, ?_⟩
    · rintro rfl
      exact hfile.1 es (hj ▸ hes)
    · rintro rfl
      exact hfile.2 es (hn ▸ hes)
  refine ⟨fun s' => ?_, fun s' => ?_, fun m es hes => ?_, fun m jr es hjm hl => ?_⟩
  · by_cases hs' : s' = s
    · subst hs'
      rw [Function.update_self, hn]
    · rw [Function.update_of_ne hs', (hother s' hs').2]
      exact h.npz s'
  · by_cases hs' : s' = s
    · subst hs'
      rw [Function.update_self, hj]
      exact Or.inl rfl
    · rw [Function.update_of_ne hs', (hother s' hs').1]
      exact h.json s'
  · obtain ⟨h1, h2⟩ := hfolder m es hes
    exact h.folders m es (hm m h1 h2 ▸ hes)
  · have hmj : m ≠ json_name s := by
      rintro rfl
      exact hjson jr es hjm hl
    have hmn : m ≠ npz_name s :=
      ne_of_last_char (last_char_is_journal hjm) (last_char_npz s) (by decide)
    obtain ⟨h1, h2⟩ := hfolder _ es (subdir_eq_some.1 hl.2)
    have hl' : Leads c d m jr es :=
      ⟨read_congr (hm m hmj hmn) ▸ hl.1, subdir_congr (hm _ h1 h2) ▸ hl.2⟩
    obtain ⟨t, s₂, rfl, hgen, hpair₂, hquiet, hnone⟩ := h.quiet m jr es hjm hl'
    have hnone' : ∀ s', s'.val = txdir_name t → Function.update last s new s' = none := by
      intro s' hs'
      have hne : s' ≠ s := by
        rintro rfl
        refine hmj ?_
        rw [json_name, hs']
        rfl
      rw [Function.update_of_ne hne]
      exact hnone s' hs'
    by_cases hs₂ : s₂ = s
    · subst hs₂
      rw [show nodes new = nodes (Function.update last s₂ new s₂) by rw [Function.update_self]] at hpair
      refine ⟨t, s₂, rfl, hgen, hpair, ?_, hnone'⟩
      rw [Function.update_self]
      exact hjournals t jr es hjm hl' hgen
    · have hsame : pair d' s₂ = pair d s₂ := Prod.ext (hother s₂ hs₂).1 (hother s₂ hs₂).2
      refine ⟨t, s₂, rfl, hgen, ?_, ?_, hnone'⟩
      · rw [Function.update_of_ne hs₂]
        exact hsame.trans hpair₂
      · rw [Function.update_of_ne hs₂]
        exact hquiet.mono hsame fun _ _ h => h

/-- A journal that would not undo the operation is quiet over the pair it publishes. -/
theorem quiet_of_not_undoes (hgen : Genuine root t s jr) {t' : Token}
    (hpair : pair d s = nodes (published c t' op)) (h : ¬ Undoes op jr es) :
    Quiet c d (published c t' op) s jr es := by
  have hmissing : jr.old_present = true → ¬ ("old.json" ∈ es ∧ "old.npz" ∈ es) →
      Quiet c d (published c t' op) s jr es := fun hold hmem => by
    refine Or.inr ⟨hold, ?_⟩
    rw [not_and_or] at hmem
    exact hmem.imp Finmap.lookup_eq_none.2 fun h => Or.inl (Finmap.lookup_eq_none.2 h)
  cases op with
  | write json_data npz_arrays =>
    obtain ⟨hold, hmem⟩ := Classical.not_imp.1 h
    exact hmissing hold hmem
  | delete =>
    have hj : d.lookup (json_name s) = none := congrArg Prod.fst hpair
    have hn : d.lookup (npz_name s) = none := congrArg Prod.snd hpair
    rcases hgen.operation with hw | ⟨hd, -⟩
    · by_cases hold : jr.old_present = true
      · exact hmissing hold fun hmem => h ⟨hw, hold, hmem⟩
      · exact Or.inl (by simp [is_over, hw, hold, hj, hn])
    · exact Or.inl (by simp [is_over, hd, hj, hn])

/-- Rolling back a commit leads back to the state in front of its first step, up to the new files. -/
theorem undo_holds (os : Os c) {old : Option (β × β)} {I : Dir β → Prop} {Q : Unit → Dir β → Prop}
    (hI : ∀ d, I d) (harmed : Armed c root t s op old d)
    (hhalf : pair d s = halfway c t old op) (hback : pair d' s = nodes old)
    (hm : ∀ m, m ≠ json_name s → m ≠ npz_name s → d.lookup m = d'.lookup m)
    (hop : op = .delete → old ≠ none) (hfresh : Fresh c t s op d₀) (hold : pair_files d₀ s = old)
    (hclean : (cleanup_transaction os (txdir_name t) (journal_name t)).Holds I Q d') :
    (recover_transaction os root (journal_name t)).Holds I Q d := by
  obtain ⟨hjd, es, hes, hbackup⟩ := harmed
  have hj : d.lookup (json_name s) = _ := congrArg Prod.fst hhalf
  have hn : d.lookup (npz_name s) = _ := congrArg Prod.snd hhalf
  have hj' : d'.lookup (json_name s) = _ := congrArg Prod.fst hback
  have hn' : d'.lookup (npz_name s) = _ := congrArg Prod.snd hback
  have hne := json_ne_npz s s
  have hext : ∀ e : Dir β, (∀ m, m ≠ json_name s → m ≠ npz_name s → e.lookup m = d.lookup m) →
      pair e s = nodes old → e = d' := by
    intro e he hpair
    apply Finmap.ext_lookup
    intro m
    by_cases h1 : m = json_name s
    · rw [h1, hj']
      exact congrArg Prod.fst hpair
    · by_cases h2 : m = npz_name s
      · rw [h2, hn']
        exact congrArg Prod.snd hpair
      · exact (he m h1 h2).trans (hm m h1 h2)
  have hfile : (∀ es, d.lookup (json_name s) ≠ some (.folder es)) ∧
      ∀ es, d.lookup (npz_name s) ≠ some (.folder es) := by
    rw [hj, hn]
    cases op <;> cases old <;> simp [halfway, nodes]
  refine Prog.holds_bind (Prog.holds_get (hI d) ?_)
  rw [plan_journaled hjd hes]
  split
  · rename_i hover
    subst hold
    rw [hext d (fun _ _ _ => rfl) (is_over_halfway hfresh hhalf hbackup hover)]
    exact hclean
  · unfold restore_or_remove
    rw [(own_genuine old).tx_dir]
    cases old with
    | some ab =>
      obtain ⟨a, b⟩ := ab
      obtain ⟨hx, hy⟩ := hbackup a b rfl
      have hpresent : (own_fields root t s (some (a, b)) op).old_present = true := by
        cases op <;> rfl
      rw [if_pos hpresent, hx, hy]
      refine Prog.holds_bind (holds_restore os (hI _) (fun _ _ _ _ => hI _) hfile.1 (hI _) ?_)
      rw [if_pos rfl]
      refine Prog.holds_bind (holds_restore os (hI _) (fun _ _ _ _ => hI _) ?_ (hI _) ?_)
      · rw [lookup_put, if_neg hne.symm]
        exact hfile.2
      · rw [if_pos rfl, hext (put (npz_name s) b (put (json_name s) a d))]
        · exact hclean
        · exact fun m h1 h2 => by rw [lookup_put, if_neg h2, lookup_put, if_neg h1]
        · simp [pair, lookup_put, hne, nodes]
    | none =>
      cases op with
      | delete => exact absurd rfl (hop rfl)
      | write json_data npz_arrays =>
        refine Prog.holds_bind (holds_unlink (hI _) hfile.1 (hI _) ?_)
        rw [if_pos rfl]
        refine Prog.holds_bind (holds_unlink (hI _) ?_ (hI _) ?_)
        · rw [lookup_erase_ite, if_neg hne.symm]
          exact hfile.2
        · rw [if_pos rfl, hext (Finmap.erase (npz_name s) (Finmap.erase (json_name s) d))]
          · exact hclean
          · exact fun m h1 h2 => by rw [lookup_erase_ite, if_neg h2, lookup_erase_ite, if_neg h1]
          · simp [pair, lookup_erase_ite, nodes]

/-- The token of a pair is no field of a journal. -/
theorem read_journal_set (json_data : Dict String Json) (x : Json) :
    read_journal m (json_data.set "__pair_token" x).get? = read_journal m json_data.get? := by
  simp [read_journal]

/-- Publishing leaves every journal quiet that the operation has avoided. -/
theorem Kept.publish (h : Kept c root last d) (hfresh : Fresh c t s op d₀)
    (hclear : Clear c root s op d₀)
    (hfar : ∀ n, n ≠ txdir_name t → n ≠ journal_name t → d.lookup n = d₀.lookup n)
    (hown : ∀ jr es, Leads c d (journal_name t) jr es → jr = own_fields root t s (last s) op)
    (hm : ∀ m, m ≠ json_name s → m ≠ npz_name s → d'.lookup m = d.lookup m)
    (hpair : pair d' s = nodes (published c t op)) :
    Kept c root (Function.update last s (published c t op)) d' := by
  have hj : d'.lookup (json_name s) = _ := congrArg Prod.fst hpair
  have hn : d'.lookup (npz_name s) = _ := congrArg Prod.snd hpair
  refine h.republish hm hpair (fun t₂ jr es hjm hl hgen => ?_) fun jr es hjm hl => ?_
  · by_cases ht : journal_name t₂ = journal_name t
    · obtain rfl := hown jr es (ht ▸ hl)
      exact Or.inl (is_over_new hpair)
    · -- a journal that was there before
      have htx : jr.tx_dir ≠ txdir_name t := fun htx =>
        ht (congrArg (· ++ ".json") (hgen.tx_dir.symm.trans htx))
      have htj : jr.tx_dir ≠ journal_name t := by
        rw [hgen.tx_dir]
        exact (ne_txdir t₂ (last_char_journal t) (by decide)).symm
      have hl₀ : Leads c d₀ (journal_name t₂) jr es :=
        ⟨read_congr (hfar _ (journal_ne_txdir hjm t) ht) ▸ hl.1,
          subdir_congr (hfar _ htx htj) ▸ hl.2⟩
      exact quiet_of_not_undoes hgen hpair (hclear.pending _ jr es hjm hl₀ hgen.json_path)
  · obtain ⟨b, data, hb, hdata, hread⟩ := hl.data
    rw [read_eq_some, hj] at hb
    cases op with
    | delete => cases hb
    | write json_data npz_arrays =>
      obtain rfl : new_json c t json_data = b := by simpa [published, nodes] using hb
      obtain rfl := Option.some.inj ((c.load_dumps _).symm.trans hdata)
      rw [read_journal_set] at hread
      have hes := subdir_eq_some.1 hl.2
      have hne : jr.tx_dir ≠ json_name s ∧ jr.tx_dir ≠ npz_name s := by
        refine ⟨fun he => ?_, fun he => ?_⟩
        · rw [he, hj] at hes
          cases hes
        · rw [he, hn] at hes
          cases hes
      rw [hm _ hne.1 hne.2] at hes
      have htx : jr.tx_dir ≠ txdir_name t := fun htx =>
        hfresh.data json_data npz_arrays rfl (read_journal_names hread htx)
      have htj : jr.tx_dir ≠ journal_name t := fun htj => h.journal_file t es (htj ▸ hes)
      have hnone := hclear.reserved json_data npz_arrays jr rfl hjm hread
      rw [hfar _ htx htj] at hes
      rw [subdir_eq_some.2 hes] at hnone
      cases hnone

/-- A commit leaves what `record` says, whatever fails in it. -/
theorem Kept.commit_holds (os : Os c) (h : Kept c root last d)
    (harmed : Armed c root t s op (last s) d) (hpair : pair d s = nodes (last s))
    (hfresh : Fresh c t s op d₀) (hold : pair_files d₀ s = last s)
    (hop : op = .delete → last s ≠ none) (hclear : Clear c root s op d₀)
    (hfar : ∀ n, n ≠ txdir_name t → n ≠ journal_name t → d.lookup n = d₀.lookup n)
    (hnone : ∀ s, s.val = txdir_name t → last s = none) :
    (commit_of os root t s op).Holds (fun _ => True)
      (fun out => Kept c root (record c t s op last out)) d := by
  have hv := hfresh.voice
  obtain ⟨d₁, hshrink₁, harmed₁, hm₁, hpair₁⟩ := first_step_spec op harmed hpair
  obtain ⟨d₂, hshrink₂, hm₂, hpair₂⟩ := second_step_spec c t s op d
  have hback : pair d₁ s = nodes (last s) := (pair_congr hv hshrink₁.others).trans hpair
  refine Prog.holds_bind (Prog.holds_get trivial ?_)
  split
  · exact Prog.holds_bind ((h.recover_holds os (is_journal_name_own t)).mono (fun _ _ => trivial)
      fun _ e he => ⟨trivial, he⟩)
  · refine Prog.holds_bind (Prog.holds_step trivial trivial ?_)
    refine Prog.holds_bind (Prog.holds_get trivial ?_)
    split
    · -- rolled back to `d₁`
      have harmed' : Armed c root t s op (last s) (first_step c t s op d) := by
        unfold Armed Journaled
        rw [hm₁ _ (journal_ne_json hv)
            (ne_of_last_char (last_char_journal t) (last_char_npz s) (by decide)),
          hm₁ _ (ne_txdir t (last_char_json s) (by decide)).symm
            (ne_txdir t (last_char_npz s) (by decide)).symm]
        exact harmed₁
      have hundo := undo_holds os (Q := fun _ => Kept c root last) (fun _ => trivial) harmed' hpair₁
        hback hm₁ hop hfresh hold ((h.shrink hnone hshrink₁).cleanup_holds os hnone)
      exact Prog.holds_bind (hundo.mono (fun _ _ => trivial) fun _ e he => ⟨trivial, he⟩)
    · refine Prog.holds_bind (Prog.holds_step trivial trivial ?_)
      have hnew := (h.shrink hnone hshrink₂).publish hfresh hclear
        (fun n ht hr => (hshrink₂.others n ht hr).trans (hfar n ht hr))
        (fun jr es hl => by
          obtain ⟨es', hl', -⟩ := hshrink₂.leads hl
          exact Option.some.inj (hl'.1.symm.trans (read_journaled harmed.1)))
        hm₂ hpair₂
      have hnone' : ∀ s', s'.val = txdir_name t →
          Function.update last s (published c t op) s' = none := fun s' hs' => by
        have hne : s' ≠ s := by
          rintro rfl
          exact hv hs'
        rw [Function.update_of_ne hne]
        exact hnone s' hs'
      exact Prog.holds_bind ((hnew.cleanup_holds os hnone').mono (fun _ _ => trivial)
        fun _ e he => ⟨trivial, he⟩)

/-! ### Runs -/

/-- What a caller has checked of the pair, and what is then known of it. -/
theorem Kept.checked (h : Kept c root last d) (hchecked : Checked d s op) :
    pair d s = nodes (last s) ∧ (op = .delete → last s ≠ none) := by
  have hn := h.npz s
  have hsome : (d.lookup (json_name s)).isSome = (d.lookup (npz_name s)).isSome := by
    cases op with
    | write => exact hchecked
    | delete => rw [hchecked.1, hchecked.2]
  refine ⟨?_, fun hop hlast => ?_⟩
  · rcases h.json s with hj | ⟨hlast, -⟩
    · exact Prod.ext hj hn
    · rw [hlast] at hn ⊢
      rw [hn] at hsome
      exact Prod.ext (Option.isSome_eq_false_iff.1 hsome |> Option.isNone_iff_eq_none.1) hn
  · subst hop
    have hsome := hchecked.2
    rw [hn, hlast] at hsome
    cases hsome

/-- A transaction that avoids the journals left behind. -/
theorem Kept.transaction_holds (os : Os c) (h : Kept c root last d) (hchecked : Checked d s op)
    (hunused : Unused c root t s op d) (hclear : Clear c root s op d) :
    (transaction os root t s op).Holds (fun _ => True)
      (fun out => Kept c root (record c t s op last out)) d := by
  have hfresh := hunused.toFresh
  obtain ⟨hpair, hop⟩ := h.checked hchecked
  have hold := h.files s
  refine SparkTTSVoices.transaction_holds os hfresh.txdir trivial (fun _ _ => trivial)
    (fun e he => he.kept h hfresh) fun e he => ?_
  rw [hold] at he ⊢
  obtain ⟨hk, harmed, hpair'⟩ := he.journal_kept h hunused hpair hop
  refine Prog.holds_bind ⟨trivial, trivial, ?_⟩
  have htwice : ∀ x y : β, put (journal_name t) y (put (journal_name t) x e) =
      put (journal_name t) y e := fun x y => Finmap.insert_insert e
  rw [htwice]
  refine ⟨trivial, hk.commit_holds os harmed hpair' hfresh hold hop hclear (fun n ht hr => ?_)
    fun s hs => h.unpublished hfresh.journal hs⟩
  rw [lookup_put, if_neg hr, he.others n ht]

/-- At rest every pair is the last one. -/
theorem AtRest.kept (hrest : AtRest d) (hlast : ∀ s, last s = pair_files d s) :
    Kept c root last d := by
  have hpair : ∀ s, pair d s = nodes (last s) := fun s => by rw [hlast s, hrest.complete s]
  exact ⟨fun s => congrArg Prod.snd (hpair s), fun s => Or.inl (congrArg Prod.fst (hpair s)),
    fun m es hes => absurd hes (hrest.files_only m es),
    fun m jr es _ hl => absurd (subdir_eq_some.1 hl.2) (hrest.files_only _ es)⟩

/-- One step of a caller whose commits are clear. -/
theorem Kept.step {σ σ' : Session β} {call : Call c} (h : Kept c root σ.last σ.dir)
    (hstep : restrict (Safe c root) (Step c root) σ call σ') : Kept c root σ'.last σ'.dir := by
  obtain ⟨hsafe, hstep⟩ := hstep
  cases hstep with
  | recover os _ => exact (h.recover_all_holds os).run
  | transact os t voice_id op s _ hs hchecked hunused =>
    exact (h.transaction_holds os hchecked hunused (hsafe s hs)).run
  | release => exact h

/-- In every run whose commits avoid the journals that would undo them, each pair is the one that the
    last operation on its voice has left; the JSON name of an unknown voice may be a journal's. -/
theorem commits_last {σ₀ σ : Session β} {calls : List (Call c)} (hrest : AtRest σ₀.dir)
    (hlast : ∀ s, σ₀.last s = pair_files σ₀.dir s)
    (hrun : Run (restrict (Safe c root) (Step c root)) σ₀ calls σ) (s : SafeId) :
    pair_files σ.dir s = σ.last s ∧
      ((∀ t, s.val ≠ txdir_name t) → pair σ.dir s = nodes (σ.last s)) := by
  have hkept : Kept c root σ.last σ.dir :=
    hrun.invariant (I := fun σ => Kept c root σ.last σ.dir) (fun h hstep => h.step hstep)
      (hrest.kept hlast)
  refine ⟨hkept.files s, fun hs => Prod.ext ?_ (hkept.npz s)⟩
  rcases hkept.json s with hj | ⟨-, t, ht⟩
  · exact hj
  · exact absurd ht (hs t)

end

/-! ### Two registrations of one voice -/

namespace Sample

/-- The file says nothing of the token. -/
def free (t : Token) : Bytes → Bool
  | .object items =>
    (items.lookup "tx_dir").map Json.toStr ≠ some (txdir_name t) &&
      (items.lookup "token").map Json.toStr ≠ some t.val &&
      json_pair_token (fun k => items.lookup k) ≠ some t.val &&
      root.locate (((items.lookup "json_path").map Json.toStr).getD "") ≠ some (journal_name t)
  | .archive token => token ≠ t.val
  | .torn => true

theorem free_unused {d : Dir Bytes} {t : Token} {s : SafeId} {op : Operation Unit}
    (htx : d.lookup (txdir_name t) = none) (hjr : d.lookup (journal_name t) = none)
    (hv : s.val ≠ txdir_name t)
    (hdata : ∀ json_data npz_arrays, op = .write json_data npz_arrays → ¬ NamesTx json_data.get? t)
    (hfree : ∀ n ∈ d.keys, ((read d n).map (free t)).getD true = true) :
    Unused codec root t s op d := by
  have hfile : ∀ n b, read d n = some b → free t b = true := fun n b hb => by
    have hn := hfree n (Finmap.mem_keys.2 (Finmap.mem_of_lookup_eq_some (read_eq_some.1 hb)))
    rw [hb] at hn
    exact hn
  have hobject : ∀ n b data, read d n = some b → codec.load_json b = some data → ∃ items,
      b = .object items ∧ data = fun k => items.lookup k := fun n b data _ hdata => by
    cases b with
    | object items => exact ⟨items, rfl, (Option.some.inj hdata).symm⟩
    | archive | torn => cases hdata
  refine ⟨⟨htx, hjr, hv, fun n b data hb hdata => ?_, fun n b hb => ?_, hdata⟩,
    fun n b data hb hdata => ?_⟩
  · obtain ⟨items, rfl, rfl⟩ := hobject n b data hb hdata
    have hf := hfile n _ hb
    simp only [free, Bool.and_eq_true, decide_eq_true_eq] at hf
    obtain ⟨⟨⟨h1, h2⟩, h3⟩, -⟩ := hf
    refine ⟨?_, h3⟩
    rintro (⟨v, hv, hval⟩ | ⟨v, hv, hval⟩)
    · exact h1 ((congrArg (Option.map Json.toStr) hv).trans (congrArg some hval))
    · exact h2 ((congrArg (Option.map Json.toStr) hv).trans (congrArg some hval))
  · cases b with
    | object | torn => simp [codec]
    | archive token =>
      have hf := hfile n _ hb
      simp only [free, decide_eq_true_eq] at hf
      simpa [codec] using hf
  · obtain ⟨items, rfl, rfl⟩ := hobject n b data hb hdata
    have hf := hfile n _ hb
    simp only [free, Bool.and_eq_true, decide_eq_true_eq] at hf
    exact hf.2

/-- The empty directory. -/
def start : Session Bytes := ⟨∅, fun _ => none, false⟩

theorem start_unlocked : start.locked = false := rfl

/-- A recovery whose cleanups fail at `n`. -/
def recovered (n : Option ℕ) (σ : Session Bytes) : Session Bytes :=
  { dir := ((recover_transactions (os n) root).run σ.dir).2, last := σ.last, locked := true }

/-- The voice is registered, and the cleanup fails at `n`. -/
def registered (n : Option ℕ) (t : Token) (σ : Session Bytes) : Session Bytes where
  dir := ((transaction (os n) root t anna (.write profile ())).run σ.dir).2
  last := record codec t anna (.write profile ()) σ.last
    ((transaction (os n) root t anna (.write profile ())).run σ.dir).1
  locked := false

/-- The pair is complete or missing, and the token is in use nowhere. -/
def ready (t : Token) (d : Dir Bytes) : Bool :=
  ((d.lookup (json_name anna)).isSome = (d.lookup (npz_name anna)).isSome) &&
    (d.lookup (txdir_name t)).isNone && (d.lookup (journal_name t)).isNone &&
      ∀ n ∈ d.keys, ((read d n).map (free t)).getD true

theorem registered_step {n : Option ℕ} {t : Token} {σ : Session Bytes} (h : σ.locked = true)
    (hv : anna.val ≠ txdir_name t) (hready : ready t σ.dir = true) :
    Step codec root σ (.transact (os n) t "clone:anna" (.write profile ())) (registered n t σ) := by
  simp only [ready, Bool.and_eq_true, decide_eq_true_eq, Option.isNone_iff_eq_none] at hready
  obtain ⟨⟨⟨hchecked, htx⟩, hjr⟩, hfree⟩ := hready
  exact .transact σ (os n) t "clone:anna" (.write profile ()) anna h (by decide) hchecked
    (free_unused htx hjr hv (fun _ _ h => by cases h; exact sample_unnamed t) hfree)

/-- Without a transaction directory every operation is clear. -/
theorem no_folder_clear {d : Dir Bytes} {s : SafeId} {op : Operation Unit}
    (h : ∀ n ∈ d.keys, (subdir d n).isNone = true) : Clear codec root s op d := by
  have hnone : ∀ n, subdir d n = none := fun n => by
    cases hn : subdir d n with
    | none => rfl
    | some es =>
      have hmem := h n (Finmap.mem_keys.2 (Finmap.mem_of_lookup_eq_some (subdir_eq_some.1 hn)))
      rw [hn] at hmem
      cases hmem
  refine ⟨fun m jr es _ hl _ => ?_, fun _ _ jr _ _ _ => hnone _⟩
  have hes := hl.2
  rw [hnone] at hes
  cases hes

theorem recovered_safe (n : Option ℕ) {σ : Session Bytes} (h : σ.locked = false) :
    restrict (Safe codec root) (Step codec root) σ (.recover (os n)) (recovered n σ) :=
  ⟨trivial, .recover σ (os n) h⟩

theorem registered_safe {n : Option ℕ} {t : Token} {σ : Session Bytes}
    (hclear : ∀ n ∈ σ.dir.keys, (subdir σ.dir n).isNone = true)
    (h : Step codec root σ (.transact (os n) t "clone:anna" (.write profile ()))
      (registered n t σ)) :
    restrict (Safe codec root) (Step codec root) σ
      (.transact (os n) t "clone:anna" (.write profile ())) (registered n t σ) :=
  ⟨fun _ _ => no_folder_clear hclear, h⟩

end Sample

/-- The first registration leaves its journal behind, the recovery before the second one removes it. -/
theorem commits_last_anna :
    pair_files (Sample.recovered none (Sample.registered none Sample.second (Sample.recovered none
        (Sample.registered (some 0) Sample.first (Sample.recovered none Sample.start))))).dir
        Sample.anna =
      (Sample.recovered none (Sample.registered none Sample.second (Sample.recovered none
        (Sample.registered (some 0) Sample.first (Sample.recovered none Sample.start))))).last
        Sample.anna := by
  have hrun := Run.snoc (Run.snoc (Run.snoc (Run.snoc (Run.snoc .nil
    (Sample.recovered_safe none Sample.start_unlocked))
    (Sample.registered_safe (by decide +kernel)
      (Sample.registered_step (n := some 0) (t := Sample.first) rfl (by decide)
        (by decide +kernel))))
    (Sample.recovered_safe none rfl))
    (Sample.registered_safe (by decide +kernel)
      (Sample.registered_step (n := none) (t := Sample.second) rfl (by decide)
        (by decide +kernel))))
    (Sample.recovered_safe none rfl)
  exact (commits_last at_rest_empty (fun _ => rfl) hrun Sample.anna).1

/-- The first registration leaves its journal behind, and so does the recovery before the second one;
    the next recovery takes the second pair for the first one's, half published, and removes it. -/
theorem recovery_undoes_commit : ¬ ∀ (σ : Session Sample.Bytes) (calls : List (Call Sample.codec)),
    Run (Step Sample.codec Sample.root) Sample.start calls σ →
      ∀ s, pair_files σ.dir s = σ.last s := by
  intro h
  have hrun := Run.snoc (Run.snoc (Run.snoc (Run.snoc (Run.snoc .nil
    (.recover Sample.start (Sample.os none) rfl))
    (Sample.registered_step (n := some 0) (t := Sample.first) rfl (by decide)
      (by decide +kernel)))
    (.recover _ (Sample.os (some 0)) rfl))
    (Sample.registered_step (n := none) (t := Sample.second) rfl (by decide)
      (by decide +kernel)))
    (.recover _ (Sample.os none) rfl)
  have hanna := h _ _ hrun Sample.anna
  revert hanna
  decide +kernel

end LocalVoice.SparkTTSVoices
