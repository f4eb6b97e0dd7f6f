import LocalVoice.SparkTTSVoices.Staging

/-! Callers of `server/core/sparktts_voices.py` one after the other under the lock: each recovers the
    pending journals and then commits a transaction, or lets it be. A cleanup that fails leaves its
    journal behind, so journals of several generations are there at once. The invariant (`Kept`) is
    that each of them is quiet: its recovery finds the pair as the last operation on the voice has
    left it and does not touch it. -/

namespace LocalVoice.SparkTTSVoices
open LocalVoice.Lib

section
variable {β α : Type}

/-! ### Quiet journals -/

section
variable [DecidableEq β]

/-- The recovery of the journal leaves the pair `last` of its voice as it is: the transaction is over
    or its backups are incomplete, or they are the pair itself. -/
def Quiet (c : Codec β α) (d : Dir β) (last : Option (β × β)) (s : SafeId) (jr : Journal)
    (es : Folder β) : Prop :=
  is_over c d es jr (json_name s) (npz_name s) = true ∨
    (jr.old_present = true ∧ (es.lookup "old.json" = none ∨ es.lookup "old.npz" = none ∨
      ∃ a b, last = some (a, b) ∧ es.lookup "old.json" = some a ∧ es.lookup "old.npz" = some b))

/-- Every pair is the one its voice had `last`, there are no directories but those of transactions,
    and the journals that lead to one are quiet. Only the JSON name of an unknown voice may be that
    of a journal. -/
structure Kept (c : Codec β α) (root : Root) (last : SafeId → Option (β × β)) (d : Dir β) :
    Prop where
  npz : ∀ s, d.lookup (npz_name s) = (nodes (last s)).2
  json : ∀ s, d.lookup (json_name s) = (nodes (last s)).1 ∨
    (last s = none ∧ ∃ t, s.val = txdir_name t)
  folders : ∀ m es, d.lookup m = some (.folder es) → ∃ t, m = txdir_name t
  quiet : ∀ m jr es, is_journal_name m = true → Leads c d m jr es → ∃ t s, m = journal_name t ∧
    Genuine root t s jr ∧ pair d s = nodes (last s) ∧ Quiet c d (last s) s jr es ∧
      ∀ s', s'.val = txdir_name t → last s' = none

end

variable {c : Codec β α} {root : Root} {t : Token} {s : SafeId} {op : Operation α} {d₀ d d' : Dir β}
  {last : SafeId → Option (β × β)} {m : String} {jr : Journal} {es : Folder β}

theorem nodes_json {p : Option (β × β)} (h : (nodes p).1 = none) : p = none := by
  cases p with
  | none => rfl
  | some ab => cases h

theorem nodes_file (p : Option (β × β)) : (∀ es, (nodes p).1 ≠ some (.folder es)) ∧
    ∀ es, (nodes p).2 ≠ some (.folder es) := by
  cases p <;> simp [nodes]

theorem pair_files_nodes {p : Option (β × β)} (h : pair d s = nodes p) : pair_files d s = p := by
  have hj : d.lookup (json_name s) = _ := congrArg Prod.fst h
  have hn : d.lookup (npz_name s) = _ := congrArg Prod.snd h
  cases p with
  | none => simp [pair_files, read, hj, hn, nodes]
  | some ab => exact pair_files_eq_some.2 ⟨read_eq_some.2 hj, read_eq_some.2 hn⟩

theorem put_same {name : String} {b : β} (h : d.lookup name = some (.file b)) : put name b d = d := by
  apply Finmap.ext_lookup
  intro m
  rw [lookup_put]
  split
  · rename_i hm
    rw [hm, h]
  · rfl

/-! ### What a shrinking directory still reads as -/

theorem Shrunk.read (h : Shrunk t d d') {b : β} (hb : read d' m = some b) : read d m = some b := by
  rw [read_eq_some] at hb ⊢
  by_cases ht : m = txdir_name t
  · subst ht
    exact h.file b hb
  · by_cases hr : m = journal_name t
    · subst hr
      rcases h.journal with hj | hj
      · rw [hj] at hb
        cases hb
      · rwa [← hj]
    · rwa [← h.others m ht hr]

theorem Shrunk.subdir (h : Shrunk t d d') {es' : Folder β} (hes : subdir d' m = some es') :
    ∃ es, subdir d m = some es ∧ ∀ x y, es'.lookup x = some y → es.lookup x = some y := by
  rw [subdir_eq_some] at hes
  simp only [subdir_eq_some]
  by_cases ht : m = txdir_name t
  · subst ht
    exact h.folder es' hes
  · by_cases hr : m = journal_name t
    · subst hr
      rcases h.journal with hj | hj
      · rw [hj] at hes
        cases hes
      · exact ⟨es', hj ▸ hes, fun _ _ hxy => hxy⟩
    · exact ⟨es', by rwa [← h.others m ht hr], fun _ _ hxy => hxy⟩

theorem Shrunk.leads (h : Shrunk t d d') {es' : Folder β} (hl : Leads c d' m jr es') :
    ∃ es, Leads c d m jr es ∧ ∀ x y, es'.lookup x = some y → es.lookup x = some y := by
  obtain ⟨b, data, hb, hdata, hread⟩ := hl.data
  obtain ⟨es, hes, hsub⟩ := h.subdir hl.2
  refine ⟨es, ⟨?_, hes⟩, hsub⟩
  rw [h.read hb, Option.bind_some, hdata, Option.bind_some, hread]

variable [DecidableEq β]

/-- Whether a transaction is over depends on the pair and, with an old pair, on its backups. -/
theorem is_over_congr {es' : Folder β} (hpair : pair d' s = pair d s)
    (hbackups : jr.old_present = true → es'.lookup "old.json" = es.lookup "old.json" ∧
      es'.lookup "old.npz" = es.lookup "old.npz") :
    is_over c d' es' jr (json_name s) (npz_name s) =
      is_over c d es jr (json_name s) (npz_name s) := by
  have hj : d'.lookup (json_name s) = d.lookup (json_name s) := congrArg Prod.fst hpair
  have hn : d'.lookup (npz_name s) = d.lookup (npz_name s) := congrArg Prod.snd hpair
  have hrj : read d' (json_name s) = read d (json_name s) := by
    rw [read, read, hj]
  have hrn : read d' (npz_name s) = read d (npz_name s) := by
    rw [read, read, hn]
  unfold is_over pair_has_token files_equal
  rw [hrj, hrn, hj, hn]
  cases hold : jr.old_present with
  | false => rfl
  | true =>
    obtain ⟨hx, hy⟩ := hbackups hold
    rw [hx, hy]

/-- Backups that are lost make no quiet journal loud. -/
theorem Quiet.mono {p : Option (β × β)} {es' : Folder β} (h : Quiet c d p s jr es)
    (hpair : pair d' s = pair d s) (hsub : ∀ x y, es'.lookup x = some y → es.lookup x = some y) :
    Quiet c d' p s jr es' := by
  have hsame : ∀ x, es'.lookup x = none ∨ es'.lookup x = es.lookup x := fun x => by
    cases hx : es'.lookup x with
    | none => exact Or.inl rfl
    | some y => exact Or.inr (hsub x y hx).symm
  by_cases hold : jr.old_present = true
  · rcases hsame "old.json" with hx | hx
    · exact Or.inr ⟨hold, Or.inl hx⟩
    · rcases hsame "old.npz" with hy | hy
      · exact Or.inr ⟨hold, Or.inr (Or.inl hy)⟩
      · unfold Quiet
        rw [is_over_congr hpair fun _ => ⟨hx, hy⟩, hx, hy]
        exact h
  · have hover := h.resolve_right fun h => hold h.1
    exact Or.inl ((is_over_congr hpair fun h => absurd h hold).trans hover)

/-! ### What keeps the invariant -/

theorem Kept.files (h : Kept c root last d) (s : SafeId) : pair_files d s = last s := by
  have hn := h.npz s
  rcases h.json s with hj | ⟨hl, -⟩
  · exact pair_files_nodes (Prod.ext hj hn)
  · rw [hl] at hn ⊢
    simp [pair_files, read, hn, nodes]

/-- No pair has the JSON name of a journal that is not there. -/
theorem Kept.unpublished (h : Kept c root last d) (hjr : d.lookup (journal_name t) = none) {s : SafeId}
    (hs : s.val = txdir_name t) : last s = none := by
  have hname : json_name s = journal_name t := by
    rw [json_name, hs]
    rfl
  rcases h.json s with hj | hj
  · rw [hname, hjr] at hj
    exact nodes_json hj.symm
  · exact hj.1

/-- The material of a transaction may be lost bit by bit. -/
theorem Kept.shrink (h : Kept c root last d) (hnone : ∀ s, s.val = txdir_name t → last s = none)
    (hd : Shrunk t d d') : Kept c root last d' := by
  have hnpz : ∀ s, d'.lookup (npz_name s) = d.lookup (npz_name s) := fun s =>
    hd.others _ (ne_txdir t (last_char_npz s) (by decide))
      (ne_of_last_char (last_char_npz s) (last_char_journal t) (by decide))
  refine ⟨fun s => (hnpz s).trans (h.npz s), fun s => ?_, fun m es hes => ?_,
    fun m jr es' hm hl => ?_⟩
  · by_cases hs : s.val = txdir_name t
    · exact Or.inr ⟨hnone s hs, t, hs⟩
    · rw [hd.others _ (ne_txdir t (last_char_json s) (by decide)) (journal_ne_json hs).symm]
      exact h.json s
  · obtain ⟨es', hes', -⟩ := hd.subdir (subdir_eq_some.2 hes)
    exact h.folders m es' (subdir_eq_some.1 hes')
  · obtain ⟨es, hl, hsub⟩ := hd.leads hl
    obtain ⟨t₂, s₂, hm₂, hgen, hpair, hquiet, hnone₂⟩ := h.quiet m jr es hm hl
    have hsame : pair d' s₂ = pair d s₂ := by
      by_cases hs : s₂.val = txdir_name t
      · -- the journal is not a file of the voice
        have hname : json_name s₂ = journal_name t := by
          rw [json_name, hs]
          rfl
        have hgone : d.lookup (json_name s₂) = none := by
          have hj : d.lookup (json_name s₂) = _ := congrArg Prod.fst hpair
          rw [hj, hnone s₂ hs]
          rfl
        have hj : d'.lookup (json_name s₂) = d.lookup (json_name s₂) := by
          rw [hname] at hgone ⊢
          rcases hd.journal with hjr | hjr
          · rw [hjr, hgone]
          · exact hjr
        exact Prod.ext hj (hnpz s₂)
      · exact pair_congr hs hd.others
    exact ⟨t₂, s₂, hm₂, hgen, hsame.trans hpair, hquiet.mono hsame hsub, hnone₂⟩

theorem Kept.journal_file (h : Kept c root last d) (t : Token) (es : Folder β) :
    d.lookup (journal_name t) ≠ some (.folder es) := by
  intro hes
  obtain ⟨t', ht'⟩ := h.folders _ es hes
  exact ne_txdir t' (last_char_journal t) (by decide) ht'

/-- A cleanup, also one that fails. -/
theorem Kept.cleanup_holds (os : Os c) (h : Kept c root last d)
    (hnone : ∀ s, s.val = txdir_name t → last s = none) :
    (cleanup_transaction os (txdir_name t) (journal_name t)).Holds (fun _ => True)
      (fun _ => Kept c root last) d :=
  holds_cleanup os (fun _ _ => trivial) (fun _ hd => hd.journal_file t)
    (fun _ _ hd hd' => hd.shrink hnone hd') h

/-! ### Recovery -/

/-- The recovery of one journal changes no pair. -/
theorem Kept.recover_holds (os : Os c) (h : Kept c root last d) (hm : is_journal_name m = true) :
    (recover_transaction os root m).Holds (fun _ => True) (fun _ => Kept c root last) d := by
  refine Prog.holds_bind (Prog.holds_get trivial ?_)
  by_cases hl : ∃ jr es, Leads c d m jr es
  · obtain ⟨jr, es, hl⟩ := hl
    obtain ⟨t, s, rfl, hgen, hpair, hquiet, hnone⟩ := h.quiet m jr es hm hl
    rw [recovery_plan_leads hl hgen]
    split
    · exact h.cleanup_holds os hnone
    · rename_i hover
      obtain ⟨hold, hquiet⟩ := hquiet.resolve_left hover
      unfold restore_or_remove
      rw [if_pos hold, hgen.tx_dir]
      rcases hquiet with hx | hy | ⟨a, b, hlast, hx, hy⟩
      · rw [hx]
        exact ⟨trivial, h⟩
      · rw [hy]
        split
        · rename_i heq
          cases heq
        · exact ⟨trivial, h⟩
      · -- the backups are the pair
        rw [hx, hy]
        rw [hlast] at hpair
        have hj : d.lookup (json_name s) = some (.file a) := congrArg Prod.fst hpair
        have hn : d.lookup (npz_name s) = some (.file b) := congrArg Prod.snd hpair
        refine Prog.holds_bind (holds_restore os trivial (fun _ _ _ _ => trivial) (by simp [hj])
          trivial ?_)
        rw [if_pos rfl, put_same hj]
        refine Prog.holds_bind (holds_restore os trivial (fun _ _ _ _ => trivial) (by simp [hn])
          trivial ?_)
        rw [if_pos rfl, put_same hn]
        exact h.cleanup_holds os hnone
  · rw [recovery_plan_ignore fun jr es hjr => hl ⟨jr, es, hjr⟩]
    exact ⟨trivial, h⟩

/-- Removing an orphaned transaction directory. -/
theorem Kept.remove_orphan_holds (os : Os c) (h : Kept c root last d) (m : String) :
    (remove_orphan os m).Holds (fun _ => True) (fun _ => Kept c root last) d := by
  by_cases hfolder : ∃ es, d.lookup m = some (.folder es)
  · obtain ⟨es, hes⟩ := hfolder
    obtain ⟨t, rfl⟩ := h.folders m es hes
    by_cases hnone : ∀ s, s.val = txdir_name t → last s = none
    · exact holds_remove_orphan os (fun _ _ => trivial) (fun _ hd => hd.journal_file t)
        (fun _ _ hd hd' => hd.shrink hnone hd') (fun _ _ => rfl) h
    · -- a voice has the name, so there is something with the name of the journal
      have hjr : d.lookup (txdir_name t ++ ".json") ≠ none := fun hjr =>
        hnone fun s hs => h.unpublished hjr hs
      refine Prog.holds_bind (Prog.holds_get trivial ?_)
      rw [hes]
      dsimp only
      rw [if_pos (by simp [Option.isSome_iff_ne_none.2 hjr])]
      exact ⟨trivial, h⟩
  · refine Prog.holds_bind (Prog.holds_get trivial ?_)
    split
    · rename_i es hes
      exact absurd ⟨es, hes⟩ hfolder
    · exact ⟨trivial, h⟩

/-- A recovery pass changes no pair. -/
theorem Kept.recover_all_holds (os : Os c) (h : Kept c root last d) :
    (recover_transactions os root).Holds (fun _ => True) (fun _ => Kept c root last) d := by
  refine Prog.holds_bind (Prog.holds_get trivial (Prog.holds_bind ?_))
  refine (Prog.holds_forEach (K := Kept c root last) (fun _ _ => trivial) (fun m hm e he =>
    he.recover_holds os (mem_journals.1 hm).2) h).mono (fun _ he => he) fun _ e he => ?_
  refine Prog.holds_bind (Prog.holds_get trivial ?_)
  exact Prog.holds_forEach (fun _ _ => trivial) (fun m _ e he => he.remove_orphan_holds os m) he

end

end LocalVoice.SparkTTSVoices
