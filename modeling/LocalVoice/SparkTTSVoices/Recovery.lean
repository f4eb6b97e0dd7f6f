import LocalVoice.SparkTTSVoices.Transaction

/-! What the recovery of one journal does, as rules for the steps it is made of: which data leads to
    a transaction's directory, what the plan for the transaction's own journal is, and what has to be
    kept while a plan is carried out. -/

namespace LocalVoice.SparkTTSVoices
open LocalVoice.Lib

section
variable {β α : Type} {c : Codec β α} {root : Root} {t : Token}

/-! ### The journal of a transaction -/

/-- The data, read as a journal, leads to the directory of the transaction `t`. -/
def NamesTx (data : String → Option Json) (t : Token) : Prop :=
  (∃ v, data "tx_dir" = some v ∧ v.toStr = txdir_name t) ∨
    ∃ v, data "token" = some v ∧ v.toStr = t.val

theorem not_names {data : String → Option Json} (htx : data "tx_dir" = none)
    (htoken : data "token" = none) : ¬ NamesTx data t := by
  simp [NamesTx, htx, htoken]

theorem sample_unnamed (t : Token) : ¬ NamesTx Sample.profile.get? t :=
  not_names (by decide) (by decide)

theorem token_ne_empty (t : Token) : t.val ≠ "" := fun h => by
  have hlen := t.length
  rw [h] at hlen
  exact absurd hlen (by decide)

theorem str_or_eq {value : Option Json} {default x : String} (h : str_or value default = x) :
    (∃ v, value = some v ∧ v.toStr = x) ∨ default = x := by
  unfold str_or at h
  split at h
  · rename_i v hv
    exact Or.inl ⟨v, (Option.filter_eq_some_iff.1 hv).1, h⟩
  · exact Or.inr h

theorem read_journal_names {name : String} {data : String → Option Json} {jr : Journal}
    (h : read_journal name data = some jr) (htx : jr.tx_dir = txdir_name t) : NamesTx data t := by
  unfold read_journal at h
  dsimp only at h
  split at h
  · cases h
    rcases str_or_eq htx with hv | hv
    · exact Or.inl hv
    · rcases str_or_eq (String.toList_inj.1 (List.append_cancel_left (by
        simpa only [txdir_name, String.toList_append] using congrArg String.toList hv)))
        with hv | hv
      · exact Or.inr hv
      · exact absurd hv.symm (token_ne_empty t)
  · cases h

/-- The journal a transaction has written, as recovery reads it. -/
def own_journal (root : Root) (t : Token) (s : SafeId) (operation : String) (old_present : Bool) :
    Journal where
  operation := some (.str operation)
  token := t.val
  tx_dir := txdir_name t
  json_path := root.abspath (json_name s)
  npz_path := root.abspath (npz_name s)
  old_present := old_present

theorem read_journal_own (s : SafeId) (operation : String) (old_present : Bool) :
    read_journal (journal_name t) (journal_data root t s operation old_present).get? =
      some (own_journal root t s operation old_present) := by
  have hget : ∀ k, (journal_data root t s operation old_present).get? k =
      ([("schema_version", .int 1), ("operation", .str operation), ("token", .str t.val),
      ("tx_dir", .str (txdir_name t)), ("json_path", .str (root.abspath (json_name s))),
      ("npz_path", .str (root.abspath (npz_name s))), ("old_present", .bool old_present)] :
        List (String × Json)).reverse.lookup k := fun k => by
    rw [journal_data, Dict.get?_update, Dict.get?_empty, Option.or_none]
  have hname : PyText.startswith (journal_name t) txn_prefix = true := by
    rw [journal_name, String.append_assoc]
    exact PyText.startswith_append _ _
  have htx : PyText.startswith (txdir_name t) txn_prefix = true := PyText.startswith_append _ _
  have hne : txdir_name t ≠ "" := fun h => by
    have hlen := congrArg (fun s => s.toList.length) h
    simp [txdir_name, txn_prefix] at hlen
  unfold read_journal
  simp only [hget, List.reverse_cons, List.reverse_nil, List.nil_append, List.cons_append]
  simp [Dict.lookup_cons_ite, str_or, Option.filter, Json.truthy, Json.toStr, is_one, token_ne_empty t,
    hname, htx, txdir_entry t, hne, own_journal]

/-! ### Carrying out a plan -/

theorem mem_remove_path {os : Os c} {name : String} {d : Dir β} {f : Dir β → Dir β}
    (h : f ∈ remove_path os name d) : (∃ x, f = unlink_in name x) ∨ f = Finmap.erase name := by
  unfold remove_path at h
  split at h
  · rcases List.mem_append.1 h with h | h
    · obtain ⟨x, -, rfl⟩ := List.mem_map.1 h
      exact Or.inl ⟨x, rfl⟩
    · exact Or.inr (List.mem_singleton.1 h)
  · exact Or.inr (List.mem_singleton.1 h)
  · cases h

variable {I K : Dir β → Prop} {d : Dir β}

/-- Nothing but material of the transaction is lost: entries of its directory, the directory and the
    journal. -/
structure Shrunk (t : Token) (d d' : Dir β) : Prop where
  others : ∀ m, m ≠ txdir_name t → m ≠ journal_name t → d'.lookup m = d.lookup m
  file : ∀ b, d'.lookup (txdir_name t) = some (.file b) → d.lookup (txdir_name t) = some (.file b)
  folder : ∀ es', d'.lookup (txdir_name t) = some (.folder es') → ∃ es,
    d.lookup (txdir_name t) = some (.folder es) ∧ ∀ x y, es'.lookup x = some y → es.lookup x = some y
  journal : d'.lookup (journal_name t) = none ∨
    d'.lookup (journal_name t) = d.lookup (journal_name t)

theorem Shrunk.refl (t : Token) (d : Dir β) : Shrunk t d d :=
  ⟨fun _ _ _ => rfl, fun _ h => h, fun es h => ⟨es, h, fun _ _ hxy => hxy⟩, Or.inr rfl⟩

theorem Shrunk.trans {d d' d'' : Dir β} (h : Shrunk t d d') (h' : Shrunk t d' d'') :
    Shrunk t d d'' := by
  refine ⟨fun m ht hr => (h'.others m ht hr).trans (h.others m ht hr),
    fun b hb => h.file b (h'.file b hb), fun es'' hes'' => ?_, ?_⟩
  · obtain ⟨es', hes', hsub'⟩ := h'.folder es'' hes''
    obtain ⟨es, hes, hsub⟩ := h.folder es' hes'
    exact ⟨es, hes, fun x y hxy => hsub x y (hsub' x y hxy)⟩
  · rcases h'.journal with hjr | hjr
    · exact Or.inl hjr
    · rw [hjr]
      exact h.journal

theorem shrunk_unlink_in (t : Token) (x : String) (d : Dir β) :
    Shrunk t d (unlink_in (txdir_name t) x d) := by
  have hm : ∀ m, m ≠ txdir_name t → (unlink_in (txdir_name t) x d).lookup m = d.lookup m :=
    fun m hm => by rw [unlink_in, lookup_modify, if_neg hm]
  have hself : (unlink_in (txdir_name t) x d).lookup (txdir_name t) =
      (d.lookup (txdir_name t)).map (Node.map_folder (Finmap.erase x)) := by
    rw [unlink_in, lookup_modify, if_pos rfl]
  refine ⟨fun m h _ => hm m h, fun b hb => ?_, fun es' hes' => ?_,
    Or.inr (hm _ (ne_txdir t (last_char_journal t) (by decide)))⟩
  · rw [hself] at hb
    obtain ⟨x, hx, hb⟩ := Option.map_eq_some_iff.1 hb
    cases x with
    | file b' =>
      cases hb
      exact hx
    | folder es => cases hb
  · rw [hself] at hes'
    obtain ⟨x, hx, hes'⟩ := Option.map_eq_some_iff.1 hes'
    cases x with
    | file b => cases hes'
    | folder es =>
      cases hes'
      refine ⟨es, hx, fun y z hyz => ?_⟩
      rw [lookup_erase_ite] at hyz
      split at hyz
      · cases hyz
      · exact hyz

theorem shrunk_erase {name : String} (hname : name = txdir_name t ∨ name = journal_name t)
    (d : Dir β) : Shrunk t d (Finmap.erase name d) := by
  have hm : ∀ m, m ≠ name → (Finmap.erase name d).lookup m = d.lookup m := fun m hm => by
    rw [lookup_erase_ite, if_neg hm]
  have hgone : (Finmap.erase name d).lookup name = none := by rw [lookup_erase_ite, if_pos rfl]
  have hne : journal_name t ≠ txdir_name t := ne_txdir t (last_char_journal t) (by decide)
  rcases hname with rfl | rfl
  · exact ⟨fun m h _ => hm m h, by simp [hgone], by simp [hgone], Or.inr (hm _ hne)⟩
  · refine ⟨fun m _ h => hm m h, ?_, ?_, Or.inl hgone⟩
    · rw [hm _ hne.symm]
      exact fun _ h => h
    · rw [hm _ hne.symm]
      exact fun es h => ⟨es, h, fun _ _ hxy => hxy⟩

/-- One removal of a cleanup. -/
theorem shrunk_removal {d : Dir β} (hjr : ∀ es, d.lookup (journal_name t) ≠ some (.folder es))
    {name : String} (hname : name = txdir_name t ∨ name = journal_name t) {f : Dir β → Dir β}
    (hf : (∃ x, f = unlink_in name x) ∨ f = Finmap.erase name) : Shrunk t d (f d) := by
  rcases hf with ⟨x, rfl⟩ | rfl
  · rcases hname with rfl | rfl
    · exact shrunk_unlink_in t x d
    · -- the journal is no directory
      have hnone : subdir d (journal_name t) = none := by
        cases h : subdir d (journal_name t) with
        | none => rfl
        | some es => exact absurd (subdir_eq_some.1 h) (hjr es)
      have hsame : unlink_in (journal_name t) x d = d := by rw [unlink_in, modify, hnone]
      rw [hsame]
      exact Shrunk.refl t d
  · exact shrunk_erase hname d

/-- What survives the loss of material of a transaction survives its cleanup, also one that fails. -/
theorem holds_cleanup (os : Os c) (hK : ∀ d, K d → I d)
    (hjr : ∀ d, K d → ∀ es, d.lookup (journal_name t) ≠ some (.folder es))
    (hshrink : ∀ d d', K d → Shrunk t d d' → K d') (hd : K d) :
    (cleanup_transaction os (txdir_name t) (journal_name t)).Holds I (fun _ => K) d := by
  have hstep : ∀ f ∈ remove_path os (txdir_name t) d ++ remove_path os (journal_name t) d,
      ∀ d, K d → K (f d) := by
    intro f hf d hd
    rcases List.mem_append.1 hf with hf | hf
    · exact hshrink d _ hd (shrunk_removal (hjr d hd) (Or.inl rfl) (mem_remove_path hf))
    · exact hshrink d _ hd (shrunk_removal (hjr d hd) (Or.inr rfl) (mem_remove_path hf))
  refine Prog.holds_bind (Prog.holds_get (hK d hd) ?_)
  dsimp only
  split
  · exact Prog.holds_steps hK (fun f hf => hstep f (List.mem_of_mem_take hf)) hd
  · exact Prog.holds_steps hK hstep hd

/-- The same for the removal of an orphan. -/
theorem holds_remove_orphan (os : Os c) {m : String} (hK : ∀ d, K d → I d)
    (hjr : ∀ d, K d → ∀ es, d.lookup (journal_name t) ≠ some (.folder es))
    (hshrink : ∀ d d', K d → Shrunk t d d' → K d')
    (hm : ∀ es, d.lookup m = some (.folder es) → m = txdir_name t) (hd : K d) :
    (remove_orphan os m).Holds I (fun _ => K) d := by
  refine Prog.holds_bind (Prog.holds_get (hK d hd) ?_)
  split
  · rename_i es hes
    obtain rfl := hm es hes
    split
    · exact ⟨hK d hd, hd⟩
    · refine Prog.holds_steps hK (fun f hf e he => ?_) hd
      exact hshrink e _ he (shrunk_removal (hjr e he) (Or.inl rfl) (mem_remove_path hf))
  · exact ⟨hK d hd, hd⟩

/-- A restored file is there, and nothing else has changed. -/
theorem holds_restore {Q : Bool → Dir β → Prop} (os : Os c) {b : β} {name : String} (hd : I d)
    (htmp : ∀ tmp b', is_tmp_name tmp = true → tmp ∉ d → I (put tmp b' d))
    (hfile : ∀ es, d.lookup name ≠ some (.folder es)) (hI : I (put name b d))
    (hQ : Q true (put name b d)) : (restore_from_file os b name).Holds I Q d := by
  have hname := os.mkstemp_name d
  have hnew := os.mkstemp_new d
  have hsecond : put (os.mkstemp d) b (put (os.mkstemp d) (os.part b) d) =
      put (os.mkstemp d) b d := Finmap.insert_insert d
  have hback : put name b (Finmap.erase (os.mkstemp d) (put (os.mkstemp d) b d)) = put name b d := by
    apply Finmap.ext_lookup
    intro m
    simp only [lookup_put, lookup_erase_ite]
    split
    · rfl
    · split
      · rename_i h
        rw [h, Finmap.lookup_eq_none.2 hnew]
      · rfl
  refine Prog.holds_bind (Prog.holds_get hd (Prog.holds_bind ?_))
  refine ⟨hd, htmp _ _ hname hnew, ?_⟩
  rw [hsecond]
  refine ⟨htmp _ _ hname hnew, ?_⟩
  split
  · rename_i es h
    exact absurd h (hfile es)
  · refine ⟨htmp _ _ hname hnew, ?_⟩
    show (pure true : Prog (Dir β) Bool).Holds I Q
      (put name b (Finmap.erase (os.mkstemp d) (put (os.mkstemp d) b d)))
    rw [hback]
    exact ⟨hI, hQ⟩

/-- A file that is unlinked is gone, also when it was not there. -/
theorem holds_unlink {Q : Bool → Dir β → Prop} {name : String} (hd : I d)
    (hfile : ∀ es, d.lookup name ≠ some (.folder es)) (hI : I (Finmap.erase name d))
    (hQ : Q true (Finmap.erase name d)) : (unlink_file name).Holds I Q d := by
  refine Prog.holds_bind (Prog.holds_get hd ?_)
  split
  · exact ⟨hd, hI, hQ⟩
  · rename_i es h
    exact absurd h (hfile es)
  · rename_i h
    have hsame : Finmap.erase name d = d := by
      apply Finmap.ext_lookup
      intro m
      rw [lookup_erase_ite]
      split
      · rename_i hm
        rw [hm, h]
      · rfl
    rw [hsame] at hI hQ
    exact ⟨hI, hQ⟩

theorem mem_journals {os : Os c} {m : String} :
    m ∈ (os.scan (d.keys.filter fun n => is_journal_name n)).insertionSort (· ≤ ·) ↔
      m ∈ d ∧ is_journal_name m = true := by
  rw [List.mem_insertionSort, os.mem_scan, Finset.mem_filter, Finmap.mem_keys]

/-! ### Plans -/

/-- An entry is read as a journal, and the journal leads to a directory. -/
def Leads (c : Codec β α) (d : Dir β) (m : String) (jr : Journal) (es : Folder β) : Prop :=
  ((read d m).bind c.load_json).bind (read_journal m) = some jr ∧ subdir d jr.tx_dir = some es

theorem Leads.data {d : Dir β} {m : String} {jr : Journal} {es : Folder β}
    (h : Leads c d m jr es) : ∃ b data, read d m = some b ∧ c.load_json b = some data ∧
      read_journal m data = some jr := by
  obtain ⟨data, hdata, hread⟩ := Option.bind_eq_some_iff.1 h.1
  obtain ⟨b, hb, hload⟩ := Option.bind_eq_some_iff.1 hdata
  exact ⟨b, data, hb, hload, hread⟩

/-- The fields are those of a journal that the transaction `t` has written for the voice `s`. -/
structure Genuine (root : Root) (t : Token) (s : SafeId) (jr : Journal) : Prop where
  tx_dir : jr.tx_dir = txdir_name t
  json_path : root.locate jr.json_path = some (json_name s)
  npz_path : root.locate jr.npz_path = some (npz_name s)
  operation : jr.operation = some (.str "write") ∨
    (jr.operation = some (.str "delete") ∧ jr.old_present = true)

variable [DecidableEq β]

/-- An entry that leads to no directory is passed over. -/
theorem recovery_plan_ignore {d : Dir β} {m : String} (h : ∀ jr es, ¬ Leads c d m jr es) :
    recovery_plan c root d m = .ignore := by
  unfold recovery_plan
  split
  · rfl
  · rename_i jr hjr
    cases hes : subdir d jr.tx_dir with
    | none => rfl
    | some es => exact absurd ⟨hjr, hes⟩ (h jr es)

/-- The plan for the journal of a transaction. -/
theorem recovery_plan_leads {d : Dir β} {m : String} {jr : Journal} {es : Folder β} {s : SafeId}
    (h : Leads c d m jr es) (hjr : Genuine root t s jr) :
    recovery_plan c root d m =
      if is_over c d es jr (json_name s) (npz_name s) then .clean (txdir_name t)
      else restore_or_remove es jr (json_name s) (npz_name s) := by
  have hop : jr.operation = some (.str "write") ∨ jr.operation = some (.str "delete") :=
    hjr.operation.imp id And.left
  unfold recovery_plan
  rw [h.1]
  dsimp only
  rw [h.2, hjr.json_path, hjr.npz_path]
  simp only [hop, if_true, hjr.tx_dir]

end

end LocalVoice.SparkTTSVoices
