import LocalVoice.SparkTTSVoices.Recovery

/-! A transaction up to its commit. It fills a directory that nothing leads to (`Building`) and then
    writes the journal that leads to it (`Journaled`); `transaction_holds` is the rule that cuts it
    there. The last part says what the recovery of that journal makes of the pair, before, between
    and after the two commit steps:

        old pair ──step₁──▸ halfway ──step₂──▸ published pair
           over or undone to itself   undone       over          -/

namespace LocalVoice.SparkTTSVoices
open LocalVoice.Lib

section
variable {β α : Type}

/-! ### The pair of a voice -/

/-- The two entries of a voice. -/
def pair (d : Dir β) (s : SafeId) : Option (Node β) × Option (Node β) :=
  (d.lookup (json_name s), d.lookup (npz_name s))

/-- The entries of a pair, or none. -/
def nodes : Option (β × β) → Option (Node β) × Option (Node β)
  | some (a, b) => (some (.file a), some (.file b))
  | none => (none, none)

/-- Only files, and no voice with one of its two files. -/
structure AtRest (d : Dir β) : Prop where
  files_only : ∀ n es, d.lookup n ≠ some (.folder es)
  complete : ∀ s, pair d s = nodes (pair_files d s)

theorem at_rest_empty : AtRest (∅ : Dir β) := ⟨fun _ _ => by simp, fun _ => rfl⟩

/-- The token is in use nowhere: not as the name of an entry or of the voice, not in a file of the
    directory, and not in the data of the operation. -/
structure Fresh (c : Codec β α) (t : Token) (s : SafeId) (op : Operation α) (d : Dir β) : Prop where
  txdir : d.lookup (txdir_name t) = none
  journal : d.lookup (journal_name t) = none
  voice : s.val ≠ txdir_name t
  json : ∀ n b data, read d n = some b → c.load_json b = some data →
    ¬ NamesTx data t ∧ json_pair_token data ≠ some t.val
  npz : ∀ n b, read d n = some b → c.npz_token b ≠ some (some t.val)
  data : ∀ json_data npz_arrays, op = .write json_data npz_arrays → ¬ NamesTx json_data.get? t

/-- The data of the journal a transaction writes over the old pair. -/
def own_data (root : Root) (t : Token) (s : SafeId) (old : Option (β × β)) :
    Operation α → Dict String Json
  | .write _ _ => journal_data root t s "write" old.isSome
  | .delete => journal_data root t s "delete" true

/-- The pair between the two commit steps. -/
def halfway (c : Codec β α) (t : Token) (old : Option (β × β)) :
    Operation α → Option (Node β) × Option (Node β)
  | .write _ npz_arrays => ((nodes old).1, some (.file (new_npz c t npz_arrays)))
  | .delete => (none, (nodes old).2)

variable {c : Codec β α} {root : Root} {t : Token} {s : SafeId} {op : Operation α} {d₀ d d' : Dir β}
  {old : Option (β × β)}

theorem pair_files_eq_some {a b : β} :
    pair_files d s = some (a, b) ↔ read d (json_name s) = some a ∧ read d (npz_name s) = some b := by
  unfold pair_files
  split
  · rename_i ha hb
    simp [ha, hb]
  · rename_i h
    simpa using fun ha hb => h a b ha hb

theorem pair_files_congr (h : pair d s = pair d' s) : pair_files d s = pair_files d' s := by
  have hj : d.lookup (json_name s) = d'.lookup (json_name s) := congrArg Prod.fst h
  have hn : d.lookup (npz_name s) = d'.lookup (npz_name s) := congrArg Prod.snd h
  simp only [pair_files, read, hj, hn]

/-- The canonical names of a voice differ from those of a transaction it is not named after. -/
theorem pair_congr (hv : s.val ≠ txdir_name t)
    (h : ∀ m, m ≠ txdir_name t → m ≠ journal_name t → d'.lookup m = d.lookup m) :
    pair d' s = pair d s := by
  have hj := h (json_name s) (ne_txdir t (last_char_json s) (by decide)) (journal_ne_json hv).symm
  have hn := h (npz_name s) (ne_txdir t (last_char_npz s) (by decide))
    (ne_of_last_char (last_char_npz s) (last_char_journal t) (by decide))
  simp [pair, hj, hn]

/-! ### Filling the transaction directory -/

/-- While the transaction directory is filled everything else is as it was. -/
structure Building (t : Token) (d₀ : Dir β) (done : Folder β → Prop) (d : Dir β) : Prop where
  others : ∀ m, m ≠ txdir_name t → d.lookup m = d₀.lookup m
  txdir : ∃ es, d.lookup (txdir_name t) = some (.folder es) ∧ done es

/-- The directory has copies of the old pair, and none when there is none. -/
def Copies (old : Option (β × β)) (es : Folder β) : Prop :=
  es.lookup "old.json" = old.map Prod.fst ∧ es.lookup "old.npz" = old.map Prod.snd

theorem Building.mono {done done' : Folder β → Prop} (h : Building t d₀ done d)
    (hdone : ∀ es, done es → done' es) : Building t d₀ done' d :=
  ⟨h.others, h.txdir.imp fun es hes => ⟨hes.1, hdone es hes.2⟩⟩

/-- Making the directory. -/
theorem building_start (t : Token) (d₀ : Dir β) :
    Building t d₀ (Copies none) (d₀.insert (txdir_name t) (.folder ∅)) := by
  refine ⟨fun m hm => by rw [lookup_insert_ite, if_neg hm], ∅, ?_, ?_⟩
  · rw [lookup_insert_ite, if_pos rfl]
  · simp [Copies]

variable {I : Dir β → Prop}

/-- Writing a file into the directory. -/
theorem Building.write_in_holds (os : Os c) {done done' : Folder β → Prop}
    (h : Building t d₀ done d) (hI : ∀ d, Building t d₀ (fun _ => True) d → I d) {name : String}
    {b : β} (hdone : ∀ es, done es → done' (es.insert name b)) :
    (write_in os (txdir_name t) name b).Holds I (fun _ => Building t d₀ done') d := by
  obtain ⟨es, hes, hd⟩ := h.txdir
  have h1 : Building t d₀ (fun _ => True) (put_in (txdir_name t) name (os.part b) d) := by
    refine ⟨fun m hm => ?_, ⟨_, by rw [put_in, lookup_modify, if_pos rfl, hes]; rfl, trivial⟩⟩
    rw [put_in, lookup_modify, if_neg hm, h.others m hm]
  have h2 : Building t d₀ done'
      (put_in (txdir_name t) name b (put_in (txdir_name t) name (os.part b) d)) := by
    refine ⟨fun m hm => ?_, es.insert name b, ?_, hdone es hd⟩
    · rw [put_in, lookup_modify, if_neg hm, h1.others m hm]
    · rw [put_in, lookup_modify, if_pos rfl, put_in, lookup_modify, if_pos rfl, hes]
      simp [Node.map_folder, Finmap.insert_insert]
  exact ⟨hI _ (h.mono fun _ _ => trivial), hI _ h1, hI _ (h2.mono fun _ _ => trivial), h2⟩

/-- Copying the old pair. -/
theorem Building.backups_holds (os : Os c) (h : Building t d₀ (Copies none) d)
    (hI : ∀ d, Building t d₀ (fun _ => True) d → I d) (a b : β) :
    (write_backups os t a b).Holds I (fun _ => Building t d₀ (Copies (some (a, b)))) d := by
  have hjson : (write_in os (txdir_name t) "old.json" a).Holds I
      (fun _ => Building t d₀ fun es => es.lookup "old.json" = some a) d :=
    h.write_in_holds os hI fun es _ => by rw [lookup_insert_ite, if_pos rfl]
  refine Prog.holds_bind (hjson.mono (fun _ he => he) fun _ e he => ?_)
  refine he.write_in_holds os hI fun es hes => ?_
  simp [Copies, hes]

/-! ### The rule for a transaction -/

/-- The canonical names in the order an operation commits them. -/
def first_name (s : SafeId) : Operation α → String
  | .write _ _ => npz_name s
  | .delete => json_name s

def second_name (s : SafeId) : Operation α → String
  | .write _ _ => json_name s
  | .delete => npz_name s

/-- The two commit steps. -/
def first_step (c : Codec β α) (t : Token) (s : SafeId) : Operation α → Dir β → Dir β
  | .write _ npz_arrays =>
    replace_from (txdir_name t) "new.npz" (npz_name s) (new_npz c t npz_arrays)
  | .delete => Finmap.erase (json_name s)

def second_step (c : Codec β α) (t : Token) (s : SafeId) : Operation α → Dir β → Dir β
  | .write json_data _ =>
    replace_from (txdir_name t) "new.json" (json_name s) (new_json c t json_data)
  | .delete => Finmap.erase (npz_name s)

section
variable [DecidableEq β]

/-- The commit of an operation. -/
def commit_of (os : Os c) (root : Root) (t : Token) (s : SafeId) (op : Operation α) :
    Prog (Dir β) Outcome :=
  commit os root t (first_name s op) (second_name s op) (first_step c t s op) (second_step c t s op)

variable {Q : Outcome → Dir β → Prop}

/-- A write from the copies of the old pair on. -/
theorem Building.publish_holds (os : Os c) {json_data : Dict String Json} {npz_arrays : α}
    (h : Building t d₀ (Copies (pair_files d₀ s)) d)
    (hI : ∀ d, Building t d₀ (fun _ => True) d → I d)
    (hcommit : ∀ d, Building t d₀ (Copies (pair_files d₀ s)) d → (write_file os (journal_name t)
      (c.dumps (own_data root t s (pair_files d₀ s) (.write json_data npz_arrays))) >>=
        fun _ => commit_of os root t s (.write json_data npz_arrays)).Holds I Q d) :
    (do write_in os (txdir_name t) "new.json" (new_json c t json_data)
        write_in os (txdir_name t) "new.npz" (new_npz c t npz_arrays)
        write_file os (journal_name t)
          (c.dumps (journal_data root t s "write" (pair_files d₀ s).isSome))
        commit os root t (npz_name s) (json_name s)
          (replace_from (txdir_name t) "new.npz" (npz_name s) (new_npz c t npz_arrays))
          (replace_from (txdir_name t) "new.json" (json_name s) (new_json c t json_data))).Holds
      I Q d := by
  have hcopies : ∀ name b, name ≠ "old.json" → name ≠ "old.npz" → ∀ es : Folder β,
      Copies (pair_files d₀ s) es → Copies (pair_files d₀ s) (es.insert name b) := by
    intro name b hj hn es hes
    simpa [Copies, lookup_insert_ite, hj.symm, hn.symm] using hes
  refine Prog.holds_bind ((h.write_in_holds os hI (hcopies _ _ (by decide) (by decide))).mono
    (fun _ he => he) fun _ e₁ h₁ => ?_)
  exact Prog.holds_bind ((h₁.write_in_holds os hI (hcopies _ _ (by decide) (by decide))).mono
    (fun _ he => he) fun _ e₂ h₂ => hcommit e₂ h₂)

/-- A transaction fills its directory and commits, or raises before it has a journal. -/
theorem transaction_holds (os : Os c) (htx : d₀.lookup (txdir_name t) = none) (hstart : I d₀)
    (hI : ∀ d, Building t d₀ (fun _ => True) d → I d)
    (hraised : ∀ d, Building t d₀ (fun _ => True) d → Q .raised d)
    (hcommit : ∀ d, Building t d₀ (Copies (pair_files d₀ s)) d →
      (write_file os (journal_name t) (c.dumps (own_data root t s (pair_files d₀ s) op)) >>=
        fun _ => commit_of os root t s op).Holds I Q d) :
    (transaction os root t s op).Holds I Q d₀ := by
  have hbuild := building_start t d₀
  have hany : Building t d₀ (fun _ => True) _ := hbuild.mono fun _ _ => trivial
  cases op with
  | write json_data npz_arrays =>
    refine Prog.holds_bind (Prog.holds_get hstart ?_)
    rw [htx, if_neg (by simp)]
    refine Prog.holds_bind (Prog.holds_step hstart (hI _ hany) ?_)
    split
    · rename_i a b hold
      refine Prog.holds_bind ((hbuild.backups_holds os hI a b).mono (fun _ he => he) fun _ e he => ?_)
      rw [← hold] at he
      exact he.publish_holds os hI hcommit
    · rename_i hold
      rw [← hold] at hbuild
      exact hbuild.publish_holds os hI hcommit
  | delete =>
    refine Prog.holds_bind (Prog.holds_get hstart ?_)
    rw [htx, if_neg (by simp)]
    refine Prog.holds_bind (Prog.holds_step hstart (hI _ hany) ?_)
    split
    · rename_i a b ha hb
      have hold := pair_files_eq_some.2 ⟨ha, hb⟩
      refine Prog.holds_bind ((hbuild.backups_holds os hI a b).mono (fun _ he => he) fun _ e he => ?_)
      rw [← hold] at he
      exact hcommit e he
    · rename_i a ha _
      have hcopy : (write_in os (txdir_name t) "old.json" a).Holds I
          (fun _ => Building t d₀ fun _ => True) _ :=
        hbuild.write_in_holds os hI fun _ _ => trivial
      exact Prog.holds_bind (hcopy.mono (fun _ he => he) fun _ e he => ⟨hI e he, hraised e he⟩)
    · exact ⟨hI _ hany, hraised _ hany⟩

end

/-! ### The journal of the transaction -/

/-- The journal is written. -/
def Journaled (c : Codec β α) (root : Root) (t : Token) (s : SafeId) (op : Operation α)
    (old : Option (β × β)) (d : Dir β) : Prop :=
  d.lookup (journal_name t) = some (.file (c.dumps (own_data root t s old op)))

/-- The fields of the transaction's own journal. -/
def own_fields (root : Root) (t : Token) (s : SafeId) (old : Option (β × β)) :
    Operation α → Journal
  | .write _ _ => own_journal root t s "write" old.isSome
  | .delete => own_journal root t s "delete" true

theorem own_genuine (old : Option (β × β)) : Genuine root t s (own_fields root t s old op) := by
  have hj := root.locate_abspath _ (json_entry s)
  have hn := root.locate_abspath _ (npz_entry s)
  cases op with
  | write => exact ⟨rfl, hj, hn, Or.inl rfl⟩
  | delete => exact ⟨rfl, hj, hn, Or.inr ⟨rfl, rfl⟩⟩

theorem read_journaled (hjd : Journaled c root t s op old d) :
    ((read d (journal_name t)).bind c.load_json).bind (read_journal (journal_name t)) =
      some (own_fields root t s old op) := by
  rw [read_eq_some.2 hjd, Option.bind_some, c.load_dumps, Option.bind_some]
  cases op with
  | write => exact read_journal_own s "write" _
  | delete => exact read_journal_own s "delete" true

theorem Journaled.leads {es : Folder β} (hjd : Journaled c root t s op old d)
    (htx : d.lookup (txdir_name t) = some (.folder es)) :
    Leads c d (journal_name t) (own_fields root t s old op) es := by
  refine ⟨read_journaled hjd, ?_⟩
  rw [(own_genuine old).tx_dir]
  exact subdir_eq_some.2 htx

theorem is_journal_name_own (t : Token) : is_journal_name (journal_name t) = true := by
  have hstart : PyText.startswith (journal_name t) txn_prefix = true := by
    rw [journal_name, String.append_assoc]
    exact PyText.startswith_append _ _
  rw [is_journal_name, hstart, journal_name, PyText.endswith_append]
  rfl

/-! ### The commit steps -/

/-- The journal is written and the old pair, if there is one, can be restored. -/
def Armed (c : Codec β α) (root : Root) (t : Token) (s : SafeId) (op : Operation α)
    (old : Option (β × β)) (d : Dir β) : Prop :=
  Journaled c root t s op old d ∧ ∃ es, d.lookup (txdir_name t) = some (.folder es) ∧
    ∀ a b, old = some (a, b) → es.lookup "old.json" = some a ∧ es.lookup "old.npz" = some b

/-- Moving a new file out of the directory leaves the backups in it. -/
theorem Armed.unlink_in (h : Armed c root t s op old d) {x : String} (hj : x ≠ "old.json")
    (hn : x ≠ "old.npz") : Armed c root t s op old (unlink_in (txdir_name t) x d) := by
  obtain ⟨hjd, es, hes, hbackup⟩ := h
  refine ⟨?_, es.erase x, ?_, fun a b hab => ?_⟩
  · rw [Journaled, SparkTTSVoices.unlink_in, lookup_modify,
      if_neg (ne_txdir t (last_char_journal t) (by decide))]
    exact hjd
  · rw [SparkTTSVoices.unlink_in, lookup_modify, if_pos rfl, hes]
    rfl
  · obtain ⟨h1, h2⟩ := hbackup a b hab
    rw [lookup_erase_ite, if_neg hj.symm, lookup_erase_ite, if_neg hn.symm, h1, h2]
    exact ⟨rfl, rfl⟩

/-- The first commit step, up to the pair, at most moves a new file out of the directory. -/
theorem first_step_spec (op : Operation α) (h : Armed c root t s op old d)
    (hpair : pair d s = nodes old) : ∃ d', Shrunk t d d' ∧ Armed c root t s op old d' ∧
      (∀ m, m ≠ json_name s → m ≠ npz_name s → (first_step c t s op d).lookup m = d'.lookup m) ∧
      pair (first_step c t s op d) s = halfway c t old op := by
  have hne := json_ne_npz s s
  have htj : json_name s ≠ txdir_name t := ne_txdir t (last_char_json s) (by decide)
  have hj : d.lookup (json_name s) = _ := congrArg Prod.fst hpair
  have hn : d.lookup (npz_name s) = _ := congrArg Prod.snd hpair
  cases op with
  | write json_data npz_arrays =>
    refine ⟨unlink_in (txdir_name t) "new.npz" d, shrunk_unlink_in t _ d,
      h.unlink_in (by decide) (by decide), fun m _ hm => ?_, ?_⟩
    · rw [first_step, replace_from, lookup_put, if_neg hm]
    · simp [pair, first_step, replace_from, unlink_in, lookup_put, lookup_modify, hne, htj, halfway,
        hj]
  | delete =>
    refine ⟨d, Shrunk.refl t d, h, fun m hm _ => ?_, ?_⟩
    · rw [first_step, lookup_erase_ite, if_neg hm]
    · simp [pair, first_step, hne.symm, halfway, hn]

/-- The same for both commit steps. -/
theorem second_step_spec (c : Codec β α) (t : Token) (s : SafeId) (op : Operation α) (d : Dir β) :
    ∃ d', Shrunk t d d' ∧
      (∀ m, m ≠ json_name s → m ≠ npz_name s →
        (second_step c t s op (first_step c t s op d)).lookup m = d'.lookup m) ∧
      pair (second_step c t s op (first_step c t s op d)) s = nodes (published c t op) := by
  have hne := json_ne_npz s s
  have htj : json_name s ≠ txdir_name t := ne_txdir t (last_char_json s) (by decide)
  have htn : npz_name s ≠ txdir_name t := ne_txdir t (last_char_npz s) (by decide)
  cases op with
  | write json_data npz_arrays =>
    refine ⟨unlink_in (txdir_name t) "new.json" (unlink_in (txdir_name t) "new.npz" d),
      (shrunk_unlink_in t _ d).trans (shrunk_unlink_in t _ _), fun m hj hn => ?_, ?_⟩
    · simp only [first_step, second_step, replace_from, unlink_in, lookup_put, lookup_modify,
        if_neg hj, if_neg hn, htn.symm, if_true, if_false]
    · simp [pair, first_step, second_step, replace_from, unlink_in, lookup_put, lookup_modify,
        hne.symm, htn, published, nodes]
  | delete =>
    refine ⟨d, Shrunk.refl t d, fun m hj hn => ?_, ?_⟩
    · rw [second_step, first_step, lookup_erase_ite, if_neg hn, lookup_erase_ite, if_neg hj]
    · simp [pair, first_step, second_step, lookup_erase_ite, published, nodes]

/-! ### Recovery from the journal -/

variable [DecidableEq β]

theorem plan_journaled {es : Folder β} (hjd : Journaled c root t s op old d)
    (htx : d.lookup (txdir_name t) = some (.folder es)) :
    recovery_plan c root d (journal_name t) =
      if is_over c d es (own_fields root t s old op) (json_name s) (npz_name s) then
        .clean (txdir_name t)
      else restore_or_remove es (own_fields root t s old op) (json_name s) (npz_name s) :=
  recovery_plan_leads (hjd.leads htx) (own_genuine old)

/-- A complete new pair is over. -/
theorem is_over_new {es : Folder β} {old : Option (β × β)}
    (h : pair d s = nodes (published c t op)) :
    is_over c d es (own_fields root t s old op) (json_name s) (npz_name s) = true := by
  have hj : d.lookup (json_name s) = _ := congrArg Prod.fst h
  have hn : d.lookup (npz_name s) = _ := congrArg Prod.snd h
  cases op with
  | delete =>
    simp only [published, nodes] at hj hn
    simp [is_over, own_fields, own_journal, hj, hn]
  | write json_data npz_arrays =>
    have hrj : read d (json_name s) = some (new_json c t json_data) := read_eq_some.2 hj
    have hrn : read d (npz_name s) = some (new_npz c t npz_arrays) := read_eq_some.2 hn
    have hjt : json_pair_token (json_data.set "__pair_token" (.str t.val)).get? = some t.val := by
      simp [json_pair_token, Json.toStr, Option.filter]
    have htok : pair_has_token c d (json_name s) (npz_name s) t.val = true := by
      rw [pair_has_token, hrj, hrn, Option.bind_some, Option.bind_some, new_json, new_npz,
        c.load_dumps, c.token_savez, Option.bind_some, hjt]
      simp
    simp [is_over, own_fields, own_journal, htok]

/-- A pair between the commit steps is not over, unless there was nothing to do. -/
theorem is_over_halfway {es : Folder β} (hfresh : Fresh c t s op d₀)
    (hp : pair d s = halfway c t (pair_files d₀ s) op)
    (hbackup : ∀ a b, pair_files d₀ s = some (a, b) →
      es.lookup "old.json" = some a ∧ es.lookup "old.npz" = some b)
    (hover : is_over c d es (own_fields root t s (pair_files d₀ s) op) (json_name s) (npz_name s)
      = true) : pair d s = nodes (pair_files d₀ s) := by
  have hj : d.lookup (json_name s) = _ := congrArg Prod.fst hp
  have hn : d.lookup (npz_name s) = _ := congrArg Prod.snd hp
  cases hold : pair_files d₀ s with
  | none =>
    rw [hold] at hj hn hover
    cases op with
    | delete =>
      exact Prod.ext hj hn
    | write json_data npz_arrays =>
      simp only [halfway, nodes] at hj hn
      simp [is_over, own_fields, own_journal, pair_has_token, read, hj, hn] at hover
  | some ab =>
    obtain ⟨a, b⟩ := ab
    rw [hold] at hj hn hover
    cases op with
    | delete =>
      simp only [halfway, nodes] at hj hn
      simp [is_over, own_fields, own_journal, hj, hn] at hover
    | write json_data npz_arrays =>
      obtain ⟨ha, hb⟩ := pair_files_eq_some.1 hold
      obtain ⟨-, hbn⟩ := hbackup a b hold
      have hrj : read d (json_name s) = some a := read_eq_some.2 hj
      have hrn : read d (npz_name s) = some (new_npz c t npz_arrays) := read_eq_some.2 hn
      exfalso
      simp only [is_over, own_fields, own_journal, if_true, Option.isSome_some, Bool.or_eq_true,
        Bool.and_eq_true] at hover
      rcases hover with hover | ⟨-, hover⟩
      · -- the token of the old JSON file
        simp only [pair_has_token, Bool.and_eq_true, decide_eq_true_eq] at hover
        obtain ⟨data, hdata, htok⟩ := Option.bind_eq_some_iff.1 hover.1
        obtain ⟨x, hx, hload⟩ := Option.bind_eq_some_iff.1 hdata
        obtain rfl := Option.some.inj (hrj.symm.trans hx)
        exact (hfresh.json _ _ _ ha hload).2 htok
      · -- the old NPZ file against the new one
        simp only [files_equal, hrn, hbn, decide_eq_true_eq] at hover
        refine hfresh.npz _ _ hb ?_
        rw [← hover]
        exact c.token_savez npz_arrays t.val

end

end LocalVoice.SparkTTSVoices
