import Mathlib.Data.Finmap
import Mathlib.Data.List.Sort
import LocalVoice.Lib.Crash
import LocalVoice.Lib.Dict
import LocalVoice.Lib.Json
import LocalVoice.Lib.PyText

/-! The voices directory of `server/core/sparktts_voices.py`: the names of its entries, what their
    bytes read as, and the durable steps that change it. A profile is the pair `<safe>.json` and
    `<safe>.npz`; a transaction has a private directory and a journal, named by a random token:

        clone_a.json   clone_a.npz   .sparktts-txn-<token>/{old,new}.{json,npz}
        .sparktts-txn-<token>.json   .rollback-<random>.tmp -/

namespace LocalVoice.SparkTTSVoices
open LocalVoice.Lib

/-! ### Names -/

/-- The name of an entry of a directory. -/
def EntryName (n : String) : Prop := '/' ∉ n.toList ∧ n ≠ "" ∧ n ≠ "." ∧ n ≠ ".."

instance : DecidablePred EntryName := fun n => by unfold EntryName; infer_instance

/-- The file id of a voice, as `_safe_id` returns it. -/
structure SafeId where
  val : String
  entry : EntryName val
  deriving DecidableEq

/-- `_safe_id`; `none` is the `ValueError`. -/
def safe_id (voice_id : String) : Option SafeId :=
  let voice_id := PyText.strip voice_id
  if voice_id = "" ∨ '\x00' ∈ voice_id.toList then none
  else
    let safe := String.ofList (voice_id.toList.map fun ch => if ch = ':' ∨ ch = '/' then '_' else ch)
    if h : EntryName safe then some ⟨safe, h⟩ else none

/-- `secrets.token_hex(16)`. -/
structure Token where
  val : String
  length : val.toList.length = 32
  hex : ∀ ch ∈ val.toList, ch ∈ "0123456789abcdef".toList
  deriving DecidableEq

/-- `_TXN_PREFIX`. -/
def txn_prefix : String := ".sparktts-txn-"

def json_name (s : SafeId) : String := s.val ++ ".json"
def npz_name (s : SafeId) : String := s.val ++ ".npz"
def txdir_name (t : Token) : String := txn_prefix ++ t.val
def journal_name (t : Token) : String := txn_prefix ++ t.val ++ ".json"

/-- What `_recover_transactions_unlocked` takes for a journal. -/
def is_journal_name (n : String) : Bool := PyText.startswith n txn_prefix && PyText.endswith n ".json"

/-- The names `_restore_from_file` gives its temporary files. -/
def is_tmp_name (n : String) : Bool := PyText.startswith n ".rollback-" && PyText.endswith n ".tmp"

/-! ### Bytes -/

/-- What the readers make of the bytes of a file, and the writers of data: the JSON module and
    `numpy`. `load_json` is the object of `_load_json`, `npz_token` the marker in an archive, with an
    outer `none` for bytes that are not one. -/
structure Codec (β α : Type) where
  load_json : β → Option (String → Option Json)
  npz_token : β → Option (Option String)
  dumps : Dict String Json → β
  savez : α → String → β
  load_dumps : ∀ d, load_json (dumps d) = some d.get?
  token_savez : ∀ arrays t, npz_token (savez arrays t) = some (some t)

/-- The paths of the entries of the voices directory: `os.path.abspath` of one, and the entry a path
    resolves to, if it is absolute and leads to one. -/
structure Root where
  abspath : String → String
  locate : String → Option String
  locate_abspath : ∀ n, EntryName n → locate (abspath n) = some n

/-! ### The directory -/

abbrev Folder (β : Type) := Finmap fun _ : String => β

inductive Node (β : Type) where
  | file (b : β)
  | folder (entries : Folder β)

/-- Change the entries of a directory; a file stays as it is. -/
def Node.map_folder {β : Type} (f : Folder β → Folder β) : Node β → Node β
  | .file b => .file b
  | .folder es => .folder (f es)

/-- The voices directory: its entries by name. -/
abbrev Dir (β : Type) := Finmap fun _ : String => Node β

section
variable {β α : Type}

/-- The bytes of a file; `none` if there is none. -/
def read (d : Dir β) (name : String) : Option β :=
  match d.lookup name with
  | some (.file b) => some b
  | _ => none

/-- The entries of a directory inside. -/
def subdir (d : Dir β) (name : String) : Option (Folder β) :=
  match d.lookup name with
  | some (.folder es) => some es
  | _ => none

def put (name : String) (b : β) (d : Dir β) : Dir β := d.insert name (.file b)

/-- Change a directory inside. -/
def modify (tx : String) (f : Folder β → Folder β) (d : Dir β) : Dir β :=
  match subdir d tx with
  | some es => d.insert tx (.folder (f es))
  | none => d

def put_in (tx name : String) (b : β) : Dir β → Dir β := modify tx (Finmap.insert name b)
def unlink_in (tx name : String) : Dir β → Dir β := modify tx (Finmap.erase name)

/-- What the operating system and chance decide in one attempt: the order a directory is listed in,
    the name of a temporary file, the bytes that are in a file while it is written (of a JSON object
    no proper part is one), and the calls that raise an `OSError`: `_cleanup_transaction` of a
    journal after some removals, and the replacement or removal of a canonical file. -/
structure Os (c : Codec β α) where
  scan : Finset String → List String
  mem_scan : ∀ names n, n ∈ scan names ↔ n ∈ names
  mkstemp : Dir β → String
  mkstemp_name : ∀ d, is_tmp_name (mkstemp d) = true
  mkstemp_new : ∀ d, mkstemp d ∉ d
  part : β → β
  part_dumps : ∀ data, c.load_json (part (c.dumps data)) = none
  cleanup_fails : Dir β → String → Option ℕ
  commit_fails : Dir β → String → Bool

variable {c : Codec β α}

/-- `_write_bytes_fsync` of an entry. -/
def write_file (os : Os c) (name : String) (b : β) : Prog (Dir β) Unit :=
  .steps [put name (os.part b), put name b]

/-- `_write_bytes_fsync` inside the transaction directory. -/
def write_in (os : Os c) (tx name : String) (b : β) : Prog (Dir β) Unit :=
  .steps [put_in tx name (os.part b), put_in tx name b]

/-- The steps of `_remove_path`: `rmtree` of a directory, `unlink` of a file. -/
def remove_path (os : Os c) (name : String) (d : Dir β) : List (Dir β → Dir β) :=
  match d.lookup name with
  | some (.folder es) => (os.scan es.keys).map (unlink_in name) ++ [Finmap.erase name]
  | some (.file _) => [Finmap.erase name]
  | none => []

/-- `path.unlink()` with a missing file passed over; `false` if it raises. -/
def unlink_file (name : String) : Prog (Dir β) Bool := do
  let d ← .get
  match d.lookup name with
  | some (.file _) => .act (Finmap.erase name) (pure true)
  | some (.folder _) => pure false
  | none => pure true

/-! ### Reading what was written -/

theorem read_eq_some {d : Dir β} {name : String} {b : β} :
    read d name = some b ↔ d.lookup name = some (.file b) := by
  unfold read
  split
  · rename_i h
    simp [h]
  · rename_i h
    simpa using fun hb => h b hb

theorem subdir_eq_some {d : Dir β} {name : String} {es : Folder β} :
    subdir d name = some es ↔ d.lookup name = some (.folder es) := by
  unfold subdir
  split
  · rename_i h
    simp [h]
  · rename_i h
    simpa using fun hb => h es hb

theorem lookup_insert_ite {γ : Type} (d : Finmap fun _ : String => γ) (n m : String) (x : γ) :
    (Finmap.insert n x d).lookup m = if m = n then some x else d.lookup m := by
  split
  · rename_i h
    subst h
    exact Finmap.lookup_insert d
  · rename_i h
    exact Finmap.lookup_insert_of_ne d h

theorem lookup_put (d : Dir β) (n m : String) (b : β) :
    (put n b d).lookup m = if m = n then some (.file b) else d.lookup m :=
  lookup_insert_ite d n m _

theorem lookup_erase_ite {γ : Type} (d : Finmap fun _ : String => γ) (n m : String) :
    (Finmap.erase n d).lookup m = if m = n then none else d.lookup m := by
  split
  · rename_i h
    subst h
    exact Finmap.lookup_erase m d
  · rename_i h
    exact Finmap.lookup_erase_ne h

theorem lookup_modify (d : Dir β) (tx m : String) (f : Folder β → Folder β) :
    (modify tx f d).lookup m =
      if m = tx then (d.lookup tx).map (Node.map_folder f) else d.lookup m := by
  cases hs : subdir d tx with
  | some es =>
    have hd := subdir_eq_some.1 hs
    simp only [modify, hs, lookup_insert_ite, hd, Option.map_some, Node.map_folder]
  | none =>
    have hsame : (d.lookup tx).map (Node.map_folder f) = d.lookup tx := by
      cases hd : d.lookup tx with
      | none => rfl
      | some x =>
        cases x with
        | file b => rfl
        | folder es => rw [subdir_eq_some.2 hd] at hs; cases hs
    simp only [modify, hs, hsame]
    split
    · rename_i hm
      rw [hm]
    · rfl

end

/-! ### Names that differ -/

theorem append_right_inj {a b e : String} (h : a ++ e = b ++ e) : a = b := by
  have hl := congrArg String.toList h
  rw [String.toList_append, String.toList_append] at hl
  exact String.toList_inj.1 (List.append_cancel_right hl)

/-- The last character of a name tells what kind of entry it is. -/
def last_char (n : String) : Option Char := n.toList.getLast?

theorem last_char_append {n e : String} {ch : Char} (h : last_char e = some ch) :
    last_char (n ++ e) = some ch := by
  unfold last_char at h ⊢
  rw [String.toList_append, List.getLast?_append, h, Option.some_or]

theorem last_char_json (s : SafeId) : last_char (json_name s) = some 'n' :=
  last_char_append (by decide)

theorem last_char_npz (s : SafeId) : last_char (npz_name s) = some 'z' :=
  last_char_append (by decide)

theorem last_char_journal (t : Token) : last_char (journal_name t) = some 'n' :=
  last_char_append (by decide)

theorem last_char_endswith {n e : String} {ch : Char} (h : PyText.endswith n e = true)
    (he : last_char e = some ch) : last_char n = some ch := by
  obtain ⟨l, hl⟩ := List.isSuffixOf_iff_suffix.1 h
  rw [last_char] at he ⊢
  rw [← hl, List.getLast?_append, he, Option.some_or]

theorem last_char_tmp {n : String} (h : is_tmp_name n = true) : last_char n = some 'p' :=
  last_char_endswith (Bool.and_eq_true_iff.1 h).2 (by decide)

theorem last_char_is_journal {n : String} (h : is_journal_name n = true) : last_char n = some 'n' :=
  last_char_endswith (Bool.and_eq_true_iff.1 h).2 (by decide)

theorem last_char_txdir (t : Token) :
    ∃ ch ∈ "0123456789abcdef".toList, last_char (txdir_name t) = some ch := by
  have hne : t.val.toList ≠ [] := fun h => by
    have hlen := t.length
    simp [h] at hlen
  refine ⟨t.val.toList.getLast hne, t.hex _ (List.getLast_mem hne), last_char_append ?_⟩
  exact List.getLast?_eq_some_getLast hne

/-- A name that ends in another character is not that of a transaction directory. -/
theorem ne_txdir {n : String} {ch : Char} (t : Token) (h : last_char n = some ch)
    (hch : ch ∉ "0123456789abcdef".toList) : n ≠ txdir_name t := by
  rintro rfl
  obtain ⟨ch', hmem, hlast⟩ := last_char_txdir t
  rw [h] at hlast
  exact hch (Option.some.inj hlast ▸ hmem)

theorem ne_of_last_char {n m : String} {ch ch' : Char} (h : last_char n = some ch)
    (h' : last_char m = some ch') (hne : ch ≠ ch') : n ≠ m := by
  rintro rfl
  exact hne (Option.some.inj (h.symm.trans h'))

theorem not_tmp {n : String} {ch : Char} (h : last_char n = some ch) (hne : ch ≠ 'p') :
    is_tmp_name n = false := by
  rw [← Bool.not_eq_true]
  exact fun htmp => hne (Option.some.inj (h.symm.trans (last_char_tmp htmp)))

theorem json_ne_npz (s s' : SafeId) : json_name s ≠ npz_name s' :=
  ne_of_last_char (last_char_json s) (last_char_npz s') (by decide)

theorem json_name_inj {s s' : SafeId} (h : json_name s = json_name s') : s = s' := by
  cases s
  cases s'
  cases append_right_inj h
  rfl

theorem npz_name_inj {s s' : SafeId} (h : npz_name s = npz_name s') : s = s' := by
  cases s
  cases s'
  cases append_right_inj h
  rfl

theorem journal_ne_json {t : Token} {s : SafeId} (h : s.val ≠ txdir_name t) :
    journal_name t ≠ json_name s := fun he => h (append_right_inj he).symm

theorem txdir_entry (t : Token) : '/' ∉ (txdir_name t).toList := by
  rw [txdir_name, String.toList_append, List.mem_append]
  rintro (h | h)
  · revert h
    decide
  · have hhex := t.hex _ h
    revert hhex
    decide

/-- The canonical files of a voice are entries of the directory. -/
theorem entry_append {s : SafeId} {e : String} (he : '/' ∉ e.toList) (hlen : 3 ≤ e.toList.length) :
    EntryName (s.val ++ e) := by
  have hl : (s.val ++ e).toList = s.val.toList ++ e.toList := String.toList_append
  have hshort : ∀ m : String, m.toList.length ≤ 2 → s.val ++ e ≠ m := by
    rintro m hm rfl
    rw [hl, List.length_append] at hm
    omega
  refine ⟨?_, hshort _ (by decide), hshort _ (by decide), hshort _ (by decide)⟩
  rw [hl, List.mem_append, not_or]
  exact ⟨s.entry.1, he⟩

theorem json_entry (s : SafeId) : EntryName (json_name s) := entry_append (by decide) (by decide)

theorem npz_entry (s : SafeId) : EntryName (npz_name s) := entry_append (by decide) (by decide)

/-! ### An instance -/

namespace Sample

/-- Files that say what they read as. -/
inductive Bytes where
  | object (items : List (String × Json))
  | archive (token : String)
  | torn
  deriving DecidableEq

def codec : Codec Bytes Unit where
  load_json
    | .object items => some fun k => items.lookup k
    | _ => none
  npz_token
    | .archive token => some (some token)
    | _ => none
  dumps data := .object data.items
  savez _ token := .archive token
  load_dumps _ := rfl
  token_savez _ _ := rfl

def root : Root where
  abspath n := "/voices/" ++ n
  locate p := if PyText.startswith p "/voices/" then some (String.ofList (p.toList.drop 8)) else none
  locate_abspath n _ := by
    rw [if_pos (PyText.startswith_append _ _), String.toList_append, List.drop_left' (by decide),
      String.ofList_toList]

/-- Names in the order of their characters. -/
def before (a b : String) : Prop := a.toList.map Char.toNat ≤ b.toList.map Char.toNat

instance : DecidableRel before := fun _ _ => inferInstanceAs (Decidable (_ ≤ _))

instance : Std.Total before := ⟨fun _ _ => le_total _ _⟩

instance : IsTrans String before := ⟨fun _ _ _ => le_trans⟩

instance : Std.Antisymm before := ⟨fun _ _ h h' => String.toList_inj.1
  (List.map_injective_iff.2 (fun _ _ hab => Char.toNat_inj.1 hab) (le_antisymm h h'))⟩

def listing (names : Finset String) : List String :=
  Quot.liftOn names.val (List.insertionSort before) fun l l' h =>
    List.Perm.eq_of_pairwise' (List.pairwise_insertionSort _ l) (List.pairwise_insertionSort _ l')
      (((List.perm_insertionSort _ l).trans h).trans (List.perm_insertionSort _ l').symm)

theorem mem_listing (names : Finset String) (n : String) : n ∈ listing names ↔ n ∈ names := by
  obtain ⟨⟨l⟩, hl⟩ := names
  exact List.mem_insertionSort _

/-- A temporary name longer than any in use. -/
def tmp_name (d : Dir Bytes) : String :=
  ".rollback-" ++ String.ofList ((listing d.keys).flatMap String.toList) ++ ".tmp"

/-- A name that is longer than all of them is none of them. -/
theorem longer_new (names : Finset String) :
    ".rollback-" ++ String.ofList ((listing names).flatMap String.toList) ++ ".tmp" ∉ names := by
  intro h
  have hmem := List.mem_map_of_mem (f := String.toList) ((mem_listing _ _).2 h)
  have hle := (List.sublist_flatten_of_mem hmem).length_le
  simp only [String.toList_append, String.toList_ofList, List.length_append, List.flatMap] at hle
  have hpositive : 0 < ".tmp".toList.length := by decide
  omega

theorem tmp_name_new (d : Dir Bytes) : tmp_name d ∉ d := fun h =>
  longer_new d.keys (Finmap.mem_keys.2 h)

/-- Nothing fails but the cleanups, after as many removals as it says. -/
def os (cleanup_fails : Option ℕ) : Os codec where
  scan := listing
  mem_scan := mem_listing
  mkstemp := tmp_name
  mkstemp_name d := by
    rw [is_tmp_name, tmp_name, PyText.endswith_append, String.append_assoc,
      PyText.startswith_append]
    rfl
  mkstemp_new := tmp_name_new
  part _ := .torn
  part_dumps _ := rfl
  cleanup_fails _ _ := cleanup_fails
  commit_fails _ _ := false

theorem hex_of_all {s : String} (h : s.toList.all ("0123456789abcdef".toList.contains ·) = true) :
    ∀ ch ∈ s.toList, ch ∈ "0123456789abcdef".toList := fun ch hch =>
  List.contains_iff_mem.1 (List.all_eq_true.1 h ch hch)

def first : Token := ⟨"0123456789abcdef0123456789abcde1", by decide, hex_of_all (by decide)⟩
def second : Token := ⟨"0123456789abcdef0123456789abcde2", by decide, hex_of_all (by decide)⟩

def anna : SafeId := ⟨"clone_anna", by decide⟩

/-- What `register_embedding_voice` writes for a vector of 1024 numbers. -/
def profile : Dict String Json :=
  Dict.update .empty
    [("voice_id", .str "clone:anna"), ("npz_file", .str "clone_anna.npz"),
      ("profile_type", .str "speaker_embedding"), ("model_id", .str "qwen3-tts-0.6b-base"),
      ("compatible_models", .other "['qwen3-tts-0.6b-base']" true), ("embedding_dim", .int 1024),
      ("embedding_dtype", .str "float32"), ("sample_rate", .int 24000), ("ref_text", .null),
      ("source_meta", .null)]

end Sample

end LocalVoice.SparkTTSVoices
