import Mathlib.Data.List.Sort
import Mathlib.Data.String.Basic
import LocalVoice.SparkTTSVoices.Files

/-! The journaled transactions of `server/core/sparktts_voices.py`: what publishes and deletes a pair
    of profile files, and the recovery that every call runs first. The recovery of one journal reads
    all it needs before it changes anything, so it is a plan (`recovery_plan`) and its execution.

        write:   mkdir ▸ old.* ▸ new.* ▸ journal ▸ replace npz ▸ replace json ▸ cleanup
        delete:  mkdir ▸ old.* ▸         journal ▸ unlink json ▸ unlink npz   ▸ cleanup
        cleanup: the entries of the directory ▸ the directory ▸ the journal -/

namespace LocalVoice.SparkTTSVoices
open LocalVoice.Lib

/-! ### Journals -/

/-- The fields of a journal that `_recover_transaction` has accepted so far. -/
structure Journal where
  operation : Option Json
  token : String
  tx_dir : String
  json_path : String
  npz_path : String
  old_present : Bool

/-- `str(value or default)`. -/
def str_or (value : Option Json) (default : String) : String :=
  match value.filter Json.truthy with
  | some v => v.toStr
  | none => default

/-- `value == 1`. -/
def is_one : Option Json → Bool
  | some (.int n) => n = 1
  | some (.bool b) => b
  | some (.other p _) => p = "1.0"
  | _ => false

/-- The checks on the data of a journal alone. -/
def read_journal (name : String) (data : String → Option Json) : Option Journal :=
  let token := str_or (data "token") ""
  let tx_dir := str_or (data "tx_dir") <| txn_prefix ++ token
  if is_one (data "schema_version") && token ≠ "" && PyText.startswith name txn_prefix &&
      !tx_dir.toList.contains '/' && PyText.startswith tx_dir txn_prefix then
    some
      { operation := data "operation"
        token := token
        tx_dir := tx_dir
        json_path := ((data "json_path").map Json.toStr).getD ""
        npz_path := ((data "npz_path").map Json.toStr).getD ""
        old_present := ((data "old_present").map Json.truthy).getD false }
  else none

section
variable {β α : Type} {c : Codec β α}

/-- `_json_pair_token`. -/
def json_pair_token (data : String → Option Json) : Option String :=
  ((data "__pair_token").filter (· ≠ .null)).map Json.toStr

/-- `_pair_has_token`. -/
def pair_has_token (c : Codec β α) (d : Dir β) (j n token : String) : Bool :=
  ((read d j).bind c.load_json).bind json_pair_token = some token &&
    (read d n).bind c.npz_token = some (some token)

/-- What the recovery of one journal is going to do. -/
inductive Plan (β : Type) where
  | ignore
  | clean (tx : String)
  | restore (tx j n : String) (old_json old_npz : β)
  | remove (tx j n : String)
  | missing_backup

/-- `_restore_or_remove_transaction` up to its first change. -/
def restore_or_remove (es : Folder β) (jr : Journal) (j n : String) : Plan β :=
  if jr.old_present then
    match es.lookup "old.json", es.lookup "old.npz" with
    | some a, some b => .restore jr.tx_dir j n a b
    | _, _ => .missing_backup
  else .remove jr.tx_dir j n

/-! ### Carrying out a plan -/

/-- `_cleanup_transaction`. -/
def cleanup_transaction (os : Os c) (tx journal : String) : Prog (Dir β) Unit := do
  let d ← .get
  let removals := remove_path os tx d ++ remove_path os journal d
  match os.cleanup_fails d journal with
  | some n => .steps (removals.take n)
  | none => .steps removals

/-- `_restore_from_file`; `false` if the rename raises. -/
def restore_from_file (os : Os c) (backup : β) (destination : String) : Prog (Dir β) Bool := do
  let d ← .get
  write_file os (os.mkstemp d) backup
  match d.lookup destination with
  | some (.folder _) => .act (Finmap.erase (os.mkstemp d)) (pure false)
  | _ => .act (fun t => put destination backup (Finmap.erase (os.mkstemp d) t)) (pure true)

/-- The rest of `_recover_transaction`; what it raises is logged by its callers. -/
def execute (os : Os c) (journal : String) : Plan β → Prog (Dir β) Unit
  | .ignore => pure ()
  | .missing_backup => pure ()
  | .clean tx => cleanup_transaction os tx journal
  | .restore tx j n a b => do
    if ← restore_from_file os a j then
      if ← restore_from_file os b n then
        cleanup_transaction os tx journal
  | .remove tx j n => do
    if ← unlink_file j then
      if ← unlink_file n then
        cleanup_transaction os tx journal

/-- The body of the second loop: a transaction directory without a journal is removed. -/
def remove_orphan (os : Os c) (name : String) : Prog (Dir β) Unit := do
  let d ← .get
  match d.lookup name with
  | some (.folder _) =>
    if PyText.endswith name ".json" || (d.lookup (name ++ ".json")).isSome then pure ()
    else .steps (remove_path os name d)
  | _ => pure ()

/-! ### Recovery -/

section
variable [DecidableEq β]

/-- `_files_equal` of an entry and a backup. -/
def files_equal (d : Dir β) (name : String) (es : Folder β) (backup : String) : Bool :=
  match read d name, es.lookup backup with
  | some x, some y => x = y
  | _, _ => false

/-- Whether `_recover_transaction` takes the transaction for over. -/
def is_over (c : Codec β α) (d : Dir β) (es : Folder β) (jr : Journal) (j n : String) : Bool :=
  if jr.operation = some (.str "write") then
    pair_has_token c d j n jr.token ||
      if jr.old_present then files_equal d j es "old.json" && files_equal d n es "old.npz"
      else (d.lookup j).isNone && (d.lookup n).isNone
  else (d.lookup j).isNone && (d.lookup n).isNone

/-- `_recover_transaction` up to its first change. -/
def recovery_plan (c : Codec β α) (root : Root) (d : Dir β) (journal : String) : Plan β :=
  match ((read d journal).bind c.load_json).bind (read_journal journal) with
  | none => .ignore
  | some jr =>
    match subdir d jr.tx_dir, root.locate jr.json_path, root.locate jr.npz_path with
    | some es, some j, some n =>
      if jr.operation = some (.str "write") ∨ jr.operation = some (.str "delete") then
        if is_over c d es jr j n then .clean jr.tx_dir else restore_or_remove es jr j n
      else .ignore
    | _, _, _ => .ignore

/-- `_recover_transaction`. -/
def recover_transaction (os : Os c) (root : Root) (journal : String) : Prog (Dir β) Unit := do
  let d ← .get
  execute os journal (recovery_plan c root d journal)

/-- `_recover_transactions_unlocked`. -/
def recover_transactions (os : Os c) (root : Root) : Prog (Dir β) Unit := do
  let d ← .get
  .forEach (recover_transaction os root)
    ((os.scan (d.keys.filter fun n => is_journal_name n)).insertionSort (· ≤ ·))
  let d ← .get
  .forEach (remove_orphan os) (os.scan (d.keys.filter fun n => PyText.startswith n txn_prefix))

end

/-! ### Transactions -/

/-- What a call does to the pair of a voice, once its checks have passed. -/
inductive Operation (α : Type) where
  | write (json_data : Dict String Json) (npz_arrays : α)
  | delete

/-- The journal of a transaction. -/
def journal_data (root : Root) (t : Token) (s : SafeId) (operation : String) (old_present : Bool) :
    Dict String Json :=
  Dict.update .empty
    [("schema_version", .int 1), ("operation", .str operation), ("token", .str t.val),
      ("tx_dir", .str (txdir_name t)), ("json_path", .str (root.abspath (json_name s))),
      ("npz_path", .str (root.abspath (npz_name s))), ("old_present", .bool old_present)]

/-- The pair of a voice, if it has both files. -/
def pair_files (d : Dir β) (s : SafeId) : Option (β × β) :=
  match read d (json_name s), read d (npz_name s) with
  | some a, some b => some (a, b)
  | _, _ => none

/-- The bytes a write publishes, both with the token of the transaction. -/
def new_json (c : Codec β α) (t : Token) (json_data : Dict String Json) : β :=
  c.dumps (json_data.set "__pair_token" (.str t.val))

def new_npz (c : Codec β α) (t : Token) (npz_arrays : α) : β := c.savez npz_arrays t.val

/-- The pair an operation is to leave. -/
def published (c : Codec β α) (t : Token) : Operation α → Option (β × β)
  | .write json_data npz_arrays => some (new_json c t json_data, new_npz c t npz_arrays)
  | .delete => none

/-- Whether a transaction has replaced or removed the pair, or raised. -/
inductive Outcome where | committed | raised
  deriving DecidableEq

/-- The copies of the old pair. -/
def write_backups (os : Os c) (t : Token) (a b : β) : Prog (Dir β) Unit := do
  write_in os (txdir_name t) "old.json" a
  write_in os (txdir_name t) "old.npz" b

/-- `os.replace` of a canonical file by the new one in the transaction directory. -/
def replace_from (tx entry name : String) (b : β) (d : Dir β) : Dir β :=
  put name b (unlink_in tx entry d)

variable [DecidableEq β]

/-- The `try` block of a transaction: two commit steps, each on a canonical file. A failing one is
    rolled back at once. -/
def commit (os : Os c) (root : Root) (t : Token) (name₁ name₂ : String)
    (step₁ step₂ : Dir β → Dir β) : Prog (Dir β) Outcome := do
  let d ← .get
  if os.commit_fails d name₁ then
    recover_transaction os root (journal_name t)
    return .raised
  .step step₁
  let d ← .get
  if os.commit_fails d name₂ then
    recover_transaction os root (journal_name t)
    return .raised
  .step step₂
  cleanup_transaction os (txdir_name t) (journal_name t)
  return .committed

/-- `_atomic_write_pair`. -/
def atomic_write_pair (os : Os c) (root : Root) (t : Token) (s : SafeId)
    (json_data : Dict String Json) (npz_arrays : α) : Prog (Dir β) Outcome := do
  let d ← .get
  if (d.lookup (txdir_name t)).isSome then return .raised
  .step (Finmap.insert (txdir_name t) (.folder ∅))
  match pair_files d s with
  | some (a, b) => write_backups os t a b
  | none => pure ()
  write_in os (txdir_name t) "new.json" (new_json c t json_data)
  write_in os (txdir_name t) "new.npz" (new_npz c t npz_arrays)
  write_file os (journal_name t)
    (c.dumps (journal_data root t s "write" (pair_files d s).isSome))
  commit os root t (npz_name s) (json_name s)
    (replace_from (txdir_name t) "new.npz" (npz_name s) (new_npz c t npz_arrays))
    (replace_from (txdir_name t) "new.json" (json_name s) (new_json c t json_data))

/-- `_atomic_delete_pair`; a file that is missing raises while it is copied. -/
def atomic_delete_pair (os : Os c) (root : Root) (t : Token) (s : SafeId) :
    Prog (Dir β) Outcome := do
  let d ← .get
  if (d.lookup (txdir_name t)).isSome then return .raised
  .step (Finmap.insert (txdir_name t) (.folder ∅))
  match read d (json_name s), read d (npz_name s) with
  | some a, some b =>
    write_backups os t a b
    write_file os (journal_name t) (c.dumps (journal_data root t s "delete" true))
    commit os root t (json_name s) (npz_name s) (Finmap.erase (json_name s))
      (Finmap.erase (npz_name s))
  | some a, none =>
    write_in os (txdir_name t) "old.json" a
    return .raised
  | none, _ => return .raised

/-- The transaction of a call on the voice `s`. -/
def transaction (os : Os c) (root : Root) (t : Token) (s : SafeId) :
    Operation α → Prog (Dir β) Outcome
  | .write json_data npz_arrays => atomic_write_pair os root t s json_data npz_arrays
  | .delete => atomic_delete_pair os root t s

end

end LocalVoice.SparkTTSVoices
