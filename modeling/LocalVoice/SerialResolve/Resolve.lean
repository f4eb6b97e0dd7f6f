import LocalVoice.Lib.PyText
import Mathlib.Data.Int.Notation

/-! `resolve_serial_port` of `agent/ovs_agent/actuators/serial_resolve.py`: with `'auto'` the port is that
    of the one device that satisfies the specification. A device satisfies `match` when any of its rules
    does, so a rule that is added to `match` can only bring devices in; one that is added to `exclude`
    only takes them out. -/

namespace LocalVoice.SerialResolve
open LocalVoice.Lib

/-- What `_usb_identity` reads; a field that cannot be read is empty, as are all of them without a USB node. -/
structure Identity where
  vid : String
  pid : String
  vendor : String
  product : String
  serial : String
  deriving DecidableEq

/-- A serial device under `/dev`. -/
structure Device where
  tty : String
  ident : Identity
  deriving DecidableEq

/-- A specification: the wanted values of its keys, as `str`. -/
abbrev Spec := List (String × Option (List String))

/-- `spec.get(key, []) or []`. -/
def wants (spec : Spec) (key : String) : List String := ((spec.lookup key).join).getD []

section
variable (lower : String → String)

/-- `_spec_matches`. -/
def spec_matches (ident : Identity) (spec : Option Spec) : Bool :=
  match spec with
  | none => false
  | some [] => false
  | some spec =>
    (wants spec "usb_id").any (fun want => lower want = ident.vid ++ ":" ++ ident.pid) ||
    (wants spec "vendor").any (fun want => PyText.contains (lower ident.vendor) (lower want)) ||
    (wants spec "product").any (fun want => PyText.contains (lower ident.product) (lower want)) ||
    (wants spec "serial").any (fun want => want = ident.serial)

/-- The device is a candidate: it satisfies `match`, and does not satisfy `exclude`. -/
def eligible (spec exclude : Option Spec) (ident : Identity) : Bool :=
  spec_matches lower ident spec && !spec_matches lower ident exclude

def candidates (spec exclude : Option Spec) (seen : List Device) : List Device :=
  seen.filter fun d => eligible lower spec exclude d.ident

/-- Why no port was resolved. -/
inductive Error where
  | no_spec
  | ambiguous (candidates : List Device)
  | not_found (seen : List String)

variable (realpath : String → String)

/-- The attempts, from the `i`-th on; `seen` are the devices at each. The devices come sorted, so the first
    candidate is that of `sorted(candidates)`. -/
def attempts_from (spec exclude : Option Spec) (ambiguous : String) (seen : ℕ → List Device) :
    ℕ → ℕ → Except Error String
  | 0, i => .error (.not_found ((seen (i - 1)).map Device.tty))
  | n + 1, i =>
    match candidates lower spec exclude (seen i) with
    | [] => attempts_from spec exclude ambiguous seen n (i + 1)
    | [d] => .ok (realpath ("/dev/" ++ d.tty))
    | d :: more =>
      if ambiguous = "first" then .ok (realpath ("/dev/" ++ d.tty)) else .error (.ambiguous (d :: more))

/-- `resolve_serial_port`; `retry_s` is a whole number here. -/
def resolve_serial_port (channel : Option String) (spec exclude : Option Spec) (ambiguous : String)
    (retry_s : ℤ) (seen : ℕ → List Device) : Except Error String :=
  let ch := PyText.strip (channel.getD "")
  if lower ch ≠ "auto" then .ok (realpath ch)
  else if spec.getD [] = [] then .error .no_spec
  else attempts_from lower realpath spec exclude ambiguous seen (max 1 retry_s).toNat 0

end

/-! ### Rules -/

/-- A rule: a value wanted for a key. -/
structure Rule where
  key : String
  want : String
  deriving DecidableEq

/-- The rule is in the specification. -/
def Rule.of (r : Rule) (spec : Option Spec) : Prop :=
  r.key ∈ ["usb_id", "vendor", "product", "serial"] ∧ r.want ∈ wants (spec.getD []) r.key

/-- The rule holds of a device. -/
def Rule.holds (lower : String → String) (r : Rule) (ident : Identity) : Prop :=
  (r.key = "usb_id" ∧ lower r.want = ident.vid ++ ":" ++ ident.pid) ∨
    (r.key = "vendor" ∧ PyText.contains (lower ident.vendor) (lower r.want) = true) ∨
    (r.key = "product" ∧ PyText.contains (lower ident.product) (lower r.want) = true) ∨
    r.key = "serial" ∧ r.want = ident.serial

/-- Every rule of `spec` is in `more`. -/
def Adds (spec more : Option Spec) : Prop := ∀ r : Rule, r.of spec → r.of more

section
variable {lower : String → String} {realpath : String → String} {ident : Identity}
  {spec more exclude : Option Spec} {seen : ℕ → List Device}

/-- A device satisfies a specification when one of its rules holds. -/
theorem spec_matches_iff :
    spec_matches lower ident spec = true ↔ ∃ r : Rule, r.of spec ∧ r.holds lower ident := by
  have hwants : spec_matches lower ident spec = true ↔
      (∃ want ∈ wants (spec.getD []) "usb_id", lower want = ident.vid ++ ":" ++ ident.pid) ∨
      (∃ want ∈ wants (spec.getD []) "vendor", PyText.contains (lower ident.vendor) (lower want) = true) ∨
      (∃ want ∈ wants (spec.getD []) "product", PyText.contains (lower ident.product) (lower want) = true) ∨
      ∃ want ∈ wants (spec.getD []) "serial", want = ident.serial := by
    unfold spec_matches
    split
    · simp [wants]
    · simp [wants]
    · simp only [Bool.or_eq_true, List.any_eq_true, decide_eq_true_eq, Option.getD_some, or_assoc]
  rw [hwants]
  constructor
  · rintro (⟨w, hw, h⟩ | ⟨w, hw, h⟩ | ⟨w, hw, h⟩ | ⟨w, hw, h⟩)
    · exact ⟨⟨"usb_id", w⟩, ⟨by simp, hw⟩, .inl ⟨rfl, h⟩⟩
    · exact ⟨⟨"vendor", w⟩, ⟨by simp, hw⟩, .inr (.inl ⟨rfl, h⟩)⟩
    · exact ⟨⟨"product", w⟩, ⟨by simp, hw⟩, .inr (.inr (.inl ⟨rfl, h⟩))⟩
    · exact ⟨⟨"serial", w⟩, ⟨by simp, hw⟩, .inr (.inr (.inr ⟨rfl, h⟩))⟩
  · rintro ⟨⟨key, w⟩, ⟨-, hw⟩, ⟨rfl, h⟩ | ⟨rfl, h⟩ | ⟨rfl, h⟩ | ⟨rfl, h⟩⟩
    · exact .inl ⟨w, hw, h⟩
    · exact .inr (.inl ⟨w, hw, h⟩)
    · exact .inr (.inr (.inl ⟨w, hw, h⟩))
    · exact .inr (.inr (.inr ⟨w, hw, h⟩))

theorem spec_matches_mono (h : Adds spec more) (hmatch : spec_matches lower ident spec = true) :
    spec_matches lower ident more = true := by
  obtain ⟨r, hr, hholds⟩ := spec_matches_iff.1 hmatch
  exact spec_matches_iff.2 ⟨r, h r hr, hholds⟩

theorem eligible_iff : eligible lower spec exclude ident = true ↔
    spec_matches lower ident spec = true ∧ spec_matches lower ident exclude = false := by
  rw [eligible, Bool.and_eq_true, Bool.not_eq_true']

/-- A rule that is added to `exclude` makes no device eligible. -/
theorem eligible_exclude (h : Adds exclude more) (heligible : eligible lower spec more ident = true) :
    eligible lower spec exclude ident = true := by
  obtain ⟨hmatch, hmore⟩ := eligible_iff.1 heligible
  refine eligible_iff.2 ⟨hmatch, Bool.eq_false_iff.2 fun hexclude => ?_⟩
  exact absurd (spec_matches_mono h hexclude) (Bool.eq_false_iff.1 hmore)

/-- A rule that is added to `match` makes those devices eligible that satisfied none before. -/
theorem eligible_more :
    (eligible lower more exclude ident = true → eligible lower spec exclude ident = true) ↔
      (spec_matches lower ident exclude = false → ∀ r : Rule, r.of more → ¬ r.of spec → r.holds lower ident →
        spec_matches lower ident spec = true) := by
  rw [eligible_iff, eligible_iff]
  constructor
  · intro hsame hexclude r hr _ hholds
    exact (hsame ⟨spec_matches_iff.2 ⟨r, hr, hholds⟩, hexclude⟩).1
  · rintro hadded ⟨hmore, hexclude⟩
    obtain ⟨r, hr, hholds⟩ := spec_matches_iff.1 hmore
    by_cases hold : r.of spec
    · exact ⟨spec_matches_iff.2 ⟨r, hold, hholds⟩, hexclude⟩
    · exact ⟨hadded hexclude r hr hold hholds, hexclude⟩

/-! ### Attempts -/

/-- A port that is resolved is that of the only candidate, at the first attempt with any. -/
theorem attempts_only {ambiguous path : String} (hambiguous : ambiguous ≠ "first") {n i : ℕ}
    (h : attempts_from lower realpath spec exclude ambiguous seen n i = .ok path) :
    ∃ j, i ≤ j ∧ j < i + n ∧ (∀ k, i ≤ k → k < j → candidates lower spec exclude (seen k) = []) ∧
      ∃ d, candidates lower spec exclude (seen j) = [d] ∧ path = realpath ("/dev/" ++ d.tty) := by
  induction n generalizing i with
  | zero => cases h
  | succ n ih =>
    rw [attempts_from] at h
    split at h
    · next hnone =>
      obtain ⟨j, hle, hlt, hbefore, hd⟩ := ih h
      refine ⟨j, Nat.le_of_succ_le hle, by omega, fun k hk hkj => ?_, hd⟩
      rcases Nat.lt_or_eq_of_le hk with hk | rfl
      · exact hbefore k hk hkj
      · exact hnone
    · next d hone =>
      obtain rfl := Except.ok.inj h
      exact ⟨i, Nat.le_refl i, by omega, fun k hk hki => absurd hki (Nat.not_lt_of_le hk), d, hone, rfl⟩
    · rw [if_neg hambiguous] at h
      cases h

theorem resolve_only {path : String} {retry_s : ℤ} (hauto : lower "auto" = "auto")
    (h : resolve_serial_port lower realpath (some "auto") spec exclude "error" retry_s seen = .ok path) :
    ∃ j, j < (max 1 retry_s).toNat ∧ (∀ k < j, candidates lower spec exclude (seen k) = []) ∧
      ∃ d, candidates lower spec exclude (seen j) = [d] ∧ path = realpath ("/dev/" ++ d.tty) := by
  have hstrip : PyText.strip ((some "auto").getD "") = "auto" := by decide
  rw [resolve_serial_port, hstrip, if_neg (not_not.2 hauto)] at h
  split at h
  · cases h
  · obtain ⟨j, -, hlt, hbefore, hd⟩ := attempts_only (by decide) h
    exact ⟨j, by omega, fun k hk => hbefore k (Nat.zero_le k) hk, hd⟩

/-- A device that is alone and eligible is resolved. -/
theorem resolve_alone {d : Device} {retry_s : ℤ} (hauto : lower "auto" = "auto")
    (h : eligible lower spec exclude d.ident = true) :
    resolve_serial_port lower realpath (some "auto") spec exclude "error" retry_s (fun _ => [d]) =
      .ok (realpath ("/dev/" ++ d.tty)) := by
  have hstrip : PyText.strip ((some "auto").getD "") = "auto" := by decide
  have hspec : spec.getD [] ≠ [] := by
    intro hnil
    obtain ⟨r, ⟨-, hr⟩, -⟩ := spec_matches_iff.1 (eligible_iff.1 h).1
    rw [hnil] at hr
    exact absurd hr (by simp [wants])
  obtain ⟨n, hn⟩ : ∃ n, (max 1 retry_s).toNat = n + 1 := Nat.exists_eq_add_one.2 (by omega)
  have hone : candidates lower spec exclude [d] = [d] := by simp [candidates, h]
  rw [resolve_serial_port, hstrip, if_neg (not_not.2 hauto), if_neg hspec, hn, attempts_from, hone]

end

/-- What is resolved is the unit with that serial, exactly when no other unit that may be present satisfies a
    rule. -/
theorem resolves_unit {lower realpath : String → String} (hauto : lower "auto" = "auto")
    {spec exclude : Option Spec} {retry_s : ℤ} {present : Identity → Prop} {serial : String} :
    (∀ seen path, (∀ i, ∀ d ∈ seen i, present d.ident) →
        resolve_serial_port lower realpath (some "auto") spec exclude "error" retry_s seen = .ok path →
        ∃ i, ∃ d ∈ seen i, d.ident.serial = serial ∧ path = realpath ("/dev/" ++ d.tty)) ↔
      ∀ ident, present ident → ident.serial ≠ serial → spec_matches lower ident exclude = false →
        ∀ r : Rule, r.of spec → ¬ r.holds lower ident := by
  constructor
  · -- a unit that satisfies a rule is resolved when it is alone
    intro hsafe ident hpresent hserial hexclude r hr hholds
    have heligible : eligible lower spec exclude ident = true :=
      eligible_iff.2 ⟨spec_matches_iff.2 ⟨r, hr, hholds⟩, hexclude⟩
    obtain ⟨i, d, hd, hsame, -⟩ := hsafe (fun _ => [⟨"ttyACM0", ident⟩]) _
      (fun _ d hd => List.mem_singleton.1 hd ▸ hpresent) (resolve_alone hauto heligible)
    obtain rfl := List.mem_singleton.1 hd
    exact hserial hsame
  · intro hrules seen path hpresent h
    obtain ⟨i, -, -, d, hone, hpath⟩ := resolve_only hauto h
    have hmem : d ∈ candidates lower spec exclude (seen i) := hone ▸ List.mem_cons_self
    obtain ⟨hseen, heligible⟩ := List.mem_filter.1 hmem
    obtain ⟨hmatch, hexclude⟩ := eligible_iff.1 heligible
    obtain ⟨r, hr, hholds⟩ := spec_matches_iff.1 hmatch
    refine ⟨i, d, hseen, ?_, hpath⟩
    by_cases hserial : d.ident.serial = serial
    · exact hserial
    · exact absurd hholds (hrules d.ident (hpresent i d hseen) hserial hexclude r hr)

/-- A port is resolved at an attempt with one eligible device, and is that device's; a rule added to
    `exclude` makes none eligible. A rule added to `match` makes none eligible among some devices exactly
    when those for which it holds satisfied `match` before; and in no run among them is the port of a unit
    with another serial resolved exactly when no such unit satisfies any rule. -/
theorem resolve_tightened (lower realpath : String → String) (hauto : lower "auto" = "auto")
    (spec more exclude : Option Spec) (retry_s : ℤ) (present : Identity → Prop) (serial : String) :
    (∀ seen path, resolve_serial_port lower realpath (some "auto") spec exclude "error" retry_s seen = .ok path →
      ∃ i, i < (max 1 retry_s).toNat ∧ ∃ d, candidates lower spec exclude (seen i) = [d] ∧
        path = realpath ("/dev/" ++ d.tty)) ∧
    (Adds exclude more → ∀ ident, eligible lower spec more ident = true →
      eligible lower spec exclude ident = true) ∧
    (Adds spec more →
      ((∀ ident, present ident → eligible lower more exclude ident = true →
          eligible lower spec exclude ident = true) ↔
        ∀ ident, present ident → spec_matches lower ident exclude = false → ∀ r : Rule, r.of more →
          ¬ r.of spec → r.holds lower ident → spec_matches lower ident spec = true)) ∧
    ((∀ seen path, (∀ i, ∀ d ∈ seen i, present d.ident) →
        resolve_serial_port lower realpath (some "auto") spec exclude "error" retry_s seen = .ok path →
        ∃ i, ∃ d ∈ seen i, d.ident.serial = serial ∧ path = realpath ("/dev/" ++ d.tty)) ↔
      ∀ ident, present ident → ident.serial ≠ serial → spec_matches lower ident exclude = false →
        ∀ r : Rule, r.of spec → ¬ r.holds lower ident) := by
  refine ⟨fun seen path h => ?_, fun hadds ident => eligible_exclude hadds, fun _ => ?_, resolves_unit hauto⟩
  · obtain ⟨i, hlt, -, hd⟩ := resolve_only hauto h
    exact ⟨i, hlt, hd⟩
  · exact forall₂_congr fun ident _ => eligible_more

/-- A unit of an arm, by its serial. -/
def arm (serial : String) : Identity := ⟨"2e88", "4603", "Seeed", "B601", serial⟩

/-- A specification by the identity of the product and the serial of a unit, and by the serial alone. -/
def by_unit : Option Spec := some [("usb_id", some ["2E88:4603"]), ("serial", some ["A"])]
def by_serial : Option Spec := some [("serial", some ["A"])]

/-- Where the units A and B may be present, what is resolved by the serial is unit A. -/
theorem resolve_tightened_unit : ∃ i, ∃ d ∈ (fun _ : ℕ => [(⟨"ttyACM0", arm "A"⟩ : Device)]) i,
    d.ident.serial = "A" ∧ "/dev/ttyACM0" = id ("/dev/" ++ d.tty) := by
  have hsafe := (resolve_tightened PyText.lower id (by decide) by_serial by_unit none 10
    (fun ident => ident = arm "A" ∨ ident = arm "B") "A").2.2.2.2
  refine hsafe ?_ _ _ ?_ (by rfl)
  · rintro ident (rfl | rfl) hserial - r hr hholds
    · exact absurd rfl hserial
    · have hmatch := spec_matches_iff.2 ⟨r, hr, hholds⟩
      exact absurd hmatch (by decide)
  · intro i d hd
    rw [List.mem_singleton.1 hd]
    exact .inl rfl

/-- With the serial of unit A added, unit B is still resolved; and the serial added to another product's
    specification makes unit A eligible. -/
theorem serial_widens :
    (∃ path, resolve_serial_port PyText.lower id (some "auto") by_unit none "error" 10
      (fun _ => [⟨"ttyACM0", arm "B"⟩]) = .ok path) ∧
    eligible PyText.lower (some [("usb_id", some ["1a86:7523"])]) none (arm "A") = false ∧
    eligible PyText.lower (some [("usb_id", some ["1a86:7523"]), ("serial", some ["A"])]) none (arm "A") = true :=
  ⟨⟨"/dev/ttyACM0", by rfl⟩, by decide, by decide⟩

end LocalVoice.SerialResolve
