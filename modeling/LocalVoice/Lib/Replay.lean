import Mathlib.Data.List.DropRight
import Mathlib.Data.Nat.Notation
import LocalVoice.Lib.Tasks

/-! A stream whose last withheld items stay in a bounded ring, which is replayed before the next item
    that is passed on, and cleared by an item that is dropped. What comes out is in order, and it is
    told by place which items come out (`mem_replayed_iff`). -/

namespace LocalVoice.Lib

inductive Fate where
  | dropped
  | withheld
  | live
  deriving DecidableEq

/-- An item comes out when it is live, or one of the last `cap` of a run that is withheld up to a live
    item. -/
def Heard (cap : ℕ) (fs : List Fate) (j : ℕ) : Prop :=
  fs[j]? = some .live ∨ fs[j]? = some .withheld ∧ ∃ k, j < k ∧ k ≤ j + cap ∧ fs[k]? = some .live ∧
    ∀ i, j ≤ i → i < k → fs[i]? = some .withheld

/-- The ring, and what has come out. -/
structure Replay (α : Type*) where
  ring : List α
  out : List α

variable {α : Type*}

def Replay.init : Replay α := ⟨[], []⟩

def Replay.step (cap : ℕ) (s : Replay α) (x : α) : Fate → Replay α
  | .dropped => ⟨[], s.out⟩
  | .withheld => ⟨(s.ring ++ [x]).rtake cap, s.out⟩
  | .live => ⟨[], s.out ++ s.ring ++ [x]⟩

/-- What a step makes come out does not depend on what came out before. -/
theorem Replay.step_out (cap : ℕ) (ring out : List α) (x : α) (f : Fate) :
    Replay.step cap ⟨ring, out⟩ x f =
      ⟨(Replay.step cap ⟨ring, []⟩ x f).ring, out ++ (Replay.step cap ⟨ring, []⟩ x f).out⟩ := by
  cases f <;> simp [Replay.step]

/-- The places of the items in the ring, and of those that came out. -/
def replayed (cap : ℕ) (fs : List Fate) : Replay ℕ :=
  fs.zipIdx.foldl (fun s x => s.step cap x.2 x.1) .init

theorem replayed_concat (cap : ℕ) (fs : List Fate) (f : Fate) :
    replayed cap (fs ++ [f]) = (replayed cap fs).step cap fs.length f := by
  simp [replayed, List.zipIdx_append]

variable {cap lo n j : ℕ} {fs : List Fate} {f : Fate}

/-- The places of the items of a fate. -/
def places (f : Fate) (fs : List Fate) : List ℕ :=
  fs.zipIdx.filterMap fun x => if x.1 = f then some x.2 else none

theorem places_concat (g : Fate) (fs : List Fate) (f : Fate) :
    places g (fs ++ [f]) = places g fs ++ if f = g then [fs.length] else [] := by
  unfold places
  rw [List.zipIdx_append, List.filterMap_append]
  by_cases h : f = g <;> simp [h]

theorem mem_places_iff {g : Fate} : j ∈ places g fs ↔ fs[j]? = some g := by
  induction fs using List.reverseRecOn with
  | nil => simp [places]
  | append_singleton fs f ih =>
    rw [places_concat, List.mem_append, ih, get_concat_iff]
    by_cases h : f = g <;> simp [h]

theorem places_sorted (g : Fate) (fs : List Fate) : (places g fs).Pairwise (· < ·) := by
  induction fs using List.reverseRecOn with
  | nil => exact .nil
  | append_singleton fs f ih =>
    rw [places_concat]
    refine List.pairwise_append.2 ⟨ih, ?_, fun a ha b hb => ?_⟩
    · split <;> simp
    · split at hb
      · rw [List.mem_singleton.1 hb]
        exact lt_length_of_get (mem_places_iff.1 ha)
      · cases hb

/-- The last of the places from `lo` to `n`. -/
theorem mem_recent (hlo : lo ≤ n) :
    j ∈ (List.range' lo (n - lo)).rtake cap ↔ lo ≤ j ∧ j < n ∧ n ≤ j + cap := by
  unfold List.rtake
  rw [List.length_range', List.drop_range', List.mem_range'_1]
  omega

theorem recent_sorted : ((List.range' lo n).rtake cap).Pairwise (· < ·) :=
  List.Pairwise.sublist (List.drop_sublist _ _) List.pairwise_lt_range'

/-- The ring of a run that goes on by one. -/
theorem recent_concat (hlo : lo ≤ n) : ((List.range' lo (n - lo)).rtake cap ++ [n]).rtake cap =
    (List.range' lo (n + 1 - lo)).rtake cap := by
  have hnext : List.range' lo (n + 1 - lo) = List.range' lo (n - lo) ++ [n] := by
    rw [Nat.succ_sub hlo, List.range'_concat, Nat.one_mul, Nat.add_sub_cancel' hlo]
  rw [hnext]
  unfold List.rtake
  simp only [List.length_append, List.length_drop, List.length_singleton, List.length_range']
  rw [List.drop_append, List.drop_append, List.drop_drop]
  simp only [List.length_drop, List.length_range']
  congr 2 <;> omega

/-- A run of withheld items has begun at `lo`, and has not ended. -/
structure Held (cap : ℕ) (fs : List Fate) (s : Replay ℕ) (lo : ℕ) : Prop where
  le : lo ≤ fs.length
  run : ∀ i, lo ≤ i → i < fs.length → fs[i]? = some .withheld
  first : ∀ i, i + 1 = lo → fs[i]? ≠ some .withheld
  ring : s.ring = (List.range' lo (fs.length - lo)).rtake cap
  sorted : s.out.Pairwise (· < ·)
  before : ∀ j ∈ s.out, j < lo
  out : ∀ j, j ∈ s.out ↔ Heard cap fs j

theorem heard_concat (h : Heard cap fs j) : Heard cap (fs ++ [f]) j := by
  have hget : ∀ {i c}, fs[i]? = some c → (fs ++ [f])[i]? = some c := fun hi => get_concat_iff.2 (.inl hi)
  rcases h with hlive | ⟨hheld, k, hlt, hle, hlive, hrun⟩
  · exact .inl (hget hlive)
  · exact .inr ⟨hget hheld, k, hlt, hle, hget hlive, fun i hji hik => hget (hrun i hji hik)⟩

/-- What the new item makes come out is the item, when it is live, and the last of the run before. -/
theorem of_heard_concat (h : Heard cap (fs ++ [f]) j) : Heard cap fs j ∨ f = .live ∧ (j = fs.length ∨
    j < fs.length ∧ fs.length ≤ j + cap ∧ ∀ i, j ≤ i → i < fs.length → fs[i]? = some .withheld) := by
  rcases h with hlive | ⟨hheld, k, hlt, hle, hlive, hrun⟩
  · rcases get_concat_iff.1 hlive with hlive | ⟨hj, hf⟩
    · exact .inl (.inl hlive)
    · exact .inr ⟨hf, .inl hj⟩
  · have hrun' : k ≤ fs.length → ∀ i, j ≤ i → i < k → fs[i]? = some .withheld := by
      intro hk i hji hik
      rcases get_concat_iff.1 (hrun i hji hik) with hi | ⟨hi, -⟩
      · exact hi
      · omega
    rcases get_concat_iff.1 hlive with hlive | ⟨rfl, hf⟩
    · have hk : k < fs.length := lt_length_of_get hlive
      exact .inl (.inr ⟨hrun' (Nat.le_of_lt hk) j (Nat.le_refl j) hlt, k, hlt, hle, hlive,
        hrun' (Nat.le_of_lt hk)⟩)
    · exact .inr ⟨hf, .inr ⟨hlt, hle, hrun' (Nat.le_refl _)⟩⟩

/-- A new item that is not withheld ends the run, and the next can begin after it. -/
theorem held_ended {s' : Replay ℕ} (hf : f ≠ .withheld) (hring : s'.ring = [])
    (hsorted : s'.out.Pairwise (· < ·)) (hbefore : ∀ j ∈ s'.out, j ≤ fs.length)
    (hout : ∀ j, j ∈ s'.out ↔ Heard cap (fs ++ [f]) j) : Held cap (fs ++ [f]) s' (fs.length + 1) := by
  refine ⟨by simp, fun i hle hlt => ?_, fun i hi => ?_, ?_, hsorted, fun j hj => ?_, hout⟩
  · simp only [List.length_append, List.length_singleton] at hlt
    omega
  · obtain rfl := Nat.succ_injective hi
    simpa using hf
  · simpa [List.rtake] using hring
  · exact Nat.lt_succ_of_le (hbefore j hj)

theorem Held.step {s : Replay ℕ} (h : Held cap fs s lo) (f : Fate) :
    ∃ lo', Held cap (fs ++ [f]) (s.step cap fs.length f) lo' := by
  have hbefore : ∀ j ∈ s.out, j < fs.length := fun j hj => Nat.lt_of_lt_of_le (h.before j hj) h.le
  cases f with
  | dropped =>
    refine ⟨_, held_ended (by decide) rfl h.sorted (fun j hj => Nat.le_of_lt (hbefore j hj)) fun j => ?_⟩
    refine (h.out j).trans ⟨heard_concat, fun hj => ?_⟩
    rcases of_heard_concat hj with hj | ⟨hf, -⟩
    · exact hj
    · cases hf
  | withheld =>
    refine ⟨lo, ?_, fun i hle hlt => ?_, fun i hi hheld => ?_, ?_, h.sorted, h.before, fun j => ?_⟩
    · simpa using Nat.le_succ_of_le h.le
    · simp only [List.length_append, List.length_singleton] at hlt
      refine get_concat_iff.2 ?_
      rcases Nat.lt_succ_iff_lt_or_eq.1 hlt with hlt | rfl
      · exact .inl (h.run i hle hlt)
      · exact .inr ⟨rfl, rfl⟩
    · rcases get_concat_iff.1 hheld with hheld | ⟨hlen, -⟩
      · exact h.first i hi hheld
      · have hle := h.le
        omega
    · simp only [Replay.step, h.ring, List.length_append, List.length_singleton]
      exact recent_concat h.le
    · refine (h.out j).trans ⟨heard_concat, fun hj => ?_⟩
      rcases of_heard_concat hj with hj | ⟨hf, -⟩
      · exact hj
      · cases hf
  | live =>
    have hmem : ∀ j, j ∈ (s.step cap fs.length .live).out ↔
        j ∈ s.out ∨ (lo ≤ j ∧ j < fs.length ∧ fs.length ≤ j + cap) ∨ j = fs.length := by
      intro j
      simp only [Replay.step, List.mem_append, List.mem_singleton, h.ring, mem_recent h.le, or_assoc]
    refine ⟨_, held_ended (by decide) rfl ?_ ?_ fun j => ?_⟩
    · -- what came out before lies before the ring, and the ring before the item
      simp only [Replay.step, List.append_assoc]
      refine List.pairwise_append.2 ⟨h.sorted, List.pairwise_append.2 ⟨?_, by simp, ?_⟩, ?_⟩
      · exact h.ring ▸ recent_sorted
      · intro a ha b hb
        rw [h.ring, mem_recent h.le] at ha
        rw [List.mem_singleton.1 hb]
        exact ha.2.1
      · intro a ha b hb
        have hlo := h.before a ha
        rw [List.mem_append, h.ring, mem_recent h.le, List.mem_singleton] at hb
        have hle := h.le
        omega
    · intro j hj
      rcases (hmem j).1 hj with hj | hj | rfl
      · exact Nat.le_of_lt (hbefore j hj)
      · exact Nat.le_of_lt hj.2.1
      · exact Nat.le_refl _
    · rw [hmem]
      constructor
      · rintro (hj | ⟨hle, hlt, hcap⟩ | rfl)
        · exact heard_concat ((h.out j).1 hj)
        · have hget : ∀ i, j ≤ i → i < fs.length → (fs ++ [Fate.live])[i]? = some .withheld :=
            fun i hji hi => get_concat_iff.2 (.inl (h.run i (Nat.le_trans hle hji) hi))
          exact .inr ⟨hget j (Nat.le_refl j) hlt, fs.length, hlt, hcap,
            get_concat_iff.2 (.inr ⟨rfl, rfl⟩), hget⟩
        · exact .inl (get_concat_iff.2 (.inr ⟨rfl, rfl⟩))
      · intro hj
        rcases of_heard_concat hj with hj | ⟨-, hj | ⟨hlt, hcap, hrun⟩⟩
        · exact .inl ((h.out j).2 hj)
        · exact .inr (.inr hj)
        · refine .inr (.inl ⟨?_, hlt, hcap⟩)
          -- the run before the item began at `lo`
          rcases Nat.lt_or_ge j lo with hjlo | hjlo
          · have hle := h.le
            exact absurd (hrun (lo - 1) (by omega) (by omega)) (h.first (lo - 1) (by omega))
          · exact hjlo

theorem held_replayed (cap : ℕ) (fs : List Fate) : ∃ lo, Held cap fs (replayed cap fs) lo := by
  induction fs using List.reverseRecOn with
  | nil =>
    refine ⟨0, Nat.le_refl 0, fun i _ hi => (by cases hi), fun i hi => (by cases hi), ?_, .nil,
      fun j hj => (by cases hj), fun j => ?_⟩
    · exact List.drop_nil.symm
    refine iff_of_false (fun hj => by cases hj) ?_
    rintro (h | ⟨h, -⟩) <;> cases h
  | append_singleton fs f ih =>
    obtain ⟨lo, h⟩ := ih
    rw [replayed_concat]
    exact h.step f

/-- What comes out comes out in order, no item twice. -/
theorem replayed_sorted (cap : ℕ) (fs : List Fate) : (replayed cap fs).out.Pairwise (· < ·) := by
  obtain ⟨lo, h⟩ := held_replayed cap fs
  exact h.sorted

theorem mem_replayed_iff : j ∈ (replayed cap fs).out ↔ Heard cap fs j := by
  obtain ⟨lo, h⟩ := held_replayed cap fs
  exact h.out j

theorem replayed_lt (h : j ∈ (replayed cap fs).out) : j < fs.length := by
  obtain ⟨lo, hheld⟩ := held_replayed cap fs
  exact Nat.lt_of_lt_of_le (hheld.before j h) hheld.le

end LocalVoice.Lib
