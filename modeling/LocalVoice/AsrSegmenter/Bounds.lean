import Mathlib.Algebra.Order.Floor.Semiring
import Mathlib.Algebra.Order.Archimedean.Basic
import Mathlib.Data.Rat.Floor
import Mathlib.Tactic.Linarith
import Mathlib.Tactic.Positivity
import Mathlib.Tactic.Ring

/-! The boundary planning of `server/core/asr_segmenter.py`, over exact rationals: the fixed slices
    with their overlap and the tail fold, and the packing of speech regions into segments. Every
    slice and every segment fits the safe length (`fixed_fits`, `group_fits`), and the two
    `…_length_le_one` results say when a plan has a single segment only.

        region ──▶ span > max ?              ──yes──▶ close the open segment, cut the region
                   │ no                                with fixed_segment_bounds
                   ▼
                   end - cur_start ≤ max ?   ──yes──▶ extend the open segment
                   │ no
                   ▼
                   close the open segment, open one at this region -/

namespace LocalVoice.AsrSegmenter

/-- A segment `[start, end)` in seconds. -/
abbrev Bound := ℚ × ℚ

/-- `_MIN_TAIL_SECONDS`. -/
def min_tail_seconds : ℚ := 1 / 2

/-- The tolerance of the loop's comparisons with the end of the clip. -/
def end_tolerance : ℚ := 1 / 10 ^ 9

/-- The `while start < duration - tol` loop, with a bound on its iterations. -/
def slices (tol duration max_segment step : ℚ) : ℕ → ℚ → List Bound
  | 0, _ => []
  | n + 1, start =>
    if start < duration - tol then
      (start, min duration (start + max_segment)) ::
        if duration - tol ≤ min duration (start + max_segment) then []
        else slices tol duration max_segment step n (start + step)
    else []

/-- The tail fold: a last slice under `_MIN_TAIL_SECONDS` is merged into the one before it, whose
    start is pulled forward to stay within the safe length. -/
def fold_tail (max_segment : ℚ) : List Bound → List Bound
  | [p, q] =>
    if q.2 - q.1 < min_tail_seconds then [(max p.1 (q.2 - max_segment), q.2)] else [p, q]
  | p :: q :: rest => p :: fold_tail max_segment (q :: rest)
  | l => l

/-- The overlap that is used: not negative and at most half a slice. -/
def used_overlap (max_segment overlap : ℚ) : ℚ := min (max 0 overlap) (max_segment / 2)

/-- How far one slice starts after the one before it. -/
def slice_step (max_segment overlap : ℚ) : ℚ := max_segment - used_overlap max_segment overlap

/-- `fixed_segment_bounds`, for a tolerance of the end comparisons. -/
def fixed_segment_bounds_tol (tol duration max_segment overlap : ℚ) : List Bound :=
  if duration ≤ 0 ∨ max_segment ≤ 0 then []
  else if duration ≤ max_segment then [(0, duration)]
  else
    let step := slice_step max_segment overlap
    fold_tail max_segment (slices tol duration max_segment step ⌈duration / step⌉₊ 0)

/-- `fixed_segment_bounds`. -/
def fixed_segment_bounds (duration max_segment overlap : ℚ) : List Bound :=
  fixed_segment_bounds_tol end_tolerance duration max_segment overlap

/-- The loop state of `group_regions`: the closed segments and the open one. -/
structure Packing where
  segments : List Bound
  current : Option Bound

/-- `segments` with the open segment appended. -/
def Packing.closed (s : Packing) : List Bound := s.segments ++ s.current.toList

/-- The loop body of `group_regions`. -/
def pack (max_segment overlap : ℚ) (s : Packing) (r : Bound) : Packing :=
  if max_segment < r.2 - r.1 then
    ⟨s.closed ++ (fixed_segment_bounds (r.2 - r.1) max_segment overlap).map
      fun b => (r.1 + b.1, r.1 + b.2), none⟩
  else
    match s.current with
    | none => ⟨s.segments, some r⟩
    | some c =>
      if r.2 - c.1 ≤ max_segment then ⟨s.segments, some (c.1, r.2)⟩
      else ⟨s.segments ++ [c], some r⟩

/-- `group_regions`. -/
def group_regions (regions : List Bound) (max_segment overlap : ℚ) : List Bound :=
  (regions.foldl (pack max_segment overlap) ⟨[], none⟩).closed

/-! ### The slicing loop -/

section
variable {tol duration max_segment overlap step : ℚ}

theorem used_overlap_nonneg (hM : 0 < max_segment) : 0 ≤ used_overlap max_segment overlap :=
  le_min (le_max_left _ _) (by linarith)

theorem slice_step_pos (hM : 0 < max_segment) : 0 < slice_step max_segment overlap := by
  have h : used_overlap max_segment overlap ≤ max_segment / 2 := min_le_right _ _
  unfold slice_step
  linarith

theorem slice_step_le (hM : 0 < max_segment) : slice_step max_segment overlap ≤ max_segment := by
  have h : 0 ≤ used_overlap max_segment overlap := used_overlap_nonneg hM
  unfold slice_step
  linarith

/-- With enough iterations left, one more changes nothing. -/
theorem slices_succ (htol : 0 ≤ tol) : ∀ {n : ℕ} {start : ℚ}, duration - start ≤ n * step →
    slices tol duration max_segment step (n + 1) start =
      slices tol duration max_segment step n start
  | 0, start, h => by
      have hstop : ¬ start < duration - tol := by
        simp only [Nat.cast_zero, zero_mul] at h
        linarith
      simp [slices, hstop]
  | n + 1, start, h => by
      have hrest : duration - (start + step) ≤ n * step := by
        push_cast at h
        linarith
      rw [slices, slices_succ htol hrest, slices]

/-- The loop equation: with enough iterations left the bound on them plays no role. -/
theorem slices_eq (htol : 0 ≤ tol) {n : ℕ} {start : ℚ} (h : duration - start ≤ n * step) :
    slices tol duration max_segment step n start =
      if start < duration - tol then
        (start, min duration (start + max_segment)) ::
          if duration - tol ≤ min duration (start + max_segment) then []
          else slices tol duration max_segment step n (start + step)
      else [] := by
  rw [← slices_succ htol h, slices]

theorem enough_slices (hM : 0 < max_segment) :
    duration - 0 ≤ (⌈duration / slice_step max_segment overlap⌉₊ : ℚ) *
      slice_step max_segment overlap := by
  have h := Nat.le_ceil (duration / slice_step max_segment overlap)
  rw [div_le_iff₀ (slice_step_pos hM)] at h
  linarith

/-- A bound fits when it lasts at most the safe length. -/
def Fits (max_segment : ℚ) (b : Bound) : Prop := b.2 - b.1 ≤ max_segment

theorem slices_fit : ∀ (n : ℕ) (start : ℚ),
    ∀ b ∈ slices tol duration max_segment step n start, Fits max_segment b
  | 0, _ => by simp [slices]
  | n + 1, start => by
      intro b hb
      unfold slices at hb
      split at hb
      · rcases List.mem_cons.1 hb with rfl | hb
        · have h : min duration (start + max_segment) ≤ start + max_segment := min_le_right _ _
          unfold Fits
          linarith
        · split at hb
          · simp at hb
          · exact slices_fit n _ b hb
      · simp at hb

theorem fold_tail_fits : ∀ {l : List Bound}, (∀ b ∈ l, Fits max_segment b) →
    ∀ b ∈ fold_tail max_segment l, Fits max_segment b
  | [], h => h
  | [_], h => h
  | [p, q], h => by
      intro b hb
      unfold fold_tail at hb
      split at hb
      · obtain rfl := List.mem_singleton.1 hb
        have hstart : q.2 - max_segment ≤ max p.1 (q.2 - max_segment) := le_max_right _ _
        unfold Fits
        linarith
      · exact h b hb
  | p :: q :: r :: rest, h => by
      intro b hb
      rw [fold_tail] at hb
      · rcases List.mem_cons.1 hb with rfl | hb
        · exact h _ (by simp)
        · exact fold_tail_fits (fun b hb => h b (List.mem_cons_of_mem _ hb)) b hb
      · simp

/-- Every fixed slice fits the safe length, the folded tail included. -/
theorem fixed_fits :
    ∀ b ∈ fixed_segment_bounds_tol tol duration max_segment overlap, Fits max_segment b := by
  intro b hb
  unfold fixed_segment_bounds_tol at hb
  split at hb
  · simp at hb
  · split at hb
    · obtain rfl := List.mem_singleton.1 hb
      unfold Fits
      linarith
    · exact fold_tail_fits (slices_fit _ _) b hb

/-! ### Plans of one slice -/

/-- The clip lengths over the safe length that `fixed_segment_bounds` leaves in one piece: within
    the tolerance of it, or with a second slice that the tail fold takes back. -/
def OneSlice (tol duration max_segment overlap : ℚ) : Prop :=
  duration - tol ≤ max_segment ∨
    (duration - tol ≤ slice_step max_segment overlap + max_segment ∧
      min duration (slice_step max_segment overlap + max_segment) -
        slice_step max_segment overlap < min_tail_seconds)

theorem fold_tail_length_ge : ∀ p q r : Bound, ∀ rest : List Bound,
    2 ≤ (fold_tail max_segment (p :: q :: r :: rest)).length
  | p, q, r, [] => by
      have h : fold_tail max_segment [p, q, r] = p :: fold_tail max_segment [q, r] := rfl
      rw [h, fold_tail]
      split <;> simp
  | p, q, r, s :: rest => by
      have h : fold_tail max_segment (p :: q :: r :: s :: rest) =
          p :: fold_tail max_segment (q :: r :: s :: rest) := rfl
      have hlen := fold_tail_length_ge q r s rest
      rw [h, List.length_cons]
      omega

/-- Over the safe length `fixed_segment_bounds` is its loop and the fold. -/
theorem fixed_eq (hM : 0 < max_segment) (hd : max_segment < duration) :
    fixed_segment_bounds_tol tol duration max_segment overlap = fold_tail max_segment
      (slices tol duration max_segment (slice_step max_segment overlap)
        ⌈duration / slice_step max_segment overlap⌉₊ 0) := by
  rw [fixed_segment_bounds_tol, if_neg (by rintro (h | h) <;> linarith), if_neg (by linarith)]

/-- A clip over the safe length is left in one piece exactly when `OneSlice` says so. -/
theorem fixed_length_le_one (htol : 0 ≤ tol) (hM : 0 < max_segment) (hd : max_segment < duration) :
    (fixed_segment_bounds_tol tol duration max_segment overlap).length ≤ 1 ↔
      OneSlice tol duration max_segment overlap := by
  set step := slice_step max_segment overlap with hstep
  have hstep0 : 0 < step := slice_step_pos hM
  have hstepM : step ≤ max_segment := slice_step_le hM
  have hfuel : duration - 0 ≤ (⌈duration / step⌉₊ : ℚ) * step := enough_slices hM
  have hfuel1 : duration - (0 + step) ≤ (⌈duration / step⌉₊ : ℚ) * step := by linarith
  have hfuel2 : duration - (0 + step + step) ≤ (⌈duration / step⌉₊ : ℚ) * step := by linarith
  have hfirst : min duration (0 + max_segment) = max_segment := by
    rw [zero_add]
    exact min_eq_right hd.le
  rw [fixed_eq hM hd, OneSlice, ← hstep, slices_eq htol hfuel, hfirst]
  by_cases h1 : duration - tol ≤ max_segment
  · -- the first slice reaches the end, or the loop is not entered at all
    simp only [h1, if_true, true_or, iff_true]
    split <;> simp [fold_tail]
  · rw [if_pos (by linarith), if_neg h1, slices_eq htol hfuel1, if_pos (by linarith)]
    simp only [zero_add, h1, false_or]
    by_cases h2 : duration - tol ≤ step + max_segment
    · -- two slices, and the fold decides
      have hend : duration - tol ≤ min duration (step + max_segment) :=
        le_min (by linarith) h2
      rw [if_pos hend, fold_tail]
      simp only [h2, true_and]
      split <;> simp_all
    · -- a third slice follows
      have hend : ¬ duration - tol ≤ min duration (step + max_segment) := fun h =>
        h2 (h.trans (min_le_right _ _))
      rw [if_neg hend, slices_eq htol (by simpa using hfuel2), if_pos (by linarith)]
      exact iff_of_false (Nat.not_le.2 (fold_tail_length_ge _ _ _ _)) fun h => h2 h.1

theorem fold_tail_ne_nil : ∀ (p : Bound) (l : List Bound), fold_tail max_segment (p :: l) ≠ []
  | p, [] => by simp [fold_tail]
  | p, [q] => by unfold fold_tail; split <;> simp
  | p, q :: r :: rest => by
      have h : fold_tail max_segment (p :: q :: r :: rest) =
          p :: fold_tail max_segment (q :: r :: rest) := rfl
      simp [h]

/-- Longer than the tolerance and the safe length, a clip has a slice. -/
theorem fixed_ne_nil (htol : 0 ≤ tol) (hM : 0 < max_segment) (hd : max_segment < duration)
    (hgap : tol < duration) : fixed_segment_bounds_tol tol duration max_segment overlap ≠ [] := by
  rw [fixed_eq hM hd, slices_eq htol (enough_slices hM), if_pos (by linarith)]
  exact fold_tail_ne_nil _ _

end

/-! ### Packing the speech regions -/

section
variable {max_segment overlap : ℚ}

/-- The loop invariant of `group_regions`. -/
theorem pack_fits {s : Packing} (r : Bound) (hs : ∀ b ∈ s.closed, Fits max_segment b) :
    ∀ b ∈ (pack max_segment overlap s r).closed, Fits max_segment b := by
  intro b hb
  unfold pack at hb
  split at hb
  · simp only [Packing.closed, Option.toList_none, List.append_nil, List.mem_append,
      List.mem_map] at hb
    rcases hb with hb | ⟨p, hp, rfl⟩
    · exact hs b (by simpa [Packing.closed] using hb)
    · have hfit : p.2 - p.1 ≤ max_segment := fixed_fits p hp
      unfold Fits
      linarith
  · rename_i hshort
    have hr : Fits max_segment r := not_lt.1 hshort
    cases hc : s.current with
    | none =>
      rw [hc] at hb
      rcases List.mem_append.1 hb with hb | hb
      · exact hs b (List.mem_append_left _ hb)
      · obtain rfl : b = r := by simpa using hb
        exact hr
    | some c =>
      rw [hc] at hb
      dsimp only at hb
      split at hb
      · rename_i hfit
        rcases List.mem_append.1 hb with hb | hb
        · exact hs b (List.mem_append_left _ hb)
        · obtain rfl : b = (c.1, r.2) := by simpa using hb
          exact hfit
      · rcases List.mem_append.1 hb with hb | hb
        · exact hs b (by simpa [Packing.closed, hc] using hb)
        · obtain rfl : b = r := by simpa using hb
          exact hr

/-- Every segment of `group_regions` fits the safe length, whatever the regions are. -/
theorem group_fits (regions : List Bound) :
    ∀ b ∈ group_regions regions max_segment overlap, Fits max_segment b := by
  suffices h : ∀ (rs : List Bound) (s : Packing), (∀ b ∈ s.closed, Fits max_segment b) →
      ∀ b ∈ (rs.foldl (pack max_segment overlap) s).closed, Fits max_segment b from
    h regions ⟨[], none⟩ (by simp [Packing.closed])
  intro rs
  induction rs with
  | nil => intro s hs; exact hs
  | cons r rs ih => intro s hs; exact ih _ (pack_fits r hs)

/-- The region lists that are packed into one segment: all short and within the safe length of the
    first one's start, or a single long one that `fixed_segment_bounds` leaves in one piece. -/
def OneGroup (max_segment overlap : ℚ) (regions : List Bound) : Prop :=
  (∀ first ∈ regions.head?, ∀ r ∈ regions, Fits max_segment r ∧ r.2 - first.1 ≤ max_segment) ∨
    ∃ r, regions = [r] ∧ max_segment < r.2 - r.1 ∧
      OneSlice end_tolerance (r.2 - r.1) max_segment overlap

theorem pack_length_le (s : Packing) (r : Bound) :
    s.closed.length ≤ (pack max_segment overlap s r).closed.length := by
  unfold pack
  split
  · simp [Packing.closed]
  · cases hc : s.current with
    | none => simp [Packing.closed, hc]
    | some c =>
      dsimp only
      split <;> simp [Packing.closed, hc]

theorem foldl_pack_length_le (max_segment overlap : ℚ) : ∀ (rs : List Bound) (s : Packing),
    s.closed.length ≤ (rs.foldl (pack max_segment overlap) s).closed.length
  | [], _ => le_rfl
  | r :: rs, s => (pack_length_le s r).trans (foldl_pack_length_le max_segment overlap rs _)

/-- A long region adds at least one segment of its own. -/
theorem pack_long (overlap : ℚ) (hM : 0 < max_segment) (s : Packing) {r : Bound}
    (hr : end_tolerance < r.2 - r.1) (hlong : max_segment < r.2 - r.1) :
    s.closed.length + 1 ≤ (pack max_segment overlap s r).closed.length ∧
      (pack max_segment overlap s r).current = none := by
  have hne : fixed_segment_bounds (r.2 - r.1) max_segment overlap ≠ [] :=
    fixed_ne_nil (by norm_num [end_tolerance]) hM hlong hr
  have hpos := List.length_pos_iff.2 hne
  unfold pack
  rw [if_pos hlong]
  refine ⟨?_, rfl⟩
  simp only [Packing.closed, Option.toList_none, List.append_nil, List.length_append,
    List.length_map]
  omega

theorem pack_closed_pos (overlap : ℚ) (hM : 0 < max_segment) (s : Packing) {r : Bound}
    (hr : end_tolerance < r.2 - r.1) : 0 < (pack max_segment overlap s r).closed.length := by
  by_cases hlong : max_segment < r.2 - r.1
  · have h := (pack_long overlap hM s hr hlong).1
    omega
  · unfold pack
    rw [if_neg hlong]
    cases s.current with
    | none => simp [Packing.closed]
    | some c => dsimp only; split <;> simp [Packing.closed]

/-- With no segment open, the next region makes a new one. -/
theorem pack_after_long (overlap : ℚ) (hM : 0 < max_segment) {s : Packing} (hs : s.current = none) {r : Bound}
    (hr : end_tolerance < r.2 - r.1) :
    s.closed.length + 1 ≤ (pack max_segment overlap s r).closed.length := by
  by_cases hlong : max_segment < r.2 - r.1
  · exact (pack_long overlap hM s hr hlong).1
  · unfold pack
    rw [if_neg hlong, hs]
    simp [Packing.closed, hs]

/-- From one open segment on, it stays the only one exactly when every region extends it. -/
theorem foldl_pack_open (hM : 0 < max_segment) : ∀ (rs : List Bound) (c : Bound),
    (∀ r ∈ rs, end_tolerance < r.2 - r.1) →
    ((rs.foldl (pack max_segment overlap) ⟨[], some c⟩).closed.length ≤ 1 ↔
      ∀ r ∈ rs, Fits max_segment r ∧ r.2 - c.1 ≤ max_segment)
  | [], c, _ => by simp [Packing.closed]
  | r :: rs, c, hpos => by
      have hr : end_tolerance < r.2 - r.1 := hpos r (by simp)
      have hrs : ∀ q ∈ rs, end_tolerance < q.2 - q.1 := fun q hq => hpos q (by simp [hq])
      have hlen := foldl_pack_length_le max_segment overlap rs
      rw [List.foldl_cons]
      by_cases hlong : max_segment < r.2 - r.1
      · have h2 := (pack_long overlap hM ⟨[], some c⟩ hr hlong).1
        have h3 := hlen (pack max_segment overlap ⟨[], some c⟩ r)
        simp only [Packing.closed, List.nil_append, Option.toList_some, List.length_singleton]
          at h2
        refine iff_of_false (by simp only [Packing.closed] at h3 ⊢; omega) fun h => ?_
        have := (h r (by simp)).1
        unfold Fits at this
        linarith
      · by_cases hfit : r.2 - c.1 ≤ max_segment
        · have hstep : pack max_segment overlap ⟨[], some c⟩ r = ⟨[], some (c.1, r.2)⟩ := by
            rw [pack, if_neg hlong]
            simp [hfit]
          rw [hstep, foldl_pack_open hM rs (c.1, r.2) hrs, List.forall_mem_cons]
          exact ⟨fun h => ⟨⟨not_lt.1 hlong, hfit⟩, h⟩, fun h => h.2⟩
        · have hstep : pack max_segment overlap ⟨[], some c⟩ r = ⟨[c], some r⟩ := by
            rw [pack, if_neg hlong]
            simp [hfit]
          have h3 := hlen ⟨[c], some r⟩
          simp only [Packing.closed, List.singleton_append, Option.toList_some,
            List.length_cons, List.length_nil] at h3
          rw [hstep]
          refine iff_of_false (by simp only [Packing.closed] at h3 ⊢; omega) fun h => ?_
          exact hfit (h r (by simp)).2

/-- `group_regions` returns one segment at most exactly when `OneGroup` says so. -/
theorem group_length_le_one (hM : 0 < max_segment) {regions : List Bound}
    (hpos : ∀ r ∈ regions, end_tolerance < r.2 - r.1) :
    (group_regions regions max_segment overlap).length ≤ 1 ↔
      OneGroup max_segment overlap regions := by
  cases regions with
  | nil => simp [group_regions, Packing.closed, OneGroup]
  | cons r rs =>
    have hr : end_tolerance < r.2 - r.1 := hpos r (by simp)
    have hrs : ∀ q ∈ rs, end_tolerance < q.2 - q.1 := fun q hq => hpos q (by simp [hq])
    rw [group_regions, List.foldl_cons]
    by_cases hlong : max_segment < r.2 - r.1
    · have hnfit : ¬ Fits max_segment r := not_le.2 hlong
      cases rs with
      | nil =>
        -- a single region that is cut by itself
        have hcut : (fixed_segment_bounds (r.2 - r.1) max_segment overlap).length ≤ 1 ↔
            OneSlice end_tolerance (r.2 - r.1) max_segment overlap :=
          fixed_length_le_one (by norm_num [end_tolerance]) hM hlong
        have hclosed : (pack max_segment overlap ⟨[], none⟩ r).closed.length =
            (fixed_segment_bounds (r.2 - r.1) max_segment overlap).length := by
          rw [pack, if_pos hlong]
          simp [Packing.closed]
        rw [List.foldl_nil, hclosed, hcut]
        refine ⟨fun h => Or.inr ⟨r, rfl, hlong, h⟩, ?_⟩
        rintro (h | ⟨q, hq, -, h⟩)
        · exact absurd (h r rfl r (by simp)).1 hnfit
        · obtain rfl : r = q := by simpa using hq
          exact h
      | cons q rs =>
        -- another region follows it and makes a segment of its own
        have h1 := (pack_long overlap hM ⟨[], none⟩ hr hlong).1
        have h2 := pack_after_long overlap hM
          (pack_long overlap hM ⟨[], none⟩ hr hlong).2 (hrs q (by simp))
        have h3 := foldl_pack_length_le max_segment overlap rs
          (pack max_segment overlap (pack max_segment overlap ⟨[], none⟩ r) q)
        refine iff_of_false (by rw [List.foldl_cons]; omega) ?_
        rintro (h | ⟨p, hp, -⟩)
        · exact hnfit (h r rfl r (by simp)).1
        · simp at hp
    · have hopen : pack max_segment overlap ⟨[], none⟩ r = ⟨[], some r⟩ := by
        rw [pack, if_neg hlong]
      rw [hopen, foldl_pack_open hM rs r hrs]
      constructor
      · intro h
        refine Or.inl fun first hfirst q hq => ?_
        obtain rfl : r = first := by simpa using hfirst
        rcases List.mem_cons.1 hq with rfl | hq
        · exact ⟨not_lt.1 hlong, not_lt.1 hlong⟩
        · exact h q hq
      · rintro (h | ⟨q, hq, hq', -⟩)
        · exact fun q hq => h r rfl q (by simp [hq])
        · obtain rfl : r = q := by simpa using (List.cons.inj hq).1
          exact absurd hq' hlong

/-- Some region leaves some segment. -/
theorem group_ne_nil (hM : 0 < max_segment) {regions : List Bound} (hne : regions ≠ [])
    (hpos : ∀ r ∈ regions, end_tolerance < r.2 - r.1) :
    group_regions regions max_segment overlap ≠ [] := by
  obtain ⟨r, rs, rfl⟩ := List.exists_cons_of_ne_nil hne
  have h1 := pack_closed_pos overlap hM ⟨[], none⟩ (hpos r (by simp))
  have h2 := foldl_pack_length_le max_segment overlap rs
    (pack max_segment overlap ⟨[], none⟩ r)
  exact List.ne_nil_of_length_pos (h1.trans_le h2)

end

end LocalVoice.AsrSegmenter
