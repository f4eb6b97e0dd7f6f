import LocalVoice.AsrSegmenter.Bounds

/-! What the slices of `fixed_segment_bounds` cover. The loop's slices start one step after the
    other and leave no gap, and the last one reaches the end of the clip. The tail fold takes the
    last slice back and moves the one before it to the end of the clip: what that one covered alone
    is lost, unless the slice before it still reaches the moved start.

        before   ├────────┤
                     ├────────┤
                         ├────────┤
                             ├──┤      tail under _MIN_TAIL_SECONDS
        after    ├────────┤
                     ├────────┤
                           ├────────┤  moved start, max_segment before the end -/

namespace LocalVoice.AsrSegmenter

/-! ### The loop ends -/

section
variable {tol duration max_segment overlap step : ℚ}

/-- The `while` loop run for a number of iterations; `none` while it has not ended. -/
def slices_run (tol duration max_segment step : ℚ) : ℕ → ℚ → Option (List Bound)
  | 0, start => if start < duration - tol then none else some []
  | n + 1, start =>
    if start < duration - tol then
      if duration - tol ≤ min duration (start + max_segment) then
        some [(start, min duration (start + max_segment))]
      else
        (slices_run tol duration max_segment step n (start + step)).map
          ((start, min duration (start + max_segment)) :: ·)
    else some []

/-- `fixed_segment_bounds` with its loop run for a number of iterations. -/
def fixed_run (tol duration max_segment overlap : ℚ) (n : ℕ) : Option (List Bound) :=
  if duration ≤ 0 ∨ max_segment ≤ 0 then some []
  else if duration ≤ max_segment then some [(0, duration)]
  else
    (slices_run tol duration max_segment (slice_step max_segment overlap) n 0).map
      (fold_tail max_segment)

theorem slices_run_eq (htol : 0 ≤ tol) : ∀ {n : ℕ} {start : ℚ}, duration - start ≤ n * step →
    slices_run tol duration max_segment step n start =
      some (slices tol duration max_segment step n start)
  | 0, start, h => by
      have hstop : ¬ start < duration - tol := by
        simp only [Nat.cast_zero, zero_mul] at h
        linarith
      simp [slices_run, slices, hstop]
  | n + 1, start, h => by
      have hrest : duration - (start + step) ≤ n * step := by
        push_cast at h
        linarith
      rw [slices_run, slices, slices_run_eq htol hrest]
      split
      · split <;> rfl
      · rfl

/-- The loop ends, with the bounds of the model. -/
theorem fixed_run_eq (htol : 0 ≤ tol) :
    fixed_run tol duration max_segment overlap ⌈duration / slice_step max_segment overlap⌉₊ =
      some (fixed_segment_bounds_tol tol duration max_segment overlap) := by
  unfold fixed_run fixed_segment_bounds_tol
  split
  · rfl
  · rename_i hpos
    split
    · rfl
    · rw [slices_run_eq htol (enough_slices (not_le.1 fun h => hpos (Or.inr h)))]
      rfl

/-! ### The loop's slices, one by one -/

/-- The slice that starts after `j` steps. -/
def slice (duration max_segment step : ℚ) (j : ℕ) : Bound :=
  (j * step, min duration (j * step + max_segment))

/-- How many steps it takes until a slice reaches the end. -/
def last_index (tol duration max_segment overlap : ℚ) : ℕ :=
  ⌈(duration - tol - max_segment) / slice_step max_segment overlap⌉₊

theorem reaches_iff (hM : 0 < max_segment) (j : ℕ) :
    duration - tol ≤ j * slice_step max_segment overlap + max_segment ↔
      last_index tol duration max_segment overlap ≤ j := by
  rw [last_index, Nat.ceil_le, div_le_iff₀ (slice_step_pos hM)]
  constructor <;> intro h <;> linarith

/-- From `j` steps on, the loop adds the slices up to the first that reaches the end. -/
theorem slices_from (htol : 0 ≤ tol) (hM : 0 < max_segment) : ∀ (m n j : ℕ),
    last_index tol duration max_segment overlap = j + m → j * slice_step max_segment overlap <
      duration - tol → m < n →
    slices tol duration max_segment (slice_step max_segment overlap) n
        (j * slice_step max_segment overlap) =
      (List.range' j (m + 1)).map (slice duration max_segment (slice_step max_segment overlap))
  | m, 0, j, _, _, hn => by omega
  | m, n + 1, j, hk, hj, hn => by
      have hreach : duration - tol ≤ min duration (j * slice_step max_segment overlap + max_segment)
          ↔ m = 0 := by
        rw [le_min_iff, reaches_iff hM, hk]
        constructor
        · rintro ⟨-, h⟩
          omega
        · intro h
          exact ⟨by linarith, by omega⟩
      rw [slices, if_pos hj]
      cases m with
      | zero =>
        rw [if_pos (hreach.2 rfl)]
        rfl
      | succ m =>
        have hnot : ¬ duration - tol ≤ j * slice_step max_segment overlap + max_segment := by
          rw [reaches_iff hM]
          omega
        have hle : slice_step max_segment overlap ≤ max_segment := slice_step_le hM
        have hnext : ((j + 1 : ℕ) : ℚ) * slice_step max_segment overlap =
            j * slice_step max_segment overlap + slice_step max_segment overlap := by
          push_cast
          ring
        have ih := slices_from htol hM m n (j + 1) (by omega) (by rw [hnext]; linarith) (by omega)
        rw [if_neg fun h => by simpa using hreach.1 h, ← hnext, ih]
        rfl

theorem last_index_lt (htol : 0 ≤ tol) (hM : 0 < max_segment) (hd : 0 < duration) :
    last_index tol duration max_segment overlap < ⌈duration / slice_step max_segment overlap⌉₊ := by
  have hstep : 0 < slice_step max_segment overlap := slice_step_pos hM
  have hle : slice_step max_segment overlap ≤ max_segment := slice_step_le hM
  obtain ⟨n, hn⟩ : ∃ n, ⌈duration / slice_step max_segment overlap⌉₊ = n + 1 :=
    Nat.exists_eq_add_one.2 (Nat.ceil_pos.2 (div_pos hd hstep))
  have henough : duration - 0 ≤ (⌈duration / slice_step max_segment overlap⌉₊ : ℚ) *
      slice_step max_segment overlap := enough_slices hM
  rw [hn] at henough
  push_cast at henough
  rw [hn, Nat.lt_succ_iff, ← reaches_iff hM]
  linarith

/-- The loop's slices: one a step, up to the first that reaches the end. -/
theorem slices_all (htol : 0 ≤ tol) (hM : 0 < max_segment) (hd : tol < duration) :
    slices tol duration max_segment (slice_step max_segment overlap)
        ⌈duration / slice_step max_segment overlap⌉₊ 0 =
      (List.range (last_index tol duration max_segment overlap + 1)).map
        (slice duration max_segment (slice_step max_segment overlap)) := by
  have hlast : last_index tol duration max_segment overlap <
      ⌈duration / slice_step max_segment overlap⌉₊ := last_index_lt htol hM (by linarith)
  have h := slices_from htol hM _ _ 0 (zero_add _).symm
    (by simp only [Nat.cast_zero, zero_mul]; linarith) hlast
  rw [List.range_eq_range']
  simpa using h

theorem fold_tail_append (p q : Bound) : ∀ l : List Bound,
    fold_tail max_segment (l ++ [p, q]) = l ++ fold_tail max_segment [p, q]
  | [] => rfl
  | [a] => rfl
  | a :: b :: l => by
      have h : fold_tail max_segment (a :: b :: l ++ [p, q]) =
          a :: fold_tail max_segment (b :: l ++ [p, q]) := by
        cases l <;> rfl
      rw [h, fold_tail_append p q (b :: l)]
      rfl

/-- The length of the loop's last slice. -/
def tail_length (tol duration max_segment overlap : ℚ) : ℚ :=
  let last := slice duration max_segment (slice_step max_segment overlap)
    (last_index tol duration max_segment overlap)
  last.2 - last.1

/-- Over the safe length there is a slice before the last one. -/
theorem last_index_pos (hM : 0 < max_segment) (hd : max_segment < duration - tol) :
    0 < last_index tol duration max_segment overlap :=
  Nat.ceil_pos.2 (div_pos (by linarith) (slice_step_pos hM))

/-- With a tail that is long enough, the bounds are the loop's slices. -/
theorem fixed_of_long_tail (htol : 0 ≤ tol) (hM : 0 < max_segment) (hd : max_segment < duration)
    (hgap : tol < duration)
    (htail : min_tail_seconds ≤ tail_length tol duration max_segment overlap) :
    fixed_segment_bounds_tol tol duration max_segment overlap =
      (List.range (last_index tol duration max_segment overlap + 1)).map
        (slice duration max_segment (slice_step max_segment overlap)) := by
  rw [fixed_eq hM hd, slices_all htol hM hgap]
  cases hk : last_index tol duration max_segment overlap with
  | zero => rfl
  | succ k =>
    rw [tail_length, hk] at htail
    rw [List.range_succ, List.range_succ, List.append_assoc, List.map_append]
    simp only [List.cons_append, List.nil_append, List.map_cons, List.map_nil]
    rw [fold_tail_append, fold_tail, if_neg (not_lt.2 htail)]

/-- With a short tail, the last two slices become one that ends where the clip's last slice ended,
    and starts no earlier than the safe length allows. -/
theorem fixed_of_short_tail (htol : 0 ≤ tol) (hM : 0 < max_segment) (hd : max_segment < duration)
    (hgap : tol < duration) {k : ℕ}
    (hk : last_index tol duration max_segment overlap = k + 1)
    (htail : tail_length tol duration max_segment overlap < min_tail_seconds) :
    let step := slice_step max_segment overlap
    let stop := (slice duration max_segment step (k + 1)).2
    fixed_segment_bounds_tol tol duration max_segment overlap =
      (List.range k).map (slice duration max_segment step) ++
        [(max (k * step) (stop - max_segment), stop)] := by
  intro step stop
  rw [tail_length, hk] at htail
  rw [fixed_eq hM hd, slices_all htol hM hgap, hk, List.range_succ, List.range_succ,
    List.append_assoc, List.map_append]
  simp only [List.cons_append, List.nil_append, List.map_cons, List.map_nil]
  rw [fold_tail_append, fold_tail, if_pos htail]
  rfl

/-! ### Order, and inside the clip -/

/-- Up to the last index, the slices start before the end. -/
theorem slice_start_lt (hM : 0 < max_segment) (hgap : tol < duration) {j : ℕ}
    (hj : j ≤ last_index tol duration max_segment overlap) :
    j * slice_step max_segment overlap < duration - tol := by
  have hle : slice_step max_segment overlap ≤ max_segment := slice_step_le hM
  cases j with
  | zero => simpa using hgap
  | succ j =>
    have hnot : ¬ duration - tol ≤ j * slice_step max_segment overlap + max_segment := by
      rw [reaches_iff hM]
      omega
    push_cast
    linarith

theorem slice_lt (hM : 0 < max_segment) {i j : ℕ} (h : i < j) :
    (i : ℚ) * slice_step max_segment overlap < j * slice_step max_segment overlap :=
  mul_lt_mul_of_pos_right (by exact_mod_cast h) (slice_step_pos hM)

/-- A bound inside the clip. -/
def Inside (duration : ℚ) (b : Bound) : Prop := 0 ≤ b.1 ∧ b.1 ≤ b.2 ∧ b.2 ≤ duration

theorem slice_inside (htol : 0 ≤ tol) (hM : 0 < max_segment) (hgap : tol < duration) {j : ℕ}
    (hj : j ≤ last_index tol duration max_segment overlap) :
    Inside duration (slice duration max_segment (slice_step max_segment overlap) j) := by
  have hlt := slice_start_lt hM hgap hj
  have hstep : 0 < slice_step max_segment overlap := slice_step_pos hM
  have hstart : 0 ≤ j * slice_step max_segment overlap := by positivity
  exact ⟨hstart, le_min (by dsimp only [slice]; linarith) (by dsimp only [slice]; linarith),
    min_le_left _ _⟩

theorem slices_increasing (hM : 0 < max_segment) (k : ℕ) :
    ((List.range k).map (slice duration max_segment (slice_step max_segment overlap))).Pairwise
      fun a b => a.1 < b.1 :=
  List.pairwise_map.2 (List.pairwise_lt_range.imp fun h => slice_lt hM h)

/-- The bounds start in strictly increasing order. -/
theorem fixed_increasing (htol : 0 ≤ tol) :
    (fixed_segment_bounds_tol tol duration max_segment overlap).Pairwise fun a b => a.1 < b.1 := by
  by_cases hpos : duration ≤ 0 ∨ max_segment ≤ 0
  · simp [fixed_segment_bounds_tol, hpos]
  push Not at hpos
  obtain ⟨-, hM⟩ := hpos
  by_cases hd : duration ≤ max_segment
  · rw [fixed_segment_bounds_tol, if_pos hd]
    split <;> simp
  rw [not_le] at hd
  by_cases hgap : tol < duration
  · cases hk : last_index tol duration max_segment overlap with
    | zero =>
      rw [fixed_eq hM hd, slices_all htol hM hgap, hk]
      simp [fold_tail]
    | succ k =>
      by_cases htail : min_tail_seconds ≤ tail_length tol duration max_segment overlap
      · rw [fixed_of_long_tail htol hM hd hgap htail]
        exact slices_increasing hM _
      · rw [fixed_of_short_tail htol hM hd hgap hk (not_le.1 htail)]
        refine List.pairwise_append.2 ⟨slices_increasing hM k, by simp, ?_⟩
        intro a ha b hb
        obtain ⟨j, hj, rfl⟩ := List.mem_map.1 ha
        obtain rfl := List.mem_singleton.1 hb
        exact (slice_lt hM (List.mem_range.1 hj)).trans_le (le_max_left _ _)
  · rw [fixed_eq hM hd, slices_eq htol (enough_slices hM), if_neg (by linarith)]
    simp [fold_tail]

/-- Every bound lies inside the clip. -/
theorem fixed_inside (htol : 0 ≤ tol) :
    ∀ b ∈ fixed_segment_bounds_tol tol duration max_segment overlap, Inside duration b := by
  by_cases hpos : duration ≤ 0 ∨ max_segment ≤ 0
  · simp [fixed_segment_bounds_tol, hpos]
  push Not at hpos
  obtain ⟨hd0, hM⟩ := hpos
  by_cases hd : duration ≤ max_segment
  · rw [fixed_segment_bounds_tol, if_neg (by push Not; exact ⟨hd0, hM⟩), if_pos hd]
    simp [Inside, hd0.le]
  rw [not_le] at hd
  by_cases hgap : tol < duration
  · cases hk : last_index tol duration max_segment overlap with
    | zero =>
      rw [fixed_eq hM hd, slices_all htol hM hgap, hk]
      have h0 : Inside duration (slice duration max_segment (slice_step max_segment overlap) 0) :=
        slice_inside htol hM hgap (Nat.zero_le _)
      simpa [fold_tail] using h0
    | succ k =>
      have hall : ∀ j, j ≤ k + 1 → Inside duration (slice duration max_segment
          (slice_step max_segment overlap) j) := fun j hj => slice_inside htol hM hgap (by omega)
      by_cases htail : min_tail_seconds ≤ tail_length tol duration max_segment overlap
      · rw [fixed_of_long_tail htol hM hd hgap htail, hk]
        intro b hb
        obtain ⟨j, hj, rfl⟩ := List.mem_map.1 hb
        exact hall j (by simpa [Nat.lt_succ_iff] using hj)
      · rw [fixed_of_short_tail htol hM hd hgap hk (not_le.1 htail)]
        intro b hb
        rcases List.mem_append.1 hb with hb | hb
        · obtain ⟨j, hj, rfl⟩ := List.mem_map.1 hb
          exact hall j (by have := List.mem_range.1 hj; omega)
        · obtain rfl := List.mem_singleton.1 hb
          obtain ⟨hstart, -, -⟩ := hall k (by omega)
          obtain ⟨-, hle, hend⟩ := hall (k + 1) le_rfl
          have hlt : (k : ℚ) * slice_step max_segment overlap <
              ((k + 1 : ℕ) : ℚ) * slice_step max_segment overlap := slice_lt hM (Nat.lt_succ_self k)
          exact ⟨hstart.trans (le_max_left _ _),
            max_le (hlt.le.trans hle) (by linarith), hend⟩
  · rw [fixed_eq hM hd, slices_eq htol (enough_slices hM), if_neg (by linarith)]
    simp [fold_tail]

end

/-! ### Coverage -/

section
variable {duration max_segment overlap : ℚ}

/-- Every instant of the clip lies in some bound. -/
def Covers (duration : ℚ) (l : List Bound) : Prop :=
  ∀ x, 0 ≤ x → x ≤ duration → ∃ b ∈ l, b.1 ≤ x ∧ x ≤ b.2

/-- What a slicing of the clip `[0, duration]` is. -/
structure Sliced (duration max_segment : ℚ) (l : List Bound) : Prop where
  increasing : l.Pairwise fun a b => a.1 < b.1
  inside : ∀ b ∈ l, Inside duration b
  fits : ∀ b ∈ l, Fits max_segment b
  covers : Covers duration l

/-- The lengths with which the tail fold loses nothing: the loop's last slice is not folded, or there
    is an earlier slice and the folded tail is at most twice the overlap. -/
def TailKept (duration max_segment overlap : ℚ) : Prop :=
  let step := slice_step max_segment overlap
  let k := ⌈(duration - max_segment) / step⌉₊
  duration ≤ max_segment ∨ min_tail_seconds ≤ duration - k * step ∨
    (2 ≤ k ∧ duration - k * step ≤ 2 * used_overlap max_segment overlap)

/-- The first `k + 1` slices cover everything up to where slice `k` ends. -/
theorem slices_cover (hM : 0 < max_segment) {x : ℚ} (hx : 0 ≤ x) (hxd : x ≤ duration) : ∀ k : ℕ,
    x ≤ k * slice_step max_segment overlap + max_segment →
    ∃ b ∈ (List.range (k + 1)).map (slice duration max_segment (slice_step max_segment overlap)),
      b.1 ≤ x ∧ x ≤ b.2
  | 0, hk => by
      refine ⟨slice duration max_segment _ 0, by simp, ?_, le_min hxd hk⟩
      simpa [slice] using hx
  | k + 1, hk => by
      have hle : slice_step max_segment overlap ≤ max_segment := slice_step_le hM
      by_cases hbefore : x ≤ k * slice_step max_segment overlap + max_segment
      · obtain ⟨b, hb, h⟩ := slices_cover hM hx hxd k hbefore
        rw [List.range_succ, List.map_append]
        exact ⟨b, List.mem_append_left _ hb, h⟩
      · refine ⟨slice duration max_segment _ (k + 1), List.mem_map_of_mem (by simp), ?_,
          le_min hxd hk⟩
        rw [not_le] at hbefore
        dsimp only [slice]
        push_cast
        linarith

/-- The loop's slices cover the clip. -/
theorem fixed_covers_of_long_tail (hM : 0 < max_segment) (hd : max_segment < duration)
    (htail : min_tail_seconds ≤ tail_length 0 duration max_segment overlap) :
    Covers duration (fixed_segment_bounds_tol 0 duration max_segment overlap) := by
  intro x hx hxd
  rw [fixed_of_long_tail le_rfl hM hd (hM.trans hd) htail]
  refine slices_cover hM hx hxd _ ?_
  have hend : duration - 0 ≤ (last_index 0 duration max_segment overlap : ℚ) *
      slice_step max_segment overlap + max_segment := (reaches_iff hM _).2 le_rfl
  linarith

/-- Slices followed by one that ends with the clip cover it exactly when they reach its start: an
    instant in between is in none of them. -/
theorem moved_covers_iff (hM : 0 < max_segment) (k : ℕ) :
    Covers duration
      ((List.range (k + 1)).map (slice duration max_segment (slice_step max_segment overlap)) ++
        [(duration - max_segment, duration)]) ↔
      duration - max_segment ≤ k * slice_step max_segment overlap + max_segment := by
  have hstep : 0 < slice_step max_segment overlap := slice_step_pos hM
  constructor
  · intro h
    by_contra hgap
    rw [not_le] at hgap
    set reach := (k : ℚ) * slice_step max_segment overlap + max_segment with hreach
    have hpos : 0 < reach := by positivity
    obtain ⟨b, hb, hle, hge⟩ := h ((reach + (duration - max_segment)) / 2) (by linarith)
      (by linarith)
    rcases List.mem_append.1 hb with hb | hb
    · obtain ⟨j, hj, rfl⟩ := List.mem_map.1 hb
      have hjk : (j : ℚ) * slice_step max_segment overlap ≤ k * slice_step max_segment overlap :=
        mul_le_mul_of_nonneg_right
          (by exact_mod_cast Nat.lt_succ_iff.1 (List.mem_range.1 hj)) hstep.le
      have hend := hge.trans (min_le_right _ _)
      linarith
    · obtain rfl := List.mem_singleton.1 hb
      dsimp only at hle
      linarith
  · intro h x hx hxd
    by_cases hbefore : x ≤ duration - max_segment
    · obtain ⟨b, hb, hx⟩ := slices_cover hM hx hxd k (hbefore.trans h)
      exact ⟨b, List.mem_append_left _ hb, hx⟩
    · exact ⟨(duration - max_segment, duration), by simp, (not_le.1 hbefore).le, hxd⟩

/-- With the last slice folded, the clip is covered exactly when there is a slice before the moved
    one and it reaches the moved start. -/
theorem fixed_covers_of_short_tail (hM : 0 < max_segment) (hd : max_segment < duration) {k : ℕ}
    (hk : last_index 0 duration max_segment overlap = k + 1)
    (htail : tail_length 0 duration max_segment overlap < min_tail_seconds) :
    Covers duration (fixed_segment_bounds_tol 0 duration max_segment overlap) ↔
      0 < k ∧ duration - (k + 1 : ℕ) * slice_step max_segment overlap ≤
        2 * used_overlap max_segment overlap := by
  have hreach : ∀ j : ℕ, duration - 0 ≤ j * slice_step max_segment overlap + max_segment ↔
      last_index 0 duration max_segment overlap ≤ j := reaches_iff hM
  have hend := (hreach _).2 hk.le
  have hnot : ¬ duration - 0 ≤ k * slice_step max_segment overlap + max_segment := by
    rw [hreach, hk]
    omega
  have hstop : (slice duration max_segment (slice_step max_segment overlap) (k + 1)).2 =
      duration := min_eq_left (by linarith)
  have hmoved : max ((k : ℚ) * slice_step max_segment overlap) (duration - max_segment) =
      duration - max_segment := max_eq_right (by linarith)
  have hbounds := fixed_of_short_tail le_rfl hM hd (hM.trans hd) hk htail
  simp only [hstop, hmoved] at hbounds
  rw [hbounds]
  cases k with
  | zero =>
    -- the only slice left starts after the beginning of the clip
    refine iff_of_false (fun h => ?_) (by simp)
    obtain ⟨b, hb, hle, -⟩ := h 0 le_rfl (hM.trans hd).le
    obtain rfl : b = (duration - max_segment, duration) := by simpa using hb
    dsimp only at hle
    linarith
  | succ k =>
    have hused : slice_step max_segment overlap =
        max_segment - used_overlap max_segment overlap := rfl
    rw [moved_covers_iff hM k]
    push_cast
    constructor
    · intro h
      exact ⟨Nat.succ_pos k, by linarith⟩
    · rintro ⟨-, h⟩
      linarith

/-- The bounds cover the clip exactly when the tail fold loses nothing. -/
theorem fixed_covers_iff (hD : 0 < duration) (hM : 0 < max_segment) :
    Covers duration (fixed_segment_bounds_tol 0 duration max_segment overlap) ↔
      TailKept duration max_segment overlap := by
  by_cases hd : duration ≤ max_segment
  · refine iff_of_true (fun x hx hxd => ⟨(0, duration), ?_, hx, hxd⟩) (Or.inl hd)
    rw [fixed_segment_bounds_tol, if_neg (by rintro (h | h) <;> linarith), if_pos hd]
    simp
  rw [not_le] at hd
  have hk : last_index 0 duration max_segment overlap =
      ⌈(duration - max_segment) / slice_step max_segment overlap⌉₊ := by
    rw [last_index, sub_zero]
  have hpos : 0 < last_index 0 duration max_segment overlap := last_index_pos hM (by linarith)
  have htail : tail_length 0 duration max_segment overlap =
      duration - last_index 0 duration max_segment overlap * slice_step max_segment overlap := by
    have hend : duration - 0 ≤ (last_index 0 duration max_segment overlap : ℚ) *
        slice_step max_segment overlap + max_segment := (reaches_iff hM _).2 le_rfl
    dsimp only [tail_length, slice]
    rw [min_eq_left (by linarith)]
  simp only [TailKept, not_le.2 hd, false_or, ← hk, ← htail]
  by_cases hlong : min_tail_seconds ≤ tail_length 0 duration max_segment overlap
  · exact iff_of_true (fixed_covers_of_long_tail hM hd hlong) (Or.inl hlong)
  · obtain ⟨k, hk'⟩ := Nat.exists_eq_add_one.2 hpos
    rw [fixed_covers_of_short_tail hM hd hk' (not_le.1 hlong), ← hk', ← htail, hk']
    simp only [hlong, false_or]
    exact and_congr_left' (by omega)

/-- `fixed_segment_bounds`, its end comparisons read as exact, ends on every input, and its bounds
    slice the whole clip exactly when the tail fold loses nothing. -/
theorem fixed_bounds_slice_iff (hD : 0 < duration) (hM : 0 < max_segment) (_hO : 0 ≤ overlap) :
    (∃ n, fixed_run 0 duration max_segment overlap n =
      some (fixed_segment_bounds_tol 0 duration max_segment overlap)) ∧
    (Sliced duration max_segment (fixed_segment_bounds_tol 0 duration max_segment overlap) ↔
      TailKept duration max_segment overlap) := by
  refine ⟨⟨_, fixed_run_eq le_rfl⟩, ?_⟩
  constructor
  · intro h
    exact (fixed_covers_iff hD hM).1 h.covers
  · intro h
    exact ⟨fixed_increasing le_rfl, fixed_inside le_rfl, fixed_fits, (fixed_covers_iff hD hM).2 h⟩

end

/-- Thirty seconds in slices of `10.5`. -/
theorem fixed_bounds_slice_thirty :
    Sliced 30 (21 / 2) (fixed_segment_bounds_tol 0 30 (21 / 2) (2 / 5)) :=
  (fixed_bounds_slice_iff (by norm_num) (by norm_num) (by norm_num)).2.2 (by
    dsimp only [TailKept]
    decide +kernel)

/-- A clip of `10.55` seconds in slices of `10.5` comes back as one slice, from `0.05` on. -/
theorem fixed_bounds_lose_head :
    ¬ ∀ duration max_segment overlap : ℚ, 0 < duration → 0 < max_segment → 0 ≤ overlap →
      Sliced duration max_segment (fixed_segment_bounds_tol 0 duration max_segment overlap) := by
  intro h
  have hsliced := h (211 / 20) (21 / 2) (2 / 5) (by norm_num) (by norm_num) (by norm_num)
  have hbounds : fixed_segment_bounds_tol 0 (211 / 20) (21 / 2) (2 / 5) = [(1 / 20, 211 / 20)] := by
    decide +kernel
  obtain ⟨b, hb, hle, -⟩ := hsliced.covers 0 le_rfl (by norm_num)
  rw [hbounds] at hb
  obtain rfl := List.mem_singleton.1 hb
  norm_num at hle

end LocalVoice.AsrSegmenter
