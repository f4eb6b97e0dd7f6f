import LocalVoice.AsrSegmenter.Coverage
import LocalVoice.AsrSegmenter.Plan
import Mathlib.Data.Nat.Cast.Order.Field

/-! What `group_regions` makes of regions in the order of their starts and ends. Every region that
    fits the safe length stays in one piece, and no segment leaves the hull of the regions. The
    segments come in the order of their starts, unless a region begins before the last slice of an
    over-long region in front of it: the padding lets neighbours overlap, and slices may be shorter
    than that overlap.

        over-long region   ├──┼──┼──┼──┤          its slices
        next region                  ├────────┤   starts before the last of them -/

namespace LocalVoice.AsrSegmenter

section
variable {max_segment overlap : ℚ}

/-- The segments of an over-long region. -/
def cut (max_segment overlap : ℚ) (r : Bound) : List Bound :=
  (fixed_segment_bounds (r.2 - r.1) max_segment overlap).map fun b => (r.1 + b.1, r.1 + b.2)

/-- The segments a region would be on its own. -/
def pieces (max_segment overlap : ℚ) (r : Bound) : List Bound :=
  if max_segment < r.2 - r.1 then cut max_segment overlap r else [r]

/-- No region begins before a slice of an over-long region in front of it. -/
def InOrder (max_segment overlap : ℚ) (regions : List Bound) : Prop :=
  regions.Pairwise fun p r => max_segment < p.2 - p.1 →
    ∀ b ∈ cut max_segment overlap p, ∀ b' ∈ pieces max_segment overlap r, b.1 ≤ b'.1

/-- Regions in the order of their starts and of their ends. -/
def Ordered (regions : List Bound) : Prop :=
  regions.Pairwise fun p r => p.1 ≤ r.1 ∧ p.2 ≤ r.2

/-- Segments in the order of their starts. -/
def StartsSorted (segments : List Bound) : Prop := segments.Pairwise fun a b => a.1 ≤ b.1

theorem end_tolerance_nonneg : 0 ≤ end_tolerance := by norm_num [end_tolerance]

theorem cut_sorted (r : Bound) : StartsSorted (cut max_segment overlap r) :=
  List.pairwise_map.2 ((fixed_increasing end_tolerance_nonneg).imp fun h => by linarith)

theorem cut_inside (r : Bound) : ∀ b ∈ cut max_segment overlap r, r.1 ≤ b.1 ∧ b.2 ≤ r.2 := by
  intro b hb
  obtain ⟨a, ha, rfl⟩ := List.mem_map.1 hb
  obtain ⟨hstart, -, hend⟩ := fixed_inside end_tolerance_nonneg a ha
  constructor <;> dsimp only <;> linarith

theorem start_le_pieces (r : Bound) : ∀ b ∈ pieces max_segment overlap r, r.1 ≤ b.1 := by
  intro b hb
  unfold pieces at hb
  split at hb
  · exact (cut_inside r b hb).1
  · obtain rfl := List.mem_singleton.1 hb
    exact le_rfl

/-! ### The packing loop -/

/-- The loop invariant of `group_regions` after the regions `seen`. -/
structure Packed (max_segment overlap : ℚ) (seen : List Bound) (s : Packing) : Prop where
  whole : ∀ r ∈ seen, Fits max_segment r → ∃ b ∈ s.closed, b.1 ≤ r.1 ∧ r.2 ≤ b.2
  hull : ∀ b ∈ s.closed, (∃ p ∈ seen, p.1 ≤ b.1) ∧ ∃ q ∈ seen, b.2 ≤ q.2
  opened : ∀ c ∈ s.current, (∃ p ∈ seen, c.1 = p.1) ∧ ∃ q ∈ seen, c.2 = q.2
  cuts : ∀ p ∈ seen, max_segment < p.2 - p.1 → ∀ b ∈ cut max_segment overlap p, b ∈ s.segments
  origin : ∀ b ∈ s.closed, (∃ p ∈ seen, max_segment < p.2 - p.1 ∧ b ∈ cut max_segment overlap p) ∨
    ∃ p ∈ seen, b.1 = p.1
  sorted : StartsSorted s.closed ↔ InOrder max_segment overlap seen

theorem Packed.nil : Packed max_segment overlap [] ⟨[], none⟩ := by
  constructor <;> simp [Packing.closed, StartsSorted, InOrder]

theorem mem_closed {s : Packing} {b : Bound} : b ∈ s.closed ↔ b ∈ s.segments ∨ b ∈ s.current := by
  simp [Packing.closed]

theorem closed_none (l : List Bound) : Packing.closed ⟨l, none⟩ = l := by
  simp [Packing.closed]

theorem closed_some (l : List Bound) (c : Bound) : Packing.closed ⟨l, some c⟩ = l ++ [c] := rfl

/-- Segments appended behind the closed ones, all starting at or after a region behind the seen ones:
    they keep the order exactly when they start after every slice of an over-long region. -/
theorem Packed.sorted_append {seen new : List Bound} {s : Packing} {r : Bound}
    (hs : Packed max_segment overlap seen s) (hr : ∀ p ∈ seen, p.1 ≤ r.1 ∧ p.2 ≤ r.2)
    (hnew : StartsSorted new) (hstart : ∀ b ∈ new, r.1 ≤ b.1) :
    StartsSorted (s.closed ++ new) ↔ InOrder max_segment overlap seen ∧
      ∀ p ∈ seen, max_segment < p.2 - p.1 →
        ∀ b ∈ cut max_segment overlap p, ∀ b' ∈ new, b.1 ≤ b'.1 := by
  rw [StartsSorted, List.pairwise_append, ← hs.sorted]
  constructor
  · rintro ⟨hclosed, -, h⟩
    refine ⟨hclosed, ?_⟩
    intro p hp hlong b hb b' hb'
    exact h b (mem_closed.2 (Or.inl (hs.cuts p hp hlong b hb))) b' hb'
  · rintro ⟨hclosed, h⟩
    refine ⟨hclosed, hnew, ?_⟩
    intro b hb b' hb'
    rcases hs.origin b hb with ⟨p, hp, hlong, hb⟩ | ⟨p, hp, heq⟩
    · exact h p hp hlong b hb b' hb'
    · exact heq ▸ (hr p hp).1.trans (hstart b' hb')

/-- One more region at the end keeps the order exactly when it begins after the slices before it. -/
theorem in_order_concat {seen : List Bound} {r : Bound} :
    InOrder max_segment overlap (seen ++ [r]) ↔ InOrder max_segment overlap seen ∧
      ∀ p ∈ seen, max_segment < p.2 - p.1 →
        ∀ b ∈ cut max_segment overlap p, ∀ b' ∈ pieces max_segment overlap r, b.1 ≤ b'.1 := by
  simp [InOrder, List.pairwise_append]

/-- An over-long region: the open segment is closed and its slices follow. -/
theorem Packed.long {seen : List Bound} {s : Packing} {r : Bound}
    (hs : Packed max_segment overlap seen s) (hr : ∀ p ∈ seen, p.1 ≤ r.1 ∧ p.2 ≤ r.2)
    (hlong : max_segment < r.2 - r.1) :
    Packed max_segment overlap (seen ++ [r]) ⟨s.closed ++ cut max_segment overlap r, none⟩ where
  whole := by
    intro q hq hfit
    rw [closed_none]
    rcases List.mem_append.1 hq with hq | hq
    · obtain ⟨b, hb, h⟩ := hs.whole q hq hfit
      exact ⟨b, List.mem_append_left _ hb, h⟩
    · obtain rfl := List.mem_singleton.1 hq
      exact absurd hfit (not_le.2 hlong)
  hull := by
    intro b hb
    rw [closed_none] at hb
    rcases List.mem_append.1 hb with hb | hb
    · obtain ⟨⟨p, hp, hpb⟩, q, hq, hbq⟩ := hs.hull b hb
      exact ⟨⟨p, by simp [hp], hpb⟩, q, by simp [hq], hbq⟩
    · exact ⟨⟨r, by simp, (cut_inside r b hb).1⟩, r, by simp, (cut_inside r b hb).2⟩
  opened := by simp
  cuts := by
    intro p hp hp' b hb
    rcases List.mem_append.1 hp with hp | hp
    · exact List.mem_append_left _ (mem_closed.2 (Or.inl (hs.cuts p hp hp' b hb)))
    · obtain rfl := List.mem_singleton.1 hp
      exact List.mem_append_right _ hb
  origin := by
    intro b hb
    rw [closed_none] at hb
    rcases List.mem_append.1 hb with hb | hb
    · rcases hs.origin b hb with ⟨p, hp, h⟩ | ⟨p, hp, h⟩
      · exact Or.inl ⟨p, by simp [hp], h⟩
      · exact Or.inr ⟨p, by simp [hp], h⟩
    · exact Or.inl ⟨r, by simp, hlong, hb⟩
  sorted := by
    have hpieces : pieces max_segment overlap r = cut max_segment overlap r := if_pos hlong
    have hstart : ∀ b ∈ cut max_segment overlap r, r.1 ≤ b.1 := fun b hb => (cut_inside r b hb).1
    rw [closed_none, in_order_concat, hpieces]
    exact hs.sorted_append hr (cut_sorted r) hstart

/-- A region that opens a segment of its own. -/
theorem Packed.start {seen : List Bound} {s : Packing} {r : Bound}
    (hs : Packed max_segment overlap seen s) (hr : ∀ p ∈ seen, p.1 ≤ r.1 ∧ p.2 ≤ r.2)
    (hshort : ¬ max_segment < r.2 - r.1) :
    Packed max_segment overlap (seen ++ [r]) ⟨s.closed, some r⟩ where
  whole := by
    intro q hq hfit
    rcases List.mem_append.1 hq with hq | hq
    · obtain ⟨b, hb, h⟩ := hs.whole q hq hfit
      exact ⟨b, List.mem_append_left _ hb, h⟩
    · obtain rfl := List.mem_singleton.1 hq
      exact ⟨q, by simp [Packing.closed], le_rfl, le_rfl⟩
  hull := by
    intro b hb
    rcases mem_closed.1 hb with hb | hb
    · obtain ⟨⟨p, hp, hpb⟩, q, hq, hbq⟩ := hs.hull b hb
      exact ⟨⟨p, by simp [hp], hpb⟩, q, by simp [hq], hbq⟩
    · obtain rfl : r = b := by simpa using hb
      exact ⟨⟨r, by simp, le_rfl⟩, r, by simp, le_rfl⟩
  opened := by
    intro c hc
    obtain rfl : r = c := by simpa using hc
    exact ⟨⟨r, by simp, rfl⟩, r, by simp, rfl⟩
  cuts := by
    intro p hp hp' b hb
    rcases List.mem_append.1 hp with hp | hp
    · exact mem_closed.2 (Or.inl (hs.cuts p hp hp' b hb))
    · obtain rfl := List.mem_singleton.1 hp
      exact absurd hp' hshort
  origin := by
    intro b hb
    rcases mem_closed.1 hb with hb | hb
    · rcases hs.origin b hb with ⟨p, hp, h⟩ | ⟨p, hp, h⟩
      · exact Or.inl ⟨p, by simp [hp], h⟩
      · exact Or.inr ⟨p, by simp [hp], h⟩
    · obtain rfl : r = b := by simpa using hb
      exact Or.inr ⟨r, by simp, rfl⟩
  sorted := by
    have hpieces : pieces max_segment overlap r = [r] := if_neg hshort
    rw [closed_some, in_order_concat, hpieces]
    exact hs.sorted_append hr (List.pairwise_singleton _ r) (by simp)

/-- A region that extends the open segment. -/
theorem Packed.extend {seen : List Bound} {s : Packing} {r c : Bound}
    (hs : Packed max_segment overlap seen s) (hr : ∀ p ∈ seen, p.1 ≤ r.1 ∧ p.2 ≤ r.2)
    (hshort : ¬ max_segment < r.2 - r.1) (hc : s.current = some c) :
    Packed max_segment overlap (seen ++ [r]) ⟨s.segments, some (c.1, r.2)⟩ := by
  obtain ⟨⟨p, hp, hpc⟩, q, hq, hqc⟩ := hs.opened c hc
  have hcr : c.1 ≤ r.1 := hpc ▸ (hr p hp).1
  have hcr2 : c.2 ≤ r.2 := hqc ▸ (hr q hq).2
  have hclosed : s.closed = s.segments ++ [c] := by simp [Packing.closed, hc]
  refine ⟨?whole, ?hull, ?opened, ?cuts, ?origin, ?sorted⟩
  case whole =>
    intro x hx hfit
    rcases List.mem_append.1 hx with hx | hx
    · obtain ⟨b, hb, hbx, hxb⟩ := hs.whole x hx hfit
      rw [hclosed] at hb
      rcases List.mem_append.1 hb with hb | hb
      · exact ⟨b, mem_closed.2 (Or.inl hb), hbx, hxb⟩
      · obtain rfl := List.mem_singleton.1 hb
        exact ⟨(b.1, r.2), by simp [Packing.closed], hbx, hxb.trans hcr2⟩
    · obtain rfl := List.mem_singleton.1 hx
      exact ⟨(c.1, x.2), by simp [Packing.closed], hcr, le_rfl⟩
  case hull =>
    intro b hb
    rcases mem_closed.1 hb with hb | hb
    · obtain ⟨⟨p, hp, hpb⟩, q, hq, hbq⟩ := hs.hull b (mem_closed.2 (Or.inl hb))
      exact ⟨⟨p, by simp [hp], hpb⟩, q, by simp [hq], hbq⟩
    · obtain rfl : (c.1, r.2) = b := by simpa using hb
      exact ⟨⟨p, by simp [hp], hpc.ge⟩, r, by simp, le_rfl⟩
  case opened =>
    intro c' hc'
    obtain rfl : (c.1, r.2) = c' := by simpa using hc'
    exact ⟨⟨p, by simp [hp], hpc⟩, r, by simp, rfl⟩
  case cuts =>
    intro x hx hx' b hb
    rcases List.mem_append.1 hx with hx | hx
    · exact hs.cuts x hx hx' b hb
    · obtain rfl := List.mem_singleton.1 hx
      exact absurd hx' hshort
  case origin =>
    intro b hb
    rcases mem_closed.1 hb with hb | hb
    · rcases hs.origin b (mem_closed.2 (Or.inl hb)) with ⟨p, hp, h⟩ | ⟨p, hp, h⟩
      · exact Or.inl ⟨p, by simp [hp], h⟩
      · exact Or.inr ⟨p, by simp [hp], h⟩
    · obtain rfl : (c.1, r.2) = b := by simpa using hb
      exact Or.inr ⟨p, by simp [hp], hpc⟩
  case sorted =>
    have hstarts : StartsSorted (Packing.closed ⟨s.segments, some (c.1, r.2)⟩) ↔
        StartsSorted s.closed := by
      simp [StartsSorted, Packing.closed, hc, List.pairwise_append]
    have hpieces : pieces max_segment overlap r = [r] := if_neg hshort
    rw [hstarts, hs.sorted, in_order_concat, hpieces, iff_self_and]
    intro hin p hp hlong b hb b' hb'
    -- the slices were closed before the open segment was started
    have hsorted := hs.sorted.2 hin
    rw [hclosed] at hsorted
    obtain rfl := List.mem_singleton.1 hb'
    have hbc := (List.pairwise_append.1 hsorted).2.2 b (hs.cuts p hp hlong b hb) c (by simp)
    exact hbc.trans hcr

theorem Packed.step {seen : List Bound} {s : Packing} {r : Bound}
    (hs : Packed max_segment overlap seen s) (hr : ∀ p ∈ seen, p.1 ≤ r.1 ∧ p.2 ≤ r.2) :
    Packed max_segment overlap (seen ++ [r]) (pack max_segment overlap s r) := by
  unfold pack
  split
  · rename_i hlong
    exact hs.long hr hlong
  · rename_i hshort
    cases hc : s.current with
    | none =>
      have h := hs.start hr hshort
      simpa [Packing.closed, hc] using h
    | some c =>
      dsimp only
      split
      · exact hs.extend hr hshort hc
      · have h := hs.start hr hshort
        simpa [Packing.closed, hc] using h

theorem packed_fold (regions : List Bound) (h : Ordered regions) :
    Packed max_segment overlap regions (regions.foldl (pack max_segment overlap) ⟨[], none⟩) := by
  induction regions using List.reverseRecOn with
  | nil => exact Packed.nil
  | append_singleton seen r ih =>
    obtain ⟨hseen, -, hr⟩ := List.pairwise_append.1 h
    rw [List.foldl_append, List.foldl_cons, List.foldl_nil]
    exact (ih hseen).step fun p hp => hr p hp r (by simp)

/-- What `group_regions` makes of regions in order: segments within the safe length, every region
    that fits it in one piece, nothing outside the regions' hull, and the starts in order exactly
    when no region begins before a slice of an over-long region in front of it. -/
theorem group_regions_spec {regions : List Bound} (hregions : Ordered regions)
    (_hM : 0 < max_segment) (_hO : 0 ≤ overlap) :
    (∀ b ∈ group_regions regions max_segment overlap, Fits max_segment b) ∧
    (∀ r ∈ regions, Fits max_segment r →
      ∃ b ∈ group_regions regions max_segment overlap, b.1 ≤ r.1 ∧ r.2 ≤ b.2) ∧
    (∀ b ∈ group_regions regions max_segment overlap,
      (∃ p ∈ regions, p.1 ≤ b.1) ∧ ∃ q ∈ regions, b.2 ≤ q.2) ∧
    (StartsSorted (group_regions regions max_segment overlap) ↔
      InOrder max_segment overlap regions) := by
  have h : Packed max_segment overlap regions _ := packed_fold regions hregions
  exact ⟨group_fits regions, h.whole, h.hull, h.sorted⟩

end

/-- Two short regions and an over-long one. -/
theorem group_regions_spec_three :
    let regions : List Bound := [(0, 1), (2, 14), (27 / 2, 15)]
    ∃ b ∈ group_regions regions (21 / 2) (2 / 5), b.1 ≤ 27 / 2 ∧ 15 ≤ b.2 := by
  have hregions : Ordered [(0, 1), (2, 14), (27 / 2, 15)] := by
    simp only [Ordered, List.pairwise_cons]
    norm_num
  have h := @group_regions_spec (21 / 2) (2 / 5) _ hregions (by norm_num) (by norm_num)
  exact h.2.1 (27 / 2, 15) (by simp) (by norm_num [Fits])

/-- Slices shorter than the overlap of two padded regions: the second region's first slice starts
    before the first region's last one. -/
theorem group_regions_unsorted :
    ¬ ∀ (regions : List Bound) (max_segment overlap : ℚ),
      regions.Pairwise (fun p r => p.1 < r.1 ∧ p.2 < r.2) → 0 < max_segment → 0 ≤ overlap →
      StartsSorted (group_regions regions max_segment overlap) := by
  intro h
  have hregions : [((0, 1 / 2) : Bound), (3 / 10, 7 / 10)].Pairwise
      fun p r => p.1 < r.1 ∧ p.2 < r.2 := by
    simp only [List.pairwise_cons]
    norm_num
  have hsorted := h _ (1 / 10) 0 hregions (by norm_num) le_rfl
  have hgroup : group_regions [(0, 1 / 2), (3 / 10, 7 / 10)] (1 / 10) 0 =
      [(0, 1 / 10), (1 / 10, 1 / 5), (1 / 5, 3 / 10), (2 / 5, 1 / 2), (3 / 10, 2 / 5),
        (2 / 5, 1 / 2), (3 / 5, 7 / 10)] := by
    decide +kernel
  rw [hgroup] at hsorted
  simp only [StartsSorted, List.pairwise_cons] at hsorted
  norm_num at hsorted

/-! ### The regions of the VAD -/

/-- The regions closed so far lie in order in front of the open start, and that in front of `i`. -/
structure Disjoint (i : ℕ) (start : Option ℕ) (regions : List (ℕ × ℕ)) : Prop where
  apart : regions.Pairwise fun a b => a.2 ≤ b.1
  forward : ∀ r ∈ regions, r.1 ≤ r.2
  before : ∀ r ∈ regions, r.2 ≤ start.getD i
  start_le : start.getD i ≤ i

theorem Disjoint.mono {i j : ℕ} {start : Option ℕ} {regions : List (ℕ × ℕ)}
    (h : Disjoint i start regions) (hij : i ≤ j) : Disjoint j start regions := by
  obtain ⟨apart, forward, before, start_le⟩ := h
  refine ⟨apart, forward, fun r hr => (before r hr).trans ?_, ?_⟩ <;> cases start <;> simp_all
  omega

theorem Disjoint.close {i j s : ℕ} {regions : List (ℕ × ℕ)} (h : Disjoint i (some s) regions)
    (hij : i ≤ j) : Disjoint j none (regions ++ [(s, j)]) := by
  obtain ⟨apart, forward, before, start_le⟩ := h
  simp only [Option.getD_some] at before start_le
  refine ⟨List.pairwise_append.2 ⟨apart, by simp, ?_⟩, ?_, ?_, le_rfl⟩
  · intro r hr b hb
    obtain rfl := List.mem_singleton.1 hb
    exact before r hr
  · intro r hr
    rcases List.mem_append.1 hr with hr | hr
    · exact forward r hr
    · obtain rfl := List.mem_singleton.1 hr
      exact start_le.trans hij
  · intro r hr
    rcases List.mem_append.1 hr with hr | hr
    · exact (before r hr).trans (start_le.trans hij)
    · obtain rfl := List.mem_singleton.1 hr
      exact le_rfl

/-- The window loop keeps the regions in order. -/
theorem speech_loop_disjoint {v : VadSession} {samples : List ℚ} (i : ℕ) (st : v.State)
    (start : Option ℕ) (regions : List (ℕ × ℕ)) {out : List (ℕ × ℕ) × Option ℕ}
    (hr : Disjoint i start regions) (hle : i ≤ samples.length)
    (h : speech_loop v samples i st start regions = some out) :
    Disjoint samples.length out.2 out.1 := by
  induction i, st, start, regions using speech_loop.induct v samples with
  | case1 i st start regions hi hp =>
    rw [speech_loop, dif_pos hi, hp] at h
    cases h
  | case2 i st regions hi st' hp ih =>
    rw [speech_loop, dif_pos hi, hp] at h
    refine ih ⟨hr.apart, hr.forward, hr.before, ?_⟩ hi h
    simp
  | case3 i st regions hi s st' hp ih =>
    rw [speech_loop, dif_pos hi, hp] at h
    exact ih (hr.close (Nat.le_add_right _ _)) hi h
  | case4 i st start regions hi st' event hp h1 h2 ih =>
    rw [speech_loop, dif_pos hi, hp] at h
    refine ih (hr.mono (Nat.le_add_right _ _)) hi ?_
    dsimp only at h
    split at h
    · exact (h1 rfl rfl).elim
    · exact (h2 _ rfl rfl).elim
    · exact h
  | case5 i st start regions hi =>
    rw [speech_loop, dif_neg hi] at h
    obtain rfl := Option.some.inj h
    exact hr.mono hle

/-- What the padding makes of two regions in order: they stay in order, and overlap by a fifth of a
    second at most. -/
theorem pad_region_ordered {total sample_rate : ℕ} (hrate : 0 < sample_rate) {a b : ℕ × ℕ}
    (ha : a.1 ≤ a.2) (hab : a.2 ≤ b.1) (hb : b.1 ≤ b.2) {a' b' : Bound}
    (ha' : pad_region total sample_rate a = some a')
    (hb' : pad_region total sample_rate b = some b') :
    (a'.1 ≤ b'.1 ∧ a'.2 ≤ b'.2) ∧ a'.2 ≤ b'.1 + 1 / 5 := by
  have hrate' : (0 : ℚ) < sample_rate := by exact_mod_cast hrate
  simp only [pad_region] at ha' hb'
  split at ha'
  · cases ha'
  split at hb'
  · cases hb'
  obtain rfl := Option.some.inj ha'
  obtain rfl := Option.some.inj hb'
  refine ⟨⟨?_, ?_⟩, ?_⟩
  · exact div_le_div_of_nonneg_right (by exact_mod_cast (by omega)) hrate'.le
  · exact div_le_div_of_nonneg_right (by exact_mod_cast (by omega)) hrate'.le
  · have hpad : ((sample_rate / 10 : ℕ) : ℚ) ≤ sample_rate / 10 := Nat.cast_div_le
    have hend : ((min total (a.2 + sample_rate / 10) : ℕ) : ℚ) ≤
        (b.1 - sample_rate / 10 : ℕ) + (2 : ℕ) * (sample_rate / 10 : ℕ) := by
      exact_mod_cast (by omega)
    rw [div_le_iff₀ hrate', add_mul, div_mul_cancel₀ _ hrate'.ne']
    push_cast at hend hpad ⊢
    linarith

/-- The regions the VAD step returns are in order, and neighbours overlap by a fifth of a second at
    most. -/
theorem speech_regions_ordered {v : VadSession} {samples : List ℚ} {sample_rate : ℕ}
    (hrate : 0 < sample_rate) {regions : List Bound}
    (h : speech_regions_from_vad v samples sample_rate = some regions) :
    regions.Pairwise fun p r => (p.1 ≤ r.1 ∧ p.2 ≤ r.2) ∧ p.2 ≤ r.1 + 1 / 5 := by
  obtain ⟨out, hout, rfl⟩ := Option.map_eq_some_iff.1 h
  have hdisjoint : Disjoint samples.length out.2 out.1 :=
    speech_loop_disjoint 0 v.init none [] (by constructor <;> simp) (Nat.zero_le _) hout
  -- the region that is still open at the end of the clip is closed there
  have hall : ∃ start, Disjoint samples.length start
      (out.1 ++ (out.2.map (·, samples.length)).toList) := by
    cases hs : out.2 with
    | none => exact ⟨none, by simpa [hs] using hdisjoint⟩
    | some s => exact ⟨none, (hs ▸ hdisjoint).close le_rfl⟩
  obtain ⟨start, hall⟩ := hall
  refine List.Pairwise.filterMap _ ?_ (List.Pairwise.and_mem.1 hall.apart)
  rintro a b ⟨ha, hb, hab⟩ a' ha' b' hb'
  exact pad_region_ordered hrate (hall.forward a ha) hab (hall.forward b hb) ha' hb'

/-- A slice of an over-long clip starts the tail length or the safe length before the end, at
    least. -/
theorem fixed_start_le {tol duration max_segment overlap : ℚ} (htol : 0 ≤ tol)
    (hM : 0 < max_segment) (hd : max_segment < duration) :
    ∀ b ∈ fixed_segment_bounds_tol tol duration max_segment overlap,
      b.1 + min min_tail_seconds max_segment ≤ duration := by
  by_cases hgap : tol < duration
  swap
  · rw [fixed_eq hM hd, slices_eq htol (enough_slices hM), if_neg (by linarith)]
    simp [fold_tail]
  have hmin : min min_tail_seconds max_segment ≤ max_segment := min_le_right _ _
  have hearly : ∀ j : ℕ, j < last_index tol duration max_segment overlap →
      j * slice_step max_segment overlap + max_segment ≤ duration := by
    intro j hj
    have hnot : ¬ duration - tol ≤ j * slice_step max_segment overlap + max_segment := by
      rw [reaches_iff hM]
      omega
    linarith
  cases hk : last_index tol duration max_segment overlap with
  | zero =>
    rw [fixed_eq hM hd, slices_all htol hM hgap, hk]
    intro b hb
    obtain rfl : b = slice duration max_segment _ 0 := by simpa [fold_tail] using hb
    simp only [slice, Nat.cast_zero, zero_mul, zero_add]
    linarith
  | succ k =>
    by_cases htail : min_tail_seconds ≤ tail_length tol duration max_segment overlap
    · rw [fixed_of_long_tail htol hM hd hgap htail, hk]
      intro b hb
      obtain ⟨j, hj, rfl⟩ := List.mem_map.1 hb
      rcases Nat.lt_succ_iff_lt_or_eq.1 (List.mem_range.1 hj) with hj | rfl
      · have := hearly j (by omega)
        dsimp only [slice]
        linarith
      · have hstop : (slice duration max_segment (slice_step max_segment overlap) (k + 1)).2 ≤
            duration := min_le_left _ _
        have hmin' : min min_tail_seconds max_segment ≤ min_tail_seconds := min_le_left _ _
        rw [tail_length, hk] at htail
        linarith
    · rw [fixed_of_short_tail htol hM hd hgap hk (not_le.1 htail)]
      intro b hb
      rcases List.mem_append.1 hb with hb | hb
      · obtain ⟨j, hj, rfl⟩ := List.mem_map.1 hb
        have := hearly j (by have := List.mem_range.1 hj; omega)
        dsimp only [slice]
        linarith
      · obtain rfl := List.mem_singleton.1 hb
        have := hearly k (by omega)
        have hstop : (slice duration max_segment (slice_step max_segment overlap) (k + 1)).2 ≤
            duration := min_le_left _ _
        rcases max_choice ((k : ℚ) * slice_step max_segment overlap)
          ((slice duration max_segment (slice_step max_segment overlap) (k + 1)).2 - max_segment)
          with h | h <;> dsimp only <;> rw [h] <;> linarith

/-- With a safe length of a fifth of a second or more, the regions of the VAD begin behind the
    slices in front of them. -/
theorem speech_regions_in_order {v : VadSession} {samples : List ℚ} {sample_rate : ℕ}
    (hrate : 0 < sample_rate) {regions : List Bound} {max_segment overlap : ℚ}
    (hM : 1 / 5 ≤ max_segment)
    (h : speech_regions_from_vad v samples sample_rate = some regions) :
    InOrder max_segment overlap regions := by
  have hmin : 1 / 5 ≤ min min_tail_seconds max_segment :=
    le_min (by norm_num [min_tail_seconds]) hM
  refine (speech_regions_ordered hrate h).imp ?_
  rintro p r ⟨-, hoverlap⟩ hlong b hb b' hb'
  obtain ⟨a, ha, rfl⟩ := List.mem_map.1 hb
  have hstart := start_le_pieces r b' hb'
  have hend := fixed_start_le end_tolerance_nonneg (by linarith) hlong a ha
  linarith

/-- What the regions of the VAD are packed into comes in order, within the safe length, and with every region
    that fits it in one piece. -/
theorem speech_segments {v : VadSession} {samples : List ℚ} {sample_rate : ℕ} (hrate : 0 < sample_rate)
    {regions : List Bound} {max_segment overlap : ℚ} (hM : 1 / 5 ≤ max_segment)
    (h : speech_regions_from_vad v samples sample_rate = some regions) :
    StartsSorted (group_regions regions max_segment overlap) ∧
      (∀ b ∈ group_regions regions max_segment overlap, Fits max_segment b) ∧
      ∀ r ∈ regions, Fits max_segment r →
        ∃ b ∈ group_regions regions max_segment overlap, b.1 ≤ r.1 ∧ r.2 ≤ b.2 := by
  have hpacked : Packed max_segment overlap regions _ :=
    packed_fold regions ((speech_regions_ordered hrate h).imp And.left)
  exact ⟨hpacked.sorted.2 (speech_regions_in_order hrate hM h), group_fits regions, hpacked.whole⟩

/-- A VAD whose windows are one sample: speech starts with a loud one, and ends with a silent one. -/
def loud : VadSession :=
  ⟨Unit, (), some 1, fun _ w => some ((), if w = [0] then some .speech_end else some .speech_start)⟩

theorem speech_segments_loud : StartsSorted (group_regions [(0, 2), (2, 4)] 1 0) :=
  have h : speech_regions_from_vad loud [1, 0, 1, 0] 1 = some [(0, 2), (2, 4)] := by
    simp [speech_regions_from_vad, speech_loop, VadSession.window, loud]
    decide +kernel
  (speech_segments Nat.one_pos (by norm_num) h).1

end LocalVoice.AsrSegmenter
