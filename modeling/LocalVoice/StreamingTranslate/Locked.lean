import Mathlib.Data.Int.Notation
import Mathlib.Data.List.DropRight

/-! `SegmentCommitter` of `agent/ovs_agent/streaming_translate/committer.py`: the partial hypotheses of a
    recogniser and the final one become segments to translate. A prefix is committed when the last
    hypotheses agree on it, or when it ends with a clause mark; what is behind it is the tail. Where a
    hypothesis is cut depends on lengths alone. -/

namespace LocalVoice.StreamingTranslate

abbrev Text := List Char

inductive Strategy where | retranslation | monotonic
  deriving DecidableEq

inductive Kind where | commit | tail
  deriving DecidableEq

/-- The arguments of the constructor, which raises for another `agreement_n`. -/
structure Config where
  agreement_n : ℕ
  strategy : Strategy
  clause_punct : List Char
  min_commit_chars : ℤ
  agreement_pos : 1 ≤ agreement_n

structure SegmentEvent where
  seq : ℕ
  source_text : Text
  committed_source : Text
  tail_source : Text
  is_final : Bool
  strategy : Strategy
  revision : ℕ
  kind : Kind
  deriving DecidableEq

structure Committer where
  partials : List Text
  committed_source : Text
  tail_source : Text
  seq : ℕ
  revision : ℕ
  deriving DecidableEq

/-- At the start of an utterance: the counters go on. -/
def Committer.fresh (seq revision : ℕ) : Committer := ⟨[], [], [], seq, revision⟩

/-- How many characters at the front are the same. -/
def matching : Text → Text → ℕ
  | a :: head, b :: s => if a = b then matching head s + 1 else 0
  | _, _ => 0

/-- The loop of `_common_prefix`, which stops at an empty head. -/
def shorten (head : Text) : List Text → Text
  | [] => head
  | s :: strings =>
    let head' := head.take (matching head s)
    if head' = [] then [] else shorten head' strings

def common_prefix : List Text → Text
  | [] => []
  | head :: strings => shorten head strings

/-- The loop of `_last_clause_end`, from the end of the text. -/
def clause_end (clause_punct : List Char) (text : Text) : ℕ → ℕ
  | 0 => 0
  | i + 1 => if text[i]?.any (· ∈ clause_punct) then i + 1 else clause_end clause_punct text i

namespace Committer
variable (cfg : Config) (c : Committer) (text : Text)

/-- `self._partials` with the new text. -/
def heard : List Text :=
  let partials := c.partials ++ [text]
  if cfg.agreement_n < partials.length then partials.rtake cfg.agreement_n else partials

def last_clause_end : ℕ := clause_end cfg.clause_punct text text.length

/-- `partials` are `self._partials`. -/
def commit_target (partials : List Text) : Text :=
  let agreement :=
    if cfg.agreement_n ≤ partials.length then common_prefix (partials.rtake cfg.agreement_n) else []
  let clause := text.take (last_clause_end cfg text)
  if clause.length ≤ agreement.length then agreement else clause

/-- The target is longer than what is locked, by enough. -/
def commits : Prop :=
  let target := commit_target cfg text (c.heard cfg text)
  c.committed_source.length < target.length ∧
    cfg.min_commit_chars ≤ (target.length - c.committed_source.length : ℤ)

instance : Decidable (c.commits cfg text) := inferInstanceAs (Decidable (_ ∧ _))

def push_partial : Committer × List SegmentEvent :=
  let c := { c with partials := c.heard cfg text }
  let target := commit_target cfg text c.partials
  if c.committed_source.length < target.length ∧
      cfg.min_commit_chars ≤ (target.length - c.committed_source.length : ℤ) then
    let delta := target.drop c.committed_source.length
    let tail := text.drop target.length
    ({ c with committed_source := target, tail_source := tail, seq := c.seq + 1 },
      [⟨c.seq + 1, delta, target, tail, false, cfg.strategy, c.revision, .commit⟩])
  else
    let tail := text.drop c.committed_source.length
    if cfg.strategy = .retranslation ∧ tail ≠ c.tail_source then
      ({ c with tail_source := tail, revision := c.revision + 1 },
        [⟨c.seq, tail, c.committed_source, tail, false, cfg.strategy, c.revision + 1, .tail⟩])
    else (c, [])

/-- The text buffers are empty afterwards, the counters are not. -/
def finalize : Committer × List SegmentEvent :=
  if c.committed_source.length < text.length then
    (fresh (c.seq + 1) c.revision,
      [⟨c.seq + 1, text.drop c.committed_source.length, text, [], true, cfg.strategy, c.revision, .commit⟩])
  else (fresh c.seq c.revision, [])

def reset : Committer := fresh 0 0

end Committer

/-! ### Utterances -/

/-- The committer after these hypotheses, and the events so far, each with its hypothesis. -/
def pushes (cfg : Config) (c : Committer) (ts : List Text) : Committer × List (Text × SegmentEvent) :=
  ts.foldl (fun r t => ((Committer.push_partial cfg r.1 t).1,
    r.2 ++ (Committer.push_partial cfg r.1 t).2.map (t, ·))) (c, [])

/-- The partial hypotheses of an utterance, and the final one unless it is still to come. -/
structure Utterance where
  partials : List Text
  final : Option Text
  deriving DecidableEq

/-- What an utterance makes of the committer, and its events, each with its hypothesis. -/
def utter (cfg : Config) (c : Committer) (u : Utterance) : Committer × List (Text × SegmentEvent) :=
  let r := pushes cfg c u.partials
  match u.final with
  | none => r
  | some t => ((r.1.finalize cfg t).1, r.2 ++ (r.1.finalize cfg t).2.map (t, ·))

/-! ### What is cut is a prefix of the hypothesis -/

section
variable {cfg : Config} {c : Committer} {text s head : Text} {l : List Text}

theorem matching_prefix : head.take (matching head s) <+: s := by
  induction head generalizing s with
  | nil => exact List.nil_prefix
  | cons a head ih =>
    cases s with
    | nil => exact List.prefix_refl _
    | cons b s =>
      unfold matching
      split
      · next heq =>
        rw [List.take_succ_cons, heq]
        exact List.cons_prefix_cons.2 ⟨rfl, ih⟩
      · exact List.nil_prefix

theorem shorten_prefix : shorten head l <+: head ∧ ∀ s ∈ l, shorten head l <+: s := by
  induction l generalizing head with
  | nil => exact ⟨List.prefix_refl _, fun s hs => by cases hs⟩
  | cons s l ih =>
    unfold shorten
    dsimp only
    split
    · exact ⟨List.nil_prefix, fun _ _ => List.nil_prefix⟩
    · obtain ⟨hhead, hall⟩ := @ih (head.take (matching head s))
      refine ⟨hhead.trans (List.take_prefix _ _), fun t ht => ?_⟩
      rcases List.mem_cons.1 ht with rfl | ht
      · exact hhead.trans matching_prefix
      · exact hall t ht

theorem common_prefix_prefix (hs : s ∈ l) : common_prefix l <+: s := by
  cases l with
  | nil => cases hs
  | cons head l =>
    rcases List.mem_cons.1 hs with rfl | hs
    · exact shorten_prefix.1
    · exact shorten_prefix.2 s hs

theorem mem_heard : text ∈ (c.heard cfg text).rtake cfg.agreement_n := by
  obtain ⟨n, hn⟩ := Nat.exists_eq_succ_of_ne_zero (Nat.ne_of_gt cfg.agreement_pos)
  unfold Committer.heard
  dsimp only
  rw [hn]
  split <;> simp only [List.rtake_concat_succ, List.mem_append, List.mem_singleton, or_true]

theorem target_prefix : Committer.commit_target cfg text (c.heard cfg text) <+: text := by
  have hagreement : (if cfg.agreement_n ≤ (c.heard cfg text).length then
      common_prefix ((c.heard cfg text).rtake cfg.agreement_n) else []) <+: text := by
    split
    · exact common_prefix_prefix mem_heard
    · exact List.nil_prefix
  unfold Committer.commit_target
  generalize (if cfg.agreement_n ≤ (c.heard cfg text).length then
    common_prefix ((c.heard cfg text).rtake cfg.agreement_n) else []) = agreement at hagreement
  dsimp only
  split
  · exact hagreement
  · exact List.take_prefix _ _

/-- A commit. -/
theorem push_commits (h : c.commits cfg text) :
    let target := Committer.commit_target cfg text (c.heard cfg text)
    c.push_partial cfg text = (⟨c.heard cfg text, target, text.drop target.length, c.seq + 1, c.revision⟩,
      [⟨c.seq + 1, target.drop c.committed_source.length, target, text.drop target.length, false,
        cfg.strategy, c.revision, .commit⟩]) :=
  if_pos h

/-- No commit: at most the tail is new. -/
theorem push_keeps (h : ¬ c.commits cfg text) :
    let tail := text.drop c.committed_source.length
    (c.push_partial cfg text).1.committed_source = c.committed_source ∧
    (c.push_partial cfg text).1.seq = c.seq ∧
    ((c.push_partial cfg text).2 = [] ∧ (c.push_partial cfg text).1.revision = c.revision ∨
      cfg.strategy = .retranslation ∧ (c.push_partial cfg text).1.revision = c.revision + 1 ∧
      (c.push_partial cfg text).2 = [⟨c.seq, tail, c.committed_source, tail, false, cfg.strategy,
        c.revision + 1, .tail⟩]) := by
  have hpush : c.push_partial cfg text = _ := if_neg h
  rw [hpush]
  split
  · next htail => exact ⟨rfl, rfl, Or.inr ⟨htail.1, rfl, rfl⟩⟩
  · exact ⟨rfl, rfl, Or.inl ⟨rfl, rfl⟩⟩

end

/-! What is committed stays committed. The events of an utterance are counted and read right whatever the
    hypotheses are; that each one extends what the last one locked, and that the commits join to it, is
    a matter of the hypotheses that are cut: each must begin with what is locked. -/

/-- The segments that the commits translate, one after the other. -/
def segments (evs : List (Text × SegmentEvent)) : Text :=
  (evs.filter fun e => e.2.kind = .commit).flatMap fun e => e.2.source_text

def last_committed (evs : List (Text × SegmentEvent)) : Text :=
  (evs.getLast?.map fun e => e.2.committed_source).getD []

/-- The events of an utterance, each with its hypothesis, never retract anything. -/
structure Locked (cfg : Config) (c : Committer) (u : Utterance) : Prop where
  extending : (utter cfg c u).2.Pairwise fun e e' => e.2.committed_source <+: e'.2.committed_source
  joined : segments (utter cfg c u).2 = last_committed (utter cfg c u).2
  reads : ∀ e ∈ (utter cfg c u).2, e.2.tail_source = e.1.drop e.2.committed_source.length ∧
    (e.2.kind = .commit → e.2.committed_source ++ e.2.tail_source = e.1)
  seq : (utter cfg c u).2.Pairwise fun e e' =>
    e.2.seq ≤ e'.2.seq ∧ (e'.2.kind = .commit → e.2.seq < e'.2.seq)
  revision : (utter cfg c u).2.Pairwise fun e e' => e'.2.kind = .tail → e.2.revision < e'.2.revision
  monotonic : cfg.strategy = .monotonic → ∀ e ∈ (utter cfg c u).2, e.2.kind = .commit
  final : ∀ t, u.final = some t → (pushes cfg c u.partials).1.committed_source <+: t →
    segments (utter cfg c u).2 = t

/-- Whenever a hypothesis is cut, it begins with what is locked, and so does a longer final text. -/
structure Agreeing (cfg : Config) (c : Committer) (u : Utterance) : Prop where
  partials : ∀ pre t post, u.partials = pre ++ t :: post → (pushes cfg c pre).1.commits cfg t →
    (pushes cfg c pre).1.committed_source <+: t
  final : ∀ t, u.final = some t → (pushes cfg c u.partials).1.committed_source.length < t.length →
    (pushes cfg c u.partials).1.committed_source <+: t

section
variable {cfg : Config} {c : Committer} {evs : List (Text × SegmentEvent)} {committed target t : Text}
  {seq revision : ℕ} {e : SegmentEvent} {ts pre post : List Text}

/-! ### Counting and reading -/

/-- The events behind the state of a committer, whatever the hypotheses are. -/
structure Traced (cfg : Config) (committed : Text) (seq revision : ℕ) (evs : List (Text × SegmentEvent)) :
    Prop where
  last : last_committed evs = committed
  reads : ∀ e ∈ evs, e.2.tail_source = e.1.drop e.2.committed_source.length ∧
    (e.2.kind = .commit → e.2.committed_source ++ e.2.tail_source = e.1)
  counted : ∀ e ∈ evs, e.2.seq ≤ seq ∧ e.2.revision ≤ revision
  seq : evs.Pairwise fun e e' => e.2.seq ≤ e'.2.seq ∧ (e'.2.kind = .commit → e.2.seq < e'.2.seq)
  revision : evs.Pairwise fun e e' => e'.2.kind = .tail → e.2.revision < e'.2.revision
  monotonic : cfg.strategy = .monotonic → ∀ e ∈ evs, e.2.kind = .commit

theorem traced_nil : Traced cfg [] seq revision [] where
  last := rfl
  reads := fun _ he => by cases he
  counted := fun _ he => by cases he
  seq := .nil
  revision := .nil
  monotonic := fun _ _ he => by cases he

theorem last_concat (x : Text × SegmentEvent) : last_committed (evs ++ [x]) = x.2.committed_source := by
  simp [last_committed]

theorem forall_concat {P : Text × SegmentEvent → Prop} {x : Text × SegmentEvent} (h : ∀ e ∈ evs, P e)
    (hx : P x) : ∀ e ∈ evs ++ [x], P e := by
  intro e he
  rcases List.mem_append.1 he with he | he
  · exact h e he
  · rwa [List.mem_singleton.1 he]

theorem pairwise_concat {R : Text × SegmentEvent → Text × SegmentEvent → Prop} {x : Text × SegmentEvent} :
    (evs ++ [x]).Pairwise R ↔ evs.Pairwise R ∧ ∀ e ∈ evs, R e x := by
  simp [List.pairwise_append]

/-- One more event: a commit takes the next number, a new tail the next revision. -/
theorem Traced.concat (h : Traced cfg committed seq revision evs)
    (hreads : e.tail_source = t.drop e.committed_source.length ∧
      (e.kind = .commit → e.committed_source ++ e.tail_source = t))
    (hkind : e.kind = .commit ∧ e.seq = seq + 1 ∧ e.revision = revision ∨
      e.kind = .tail ∧ cfg.strategy ≠ .monotonic ∧ e.seq = seq ∧ e.revision = revision + 1) :
    Traced cfg e.committed_source e.seq e.revision (evs ++ [(t, e)]) where
  last := last_concat _
  reads := forall_concat h.reads hreads
  counted := by
    refine forall_concat (fun e' he' => ?_) ⟨Nat.le_refl _, Nat.le_refl _⟩
    have := h.counted e' he'
    rcases hkind with ⟨-, hs, hr⟩ | ⟨-, -, hs, hr⟩ <;> omega
  seq := by
    refine pairwise_concat.2 ⟨h.seq, fun e' he' => ?_⟩
    have hle := (h.counted e' he').1
    rcases hkind with ⟨-, hs, -⟩ | ⟨htail, -, hs, -⟩
    · dsimp only
      omega
    · refine ⟨by dsimp only; omega, fun hcommit => ?_⟩
      rw [show e.kind = .commit from hcommit] at htail
      cases htail
  revision := by
    refine pairwise_concat.2 ⟨h.revision, fun e' he' htail => ?_⟩
    have hle := (h.counted e' he').2
    rcases hkind with ⟨hcommit, -, -⟩ | ⟨-, -, -, hr⟩
    · rw [show e.kind = .tail from htail] at hcommit
      cases hcommit
    · dsimp only
      omega
  monotonic := by
    intro hmono
    refine forall_concat (h.monotonic hmono) ?_
    rcases hkind with ⟨hcommit, -, -⟩ | ⟨-, hnot, -, -⟩
    · exact hcommit
    · exact absurd hmono hnot

theorem pushes_concat : pushes cfg c (ts ++ [t]) = ((Committer.push_partial cfg (pushes cfg c ts).1 t).1,
    (pushes cfg c ts).2 ++ (Committer.push_partial cfg (pushes cfg c ts).1 t).2.map (t, ·)) := by
  simp [pushes]

theorem drop_reads (hpre : target <+: t) : target ++ t.drop target.length = t := by
  obtain ⟨rest, rfl⟩ := hpre
  simp

/-- A hypothesis. -/
theorem traced_push (h : Traced cfg c.committed_source c.seq c.revision evs) :
    Traced cfg (c.push_partial cfg t).1.committed_source (c.push_partial cfg t).1.seq
      (c.push_partial cfg t).1.revision (evs ++ (c.push_partial cfg t).2.map (t, ·)) := by
  by_cases hcommits : c.commits cfg t
  · rw [push_commits hcommits]
    exact h.concat (e := ⟨c.seq + 1, _, _, _, false, cfg.strategy, c.revision, .commit⟩)
      ⟨rfl, fun _ => drop_reads target_prefix⟩ (Or.inl ⟨rfl, rfl, rfl⟩)
  · obtain ⟨hcommitted, hseq, hnone | ⟨hretr, hrev, hevent⟩⟩ := push_keeps hcommits
    · rw [hcommitted, hseq, hnone.1, hnone.2]
      simpa using h
    · rw [hcommitted, hseq, hrev, hevent]
      have hnot : cfg.strategy ≠ .monotonic := by
        rw [hretr]
        decide
      exact h.concat (e := ⟨c.seq, _, c.committed_source, _, false, cfg.strategy, c.revision + 1, .tail⟩)
        ⟨rfl, fun hkind => by cases hkind⟩ (Or.inr ⟨rfl, hnot, rfl, rfl⟩)

theorem traced_pushes (cfg : Config) (seq revision : ℕ) (ts : List Text) :
    let r := pushes cfg (.fresh seq revision) ts
    Traced cfg r.1.committed_source r.1.seq r.1.revision r.2 := by
  induction ts using List.reverseRecOn with
  | nil => exact traced_nil
  | append_singleton ts t ih =>
    rw [pushes_concat]
    exact traced_push ih

/-! ### Joining -/

/-- Each event extends the last one, and the segments join to what is locked. -/
structure Joined (committed : Text) (evs : List (Text × SegmentEvent)) : Prop where
  extending : evs.Pairwise fun e e' => e.2.committed_source <+: e'.2.committed_source
  below : ∀ e ∈ evs, e.2.committed_source <+: committed
  joined : segments evs = committed

theorem segments_concat : segments (evs ++ [(t, e)]) =
    segments evs ++ if e.kind = .commit then e.source_text else [] := by
  by_cases hkind : e.kind = .commit <;> simp [segments, List.filter_append, hkind]

theorem Joined.commit (h : Joined committed evs) (hpre : committed <+: target)
    (hkind : e.kind = .commit) (hsource : e.source_text = target.drop committed.length)
    (htarget : e.committed_source = target) : Joined target (evs ++ [(t, e)]) where
  extending := pairwise_concat.2 ⟨h.extending, fun e' he' => htarget ▸ (h.below e' he').trans hpre⟩
  below := forall_concat (fun e' he' => (h.below e' he').trans hpre) (htarget ▸ List.prefix_refl _)
  joined := by
    rw [segments_concat, if_pos hkind, h.joined, hsource]
    exact drop_reads hpre

theorem Joined.tail (h : Joined committed evs) (hkind : e.kind = .tail)
    (hkept : e.committed_source = committed) : Joined committed (evs ++ [(t, e)]) where
  extending := pairwise_concat.2 ⟨h.extending, fun e' he' => hkept ▸ h.below e' he'⟩
  below := forall_concat h.below (hkept ▸ List.prefix_refl _)
  joined := by
    rw [segments_concat, hkind, if_neg (by decide), List.append_nil, h.joined]

/-- A hypothesis that is only cut where it begins with what is locked. -/
theorem joined_push (h : Joined c.committed_source evs)
    (hagree : c.commits cfg t → c.committed_source <+: t) :
    Joined (c.push_partial cfg t).1.committed_source (evs ++ (c.push_partial cfg t).2.map (t, ·)) := by
  by_cases hcommits : c.commits cfg t
  · have hpre := List.prefix_of_prefix_length_le (hagree hcommits) target_prefix (Nat.le_of_lt hcommits.1)
    rw [push_commits hcommits]
    exact h.commit hpre rfl rfl rfl
  · obtain ⟨hcommitted, -, hnone | ⟨-, -, hevent⟩⟩ := push_keeps hcommits
    · rw [hcommitted, hnone.1]
      simpa using h
    · rw [hcommitted, hevent]
      exact h.tail rfl rfl

theorem joined_pushes (hagree : ∀ pre t post, ts = pre ++ t :: post →
    (pushes cfg (.fresh seq revision) pre).1.commits cfg t →
      (pushes cfg (.fresh seq revision) pre).1.committed_source <+: t) :
    Joined (pushes cfg (.fresh seq revision) ts).1.committed_source
      (pushes cfg (.fresh seq revision) ts).2 := by
  induction ts using List.reverseRecOn with
  | nil => exact ⟨.nil, (fun _ he => by cases he), rfl⟩
  | append_singleton ts t ih =>
    rw [pushes_concat]
    refine joined_push (ih fun pre t' post heq => ?_) (hagree ts t [] rfl)
    exact hagree pre t' (post ++ [t]) (by simp [heq])

/-- The final text, where it is longer than what is locked. -/
theorem finalize_commits (hlong : c.committed_source.length < t.length) : (c.finalize cfg t).2 =
    [⟨c.seq + 1, t.drop c.committed_source.length, t, [], true, cfg.strategy, c.revision, .commit⟩] := by
  unfold Committer.finalize
  rw [if_pos hlong]

theorem finalize_none (hshort : ¬ c.committed_source.length < t.length) : (c.finalize cfg t).2 = [] := by
  unfold Committer.finalize
  rw [if_neg hshort]

theorem last_prefix (hall : ∀ e' ∈ evs, e'.2.committed_source <+: target) :
    last_committed evs <+: target := by
  unfold last_committed
  cases hlast : evs.getLast? with
  | none => exact List.nil_prefix
  | some x => exact hall x (List.mem_of_getLast? hlast)

/-- The events of the first hypotheses come first. -/
theorem pushes_append : ∃ rest, (pushes cfg c (pre ++ post)).2 = (pushes cfg c pre).2 ++ rest := by
  induction post using List.reverseRecOn with
  | nil => exact ⟨[], by simp⟩
  | append_singleton post t ih =>
    obtain ⟨rest, hrest⟩ := ih
    rw [← List.append_assoc, pushes_concat, hrest]
    exact ⟨_, List.append_assoc _ _ _⟩

/-- What extends the last event was cut from a text that begins with what was locked. -/
theorem agree_of_extending
    (h : (pushes cfg (.fresh seq revision) ts).2.Pairwise
      fun e e' => e.2.committed_source <+: e'.2.committed_source)
    (heq : ts = pre ++ t :: post) (hcommits : (pushes cfg (.fresh seq revision) pre).1.commits cfg t) :
    (pushes cfg (.fresh seq revision) pre).1.committed_source <+: t := by
  obtain ⟨rest, hrest⟩ : ∃ rest, (pushes cfg (.fresh seq revision) (pre ++ [t] ++ post)).2 =
      (pushes cfg (.fresh seq revision) (pre ++ [t])).2 ++ rest := pushes_append
  rw [List.append_assoc, List.singleton_append, ← heq, pushes_concat, push_commits hcommits] at hrest
  rw [hrest] at h
  have hlast := last_prefix (pairwise_concat.1 (List.pairwise_append.1 h).1).2
  rw [(traced_pushes cfg seq revision pre).last] at hlast
  exact hlast.trans target_prefix

theorem locked_of {u : Utterance} (hevs : (utter cfg c u).2 = evs)
    (ht : Traced cfg committed seq revision evs) (hj : Joined committed evs)
    (hfinal : ∀ t, u.final = some t → (pushes cfg c u.partials).1.committed_source <+: t → committed = t) :
    Locked cfg c u := by
  subst hevs
  exact ⟨hj.extending, hj.joined.trans ht.last.symm, ht.reads, ht.seq, ht.revision, ht.monotonic,
    fun t hu hpre => hj.joined.trans (hfinal t hu hpre)⟩

theorem utter_final {u : Utterance} (hfinal : u.final = some t) : (utter cfg c u).2 =
    (pushes cfg c u.partials).2 ++ ((pushes cfg c u.partials).1.finalize cfg t).2.map (t, ·) := by
  rw [utter, hfinal]

/-- An utterance retracts nothing just when each hypothesis that is cut begins with what is locked. -/
theorem locked_iff (cfg : Config) (seq revision : ℕ) (u : Utterance) :
    Locked cfg (.fresh seq revision) u ↔ Agreeing cfg (.fresh seq revision) u := by
  have htraced := traced_pushes cfg seq revision u.partials
  constructor
  · intro h
    have hextending := h.extending
    have hfront : (pushes cfg (.fresh seq revision) u.partials).2.Pairwise
        fun e e' => e.2.committed_source <+: e'.2.committed_source := by
      unfold utter at hextending
      cases hfinal : u.final with
      | none => rwa [hfinal] at hextending
      | some t =>
        rw [hfinal] at hextending
        exact (List.pairwise_append.1 hextending).1
    refine ⟨fun pre t post heq => agree_of_extending hfront heq, fun t hfinal hlong => ?_⟩
    rw [utter_final hfinal, finalize_commits hlong] at hextending
    have hlast := last_prefix (pairwise_concat.1 hextending).2
    rwa [htraced.last] at hlast
  · intro h
    have hjoined := joined_pushes h.partials
    cases hfinal : u.final with
    | none =>
      refine locked_of (by rw [utter, hfinal]) htraced hjoined fun t ht => ?_
      rw [hfinal] at ht
      cases ht
    | some t =>
      have hevs : (utter cfg (.fresh seq revision) u).2 = _ := utter_final hfinal
      by_cases hlong : (pushes cfg (.fresh seq revision) u.partials).1.committed_source.length < t.length
      · rw [finalize_commits hlong] at hevs
        refine locked_of hevs (htraced.concat (by simp) (Or.inl ⟨rfl, rfl, rfl⟩))
          (hjoined.commit (h.final t hfinal hlong) rfl rfl rfl) fun t' ht' _ => ?_
        exact Option.some.inj (hfinal.symm.trans ht')
      · rw [finalize_none hlong, List.map_nil, List.append_nil] at hevs
        refine locked_of hevs htraced hjoined fun t' ht' hpre => ?_
        obtain rfl := Option.some.inj (hfinal.symm.trans ht')
        exact hpre.eq_of_length_le (Nat.not_lt.1 hlong)

end

/-! ### A revised hypothesis -/

def captions : Config := ⟨2, .retranslation, ['.', ','], 1, Nat.two_pos⟩

/-- The recogniser hears a clause, and then another one in its place. -/
def revised : Utterance := ⟨[['n', 'o', ','], ['y', 'e', 's', ',']], none⟩

theorem revised_retracts : ¬ Locked captions (.fresh 0 0) revised := by
  intro h
  have hevs : (utter captions (.fresh 0 0) revised).2.map (fun e => e.2.committed_source) =
      [['n', 'o', ','], ['y', 'e', 's', ',']] := by decide
  have hextending := List.pairwise_map.2 h.extending
  rw [hevs] at hextending
  exact absurd ((List.pairwise_cons.1 hextending).1 _ (List.mem_singleton_self _)) (by decide)

end LocalVoice.StreamingTranslate
