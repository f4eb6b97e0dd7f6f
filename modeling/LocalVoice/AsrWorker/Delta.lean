import LocalVoice.AsrWorker.Worker

/-! `asrStreamDelta::runDelta` of `qwen3_asr_worker.cpp`: the mel of an utterance comes in disjoint pieces,
    which are appended to one session, each with as many audio pads as it encodes to. A piece before the
    last one that would be appended with a single pad is put off; its pad goes along with the next piece.

        im_start user nl audio_start │ pad … pad │ … │ pad … pad │ audio_end im_end nl im_start assistant nl -/

namespace LocalVoice.AsrWorker

inductive Token where
  | kImStart
  | kUser
  | kNl
  | kAudioStart
  | kAudioPad
  | kAudioEnd
  | kImEnd
  | kAssistant
  deriving DecidableEq

def opening : List Token := [.kImStart, .kUser, .kNl, .kAudioStart]

def suffix : List Token := [.kAudioEnd, .kImEnd, .kNl, .kImStart, .kAssistant, .kNl]

/-- A call of `appendChunk`: its tokens, and the path of its mel. -/
structure Append where
  slice : List Token
  mel : Bytes
  isFinal : Bool
  deriving DecidableEq

def Append.pads (a : Append) : ℕ := a.slice.count .kAudioPad

/-- What the runtime does: a session is told by what was appended to it. `probe` is the number of tokens
    that a mel encodes to. -/
structure DeltaRuntime where
  allocateChunkAudioEmbedding : Bool
  probe : Bytes → Option ℕ
  beginAsrSession : ℕ → Bool
  appendChunk : List Append → Bool
  peekTranscriptWithSuffix : List Append → Bytes
  finished : List Append → Bool
  decodeToTranscript : List Append → Option Bytes

/-- An entry of `per_hop`. -/
inductive HopMetric where
  | buffered (hop pads : ℕ)
  | peeked (hop pads : ℕ) (text : Bytes)
  | final (hop pads : ℕ)
  deriving DecidableEq

/-- What was appended so far, and what was reported of it. -/
structure DeltaRun where
  appended : List Append
  per_hop : List HopMetric

section
variable (rt : DeltaRuntime)

/-- The probes, up to one that fails. -/
def probes : List Bytes → Except Bytes (List ℕ)
  | [] => .ok []
  | mel :: rest =>
    match rt.probe mel with
    | none => .error (ascii "delta: probe failed for " ++ mel)
    | some nk => (probes rest).map (nk :: ·)

/-- The append of a hop. -/
def hop_append (i padCount : ℕ) (mel : Bytes) (isFinal : Bool) : Append :=
  ⟨(if i = 0 then opening else []) ++ List.replicate padCount .kAudioPad ++ if isFinal then suffix else [],
    mel, isFinal⟩

/-- The hops from the `i`-th on, each a mel with its number of tokens. -/
def hops : ℕ → ℕ → List (Bytes × ℕ) → DeltaRun → Except Bytes DeltaRun
  | _, _, [], run => .ok run
  | i, bufferedPads, (mel, nk) :: rest, run =>
    let padCount := nk + bufferedPads
    if rest ≠ [] ∧ padCount = 1 then
      hops (i + 1) padCount rest { run with per_hop := run.per_hop ++ [.buffered i nk] }
    else
      let appended := run.appended ++ [hop_append i padCount mel rest.isEmpty]
      if rt.appendChunk appended then
        let metric := if rest = [] then HopMetric.final i padCount
          else .peeked i padCount (stripLangTag (rt.peekTranscriptWithSuffix appended))
        hops (i + 1) 0 rest ⟨appended, run.per_hop ++ [metric]⟩
      else .error (ascii "delta: appendChunk hop " ++ to_string i ++ ascii " failed")

def total (nTok : List ℕ) : ℕ := nTok.foldl (· + ·) 0

/-- `runDelta`: the final transcript, and the run; or the text of the error. -/
def runDelta (deltaMels : List Bytes) : Except Bytes (Bytes × DeltaRun) :=
  if !rt.allocateChunkAudioEmbedding then .error (ascii "delta: allocateChunkAudioEmbedding failed")
  else do
    let nTok ← probes rt deltaMels
    if !rt.beginAsrSession (total nTok + 64) then .error (ascii "delta: beginAsrSession failed")
    else
      let run ← hops rt 0 0 (deltaMels.zip nTok) ⟨[], []⟩
      if !rt.finished run.appended then .error (ascii "delta: not finished after final hop")
      else match rt.decodeToTranscript run.appended with
      | none => .error (ascii "delta: final decodeToTranscript failed")
      | some finalText => .ok (finalText, run)

/-- `runDeltaCore`, on the list that `extractDeltaMels` finds. -/
def runDeltaCore (deltaMels : List Bytes) : Except Bytes (Bytes × DeltaRun) :=
  if deltaMels = [] then .error (ascii "stream_delta: no delta_mels[] in request")
  else runDelta rt deltaMels

/-- Every mel is appended once, in its order, with its own pads; and the tokens are those of one prompt. -/
structure FedOnce (deltaMels : List Bytes) (appended : List Append) : Prop where
  mels : appended.map Append.mel = deltaMels
  pads : ∀ a ∈ appended, rt.probe a.mel = some a.pads
  guarded : ∀ a ∈ appended, a.isFinal = false → a.pads ≠ 1
  tokens : appended.flatMap Append.slice = opening ++
    List.replicate (total (deltaMels.map fun mel => (rt.probe mel).getD 0)) .kAudioPad ++ suffix

end

/-! ### What is appended -/

/-- The appends of a run in which nothing fails. -/
def planned : ℕ → ℕ → List (Bytes × ℕ) → List Append
  | _, _, [] => []
  | i, bufferedPads, (mel, nk) :: rest =>
    if rest ≠ [] ∧ nk + bufferedPads = 1 then planned (i + 1) (nk + bufferedPads) rest
    else hop_append i (nk + bufferedPads) mel rest.isEmpty :: planned (i + 1) 0 rest

variable {rt : DeltaRuntime} {deltaMels : List Bytes} {xs : List (Bytes × ℕ)}

theorem hops_planned {i bufferedPads : ℕ} {run run' : DeltaRun}
    (h : hops rt i bufferedPads xs run = .ok run') :
    run'.appended = run.appended ++ planned i bufferedPads xs := by
  induction xs generalizing i bufferedPads run with
  | nil =>
    obtain rfl := Except.ok.inj h
    exact (List.append_nil _).symm
  | cons x rest ih =>
    obtain ⟨mel, nk⟩ := x
    rw [hops] at h
    rw [planned]
    dsimp only at h
    split at h
    · next hbuffered =>
      rw [if_pos hbuffered]
      have hrest := ih h
      exact hrest
    · next hbuffered =>
      rw [if_neg hbuffered]
      split at h
      · rw [ih h, List.append_assoc]
        rfl
      · cases h

theorem planned_length (i bufferedPads : ℕ) (xs : List (Bytes × ℕ)) :
    (planned i bufferedPads xs).length ≤ xs.length := by
  induction xs generalizing i bufferedPads with
  | nil => exact Nat.le_refl 0
  | cons x rest ih =>
    obtain ⟨mel, nk⟩ := x
    rw [planned]
    split
    · exact Nat.le_succ_of_le (ih ..)
    · exact Nat.succ_le_succ (ih ..)

/-- A piece with a single token is not appended. -/
theorem planned_short {i : ℕ} (h : ∃ x ∈ xs.dropLast, x.2 = 1) :
    (planned i 0 xs).length < xs.length := by
  induction xs generalizing i with
  | nil =>
    obtain ⟨x, hx, -⟩ := h
    cases hx
  | cons x rest ih =>
    obtain ⟨mel, nk⟩ := x
    rw [planned]
    split
    · exact Nat.lt_succ_of_le (planned_length ..)
    · next hbuffered =>
      refine Nat.succ_lt_succ (ih ?_)
      obtain ⟨y, hy, hone⟩ := h
      cases rest with
      | nil => cases hy
      | cons z rest =>
        rcases List.mem_cons.1 hy with rfl | hy
        · exact absurd ⟨List.cons_ne_nil _ _, hone⟩ hbuffered
        · exact ⟨y, hy, hone⟩

theorem pads_hop_append (i padCount : ℕ) (mel : Bytes) (isFinal : Bool) :
    (hop_append i padCount mel isFinal).pads = padCount := by
  unfold hop_append Append.pads
  cases isFinal <;> split <;> simp [opening, suffix]

theorem total_cons (n : ℕ) (ns : List ℕ) : total (n :: ns) = n + total ns := by
  have hfold : ∀ (ns : List ℕ) (m : ℕ), ns.foldl (· + ·) m = m + ns.foldl (· + ·) 0 := by
    intro ns
    induction ns with
    | nil => exact fun _ => rfl
    | cons n ns ih =>
      intro m
      rw [List.foldl_cons, List.foldl_cons, ih (m + n), ih (0 + n), Nat.zero_add, Nat.add_assoc]
  rw [total, List.foldl_cons, hfold, Nat.zero_add, total]

/-- Without such a piece, the plan is the prompt, cut at the pieces. -/
theorem planned_whole {i : ℕ} (h : ∀ x ∈ xs.dropLast, x.2 ≠ 1) :
    (planned i 0 xs).map (fun a => (a.mel, a.pads)) = xs ∧
      (∀ a ∈ planned i 0 xs, a.isFinal = false → a.pads ≠ 1) ∧
      (planned i 0 xs).flatMap Append.slice = (if i = 0 ∧ xs ≠ [] then opening else []) ++
        List.replicate (total (xs.map Prod.snd)) .kAudioPad ++ if xs = [] then [] else suffix := by
  induction xs generalizing i with
  | nil => simp [planned, total]
  | cons x rest ih =>
    obtain ⟨mel, nk⟩ := x
    have hrest : ∀ y ∈ rest.dropLast, y.2 ≠ 1 := by
      intro y hy
      cases rest with
      | nil => cases hy
      | cons z rest => exact h y (List.mem_cons_of_mem _ hy)
    have hbuffered : ¬ (rest ≠ [] ∧ nk + 0 = 1) := by
      rintro ⟨hne, hone⟩
      cases rest with
      | nil => exact hne rfl
      | cons z rest => exact h (mel, nk) List.mem_cons_self hone
    obtain ⟨hmap, hguarded, hslices⟩ := @ih (i + 1) hrest
    rw [planned, if_neg hbuffered]
    refine ⟨?_, fun a ha hfinal => ?_, ?_⟩
    · rw [List.map_cons, hmap, pads_hop_append]
      rfl
    · rcases List.mem_cons.1 ha with rfl | ha
      · rw [pads_hop_append]
        refine fun hone => hbuffered ⟨fun hnil => ?_, hone⟩
        rw [hnil] at hfinal
        cases hfinal
      · exact hguarded a ha hfinal
    · rw [List.flatMap_cons, hslices, List.map_cons, total_cons]
      cases rest with
      | nil => simp [hop_append, total]
      | cons z rest =>
        simp only [hop_append, Nat.add_one_ne_zero, if_false, List.isEmpty_cons,
          List.append_nil, List.nil_append, Nat.add_zero, Bool.false_eq_true, ne_eq, reduceCtorEq,
          not_false_eq_true, and_true]
        rw [List.append_assoc, ← List.append_assoc (List.replicate nk _),
          List.replicate_append_replicate, List.append_assoc]

/-! ### Runs -/

theorem probes_spec {nTok : List ℕ} (h : probes rt deltaMels = .ok nTok) :
    deltaMels.map rt.probe = nTok.map some := by
  induction deltaMels generalizing nTok with
  | nil =>
    obtain rfl := Except.ok.inj h
    rfl
  | cons mel rest ih =>
    rw [probes] at h
    split at h
    · cases h
    · next nk hprobe =>
      cases hrest : probes rt rest with
      | error e =>
        rw [hrest] at h
        cases h
      | ok ns =>
        rw [hrest] at h
        obtain rfl := Except.ok.inj h
        rw [List.map_cons, List.map_cons, hprobe, ih hrest]

/-- A run that reports no error has probed every mel, and appended what was planned. -/
theorem runDelta_ok {finalText : Bytes} {run : DeltaRun} (h : runDelta rt deltaMels = .ok (finalText, run)) :
    ∃ nTok, deltaMels.map rt.probe = nTok.map some ∧
      run.appended = planned 0 0 (deltaMels.zip nTok) := by
  unfold runDelta at h
  split at h
  · cases h
  · cases hprobes : probes rt deltaMels with
    | error e =>
      rw [hprobes] at h
      cases h
    | ok nTok =>
      simp only [hprobes, bind, Except.bind] at h
      split at h
      · cases h
      · cases hhops : hops rt 0 0 (deltaMels.zip nTok) ⟨[], []⟩ with
        | error e =>
          rw [hhops] at h
          cases h
        | ok run' =>
          simp only [hhops] at h
          split at h
          · cases h
          · split at h
            · cases h
            · obtain ⟨-, rfl⟩ := Prod.mk.inj (Except.ok.inj h)
              exact ⟨nTok, probes_spec hprobes, hops_planned hhops⟩

/-- A run that reports no error feeds every piece once if and only if none before the last one encodes to
    a single token. -/
theorem delta_fed_once {finalText : Bytes} {run : DeltaRun}
    (h : runDeltaCore rt deltaMels = .ok (finalText, run)) :
    FedOnce rt deltaMels run.appended ↔ ∀ mel ∈ deltaMels.dropLast, rt.probe mel ≠ some 1 := by
  unfold runDeltaCore at h
  split at h
  · cases h
  next hne =>
  obtain ⟨nTok, hprobes, happended⟩ := runDelta_ok h
  have hcounts : nTok = deltaMels.map fun mel => (rt.probe mel).getD 0 := by
    have hget := congrArg (List.map fun n => Option.getD n 0) hprobes
    simpa [List.map_map, Function.comp_def] using hget.symm
  have hprobe : ∀ mel ∈ deltaMels, rt.probe mel = some ((rt.probe mel).getD 0) := by
    intro mel hmel
    obtain ⟨n, -, hn⟩ := List.mem_map.1 (hprobes ▸ List.mem_map_of_mem hmel)
    rw [← hn]
    rfl
  have hzip : deltaMels.zip nTok = deltaMels.map fun mel => (mel, (rt.probe mel).getD 0) := by
    rw [hcounts, ← List.zip_map', List.map_id']
  rw [happended, hzip]
  constructor
  · intro hfed mel hmel hone
    have hshort : (planned 0 0 (deltaMels.map fun mel => (mel, (rt.probe mel).getD 0))).length <
        (deltaMels.map fun mel => (mel, (rt.probe mel).getD 0)).length := by
      refine planned_short ⟨(mel, 1), ?_, rfl⟩
      rw [← List.map_dropLast]
      exact List.mem_map.2 ⟨mel, hmel, by rw [hone]; rfl⟩
    have hall := congrArg List.length hfed.mels
    rw [List.length_map] at hall
    rw [List.length_map, hall] at hshort
    exact Nat.lt_irrefl _ hshort
  · intro hguard
    have hwhole : ∀ x ∈ (deltaMels.map fun mel => (mel, (rt.probe mel).getD 0)).dropLast, x.2 ≠ 1 := by
      intro x hx hone
      rw [← List.map_dropLast] at hx
      obtain ⟨mel, hmel, rfl⟩ := List.mem_map.1 hx
      exact hguard mel hmel ((hprobe mel (List.dropLast_subset _ hmel)).trans (congrArg some hone))
    obtain ⟨hmap, hguarded, hslices⟩ := @planned_whole _ 0 hwhole
    refine ⟨?_, fun a ha => ?_, hguarded, ?_⟩
    · simpa [List.map_map, Function.comp_def] using congrArg (List.map Prod.fst) hmap
    · obtain ⟨mel, hmel, heq⟩ := List.mem_map.1 (hmap ▸ List.mem_map_of_mem (f := fun a => _) ha)
      obtain ⟨rfl, hpads⟩ := Prod.mk.inj heq
      rw [hprobe _ hmel, hpads]
    · rw [hslices, List.map_map, if_pos ⟨rfl, by simpa using hne⟩, if_neg (by simpa using hne)]
      rfl

/-- A runtime that does what it is asked to; a mel encodes to as many tokens as its path has characters. -/
def willing : DeltaRuntime :=
  ⟨true, fun mel => some mel.length, fun _ => true, fun _ => true, fun _ => ascii "Hi", fun _ => true,
    fun _ => some (ascii "Hi.")⟩

/-- The single token of the last piece is appended. -/
theorem delta_fed_once_last : ∃ run, runDeltaCore willing [ascii "c0", ascii "c1", ascii "c"] =
    .ok (ascii "Hi.", run) ∧ FedOnce willing [ascii "c0", ascii "c1", ascii "c"] run.appended :=
  ⟨_, rfl, (delta_fed_once rfl).2 (by decide)⟩

/-- The mel of a first piece with a single token is never appended, and the prompt has no opening. -/
theorem single_token_lost : ¬ ∀ (rt : DeltaRuntime) (deltaMels : List Bytes) (finalText : Bytes)
    (run : DeltaRun), runDeltaCore rt deltaMels = .ok (finalText, run) →
      FedOnce rt deltaMels run.appended := by
  intro hall
  have hfed := hall willing [ascii "c", ascii "c1"] (ascii "Hi.") _ rfl
  exact absurd hfed.mels (by decide)

end LocalVoice.AsrWorker
