import LocalVoice.RK1828.Lines

/-! Under which function tools `run_server` runs a request. The set is kept in the runtime's session
    and only ever replaced by another one: a line with tools registers them when they differ from the
    last ones, a line without tools leaves the set alone.

        tools A (registered)  ──▶ A
        no tools              ──▶ A      the set of the request before
        tools B (refused)     ──▶ A
        tools B (registered)  ──▶ B -/

namespace LocalVoice.RK1828

/-- A call of `server_infer`, with the tools that are registered in the session then. -/
structure Infer where
  registered : Option Bytes
  turns : List ServerTurn
  max_new_tokens : ℤ
  keep_history : Bool
  deriving DecidableEq

/-- The worker between two lines: the tools in the runtime's session, `g_last_tools`, and the calls
    of `server_infer` so far. -/
structure Server where
  registered : Option Bytes
  last_tools : Bytes
  infers : List Infer
  deriving DecidableEq

/-- The worker once it is ready. -/
def Server.init : Server := ⟨none, [], []⟩

/-- The registration of a line's tools, when `rknn3_session_set_function_tools` would return `ret`: it
    installs the set when that is 0. -/
def Server.set_function_tools (s : Server) (tools : Bytes) (ret : ℤ) : Server :=
  if tools ≠ [] ∧ tools ≠ s.last_tools then
    if ret = 0 then { s with registered := some tools, last_tools := tools } else s
  else s

/-- One round of `run_server`'s loop. -/
def Server.serve_line (s : Server) (line : Bytes) (ret : ℤ) : Server :=
  if chomp line = [] then s
  else
    let req := parse_line (chomp line)
    let s := s.set_function_tools req.tools ret
    let prompt := (req.turns.getLast?.map (·.text)).getD []
    if prompt = [] then s
    else { s with infers := s.infers ++ [⟨s.registered, req.turns, req.max_new, req.keep = 1⟩] }

/-- The worker after chat requests, each with what its registration returns if it is tried. -/
def served (history : List (Request × ℤ)) : Server :=
  history.foldl (fun s x => s.serve_line (request_line x.1) x.2) .init

/-- The tools a request installs. -/
def installed (x : Request × ℤ) : Option Bytes :=
  if x.1.tools ≠ [] ∧ x.2 = 0 then some (json_dumps x.1.tools) else none

/-- The tools of the latest request that installed some. -/
def last_installed (history : List (Request × ℤ)) : Option Bytes :=
  (history.filterMap installed).getLast?

theorem json_dumps_ne_nil (tools : List Bytes) : json_dumps tools ≠ [] := by
  simp [json_dumps, ascii]

/-- What one request's line does. -/
theorem serve_request (s : Server) (r : Request) (ret : ℤ) :
    s.serve_line (request_line r) ret =
      let s' := s.set_function_tools (if r.tools ≠ [] then json_dumps r.tools else []) ret
      if r.prompt = [] then s'
      else { s' with infers := s'.infers ++
        [⟨s'.registered, [⟨[], r.prompt⟩], max_new_of (decimal r.max_new_tokens), false⟩] } := by
  rw [Server.serve_line, chomp_request_line, if_neg (request_line_ne_nil r), parse_request_line]
  rfl

/-- A registration logs no call. -/
@[simp] theorem set_function_tools_infers (s : Server) (tools : Bytes) (ret : ℤ) :
    (s.set_function_tools tools ret).infers = s.infers := by
  unfold Server.set_function_tools
  split
  · split <;> rfl
  · rfl

/-- The set in the session is the one `g_last_tools` names. -/
def Server.InStep (s : Server) : Prop := s.last_tools = s.registered.getD []

/-- After a registration the set is the line's own when it could be installed, and stays otherwise. -/
theorem set_function_tools_registered {s : Server} (hs : s.InStep) (r : Request) (ret : ℤ) :
    let s' := s.set_function_tools (if r.tools ≠ [] then json_dumps r.tools else []) ret
    s'.InStep ∧ s'.registered = (installed (r, ret)).or s.registered := by
  by_cases hne : r.tools = []
  · simpa [Server.set_function_tools, installed, hne] using hs
  have hdumps : json_dumps r.tools ≠ [] := json_dumps_ne_nil r.tools
  by_cases hlast : json_dumps r.tools = s.last_tools
  · -- the same set again: it is the one in the session
    have hreg : s.registered = some (json_dumps r.tools) := by
      unfold Server.InStep at hs
      cases hr : s.registered with
      | none =>
        rw [hr] at hs
        exact absurd (hlast.trans hs) hdumps
      | some t =>
        rw [hr] at hs
        exact congrArg some (hlast.trans hs).symm
    have hsame : s.set_function_tools (json_dumps r.tools) ret = s := by
      simp [Server.set_function_tools, hlast]
    simp only [ne_eq, hne, not_false_eq_true, if_true, hsame, installed, true_and]
    refine ⟨hs, ?_⟩
    split
    · exact hreg
    · rfl
  · by_cases hret : ret = 0
    · simp [Server.set_function_tools, installed, Server.InStep, hne, hdumps, hlast, hret]
    · simpa [Server.set_function_tools, installed, hne, hret] using hs

theorem last_installed_concat (history : List (Request × ℤ)) (x : Request × ℤ) :
    last_installed (history ++ [x]) = (installed x).or (last_installed history) := by
  rw [last_installed, List.filterMap_append, last_installed]
  cases hx : installed x with
  | none => simp [hx]
  | some t => simp [hx]

theorem served_concat (history : List (Request × ℤ)) (r : Request) (ret : ℤ) :
    served (history ++ [(r, ret)]) = (served history).serve_line (request_line r) ret := by
  simp [served]

/-- After any requests the session holds the tools of the latest one that installed some. -/
theorem served_registered (history : List (Request × ℤ)) :
    (served history).InStep ∧ (served history).registered = last_installed history := by
  induction history using List.reverseRecOn with
  | nil => exact ⟨rfl, rfl⟩
  | append_singleton history x ih =>
    obtain ⟨r, ret⟩ := x
    obtain ⟨hstep, hreg⟩ := ih
    obtain ⟨hstep', hreg'⟩ := set_function_tools_registered hstep r ret
    rw [served_concat, serve_request, last_installed_concat, ← hreg]
    dsimp only
    split
    · exact ⟨hstep', hreg'⟩
    · exact ⟨hstep', hreg'⟩

/-- Every request with a prompt is run once, under the tools of the latest request up to itself that
    installed some. -/
theorem infer_under_last_tools (history : List (Request × ℤ)) (r : Request) (ret : ℤ)
    (hprompt : r.prompt ≠ []) :
    ∃ i : Infer, (served (history ++ [(r, ret)])).infers = (served history).infers ++ [i] ∧
      i.turns = [⟨[], r.prompt⟩] ∧ i.registered = last_installed (history ++ [(r, ret)]) ∧
      (r.tools ≠ [] → ret = 0 → i.registered = some (json_dumps r.tools)) := by
  obtain ⟨hstep, hreg⟩ := served_registered history
  obtain ⟨-, hreg'⟩ := set_function_tools_registered hstep r ret
  rw [hreg, ← last_installed_concat] at hreg'
  refine ⟨⟨_, [⟨[], r.prompt⟩], max_new_of (decimal r.max_new_tokens), false⟩, ?_, rfl, hreg', ?_⟩
  · rw [served_concat, serve_request]
    dsimp only
    rw [if_neg hprompt, set_function_tools_infers]
  · intro htools hret
    refine hreg'.trans ?_
    rw [last_installed_concat, installed, if_pos ⟨htools, hret⟩]
    rfl

/-- A request with tools, and one without behind it. -/
def light_on : Request := ⟨ascii "on", 320, [ascii "light"]⟩

def greeting : Request := ⟨ascii "hi", 96, []⟩

/-- The second request is run under the first one's tools. -/
theorem infer_under_last_tools_greeting :
    ∃ i : Infer, (served [(light_on, 0), (greeting, 0)]).infers =
        (served [(light_on, 0)]).infers ++ [i] ∧
      i.turns = [⟨[], ascii "hi"⟩] ∧ i.registered = some (ascii "[light]") := by
  obtain ⟨i, hi, hturns, hreg, -⟩ := infer_under_last_tools [(light_on, 0)] greeting 0 (by decide)
  exact ⟨i, hi, hturns, hreg.trans (by decide)⟩

/-- A request without tools runs with tools registered. -/
theorem infer_under_other_tools :
    ¬ ∀ (history : List (Request × ℤ)) (r : Request) (ret : ℤ) (i : Infer),
      (served (history ++ [(r, ret)])).infers = (served history).infers ++ [i] →
      i.registered = if r.tools ≠ [] then some (json_dumps r.tools) else none := by
  intro h
  have hnone := h [(light_on, 0)] greeting 0
    ⟨some (ascii "[light]"), [⟨[], ascii "hi"⟩], 96, false⟩ (by decide +kernel)
  revert hnone
  decide

end LocalVoice.RK1828
