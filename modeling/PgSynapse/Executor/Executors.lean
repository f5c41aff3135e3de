import PgSynapse.Executor.LoopHarness

/-!
# The three reference executors

`ConversationExecutor`, `ReActExecutor` and `ReflectionExecutor` (`executor/conversation.rs`,
`executor/react.rs`, `executor/reflection.rs`).  The conversation and ReAct loops have the same
body, `chatLoopBody`; they differ in how the harness is made.

The chat loop has no bound of its own, so it is run for a given number of passes; `running` says
that it is still going after them.  What holds for every number of passes holds for the whole run,
however it ends.
-/

namespace PgSynapse

/-- How an executor run stands: it returned an outcome or an error, it unwound with a panic, it
waits for a call that never returns, or it is still running. -/
inductive ExecResult where
  | finished (o : ExecutorOutcome)
  | failed (e : ExecutorError)
  | panicked (payload : Option String)
  | suspended
  | running
  deriving DecidableEq, Repr

variable {σ : Type} [Platform σ]

/-- Return through `finalize`. -/
def finish (h : LoopHarness σ) (output : String) (status : OutcomeStatus) :
    ExecResult × LoopHarness σ :=
  let (o, h) := h.finalize output status
  (.finished o, h)

/-- What one pass of a loop comes to. -/
inductive LoopStep (σ : Type) where
  | next (h : LoopHarness σ)
  | stop (r : ExecResult) (h : LoopHarness σ)

/-- Return from inside the loop. -/
def LoopStep.ret (r : ExecResult × LoopHarness σ) : LoopStep σ := .stop r.1 r.2

/-- `for tc in &calls`: dispatch each call; a failed call is answered with its error and the loop
goes on, any other error ends the run. -/
def dispatchAll : List ToolCall → LoopHarness σ → LoopStep σ
  | [], h => .next h
  | tc :: rest, h =>
    match h.dispatchToolCall tc with
    | (.ok _, h) => dispatchAll rest h
    | (.err (.tool te), h) => dispatchAll rest (h.pushToolError tc te)
    | (.err other, h) => .stop (.failed other) h
    | (.panicked p, h) => .stop (.panicked p) h
    | (.suspended, h) => .stop .suspended h

/-- One pass of the loop of `ConversationExecutor::execute` and `ReActExecutor::execute`. -/
def chatLoopBody (h : LoopHarness σ) : LoopStep σ :=
  let h := h.bumpIteration
  match h.checkIterationCap with
  | (.error (.maxIterationsReached _), h) => .ret (finish h "" .maxIterations)
  | (.error other, h) => .stop (.failed other) h
  | (.ok (), h) =>
    match h.checkCostCap with
    -- the cost cap ends the run with an error, the two other limits with an outcome
    | .error e => .stop (.failed e) h
    | .ok () =>
      match h.checkDeadline with
      | (.error _, h) => .ret (finish h "" .timedOut)
      | (.ok (), h) =>
        match h.oneLlmTurn with
        | (.ok (.assistantText text), h) => .ret (finish h text .completed)
        -- a turn without text or calls is not an answer: the model is asked to go on
        | (.ok .empty, h) => .next h.pushEmptyTurnNudge
        | (.ok (.toolCalls calls), h) => dispatchAll calls h
        | (.err (.timeout _), h) => .ret (finish h "" .timedOut)
        | (.err e, h) => .stop (.failed e) h
        | (.panicked p, h) => .stop (.panicked p) h
        | (.suspended, h) => .stop .suspended h

/-- Up to `passes` passes of the chat loop. -/
def chatLoop : Nat → LoopHarness σ → ExecResult × LoopHarness σ
  | 0, h => (.running, h)
  | passes + 1, h =>
    match chatLoopBody h with
    | .next h => chatLoop passes h
    | .stop r h => (r, h)

namespace ConversationExecutor

/-- `ConversationExecutor::execute`, run for up to `passes` passes of its loop. -/
def execute (passes : Nat) (ctx : ExecutionContext σ) (env : σ) : ExecResult × LoopHarness σ :=
  chatLoop passes (LoopHarness.new ctx env).seedMessages

end ConversationExecutor

namespace ReActExecutor

/-- `REACT_SYSTEM_ADDENDUM`. -/
def systemAddendum : String :=
  "When solving problems, think step by step. For each action, first reason about what to do, " ++
  "then call the appropriate tool. After observing the tool result, reason again before the " ++
  "next step."

/-- `ReActExecutor::execute`, run for up to `passes` passes of its loop. -/
def execute (passes : Nat) (ctx : ExecutionContext σ) (env : σ) : ExecResult × LoopHarness σ :=
  chatLoop passes (LoopHarness.newWithPrefix ctx systemAddendum env).seedMessages

end ReActExecutor

namespace ReflectionExecutor

/-- `ACCEPT_TOKEN`. -/
def acceptToken : String := "[ACCEPT]"

/-- `DEFAULT_CRITIQUE`. -/
def defaultCritique : String :=
  "Critique the previous answer, in this order:\n" ++
  "1. DELIVERY: is everything the request asked for present, in the requested form?\n" ++
  "2. CONFORMANCE: does it follow the stated constraints, format and allowed values exactly?\n" ++
  "3. FIDELITY: check every claim, figure and name against the source material and tool " ++
  "results in this conversation; reject invented specifics.\n" ++
  "4. INTERNAL CONSISTENCY: do totals, counts and cross-references agree with each other?\n" ++
  "5. OPERATIONAL FITNESS: can the intended reader or system act on it without redoing work?\n" ++
  "6. FINISH: no placeholders, no trailing questions, no unexplained omissions.\n" ++
  "If it is acceptable as-is, reply with the literal token [ACCEPT] followed by a brief " ++
  "confirmation. Otherwise, list concrete problems and what to change."

/-- The revise prompt. -/
def revisePrompt : String :=
  "Revise your previous answer to address the critique. " ++
  "Reply with only the revised answer; no preamble."

/-- The critique prompt: the agent's own, unless it has none or a blank one. -/
def critiquePrompt (ctx : ExecutionContext σ) : String :=
  (Harness.nonBlank ctx.harness.critique).getD defaultCritique

/-- One turn of a phase: the text the model answered, or `dflt` when it answered with tool calls
or nothing.  A budget that expires inside the call ends the run with `current`. -/
def phase (h : LoopHarness σ) (provider : LlmProvider σ) (dflt current : String) :
    String × LoopStep σ :=
  match h.oneLlmTurnWith provider with
  | (.ok (.assistantText t), h) => (t, .next h)
  | (.ok (.toolCalls _), h) => (dflt, .next h)
  | (.ok .empty, h) => (dflt, .next h)
  | (.err (.timeout _), h) => (dflt, .ret (finish h current .timedOut))
  | (.err e, h) => (dflt, .stop (.failed e) h)
  | (.panicked p, h) => (dflt, .stop (.panicked p) h)
  | (.suspended, h) => (dflt, .stop .suspended h)

/-- The checks before each critique and each revision. -/
def roundChecks (h : LoopHarness σ) (current : String) : LoopStep σ :=
  match h.checkCostCap with
  | .error e => .stop (.failed e) h
  | .ok () =>
    let h := h.bumpIteration
    match h.checkIterationCap with
    | (.error _, h) => .ret (finish h current .maxIterations)
    | (.ok (), h) =>
      match h.checkDeadline with
      | (.error _, h) => .ret (finish h current .timedOut)
      | (.ok (), h) => .next h

/-- `for _round in 0..self.max_revisions`. -/
def rounds (judge : LlmProvider σ) : Nat → String → LoopHarness σ → ExecResult × LoopHarness σ
  | 0, current, h => finish h current .completed
  | n + 1, current, h =>
    match roundChecks h current with
    | .stop r h => (r, h)
    | .next h =>
      let h := h.pushUserMessage (critiquePrompt h.ctx)
      match phase h judge "" current with
      | (_, .stop r h) => (r, h)
      | (critique, .next h) =>
        -- the judge accepts, also when it goes on to say more
        if Text.contains critique acceptToken then finish h current .completed
        else
          match roundChecks h current with
          | .stop r h => (r, h)
          | .next h =>
            let h := h.pushUserMessage revisePrompt
            match phase h h.ctx.llm current current with
            | (_, .stop r h) => (r, h)
            | (revised, .next h) => rounds judge n revised h

/-- `ReflectionExecutor::execute`. -/
def execute (maxRevisions : UInt32) (ctx : ExecutionContext σ) (env : σ) :
    ExecResult × LoopHarness σ :=
  let h := (LoopHarness.new ctx env).seedMessages.bumpIteration
  match h.checkCostCap with
  | .error e => (.failed e, h)
  | .ok () =>
    -- the draft is the first iteration; neither the cap nor the deadline is checked before it
    match phase h ctx.llm "" "" with
    | (_, .stop r h) => (r, h)
    | (current, .next h) =>
      rounds (ctx.judgeLlm.getD ctx.llm) maxRevisions.toNat current h

end ReflectionExecutor

end PgSynapse
