import PgSynapse.Runtime.Equiv.Confinement
import PgSynapse.Runtime.Equiv.IterationCap
import PgSynapse.Runtime.Equiv.Keeps

/-!
# How a run ends

A run whose iteration counter can pass its cap comes to an end.  It returns an outcome or an error,
unless a provider of the run panics or a call on the outside never comes back
(`runExecutor_accounted`).
-/

namespace PgSynapse

open LoopHarness

variable {σ : Type}

/-! ### What an end is put down to -/

/-- A call of the provider can panic, with this payload. -/
def LlmProvider.MayPanic (provider : LlmProvider σ) (payload : Option String) : Prop :=
  ∃ req wait env, (provider.complete req wait env).1 = .panicked payload

/-- A call of the provider can stay without an answer. -/
def LlmProvider.MayHang (provider : LlmProvider σ) : Prop :=
  ∃ req wait env, (provider.complete req wait env).1 = .pending

/-- A run of the tool can stay without an answer. -/
def Tool.MayHang (tool : Tool σ) : Prop :=
  ∃ args toolCtx env, (tool.run args toolCtx env).1 = .pending

/-- **An end that is accounted for**: the run returned, or a provider or a tool of its context is to
blame. -/
inductive Accounted (ctx : ExecutionContext σ) : ExecResult → Prop where
  | finished (o : ExecutorOutcome) : Accounted ctx (.finished o)
  | failed (e : ExecutorError) : Accounted ctx (.failed e)
  | panicked {provider : LlmProvider σ} {payload : Option String} (huses : ctx.Uses provider)
      (hpanic : provider.MayPanic payload) : Accounted ctx (.panicked payload)
  | provider {provider : LlmProvider σ} (huses : ctx.Uses provider) (hhang : provider.MayHang) :
      Accounted ctx .suspended
  | tool {name : String} {tool : Tool σ} (htool : ctx.tools.get name = some tool)
      (hhang : tool.MayHang) : Accounted ctx .suspended

/-- What the provider of a turn has to do with how the turn came back. -/
def LlmProvider.Accounts (provider : LlmProvider σ) : Flow TurnResult → Prop
  | .panicked payload => provider.MayPanic payload
  | .suspended => provider.MayHang
  | _ => True

variable [Platform σ] (h : LoopHarness σ)

/-! ### Turns and calls -/

theorem oneLlmTurnWith_accounts (provider : LlmProvider σ) :
    provider.Accounts (h.oneLlmTurnWith provider).1 := by
  unfold oneLlmTurnWith
  rcases h.checkInterrupt with ⟨_ | _, h₁⟩
  · trivial
  simp only
  generalize h₁.buildRequest provider.modelName = req
  generalize (h₁.recordEvent .llmRequest _).remainingBudget = budgeted
  obtain ⟨wait, h₂⟩ := budgeted
  have hanswer : (provider.complete req wait h₂.world.env).1 =
      (h₂.awaitComplete provider req wait).1 := rfl
  rcases ha : h₂.awaitComplete provider req wait with ⟨answer, h₃⟩
  rw [ha] at hanswer
  match answer with
  | .ready (.ok resp) =>
    rcases h₃.acceptResponse_cases provider.modelName resp with
      ⟨e, h₄, heq, -⟩ | ⟨t, h₄, rows, heq, -⟩
    · show provider.Accounts (h₃.acceptResponse provider.modelName resp).1
      rw [heq]
      trivial
    · show provider.Accounts (h₃.acceptResponse provider.modelName resp).1
      rw [heq]
      trivial
  | .ready (.error e) => trivial
  | .panicked p => exact ⟨req, wait, h₂.world.env, hanswer⟩
  | .pending =>
    cases wait with
    | none => exact ⟨req, none, h₂.world.env, hanswer⟩
    | some w => trivial

/-- Only a tool that does not come back keeps a dispatch waiting. -/
theorem dispatchToolCall_hangs {tc : ToolCall} {h' : LoopHarness σ}
    (hd : h.dispatchToolCall tc = (.suspended, h')) :
    ∃ tool, h.ctx.tools.get tc.name = some tool ∧ tool.MayHang := by
  by_contra hall
  have hreturns : (h.dispatchToolCall tc).1 ≠ .suspended := by
    unfold dispatchToolCall
    cases repeatedCallRefusal h.issuedToolCalls tc with
    | some refusal => simp
    | none =>
      cases htool : h.ctx.tools.get tc.name with
      | none => simp
      | some tool =>
        simp only
        generalize h.recordEvent .toolStart _ = h₁
        generalize (ToolCtx.mk _ _ _) = toolCtx
        have hanswer : (h₁.awaitTool tool tc toolCtx).1 ≠ .pending :=
          fun hpending => hall ⟨tool, htool, tc.args, toolCtx, h₁.world.env, hpending⟩
        rcases ha : h₁.awaitTool tool tc toolCtx with ⟨answer, h₂⟩
        rw [ha] at hanswer
        have settled : ∀ result, (h₂.settleToolCall tc result).1 ≠ .suspended := by
          intro result
          cases result <;> simp [settleToolCall]
        cases answer with
        | ready result => exact settled result
        | panicked p => exact settled _
        | pending => exact absurd rfl hanswer
  rw [hd] at hreturns
  exact hreturns rfl

theorem dispatchAll_accounted (calls : List ToolCall) :
    (dispatchAll calls h).Meets (fun h' => h'.ctx = h.ctx) fun r _ => Accounted h.ctx r := by
  induction calls generalizing h with
  | nil => exact rfl
  | cons tc rest ih =>
    rw [dispatchAll]
    rcases h.dispatchToolCall_cases tc with ⟨msg, h₁, row, runs, hd, g, -⟩ |
      ⟨te, h₁, runs, hd, g, -⟩ | ⟨h₁, runs, hd, -⟩ <;> rw [hd]
    · have hrest := ih h₁
      rw [g.ctx] at hrest
      exact hrest
    · obtain ⟨row, g', -⟩ := h₁.pushToolError_grows tc te
      have hrest := ih (h₁.pushToolError tc te)
      rw [g'.ctx, g.ctx] at hrest
      exact hrest
    · obtain ⟨tool, htool, hhang⟩ := dispatchToolCall_hangs h hd
      exact .tool htool hhang

/-! ### The chat loop -/

theorem chatLoopBody_accounted :
    (chatLoopBody h).Meets (fun _ => True) fun r _ => Accounted h.ctx r := by
  unfold chatLoopBody
  simp only
  have gi := h.bumpIteration_grows.before (checkIterationCap_grows _)
  rcases hi : h.bumpIteration.checkIterationCap with ⟨_ | _, h₁⟩ <;> rw [hi] at gi
  case error e =>
    cases e
    case maxIterationsReached => exact .finished _
    all_goals exact .failed _
  simp only
  cases h₁.checkCostCap with
  | error e => exact .failed e
  | ok _ =>
    have gd := gi.before h₁.checkDeadline_grows
    rcases hd : h₁.checkDeadline with ⟨_ | _, h₂⟩ <;> rw [hd] at gd
    · exact .finished _
    simp only
    -- only the model and the tools can keep the turn from ending
    have huses : h.ctx.Uses h₂.ctx.llm := .inl (congrArg ExecutionContext.llm gd.ctx)
    have haccounts := oneLlmTurnWith_accounts h₂ h₂.ctx.llm
    have hturn := h₂.oneLlmTurnWith_cases h₂.ctx.llm
    rw [oneLlmTurn]
    rcases ht : h₂.oneLlmTurnWith h₂.ctx.llm with ⟨flow, h₃⟩
    rw [ht] at haccounts hturn
    cases flow with
    | ok turn =>
      cases turn with
      | assistantText text => exact .finished _
      | empty => trivial
      | toolCalls calls =>
        have hctx : h₃.ctx = h₂.ctx := by
          rcases hturn with ⟨f, h', calls, heq, g, -⟩ | ⟨t, h', rows, req, resp, heq, g, -⟩ <;>
            (obtain rfl := (Prod.mk.inj heq).2; exact g.ctx)
        have hdispatch := dispatchAll_accounted h₃ calls
        rw [hctx, gd.ctx] at hdispatch
        exact hdispatch.imp_next fun _ _ => trivial
    | err e =>
      cases e
      case timeout => exact .finished _
      all_goals exact .failed _
    | panicked p => exact .panicked huses haccounts
    | suspended => exact .provider huses haccounts

/-- **The chat loop ends** in the iterations that are left, and the pass after them. -/
theorem chatLoop_accounted (passes : Nat) (hw : h.Within)
    (hmax : h.ctx.maxIterations.toNat < 2 ^ 32 - 1)
    (hpasses : h.ctx.maxIterations.toNat < passes + h.iteration.toNat) :
    Accounted h.ctx (chatLoop passes h).1 := by
  refine chatLoop_induct (Q := fun r _ => Accounted h.ctx r) (P := fun k h' => h'.Within ∧
    h'.ctx = h.ctx ∧ h.ctx.maxIterations.toNat < k + h'.iteration.toNat) ?_ ?_ passes h
    ⟨hw, rfl, hpasses⟩
  · rintro h' ⟨hw', hctx, hleft⟩
    have hle := hw'.iteration
    rw [hctx] at hle
    exact absurd hle (by omega)
  · rintro k h' ⟨hw', hctx, hleft⟩
    rw [← hctx] at hmax hleft ⊢
    have hbody := chatLoopBody_accounted h'
    rcases chatLoopBody_within h' hw' hmax with ⟨h'', heq, hctx', hw'', hi⟩ |
      ⟨r, h'', heq, -⟩ <;> rw [heq] at hbody ⊢
    · exact ⟨hw'', hctx', by omega⟩
    · exact hbody

/-! ### The reflection loop -/

namespace ReflectionExecutor

theorem phase_accounted {provider : LlmProvider σ} (huses : h.ctx.Uses provider)
    (dflt current : String) :
    (phase h provider dflt current).2.Meets (fun h' => h'.ctx = h.ctx)
      fun r _ => Accounted h.ctx r := by
  have haccounts := oneLlmTurnWith_accounts h provider
  obtain ⟨rows, calls, g, -⟩ := phase_calls h provider dflt current
  have hctx := g.ctx
  unfold phase at hctx ⊢
  rcases ht : h.oneLlmTurnWith provider with ⟨flow, h₁⟩
  rw [ht] at haccounts hctx
  cases flow with
  | ok turn => cases turn <;> exact hctx
  | err e =>
    cases e
    case timeout => exact .finished _
    all_goals exact .failed _
  | panicked p => exact .panicked huses haccounts
  | suspended => exact .provider huses haccounts

theorem roundChecks_accounted (current : String) :
    (roundChecks h current).Meets (fun h' => h'.ctx = h.ctx) fun r _ => Accounted h.ctx r := by
  rcases roundChecks_cases h current with ⟨h', heq, g⟩ | ⟨r, h', heq, -⟩
  · rw [heq]
    exact g.ctx
  · unfold roundChecks at heq ⊢
    cases hcost : h.checkCostCap with
    | error e => exact .failed e
    | ok _ =>
      simp only [hcost] at heq ⊢
      split
      · exact .finished _
      · next h₁ hcap =>
        simp only [hcap] at heq
        split
        · exact .finished _
        · next h₂ hdeadline =>
          simp only [hdeadline] at heq
          cases heq

theorem rounds_accounted {judge : LlmProvider σ} (hjudge : h.ctx.Uses judge) (n : Nat)
    (current : String) : Accounted h.ctx (rounds judge n current h).1 := by
  have prompted : ∀ h' : LoopHarness σ, h'.ctx = h.ctx → ∀ content (provider : LlmProvider σ),
      h.ctx.Uses provider → ∀ dflt current,
      (phase (h'.pushUserMessage content) provider dflt current).2.Meets
        (fun h'' => h''.ctx = h.ctx) (fun r _ => Accounted h.ctx r) := by
    intro h' hctx content provider huses dflt current
    obtain ⟨m, g, -⟩ := h'.pushUserMessage_grows content
    have hctx' : (h'.pushUserMessage content).ctx = h.ctx := g.ctx.trans hctx
    rw [← hctx'] at huses ⊢
    exact phase_accounted _ huses dflt current
  refine rounds_induct (P := fun _ _ h' => h'.ctx = h.ctx) (R := fun _ _ h' => h'.ctx = h.ctx)
    (Q := fun r _ => Accounted h.ctx r) ?_ ?_ ?_ ?_ n current h rfl
  · intro k current h' _
    exact .finished _
  · intro k current h' hctx
    rw [← hctx]
    exact roundChecks_accounted h' current
  · intro k current h' hctx
    exact prompted h' hctx _ judge hjudge _ _
  · intro k current h' hctx
    obtain ⟨m, g, -⟩ := h'.pushUserMessage_grows revisePrompt
    have huses : h.ctx.Uses (h'.pushUserMessage revisePrompt).ctx.llm :=
      .inl (congrArg ExecutionContext.llm (g.ctx.trans hctx))
    exact prompted h' hctx revisePrompt _ huses current current

theorem execute_accounted (maxRevisions : UInt32) (ctx : ExecutionContext σ) (env : σ) :
    Accounted ctx (execute maxRevisions ctx env).1 := by
  obtain ⟨hctx, -, -⟩ := draft_harness ctx env
  unfold execute
  simp only
  generalize (LoopHarness.new ctx env).seedMessages.bumpIteration = h at hctx
  cases h.checkCostCap with
  | error e => exact .failed e
  | ok _ =>
    have huses : h.ctx.Uses ctx.llm := .inl (congrArg ExecutionContext.llm hctx.symm)
    have hdraft := phase_accounted h huses "" ""
    rw [hctx] at hdraft
    simp only
    rcases hphase : phase h ctx.llm "" "" with ⟨current, h' | ⟨r, h'⟩⟩ <;> rw [hphase] at hdraft
    · have hctx' : h'.ctx = ctx := hdraft
      have hjudge : h'.ctx.Uses (ctx.judgeLlm.getD ctx.llm) := by
        rw [hctx']
        exact ctx.uses_judge
      have hrounds := rounds_accounted h' hjudge maxRevisions.toNat current
      rw [hctx'] at hrounds
      exact hrounds
    · exact hdraft

end ReflectionExecutor

/-! ### Whole runs -/

namespace Runtime

/-- **Every run ends**, and its end is accounted for. -/
theorem runExecutor_accounted (kind : ExecutorKind) {passes : Nat} {ctx : ExecutionContext σ}
    (env : σ) (hmax : ctx.maxIterations.toNat < 2 ^ 32 - 1)
    (hpasses : ctx.maxIterations.toNat < passes) :
    Accounted ctx (runExecutor kind passes ctx env).1 := by
  have hchat : ∀ h : LoopHarness σ, h.ctx = ctx → h.iteration = 0 → h.world.effects = [] →
      Accounted ctx (chatLoop passes h.seedMessages).1 := by
    intro h hctx hi heffects
    obtain ⟨hw, hseeded, hzero⟩ := seeded_within hi heffects
    have hctx' : h.seedMessages.ctx = ctx := hseeded.trans hctx
    rw [← hctx'] at hmax hpasses ⊢
    exact chatLoop_accounted _ passes hw hmax (by omega)
  cases kind with
  | conversation => exact hchat (LoopHarness.new ctx env) rfl rfl rfl
  | react => exact hchat (LoopHarness.newWithPrefix ctx _ env) rfl rfl rfl
  | reflection maxRevisions => exact ReflectionExecutor.execute_accounted maxRevisions ctx env

end Runtime

end PgSynapse
