import PgSynapse.Executor.Suspension
import PgSynapse.Runtime.Equiv.ExecuteInner

/-!
# Runs put together from pieces

What an executor does between two points of a run is often said by a relation of the harness before,
the harness after, and the suspension points on the way.  When such a relation composes and holds of
every piece the executors are made of, it holds of every run (`Composes.run`).
-/

namespace PgSynapse

open LoopHarness

variable {σ : Type} [Platform σ]

omit [Platform σ] in
/-- The harness a pass leaves. -/
@[simp] def LoopStep.harness : LoopStep σ → LoopHarness σ
  | .next h => h
  | .stop _ h => h

/-- `R` composes, and holds of the pieces of the executors' loops. -/
structure Composes (R : LoopHarness σ → LoopHarness σ → List (LoopHarness σ) → Prop) : Prop where
  refl : ∀ h, R h h []
  trans : ∀ {h h₁ h₂ points points'}, R h h₁ points → R h₁ h₂ points' → R h h₂ (points ++ points')
  seed : ∀ h : LoopHarness σ, R h h.seedMessages []
  bump : ∀ h : LoopHarness σ, R h h.bumpIteration []
  iterationCap : ∀ h : LoopHarness σ, R h h.checkIterationCap.2 []
  deadline : ∀ h : LoopHarness σ, R h h.checkDeadline.2 []
  turn : ∀ (h : LoopHarness σ) provider, R h (h.oneLlmTurnWith provider).2 (h.turnAwaits provider)
  dispatch : ∀ (h : LoopHarness σ) tc, R h (h.dispatchToolCall tc).2 (h.toolAwaits tc)
  toolError : ∀ (h : LoopHarness σ) tc err, R h (h.pushToolError tc err) []
  nudge : ∀ h : LoopHarness σ, R h h.pushEmptyTurnNudge []
  prompt : ∀ (h : LoopHarness σ) content, R h (h.pushUserMessage content) []
  finish : ∀ (h : LoopHarness σ) output status, R h (finish h output status).2 []

namespace Composes

variable {R : LoopHarness σ → LoopHarness σ → List (LoopHarness σ) → Prop} (hR : Composes R)

include hR

/-- A piece without suspension points before another. -/
theorem after {h h₁ h₂ : LoopHarness σ} {points : List (LoopHarness σ)} (r' : R h₁ h₂ points)
    (r : R h h₁ []) : R h h₂ points :=
  hR.trans r r'

/-- A piece without suspension points after another. -/
theorem before {h h₁ h₂ : LoopHarness σ} {points : List (LoopHarness σ)} (r : R h h₁ points)
    (r' : R h₁ h₂ []) : R h h₂ points := by
  simpa using hR.trans r r'

/-! ### The chat loop -/

theorem dispatchAll (calls : List ToolCall) (h : LoopHarness σ) :
    R h (dispatchAll calls h).harness (dispatchAwaits calls h) := by
  induction calls generalizing h with
  | nil => exact hR.refl h
  | cons tc rest ih =>
    have r := hR.dispatch h tc
    rw [PgSynapse.dispatchAll, dispatchAwaits]
    rcases hd : h.dispatchToolCall tc with ⟨flow, h₁⟩
    rw [hd] at r
    -- a call that ends the loop has no suspension point after its own
    have rlast : R h h₁ (h.toolAwaits tc ++ []) := by simpa using r
    cases flow with
    | ok msg => exact hR.trans r (ih h₁)
    | err e =>
      cases e
      case tool te => exact hR.trans r (hR.after (ih _) (hR.toolError h₁ tc te))
      all_goals exact rlast
    | panicked p => exact rlast
    | suspended => exact rlast

theorem chatLoopBody (h : LoopHarness σ) : R h (chatLoopBody h).harness (chatBodyAwaits h) := by
  unfold PgSynapse.chatLoopBody chatBodyAwaits
  simp only
  -- the checks before the turn have no suspension point
  have ri := hR.before (hR.bump h) (hR.iterationCap _)
  rcases hi : h.bumpIteration.checkIterationCap with ⟨_ | _, h₁⟩ <;> rw [hi] at ri
  case error e =>
    cases e
    case maxIterationsReached => exact hR.before ri (hR.finish _ _ _)
    all_goals exact ri
  simp only
  cases h₁.checkCostCap with
  | error e => exact ri
  | ok _ =>
    have rd := hR.before ri (hR.deadline h₁)
    rcases hd : h₁.checkDeadline with ⟨_ | _, h₂⟩ <;> rw [hd] at rd
    · exact hR.before rd (hR.finish _ _ _)
    simp only
    have rt := hR.after (hR.turn h₂ h₂.ctx.llm) rd
    rw [oneLlmTurn]
    rcases ht : h₂.oneLlmTurnWith h₂.ctx.llm with ⟨flow, h₃⟩
    rw [ht] at rt
    -- only a turn with calls has suspension points after its own
    have rnone : R h h₃ (h₂.turnAwaits h₂.ctx.llm ++ []) := by simpa using rt
    cases flow with
    | ok turn =>
      cases turn with
      | toolCalls calls => exact hR.trans rt (hR.dispatchAll calls h₃)
      | assistantText text => exact hR.before rnone (hR.finish _ _ _)
      | empty => exact hR.before rnone (hR.nudge h₃)
    | err e =>
      cases e
      case timeout => exact hR.before rnone (hR.finish _ _ _)
      all_goals exact rnone
    | panicked p => exact rnone
    | suspended => exact rnone

theorem chatLoop (passes : Nat) (h : LoopHarness σ) :
    R h (chatLoop passes h).2 (chatAwaits passes h) := by
  induction passes generalizing h with
  | zero => exact hR.refl h
  | succ passes ih =>
    have r := hR.chatLoopBody h
    rw [PgSynapse.chatLoop, chatAwaits]
    cases hbody : PgSynapse.chatLoopBody h with
    | next h' =>
      rw [hbody] at r
      exact hR.trans r (ih h')
    | stop res h' =>
      rw [hbody] at r
      simpa using r

/-! ### The reflection loop -/

theorem phase (h : LoopHarness σ) (provider : LlmProvider σ) (dflt current : String) :
    R h (ReflectionExecutor.phase h provider dflt current).2.harness (h.turnAwaits provider) := by
  have r := hR.turn h provider
  unfold ReflectionExecutor.phase
  rcases ht : h.oneLlmTurnWith provider with ⟨flow, h₁⟩
  rw [ht] at r
  cases flow with
  | ok turn => cases turn <;> exact r
  | err e =>
    cases e
    case timeout => exact hR.before r (hR.finish _ _ _)
    all_goals exact r
  | panicked p => exact r
  | suspended => exact r

theorem roundChecks (h : LoopHarness σ) (current : String) :
    R h (ReflectionExecutor.roundChecks h current).harness [] := by
  unfold ReflectionExecutor.roundChecks
  cases h.checkCostCap with
  | error e => exact hR.refl h
  | ok _ =>
    simp only
    have ri := hR.before (hR.bump h) (hR.iterationCap _)
    rcases hi : h.bumpIteration.checkIterationCap with ⟨_ | _, h₁⟩ <;> rw [hi] at ri
    · exact hR.before ri (hR.finish _ _ _)
    simp only
    have rd := hR.before ri (hR.deadline h₁)
    rcases hd : h₁.checkDeadline with ⟨_ | _, h₂⟩ <;> rw [hd] at rd
    · exact hR.before rd (hR.finish _ _ _)
    · exact rd

theorem rounds (judge : LlmProvider σ) (n : Nat) (current : String) (h : LoopHarness σ) :
    R h (ReflectionExecutor.rounds judge n current h).2
      (ReflectionExecutor.roundsAwaits judge n current h) := by
  induction n generalizing current h with
  | zero => exact hR.finish h current .completed
  | succ n ih =>
    rw [ReflectionExecutor.rounds, ReflectionExecutor.roundsAwaits]
    have r₁ := hR.roundChecks h current
    cases h₁eq : ReflectionExecutor.roundChecks h current with
    | stop res h₁ =>
      rw [h₁eq] at r₁
      exact r₁
    | next h₁ =>
      rw [h₁eq] at r₁
      simp only
      -- the critique
      have r₂ := hR.before r₁ (hR.prompt h₁ (ReflectionExecutor.critiquePrompt h₁.ctx))
      generalize h₁.pushUserMessage (ReflectionExecutor.critiquePrompt h₁.ctx) = h₂ at r₂
      have r₃ := hR.after (hR.phase h₂ judge "" current) r₂
      rcases hphase : ReflectionExecutor.phase h₂ judge "" current with
        ⟨critique, h₃ | ⟨res, h₃⟩⟩ <;> rw [hphase] at r₃
      case stop => simpa using r₃
      simp only
      by_cases hacc : Text.contains critique ReflectionExecutor.acceptToken
      · simp only [hacc, if_true, List.append_nil]
        exact hR.before r₃ (hR.finish _ _ _)
      simp only [hacc, Bool.false_eq_true, if_false]
      have r₄ := hR.before r₃ (hR.roundChecks h₃ current)
      cases h₄eq : ReflectionExecutor.roundChecks h₃ current with
      | stop res h₄ =>
        rw [h₄eq] at r₄
        simpa using r₄
      | next h₄ =>
        rw [h₄eq] at r₄
        simp only
        -- the revision, and the rounds after it
        have r₅ := hR.before r₄ (hR.prompt h₄ ReflectionExecutor.revisePrompt)
        generalize h₄.pushUserMessage ReflectionExecutor.revisePrompt = h₅ at r₅
        have r₆ := hR.phase h₅ h₅.ctx.llm current current
        rcases hphase' : ReflectionExecutor.phase h₅ h₅.ctx.llm current current with
          ⟨revised, h₆ | ⟨res, h₆⟩⟩ <;> rw [hphase'] at r₆
        case stop => simpa using hR.trans r₅ r₆
        exact hR.trans r₅ (hR.trans r₆ (ih revised h₆))

theorem reflection (maxRevisions : UInt32) (ctx : ExecutionContext σ) (env : σ) :
    R (LoopHarness.new ctx env).seedMessages (ReflectionExecutor.execute maxRevisions ctx env).2
      (ReflectionExecutor.awaits maxRevisions ctx env) := by
  have r := hR.bump (LoopHarness.new ctx env).seedMessages
  unfold ReflectionExecutor.execute ReflectionExecutor.awaits
  simp only
  generalize (LoopHarness.new ctx env).seedMessages.bumpIteration = h₁ at r
  cases h₁.checkCostCap with
  | error e => exact r
  | ok _ =>
    simp only
    have r₁ := hR.after (hR.phase h₁ ctx.llm "" "") r
    rcases hphase : ReflectionExecutor.phase h₁ ctx.llm "" "" with ⟨current, h₂ | ⟨res, h₂⟩⟩ <;>
      rw [hphase] at r₁
    case stop => simpa using r₁
    exact hR.trans r₁ (hR.rounds (ctx.judgeLlm.getD ctx.llm) maxRevisions.toNat current h₂)

/-! ### Whole runs -/

/-- **Every run** is put together from the pieces. -/
theorem run (kind : ExecutorKind) (passes : Nat) (ctx : ExecutionContext σ) (env : σ) :
    R (Runtime.startHarness kind ctx env) (Runtime.runExecutor kind passes ctx env).2
      (Runtime.suspensionPoints kind passes ctx env) := by
  have rseed := hR.seed (Runtime.startHarness kind ctx env)
  cases kind with
  | conversation => exact hR.after (hR.chatLoop passes _) rseed
  | react => exact hR.after (hR.chatLoop passes _) rseed
  | reflection maxRevisions => exact hR.after (hR.reflection maxRevisions ctx env) rseed

end Composes

end PgSynapse
