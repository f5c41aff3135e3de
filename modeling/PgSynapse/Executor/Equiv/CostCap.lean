import PgSynapse.Executor.Equiv.Ledger
import PgSynapse.Executor.Equiv.Spend

/-!
# The cost cap, and the usage an outcome carries

The cap is compared with the cost so far before each turn, and the cost so far is that of the replies
received (`LoopHarness.Ledger`).  So no model call is made once these cost the cap or more, and a run
that stops there reports what they cost (`spend_accounted`).
-/

namespace PgSynapse

open LoopHarness

variable {σ : Type}

/-- No model call of the log was made once the replies before it had cost the cap. -/
def UnderCap (ctx : ExecutionContext σ) (effects : List Effect) : Prop :=
  AtEvery (fun before e => ∀ req answer cap, e = .llm req answer → ctx.costCapUsd = some cap →
    totalCost (responses before) < cap) effects

/-- A run stopped by the cap reports the cap and the cost so far. -/
def CapReport (r : ExecResult) (h : LoopHarness σ) : Prop :=
  ∀ cap spent, r = .failed (.costCapExceeded cap spent) →
    h.ctx.costCapUsd = some cap ∧ spent = h.costSoFar ∧ cap ≤ spent

theorem capReport_of_ne {r : ExecResult} {h : LoopHarness σ}
    (hr : ∀ cap spent, r ≠ .failed (.costCapExceeded cap spent)) : CapReport r h :=
  fun cap spent heq => absurd heq (hr cap spent)

/-- The run stands in order and under its cap. -/
structure Frugal (ctx : ExecutionContext σ) (h : LoopHarness σ) : Prop where
  context : h.ctx = ctx
  ledger : h.Ledger
  under : UnderCap ctx h.world.effects

/-- How a run under a cap stops. -/
structure FrugalEnd (ctx : ExecutionContext σ) (r : ExecResult) (h : LoopHarness σ) : Prop extends
    Frugal ctx h where
  report : CapReport r h

namespace Frugal

variable {ctx : ExecutionContext σ} {h h' : LoopHarness σ} {points : List (LoopHarness σ)}

/-- A piece that makes no call. -/
theorem silent (hf : Frugal ctx h) (w : Writes h h' points)
    (hes : h'.world.effects = h.world.effects) : Frugal ctx h' :=
  ⟨w.ctx.trans hf.context, (w.ledger hf.ledger).1, by rw [hes]; exact hf.under⟩

/-- **A piece that makes one model call at most**, and then tool runs, where the cost so far is below
the cap. -/
theorem spends (hf : Frugal ctx h) (w : Writes h h' points) {calls : List Effect}
    (hes : h'.world.effects = h.world.effects ++ calls) (hcalls : PassCalls h.messages calls)
    (hbelow : ∀ cap, ctx.costCapUsd = some cap → h.costSoFar < cap) : Frugal ctx h' := by
  refine ⟨w.ctx.trans hf.context, (w.ledger hf.ledger).1, ?_⟩
  rw [hes]
  rcases hcalls with rfl | ⟨req, answer, runs, rfl, -, hruns⟩
  · rw [List.append_nil]
    exact hf.under
  · have hcall : UnderCap ctx (h.world.effects ++ [.llm req answer]) := by
      refine AtEvery.concat hf.under ?_
      intro _ _ cap _ hcap
      rw [← hf.ledger.cost]
      exact hbelow cap hcap
    have hall : UnderCap ctx (h.world.effects ++ [.llm req answer] ++ runs) := by
      refine AtEvery.append hcall ?_
      intro e he before req' answer' cap heq
      obtain ⟨tc, toolCtx, a, rfl⟩ := hruns e he
      simp at heq
    rwa [List.append_assoc] at hall

end Frugal

/-- The comparison with the cap. -/
theorem checkCostCap_ok {h : LoopHarness σ} (hcheck : h.checkCostCap = .ok ()) {cap : Rat}
    (hcap : h.ctx.costCapUsd = some cap) : h.costSoFar < cap := by
  unfold checkCostCap at hcheck
  rw [hcap] at hcheck
  simp only at hcheck
  split at hcheck
  · simp at hcheck
  · exact Rat.not_le.mp ‹_›

theorem checkCostCap_report {h : LoopHarness σ} {e : ExecutorError}
    (hcheck : h.checkCostCap = .error e) : CapReport (.failed e) h := by
  intro cap spent heq
  unfold checkCostCap at hcheck
  cases hcap : h.ctx.costCapUsd with
  | none => simp [hcap] at hcheck
  | some c =>
    rw [hcap] at hcheck
    simp only at hcheck
    split at hcheck
    · obtain rfl := Except.error.inj hcheck
      obtain ⟨rfl, rfl⟩ := ExecutorError.costCapExceeded.inj (ExecResult.failed.inj heq)
      exact ⟨rfl, rfl, ‹_›⟩
    · simp at hcheck

variable [Platform σ] (h : LoopHarness σ)

theorem finish_capReport (output : String) (status : OutcomeStatus) :
    CapReport (finish h output status).1 (finish h output status).2 :=
  capReport_of_ne (by simp [finish])

omit [Platform σ] in
theorem checkInterrupt_error {e : ExecutorError} {h' : LoopHarness σ}
    (hcheck : h.checkInterrupt = (.error e, h')) : ∃ reason, e = .cancelled reason := by
  unfold checkInterrupt at hcheck
  split at hcheck
  · simp at hcheck
  · simp only at hcheck
    split at hcheck
    · exact ⟨_, (Except.error.inj (Prod.mk.inj hcheck).1).symm⟩
    · simp at hcheck

omit [Platform σ] in
theorem checkIterationCap_error {e : ExecutorError} {h' : LoopHarness σ}
    (hcheck : h.checkIterationCap = (.error e, h')) : ∃ max, e = .maxIterationsReached max := by
  unfold checkIterationCap at hcheck
  split at hcheck
  · exact ⟨_, (Except.error.inj (Prod.mk.inj hcheck).1).symm⟩
  · simp at hcheck

/-- A turn does not report the cap. -/
theorem oneLlmTurnWith_error {provider : LlmProvider σ} {e : ExecutorError} {h' : LoopHarness σ}
    (hturn : h.oneLlmTurnWith provider = (.err e, h')) (cap spent : Rat) :
    e ≠ .costCapExceeded cap spent := by
  rintro rfl
  unfold oneLlmTurnWith at hturn
  rcases hi : h.checkInterrupt with ⟨e | _, h₁⟩ <;> rw [hi] at hturn
  · obtain ⟨reason, rfl⟩ := checkInterrupt_error h hi
    simp at hturn
  simp only at hturn
  generalize (h₁.recordEvent .llmRequest _).remainingBudget = budgeted at hturn
  obtain ⟨wait, h₂⟩ := budgeted
  simp only at hturn
  generalize h₂.awaitComplete provider _ wait = awaited at hturn
  obtain ⟨answer, h₃⟩ := awaited
  match answer with
  | .ready (.ok resp) =>
    simp only [acceptResponse] at hturn
    repeat' split at hturn
    all_goals simp at hturn
  | .ready (.error e) => simp at hturn
  | .panicked p => simp at hturn
  | .pending => cases wait <;> simp at hturn

/-! ### The chat loop -/

theorem chatLoopBody_capReport : (chatLoopBody h).Meets (fun _ => True) CapReport := by
  unfold chatLoopBody
  simp only
  rcases hi : h.bumpIteration.checkIterationCap with ⟨e | _, h₁⟩
  · obtain ⟨max, rfl⟩ := checkIterationCap_error _ hi
    exact finish_capReport _ _ _
  simp only
  cases hcost : h₁.checkCostCap with
  | error e => exact checkCostCap_report hcost
  | ok _ =>
    rcases h₁.checkDeadline with ⟨_ | _, h₂⟩
    · exact finish_capReport _ _ _
    simp only [oneLlmTurn]
    rcases ht : h₂.oneLlmTurnWith h₂.ctx.llm with ⟨flow, h₃⟩
    cases flow with
    | ok turn =>
      cases turn with
      | assistantText text => exact finish_capReport _ _ _
      | empty => trivial
      | toolCalls calls =>
        rcases dispatchAll_answers h₃ calls with ⟨h', rows, runs, hd, -⟩ |
          ⟨done, tc, rest, h', rows, runs, -, -, hd, -⟩ <;> simp only [hd]
        · trivial
        · exact capReport_of_ne (by simp)
    | err e =>
      have herror := oneLlmTurnWith_error h₂ ht
      cases e
      case timeout => exact finish_capReport _ _ _
      case costCapExceeded cap spent => exact absurd rfl (herror cap spent)
      all_goals exact capReport_of_ne (by simp)
    | panicked p => exact capReport_of_ne (by simp)
    | suspended => exact capReport_of_ne (by simp)

/-- Once the cap is reached a pass makes no call. -/
theorem chatLoopBody_over {cap : Rat} (hcap : h.ctx.costCapUsd = some cap)
    (hover : cap ≤ h.costSoFar) :
    (chatLoopBody h).harness.world.effects = h.world.effects := by
  unfold chatLoopBody
  simp only
  have gi := h.bumpIteration.checkIterationCap_grows.effects
  rcases hi : h.bumpIteration.checkIterationCap with ⟨e | _, h₁⟩ <;> rw [hi] at gi
  · obtain ⟨max, rfl⟩ := checkIterationCap_error _ hi
    exact gi.trans (List.append_nil _)
  · obtain ⟨rfl, -⟩ := checkIterationCap_passed _ hi
    have hcheck : h.bumpIteration.checkCostCap = .error (.costCapExceeded cap h.costSoFar) := by
      simp [checkCostCap, bumpIteration, hcap, hover]
    simp only [hcheck]
    rfl

variable {h} {ctx : ExecutionContext σ}

/-- **One pass of the chat loop** under the cap. -/
theorem chatLoopBody_frugal (hf : Frugal ctx h) :
    (chatLoopBody h).Meets (Frugal ctx) (FrugalEnd ctx) := by
  have w := writes_composes.chatLoopBody h
  have hreport := chatLoopBody_capReport h
  have hharness : Frugal ctx (chatLoopBody h).harness := by
    by_cases hover : ∃ cap, h.ctx.costCapUsd = some cap ∧ cap ≤ h.costSoFar
    · obtain ⟨cap, hcap, hle⟩ := hover
      exact hf.silent w (chatLoopBody_over h hcap hle)
    · have hbelow : ∀ cap, ctx.costCapUsd = some cap → h.costSoFar < cap := by
        intro cap hcap
        rw [← hf.context] at hcap
        exact Rat.not_le.mp fun hle => hover ⟨cap, hcap, hle⟩
      rcases chatLoopBody_cases h with ⟨h', block, req, resp, runs, heq, g, hreq, hruns, -⟩ |
        ⟨r, h', rows, calls, heq, s, hcalls⟩ <;> rw [heq] at w ⊢
      · exact hf.spends w g.effects (.inr ⟨req, _, runs, rfl, hreq, hruns⟩) hbelow
      · exact hf.spends w s.grows.effects hcalls hbelow
  cases hbody : chatLoopBody h with
  | next h' =>
    rw [hbody] at hharness
    exact hharness
  | stop r h' =>
    rw [hbody] at hharness hreport
    exact ⟨hharness, hreport⟩

theorem chatLoop_frugal (passes : Nat) (hf : Frugal ctx h) :
    FrugalEnd ctx (chatLoop passes h).1 (chatLoop passes h).2 :=
  chatLoop_induct (P := fun _ => Frugal ctx) (fun _ hf => ⟨hf, capReport_of_ne (by simp)⟩)
    (fun _ _ hf => chatLoopBody_frugal hf) passes h hf

/-! ### The reflection loop -/

namespace ReflectionExecutor

/-- The run stands under its cap, and the cap is not reached. -/
structure MaySpend (ctx : ExecutionContext σ) (h : LoopHarness σ) : Prop extends Frugal ctx h where
  below : ∀ cap, ctx.costCapUsd = some cap → h.costSoFar < cap

omit [Platform σ] in
/-- A piece that makes no call leaves the cost as it was. -/
theorem MaySpend.silent {h' : LoopHarness σ} {points : List (LoopHarness σ)} (hm : MaySpend ctx h)
    (w : Writes h h' points) (hes : h'.world.effects = h.world.effects) : MaySpend ctx h' := by
  have hf' := hm.toFrugal.silent w hes
  refine ⟨hf', ?_⟩
  rw [hf'.ledger.cost, hes, ← hm.ledger.cost]
  exact hm.below

omit [Platform σ] in
theorem maySpend_of_check (hf : Frugal ctx h) (hcheck : h.checkCostCap = .ok ()) :
    MaySpend ctx h :=
  ⟨hf, fun _ hcap => checkCostCap_ok hcheck (by rw [hf.context, hcap])⟩

theorem phase_capReport (provider : LlmProvider σ) (dflt current : String) :
    (phase h provider dflt current).2.Meets (fun _ => True) CapReport := by
  unfold phase
  rcases ht : h.oneLlmTurnWith provider with ⟨flow, h₁⟩
  cases flow with
  | ok turn => cases turn <;> trivial
  | err e =>
    have herror := oneLlmTurnWith_error h ht
    cases e
    case timeout => exact finish_capReport _ _ _
    case costCapExceeded cap spent => exact absurd rfl (herror cap spent)
    all_goals exact capReport_of_ne (by simp)
  | panicked p => exact capReport_of_ne (by simp)
  | suspended => exact capReport_of_ne (by simp)

/-- A phase makes one call. -/
theorem phase_frugal (hm : MaySpend ctx h) (provider : LlmProvider σ) (dflt current : String) :
    (phase h provider dflt current).2.Meets (Frugal ctx) (FrugalEnd ctx) := by
  have w := writes_composes.phase h provider dflt current
  have hreport := phase_capReport (h := h) provider dflt current
  rcases phase_cases h provider dflt current with ⟨text, h', rows, req, resp, heq, g, hreq, -⟩ |
    ⟨text, r, h', calls, heq, s, hcalls⟩ <;> rw [heq] at w hreport ⊢
  · exact hm.spends w g.effects (.inr ⟨req, _, [], rfl, hreq, by simp⟩) hm.below
  · exact ⟨hm.spends w s.grows.effects hcalls hm.below, hreport⟩

/-- The checks before a phase let it spend. -/
theorem roundChecks_frugal (hf : Frugal ctx h) (current : String) :
    (roundChecks h current).Meets (MaySpend ctx) (FrugalEnd ctx) := by
  have w := writes_composes.roundChecks h current
  cases hcost : h.checkCostCap with
  | error e =>
    have hstop : roundChecks h current = .stop (.failed e) h := by simp [roundChecks, hcost]
    rw [hstop]
    exact ⟨hf, checkCostCap_report hcost⟩
  | ok _ =>
    have hm := maySpend_of_check hf hcost
    rcases roundChecks_rests h current with ⟨h', heq, r⟩ | ⟨r, h', heq, hrests, -⟩ <;>
      rw [heq] at w
    · rw [heq]
      exact hm.silent w (by simpa using r.grows.effects)
    · have hf' := hf.silent w (by simpa using hrests.grows.effects)
      -- past the cost cap the two other limits end the run with an outcome
      have hreport : CapReport r h' := by
        unfold roundChecks at heq
        rw [hcost] at heq
        simp only at heq
        rcases hi : h.bumpIteration.checkIterationCap with ⟨_ | _, h₁⟩ <;> rw [hi] at heq
        · obtain ⟨rfl, rfl⟩ := LoopStep.stop.inj heq
          exact finish_capReport _ _ _
        · simp only at heq
          rcases hd : h₁.checkDeadline with ⟨_ | _, h₂⟩ <;> rw [hd] at heq
          · obtain ⟨rfl, rfl⟩ := LoopStep.stop.inj heq
            exact finish_capReport _ _ _
          · simp at heq
      rw [heq]
      exact ⟨hf', hreport⟩

theorem finish_frugal (hf : Frugal ctx h) (output : String) (status : OutcomeStatus) :
    FrugalEnd ctx (finish h output status).1 (finish h output status).2 :=
  ⟨hf.silent h.elapsed_writes ((finish_rests h output status).grows.effects.trans (by simp)),
    finish_capReport h output status⟩

theorem prompt_frugal (hm : MaySpend ctx h) (content : String) :
    MaySpend ctx (h.pushUserMessage content) := by
  obtain ⟨m, g, -⟩ := h.pushUserMessage_grows content
  exact hm.silent (h.pushUserMessage_writes content) (by simpa using g.effects)

theorem rounds_frugal (judge : LlmProvider σ) (n : Nat) (current : String) (hf : Frugal ctx h) :
    FrugalEnd ctx (rounds judge n current h).1 (rounds judge n current h).2 := by
  refine rounds_induct (P := fun _ _ => Frugal ctx) (R := fun _ _ => MaySpend ctx) ?_ ?_ ?_ ?_ n
    current h hf
  · intro _ current h hf
    exact finish_frugal hf current .completed
  · intro _ current h hf
    exact roundChecks_frugal hf current
  · intro _ current h hm
    exact phase_frugal (prompt_frugal hm _) judge "" current
  · intro _ current h hm
    exact phase_frugal (prompt_frugal hm _) _ current current

theorem execute_frugal (maxRevisions : UInt32) (env : σ)
    (hf : Frugal ctx (LoopHarness.new ctx env).seedMessages) :
    FrugalEnd ctx (execute maxRevisions ctx env).1 (execute maxRevisions ctx env).2 := by
  have hbump := (bumpIteration_grows (LoopHarness.new ctx env).seedMessages).effects
  rw [List.append_nil] at hbump
  have hf' := hf.silent (bumpIteration_writes _) hbump
  unfold execute
  simp only
  generalize (LoopHarness.new ctx env).seedMessages.bumpIteration = h at hf'
  cases hcost : h.checkCostCap with
  | error e => exact ⟨hf', checkCostCap_report hcost⟩
  | ok _ =>
    have hdraft := phase_frugal (maySpend_of_check hf' hcost) ctx.llm "" ""
    simp only
    rcases hphase : phase h ctx.llm "" "" with ⟨current, h₁ | ⟨r, h₁⟩⟩ <;> rw [hphase] at hdraft
    · exact rounds_frugal _ _ _ hdraft
    · exact hdraft

end ReflectionExecutor

/-! ### Whole runs -/

namespace Runtime

variable (kind : ExecutorKind) (passes : Nat) (ctx : ExecutionContext σ) (env : σ)

theorem runExecutor_frugal :
    FrugalEnd ctx (runExecutor kind passes ctx env).1 (runExecutor kind passes ctx env).2 := by
  have hstart : Frugal ctx (startHarness kind ctx env) := by
    refine ⟨startHarness_ctx kind ctx env, startHarness_ledger kind ctx env, ?_⟩
    rw [startHarness_effects]
    exact AtEvery.nil
  have w := (startHarness kind ctx env).seedMessages_writes
  have hes : (startHarness kind ctx env).seedMessages.world.effects =
      (startHarness kind ctx env).world.effects := by
    obtain ⟨seed, g, -⟩ := (startHarness kind ctx env).seedMessages_grows
    simpa using g.effects
  have hseed := hstart.silent w hes
  cases kind with
  | conversation => exact chatLoop_frugal passes hseed
  | react => exact chatLoop_frugal passes hseed
  | reflection maxRevisions => exact ReflectionExecutor.execute_frugal maxRevisions env hseed

omit [Platform σ] in
/-- The outcome carries the usage of the replies: the tokens saturate, and a total cost that is not
positive is reported as none. -/
structure Accounts (o : ExecutorOutcome) (replies : List CompletionResponse) : Prop where
  tokensIn : o.tokensIn = totalTokens Usage.tokensIn replies
  tokensOut : o.tokensOut = totalTokens Usage.tokensOut replies
  costUsd : o.costUsd = if totalCost replies > 0 then some (totalCost replies) else none

theorem accounts_of_recorded {o : ExecutorOutcome}
    (hrec : (runExecutor kind passes ctx env).2.Recorded o) :
    Accounts o (responses (runExecutor kind passes ctx env).2.world.effects) := by
  have hmetered := runExecutor_metered kind passes ctx env
  have hcost := (runExecutor_ledger kind passes ctx env).1.cost
  refine ⟨hrec.tokensIn.trans hmetered.tokensIn, hrec.tokensOut.trans hmetered.tokensOut, ?_⟩
  rw [hrec.costUsd, reportedCost, hcost]

/-- **Spend**: no model call of a run is made once the replies before it have cost the cap or more; a
run that the cap stops reports the cap and what the replies cost; and an outcome, whether the
executor or the backstop returned it, carries the usage of every reply, from whichever provider. -/
theorem spend_accounted :
    let run := runExecutor kind passes ctx env
    (∀ before req answer after cap, run.2.world.effects = before ++ .llm req answer :: after →
      ctx.costCapUsd = some cap → totalCost (responses before) < cap) ∧
    (∀ cap spent, run.1 = .failed (.costCapExceeded cap spent) →
      ctx.costCapUsd = some cap ∧ spent = totalCost (responses run.2.world.effects) ∧
        cap ≤ spent) ∧
    (∀ o, run.1 = .finished o → Accounts o (responses run.2.world.effects)) ∧
    ∀ timeoutMs maxTimeout o, executeInner kind passes ctx timeoutMs maxTimeout env = some (.ok o) →
      Accounts o (responses
        (runExecutor kind passes (withBudget ctx timeoutMs maxTimeout) env).2.world.effects) := by
  have hend := runExecutor_frugal kind passes ctx env
  refine ⟨?_, ?_, ?_, ?_⟩
  · intro before req answer after cap heq hcap
    exact hend.under before _ after heq req answer cap rfl hcap
  · intro cap spent heq
    obtain ⟨hcap, hspent, hle⟩ := hend.report cap spent heq
    rw [hend.context] at hcap
    exact ⟨hcap, hspent.trans hend.ledger.cost, hle⟩
  · intro o ho
    exact accounts_of_recorded kind passes ctx env (runExecutor_recorded kind passes ctx env ho)
  · intro timeoutMs maxTimeout o ho
    exact accounts_of_recorded kind passes _ env (executeInner_recorded kind passes ctx env ho)

/-- A reply that is paid for with a rebate, at a negative price. -/
def rebate : CompletionResponse := ⟨some "hi", [], "stop", ⟨1, 1, some (-1)⟩⟩

/-- The outcome of a run that cost less than nothing says that it has no cost. -/
theorem rebate_not_reported :
    ∃ o, executeInner .conversation 1 (StillWorld.context rebate 8) 0 none ⟨⟩ = some (.ok o) ∧
      totalCost (responses
        (runExecutor .conversation 1 (StillWorld.context rebate 8) ⟨⟩).2.world.effects) = -1 ∧
      o.costUsd ≠ some (-1) ∧ o.costUsd.getD 0 ≠ -1 := by
  have hnone : ∃ o, executeInner .conversation 1 (StillWorld.context rebate 8) 0 none ⟨⟩ =
      some (.ok o) ∧ o.costUsd = none := ⟨_, rfl, by decide +kernel⟩
  obtain ⟨o, ho, hcost⟩ := hnone
  refine ⟨o, ho, by decide +kernel, ?_, ?_⟩ <;> rw [hcost] <;> decide +kernel

end Runtime

end PgSynapse
