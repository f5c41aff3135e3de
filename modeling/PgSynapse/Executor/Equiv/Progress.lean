import PgSynapse.Executor.Equiv.Pieces
import PgSynapse.Executor.Equiv.Suspension

/-!
# The progress sink over whole runs

At every suspension point of a run the progress sink holds a copy of what the harness recorded, so a
run that the backstop cuts there returns its transcript, its events, its calls and its usage
(`progress_mirrors_harness`).
-/

namespace PgSynapse

open LoopHarness

variable {σ : Type} [Platform σ]

/-- What a piece follows composes, and every piece follows. -/
theorem follows_composes : Composes (Follows (σ := σ)) where
  refl := .refl
  trans := .trans
  seed h := h.seedMessages_follows
  bump := bumpIteration_follows
  iterationCap := checkIterationCap_follows
  deadline h := h.checkDeadline_follows
  turn h := h.oneLlmTurnWith_follows
  dispatch h := h.dispatchToolCall_follows
  toolError h := h.pushToolError_follows
  nudge h := h.pushEmptyTurnNudge_follows
  prompt h := h.pushUserMessage_follows
  finish h _ _ := h.elapsed_follows

/-! ### Whole runs -/

namespace Runtime

variable (kind : ExecutorKind) (passes : Nat) (ctx : ExecutionContext σ) (env : σ)

theorem runExecutor_follows :
    Follows (startHarness kind ctx env) (runExecutor kind passes ctx env).2
      (suspensionPoints kind passes ctx env) :=
  follows_composes.run kind passes ctx env

/-- A run starts with an empty harness and an empty sink. -/
theorem startHarness_mirrored : (startHarness kind ctx env).Mirrored := by
  cases kind <;> exact ⟨rfl, rfl, rfl, rfl, rfl, by simp [startHarness, LoopHarness.new,
    newWithPrefix, reportedCost, ExecutorOutcome.default]⟩

theorem startHarness_metered : (startHarness kind ctx env).Metered := by
  cases kind <;> exact ⟨rfl, rfl⟩

theorem startHarness_effects : (startHarness kind ctx env).world.effects = [] := by
  cases kind <;> rfl

theorem startHarness_ctx : (startHarness kind ctx env).ctx = ctx := by
  cases kind <;> rfl

/-- **The counters at the end of a run** hold the usage of every reply of the run. -/
theorem runExecutor_metered : (runExecutor kind passes ctx env).2.Metered :=
  (runExecutor_follows kind passes ctx env).metered (startHarness_metered kind ctx env)

theorem runExecutor_mirrored (hp : ctx.progress = true) :
    (runExecutor kind passes ctx env).2.Mirrored ∧
      ∀ p ∈ suspensionPoints kind passes ctx env, p.Mirrored :=
  (runExecutor_follows kind passes ctx env).mirrored (by rw [startHarness_ctx, hp])
    (startHarness_mirrored kind ctx env)

/-- **No await is missed**: the suspension points are those before the first outside call of the
run, before the second, and so on to the last. -/
theorem suspensionPoints_count :
    (suspensionPoints kind passes ctx env).map (fun p => p.world.effects.length) =
      List.range (runExecutor kind passes ctx env).2.world.effects.length := by
  obtain ⟨n, hlen, hcount⟩ := (runExecutor_follows kind passes ctx env).counted
  rw [startHarness_effects, List.length_nil, Nat.zero_add] at hlen
  rw [hcount, hlen, startHarness_effects, List.length_nil, List.range_eq_range']

/-! ### The backstop -/

omit [Platform σ] in
/-- A run that is cut where its sink is up to date returns what it had recorded. -/
theorem elapsedOutcome_recorded {ctx : ExecutionContext σ} {h : LoopHarness σ}
    (hp : ctx.progress = true) (hm : h.Mirrored) : h.Recorded (elapsedOutcome ctx h) := by
  unfold elapsedOutcome
  rw [if_pos hp]
  exact ⟨hm.messages, hm.events, hm.toolCalls, hm.tokensIn, hm.tokensOut, hm.costUsd⟩

/-- What `execute_inner` returns for a run that waits for ever. -/
theorem executeInner_suspended {timeoutMs : Nat} {maxTimeout : Option Nat} {h : LoopHarness σ}
    (hrun : runExecutor kind passes (withBudget ctx timeoutMs maxTimeout) env = (.suspended, h))
    (hb : (withBudget ctx timeoutMs maxTimeout).timeout ≠ 0) :
    executeInner kind passes ctx timeoutMs maxTimeout env =
      some (.ok (elapsedOutcome (withBudget ctx timeoutMs maxTimeout) h)) := by
  unfold executeInner elapsedOutcome
  simp only [hrun, if_neg hb]

/-- **The progress mirror**: with a sink, the sink is a copy of the harness at every point where the
run can be suspended, and these points are one for each outside call.  A run with a budget has a
sink, so wherever the backstop cuts it, and in particular when it waits for ever, the outcome
carries what the harness had recorded. -/
theorem progress_mirrors_harness (timeoutMs : Nat) (maxTimeout : Option Nat) :
    (ctx.progress = true → ∀ p ∈ suspensionPoints kind passes ctx env, p.Mirrored) ∧
    (suspensionPoints kind passes ctx env).map (fun p => p.world.effects.length) =
      List.range (runExecutor kind passes ctx env).2.world.effects.length ∧
    ((withBudget ctx timeoutMs maxTimeout).timeout ≠ 0 →
      (withBudget ctx timeoutMs maxTimeout).progress = true ∧
      (∀ p ∈ suspensionPoints kind passes (withBudget ctx timeoutMs maxTimeout) env,
        p.Recorded (elapsedOutcome (withBudget ctx timeoutMs maxTimeout) p)) ∧
      ∀ h, runExecutor kind passes (withBudget ctx timeoutMs maxTimeout) env = (.suspended, h) →
        executeInner kind passes ctx timeoutMs maxTimeout env =
          some (.ok (elapsedOutcome (withBudget ctx timeoutMs maxTimeout) h)) ∧
        h.Recorded (elapsedOutcome (withBudget ctx timeoutMs maxTimeout) h)) := by
  refine ⟨fun hp => (runExecutor_mirrored kind passes ctx env hp).2,
    suspensionPoints_count kind passes ctx env, ?_⟩
  intro hb
  have hp := withBudget_progress ctx timeoutMs maxTimeout hb
  obtain ⟨hend, hpoints⟩ :=
    runExecutor_mirrored kind passes (withBudget ctx timeoutMs maxTimeout) env hp
  refine ⟨hp, fun p hmem => elapsedOutcome_recorded hp (hpoints p hmem), ?_⟩
  intro h hrun
  rw [hrun] at hend
  exact ⟨executeInner_suspended kind passes ctx env hrun hb, elapsedOutcome_recorded hp hend⟩

end Runtime

end PgSynapse
