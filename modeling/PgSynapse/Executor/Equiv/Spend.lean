import PgSynapse.Executor.Equiv.Progress

/-!
# The usage an outcome reports

An outcome leaves an executor through `finalize` only, so it carries what the harness recorded
(`runExecutor_recorded`), and the token counters hold the usage of every reply of the run
(`runExecutor_metered`).  The outcome of the backstop takes the same from the progress sink.
-/

namespace PgSynapse

open LoopHarness

variable {σ : Type}

/-- An outcome was made by `finalize` of a harness that stands as the one that is left. -/
def Finalized [Platform σ] (r : ExecResult) (h : LoopHarness σ) : Prop :=
  ∀ o, r = .finished o → ∃ (h₀ : LoopHarness σ) (output : String) (status : OutcomeStatus),
    h₀.finalize output status = (o, h)

variable [Platform σ] (h : LoopHarness σ)

/-- A run that ends without an outcome made none. -/
theorem finalized_of_ne {r : ExecResult} (hr : ∀ o, r ≠ .finished o) : Finalized r h :=
  fun o ho => absurd ho (hr o)

theorem finish_finalized (output : String) (status : OutcomeStatus) :
    Finalized (finish h output status).1 (finish h output status).2 := by
  intro o ho
  obtain rfl : (h.finalize output status).1 = o := by simpa [finish] using ho
  exact ⟨h, output, status, rfl⟩

/-! ### The chat loop -/

/-- A call of a turn never ends the run with an outcome. -/
theorem dispatchAll_finalized (calls : List ToolCall) :
    (dispatchAll calls h).Meets (fun _ => True) Finalized := by
  rcases dispatchAll_answers h calls with ⟨h', rows, runs, hd, -⟩ |
    ⟨done, tc, rest, h', rows, runs, -, -, hd, -⟩ <;> rw [hd]
  · trivial
  · exact finalized_of_ne h' (by simp)

theorem chatLoopBody_finalized : (chatLoopBody h).Meets (fun _ => True) Finalized := by
  unfold chatLoopBody
  simp only
  split
  · exact finish_finalized _ _ _
  · exact finalized_of_ne _ (by simp)
  · split
    · exact finalized_of_ne _ (by simp)
    · split
      · exact finish_finalized _ _ _
      · split
        · exact finish_finalized _ _ _
        · trivial
        · exact dispatchAll_finalized _ _
        · exact finish_finalized _ _ _
        · exact finalized_of_ne _ (by simp)
        · exact finalized_of_ne _ (by simp)
        · exact finalized_of_ne _ (by simp)

theorem chatLoop_finalized (passes : Nat) :
    Finalized (chatLoop passes h).1 (chatLoop passes h).2 :=
  chatLoop_induct (P := fun _ _ => True) (fun h _ => finalized_of_ne h (by simp))
    (fun _ h _ => chatLoopBody_finalized h) passes h trivial

/-! ### The reflection loop -/

namespace ReflectionExecutor

theorem phase_finalized (provider : LlmProvider σ) (dflt current : String) :
    (phase h provider dflt current).2.Meets (fun _ => True) Finalized := by
  unfold phase
  split
  · trivial
  · trivial
  · trivial
  · exact finish_finalized _ _ _
  · exact finalized_of_ne _ (by simp)
  · exact finalized_of_ne _ (by simp)
  · exact finalized_of_ne _ (by simp)

theorem roundChecks_finalized (current : String) :
    (roundChecks h current).Meets (fun _ => True) Finalized := by
  unfold roundChecks
  split
  · exact finalized_of_ne _ (by simp)
  · simp only
    split
    · exact finish_finalized _ _ _
    · split
      · exact finish_finalized _ _ _
      · trivial

theorem rounds_finalized (judge : LlmProvider σ) (n : Nat) (current : String) :
    Finalized (rounds judge n current h).1 (rounds judge n current h).2 :=
  rounds_induct (P := fun _ _ _ => True) (R := fun _ _ _ => True)
    (fun _ current h _ => finish_finalized h current .completed)
    (fun _ current h _ => roundChecks_finalized h current)
    (fun _ current _ _ => phase_finalized _ judge "" current)
    (fun _ current _ _ => phase_finalized _ _ current current) n current h trivial

theorem execute_finalized (maxRevisions : UInt32) (ctx : ExecutionContext σ) (env : σ) :
    Finalized (execute maxRevisions ctx env).1 (execute maxRevisions ctx env).2 := by
  unfold execute
  simp only
  generalize (LoopHarness.new ctx env).seedMessages.bumpIteration = h₁
  split
  · exact finalized_of_ne _ (by simp)
  · have hdraft := phase_finalized h₁ ctx.llm "" ""
    rcases hphase : phase h₁ ctx.llm "" "" with ⟨current, h₂ | ⟨r, h₂⟩⟩ <;> rw [hphase] at hdraft
    · exact rounds_finalized h₂ _ _ _
    · exact hdraft

end ReflectionExecutor

/-! ### Whole runs -/

namespace Runtime

variable (kind : ExecutorKind) (passes : Nat) (ctx : ExecutionContext σ) (env : σ)

theorem runExecutor_finalized :
    Finalized (runExecutor kind passes ctx env).1 (runExecutor kind passes ctx env).2 := by
  cases kind with
  | conversation => exact chatLoop_finalized _ passes
  | react => exact chatLoop_finalized _ passes
  | reflection maxRevisions => exact ReflectionExecutor.execute_finalized maxRevisions ctx env

/-- **The outcome of a run** carries what its harness recorded. -/
theorem runExecutor_recorded {o : ExecutorOutcome}
    (ho : (runExecutor kind passes ctx env).1 = .finished o) :
    (runExecutor kind passes ctx env).2.Recorded o := by
  obtain ⟨h₀, output, status, heq⟩ := runExecutor_finalized kind passes ctx env o ho
  obtain ⟨rfl, hlast⟩ := Prod.mk.inj heq
  rw [← hlast]
  exact ⟨rfl, rfl, rfl, rfl, rfl, rfl⟩

/-- **What `execute_inner` returns** carries what a harness of the run recorded, whether the executor
returned the outcome or the backstop cut the run. -/
theorem executeInner_recorded {timeoutMs : Nat} {maxTimeout : Option Nat} {o : ExecutorOutcome}
    (h : executeInner kind passes ctx timeoutMs maxTimeout env = some (.ok o)) :
    (runExecutor kind passes (withBudget ctx timeoutMs maxTimeout) env).2.Recorded o := by
  have hrecorded := fun o => runExecutor_recorded kind passes (withBudget ctx timeoutMs maxTimeout)
    env (o := o)
  have hmirrored := runExecutor_mirrored kind passes (withBudget ctx timeoutMs maxTimeout) env
  rcases hrun : runExecutor kind passes (withBudget ctx timeoutMs maxTimeout) env with ⟨r, h'⟩
  rw [hrun] at hrecorded hmirrored
  unfold executeInner at h
  simp only [hrun] at h
  cases r with
  | finished o' =>
    obtain rfl : o' = o := by simpa using h
    exact hrecorded o' rfl
  | suspended =>
    simp only at h
    split at h
    · exact absurd h (by simp)
    · -- the backstop is armed, so there is a sink, and it mirrors the harness
      have hp := withBudget_progress ctx timeoutMs maxTimeout ‹_›
      have hm := (hmirrored hp).1
      simp only [hp, if_true] at h
      obtain rfl := Except.ok.inj (Option.some.inj h)
      exact ⟨hm.messages, hm.events, hm.toolCalls, hm.tokensIn, hm.tokensOut, hm.costUsd⟩
  | failed e => exact absurd h (by simp)
  | panicked p => exact absurd h (by simp)
  | running => exact absurd h (by simp)

/-- **The usage of an outcome**: whether the executor returned it or the backstop cut the run, it
holds the usage of every reply received during the run. -/
theorem executeInner_spent {timeoutMs : Nat} {maxTimeout : Option Nat} {o : ExecutorOutcome}
    (h : executeInner kind passes ctx timeoutMs maxTimeout env = some (.ok o)) :
    let replies := responses
      (runExecutor kind passes (withBudget ctx timeoutMs maxTimeout) env).2.world.effects
    o.tokensIn = totalTokens Usage.tokensIn replies ∧
      o.tokensOut = totalTokens Usage.tokensOut replies := by
  have hmetered := runExecutor_metered kind passes (withBudget ctx timeoutMs maxTimeout) env
  have hrec := executeInner_recorded kind passes ctx env h
  exact ⟨hrec.tokensIn.trans hmetered.tokensIn, hrec.tokensOut.trans hmetered.tokensOut⟩

end Runtime

end PgSynapse
