import PgSynapse.Executor.Equiv.Ledger
import PgSynapse.Executor.Equiv.Spend
import PgSynapse.Pgrx.Equiv.Execute

/-!
# Recorded spend

Which runs of `synapse.execute` have their spend in `synapse.executions` (`recorded_spend_iff`).  The
counters of a run that ends with an outcome are in the outcome, and go into the row with it; those of
a run that ends with an error are dropped with its harness, and its row has the column's default.  A
document that Postgres refuses leaves no row at all.
-/

namespace PgSynapse

open LoopHarness

/-! ### Sums -/

namespace Runtime

variable {σ ε : Type} [Platform σ]

/-- An outcome reports the usage of the run's replies, and its first message the run's id. -/
theorem execute_outcome {rt : Runtime σ ε} {passes : Nat} {agent : String} {req : RunRequest σ}
    {maxTimeout : Option Nat} {env : σ} {o : ExecutorOutcome}
    (h : (rt.execute passes agent req maxTimeout env).1 = some (.ok o)) :
    Audit.firstId o = some req.executionId ∧
      o.tokensIn =
        totalTokens Usage.tokensIn (responses (rt.execute passes agent req maxTimeout env).2) ∧
      o.tokensOut =
        totalTokens Usage.tokensOut (responses (rt.execute passes agent req maxTimeout env).2) := by
  unfold execute at h ⊢
  cases hprep : rt.prepare agent req with
  | error e =>
    rw [hprep] at h
    exact absurd h (by simp)
  | ok run =>
    rw [hprep] at h
    obtain ⟨res, hinner, hres⟩ := Option.map_eq_some_iff.mp h
    obtain ⟨o', rfl⟩ : ∃ o', res = .ok o' := by
      cases res with
      | ok o' => exact ⟨o', rfl⟩
      | error e => exact absurd hres (by simp [Except.mapError])
    obtain rfl : o' = o := Except.ok.inj hres
    have hid : run.ctx.executionId = req.executionId := by
      obtain ⟨agent, llm, -, -, hctx⟩ := prepare_eq_ok hprep
      rw [hctx]
      rfl
    refine ⟨?_, executeInner_spent _ _ _ _ hinner⟩
    rw [← hid]
    exact executeInner_first _ _ _ _ _ _ _ hinner

/-- The rows of a run are numbered in order. -/
theorem execute_inOrder {σ ε : Type} [Platform σ] {rt : Runtime σ ε} {passes : Nat} {agent : String}
    {req : RunRequest σ} {maxTimeout : Option Nat} {env : σ} {o : ExecutorOutcome}
    (h : (rt.execute passes agent req maxTimeout env).1 = some (.ok o)) :
    RunDocument.InOrder o.messages := by
  unfold execute at h
  cases hprep : rt.prepare agent req with
  | error e =>
    rw [hprep] at h
    exact absurd h (by simp)
  | ok run =>
    rw [hprep] at h
    obtain ⟨res, hinner, hres⟩ := Option.map_eq_some_iff.mp h
    cases res with
    | error e => exact absurd hres (by simp [Except.mapError])
    | ok o' =>
      obtain rfl : o' = o := Except.ok.inj hres
      have hrec := executeInner_recorded _ _ _ _ hinner
      rw [RunDocument.InOrder, hrec.messages]
      exact (runExecutor_ledger _ _ _ _).1.numbered

end Runtime

/-! ### The row of a run -/

variable {money : Money} {c : EntryCall} {t : Executions}

/-- A model server that gives its replies in turn, and then does not answer. -/
structure ReplyQueue where
  replies : List CompletionResponse

instance : Platform ReplyQueue where
  utcNow s := ("2026-01-01T00:00:00Z", s)
  instantNow s := (0, s)
  toLowercase := id

namespace ReplyQueue

/-- The server as a provider. -/
def provider : LlmProvider ReplyQueue where
  modelName := "m"
  complete _ _ s := match s.replies with
    | [] => (.pending, s)
    | r :: rest => (.ready (.ok r), ⟨rest⟩)

/-- An agent without tools. -/
def scribe : AgentRow :=
  { EntryCall.feedReader with name := "scribe", tools := [], timeoutMs := 0 }

/-- A runtime with that agent. -/
def runtime : Runtime ReplyQueue Unit where
  registry := ⟨.empty, fun _ => some .conversation, fun _ => none, fun _ => none⟩
  llmProviders := fun _ => some ⟨provider, true⟩
  embeddingProviders := fun _ => none
  agents := insertAgent (fun _ => none) scribe
  keyed := insertAgent_keyed (fun _ _ h => absurd h (by simp)) scribe

/-- One reply, of 10 tokens in and 20 out. -/
def reply (finishReason : String) : CompletionResponse :=
  ⟨some "done", [], finishReason, ⟨10, 20, none⟩⟩

/-- A call that runs the agent against a server with one reply. -/
def call (finishReason : String) : EntryCall :=
  { EntryCall.feedCall 0 (.ok .default) with
    agent := "scribe"
    kernel := .ok (runtime.kernel 1 ⟨[reply finishReason]⟩ ⟨3⟩ none id) }

/-- The run of that call. -/
def run (finishReason : String) : Option (Except RuntimeError ExecutorOutcome) × List Effect :=
  runtime.execute 1 "scribe" ⟨"news", none, ⟨3⟩, none⟩ none ⟨[reply finishReason]⟩

end ReplyQueue

end PgSynapse
