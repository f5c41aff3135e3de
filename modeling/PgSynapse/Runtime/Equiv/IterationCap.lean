import PgSynapse.Executor.Equiv.IterationCap

/-!
# Where the iteration cap binds

A run keeps to its cap when its executor compares the counter with the cap before every turn and the
counter can pass it (`capBounds_iff`).  For the other executors and caps a model that never says
anything takes the run over the cap, or keeps it running for ever.
-/

namespace PgSynapse

open LoopHarness

variable {σ : Type} [Platform σ]

/-! ### A provider that never says anything -/

/-- The reply with neither a text nor a call. -/
def silence : CompletionResponse := ⟨none, [], "stop", ⟨0, 0, none⟩⟩

omit [Platform σ] in
/-- A context in which no limit but the cap ends a run, and every turn comes back empty. -/
structure Silent (ctx : ExecutionContext σ) : Prop where
  interruptCheck : ctx.interruptCheck = none
  costCapUsd : ctx.costCapUsd = none
  timeout : ctx.timeout = 0
  llm : ∀ req wait env, (ctx.llm.complete req wait env).1 = .ready (.ok silence)
  judgeLlm : ctx.judgeLlm = none

namespace Silent

variable {h : LoopHarness σ} (hs : Silent h.ctx)

include hs

/-- A turn comes back empty, after one model call. -/
theorem turn : ∃ h' rows req answer, h.oneLlmTurnWith h.ctx.llm = (.ok .empty, h') ∧
    Grows h h' rows [.llm req answer] := by
  have hcheck : h.checkInterrupt = (.ok (), h) := by
    unfold checkInterrupt
    rw [hs.interruptCheck]
  have hempty : (h.oneLlmTurnWith h.ctx.llm).1 = .ok .empty := by
    unfold oneLlmTurnWith
    rw [hcheck]
    simp only
    generalize h.buildRequest h.ctx.llm.modelName = req
    generalize (h.recordEvent .llmRequest _).remainingBudget = budgeted
    obtain ⟨wait, h₁⟩ := budgeted
    have hanswer : (h₁.awaitComplete h.ctx.llm req wait).1 = .ready (.ok silence) :=
      hs.llm req wait h₁.world.env
    rcases ha : h₁.awaitComplete h.ctx.llm req wait with ⟨answer, h₂⟩
    rw [ha] at hanswer
    obtain rfl := hanswer
    rfl
  rcases h.oneLlmTurnWith_cases h.ctx.llm with
    ⟨f, h', calls, heq, -, hf, -⟩ | ⟨t, h', rows, req, resp, heq, g, -⟩ <;> rw [heq] at hempty
  · exact absurd hempty (hf .empty)
  · obtain rfl := Flow.ok.inj hempty
    exact ⟨h', rows, req, _, heq, g⟩

omit [Platform σ] hs in
/-- At the cap `u32::MAX` the check passes, whatever the counter says. -/
theorem checkIterationCap_max (hmax : h.ctx.maxIterations.toNat = 2 ^ 32 - 1) :
    h.bumpIteration.checkIterationCap = (.ok (), h.bumpIteration) := by
  have hle := h.bumpIteration.iteration.toNat_lt
  have hcap : ¬ h.bumpIteration.iteration > h.bumpIteration.ctx.maxIterations := by
    rw [gt_iff_lt, UInt32.lt_iff_toNat_lt]
    show ¬ h.ctx.maxIterations.toNat < _
    omega
  unfold checkIterationCap
  rw [if_neg hcap]

omit [Platform σ] in
theorem checkCostCap_ok : h.checkCostCap = .ok () := by
  unfold checkCostCap
  rw [hs.costCapUsd]

theorem checkDeadline_ok : h.checkDeadline = (.ok (), h) := by
  unfold checkDeadline
  rw [if_pos hs.timeout]

/-- The chat loop goes on. -/
theorem chatLoopBody_next (hmax : h.ctx.maxIterations.toNat = 2 ^ 32 - 1) :
    ∃ h', chatLoopBody h = .next h' ∧ h'.ctx = h.ctx := by
  have hb : Silent h.bumpIteration.ctx := hs
  obtain ⟨h', rows, req, answer, hturn, g⟩ := hb.turn
  obtain ⟨m, gm, -⟩ := h'.pushEmptyTurnNudge_grows
  refine ⟨h'.pushEmptyTurnNudge, ?_, gm.ctx.trans g.ctx⟩
  unfold chatLoopBody
  simp only [checkIterationCap_max hmax, checkCostCap_ok hb, checkDeadline_ok hb, oneLlmTurn,
    hturn]

/-- **Without a cap the chat loop never ends.** -/
theorem chatLoop_running (hmax : h.ctx.maxIterations.toNat = 2 ^ 32 - 1) (passes : Nat) :
    (chatLoop passes h).1 = .running := by
  refine chatLoop_induct (P := fun _ h' => h'.ctx = h.ctx) (Q := fun r _ => r = .running) ?_ ?_
    passes h rfl
  · intro h' _
    rfl
  · intro k h' hctx
    rw [← hctx] at hs hmax ⊢
    obtain ⟨h'', hbody, hctx'⟩ := chatLoopBody_next hs hmax
    rw [hbody]
    exact hctx'

/-- A phase takes its default, after one model call. -/
theorem phase_next (dflt current : String) :
    ∃ h', ReflectionExecutor.phase h h.ctx.llm dflt current = (dflt, .next h') ∧
      h'.ctx = h.ctx ∧ modelCalls h'.world.effects = modelCalls h.world.effects + 1 := by
  obtain ⟨h', rows, req, answer, hturn, g⟩ := hs.turn
  refine ⟨h', ?_, g.ctx, ?_⟩
  · unfold ReflectionExecutor.phase
    rw [hturn]
  · rw [g.effects, modelCalls_append, modelCalls_llm_cons]
    rfl

/-- The checks and the prompt before a phase make no call. -/
theorem promptedPhase_next (hmax : h.ctx.maxIterations.toNat = 2 ^ 32 - 1) (content : String)
    (dflt current : String) :
    ∃ h₁ h', ReflectionExecutor.roundChecks h current = .next h₁ ∧ h₁.ctx = h.ctx ∧
      ReflectionExecutor.phase (h₁.pushUserMessage content) h.ctx.llm dflt current =
        (dflt, .next h') ∧
      h'.ctx = h.ctx ∧ modelCalls h'.world.effects = modelCalls h.world.effects + 1 := by
  have hb : Silent h.bumpIteration.ctx := hs
  obtain ⟨m, g, -⟩ := h.bumpIteration.pushUserMessage_grows content
  have hctx : (h.bumpIteration.pushUserMessage content).ctx = h.ctx := g.ctx
  have hp : Silent (h.bumpIteration.pushUserMessage content).ctx := hctx ▸ hs
  obtain ⟨h', hphase, hctx', hcalls⟩ := phase_next hp dflt current
  rw [hctx] at hphase
  refine ⟨h.bumpIteration, h', ?_, rfl, hphase, hctx'.trans hctx, ?_⟩
  · unfold ReflectionExecutor.roundChecks
    simp only [checkCostCap_ok hs, checkIterationCap_max hmax, checkDeadline_ok hb]
  · rw [hcalls, g.effects, List.append_nil]
    rfl

/-- **Without a cap every round makes its two calls.** -/
theorem rounds_calls (hmax : h.ctx.maxIterations.toNat = 2 ^ 32 - 1) (n : Nat) (current : String) :
    modelCalls (ReflectionExecutor.rounds h.ctx.llm n current h).2.world.effects =
      modelCalls h.world.effects + 2 * n := by
  induction n generalizing h with
  | zero => rfl
  | succ n ih =>
    obtain ⟨h₁, h₂, hchecks, hctx₁, hphase, hctx₂, hcalls⟩ := promptedPhase_next hs hmax
      (ReflectionExecutor.critiquePrompt h.ctx) "" current
    rw [← hctx₂] at hs hmax
    obtain ⟨h₃, h₄, hchecks', hctx₃, hphase', hctx₄, hcalls'⟩ := promptedPhase_next hs hmax
      ReflectionExecutor.revisePrompt current current
    obtain ⟨m, g, -⟩ := h₃.pushUserMessage_grows ReflectionExecutor.revisePrompt
    have hllm : (h₃.pushUserMessage ReflectionExecutor.revisePrompt).ctx.llm = h₂.ctx.llm := by
      rw [g.ctx, hctx₃]
    -- an empty critique does not accept
    have haccept : Text.contains "" ReflectionExecutor.acceptToken = false := by decide
    rw [ReflectionExecutor.rounds, hchecks]
    simp only [hctx₁, hphase, haccept, Bool.false_eq_true, if_false, hchecks', hllm, hphase']
    rw [← hctx₄] at hs hmax
    have hrest := ih hs hmax
    rw [hctx₄, hctx₂] at hrest
    rw [hrest, hcalls', hcalls]
    omega

end Silent

/-- An outside that never changes. -/
structure StillWorld where
  deriving DecidableEq

namespace StillWorld

instance : Platform StillWorld where
  utcNow s := ("2026-01-01T00:00:00Z", s)
  instantNow s := (0, s)
  toLowercase := id

/-- A model that answers every request with the same reply. -/
def provider (reply : CompletionResponse) : LlmProvider StillWorld where
  modelName := "m"
  complete _ _ s := (.ready (.ok reply), s)

/-- A run against that model, under no limit but the cap. -/
def context (reply : CompletionResponse) (maxIterations : UInt32) :
    ExecutionContext StillWorld where
  executionId := ⟨1⟩
  agentName := "a"
  systemPrompt := ""
  soul := none
  input := "hi"
  tools := .empty
  llm := provider reply
  judgeLlm := none
  maxIterations := maxIterations
  timeout := 0
  costCapUsd := none
  callerRole := none
  traceLevel := .off
  interruptCheck := none
  harness := .default
  progress := false

theorem context_responsive (reply : CompletionResponse) (maxIterations : UInt32) :
    Responsive (context reply maxIterations) where
  llm _ _ _ := by simp [context, provider]
  judge _ hjudge := by simp [context] at hjudge
  tools name tool htool := by simp [context, ToolRegistry.get, ToolRegistry.empty] at htool

@[simp] theorem context_maxIterations (reply : CompletionResponse) (maxIterations : UInt32) :
    (context reply maxIterations).maxIterations = maxIterations := rfl

theorem context_silent (maxIterations : UInt32) : Silent (context silence maxIterations) :=
  ⟨rfl, rfl, rfl, fun _ _ _ => rfl, rfl⟩

end StillWorld

/-! ### Whole runs -/

namespace Runtime

/-- What the cap promises of the runs of an executor: whatever the providers and the tools answer,
the run comes back, and it makes no more model calls than the cap says. -/
def CapBounds (kind : ExecutorKind) (maxIterations : UInt32) : Prop :=
  ∀ (σ : Type) [Platform σ] (ctx : ExecutionContext σ) (env : σ),
    ctx.maxIterations = maxIterations → Responsive ctx →
    (∃ passes, Ended (runExecutor kind passes ctx env).1) ∧
    ∀ passes, modelCalls (runExecutor kind passes ctx env).2.world.effects ≤ maxIterations.toNat

/-- Where the cap binds.  A chat loop compares the counter before every turn, and the counter can
pass every cap but `u32::MAX`.  A reflection run makes its draft before the first comparison, and
comes back by itself after its rounds. -/
def Capped (kind : ExecutorKind) (maxIterations : UInt32) : Prop :=
  match kind with
  | .conversation | .react => maxIterations.toNat < 2 ^ 32 - 1
  | .reflection maxRevisions =>
    0 < maxIterations.toNat ∧ (maxIterations.toNat < 2 ^ 32 - 1 ∨ maxRevisions.toNat < 2 ^ 31)

/-- A seeded harness has made no call. -/
theorem seeded_within {h : LoopHarness σ} (hi : h.iteration = 0) (he : h.world.effects = []) :
    h.seedMessages.Within ∧ h.seedMessages.ctx = h.ctx ∧ h.seedMessages.iteration.toNat = 0 := by
  obtain ⟨seed, g, -⟩ := h.seedMessages_grows
  have hi' : h.seedMessages.iteration.toNat = 0 := by rw [seedMessages_iteration, hi]; rfl
  refine ⟨⟨?_, ?_⟩, g.ctx, hi'⟩
  · rw [g.effects, he]
    exact Nat.zero_le _
  · rw [hi']
    exact Nat.zero_le _

/-- A chat loop that starts from a fresh harness comes back within its cap. -/
theorem chatLoop_capBounds {h : LoopHarness σ} (hi : h.iteration = 0) (he : h.world.effects = [])
    (hresp : Responsive h.ctx) (hmax : h.ctx.maxIterations.toNat < 2 ^ 32 - 1) :
    (∃ passes, Ended (chatLoop passes h.seedMessages).1) ∧
    ∀ passes, modelCalls (chatLoop passes h.seedMessages).2.world.effects ≤
      h.ctx.maxIterations.toNat := by
  obtain ⟨hw, hctx, hi'⟩ := seeded_within hi he
  rw [← hctx] at hresp hmax ⊢
  refine ⟨⟨h.seedMessages.ctx.maxIterations.toNat + 1, ?_⟩, fun passes => ?_⟩
  · exact chatLoop_ended _ hresp _ hw hmax (by omega)
  · exact chatLoop_within _ passes hw hmax

/-- Where the cap binds, every run keeps to it. -/
theorem capBounds_of_capped {kind : ExecutorKind} {maxIterations : UInt32}
    (hc : Capped kind maxIterations) : CapBounds kind maxIterations := by
  intro σ _ ctx env hm hresp
  subst hm
  match kind with
  | .conversation => exact chatLoop_capBounds (h := LoopHarness.new ctx env) rfl rfl hresp hc
  | .react => exact chatLoop_capBounds (h := newWithPrefix ctx _ env) rfl rfl hresp hc
  | .reflection maxRevisions =>
    obtain ⟨hpos, hmax⟩ := hc
    simp only [runExecutor_reflection]
    refine ⟨⟨0, ReflectionExecutor.execute_ended maxRevisions ctx env hresp⟩, fun _ => ?_⟩
    by_cases hlt : ctx.maxIterations.toNat < 2 ^ 32 - 1
    · exact ReflectionExecutor.execute_within maxRevisions ctx env hpos hlt
    · -- no cap trips, and there are not enough rounds to pass it
      have hrounds := hmax.resolve_left hlt
      have hle := ReflectionExecutor.execute_calls_le maxRevisions ctx env
      exact hle.trans (by omega)

/-- A draft is asked for before the first comparison with the cap. -/
theorem draft_called (maxRevisions maxIterations : UInt32) :
    ∃ h', modelCalls h'.world.effects = 1 ∧
      h'.ctx = StillWorld.context silence maxIterations ∧
      runExecutor (.reflection maxRevisions) 0 (StillWorld.context silence maxIterations) ⟨⟩ =
        ReflectionExecutor.rounds (StillWorld.context silence maxIterations).llm
          maxRevisions.toNat "" h' := by
  obtain ⟨hctx, heffects, -⟩ :=
    ReflectionExecutor.draft_harness (StillWorld.context silence maxIterations) ⟨⟩
  rw [runExecutor_reflection]
  unfold ReflectionExecutor.execute
  simp only
  generalize (LoopHarness.new (StillWorld.context silence maxIterations) ⟨⟩).seedMessages.bumpIteration
    = h at hctx heffects
  have hs : Silent h.ctx := hctx ▸ StillWorld.context_silent maxIterations
  obtain ⟨h', hphase, hctx', hcalls⟩ := Silent.phase_next hs "" ""
  rw [hctx] at hphase hctx'
  have hone : modelCalls h'.world.effects = 1 := by
    rw [hcalls, heffects]
    rfl
  refine ⟨h', hone, hctx', ?_⟩
  rw [Silent.checkCostCap_ok hs]
  simp only [hphase]
  rfl

/-- A chat loop without a cap is still running after any number of passes. -/
theorem silent_chat_running {h : LoopHarness StillWorld} {maxIterations : UInt32}
    (hctx : h.ctx = StillWorld.context silence maxIterations) (hi : h.iteration = 0)
    (he : h.world.effects = []) (hmax : ¬ maxIterations.toNat < 2 ^ 32 - 1) (passes : Nat) :
    (chatLoop passes h.seedMessages).1 = .running := by
  obtain ⟨-, hctx', -⟩ := seeded_within hi he
  rw [hctx] at hctx'
  have hs : Silent h.seedMessages.ctx := by
    rw [hctx']
    exact StillWorld.context_silent maxIterations
  refine Silent.chatLoop_running hs ?_ passes
  have hlt := maxIterations.toNat_lt
  rw [hctx', StillWorld.context_maxIterations]
  omega

/-- A reflection run that keeps to its cap has one for its draft, and one for its rounds when no cap
trips. -/
theorem reflection_capped {maxRevisions maxIterations : UInt32}
    (hcalls : modelCalls (runExecutor (.reflection maxRevisions) 0
      (StillWorld.context silence maxIterations) ⟨⟩).2.world.effects ≤ maxIterations.toNat) :
    Capped (.reflection maxRevisions) maxIterations := by
  obtain ⟨h', hone, hctx, hrun⟩ := draft_called maxRevisions maxIterations
  rw [hrun] at hcalls
  constructor
  · -- the call of the draft stays in the log
    obtain ⟨rows, calls, s⟩ := ReflectionExecutor.rounds_stops h'
      (StillWorld.context silence maxIterations).llm maxRevisions.toNat ""
    rw [s.grows.effects, modelCalls_append, hone] at hcalls
    omega
  · by_contra hno
    rw [not_or] at hno
    have hlt := maxIterations.toNat_lt
    have hs : Silent h'.ctx := by
      rw [hctx]
      exact StillWorld.context_silent maxIterations
    have hmax : h'.ctx.maxIterations.toNat = 2 ^ 32 - 1 := by
      rw [hctx, StillWorld.context_maxIterations]
      omega
    have hrounds := Silent.rounds_calls hs hmax maxRevisions.toNat ""
    rw [hctx, hone] at hrounds
    omega

/-- Where it does not bind, a silent model takes a run over it. -/
theorem capped_of_capBounds {kind : ExecutorKind} {maxIterations : UInt32}
    (hb : CapBounds kind maxIterations) : Capped kind maxIterations := by
  obtain ⟨⟨passes, hended⟩, hcalls⟩ := hb StillWorld (StillWorld.context silence maxIterations) ⟨⟩
    rfl (StillWorld.context_responsive silence maxIterations)
  cases kind with
  | conversation =>
    by_contra hmax
    have hrun := silent_chat_running (h := LoopHarness.new (StillWorld.context silence maxIterations)
      ⟨⟩) rfl rfl rfl hmax passes
    exact hended.2 hrun
  | react =>
    by_contra hmax
    have hrun := silent_chat_running (h := newWithPrefix (StillWorld.context silence maxIterations)
      ReActExecutor.systemAddendum ⟨⟩) rfl rfl rfl hmax passes
    exact hended.2 hrun
  | reflection maxRevisions => exact reflection_capped (hcalls 0)

/-- **The cap bounds the model calls** of exactly the executors and caps for which it is compared
before every turn with a counter that can pass it. -/
theorem capBounds_iff (kind : ExecutorKind) (maxIterations : UInt32) :
    CapBounds kind maxIterations ↔ Capped kind maxIterations :=
  ⟨capped_of_capBounds, capBounds_of_capped⟩

/-- A reflection run with a cap of zero asks for its draft. -/
theorem draft_over_zero_cap : ¬ CapBounds (.reflection 0) 0 := by
  intro hb
  have hcalls := (hb StillWorld (StillWorld.context silence 0) ⟨⟩ rfl
    (StillWorld.context_responsive silence 0)).2 0
  exact absurd hcalls (by decide)

end Runtime

end PgSynapse
