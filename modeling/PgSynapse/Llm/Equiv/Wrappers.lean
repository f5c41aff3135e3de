import PgSynapse.Llm.RecoveryLayer
import PgSynapse.Runtime.Execute

/-!
# Wrapped providers

A provider can be wrapped in any number of retry and recovery layers, in any order.  Where the
provider answers a request for good, each layer hands the request in and the answer out
(`wrap_complete`), and every layer reports the model name.  A recovery layer does not report the
capabilities of what it wraps (`wrap_capabilities`), so a wrapped provider is transparent exactly
when there is none, or nothing to report (`transparent_iff`).
-/

namespace PgSynapse

/-- A wrapper, with what it is configured with. -/
inductive Layer (σ : Type) where
  | retry (config : RetryConfig)
  | recovery (compressor : Compressor σ) (config : RecoveryConfig)

/-- Whether a layer is a recovery layer. -/
def Layer.isRecovery {σ : Type} : Layer σ → Bool
  | .retry _ => false
  | .recovery _ _ => true

variable {σ : Type} [Timer σ]

/-- One layer around a provider. -/
def Layer.apply : Layer σ → DynProvider σ → DynProvider σ
  | .retry config => RetryProvider.layer config
  | .recovery compressor config => RecoveryProvider.layer compressor config

/-- A nesting of layers around a provider, the outermost first. -/
def wrap (layers : List (Layer σ)) (p : DynProvider σ) : DynProvider σ :=
  layers.foldr Layer.apply p

/-- An answer no layer reacts to: a response, or an error that is neither transient nor a context
overflow. -/
def Settled : Answer (Except LlmError CompletionResponse) → Prop
  | .ready (.ok _) => True
  | .ready (.error e) => isTransient e = false ∧ ∀ model tokens limit,
    e ≠ .contextLengthExceeded model tokens limit
  | .panicked _ | .pending => False

/-! ### One layer -/

theorem retry_complete {config : RetryConfig} {inner : DynProvider σ} {req : CompletionRequest}
    {wait : Option Nat} {env : σ} (hs : Settled (inner.complete req wait env).1) :
    (RetryProvider.layer config inner).complete req wait env = inner.complete req wait env := by
  show RetryProvider.attempts inner config req (config.maxRetries.toNat + 1) 0 none wait env = _
  rw [RetryProvider.attempts]
  rcases hc : inner.complete req wait env with ⟨answer, env'⟩
  rw [hc] at hs
  match answer with
  | .ready (.ok resp) => rfl
  | .ready (.error e) =>
    have htransient : (!isTransient e || (0 : UInt32) == config.maxRetries) = true := by
      rw [hs.1]
      rfl
    simp only [htransient, if_true]

theorem recovery_complete {compressor : Compressor σ} {config : RecoveryConfig}
    {inner : DynProvider σ} {req : CompletionRequest} {wait : Option Nat} {env : σ}
    (hs : Settled (inner.complete req wait env).1) :
    (RecoveryProvider.layer compressor config inner).complete req wait env =
      inner.complete req wait env := by
  show RecoveryProvider.attempts inner compressor config config.maxAttempts.toNat req wait env = _
  rw [RecoveryProvider.attempts.eq_def]
  rcases hc : inner.complete req wait env with ⟨answer, env'⟩
  rw [hc] at hs
  simp only [hc]
  match answer with
  | .ready (.ok resp) => rfl
  | .ready (.error (.contextLengthExceeded model tokens limit)) =>
    exact absurd rfl (hs.2 model tokens limit)
  | .ready (.error (.provider _ _)) => rfl
  | .ready (.error (.auth _)) => rfl
  | .ready (.error (.rateLimited _ _)) => rfl
  | .ready (.error (.responseTruncated _ _)) => rfl
  | .ready (.error (.network _)) => rfl

/-! ### Any nesting -/

/-- **A settled answer goes through every nesting**, after one call with the request as it is. -/
theorem wrap_complete (layers : List (Layer σ)) (p : DynProvider σ) {req : CompletionRequest}
    {wait : Option Nat} {env : σ} (hs : Settled (p.complete req wait env).1) :
    (wrap layers p).complete req wait env = p.complete req wait env := by
  induction layers with
  | nil => rfl
  | cons layer layers ih =>
    have hs' : Settled ((wrap layers p).complete req wait env).1 := by rwa [ih]
    cases layer with
    | retry config => exact (retry_complete hs').trans ih
    | recovery compressor config => exact (recovery_complete hs').trans ih

theorem wrap_modelName (layers : List (Layer σ)) (p : DynProvider σ) :
    (wrap layers p).modelName = p.modelName := by
  induction layers with
  | nil => rfl
  | cons layer layers ih => cases layer <;> exact ih

/-- **Reported capabilities**: the provider's own, unless a recovery layer stands in front. -/
theorem wrap_capabilities (layers : List (Layer σ)) (p : DynProvider σ) :
    (wrap layers p).capabilities =
      if layers.any Layer.isRecovery then .default else p.capabilities := by
  induction layers with
  | nil => rfl
  | cons layer layers ih =>
    cases layer with
    | retry config => exact ih
    | recovery compressor config => rfl

/-! ### Recorded calls -/

/-- The outside, with the requests a provider was called with so far. -/
abbrev Recorded (σ : Type) := σ × List CompletionRequest

instance : Timer (Recorded σ) where
  clock s := Timer.clock s.1
  sleep ms s := (Timer.sleep ms s.1, s.2)
  random s := ((Timer.random s.1).1, ((Timer.random s.1).2, s.2))

omit [Timer σ] in
/-- The provider, writing down every request it is called with. -/
def DynProvider.recorded (p : DynProvider σ) : DynProvider (Recorded σ) where
  modelName := p.modelName
  complete req wait s :=
    ((p.complete req wait s.1).1, ((p.complete req wait s.1).2, s.2 ++ [req]))
  capabilities := p.capabilities

omit [Timer σ] in
/-- What the runtime keeps of a provider. -/
def DynProvider.handle (p : DynProvider σ) : LlmHandle σ := ⟨p.toLlmProvider, p.capabilities.toolUse⟩

omit [Timer σ] in
/-- The runtime with the provider under the name of a profile. -/
def Runtime.withProvider {ε : Type} (rt : Runtime σ ε) (profile : String) (p : DynProvider σ) :
    Runtime σ ε :=
  { rt with llmProviders := Function.update rt.llmProviders profile (some p.handle) }

/-- **A transparent wrapping**: where the provider settles a request it is called once, with that
request, and its answer is returned; and the wrapped provider reports the same, so that the
pre-flight of every run decides the same. -/
structure Transparent (layers : List (Layer (Recorded σ))) (p : DynProvider σ) : Prop where
  complete : ∀ req wait env calls, Settled (p.complete req wait env).1 →
    (wrap layers p.recorded).complete req wait (env, calls) =
      ((p.complete req wait env).1, ((p.complete req wait env).2, calls ++ [req]))
  modelName : (wrap layers p.recorded).modelName = p.modelName
  capabilities : (wrap layers p.recorded).capabilities = p.capabilities
  preflight : ∀ {ε : Type} (rt : Runtime (Recorded σ) ε) (profile agentName : String)
    (req : Runtime.RunRequest (Recorded σ)),
    ((rt.withProvider profile (wrap layers p.recorded)).prepare agentName req).map (fun _ => ()) =
      ((rt.withProvider profile p.recorded).prepare agentName req).map fun _ => ()

omit [Timer σ] in
/-- The pre-flight asks a provider for its model name and for tool use, and for nothing else. -/
theorem prepare_withProvider {ε : Type} (rt : Runtime σ ε) (profile agentName : String)
    (req : Runtime.RunRequest σ) {p q : DynProvider σ} (hname : q.modelName = p.modelName)
    (htools : q.capabilities.toolUse = p.capabilities.toolUse) :
    ((rt.withProvider profile q).prepare agentName req).map (fun _ => ()) =
      ((rt.withProvider profile p).prepare agentName req).map fun _ => () := by
  have hagent : (rt.withProvider profile q).agents = (rt.withProvider profile p).agents := rfl
  have hexecutors : (rt.withProvider profile q).registry = (rt.withProvider profile p).registry :=
    rfl
  -- another profile is resolved as before, and this one to the other provider
  have hresolve : ∀ name, (rt.withProvider profile q).resolveLlm name =
        (rt.withProvider profile p).resolveLlm name ∨
      (rt.withProvider profile q).resolveLlm name = .ok q.handle ∧
        (rt.withProvider profile p).resolveLlm name = .ok p.handle := by
    intro name
    cases name with
    | none => exact .inl rfl
    | some key =>
      by_cases hkey : key = profile
      · exact .inr ⟨by simp [Runtime.resolveLlm, Runtime.withProvider, hkey],
          by simp [Runtime.resolveLlm, Runtime.withProvider, hkey]⟩
      · exact .inl (by simp [Runtime.resolveLlm, Runtime.withProvider, hkey])
  unfold Runtime.prepare
  rw [hagent, hexecutors]
  cases hagent' : (rt.withProvider profile p).agents agentName with
  | none => rfl
  | some agent =>
    have htoolset : (rt.withProvider profile q).agentTools agent =
        (rt.withProvider profile p).agentTools agent := rfl
    simp only [htoolset]
    rcases hresolve agent.llmProfileMain with hsame | ⟨hq, hp⟩
    · rw [hsame]
      cases (rt.withProvider profile p).resolveLlm agent.llmProfileMain with
      | error e => rfl
      | ok llm =>
        cases (rt.withProvider profile p).registry.executors agent.executorName with
        | none => rfl
        | some kind =>
          simp only
          split <;> rfl
    · rw [hq, hp]
      cases (rt.withProvider profile p).registry.executors agent.executorName with
      | none => rfl
      | some kind =>
        have hname' : q.handle.provider.modelName = p.handle.provider.modelName := hname
        have htools' : q.handle.toolUse = p.handle.toolUse := htools
        simp only [hname', htools']
        split <;> rfl

theorem wrap_recorded_capabilities (layers : List (Layer (Recorded σ))) (p : DynProvider σ) :
    (wrap layers p.recorded).capabilities = p.capabilities ↔
      (∀ layer ∈ layers, layer.isRecovery = false) ∨ p.capabilities = .default := by
  rw [wrap_capabilities]
  cases hany : layers.any Layer.isRecovery with
  | true =>
    have hsome : ¬ ∀ layer ∈ layers, layer.isRecovery = false := by
      intro hall
      obtain ⟨layer, hmem, hrec⟩ := List.any_eq_true.mp hany
      rw [hall layer hmem] at hrec
      exact absurd hrec (by decide)
    simp only [if_true]
    constructor
    · intro heq
      exact .inr heq.symm
    · rintro (hall | heq)
      · exact absurd hall hsome
      · exact heq.symm
  | false =>
    have hall : ∀ layer ∈ layers, layer.isRecovery = false := by
      intro layer hmem
      cases hrec : layer.isRecovery with
      | false => rfl
      | true =>
        have := List.any_eq_true.mpr ⟨layer, hmem, hrec⟩
        rw [hany] at this
        exact absurd this (by decide)
    simp only [Bool.false_eq_true, if_false]
    exact ⟨fun _ => .inl hall, fun _ => rfl⟩

/-- **Wrappers are transparent** exactly when no recovery layer is among them, or the provider has no
capability that it could hide. -/
theorem transparent_iff (layers : List (Layer (Recorded σ))) (p : DynProvider σ) :
    Transparent layers p ↔
      (∀ layer ∈ layers, layer.isRecovery = false) ∨ p.capabilities = .default := by
  rw [← wrap_recorded_capabilities]
  constructor
  · exact Transparent.capabilities
  · intro hcap
    have hname := wrap_modelName layers p.recorded
    refine ⟨?_, hname, hcap, ?_⟩
    · intro req wait env calls hs
      exact wrap_complete layers p.recorded hs
    · intro ε rt profile agentName req
      exact prepare_withProvider rt profile agentName req hname
        (congrArg ProviderCapabilities.toolUse hcap)

/-! ### A hidden capability -/

/-- A provider that can use tools. -/
def toolProvider : DynProvider Nat where
  modelName := "m"
  complete _ _ n := (.ready (.error (.auth "m")), n)
  capabilities := { ProviderCapabilities.default with toolUse := true }

/-- A compressor that collapses nothing. -/
def idleCompressor : Compressor (Recorded Nat) where
  compress _ _ _ s := (.ready (.ok .default), s)

instance : Timer Nat where
  clock n := n
  sleep ms n := n + ms * 1000000
  random n := (0, n)

/-- Behind a recovery layer the provider no longer reports tool use, and every agent with tools is
refused. -/
theorem recovery_hides_tool_use :
    (wrap [.recovery idleCompressor ⟨1, 1 / 2⟩] toolProvider.recorded).capabilities.toolUse = false ∧
      ¬ Transparent [.recovery idleCompressor ⟨1, 1 / 2⟩] toolProvider := by
  refine ⟨rfl, ?_⟩
  intro ht
  exact absurd (congrArg ProviderCapabilities.toolUse ht.capabilities) (by decide)

end PgSynapse
