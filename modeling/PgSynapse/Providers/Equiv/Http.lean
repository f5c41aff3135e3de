import Mathlib.Data.List.Range
import PgSynapse.Lib.Except
import PgSynapse.Providers.Http

/-!
# What a retried provider sends again

`map_http_error` folds every other error status into `LlmError::Provider`, and so do the two ways a
successful response can be unreadable; the retry layer takes that kind for a server error.  So a
call sends nothing again but after a 429, a 5xx or a transport failure exactly when the first other
answer that leaves a retry is settled: a 401, a 403, or a response that can be read
(`resends_only_transient_iff`).
-/

namespace PgSynapse

/-! ### Answers -/

/-- An answer after which the request may be sent again: a transport failure, before the head or in
the body of a successful response, a 429, or a 5xx. -/
def HttpAnswer.MayResend : HttpAnswer → Prop
  | .failed _ => True
  | .received status _ body =>
    status.code = 429 ∨ (500 ≤ status.code ∧ status.code < 600) ∨
      (status.isSuccess = true ∧ ∃ e, body = .error e)

/-- The body of a chat completion: a first choice that holds a message. -/
def HasMessage (v : Value) : Prop :=
  ∃ first message, ((v.get? "choices").bind fun choices => choices.item? 0) = some first ∧
    first.get? "message" = some message

/-- A body the provider can read: a chat completion, or for Anthropic any JSON value. -/
def BundledProvider.CanRead (lib : HttpLibrary) (p : BundledProvider) (text : String) : Prop :=
  ∃ v, lib.parseJson text = .ok v ∧
    match p with
    | .anthropic _ _ => True
    | .openai _ _ _ _ | .llamaCpp _ _ => HasMessage v

/-- An answer that ends the call for good: a 401, a 403, or a success with a body that can be
read. -/
def HttpAnswer.Settles (lib : HttpLibrary) (p : BundledProvider) : HttpAnswer → Prop
  | .failed _ => False
  | .received status _ body =>
    status.code = 401 ∨ status.code = 403 ∨
      (status.isSuccess = true ∧ ∃ text, body = .ok text ∧ p.CanRead lib text)

/-- What the retry layer sees of an answer: an error it takes for transient. -/
def HttpAnswer.Retried (lib : HttpLibrary) (p : BundledProvider) (tools : List ToolDefinition)
    (a : HttpAnswer) : Prop :=
  ∃ e, (p.http lib).read lib tools a = .error e ∧ isTransient e = true

/-! ### Reading an answer -/

theorem readChoice_error (reader : ResponseReader) (provider : String)
    (contentOf : Value → Option String) (costOf : UInt32 → UInt32 → Option Rat)
    (tools : List ToolDefinition) (v : Value) :
    (∃ e, reader.readChoice provider contentOf costOf tools v = .error e ∧
      isTransient e = true) ↔ ¬HasMessage v := by
  unfold ResponseReader.readChoice HasMessage
  cases hfirst : (v.get? "choices").bind fun choices => choices.item? 0 with
  | none => simp [isTransient]
  | some first =>
    cases hmessage : first.get? "message" with
    | none => simp [hmessage, isTransient]
    | some message => simp [hmessage]

theorem mapHttpError_transient (lib : HttpLibrary) (provider : String) (status : StatusCode)
    (body : String) (retryAfterMs : Option Nat) :
    isTransient (mapHttpError lib provider status body retryAfterMs) = true ↔
      status.code ≠ 401 ∧ status.code ≠ 403 := by
  unfold mapHttpError
  by_cases hauth : status.code = 401 ∨ status.code = 403
  · rw [if_pos hauth]
    simp only [isTransient, Bool.false_eq_true, false_iff]
    omega
  · rw [if_neg hauth]
    have htransient : isTransient (if status.code = 429 then .rateLimited provider retryAfterMs
        else .provider provider ("HTTP " ++ lib.displayStatus status ++ ": " ++ body)) = true := by
      split <;> rfl
    simp only [htransient, true_iff]
    omega

/-- The body of a successful response is retried when it broke off or cannot be read. -/
theorem success_retried (lib : HttpLibrary) (p : BundledProvider) (tools : List ToolDefinition)
    {status : StatusCode} (hok : status.isSuccess = true) (retryAfter : Option String)
    (body : Except String String) :
    (HttpAnswer.received status retryAfter body).Retried lib p tools ↔
      ¬∃ text, body = .ok text ∧ p.CanRead lib text := by
  unfold HttpAnswer.Retried HttpProvider.read BundledProvider.CanRead
  simp only [if_pos hok]
  cases body with
  | error e => simp [Except.bind, isTransient]
  | ok text =>
    simp only [Except.bind, Except.ok.injEq, exists_eq_left']
    cases hjson : lib.parseJson text with
    | error e => simp [isTransient]
    | ok v =>
      simp only [Except.ok.injEq, exists_eq_left']
      cases p with
      | openai p apiKey extraHeaders rates =>
        exact readChoice_error lib.reader "openai" OpenAiProvider.contentOf rates.computeCost tools v
      | llamaCpp p apiKey =>
        exact readChoice_error lib.reader "llama-cpp" LlamaCppProvider.contentOf (fun _ _ => none)
          tools v
      | anthropic p apiKey =>
        -- every JSON value is a response, if an empty one
        simp [BundledProvider.http, AnthropicProvider.http, AnthropicProvider.decode]

/-- **Which answers are retried**: all but the settled ones. -/
theorem retried_iff (lib : HttpLibrary) (p : BundledProvider) (tools : List ToolDefinition)
    (a : HttpAnswer) : a.Retried lib p tools ↔ ¬a.Settles lib p := by
  cases a with
  | failed reason => simp [HttpAnswer.Retried, HttpAnswer.Settles, HttpProvider.read, isTransient]
  | received status retryAfter body =>
    by_cases hok : status.isSuccess = true
    · have hcode : 200 ≤ status.code ∧ status.code < 300 := by
        simpa [StatusCode.isSuccess] using hok
      have h401 : status.code ≠ 401 := by omega
      have h403 : status.code ≠ 403 := by omega
      rw [success_retried lib p tools hok]
      simp only [HttpAnswer.Settles, h401, h403, hok, true_and, false_or]
    · rw [Bool.not_eq_true] at hok
      simp only [HttpAnswer.Retried, HttpAnswer.Settles, HttpProvider.read, hok,
        Bool.false_eq_true, if_false, Except.error.injEq, exists_eq_left', mapHttpError_transient,
        false_and, or_false, not_or, ne_eq]

/-- What may be sent again is not settled. -/
theorem HttpAnswer.MayResend.not_settles {lib : HttpLibrary} {p : BundledProvider} {a : HttpAnswer}
    (ha : a.MayResend) : ¬a.Settles lib p := by
  cases a with
  | failed reason => exact id
  | received status retryAfter body =>
    simp only [HttpAnswer.MayResend, HttpAnswer.Settles, StatusCode.isSuccess,
      Bool.and_eq_true, decide_eq_true_eq] at ha ⊢
    rintro (hcode | hcode | ⟨hcode, text, rfl, -⟩)
    · omega
    · omega
    · rcases ha with ha | ha | ⟨-, e, he⟩
      · omega
      · omega
      · cases he

/-! ### A call, with its exchanges -/

/-- The outside, with the requests sent so far and what each came to. -/
structure Exchange (σ : Type) where
  env : σ
  log : List (HttpRequest × Answer HttpAnswer)

variable {σ : Type} [Timer σ]

instance : Timer (Exchange σ) where
  clock s := Timer.clock s.env
  sleep ms s := { s with env := Timer.sleep ms s.env }
  random s := ((Timer.random s.env).1, { s with env := (Timer.random s.env).2 })

omit [Timer σ] in
/-- The server that answers the `i`-th request with `answers i`; the outside goes on meanwhile. -/
def scripted (answers : Nat → Answer HttpAnswer) (elapse : Nat → σ → σ) :
    HttpServer (Exchange σ) where
  post request _ s :=
    (answers s.log.length,
      ⟨elapse s.log.length s.env, s.log ++ [(request, answers s.log.length)]⟩)

/-- One call of a retried provider against the server's answers: what was sent. -/
def sent (lib : HttpLibrary) (p : BundledProvider) (config : RetryConfig)
    (answers : Nat → Answer HttpAnswer) (elapse : Nat → σ → σ) (req : CompletionRequest)
    (wait : Option Nat) (env : σ) : List (HttpRequest × Answer HttpAnswer) :=
  ((RetryProvider.layer config (p.toDyn lib (scripted answers elapse))).complete req wait
    ⟨env, []⟩).2.log

/-- **Only transient failures are re-sent**: each further request is the one before, which came to an
answer after which it may be sent again. -/
def OnlyTransientResent (log : List (HttpRequest × Answer HttpAnswer)) : Prop :=
  log.IsChain fun x y => y.1 = x.1 ∧ ∃ a, x.2 = .ready a ∧ a.MayResend

/-! ### The loop -/

section Loop

variable {lib : HttpLibrary} {p : BundledProvider} {config : RetryConfig}
  {answers : Nat → Answer HttpAnswer} {elapse : Nat → σ → σ} {req : CompletionRequest}

/-- What the first `n` exchanges are when each sends the same request. -/
def exchanges (request : HttpRequest) (answers : Nat → Answer HttpAnswer) (n : Nat) :
    List (HttpRequest × Answer HttpAnswer) :=
  (List.range n).map fun i => (request, answers i)

theorem exchanges_succ (request : HttpRequest) (n : Nat) :
    exchanges request answers (n + 1) =
      exchanges request answers n ++ [(request, answers n)] := by
  simp [exchanges, List.range_succ]

theorem exchanges_length (request : HttpRequest) (n : Nat) :
    (exchanges request answers n).length = n := by
  simp [exchanges]

/-- Whether the retry layer goes on after an answer. -/
def GoesOn (lib : HttpLibrary) (p : BundledProvider) (answer : Answer HttpAnswer) : Prop :=
  ∃ a, answer = .ready a ∧ ¬a.Settles lib p

omit [Timer σ] in
/-- One attempt: the request is posted, its exchange is noted, and the error it comes to is transient
when the answer is not settled. -/
theorem toDyn_complete {headers : List (String × String)}
    (hheaders : (p.http lib).headers = .ok headers) (answers : Nat → Answer HttpAnswer)
    (elapse : Nat → σ → σ) (req : CompletionRequest) (wait : Option Nat) (s : Exchange σ) :
    ∃ result env, (p.toDyn lib (scripted answers elapse)).complete req wait s =
      (result, ⟨env, s.log ++
        [(⟨headers, (p.http lib).buildPayload req⟩, answers s.log.length)]⟩) ∧
      ((∃ e, result = .ready (.error e) ∧ isTransient e = true) ↔
        GoesOn lib p (answers s.log.length)) := by
  simp only [BundledProvider.toDyn, HttpProvider.complete, hheaders, scripted]
  cases answers s.log.length with
  | ready a =>
    refine ⟨_, _, rfl, ?_⟩
    rw [show GoesOn lib p (.ready a) ↔ ¬a.Settles lib p by simp [GoesOn],
      ← retried_iff lib p req.tools]
    simp [HttpAnswer.Retried]
  | panicked payload => exact ⟨_, _, rfl, by simp [GoesOn]⟩
  | pending => exact ⟨_, _, rfl, by simp [GoesOn]⟩

theorem delayFor_log (config : RetryConfig) (err : LlmError) (attempt : UInt32) (s : Exchange σ) :
    (RetryProvider.delayFor config err attempt s).2.log = s.log := by
  unfold RetryProvider.delayFor
  split <;> rfl

theorem sleepWithin_eq_some {wait wait' : Option Nat} {ms : Nat} {s s' : Exchange σ}
    (h : Timer.sleepWithin wait ms s = some (wait', s')) :
    s'.log = s.log ∧ (wait = none → wait' = none) := by
  unfold Timer.sleepWithin at h
  cases wait with
  | none =>
    obtain ⟨rfl, rfl⟩ := Prod.mk.inj (Option.some.inj h)
    exact ⟨rfl, fun _ => rfl⟩
  | some w =>
    simp only at h
    split at h
    · cases h
    · obtain ⟨rfl, rfl⟩ := Prod.mk.inj (Option.some.inj h)
      exact ⟨rfl, by simp⟩

/-- The last attempt, and one whose result is not a transient error, end the call. -/
theorem attempts_ends {inner : DynProvider σ} {left : Nat} {attempt : UInt32}
    {lastErr : Option LlmError} {wait : Option Nat} {env : σ}
    (h : attempt = config.maxRetries ∨
      ¬∃ e, (inner.complete req wait env).1 = .ready (.error e) ∧ isTransient e = true) :
    RetryProvider.attempts inner config req (left + 1) attempt lastErr wait env =
      inner.complete req wait env := by
  rw [RetryProvider.attempts]
  rcases hc : inner.complete req wait env with ⟨(e | resp) | payload | _, env'⟩
  case ready.error =>
    have hstop : (!isTransient e || attempt == config.maxRetries) = true := by
      rw [Bool.or_eq_true, Bool.not_eq_true', beq_iff_eq]
      rcases h with h | h
      · exact .inr h
      · refine .inl ?_
        rw [hc] at h
        simpa using h
    simp only [hstop, if_true]
  all_goals rfl

/-- Between two attempts nothing is sent; the wrapper sleeps, or the caller's wait ends. -/
theorem attempts_retries {inner : DynProvider (Exchange σ)} (left : Nat) {attempt : UInt32}
    (lastErr : Option LlmError) {wait : Option Nat} {s s' : Exchange σ} {e : LlmError}
    (hattempt : attempt ≠ config.maxRetries) (he : isTransient e = true)
    (hc : inner.complete req wait s = (.ready (.error e), s')) :
    ∃ s'', s''.log = s'.log ∧
      ((wait ≠ none ∧ RetryProvider.attempts inner config req (left + 1) attempt lastErr wait s =
          (.pending, s'')) ∨
        ∃ wait', (wait = none → wait' = none) ∧
          RetryProvider.attempts inner config req (left + 1) attempt lastErr wait s =
            RetryProvider.attempts inner config req left (attempt + 1) (some e) wait' s'') := by
  rw [RetryProvider.attempts, hc]
  have hgo : (!isTransient e || attempt == config.maxRetries) = false := by
    rw [he, beq_eq_false_iff_ne.mpr hattempt]
    rfl
  simp only [hgo, Bool.false_eq_true, if_false]
  have hdelay := delayFor_log config e attempt s'
  generalize RetryProvider.delayFor config e attempt s' = delay at hdelay
  obtain ⟨ms, s₁⟩ := delay
  simp only at hdelay ⊢
  cases hsleep : Timer.sleepWithin (Timer.remaining wait s s₁) ms s₁ with
  | none =>
    refine ⟨s₁, hdelay, .inl ⟨?_, rfl⟩⟩
    rintro rfl
    cases hsleep
  | some slept =>
    obtain ⟨wait', s₂⟩ := slept
    obtain ⟨hlog, hwait⟩ := sleepWithin_eq_some hsleep
    refine ⟨s₂, hlog.trans hdelay, .inr ⟨wait', ?_, rfl⟩⟩
    rintro rfl
    exact hwait rfl

/-- **The attempts of one call**: the same request each time, one more after each answer that is not
settled; without a deadline, until an answer is settled or the retries are used up. -/
theorem attempts_log {headers : List (String × String)}
    (hheaders : (p.http lib).headers = .ok headers) (left : Nat) (attempt : UInt32)
    (lastErr : Option LlmError) (wait : Option Nat) (s : Exchange σ)
    (hleft : attempt.toNat + left = config.maxRetries.toNat)
    (hlog : s.log = exchanges ⟨headers, (p.http lib).buildPayload req⟩ answers attempt.toNat) :
    ∃ n, attempt.toNat < n ∧ n ≤ config.maxRetries.toNat + 1 ∧
      (RetryProvider.attempts (p.toDyn lib (scripted answers elapse)) config req (left + 1) attempt
        lastErr wait s).2.log = exchanges ⟨headers, (p.http lib).buildPayload req⟩ answers n ∧
      (∀ i, attempt.toNat ≤ i → i + 1 < n → GoesOn lib p (answers i)) ∧
      (wait = none → n ≤ config.maxRetries.toNat → ¬GoesOn lib p (answers (n - 1))) := by
  induction left generalizing attempt lastErr wait s with
  | zero =>
    have hmax : attempt = config.maxRetries := UInt32.toNat_inj.mp hleft
    obtain ⟨result, env, hc, -⟩ := toDyn_complete hheaders answers elapse req wait s
    refine ⟨attempt.toNat + 1, by omega, by omega, ?_, by omega, by omega⟩
    rw [attempts_ends (.inl hmax), hc, exchanges_succ, hlog, exchanges_length]
  | succ left ih =>
    have hmax : attempt ≠ config.maxRetries := by
      rintro rfl
      omega
    obtain ⟨result, env, hc, hgoes⟩ := toDyn_complete hheaders answers elapse req wait s
    rw [hlog, exchanges_length, ← exchanges_succ] at hc
    rw [hlog, exchanges_length] at hgoes
    by_cases hgo : GoesOn lib p (answers attempt.toNat)
    · obtain ⟨e, rfl, he⟩ := hgoes.mpr hgo
      obtain ⟨s', hlog', ⟨hwait, heq⟩ | ⟨wait', hwait, heq⟩⟩ :=
        attempts_retries (left + 1) lastErr hmax he hc
      · -- the caller gave up while the wrapper slept
        refine ⟨attempt.toNat + 1, by omega, by omega, by rw [heq]; exact hlog', by omega, ?_⟩
        intro hnone
        exact absurd hnone hwait
      -- the wrapper asks again, with one exchange more in the log
      · have hnext : (attempt + 1).toNat = attempt.toNat + 1 := by
          have hbound := config.maxRetries.toNat_lt
          rw [UInt32.toNat_add]
          show (attempt.toNat + 1) % 2 ^ 32 = _
          omega
        obtain ⟨n, hn, hn', hlogn, hgoing, hdone⟩ :=
          ih (attempt + 1) (some e) wait' s' (by omega) (by rw [hlog', hnext])
        refine ⟨n, by omega, hn', by rw [heq, hlogn], ?_, fun hnone => hdone (hwait hnone)⟩
        intro i hi hin
        by_cases hfirst : i = attempt.toNat
        · rwa [hfirst]
        · exact hgoing i (by omega) hin
    · refine ⟨attempt.toNat + 1, by omega, by omega, ?_, by omega, fun _ _ => hgo⟩
      rw [attempts_ends (.inr ?_), hc]
      rw [hc]
      exact fun h => hgo (hgoes.mp h)

/-- A provider without headers sends nothing. -/
theorem attempts_silent {e : LlmError} (hheaders : (p.http lib).headers = .error e) (left : Nat)
    (attempt : UInt32) (lastErr : Option LlmError) (wait : Option Nat) (s : Exchange σ) :
    (RetryProvider.attempts (p.toDyn lib (scripted answers elapse)) config req left attempt lastErr
      wait s).2.log = s.log := by
  induction left generalizing attempt lastErr wait s with
  | zero => rfl
  | succ left ih =>
    have hc : (p.toDyn lib (scripted answers elapse)).complete req wait s =
        (.ready (.error e), s) := by
      simp only [BundledProvider.toDyn, HttpProvider.complete, hheaders]
    by_cases hends : attempt = config.maxRetries ∨ isTransient e = false
    · have hresult : attempt = config.maxRetries ∨
          ¬∃ e', ((p.toDyn lib (scripted answers elapse)).complete req wait s).1 =
            .ready (.error e') ∧ isTransient e' = true := by
        rw [hc]
        refine hends.imp_right ?_
        intro he
        simp [he]
      rw [attempts_ends hresult, hc]
    · obtain ⟨hattempt, he⟩ := not_or.mp hends
      obtain ⟨s', hlog, ⟨-, heq⟩ | ⟨wait', -, heq⟩⟩ :=
        attempts_retries left lastErr hattempt (by simpa using he) hc
      · rw [heq, hlog]
      · rw [heq, ih, hlog]

/-! ### What is sent again -/

theorem sent_silent {e : LlmError} (hheaders : (p.http lib).headers = .error e)
    (wait : Option Nat) (env : σ) : sent lib p config answers elapse req wait env = [] :=
  attempts_silent hheaders (config.maxRetries.toNat + 1) 0 none wait ⟨env, []⟩

/-- What one call sends, by the number of its retries. -/
theorem sent_exchanges {headers : List (String × String)}
    (hheaders : (p.http lib).headers = .ok headers) (config : RetryConfig)
    (answers : Nat → Answer HttpAnswer) (elapse : Nat → σ → σ) (req : CompletionRequest)
    (wait : Option Nat) (env : σ) :
    ∃ n ≤ config.maxRetries.toNat,
      sent lib p config answers elapse req wait env =
        exchanges ⟨headers, (p.http lib).buildPayload req⟩ answers (n + 1) ∧
      (∀ i < n, GoesOn lib p (answers i)) ∧
      (wait = none → n < config.maxRetries.toNat → ¬GoesOn lib p (answers n)) := by
  obtain ⟨n, hn, hn', hlog, hgoing, hdone⟩ := attempts_log hheaders config.maxRetries.toNat 0 none
    wait ⟨env, []⟩ (Nat.zero_add _) rfl
  obtain ⟨n, rfl⟩ := Nat.exists_eq_succ_of_ne_zero (Nat.ne_zero_of_lt hn)
  exact ⟨n, by omega, hlog, fun i hi => hgoing i (Nat.zero_le i) (by omega), hdone⟩

/-- The first answer after which nothing may be sent again, if a retry is left for it, ends the
call: it is settled. -/
def FirstOtherSettles (lib : HttpLibrary) (p : BundledProvider) (config : RetryConfig)
    (answers : Nat → Answer HttpAnswer) : Prop :=
  ∀ i < config.maxRetries.toNat, (∀ j < i, ∃ a, answers j = .ready a ∧ a.MayResend) →
    ∀ a, answers i = .ready a → a.MayResend ∨ a.Settles lib p

omit [Timer σ] in
theorem onlyTransientResent_exchanges (request : HttpRequest) (n : Nat) :
    OnlyTransientResent (exchanges request answers (n + 1)) ↔
      ∀ i < n, ∃ a, answers i = .ready a ∧ a.MayResend := by
  unfold OnlyTransientResent exchanges
  rw [List.isChain_map, List.isChain_range_succ]
  simp

/-- **What is sent again**: under every deadline of the caller nothing but transient failures, exactly
when nothing can be sent at all or the first other answer is settled. -/
theorem resends_only_transient_iff (lib : HttpLibrary) (p : BundledProvider) (config : RetryConfig)
    (answers : Nat → Answer HttpAnswer) (elapse : Nat → σ → σ) (req : CompletionRequest) (env : σ) :
    (∀ wait, OnlyTransientResent (sent lib p config answers elapse req wait env)) ↔
      (∃ e, (p.http lib).headers = .error e) ∨ FirstOtherSettles lib p config answers := by
  cases hheaders : (p.http lib).headers with
  | error e =>
    refine iff_of_true ?_ (.inl ⟨e, rfl⟩)
    intro wait
    rw [sent_silent hheaders]
    exact .nil
  | ok headers =>
    simp only [reduceCtorEq, exists_false, false_or]
    constructor
    · intro hall i hi hbefore a ha
      obtain ⟨n, -, hsent, -, hdone⟩ := sent_exchanges hheaders config answers elapse req none env
      have hresent := hall none
      rw [hsent, onlyTransientResent_exchanges] at hresent
      by_contra hother
      obtain ⟨hmay, hsettles⟩ := not_or.mp hother
      have hgoes : ∀ j ≤ i, GoesOn lib p (answers j) := by
        intro j hj
        rcases Nat.lt_or_eq_of_le hj with hlt | rfl
        · obtain ⟨b, hb, hbmay⟩ := hbefore j hlt
          exact ⟨b, hb, hbmay.not_settles⟩
        · exact ⟨a, ha, hsettles⟩
      -- so the call goes on past this answer, and sends the request again
      have hin : i < n := by
        by_contra hle
        exact hdone rfl (by omega) (hgoes n (by omega))
      obtain ⟨b, hb, hbmay⟩ := hresent i hin
      obtain rfl : a = b := by simpa [ha] using hb
      exact hmay hbmay
    · intro hfirst wait
      obtain ⟨n, hn, hsent, hgoing, -⟩ := sent_exchanges hheaders config answers elapse req wait env
      rw [hsent, onlyTransientResent_exchanges]
      intro i
      induction i using Nat.strong_induction_on with
      | _ i ih =>
        intro hin
        obtain ⟨a, ha, hsettles⟩ := hgoing i hin
        have hbefore : ∀ j < i, ∃ b, answers j = .ready b ∧ b.MayResend := by
          intro j hj
          exact ih j hj (by omega)
        rcases hfirst i (by omega) hbefore a ha with hmay | hsettled
        · exact ⟨a, ha, hmay⟩
        · exact absurd hsettled hsettles

end Loop

/-! ### A malformed request -/

namespace MalformedRequest

instance : Timer Unit where
  clock _ := 0
  sleep _ _ := ()
  random _ := (0, ())

def lib : HttpLibrary where
  displayStatus s := toString s.code
  parseF64 _ := none
  parseJson _ := .error "expected value at line 1 column 1"
  isHeaderName _ := true
  isHeaderValue _ := true
  toLowercase text := text
  reader := ⟨fun _ => none, fun _ _ => []⟩

/-- One retry, after a millisecond. -/
def config : RetryConfig := ⟨1, 1, 1, 0⟩

/-- The server rejects every request. -/
def badRequest (_ : Nat) : Answer HttpAnswer :=
  .ready (.received ⟨400, by decide⟩ none (.ok "messages: roles must alternate"))

def request : CompletionRequest := ⟨[], [], none, none, none, .null⟩

/-- A rejected request is posted a second time. -/
theorem bad_request_resent :
    ¬OnlyTransientResent (sent lib (.anthropic ⟨"m", false⟩ none) config badRequest (fun _ env => env)
      request none ()) := by
  intro hall
  have hlog : sent lib (.anthropic ⟨"m", false⟩ none) config badRequest (fun _ env => env) request
      none () = exchanges ⟨[("content-type", "application/json"),
        ("anthropic-version", "2023-06-01")],
        AnthropicProvider.buildPayload ⟨"m", false⟩ request⟩ badRequest 2 := by
    rfl
  rw [hlog, onlyTransientResent_exchanges] at hall
  obtain ⟨a, ha, hmay⟩ := hall 0 Nat.zero_lt_one
  obtain rfl := Answer.ready.inj ha
  simp [HttpAnswer.MayResend, StatusCode.isSuccess] at hmay

end MalformedRequest

end PgSynapse
