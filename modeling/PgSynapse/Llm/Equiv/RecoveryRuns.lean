import PgSynapse.Llm.Equiv.RecoveryLayer
import PgSynapse.Llm.Equiv.RetryLayer

/-!
# Recovering from overflows

A run of `RecoveryProvider` is a number of calls with a compaction between each two of them
(`RecoveryProvider.Trace`).  A retried list is the one before with its collapsed rows spliced out for
one digest, unless the compressor names none of its rows: then it is the same list, and the request
is sent as it was (`recovers_iff`).
-/

namespace PgSynapse

/-! ### Rebuilt lists, for any indices -/

/-- The positions a compaction names. -/
def Compressed.positions (c : Compressed) : List Nat := c.collapsedIndices.map UInt32.toNat

/-- **Spliced**: the rows before the first collapsed one, a digest in its place, and the rows behind
it that are not collapsed. -/
def Spliced (messages : List Message) (c : Compressed) (rebuilt : List Message) : Prop :=
  ∃ k m, messages[k]? = some m ∧ k ∈ c.positions ∧ (∀ j < k, j ∉ c.positions) ∧
    rebuilt = messages.take k ++ summaryMessage m c.summary ::
      rowsAt messages ((List.range' (k + 1) (messages.length - (k + 1))).filter (· ∉ c.positions))

/-- A compaction that names a row of the list. -/
def Compressed.NamesRow (c : Compressed) (messages : List Message) : Prop :=
  ∃ i ∈ c.collapsedIndices, i.toNat < messages.length

theorem ofNat_mem_iff {c : Compressed} {i : Nat} (hi : i < 2 ^ 32) :
    UInt32.ofNat i ∈ c.collapsedIndices ↔ i ∈ c.positions := by
  have hcast : (UInt32.ofNat i).toNat = i := by
    rw [UInt32.toNat_ofNat', Nat.mod_eq_of_lt hi]
  unfold Compressed.positions
  rw [List.mem_map]
  constructor
  · intro h
    exact ⟨_, h, hcast⟩
  · rintro ⟨x, hx, rfl⟩
    rwa [UInt32.ofNat_toNat]

/-- In a short enough list the positions that stay are those that are not named. -/
theorem stayingFrom_eq {c : Compressed} {i n : Nat} (h : i + n ≤ 2 ^ 32) :
    stayingFrom c.collapsedIndices i n = (List.range' i n).filter (· ∉ c.positions) := by
  unfold stayingFrom
  apply List.filter_congr
  intro j hj
  have hlt := (List.mem_range'_1.mp hj).2
  exact decide_eq_decide.mpr (not_congr (ofNat_mem_iff (by omega)))

/-- The row the digest takes its execution and time from is the first collapsed one. -/
theorem min_collapsed {messages : List Message} {c : Compressed} {k : Nat} {m : Message}
    (hm : messages[k]? = some m) (hk : k ∈ c.positions) (hfirst : ∀ j < k, j ∉ c.positions) :
    (c.collapsedIndices.min?.bind fun first => messages[first.toNat]?) = some m := by
  obtain ⟨x, hx, rfl⟩ := List.mem_map.mp hk
  cases hmin : c.collapsedIndices.min? with
  | none =>
    rw [List.min?_eq_none_iff.mp hmin] at hx
    exact absurd hx List.not_mem_nil
  | some first =>
    obtain ⟨hmem, hle⟩ := List.min?_eq_some_iff.mp hmin
    have hsame : first.toNat = x.toNat := by
      have hbelow : first.toNat ≤ x.toNat := UInt32.le_iff_toNat_le.mp (hle x hx)
      have habove : ¬ first.toNat < x.toNat := by
        intro hlt
        exact hfirst _ hlt (List.mem_map_of_mem hmem)
      omega
    rw [Option.bind_some, hsame, hm]

theorem rebuildFrom_spliced {messages : List Message} (summary : String) {c : Compressed} {k : Nat}
    {m : Message} (hlen : messages.length ≤ 2 ^ 32) (hm : messages[k]? = some m)
    (hk : k ∈ c.positions) (hfirst : ∀ j < k, j ∉ c.positions) {rest : List Message} {i : Nat}
    (hik : i ≤ k) (h : messages.drop i = rest) :
    rebuildFrom messages summary c.collapsedIndices i false rest =
      some ((messages.drop i).take (k - i) ++ summaryMessage m summary ::
        rowsAt messages
          ((List.range' (k + 1) (messages.length - (k + 1))).filter (· ∉ c.positions))) := by
  obtain ⟨hklt, -⟩ := List.getElem?_eq_some_iff.mp hm
  induction rest generalizing i with
  | nil =>
    have hlength := congrArg List.length h
    rw [List.length_drop, List.length_nil] at hlength
    omega
  | cons r rest ih =>
    obtain ⟨hr, hrest⟩ := drop_eq_cons h
    have hlength := congrArg List.length hrest
    rw [List.length_drop] at hlength
    have hmem := ofNat_mem_iff (c := c) (show i < 2 ^ 32 by omega)
    rw [rebuildFrom]
    rcases Nat.eq_or_lt_of_le hik with rfl | hlt
    · -- the first collapsed row: the digest goes in, and the rest is copied
      have hstaying : stayingFrom c.collapsedIndices (i + 1) rest.length =
          (List.range' (i + 1) (messages.length - (i + 1))).filter (· ∉ c.positions) := by
        rw [← hlength]
        exact stayingFrom_eq (by omega)
      rw [if_pos (hmem.mpr hk), if_neg (by decide), min_collapsed hm hk hfirst,
        rebuildFrom_inserted messages summary c.collapsedIndices hrest, hstaying, Nat.sub_self]
      rfl
    · have hskip : (messages.drop i).take (k - i) =
          r :: (messages.drop (i + 1)).take (k - (i + 1)) := by
        rw [h, hrest, show k - i = k - (i + 1) + 1 by omega, List.take_succ_cons]
      rw [if_neg (fun hc => hfirst i hlt (hmem.mp hc)), ih (by omega) hrest, hskip]
      rfl

/-- Where no row is collapsed the list stays as it is. -/
theorem rebuildFrom_same {messages : List Message} (summary : String) {collapsed : List UInt32}
    {rest : List Message} {i : Nat}
    (h : ∀ j, i ≤ j → j < i + rest.length → UInt32.ofNat j ∉ collapsed) :
    rebuildFrom messages summary collapsed i false rest = some rest := by
  induction rest generalizing i with
  | nil => rfl
  | cons r rest ih =>
    rw [List.length_cons] at h
    have htail := ih (i := i + 1) (fun j hj hlt => h j (by omega) (by omega))
    rw [rebuildFrom, if_neg (h i le_rfl (by omega)), htail]
    rfl

theorem Spliced.length_le {messages rebuilt : List Message} {c : Compressed}
    (h : Spliced messages c rebuilt) : rebuilt.length ≤ messages.length := by
  obtain ⟨k, m, hm, -, -, rfl⟩ := h
  obtain ⟨hlt, -⟩ := List.getElem?_eq_some_iff.mp hm
  have hkept : (rowsAt messages ((List.range' (k + 1) (messages.length - (k + 1))).filter
      (· ∉ c.positions))).length ≤ messages.length - (k + 1) := by
    refine (List.length_filterMap_le _ _).trans ((List.length_filter_le _ _).trans ?_)
    rw [List.length_range']
  rw [List.length_append, List.length_take, List.length_cons]
  omega

theorem Spliced.namesRow {messages rebuilt : List Message} {c : Compressed}
    (h : Spliced messages c rebuilt) : c.NamesRow messages := by
  obtain ⟨k, m, hm, hk, -⟩ := h
  obtain ⟨hlt, -⟩ := List.getElem?_eq_some_iff.mp hm
  obtain ⟨i, hi, rfl⟩ := List.mem_map.mp hk
  exact ⟨i, hi, hlt⟩

/-- **The rebuilt list of any compaction**: spliced where it names a row, else as it was. -/
theorem rebuildMessages_any {messages : List Message} (c : Compressed)
    (hlen : messages.length ≤ 2 ^ 32) :
    ∃ rebuilt, rebuildMessages messages c.summary c.collapsedIndices = some rebuilt ∧
      rebuilt.length ≤ messages.length ∧ (c.NamesRow messages → Spliced messages c rebuilt) := by
  by_cases hnames : c.NamesRow messages
  · -- the first position that is named
    have hsome : ∃ k, k ∈ c.positions ∧ k < messages.length := by
      obtain ⟨i, hi, hlt⟩ := hnames
      exact ⟨i.toNat, List.mem_map_of_mem hi, hlt⟩
    obtain ⟨hk, hlt⟩ := Nat.find_spec hsome
    have hfirst : ∀ j < Nat.find hsome, j ∉ c.positions := by
      intro j hj hmem
      exact Nat.find_min hsome hj ⟨hmem, by omega⟩
    have hm := List.getElem?_eq_getElem hlt
    have hspliced := rebuildFrom_spliced c.summary hlen hm hk hfirst (Nat.zero_le _) List.drop_zero
    have hlist : Spliced messages c _ := ⟨_, _, hm, hk, hfirst, rfl⟩
    exact ⟨_, hspliced, hlist.length_le, fun _ => hlist⟩
  · have hnone : ∀ j, 0 ≤ j → j < 0 + messages.length →
        UInt32.ofNat j ∉ c.collapsedIndices := by
      rintro j - hj hmem
      refine hnames ⟨_, hmem, ?_⟩
      rw [UInt32.toNat_ofNat']
      exact (Nat.mod_le _ _).trans_lt (by omega)
    exact ⟨messages, rebuildFrom_same c.summary hnone, le_rfl, fun h => absurd h hnames⟩

/-! ### Runs -/

variable {σ : Type}

/-- What a compressor does that answers every time: the answer, and what becomes of the outside. -/
abbrev CompressorBehaviour (σ : Type) :=
  List Message → CompressionBudget → σ → Except CompressionError Compressed × σ

/-- The outside, with the calls of the provider and of the compressor so far, and what each of them
was given and returned. -/
structure Watched (σ : Type) where
  outside : σ
  calls : List (CompletionRequest × Except LlmError CompletionResponse)
  compactions : List (List Message × Except CompressionError Compressed)

instance [Timer σ] : Timer (Watched σ) where
  clock s := Timer.clock s.outside
  sleep ms s := { s with outside := Timer.sleep ms s.outside }
  random s := ((Timer.random s.outside).1, { s with outside := (Timer.random s.outside).2 })

/-- After a call of the provider. -/
def Behaviour.called (f : Behaviour σ) (req : CompletionRequest) (s : Watched σ) : Watched σ :=
  ⟨(f req s.outside).2, s.calls ++ [(req, (f req s.outside).1)], s.compactions⟩

/-- After a call of the compressor. -/
def CompressorBehaviour.called (g : CompressorBehaviour σ) (messages : List Message)
    (budget : CompressionBudget) (s : Watched σ) : Watched σ :=
  ⟨(g messages budget s.outside).2, s.calls,
    s.compactions ++ [(messages, (g messages budget s.outside).1)]⟩

/-- The provider of a behaviour, watched. -/
def Behaviour.watched (f : Behaviour σ) (modelName : String)
    (capabilities : ProviderCapabilities) : DynProvider (Watched σ) where
  modelName := modelName
  complete req _ s := (.ready (f req s.outside).1, f.called req s)
  capabilities := capabilities

/-- The compressor of a behaviour, watched. -/
def CompressorBehaviour.watched (g : CompressorBehaviour σ) : Compressor (Watched σ) where
  compress messages budget _ s := (.ready (g messages budget s.outside).1, g.called messages budget s)

/-- A context overflow. -/
def Overflow (r : Except LlmError CompletionResponse) : Prop :=
  ∃ model tokens limit, r = .error (.contextLengthExceeded model tokens limit)

namespace RecoveryProvider

/-- A run with so many compactions left: the request, the calls, the compactions and the result. -/
inductive Trace : Nat → CompletionRequest →
    List (CompletionRequest × Except LlmError CompletionResponse) →
    List (List Message × Except CompressionError Compressed) →
    Except LlmError CompletionResponse → Prop where
  | passed {left req r} (h : ¬ Overflow r) : Trace left req [(req, r)] [] r
  | spent {req r} (h : Overflow r) : Trace 0 req [(req, r)] [] r
  | refused {left req r answer} (h : Overflow r)
      (hnone : ∀ c, answer = .ok c → c.collapsedIndices = []) :
      Trace (left + 1) req [(req, r)] [(req.messages, answer)] r
  | retried {left req r c messages calls compactions last} (h : Overflow r)
      (hsome : c.collapsedIndices ≠ [])
      (hrebuilt : rebuildMessages req.messages c.summary c.collapsedIndices = some messages)
      (rest : Trace left { req with messages := messages } calls compactions last) :
      Trace (left + 1) req ((req, r) :: calls) ((req.messages, .ok c) :: compactions) last

variable [Timer σ]

section Step

variable {inner : DynProvider σ} {compressor : Compressor σ} {config : RecoveryConfig} {left : Nat}
  {req : CompletionRequest} {wait : Option Nat} {env env' env'' : σ} {model : String}
  {tokens limit : UInt32}

/-- The budget of a compaction after an overflow at `limit`. -/
def budgetFor (config : RecoveryConfig) (limit : UInt32) : CompressionBudget :=
  ⟨truncToU32 ((limit.toNat : Rat) * config.targetRatio), limit⟩

theorem attempts_passed {r : Except LlmError CompletionResponse}
    (hcall : inner.complete req wait env = (.ready r, env')) (h : ¬ Overflow r) :
    attempts inner compressor config left req wait env = (.ready r, env') := by
  rw [attempts.eq_def]
  simp only [hcall]
  rcases r with (_ | _ | _ | ⟨model, tokens, limit⟩ | _ | _) | _
  case error.contextLengthExceeded => exact absurd ⟨model, tokens, limit, rfl⟩ h
  all_goals rfl

theorem attempts_spent
    (hcall : inner.complete req wait env =
      (.ready (.error (.contextLengthExceeded model tokens limit)), env')) :
    attempts inner compressor config 0 req wait env =
      (.ready (.error (.contextLengthExceeded model tokens limit)), env') := by
  rw [attempts.eq_def]
  simp only [hcall]

theorem attempts_refused {answer : Except CompressionError Compressed}
    (hcall : inner.complete req wait env =
      (.ready (.error (.contextLengthExceeded model tokens limit)), env'))
    (hcompress : compressor.compress req.messages (budgetFor config limit)
      (Timer.remaining wait env env') env' = (.ready answer, env''))
    (hnone : ∀ c, answer = .ok c → c.collapsedIndices = []) :
    attempts inner compressor config (left + 1) req wait env =
      (.ready (.error (.contextLengthExceeded model tokens limit)), env'') := by
  unfold budgetFor at hcompress
  rw [attempts.eq_def]
  simp only [hcall, hcompress]
  cases answer with
  | error _ => rfl
  | ok c =>
    have hempty : c.collapsedIndices.isEmpty = true := List.isEmpty_iff.mpr (hnone c rfl)
    simp only [hempty, if_true]

theorem attempts_retried {c : Compressed} {messages : List Message}
    (hcall : inner.complete req wait env =
      (.ready (.error (.contextLengthExceeded model tokens limit)), env'))
    (hcompress : compressor.compress req.messages (budgetFor config limit)
      (Timer.remaining wait env env') env' = (.ready (.ok c), env''))
    (hsome : c.collapsedIndices ≠ [])
    (hrebuilt : rebuildMessages req.messages c.summary c.collapsedIndices = some messages) :
    attempts inner compressor config (left + 1) req wait env =
      attempts inner compressor config left { req with messages := messages }
        (Timer.remaining wait env env'') env'' := by
  unfold budgetFor at hcompress
  have hnonempty : ¬ c.collapsedIndices.isEmpty = true := fun h => hsome (List.isEmpty_iff.mp h)
  rw [attempts.eq_def]
  simp only [hcall, hcompress, if_neg hnonempty, hrebuilt]

end Step

/-- **Every run is a trace**: nothing in it panics or waits for ever. -/
theorem attempts_trace (f : Behaviour σ) (modelName : String) (capabilities : ProviderCapabilities)
    (g : CompressorBehaviour σ) (config : RecoveryConfig) (left : Nat) {req : CompletionRequest}
    (hlen : req.messages.length ≤ 2 ^ 32) (wait : Option Nat) (s : Watched σ) :
    ∃ calls compactions r s',
      attempts (f.watched modelName capabilities) g.watched config left req wait s =
        (.ready r, s') ∧
      s'.calls = s.calls ++ calls ∧ s'.compactions = s.compactions ++ compactions ∧
      Trace left req calls compactions r := by
  -- on the retries that are left; the request and the time change from one to the next
  induction left generalizing req wait s with
  | zero =>
    have hcall : (f.watched modelName capabilities).complete req wait s =
        (.ready (f req s.outside).1, f.called req s) := rfl
    refine ⟨[(req, (f req s.outside).1)], [], (f req s.outside).1, f.called req s, ?_, rfl,
      (List.append_nil _).symm, ?_⟩
    · by_cases h : Overflow (f req s.outside).1
      · obtain ⟨model, tokens, limit, heq⟩ := h
        rw [heq] at hcall ⊢
        exact attempts_spent hcall
      · exact attempts_passed hcall h
    · by_cases h : Overflow (f req s.outside).1
      · exact .spent h
      · exact .passed h
  | succ left ih =>
    have hcall : (f.watched modelName capabilities).complete req wait s =
        (.ready (f req s.outside).1, f.called req s) := rfl
    by_cases h : Overflow (f req s.outside).1
    case neg =>
      exact ⟨[(req, (f req s.outside).1)], [], (f req s.outside).1, f.called req s,
        attempts_passed hcall h, rfl, (List.append_nil _).symm, .passed h⟩
    obtain ⟨model, tokens, limit, heq⟩ := id h
    rw [heq] at hcall
    have hcompress (remaining : Option Nat) :
        g.watched.compress req.messages (budgetFor config limit) remaining (f.called req s) =
          (.ready (g req.messages (budgetFor config limit) (f req s.outside).2).1,
            g.called req.messages (budgetFor config limit) (f.called req s)) := rfl
    rcases hanswer : (g req.messages (budgetFor config limit) (f req s.outside).2).1 with e | c
    -- the compressor refused: what the model said is passed on
    · have hnone : ∀ c, (.error e : Except CompressionError Compressed) = .ok c →
          c.collapsedIndices = [] := by
        intro c hc
        cases hc
      rw [hanswer] at hcompress
      refine ⟨[(req, (f req s.outside).1)], [(req.messages, .error e)], (f req s.outside).1,
        g.called req.messages (budgetFor config limit) (f.called req s), ?_, rfl, ?_,
        .refused h hnone⟩
      · rw [attempts_refused hcall (hcompress _) hnone, heq]
      · exact congrArg (fun answer => s.compactions ++ [(req.messages, answer)]) hanswer
    · rw [hanswer] at hcompress
      have hcompactions : (g.called req.messages (budgetFor config limit)
          (f.called req s)).compactions = s.compactions ++ [(req.messages, .ok c)] :=
        congrArg (fun answer => s.compactions ++ [(req.messages, answer)]) hanswer
      by_cases hsome : c.collapsedIndices = []
      -- it answered and collapsed nothing, which is no progress
      · have hnone : ∀ c', (.ok c : Except CompressionError Compressed) = .ok c' →
            c'.collapsedIndices = [] := by
          rintro c' hc
          rw [← Except.ok.inj hc]
          exact hsome
        refine ⟨[(req, (f req s.outside).1)], [(req.messages, .ok c)], (f req s.outside).1,
          g.called req.messages (budgetFor config limit) (f.called req s), ?_, rfl, hcompactions,
          .refused h hnone⟩
        rw [attempts_refused hcall (hcompress _) hnone, heq]
      · -- the request is sent again with the rebuilt list
        obtain ⟨messages, hrebuilt, hshort, -⟩ := rebuildMessages_any c hlen
        have hnext : ({ req with messages } : CompletionRequest).messages.length ≤ 2 ^ 32 :=
          hshort.trans hlen
        obtain ⟨calls, compactions, r, s', hrun, hcalls, hcomps, htrace⟩ :=
          ih hnext (Timer.remaining wait s (g.called req.messages (budgetFor config limit)
              (f.called req s)))
            (g.called req.messages (budgetFor config limit) (f.called req s))
        refine ⟨(req, (f req s.outside).1) :: calls, (req.messages, .ok c) :: compactions, r, s',
          ?_, ?_, ?_, .retried h hsome hrebuilt htrace⟩
        · rw [attempts_retried hcall (hcompress _) hsome hrebuilt]
          exact hrun
        · rw [hcalls]
          exact List.append_assoc _ _ _
        · rw [hcomps, hcompactions]
          exact List.append_assoc _ _ _

/-! ### What a run should be -/

/-- A compaction that names a row, or none at all. -/
def Names (compaction : List Message × Except CompressionError Compressed) : Prop :=
  ∀ c, compaction.2 = .ok c → c.collapsedIndices ≠ [] → c.NamesRow compaction.1

/-- **A recovery** of a request within so many retries: every result but the last is an overflow, the
last is returned, and each request differs from the one before in its messages only, which are the
spliced ones of the compaction between them. -/
structure Recovers (retries : Nat) (req : CompletionRequest)
    (calls : List (CompletionRequest × Except LlmError CompletionResponse))
    (compactions : List (List Message × Except CompressionError Compressed))
    (r : Except LlmError CompletionResponse) : Prop where
  first : calls.head?.map Prod.fst = some req
  bounded : calls.length ≤ retries + 1
  overflows : ∀ call ∈ calls.dropLast, Overflow call.2
  returned : calls.getLast?.map Prod.snd = some r
  spliced : ∀ k a b, calls[k]? = some a → calls[k + 1]? = some b →
    ∃ c, compactions[k]? = some (a.1.messages, .ok c) ∧
      b.1 = { a.1 with messages := b.1.messages } ∧ Spliced a.1.messages c b.1.messages

theorem Trace.first {left : Nat} {req : CompletionRequest}
    {calls : List (CompletionRequest × Except LlmError CompletionResponse)}
    {compactions : List (List Message × Except CompressionError Compressed)}
    {r : Except LlmError CompletionResponse} (h : Trace left req calls compactions r) :
    ∃ r₁ rest, calls = (req, r₁) :: rest := by
  cases h with
  | passed => exact ⟨_, _, rfl⟩
  | spent => exact ⟨_, _, rfl⟩
  | refused => exact ⟨_, _, rfl⟩
  | retried => exact ⟨_, _, rfl⟩

/-- One call, whose result is returned. -/
theorem Recovers.single (left : Nat) (req : CompletionRequest)
    (compactions : List (List Message × Except CompressionError Compressed))
    (r : Except LlmError CompletionResponse) : Recovers left req [(req, r)] compactions r where
  first := rfl
  bounded := by simp
  overflows call hcall := absurd hcall List.not_mem_nil
  returned := rfl
  spliced k a b _ hb := by simp at hb

/-- One more call in front: its result is an overflow, and the compaction behind it splices. -/
theorem recovers_cons_iff {left : Nat} {req req' : CompletionRequest}
    {calls : List (CompletionRequest × Except LlmError CompletionResponse)}
    {compactions : List (List Message × Except CompressionError Compressed)}
    {r r' last : Except LlmError CompletionResponse} {c : Compressed} (hoverflow : Overflow r)
    (hreq : req' = { req with messages := req'.messages }) :
    Recovers (left + 1) req ((req, r) :: (req', r') :: calls)
        ((req.messages, .ok c) :: compactions) last ↔
      Spliced req.messages c req'.messages ∧
        Recovers left req' ((req', r') :: calls) compactions last := by
  constructor
  · intro h
    obtain ⟨c', hc', -, hspliced⟩ := h.spliced 0 (req, r) (req', r') rfl rfl
    have hsame : c' = c := (Except.ok.inj (Prod.mk.inj (Option.some.inj hc')).2).symm
    rw [hsame] at hspliced
    have hbounded := h.bounded
    rw [List.length_cons] at hbounded
    refine ⟨hspliced, rfl, by omega, ?_, ?_, ?_⟩
    · intro call hcall
      exact h.overflows call (List.mem_cons_of_mem _ hcall)
    · rw [← h.returned, List.getLast?_cons_cons]
    · intro k a b ha hb
      exact h.spliced (k + 1) a b ha hb
  · rintro ⟨hspliced, h⟩
    have hbounded := h.bounded
    refine ⟨rfl, ?_, ?_, ?_, ?_⟩
    · rw [List.length_cons]
      omega
    · intro call hcall
      rcases List.mem_cons.mp hcall with rfl | hrest
      · exact hoverflow
      · exact h.overflows call hrest
    · rw [List.getLast?_cons_cons]
      exact h.returned
    · intro k a b ha hb
      cases k with
      | zero =>
        obtain rfl := Option.some.inj ha
        obtain rfl := Option.some.inj hb
        exact ⟨c, rfl, hreq, hspliced⟩
      | succ k => exact h.spliced k a b ha hb

/-- **A trace is a recovery** exactly when no compaction names only rows that are not there. -/
theorem Trace.recovers_iff {left : Nat} {req : CompletionRequest}
    {calls : List (CompletionRequest × Except LlmError CompletionResponse)}
    {compactions : List (List Message × Except CompressionError Compressed)}
    {r : Except LlmError CompletionResponse} (h : Trace left req calls compactions r)
    (hlen : req.messages.length ≤ 2 ^ 32) :
    Recovers left req calls compactions r ↔ ∀ compaction ∈ compactions, Names compaction := by
  induction h with
  | passed => exact ⟨fun _ _ hmem => absurd hmem List.not_mem_nil, fun _ => .single _ _ _ _⟩
  | spent => exact ⟨fun _ _ hmem => absurd hmem List.not_mem_nil, fun _ => .single _ _ _ _⟩
  | refused _ hnone =>
    refine ⟨fun _ compaction hmem c hc hsome => ?_, fun _ => .single _ _ _ _⟩
    rw [List.mem_singleton.mp hmem] at hc
    exact absurd (hnone c hc) hsome
  | @retried left req r c messages calls compactions last hoverflow hsome hrebuilt rest ih =>
    obtain ⟨rebuilt, heq, hshort, hspliced⟩ := rebuildMessages_any c hlen
    obtain rfl : rebuilt = messages := Option.some.inj (heq.symm.trans hrebuilt)
    obtain ⟨r', calls, rfl⟩ := rest.first
    have hsplice : Spliced req.messages c rebuilt ↔ Names (req.messages, .ok c) := by
      constructor
      · intro h c' hc' _
        rw [← Except.ok.inj hc']
        exact h.namesRow
      · intro h
        exact hspliced (h c rfl hsome)
    rw [recovers_cons_iff hoverflow rfl, ih (hshort.trans hlen), hsplice, List.forall_mem_cons]

/-! ### The wrapper -/

/-- Nothing called yet. -/
def Watched.start (outside : σ) : Watched σ := ⟨outside, [], []⟩

/-- **The wrapper recovers** from overflows, for every provider and every compressor, exactly when
no compaction it goes by names only rows that the list does not have. -/
theorem recovers_unless_out_of_range (f : Behaviour σ) (modelName : String)
    (capabilities : ProviderCapabilities) (g : CompressorBehaviour σ) (config : RecoveryConfig)
    (req : CompletionRequest) (hlen : req.messages.length < 2 ^ 32) (wait : Option Nat)
    (outside : σ) :
    (∃ r, ((layer g.watched config (f.watched modelName capabilities)).complete req wait
          (Watched.start outside)).1 = .ready r ∧
        Recovers config.maxAttempts.toNat req
          ((layer g.watched config (f.watched modelName capabilities)).complete req wait
            (Watched.start outside)).2.calls
          ((layer g.watched config (f.watched modelName capabilities)).complete req wait
            (Watched.start outside)).2.compactions r) ↔
      ∀ compaction ∈ ((layer g.watched config (f.watched modelName capabilities)).complete req wait
        (Watched.start outside)).2.compactions, Names compaction := by
  obtain ⟨calls, compactions, r, s, hrun, hcalls, hcomps, htrace⟩ :=
    attempts_trace f modelName capabilities g config config.maxAttempts.toNat hlen.le wait
      (Watched.start outside)
  have hcomplete : (layer g.watched config (f.watched modelName capabilities)).complete req wait
      (Watched.start outside) = (.ready r, s) := hrun
  rw [hcomplete, hcalls, hcomps]
  show (∃ r', Answer.ready r = .ready r' ∧ Recovers _ req calls compactions r') ↔
    ∀ compaction ∈ compactions, Names compaction
  rw [← htrace.recovers_iff hlen.le]
  constructor
  · rintro ⟨r', hr, h⟩
    rwa [Answer.ready.inj hr]
  · intro h
    exact ⟨r, rfl, h⟩

/-! ### Indices that are not there -/

/-- A request with one question. -/
def oneQuestion : CompletionRequest where
  messages := [⟨⟨0⟩, 0, .user, some "Where?", none, none, none, none, "t"⟩]
  tools := []
  model := none
  temperature := none
  maxTokens := none
  params := .null

/-- A provider for which every request is too long. -/
def tooLong : Behaviour Nat := fun _ n => (.error (.contextLengthExceeded "m" 20 10), n)

/-- A compressor that names the same rows every time. -/
def namesRows (rows : List UInt32) : CompressorBehaviour Nat :=
  fun _ _ n => (.ok ⟨"digest", rows⟩, n)

/-- A compressor that names row 7 of one row: nothing is collapsed, no digest goes in, and the
request that was too long is sent a second time as it was. -/
theorem request_sent_unchanged :
    ((layer (namesRows [7]).watched ⟨1, 1 / 2⟩ (tooLong.watched "m" .default)).complete oneQuestion
        none (Watched.start 0)).2.calls.map Prod.fst = [oneQuestion, oneQuestion] ∧
      ¬ ∃ r, ((layer (namesRows [7]).watched ⟨1, 1 / 2⟩ (tooLong.watched "m" .default)).complete
            oneQuestion none (Watched.start 0)).1 = .ready r ∧
          Recovers 1 oneQuestion
            ((layer (namesRows [7]).watched ⟨1, 1 / 2⟩ (tooLong.watched "m" .default)).complete
              oneQuestion none (Watched.start 0)).2.calls
            ((layer (namesRows [7]).watched ⟨1, 1 / 2⟩ (tooLong.watched "m" .default)).complete
              oneQuestion none (Watched.start 0)).2.compactions r := by
  refine ⟨rfl, ?_⟩
  rintro ⟨r, -, h⟩
  obtain ⟨c, hc, -, hspliced⟩ := h.spliced 0 _ _ rfl rfl
  have hcompaction : c = ⟨"digest", [7]⟩ :=
    (Except.ok.inj (Prod.mk.inj (Option.some.inj hc)).2).symm
  obtain ⟨i, hi, hlt⟩ := hspliced.namesRow
  rw [hcompaction] at hi
  rw [List.mem_singleton.mp hi] at hlt
  exact absurd hlt (by decide)

/-- A compressor that names the one row, and another that is not there: the digest stands alone. -/
theorem overflow_recovered :
    ∃ r, ((layer (namesRows [9, 0]).watched ⟨1, 1 / 2⟩ (tooLong.watched "m" .default)).complete
          oneQuestion none (Watched.start 0)).1 = .ready r ∧
        Recovers 1 oneQuestion
          ((layer (namesRows [9, 0]).watched ⟨1, 1 / 2⟩ (tooLong.watched "m" .default)).complete
            oneQuestion none (Watched.start 0)).2.calls
          ((layer (namesRows [9, 0]).watched ⟨1, 1 / 2⟩ (tooLong.watched "m" .default)).complete
            oneQuestion none (Watched.start 0)).2.compactions r := by
  apply (recovers_unless_out_of_range tooLong "m" .default (namesRows [9, 0]) ⟨1, 1 / 2⟩ oneQuestion
    (by decide) none 0).mpr
  intro compaction hmem c hc _
  have honly : compaction = (oneQuestion.messages, .ok ⟨"digest", [9, 0]⟩) :=
    List.mem_singleton.mp hmem
  rw [honly] at hc ⊢
  rw [← Except.ok.inj hc]
  exact ⟨0, by decide, by decide⟩

end RecoveryProvider

end PgSynapse
