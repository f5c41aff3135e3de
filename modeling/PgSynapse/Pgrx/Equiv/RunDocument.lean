import PgSynapse.Pgrx.Equiv.UuidIn
import PgSynapse.Pgrx.Execute

/-!
# Rows from a document

What `synapse.record_run` reads out of a document is what `log_execution` put into it, entry by entry
(`readMessage_messageEntry`, `readTrace_eventEntry`, `readExecution_executionEntry`).  The document is
refused for U+0000 in one of its texts, for a number that its column cannot hold, and for an id that is
taken (`recordRun_logExecution`).
-/

namespace PgSynapse

/-! ### Ids -/

namespace Uuid

/-- A printed id has no U+0000. -/
theorem text_noNul (u : Uuid) : Text.noNul u.text = true := by
  have hdigit : ∀ n, (n % 16).digitChar ≠ Char.ofNat 0 := by
    intro n
    have hall : ∀ d < 16, d.digitChar ≠ Char.ofNat 0 := by decide
    exact hall _ (Nat.mod_lt n (by decide))
  have hhyphen : '-' ≠ Char.ofNat 0 := by decide
  rw [Text.noNul, Bool.not_eq_true', ← Bool.not_eq_true, List.contains_iff_mem]
  unfold text
  rw [String.toList_ofList]
  simp only [List.mem_append, List.mem_cons, List.mem_map, not_or, not_exists, not_and]
  exact ⟨⟨⟨⟨fun i _ => hdigit _, hhyphen.symm, fun i _ => hdigit _⟩, hhyphen.symm,
    fun i _ => hdigit _⟩, hhyphen.symm, fun i _ => hdigit _⟩, hhyphen.symm, fun i _ => hdigit _⟩

end Uuid

/-! ### Objects -/

namespace Value

theorem mem_insertField {key k : String} {v : Value} {fields : List (String × Value)} :
    k ∈ (insertField key v fields).map Prod.fst ↔ k = key ∨ k ∈ fields.map Prod.fst := by
  induction fields with
  | nil => simp [insertField]
  | cons f rest ih =>
    obtain ⟨l, w⟩ := f
    rw [insertField]
    split_ifs with hl hlt
    · subst hl
      simp
    · simp
    · rw [List.map_cons, List.mem_cons, ih, List.map_cons, List.mem_cons]
      exact or_left_comm

/-- A new member is stored with the others. -/
theorem storableFields_insertField {key : String} (v : Value) {fields : List (String × Value)}
    (hkey : key ∉ fields.map Prod.fst) :
    storableFields (insertField key v fields) =
      (Text.noNul key && v.storable && storableFields fields) := by
  induction fields with
  | nil => simp [insertField, storableFields]
  | cons f rest ih =>
    obtain ⟨l, w⟩ := f
    rw [List.map_cons, List.mem_cons, not_or] at hkey
    rw [insertField, if_neg hkey.1]
    split_ifs with hlt
    · simp only [storableFields]
    · rw [storableFields, ih hkey.2, storableFields]
      exact Bool.and_left_comm _ _ _

/-- **An object** can be stored just if its keys and its members can. -/
theorem storable_obj {fields : List (String × Value)} (hnodup : (fields.map Prod.fst).Nodup) :
    (obj fields).storable = fields.all fun f => Text.noNul f.1 && f.2.storable := by
  have hgrow : (obj fields).storable = fields.all (fun f => Text.noNul f.1 && f.2.storable) ∧
      ∀ k, k ∈ (fields.foldl (fun acc kv => insertField kv.1 kv.2 acc) []).map Prod.fst ↔
        k ∈ fields.map Prod.fst := by
    induction fields using List.reverseRecOn with
    | nil => exact ⟨rfl, fun k => Iff.rfl⟩
    | append_singleton fields f ih =>
      rw [List.map_append, List.nodup_append] at hnodup
      obtain ⟨hold, hkeys⟩ := ih hnodup.1
      have hnew : f.1 ∉ (fields.foldl (fun acc kv => insertField kv.1 kv.2 acc) []).map Prod.fst :=
        fun h => hnodup.2.2 f.1 ((hkeys f.1).mp h) f.1 (by simp) rfl
      constructor
      · show storableFields (List.foldl _ [] (fields ++ [f])) = _
        rw [List.foldl_append, List.foldl_cons, List.foldl_nil, storableFields_insertField _ hnew,
          List.all_append, ← hold, Bool.and_comm]
        simp only [List.all_cons, List.all_nil, Bool.and_true]
        rfl
      · intro k
        rw [List.foldl_append, List.foldl_cons, List.foldl_nil, mem_insertField, hkeys,
          List.map_append, List.mem_append, List.map_singleton, List.mem_singleton]
        exact or_comm
  exact hgrow.1

theorem storable_ofOption (s : Option String) : (ofOption s).storable = s.all Text.noNul := by
  cases s <;> rfl

theorem storable_getD (v : Option Value) : (v.getD .null).storable = v.all storable := by
  cases v <;> rfl

theorem storableItems_eq (items : List Value) : storableItems items = items.all storable := by
  induction items with
  | nil => rfl
  | cons v rest ih => rw [storableItems, ih, List.all_cons]

/-- One more member. -/
theorem set_obj (fields : List (String × Value)) (key : String) (v : Value) :
    (obj fields).set key v = obj (fields ++ [(key, v)]) := by
  rw [obj, obj, List.foldl_append]
  rfl

/-- The first member of a name is the only one. -/
theorem lookup_of_mem {fields : List (String × Value)} (hnodup : (fields.map Prod.fst).Nodup)
    {key : String} {v : Value} (h : (key, v) ∈ fields) : fields.lookup key = some v := by
  induction fields with
  | nil => cases h
  | cons f rest ih =>
    obtain ⟨hnotMem, hrest⟩ := List.nodup_cons.mp hnodup
    rcases List.mem_cons.mp h with rfl | h
    · exact List.lookup_cons_self
    · have hne : key ≠ f.1 := by
        rintro rfl
        exact hnotMem (List.mem_map.mpr ⟨_, h, rfl⟩)
      rw [List.lookup_cons, beq_eq_false_iff_ne.mpr hne]
      exact ih hrest h

theorem get?_obj_of_mem {fields : List (String × Value)} (hnodup : (fields.map Prod.fst).Nodup)
    {key : String} {v : Value} (h : (key, v) ∈ fields) : (obj fields).get? key = some v := by
  have hreverse : (fields.reverse.map Prod.fst).Nodup := by
    rw [List.map_reverse]
    exact List.nodup_reverse.mpr hnodup
  rw [get?_obj, lookup_of_mem hreverse (List.mem_reverse.mpr h)]

/-- **A column** of an object is its member of that name. -/
theorem column_obj {fields : List (String × Value)} (hnodup : (fields.map Prod.fst).Nodup)
    {key : String} {v : Value} (h : (key, v) ∈ fields) : (obj fields).column key = v := by
  rw [column, get?_obj_of_mem hnodup h]
  rfl

@[simp] theorem textColumn_ofOption (s : Option String) : (ofOption s).textColumn = some s := by
  cases s <;> rfl

@[simp] theorem textColumn_string (s : String) : (string s).textColumn = some (some s) := rfl

@[simp] theorem uuidColumn_text (u : Uuid) : (string u.text).uuidColumn = some (some u) := by
  rw [uuidColumn, Uuid.read_text]
  rfl

/-- A count that its column can hold. -/
theorem intColumn_nat {bits n : Nat} (h : n < 2 ^ (bits - 1)) :
    (nat n).intColumn bits = some (some (n : Int)) := by
  have hint : (n : Int) < 2 ^ (bits - 1) := by exact_mod_cast h
  have hlow : -2 ^ (bits - 1) ≤ (n : Int) := by
    have hpow : (0 : Int) ≤ 2 ^ (bits - 1) := Int.pow_nonneg (by decide)
    omega
  exact if_pos ⟨hlow, hint⟩

theorem intColumn_nat_of_le {bits n : Nat} (h : 2 ^ (bits - 1) ≤ n) :
    (nat n).intColumn bits = none := by
  have hint : (2 : Int) ^ (bits - 1) ≤ n := by exact_mod_cast h
  exact if_neg fun hfit => by omega

theorem jsonbColumn_getD (v : Option Value) : (v.getD .null).jsonbColumn = v.bind jsonbColumn := by
  cases v <;> rfl

end Value

/-- A traversal with a check: it gives all results, or fails where an element does. -/
theorem mapM_of_checked {α β γ : Type} {f : α → β} {g : β → Option γ} {p : α → Prop}
    [DecidablePred p] {h : α → γ} (hg : ∀ a, g (f a) = if p a then some (h a) else none)
    (as : List α) :
    (as.map f).mapM g = if ∀ a ∈ as, p a then some (as.map h) else none := by
  induction as with
  | nil => rfl
  | cons a rest ih =>
    rw [List.map_cons, List.mapM_cons, hg, ih]
    by_cases ha : p a
    · by_cases hrest : ∀ b ∈ rest, p b
      · rw [if_pos ha, if_pos hrest, if_pos (List.forall_mem_cons.mpr ⟨ha, hrest⟩)]
        rfl
      · rw [if_pos ha, if_neg hrest, if_neg fun h => hrest (List.forall_mem_cons.mp h).2]
        rfl
    · rw [if_neg ha, if_neg fun h => ha (List.forall_mem_cons.mp h).1]
      rfl

namespace RunDocument

/-! ### Rows -/

/-- Whether the texts of a message can be stored. -/
def textsStorable (m : Message) : Bool :=
  m.content.all Text.noNul && m.toolCallId.all Text.noNul && m.toolName.all Text.noNul &&
    m.toolInput.all Value.storable && m.toolOutput.all Value.storable

/-- The row of a message.  JSON null becomes NULL. -/
def messageRow (id : Uuid) (now : Nat) (m : Message) : MessageRow where
  executionId := id
  seq := m.seq.toNat
  role := m.role.text
  content := m.content
  toolCallId := m.toolCallId
  toolName := m.toolName
  toolInput := m.toolInput.bind Value.jsonbColumn
  toolOutput := m.toolOutput.bind Value.jsonbColumn
  ts := now

/-- The row of an event. -/
def traceRow (id : Uuid) (now : Nat) (ev : ExecutionEvent × Nat) : TraceRow where
  executionId := id
  seq := ev.2
  event := ev.1.kind.asStr
  payload := ev.1.payload.jsonbColumn
  ts := now

theorem noNul_roleText (r : Role) : Text.noNul r.text = true := by cases r <;> decide

theorem noNul_asStr (k : EventKind) : Text.noNul k.asStr = true := by cases k <;> decide

theorem noNul_statusLabel (st : OutcomeStatus) : Text.noNul (statusLabel st) = true := by
  cases st with
  | errored detail => exact (by decide : Text.noNul "errored" = true)
  | _ => decide

/-! ### Entries -/

theorem messageFields_nodup (m : Message) : ((messageFields m).map Prod.fst).Nodup := by
  show ["seq", "role", "content", "tool_call_id", "tool_name", "tool_input", "tool_output"].Nodup
  decide

theorem eventFields_nodup (ev : ExecutionEvent × Nat) : ((eventFields ev).map Prod.fst).Nodup := by
  show ["seq", "event", "payload"].Nodup
  decide

theorem messageEntry_storable (m : Message) : (messageEntry m).storable = textsStorable m := by
  have hkeys : ∀ key ∈ ["seq", "role", "content", "tool_call_id", "tool_name", "tool_input",
      "tool_output"], Text.noNul key = true := by decide
  have hseq : (Value.nat m.seq.toNat).storable = true := rfl
  have hrole : (Value.string m.role.text).storable = true := noNul_roleText _
  rw [messageEntry, Value.storable_obj (messageFields_nodup m)]
  simp only [List.forall_mem_cons] at hkeys
  simp only [messageFields, List.all_cons, List.all_nil, hkeys, hseq, hrole, Bool.true_and,
    Bool.and_true, Value.storable_ofOption, Value.storable_getD, textsStorable, Bool.and_assoc]

theorem eventEntry_storable (ev : ExecutionEvent × Nat) :
    (eventEntry ev).storable = ev.1.payload.storable := by
  have hkeys : ∀ key ∈ ["seq", "event", "payload"], Text.noNul key = true := by decide
  have hseq : (Value.nat ev.2).storable = true := rfl
  have hevent : (Value.string ev.1.kind.asStr).storable = true := noNul_asStr _
  rw [eventEntry, Value.storable_obj (eventFields_nodup ev)]
  simp only [List.forall_mem_cons] at hkeys
  simp only [eventFields, List.all_cons, List.all_nil, hkeys, hseq, hevent, Bool.true_and,
    Bool.and_true]

/-- **An entry of a message** is read as its row, if its number is an INT. -/
theorem readMessage_messageEntry (id : Uuid) (now : Nat) (m : Message) :
    readMessage id now (messageEntry m) =
      if m.seq.toNat < 2 ^ 31 then some (messageRow id now m) else none := by
  have hcolumn : ∀ {key v}, (key, v) ∈ messageFields m → (messageEntry m).column key = v :=
    fun h => Value.column_obj (messageFields_nodup m) h
  have hseq : (messageEntry m).column "seq" = .nat m.seq.toNat :=
    hcolumn (by simp [messageFields])
  have hrole : (messageEntry m).column "role" = .string m.role.text :=
    hcolumn (by simp [messageFields])
  have hcontent : (messageEntry m).column "content" = .ofOption m.content :=
    hcolumn (by simp [messageFields])
  have hcall : (messageEntry m).column "tool_call_id" = .ofOption m.toolCallId :=
    hcolumn (by simp [messageFields])
  have hname : (messageEntry m).column "tool_name" = .ofOption m.toolName :=
    hcolumn (by simp [messageFields])
  have hinput : (messageEntry m).column "tool_input" = m.toolInput.getD .null :=
    hcolumn (by simp [messageFields])
  have houtput : (messageEntry m).column "tool_output" = m.toolOutput.getD .null :=
    hcolumn (by simp [messageFields])
  unfold readMessage
  rw [hseq, hrole, hcontent, hcall, hname, hinput, houtput, Value.jsonbColumn_getD,
    Value.jsonbColumn_getD]
  split_ifs with hlt
  · rw [Value.intColumn_nat hlt]
    simp only [Value.textColumn_ofOption, Value.textColumn_string]
    rfl
  · rw [Value.intColumn_nat_of_le (Nat.le_of_not_lt hlt)]
    rfl

/-- **An entry of an event** is read as its row, if its number is an INT. -/
theorem readTrace_eventEntry (id : Uuid) (now : Nat) (ev : ExecutionEvent × Nat) :
    readTrace id now (eventEntry ev) =
      if ev.2 < 2 ^ 31 then some (traceRow id now ev) else none := by
  have hcolumn : ∀ {key v}, (key, v) ∈ eventFields ev → (eventEntry ev).column key = v :=
    fun h => Value.column_obj (eventFields_nodup ev) h
  have hseq : (eventEntry ev).column "seq" = .nat ev.2 := hcolumn (by simp [eventFields])
  have hevent : (eventEntry ev).column "event" = .string ev.1.kind.asStr :=
    hcolumn (by simp [eventFields])
  have hpayload : (eventEntry ev).column "payload" = ev.1.payload :=
    hcolumn (by simp [eventFields])
  unfold readTrace
  rw [hseq, hevent, hpayload]
  split_ifs with hlt
  · rw [Value.intColumn_nat hlt]
    rfl
  · rw [Value.intColumn_nat_of_le (Nat.le_of_not_lt hlt)]
    rfl

/-- The cost column of a run. -/
def costOf (money : Money) (o : ExecutorOutcome) : Option (Option Rat) :=
  ((o.costUsd.map money.json).getD .null).costColumn

/-- The row of a run. -/
def runRow (money : Money) (model : String → Option String) (now : Nat) (call : CallInfo)
    (o : ExecutorOutcome) (freshId : Uuid) : RunRow where
  toAuditRow := Audit.outcomeRow call o freshId
  costUsd := (costOf money o).join
  durationMs := some o.durationMs
  model := model call.agent
  startedAt := now
  finishedAt := some now

/-- The numbers of a run fit into their columns: tokens into INT, the cost into NUMERIC(12,6), the
duration into BIGINT. -/
structure CountersFit (money : Money) (o : ExecutorOutcome) : Prop where
  tokensIn : o.tokensIn.toNat < 2 ^ 31
  tokensOut : o.tokensOut.toNat < 2 ^ 31
  cost : (costOf money o).isSome = true
  duration : o.durationMs < 2 ^ 63

/-- A column of a cost is null or a number. -/
theorem storable_of_costColumn {v : Value} (h : v.costColumn.isSome = true) : v.storable = true := by
  cases v with
  | null => rfl
  | number n => rfl
  | _ => cases h

theorem executionFields_nodup (money : Money) (call : CallInfo) (o : ExecutorOutcome)
    (freshId : Uuid) : ((executionFields money call o freshId).map Prod.fst).Nodup := by
  show ["execution_id", "agent_name", "input", "output", "status", "tokens_in", "tokens_out",
    "cost_usd", "duration_ms", "caller_role"].Nodup
  decide

theorem executionEntry_storable {money : Money} {o : ExecutorOutcome} (call : CallInfo)
    (freshId : Uuid) (hcost : (costOf money o).isSome = true) :
    (executionEntry money call o freshId).storable =
      (Text.noNul call.agent && Text.noNul call.input && Text.noNul o.output &&
        call.caller.all Text.noNul) := by
  have hkeys : ∀ key ∈ ["execution_id", "agent_name", "input", "output", "status", "tokens_in",
      "tokens_out", "cost_usd", "duration_ms", "caller_role"], Text.noNul key = true := by decide
  have hid : (Value.string (runId o freshId).text).storable = true := Uuid.text_noNul _
  have hstatus : (Value.string (statusLabel o.status)).storable = true := noNul_statusLabel _
  have hnat : ∀ n, (Value.nat n).storable = true := fun _ => rfl
  have hstring : ∀ s, (Value.string s).storable = Text.noNul s := fun _ => rfl
  rw [executionEntry, Value.storable_obj (executionFields_nodup money call o freshId)]
  simp only [List.forall_mem_cons] at hkeys
  simp only [executionFields, List.all_cons, List.all_nil, hkeys, hid, hstatus, hnat,
    storable_of_costColumn hcost, Value.storable_ofOption, Bool.true_and, Bool.and_true]
  simp only [hstring, Bool.and_assoc]

/-- **The entry of a run** is read as its row, if its numbers fit. -/
theorem readExecution_executionEntry (money : Money) (model : String → Option String) (now : Nat)
    (call : CallInfo) (o : ExecutorOutcome) (freshId : Uuid) :
    (CountersFit money o → readExecution model now (executionEntry money call o freshId) =
      some (runRow money model now call o freshId)) ∧
    (¬ CountersFit money o →
      readExecution model now (executionEntry money call o freshId) = none) := by
  have hcolumn : ∀ {key v}, (key, v) ∈ executionFields money call o freshId →
      (executionEntry money call o freshId).column key = v :=
    fun h => Value.column_obj (executionFields_nodup money call o freshId) h
  -- from here on the entry is known by its columns
  generalize executionEntry money call o freshId = e at hcolumn
  have hid : e.column "execution_id" = .string (runId o freshId).text :=
    hcolumn (by simp [executionFields])
  have hagent : e.column "agent_name" = .string call.agent := hcolumn (by simp [executionFields])
  have hinput : e.column "input" = .string call.input := hcolumn (by simp [executionFields])
  have houtput : e.column "output" = .string o.output := hcolumn (by simp [executionFields])
  have hstatus : e.column "status" = .string (statusLabel o.status) :=
    hcolumn (by simp [executionFields])
  have hin : e.column "tokens_in" = .nat o.tokensIn.toNat := hcolumn (by simp [executionFields])
  have hout : e.column "tokens_out" = .nat o.tokensOut.toNat := hcolumn (by simp [executionFields])
  have hcost : (e.column "cost_usd").costColumn = costOf money o :=
    congrArg Value.costColumn (hcolumn (by simp [executionFields]))
  have hduration : e.column "duration_ms" = .nat o.durationMs :=
    hcolumn (by simp [executionFields])
  have hcaller : e.column "caller_role" = .ofOption call.caller :=
    hcolumn (by simp [executionFields])
  unfold readExecution
  rw [hid, Value.uuidColumn_text, hagent, Value.textColumn_string, hinput, Value.textColumn_string,
    houtput, Value.textColumn_string, hstatus, Value.textColumn_string, hcaller,
    Value.textColumn_ofOption, hin, hout, hcost, hduration]
  constructor
  · intro hfit
    obtain ⟨c, hc⟩ := Option.isSome_iff_exists.mp hfit.cost
    rw [Value.intColumn_nat hfit.tokensIn, Value.intColumn_nat hfit.tokensOut, hc,
      Value.intColumn_nat hfit.duration, runRow, hc]
    rfl
  · intro hfit
    -- the columns are read in order: the first number that does not fit ends it
    by_cases hin : o.tokensIn.toNat < 2 ^ 31
    · rw [Value.intColumn_nat hin]
      by_cases hout : o.tokensOut.toNat < 2 ^ 31
      · rw [Value.intColumn_nat hout]
        cases hcost : costOf money o with
        | none => rfl
        | some c =>
          have hduration : 2 ^ 63 ≤ o.durationMs := Nat.le_of_not_lt fun hduration =>
            hfit ⟨hin, hout, by rw [hcost]; rfl, hduration⟩
          rw [Value.intColumn_nat_of_le hduration]
          rfl
      · rw [Value.intColumn_nat_of_le (Nat.le_of_not_lt hout)]
        rfl
    · rw [Value.intColumn_nat_of_le (Nat.le_of_not_lt hin)]
      rfl

/-! ### The document -/

/-- The members of the document of a run. -/
def documentFields (money : Money) (call : CallInfo) (o : ExecutorOutcome) (level : TraceLevel)
    (supersedes : Option Uuid) (freshId : Uuid) : List (String × Value) :=
  [("execution", executionEntry money call o freshId),
    ("messages", .array ((keptMessages level o).map messageEntry)),
    ("events", .array ((keptEvents level o).zipIdx.map eventEntry))] ++
  (supersedes.map fun id => ("supersedes", Value.string id.text)).toList

variable {money : Money} {call : CallInfo} {o : ExecutorOutcome} {level : TraceLevel}
  {supersedes : Option Uuid} {freshId : Uuid}

theorem logExecution_eq : logExecution money call o level supersedes freshId =
    .obj (documentFields money call o level supersedes freshId) := by
  cases supersedes with
  | none => rfl
  | some id => exact Value.set_obj _ _ _

theorem documentFields_nodup :
    ((documentFields money call o level supersedes freshId).map Prod.fst).Nodup := by
  cases supersedes with
  | none =>
    show ["execution", "messages", "events"].Nodup
    decide
  | some id =>
    show ["execution", "messages", "events", "supersedes"].Nodup
    decide

/-- The texts of a run that go into its document. -/
structure TextsStorable (call : CallInfo) (o : ExecutorOutcome) (level : TraceLevel) : Prop where
  agent : Text.noNul call.agent = true
  input : Text.noNul call.input = true
  output : Text.noNul o.output = true
  caller : call.caller.all Text.noNul = true
  messages : ∀ m ∈ keptMessages level o, textsStorable m = true
  events : ∀ ev ∈ keptEvents level o, ev.payload.storable = true

theorem logExecution_storable (hcost : (costOf money o).isSome = true) :
    (logExecution money call o level supersedes freshId).storable = true ↔
      TextsStorable call o level := by
  have hkeys : ∀ key ∈ ["execution", "messages", "events", "supersedes"],
      Text.noNul key = true := by decide
  have harray : ∀ items, (Value.array items).storable = items.all Value.storable :=
    Value.storableItems_eq
  have hevents : ((keptEvents level o).zipIdx.map eventEntry).all Value.storable =
      (keptEvents level o).all fun ev => ev.payload.storable := by
    rw [List.all_map, funext (f := Value.storable ∘ eventEntry) eventEntry_storable]
    conv_rhs => rw [← List.zipIdx_map_fst 0 (keptEvents level o), List.all_map]
    rfl
  have hmessages : ((keptMessages level o).map messageEntry).all Value.storable =
      (keptMessages level o).all textsStorable := by
    rw [List.all_map, funext (f := Value.storable ∘ messageEntry) messageEntry_storable]
  have hsupersedes : (supersedes.map fun id => ("supersedes", Value.string id.text)).toList.all
      (fun f => Text.noNul f.1 && f.2.storable) = true := by
    cases supersedes with
    | none => rfl
    | some id =>
      have hid : (Value.string id.text).storable = true := Uuid.text_noNul id
      simp [hid, hkeys]
  simp only [List.forall_mem_cons] at hkeys
  rw [logExecution_eq, Value.storable_obj documentFields_nodup, documentFields, List.all_append,
    hsupersedes]
  simp only [List.all_cons, List.all_nil, hkeys, harray, hevents, hmessages, Bool.true_and,
    Bool.and_true, executionEntry_storable call freshId hcost, Bool.and_eq_true, List.all_eq_true]
  exact ⟨fun ⟨⟨⟨⟨h₁, h₂⟩, h₃⟩, h₄⟩, h₅, h₆⟩ => ⟨h₁, h₂, h₃, h₄, h₅, h₆⟩,
    fun h => ⟨⟨⟨⟨h.agent, h.input⟩, h.output⟩, h.caller⟩, h.messages, h.events⟩⟩

/-! ### The document of a run without an outcome -/

theorem statusFields_nodup (call : CallInfo) (id : Uuid) (output : Option String)
    (status : String) : ((statusFields call id output status).map Prod.fst).Nodup := by
  show ["execution_id", "agent_name", "input", "output", "status", "caller_role"].Nodup
  decide

/-- It is stored just if its texts are. -/
theorem statusDocument_storable (call : CallInfo) (id : Uuid) (output : Option String)
    (status : String) : (statusDocument call id output status).storable =
      (Text.noNul call.agent && Text.noNul call.input && output.all Text.noNul &&
        Text.noNul status && call.caller.all Text.noNul) := by
  have hkeys : ∀ key ∈ ["execution_id", "agent_name", "input", "output", "status", "caller_role"],
      Text.noNul key = true := by decide
  have hid : (Value.string id.text).storable = true := Uuid.text_noNul id
  have hstring : ∀ s, (Value.string s).storable = Text.noNul s := fun _ => rfl
  rw [statusDocument, Value.storable_obj (statusFields_nodup call id output status)]
  simp only [List.forall_mem_cons] at hkeys
  simp only [statusFields, List.all_cons, List.all_nil, hkeys, hid, Value.storable_ofOption,
    Bool.true_and, Bool.and_true]
  simp only [hstring, Bool.and_assoc]

/-! ### Numbers -/

/-- The rows of a run are numbered in the order they stand in. -/
def InOrder (ms : List Message) : Prop :=
  ms.map Message.seq = (List.range ms.length).map UInt32.ofNat

theorem InOrder.seqs {ms : List Message} (h : InOrder ms) :
    ms.map (fun m => m.seq.toNat) = (List.range ms.length).map fun i => i % 2 ^ 32 := by
  have hseqs := congrArg (List.map UInt32.toNat) h
  rw [List.map_map, List.map_map] at hseqs
  rw [show (fun m : Message => m.seq.toNat) = UInt32.toNat ∘ Message.seq from rfl, hseqs]
  exact List.map_congr_left fun i _ => UInt32.toNat_ofNat'

/-- All numbers are INTs if there are at most `2 ^ 31` rows. -/
theorem InOrder.fit_iff {ms : List Message} (h : InOrder ms) :
    (∀ m ∈ ms, m.seq.toNat < 2 ^ 31) ↔ ms.length ≤ 2 ^ 31 := by
  have hall : (∀ m ∈ ms, m.seq.toNat < 2 ^ 31) ↔ ∀ i < ms.length, i % 2 ^ 32 < 2 ^ 31 := by
    have hmem : (∀ m ∈ ms, m.seq.toNat < 2 ^ 31) ↔
        ∀ n ∈ ms.map (fun m => m.seq.toNat), n < 2 ^ 31 :=
      (List.forall_mem_map (P := fun n => n < 2 ^ 31)).symm
    rw [hmem, h.seqs]
    simp
  rw [hall]
  constructor
  · intro hfit
    by_contra hlong
    have hlast := hfit (2 ^ 31) (Nat.lt_of_not_le hlong)
    omega
  · intro hlen i hi
    omega

theorem InOrder.nodup {ms : List Message} (h : InOrder ms) (hlen : ms.length ≤ 2 ^ 31) :
    (ms.map fun m => (m.seq.toNat : Int)).Nodup := by
  have hseqs : ms.map (fun m => m.seq.toNat) = List.range ms.length := by
    rw [h.seqs]
    refine (List.map_congr_left fun i hi => Nat.mod_eq_of_lt ?_).trans (List.map_id' _)
    have hi := List.mem_range.mp hi
    omega
  have hcast : (ms.map fun m => (m.seq.toNat : Int)) =
      (ms.map fun m => m.seq.toNat).map Int.ofNat := by
    rw [List.map_map]
    rfl
  rw [hcast, hseqs]
  exact List.nodup_range.map fun _ _ => Int.ofNat.inj

theorem zipIdx_fit_iff (es : List ExecutionEvent) :
    (∀ ev ∈ es.zipIdx, ev.2 < 2 ^ 31) ↔ es.length ≤ 2 ^ 31 := by
  have hmem : (∀ ev ∈ es.zipIdx, ev.2 < 2 ^ 31) ↔
      ∀ n ∈ es.zipIdx.map Prod.snd, n < 2 ^ 31 :=
    (List.forall_mem_map (P := fun n => n < 2 ^ 31)).symm
  rw [hmem, List.zipIdx_map_snd]
  simp only [List.mem_range'_1, Nat.zero_le, Nat.zero_add, true_and]
  constructor
  · intro hfit
    by_contra hlong
    exact absurd (hfit (2 ^ 31) (Nat.lt_of_not_le hlong)) (Nat.lt_irrefl _)
  · intro hlen n hn
    omega

theorem zipIdx_nodup (es : List ExecutionEvent) :
    (es.zipIdx.map fun ev => (ev.2 : Int)).Nodup := by
  have hcast : (es.zipIdx.map fun ev => (ev.2 : Int)) =
      (es.zipIdx.map Prod.snd).map Int.ofNat := by
    rw [List.map_map]
    rfl
  rw [hcast, List.zipIdx_map_snd]
  exact (List.nodup_range' _).map fun _ _ => Int.ofNat.inj

end RunDocument

/-! ### The tables -/

namespace AuditTables

variable {t : AuditTables} {row : RunRow} {ms : List MessageRow} {es : List TraceRow}

/-- The tables without the placeholder of a run. -/
def superseded (t : AuditTables) (supersedes : Option Uuid) : AuditTables :=
  supersedes.elim t t.deleteRun

theorem superseded_none : t.superseded none = t := rfl

theorem superseded_some (id : Uuid) : t.superseded (some id) = t.deleteRun id := rfl

/-- `t'` is `t` with the rows of a run added to its tables. -/
structure Extends (t t' : AuditTables) (row : RunRow) (ms : List MessageRow)
    (es : List TraceRow) : Prop where
  executions : t'.executions.rows = t.executions.rows ++ [row]
  messages : t'.messages.rows = t.messages.rows ++ ms
  traces : t'.traces.rows = t.traces.rows ++ es

theorem insertRun_of_admits (h : t.Admits row ms es) :
    ∃ t', t.insertRun row ms es = some t' ∧ t.Extends t' row ms es := by
  unfold insertRun
  rw [dif_pos h]
  exact ⟨_, rfl, rfl, rfl, rfl⟩

theorem insertRun_of_not (h : ¬ t.Admits row ms es) : t.insertRun row ms es = none := dif_neg h

/-- Rows of one new run whose numbers differ. -/
theorem admits_iff (hms : ∀ m ∈ ms, m.executionId = row.executionId)
    (hes : ∀ e ∈ es, e.executionId = row.executionId) (hmseq : (ms.map MessageRow.seq).Nodup)
    (heseq : (es.map TraceRow.seq).Nodup) :
    t.Admits row ms es ↔ row.executionId ∉ t.executions.keys := by
  constructor
  · exact Admits.executions_pk
  · intro hnew
    -- no row of the tables is of the new run, since its run would be there
    have hold : ∀ m ∈ t.messages.rows, m.executionId ≠ row.executionId :=
      fun m hm heq => hnew (heq ▸ t.messages_fk m hm)
    have hold' : ∀ e ∈ t.traces.rows, e.executionId ≠ row.executionId :=
      fun e he heq => hnew (heq ▸ t.traces_fk e he)
    refine ⟨hnew, List.nodup_append.mpr ⟨t.messages.nodup, ?_, ?_⟩,
      List.nodup_append.mpr ⟨t.traces.nodup, ?_, ?_⟩, ?_, ?_⟩
    · exact List.Nodup.of_map Prod.snd (by rw [List.map_map]; exact hmseq)
    · intro a ha b hb heq
      obtain ⟨m, hm, rfl⟩ := List.mem_map.mp ha
      obtain ⟨m', hm', rfl⟩ := List.mem_map.mp hb
      exact hold m hm ((congrArg Prod.fst heq).trans (hms m' hm'))
    · exact List.Nodup.of_map Prod.snd (by rw [List.map_map]; exact heseq)
    · intro a ha b hb heq
      obtain ⟨e, he, rfl⟩ := List.mem_map.mp ha
      obtain ⟨e', he', rfl⟩ := List.mem_map.mp hb
      exact hold' e he ((congrArg Prod.fst heq).trans (hes e' he'))
    · exact fun m hm => by simp [hms m hm]
    · exact fun e he => by simp [hes e he]

end AuditTables

/-! ### Recording a run -/

namespace RunDocument

variable {money : Money} {call : CallInfo} {o : ExecutorOutcome} {level : TraceLevel}
  {supersedes : Option Uuid} {freshId : Uuid}

open AuditTables

theorem recordset_array (items : List Value) : recordset (some (.array items)) = some items := rfl

/-- What Postgres asks of the document of a run: texts without U+0000, and numbers that fit into their
columns. -/
structure DocumentFits (money : Money) (call : CallInfo) (o : ExecutorOutcome) (level : TraceLevel) :
    Prop where
  texts : TextsStorable call o level
  counters : CountersFit money o
  messages : (keptMessages level o).length ≤ 2 ^ 31
  events : (keptEvents level o).length ≤ 2 ^ 31

/-- What it asks of a run: a document that fits, and an id that is not taken. -/
structure Recordable (money : Money) (call : CallInfo) (o : ExecutorOutcome) (level : TraceLevel)
    (id : Uuid) (t : AuditTables) : Prop extends DocumentFits money call o level where
  free : id ∉ t.executions.keys

theorem keptMessages_inOrder (h : InOrder o.messages) : InOrder (keptMessages level o) := by
  unfold keptMessages
  split_ifs
  · exact h
  · rfl

/-- What `synapse.record_run` reads from a document that it can store. -/
theorem recordRun_eq (model : String → Option String) (now : Nat) (t : AuditTables) :
    recordRun model now (logExecution money call o level supersedes freshId) t =
      if (logExecution money call o level supersedes freshId).storable = true then
        (readExecution model now (executionEntry money call o freshId)).bind fun row =>
          (((keptMessages level o).map messageEntry).mapM (readMessage row.executionId now)).bind
            fun ms =>
          (((keptEvents level o).zipIdx.map eventEntry).mapM (readTrace row.executionId now)).bind
            fun es => (t.superseded supersedes).insertRun row ms es
      else none := by
  have hget : ∀ {key v}, (key, v) ∈ documentFields money call o level supersedes freshId →
      (logExecution money call o level supersedes freshId).get? key = some v := by
    rw [logExecution_eq]
    exact fun hmem => Value.get?_obj_of_mem documentFields_nodup hmem
  have hexecution : (logExecution money call o level supersedes freshId).get? "execution" =
      some (executionEntry money call o freshId) := hget (by simp [documentFields])
  have hmessages : (logExecution money call o level supersedes freshId).get? "messages" =
      some (.array ((keptMessages level o).map messageEntry)) := hget (by simp [documentFields])
  have hevents : (logExecution money call o level supersedes freshId).get? "events" =
      some (.array ((keptEvents level o).zipIdx.map eventEntry)) :=
    hget (by simp [documentFields])
  unfold recordRun
  rw [hmessages, hevents, Value.column, hexecution]
  cases hstorable : (logExecution money call o level supersedes freshId).storable with
  | false => rw [Bool.not_false, if_pos rfl, if_neg Bool.false_ne_true]
  | true =>
    rw [Bool.not_true, if_neg Bool.false_ne_true, if_pos rfl]
    -- a `supersedes` of NULL deletes no row
    cases supersedes with
    | none =>
      have hnone : (logExecution money call o level none freshId).get? "supersedes" = none := by
        rw [logExecution_eq, Value.get?_obj]
        simp [documentFields]
      simp only [hnone, Option.bind_eq_bind, Option.bind_some, recordset_array, Option.getD_some,
        superseded_none]
    | some id =>
      have hsome : (logExecution money call o level (some id) freshId).get? "supersedes" =
          some (.string id.text) := hget (by simp [documentFields])
      simp only [hsome, Value.uuidColumn_text, Option.map_some, Option.bind_eq_bind,
        Option.bind_some, recordset_array, Option.getD_some, Option.elim_some, superseded_some]

/-- The keys take the rows of a run whose id is new. -/
theorem admits_rows (model : String → Option String) (now : Nat) (h : InOrder (keptMessages level o))
    (hlen : (keptMessages level o).length ≤ 2 ^ 31) (t : AuditTables) :
    t.Admits (runRow money model now call o freshId)
        ((keptMessages level o).map (messageRow (runId o freshId) now))
        ((keptEvents level o).zipIdx.map (traceRow (runId o freshId) now)) ↔
      runId o freshId ∉ t.executions.keys := by
  have hmseq : (((keptMessages level o).map (messageRow (runId o freshId) now)).map
      MessageRow.seq).Nodup := by
    rw [List.map_map]
    exact h.nodup hlen
  have heseq : (((keptEvents level o).zipIdx.map (traceRow (runId o freshId) now)).map
      TraceRow.seq).Nodup := by
    rw [List.map_map]
    exact zipIdx_nodup _
  exact admits_iff (List.forall_mem_map.mpr fun _ _ => rfl) (List.forall_mem_map.mpr fun _ _ => rfl)
    hmseq heseq

/-- **The document of a run** is taken just if the run can be recorded, and then the run, the messages
and the events that are kept become rows. -/
theorem recordRun_logExecution (model : String → Option String) (now : Nat) (h : InOrder o.messages)
    (t : AuditTables) :
    (Recordable money call o level (runId o freshId) (t.superseded supersedes) → ∃ t',
      recordRun model now (logExecution money call o level supersedes freshId) t = some t' ∧
      (t.superseded supersedes).Extends t' (runRow money model now call o freshId)
        ((keptMessages level o).map (messageRow (runId o freshId) now))
        ((keptEvents level o).zipIdx.map (traceRow (runId o freshId) now))) ∧
    (¬ Recordable money call o level (runId o freshId) (t.superseded supersedes) →
      recordRun model now (logExecution money call o level supersedes freshId) t = none) := by
  have hkept : InOrder (keptMessages level o) := keptMessages_inOrder h
  rw [recordRun_eq]
  -- what can refuse it, one by one: a number, a text, the numbering of the rows, and last the keys
  by_cases hfit : CountersFit money o
  · have hid : (runRow money model now call o freshId).executionId = runId o freshId := rfl
    rw [(readExecution_executionEntry money model now call o freshId).1 hfit, Option.bind_some, hid,
      mapM_of_checked (readMessage_messageEntry _ now),
      mapM_of_checked (readTrace_eventEntry _ now)]
    simp only [hkept.fit_iff, zipIdx_fit_iff]
    by_cases hstorable : (logExecution money call o level supersedes freshId).storable = true
    · rw [if_pos hstorable]
      by_cases hlen : (keptMessages level o).length ≤ 2 ^ 31
      · rw [if_pos hlen, Option.bind_some]
        by_cases hlen' : (keptEvents level o).length ≤ 2 ^ 31
        · rw [if_pos hlen', Option.bind_some]
          have hkeys : (t.superseded supersedes).Admits (runRow money model now call o freshId) _ _ ↔
              _ := admits_rows model now hkept hlen _
          constructor
          · intro hrow
            exact insertRun_of_admits (hkeys.mpr hrow.free)
          · intro hrow
            refine insertRun_of_not fun hadmits => hrow ?_
            exact ⟨⟨(logExecution_storable hfit.cost).mp hstorable, hfit, hlen, hlen'⟩,
              hkeys.mp hadmits⟩
        · rw [if_neg hlen']
          exact ⟨fun hrow => absurd hrow.events hlen', fun _ => rfl⟩
      · rw [if_neg hlen]
        exact ⟨fun hrow => absurd hrow.messages hlen, fun _ => rfl⟩
    · rw [if_neg hstorable]
      exact ⟨fun hrow => absurd ((logExecution_storable hfit.cost).mpr hrow.texts) hstorable,
        fun _ => rfl⟩
  · rw [(readExecution_executionEntry money model now call o freshId).2 hfit]
    rw [Option.bind_none, ite_self]
    exact ⟨fun hrow => absurd hrow.counters hfit, fun _ => rfl⟩

/-- **Which documents Postgres reads**, of runs whose messages are numbered in order. -/
theorem readable_logExecution (h : InOrder o.messages) :
    readable (logExecution money call o level supersedes freshId) = true ↔
      DocumentFits money call o level := by
  have hrow : Recordable money call o level (runId o freshId) (noRuns.superseded supersedes) ↔
      DocumentFits money call o level := by
    refine ⟨fun hrow => hrow.toDocumentFits, fun hfits => ⟨hfits, ?_⟩⟩
    cases supersedes <;> exact List.not_mem_nil
  have hcases := @recordRun_logExecution money call o level supersedes freshId (fun _ => none) 0 h
    noRuns
  rw [readable, ← hrow]
  constructor
  · intro hsome
    by_contra hnot
    rw [hcases.2 hnot] at hsome
    cases hsome
  · intro hrow
    obtain ⟨t', hrun, -⟩ := hcases.1 hrow
    rw [hrun]
    rfl

end RunDocument

end PgSynapse
