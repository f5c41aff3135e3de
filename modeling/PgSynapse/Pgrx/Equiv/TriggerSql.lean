import PgSynapse.Pgrx.Equiv.TriggerFunction

/-!
# What the statements of an agent trigger say

`QuotesInputs server r table`: the statements of `attach_agent_trigger` for a request create a
trigger function with the name and the body that were meant, and a trigger on `table` that runs it,
with the agent, the events, the predicate and the input expression as they were given.

The trigger's name and the table go through `format`.  The events, the predicate and the function name
stand in the template, which is itself a literal, so a quote and a percent sign in them are taken away
or end it.  `quotesInputs_iff` says for which requests this goes well.
-/

namespace PgSynapse

namespace TriggerSql

open SqlText

/-! ### The specification -/

/-- The tokens are the name of a table. -/
def NamesTable (keyword : List Char → Bool) (ts : List Lexeme) (t : TableName) : Prop :=
  match t.schema with
  | none => ∃ rel, rel.Names keyword t.relation ∧ ts = [rel]
  | some s => ∃ schema rel, schema.Names keyword s ∧ rel.Names keyword t.relation ∧
      ts = [schema, .punct ['.'], rel]

/-- The statement that creates the trigger, with each text in its place. -/
def triggerText (server : SqlServer) (r : TriggerRequest) (table : TableName) : List Char :=
  "CREATE TRIGGER ".toList ++
    (quoteIdentifier server.keyword (AgentTriggers.trigName r.targetTable).toList ++
    (" AFTER ".toList ++ (r.events.toList ++ (" ON ".toList ++ (table.text server.keyword ++
    (" FOR EACH ROW ".toList ++ ((whenClause r.whenSql).toList ++ (" EXECUTE FUNCTION ".toList ++
    ((AgentTriggers.fnName r.targetTable).toList ++ "()".toList)))))))))

def whenTokens : Option String → List Lexeme
  | some w => code "WHEN (" ++ tokens w.toList ++ code ")"
  | none => []

/-- The trigger. -/
def triggerTokens (r : TriggerRequest) (name : Lexeme) (table : List Lexeme) (function : Lexeme) :
    List Lexeme :=
  code "CREATE TRIGGER " ++ name :: (code " AFTER " ++ tokens r.events.toList ++ code "ON " ++
    table ++ code " FOR EACH ROW " ++ whenTokens r.whenSql ++ code " EXECUTE FUNCTION " ++
    function :: code "()")

/-- **The pair of statements quotes its inputs.** -/
structure QuotesInputs (server : SqlServer) (r : TriggerRequest) (table : TableName) : Prop where
  function : ∃ name : Lexeme,
    name.Names server.keyword (AgentTriggers.fnName r.targetTable).toList ∧
      lex (createFnSql r).toList = some (functionTokens r name)
  body : lex (body r).toList = some (bodyTokens r)
  trigger : ∃ drop create, attachAgentTrigger server r = [(createFnSql r).toList, drop, create] ∧
    create = triggerText server r table ∧
      ∃ name ts function, name.Names server.keyword (AgentTriggers.trigName r.targetTable).toList ∧
        NamesTable server.keyword ts table ∧
        function.Names server.keyword (AgentTriggers.fnName r.targetTable).toList ∧
        lex create = some (triggerTokens r name ts function)

/-- What the texts of a request have to be for that. -/
structure Quotable (r : TriggerRequest) : Prop where
  name : ∀ c ∈ (AgentTriggers.safeName r.targetTable).toList, isWordChar c = true ∧ c.toLower = c
  agent : ¬ trigTag <:+: r.agent.toList
  inputExpr : ¬ trigTag <:+: r.inputExpr.toList
  target : r.mode ≠ "inline" → ¬ trigTag <:+: r.targetTable.toList
  inputExpr_ends : endsInComment r.inputExpr.toList = false
  events : '\'' ∉ r.events.toList ∧ '%' ∉ r.events.toList
  whenSql : ∀ w, r.whenSql = some w → '\'' ∉ w.toList ∧ '%' ∉ w.toList
  whenSql_ends : ∀ w, r.whenSql = some w → endsInComment w.toList = false

/-! ### The trigger -/

/-- The name of a table is read. -/
theorem reads_table (keyword : List Char → Bool) (t : TableName) :
    ∃ us s vs, Reads .blank (t.text keyword) us s ∧ finish s = some vs ∧
      NamesTable keyword (us ++ vs) t ∧ ∀ c, EndsName c → continues s c = none := by
  obtain ⟨rel, s, hrel, hread, hfinish, hends⟩ := reads_quoteIdentifier keyword t.relation_ne
  unfold TableName.text NamesTable
  cases hschema : t.schema with
  | none => exact ⟨[], s, [rel], hread, hfinish, ⟨rel, hrel, rfl⟩, hends⟩
  | some schema =>
    obtain ⟨q, s', hq, hread', hfinish', hcloses⟩ :=
      reads_quoteIdentifier keyword (t.schema_ne schema hschema)
    have hpoint : Reads s' ['.'] [q] .dot := by
      have hstart : start '.' = some ([], .dot) := by decide
      exact Reads.single (step_of_ends (hcloses '.' (by decide)) hfinish' hstart)
    have hafter : Reads .dot (quoteIdentifier keyword t.relation) [.punct ['.']] s :=
      hread.afterDot t.relation_ne
    refine ⟨[q, .punct ['.']], s, [rel], ?_, hfinish, ⟨q, rel, hq, hrel, rfl⟩, hends⟩
    exact hread'.append (hpoint.append hafter)

theorem namesTable_length {keyword : List Char → Bool} {t : TableName} {us vs : List Lexeme}
    (hus : NamesTable keyword us t) (hvs : NamesTable keyword vs t) : us.length = vs.length := by
  unfold NamesTable at hus hvs
  cases hschema : t.schema with
  | none =>
    simp only [hschema] at hus hvs
    obtain ⟨-, -, rfl⟩ := hus
    obtain ⟨-, -, rfl⟩ := hvs
    rfl
  | some schema =>
    simp only [hschema] at hus hvs
    obtain ⟨-, -, -, -, rfl⟩ := hus
    obtain ⟨-, -, -, -, rfl⟩ := hvs
    rfl

/-- What stands before the predicate. -/
def triggerHead (server : SqlServer) (r : TriggerRequest) (table : TableName) : List Char :=
  "CREATE TRIGGER ".toList ++
    (quoteIdentifier server.keyword (AgentTriggers.trigName r.targetTable).toList ++
    (" AFTER ".toList ++ (r.events.toList ++ (" ON ".toList ++ (table.text server.keyword ++
      " FOR EACH ROW ".toList)))))

def headTokens (r : TriggerRequest) (name : Lexeme) (table : List Lexeme) : List Lexeme :=
  code "CREATE TRIGGER " ++ name :: (code " AFTER " ++ tokens r.events.toList ++ code "ON " ++
    table ++ code " FOR EACH ROW ")

theorem trigName_toList (targetTable : String) : (AgentTriggers.trigName targetTable).toList =
    "synapse_agent_".toList ++ (AgentTriggers.safeName targetTable).toList := by
  rw [AgentTriggers.trigName, String.toList_append]

theorem trigName_ne (targetTable : String) :
    (AgentTriggers.trigName targetTable).toList ≠ [] := by
  rw [trigName_toList]
  simp

theorem reads_triggerHead (server : SqlServer) {r : TriggerRequest} (table : TableName)
    (hr : ValidRequest r) : ∃ name ts,
      name.Names server.keyword (AgentTriggers.trigName r.targetTable).toList ∧
        NamesTable server.keyword ts table ∧
        Reads .blank (triggerHead server r table) (headTokens r name ts) .blank := by
  obtain ⟨name, s, hname, hread, hfinish, hends⟩ :=
    reads_quoteIdentifier server.keyword (trigName_ne r.targetTable)
  obtain ⟨es, s', vs, hevents, hfinish', hline, htokens⟩ := reads_of_lex hr.events hr.events_ends
  obtain ⟨us, s'', ws, htable, hfinish'', hnames, htail⟩ := reads_table server.keyword table
  refine ⟨name, us ++ ws, hname, hnames, ?_⟩
  have hcreate : Reads .blank "CREATE TRIGGER ".toList (code "CREATE TRIGGER ") .blank :=
    reads_code rfl rfl
  have hafter : Reads s " AFTER ".toList ([name] ++ code " AFTER ") .blank :=
    Reads.afterCode hfinish (hends ' ' (by decide)) rfl rfl
  have hon : Reads s' " ON ".toList (vs ++ code "ON ") .blank := by
    have hcode : Reads .blank "ON ".toList (code "ON ") .blank :=
      reads_code rfl rfl
    rw [toList_eq (show "ON " = String.ofList ['O', 'N', ' '] from rfl)] at hcode
    rw [toList_eq (show " ON " = String.ofList [' ', 'O', 'N', ' '] from rfl)]
    exact reads_space hfinish' hline (by decide) (by decide) hcode
  have hrow : Reads s'' " FOR EACH ROW ".toList (ws ++ code " FOR EACH ROW ") .blank :=
    Reads.afterCode hfinish'' (htail ' ' (by decide)) rfl rfl
  have hall := hcreate.append (hread.append (hafter.append (hevents.append (hon.append
    (htable.append hrow)))))
  unfold triggerHead headTokens
  rw [htokens]
  simpa only [List.append_assoc, List.nil_append, List.singleton_append, List.cons_append]
    using hall

/-- What stands after the predicate. -/
theorem reads_execute {r : TriggerRequest}
    (hsafe : ∀ c ∈ (AgentTriggers.safeName r.targetTable).toList,
      isWordChar c = true ∧ c.toLower = c) :
    Reads .blank (" EXECUTE FUNCTION ".toList ++ ((AgentTriggers.fnName r.targetTable).toList ++
        "()".toList))
      (code " EXECUTE FUNCTION " ++ .word (AgentTriggers.fnName r.targetTable).toList ::
        code "()") .blank := by
  have hexecute : Reads .blank " EXECUTE FUNCTION ".toList (code " EXECUTE FUNCTION ") .blank :=
    reads_code rfl rfl
  have hcall : Reads (.word (AgentTriggers.fnName r.targetTable).toList) "()".toList
      ([.word (AgentTriggers.fnName r.targetTable).toList] ++ code "()") .blank :=
    Reads.afterCode (finish_fnName fun c hc => (hsafe c hc).2)
      (continues_fnName r.targetTable (by decide)) rfl rfl
  exact hexecute.append ((reads_fnName fun c hc => (hsafe c hc).1).append hcall)

theorem triggerText_eq (server : SqlServer) (r : TriggerRequest) (table : TableName) :
    triggerText server r table = triggerHead server r table ++ ((whenClause r.whenSql).toList ++
      (" EXECUTE FUNCTION ".toList ++ ((AgentTriggers.fnName r.targetTable).toList ++
        "()".toList))) := by
  unfold triggerText triggerHead
  simp only [List.append_assoc]

theorem triggerTokens_eq (r : TriggerRequest) (name : Lexeme) (ts : List Lexeme)
    (function : Lexeme) : triggerTokens r name ts function = headTokens r name ts ++ (whenTokens r.whenSql ++
      (code " EXECUTE FUNCTION " ++ function :: code "()")) := by
  simp only [triggerTokens, headTokens, List.append_assoc, List.cons_append]

theorem whenClause_toList (w : String) :
    (whenClause (some w)).toList = "WHEN (".toList ++ (w.toList ++ ")".toList) := by
  simp only [whenClause, String.toList_append, List.append_assoc]

theorem reads_when : Reads .blank "WHEN (".toList (code "WHEN (") .blank :=
  reads_code rfl rfl

/-- The predicate is read. -/
theorem reads_whenClause {r : TriggerRequest} (hr : ValidRequest r)
    (hends : ∀ w, r.whenSql = some w → endsInComment w.toList = false) :
    Reads .blank (whenClause r.whenSql).toList (whenTokens r.whenSql) .blank := by
  cases hwhen : r.whenSql with
  | none =>
    show Reads .blank "".toList [] .blank
    rw [toList_eq (show "" = String.ofList [] from rfl)]
    rfl
  | some w =>
    obtain ⟨us, s, vs, hread, hfinish, hline, htokens⟩ :=
      reads_of_lex (hr.whenSql w hwhen) (hends w hwhen)
    have hclose : Reads s ")".toList (vs ++ code ")") .blank :=
      Reads.afterCode hfinish (continues_paren hfinish hline) rfl rfl
    have hall := reads_when.append (hread.append hclose)
    rw [whenClause_toList, whenTokens, htokens]
    simpa only [List.append_assoc] using hall

/-- **The statement creates the trigger** on the table, with the predicate and the function. -/
theorem lex_trigger (server : SqlServer) {r : TriggerRequest} (table : TableName)
    (hr : ValidRequest r)
    (hsafe : ∀ c ∈ (AgentTriggers.safeName r.targetTable).toList,
      isWordChar c = true ∧ c.toLower = c)
    (hends : ∀ w, r.whenSql = some w → endsInComment w.toList = false) :
    ∃ name ts function,
      name.Names server.keyword (AgentTriggers.trigName r.targetTable).toList ∧
      NamesTable server.keyword ts table ∧
      function.Names server.keyword (AgentTriggers.fnName r.targetTable).toList ∧
      lex (triggerText server r table) = some (triggerTokens r name ts function) := by
  obtain ⟨name, ts, hname, hts, hhead⟩ := reads_triggerHead server table hr
  refine ⟨name, ts, _, hname, hts, names_fnName server r.targetTable, ?_⟩
  have hall := hhead.append ((reads_whenClause hr hends).append (reads_execute hsafe))
  rw [triggerText_eq, triggerTokens_eq, lex, hall.finished rfl, List.append_nil]

/-- The end of the statement is not in a comment. -/
theorem whenSql_ends_of_lex {server : SqlServer} {r : TriggerRequest} {table : TableName}
    {name function : Lexeme} {ts : List Lexeme} (hr : ValidRequest r)
    (hsafe : ∀ c ∈ (AgentTriggers.safeName r.targetTable).toList,
      isWordChar c = true ∧ c.toLower = c)
    (hts : NamesTable server.keyword ts table)
    (hlex : lex (triggerText server r table) = some (triggerTokens r name ts function)) :
    ∀ w, r.whenSql = some w → endsInComment w.toList = false := by
  intro w hwhen
  by_contra hcomment
  rw [Bool.not_eq_false] at hcomment
  obtain ⟨name', ts', -, hts', hhead⟩ := reads_triggerHead server table hr
  have hend : ∀ c ∈ ")".toList ++ (" EXECUTE FUNCTION ".toList ++
      ((AgentTriggers.fnName r.targetTable).toList ++ "()".toList)), isNewline c = false := by
    have hplain : ∀ c, isWordChar c = true → isNewline c = false := by
      intro c hc
      by_contra hnewline
      rw [Bool.not_eq_false, isNewline, Bool.or_eq_true, decide_eq_true_eq,
        decide_eq_true_eq] at hnewline
      rcases hnewline with rfl | rfl <;> cases hc
    have hname : ∀ c ∈ (AgentTriggers.fnName r.targetTable).toList, isNewline c = false := by
      rw [fnName_toList]
      intro c hc
      rcases List.mem_append.mp hc with hc | hc
      · have hbegin : ∀ d ∈ "synapse_trig_".toList, isNewline d = false := by
          rw [toList_eq (show "synapse_trig_" = String.ofList _ from rfl)]
          exact List.map_inj_left.mp rfl
        exact hbegin c hc
      · exact hplain c (hsafe c hc).1
    have hexecute : ∀ c ∈ ")".toList ++ " EXECUTE FUNCTION ".toList, isNewline c = false := by
      rw [toList_eq (show ")" = String.ofList _ from rfl),
        toList_eq (show " EXECUTE FUNCTION " = String.ofList _ from rfl)]
      exact List.map_inj_left.mp rfl
    have hcall : ∀ c ∈ "()".toList, isNewline c = false := by
      rw [toList_eq (show "()" = String.ofList _ from rfl)]
      exact List.map_inj_left.mp rfl
    rw [← List.append_assoc]
    intro c hc
    rcases List.mem_append.mp hc with hc | hc
    · exact hexecute c hc
    · exact (List.mem_append.mp hc).elim (hname c) (hcall c)
  have hall := hhead.append (reads_when.append ((reads_of_endsInComment hcomment).append
    (reads_comment hend)))
  have hlost := hall.finished rfl
  rw [triggerText_eq, hwhen, whenClause_toList, List.append_assoc, List.append_assoc, lex, hlost,
    triggerTokens_eq, hwhen, Option.some.injEq] at hlex
  -- the parenthesis after the predicate is not there
  have hlength := congrArg List.length hlex
  have hsame := namesTable_length hts hts'
  simp only [whenTokens, headTokens, List.length_append, List.length_cons, List.length_nil]
    at hlength
  omega

/-! ### The queries -/

/-- The template of the statement that creates the trigger, as it stands in its query. -/
def createTemplate (r : TriggerRequest) : List Char :=
  "CREATE TRIGGER %I AFTER ".toList ++ (r.events.toList ++ (" ON %s FOR EACH ROW ".toList ++
    ((whenClause r.whenSql).toList ++ (" EXECUTE FUNCTION ".toList ++
      ((AgentTriggers.fnName r.targetTable).toList ++ "()".toList)))))

theorem createTrigSql_toList (r : TriggerRequest) : (createTrigSql r).toList =
    "SELECT format('".toList ++ (createTemplate r ++ "', $1, $2::regclass)".toList) := by
  unfold createTrigSql createTemplate
  simp only [String.toList_append, List.append_assoc]

theorem dropSql_toList : dropSql.toList = "SELECT format('".toList ++
    ("DROP TRIGGER IF EXISTS %I ON %s".toList ++ "', $1, $2::regclass)".toList) := by
  unfold dropSql
  simp

theorem reads_select : Reads .blank "SELECT format('".toList
    [.word "select".toList, .word "format".toList, .punct ['(']] (.str .plain []) := by
  rw [toList_eq (show "SELECT format('" = String.ofList _ from rfl),
    toList_eq (show "select" = String.ofList _ from rfl),
    toList_eq (show "format" = String.ofList _ from rfl)]
  rfl

/-- **A template without quotes** is the template of its query. -/
theorem lex_formatQuery {template : List Char} (h : '\'' ∉ template) :
    lex ("SELECT format('".toList ++ (template ++ "', $1, $2::regclass)".toList)) =
      some (formatQuery template) := by
  have hclose : "', $1, $2::regclass)".toList = ['\''] ++ ", $1, $2::regclass)".toList := by simp
  have hquote : Reads (.str .plain template) ['\''] [] (.strEnd .plain template) :=
    Reads.single rfl
  have hargs : Reads (.strEnd .plain template) ", $1, $2::regclass)".toList
      ([.str .plain template] ++ code ", $1, $2::regclass)") .blank :=
    Reads.afterCode rfl rfl rfl rfl
  have hcode : code ", $1, $2::regclass)" = [.punct [','], .param ['1'], .punct [','],
      .param ['2'], .punct [':', ':'], .word "regclass".toList, .punct [')']] := by
    rw [code, toList_eq (show ", $1, $2::regclass)" = String.ofList _ from rfl),
      toList_eq (show "regclass" = String.ofList _ from rfl)]
    decide
  have hread := reads_select.append ((reads_unquoted [] h).append (hquote.append hargs))
  rw [hclose, lex, hread.finished rfl, hcode]
  rfl

theorem selectFormat_eq {server : SqlServer} {query trigName targetTable : String}
    {template : List Char} {table : TableName}
    (hlex : lex query.toList = some (formatQuery template))
    (htable : server.regclass targetTable = some table) :
    selectFormat server query trigName targetTable =
      (formatCall server trigName table).format template := by
  unfold selectFormat
  rw [hlex, htable]
  simp [templateOf, formatQuery]

theorem exists_template {server : SqlServer} {query trigName targetTable : String}
    {table : TableName} {o : List Char} (htable : server.regclass targetTable = some table)
    (h : selectFormat server query trigName targetTable = some o) :
    ∃ template, lex query.toList = some (formatQuery template) ∧
      (formatCall server trigName table).format template = some o := by
  unfold selectFormat at h
  obtain ⟨ts, hts, htemplate⟩ := Option.bind_eq_some_iff.mp h
  obtain ⟨template, -, hif⟩ := Option.bind_eq_some_iff.mp htemplate
  split_ifs at hif with heq
  rw [htable, Option.bind_some] at hif
  exact ⟨template, heq ▸ hts, hif⟩

section Format

variable (server : SqlServer) (trigName : String) (table : TableName)

/-- The arguments of `format` begin with a character that is not loose. -/
theorem args_firm (targetTable : String) :
    ∀ a ∈ (formatCall server (AgentTriggers.trigName targetTable) table).args,
      FormatCall.Firm a := by
  have htrig : FormatCall.Firm (AgentTriggers.trigName targetTable).toList := by
    rw [trigName_toList, toList_eq (show "synapse_agent_" = String.ofList _ from rfl)]
    exact ⟨'s', _, rfl, by decide⟩
  have htable : FormatCall.Firm (table.text server.keyword) := by
    unfold TableName.text
    split
    · exact FormatCall.firm_quoteIdentifier _ table.relation_ne
    · next schema hschema =>
      obtain ⟨c, w, hcons, hc⟩ :=
        FormatCall.firm_quoteIdentifier server.keyword (table.schema_ne schema hschema)
      exact ⟨c, _, by rw [hcons]; rfl, hc⟩
  exact List.forall_mem_cons.mpr ⟨htrig, List.forall_mem_singleton.mpr htable⟩

/-- The name of the trigger is written. -/
theorem formatFrom_create (b : List Char) :
    (formatCall server trigName table).formatFrom .text 1
        ("CREATE TRIGGER %I AFTER ".toList ++ b) =
      ((formatCall server trigName table).formatFrom .text 2 b).map
        ("CREATE TRIGGER ".toList ++ (quoteIdentifier server.keyword trigName.toList ++
          " AFTER ".toList) ++ ·) := by
  have hsplit : "CREATE TRIGGER %I AFTER ".toList ++ b =
      "CREATE TRIGGER ".toList ++ ('%' :: 'I' :: (" AFTER ".toList ++ b)) := by simp
  have hconvert : (formatCall server trigName table).convert 'I' trigName.toList =
      some (quoteIdentifier server.keyword trigName.toList) := rfl
  rw [hsplit, FormatCall.formatFrom_append (by simp),
    FormatCall.formatFrom_type (by decide) (by decide) rfl hconvert,
    FormatCall.formatFrom_append (by simp), Option.map_map, Option.map_map]
  congr 1
  funext o
  simp

/-- The name of the table is written. -/
theorem formatFrom_on (b : List Char) :
    (formatCall server trigName table).formatFrom .text 2
        (" ON %s FOR EACH ROW ".toList ++ b) =
      ((formatCall server trigName table).formatFrom .text 3 b).map
        (" ON ".toList ++ (table.text server.keyword ++ " FOR EACH ROW ".toList) ++ ·) := by
  have hsplit : " ON %s FOR EACH ROW ".toList ++ b =
      " ON ".toList ++ ('%' :: 's' :: (" FOR EACH ROW ".toList ++ b)) := by simp
  have hconvert : (formatCall server trigName table).convert 's' (table.text server.keyword) =
      some (table.text server.keyword) := rfl
  rw [hsplit, FormatCall.formatFrom_append (by simp),
    FormatCall.formatFrom_type (by decide) (by decide) rfl hconvert,
    FormatCall.formatFrom_append (by simp), Option.map_map, Option.map_map]
  congr 1
  funext o
  simp

end Format

theorem fnName_clear {targetTable : String}
    (h : ∀ c ∈ (AgentTriggers.safeName targetTable).toList, isWordChar c = true) :
    '\'' ∉ (AgentTriggers.fnName targetTable).toList ∧
      '%' ∉ (AgentTriggers.fnName targetTable).toList := by
  rw [fnName_toList]
  constructor <;> intro hmem <;> rcases List.mem_append.mp hmem with hmem | hmem
  · simp at hmem
  · cases h _ hmem
  · simp at hmem
  · cases h _ hmem

/-- A statement drops the trigger first. -/
theorem exists_drop {server : SqlServer} {targetTable trigName : String} {table : TableName}
    (htable : server.regclass targetTable = some table) :
    ∃ drop, selectFormat server dropSql trigName targetTable = some drop := by
  have hplain : '\'' ∉ "DROP TRIGGER IF EXISTS %I ON %s".toList := by simp
  have hlex := lex_formatQuery hplain
  rw [← dropSql_toList] at hlex
  have hsplit : "DROP TRIGGER IF EXISTS %I ON %s".toList =
      "DROP TRIGGER IF EXISTS ".toList ++ ('%' :: 'I' :: (" ON ".toList ++
        ('%' :: 's' :: []))) := by simp
  have hname : (formatCall server trigName table).convert 'I' trigName.toList =
      some (quoteIdentifier server.keyword trigName.toList) := rfl
  have hconvert : (formatCall server trigName table).convert 's' (table.text server.keyword) =
      some (table.text server.keyword) := rfl
  rw [selectFormat_eq hlex htable, FormatCall.format, hsplit,
    FormatCall.formatFrom_append (by simp), FormatCall.formatFrom_type (by decide) (by decide) rfl hname,
    FormatCall.formatFrom_append (by simp),
    FormatCall.formatFrom_type (by decide) (by decide) rfl hconvert, FormatCall.formatFrom]
  exact ⟨_, rfl⟩

/-- The statement from the predicate on. -/
def triggerEnd (r : TriggerRequest) : List Char :=
  (whenClause r.whenSql).toList ++ (" EXECUTE FUNCTION ".toList ++
    ((AgentTriggers.fnName r.targetTable).toList ++ "()".toList))

theorem createTemplate_eq (r : TriggerRequest) : createTemplate r =
    "CREATE TRIGGER %I AFTER ".toList ++ (r.events.toList ++ (" ON %s FOR EACH ROW ".toList ++
      triggerEnd r)) := rfl

theorem triggerText_split (server : SqlServer) (r : TriggerRequest) (table : TableName) :
    triggerText server r table = "CREATE TRIGGER ".toList ++
      (quoteIdentifier server.keyword (AgentTriggers.trigName r.targetTable).toList ++
        " AFTER ".toList) ++ (r.events.toList ++ (" ON ".toList ++
          (table.text server.keyword ++ " FOR EACH ROW ".toList) ++ triggerEnd r)) := by
  unfold triggerText triggerEnd
  simp only [List.append_assoc]

theorem triggerEnd_clear {r : TriggerRequest}
    (hword : ∀ c ∈ (AgentTriggers.safeName r.targetTable).toList, isWordChar c = true)
    (hwhen : ∀ w, r.whenSql = some w → '\'' ∉ w.toList ∧ '%' ∉ w.toList) :
    '\'' ∉ triggerEnd r ∧ '%' ∉ triggerEnd r := by
  have hclause : '\'' ∉ (whenClause r.whenSql).toList ∧ '%' ∉ (whenClause r.whenSql).toList := by
    cases hw : r.whenSql with
    | none => simp [whenClause]
    | some w =>
      rw [whenClause_toList]
      simp [hwhen w hw]
  have hfn := fnName_clear hword
  unfold triggerEnd
  simp [hclause, hfn]

/-- **Texts without quotes and percent signs** come out as they are. -/
theorem create_of_clear {server : SqlServer} {r : TriggerRequest} {table : TableName}
    (htable : server.regclass r.targetTable = some table)
    (hword : ∀ c ∈ (AgentTriggers.safeName r.targetTable).toList, isWordChar c = true)
    (hevents : '\'' ∉ r.events.toList ∧ '%' ∉ r.events.toList)
    (hwhen : ∀ w, r.whenSql = some w → '\'' ∉ w.toList ∧ '%' ∉ w.toList) :
    selectFormat server (createTrigSql r) (AgentTriggers.trigName r.targetTable) r.targetTable =
      some (triggerText server r table) := by
  have hend := triggerEnd_clear hword hwhen
  have hquote : '\'' ∉ createTemplate r := by
    rw [createTemplate_eq]
    simp [hevents.1, hend.1]
  have hlex := lex_formatQuery hquote
  rw [← createTrigSql_toList] at hlex
  have hon := formatFrom_on server (AgentTriggers.trigName r.targetTable) table (triggerEnd r)
  rw [FormatCall.formatFrom_text hend.2, Option.map_some] at hon
  have hcreate := formatFrom_create server (AgentTriggers.trigName r.targetTable) table
    (r.events.toList ++ (" ON %s FOR EACH ROW ".toList ++ triggerEnd r))
  rw [FormatCall.formatFrom_append hevents.2, hon, Option.map_some, Option.map_some,
    ← createTemplate_eq, ← triggerText_split] at hcreate
  rw [selectFormat_eq hlex htable]
  exact hcreate

/-- The template that Postgres takes from the query, by what stands between the quotes. -/
theorem unquoted_of_query {r : TriggerRequest} {template : List Char}
    (hlex : lex (createTrigSql r).toList = some (formatQuery template)) :
    ∃ raw rest, createTemplate r ++ "', $1, $2::regclass)".toList = raw ++ '\'' :: rest ∧
      Unquoted raw template := by
  rw [createTrigSql_toList, lex, reads_select.lexFrom] at hlex
  obtain ⟨ts, hts, htokens⟩ := Option.map_eq_some_iff.mp hlex
  obtain ⟨raw, t, rest, us, hraw, hunquoted, rfl⟩ := unquoted_of_lexFrom hts
  simp only [formatQuery, List.cons_append, List.nil_append, List.cons.injEq, true_and,
    Lexeme.str.injEq] at htokens
  rw [htokens.1] at hunquoted
  exact ⟨raw, rest, hraw, hunquoted⟩

/-- **Nothing else comes out as it is**: a statement with each text in its place is only made from
texts without quotes and percent signs. -/
theorem clear_of_create {server : SqlServer} {r : TriggerRequest} {table : TableName}
    (htable : server.regclass r.targetTable = some table)
    (hcreate : selectFormat server (createTrigSql r) (AgentTriggers.trigName r.targetTable)
      r.targetTable = some (triggerText server r table)) :
    ('\'' ∉ r.events.toList ∧ '%' ∉ r.events.toList) ∧
      ∀ w, r.whenSql = some w → '\'' ∉ w.toList ∧ '%' ∉ w.toList := by
  have hfirm := args_firm server table r.targetTable
  obtain ⟨template, hlex, hformat⟩ := exists_template htable hcreate
  obtain ⟨raw, rest, hraw, hunquoted⟩ := unquoted_of_query hlex
  -- up to the events
  rw [createTemplate_eq, List.append_assoc, List.append_assoc, List.append_assoc] at hraw
  obtain ⟨fromEvents, rfl, hevents⟩ := FormatCall.exists_literal (by simp) hraw.symm
  obtain ⟨template, rfl, hunquoted₁⟩ := hunquoted.drop (by simp)
  rw [FormatCall.format, formatFrom_create, triggerText_split] at hformat
  obtain ⟨out, hout, htext⟩ := Option.map_eq_some_iff.mp hformat
  rw [List.append_cancel_left_eq] at htext
  subst htext
  have hgap : ∀ c ∈ [' '], isSpace c = true := List.forall_mem_singleton.mpr rfl
  have hsplit : fromEvents ++ '\'' :: rest = r.events.toList ++ ([' '] ++ 'O' ::
      ("N %s FOR EACH ROW ".toList ++ (triggerEnd r ++ "', $1, $2::regclass)".toList))) := by
    rw [← hevents]
    simp
  obtain ⟨hmark, fromOn, rfl, hon⟩ :=
    FormatCall.clear_of_format hfirm hunquoted₁ hgap (by decide) hsplit hout
  have hclear : '\'' ∉ r.events.toList ∧ '%' ∉ r.events.toList :=
    ⟨fun hmem => hmark (Or.inl hmem), fun hmem => hmark (Or.inr hmem)⟩
  refine ⟨hclear, fun w hw => ?_⟩
  -- up to the predicate
  have hend : triggerEnd r = "WHEN (".toList ++ (w.toList ++ ([] ++ ')' ::
      (" EXECUTE FUNCTION ".toList ++ ((AgentTriggers.fnName r.targetTable).toList ++
        "()".toList)))) := by
    unfold triggerEnd
    rw [hw, whenClause_toList]
    simp
  obtain ⟨template, rfl, hunquoted₂⟩ := hunquoted₁.drop hclear.1
  rw [FormatCall.formatFrom_append hclear.2] at hout
  obtain ⟨out, hout₁, htext⟩ := Option.map_eq_some_iff.mp hout
  rw [List.append_cancel_left_eq] at htext
  subst htext
  rw [hend, List.append_assoc, ← List.append_assoc] at hon
  obtain ⟨fromWhen, rfl, hwhen⟩ := FormatCall.exists_literal (by simp) hon.symm
  have hunquoted₃ : Unquoted (" ON %s FOR EACH ROW ".toList ++ ("WHEN (".toList ++ fromWhen))
      template := by
    simpa using hunquoted₂
  obtain ⟨template, rfl, hunquoted₄⟩ := hunquoted₃.drop (by simp)
  obtain ⟨template, rfl, hunquoted₅⟩ := hunquoted₄.drop (by simp)
  rw [formatFrom_on, FormatCall.formatFrom_append (by simp), hend, Option.map_map] at hout₁
  obtain ⟨out, hout₂, htext⟩ := Option.map_eq_some_iff.mp hout₁
  rw [Function.comp_apply, List.append_cancel_left_eq, List.append_cancel_left_eq] at htext
  subst htext
  have hsplit : fromWhen ++ '\'' :: rest = w.toList ++ ([] ++ ')' ::
      (" EXECUTE FUNCTION ".toList ++ ((AgentTriggers.fnName r.targetTable).toList ++
        "()".toList) ++ "', $1, $2::regclass)".toList)) := by
    rw [← hwhen]
    simp
  obtain ⟨hmark, -⟩ := FormatCall.clear_of_format hfirm hunquoted₅ (List.forall_mem_nil _)
    (by decide) hsplit hout₂
  exact ⟨fun hmem => hmark (Or.inl hmem), fun hmem => hmark (Or.inr hmem)⟩

/-! ### The pair -/

theorem attachAgentTrigger_eq {server : SqlServer} {r : TriggerRequest} {table : TableName}
    (htable : server.regclass r.targetTable = some table) :
    ∃ drop, attachAgentTrigger server r = (createFnSql r).toList :: drop ::
      (selectFormat server (createTrigSql r) (AgentTriggers.trigName r.targetTable)
        r.targetTable).toList := by
  have hdrop : ∃ drop, selectFormat server dropSql (AgentTriggers.trigName r.targetTable)
      r.targetTable = some drop := exists_drop htable
  obtain ⟨drop, hdrop⟩ := hdrop
  refine ⟨drop, ?_⟩
  unfold attachAgentTrigger
  simp only [hdrop]
  rfl

/-- The body is free of the delimiter when its texts are. -/
theorem Quotable.body {r : TriggerRequest} (h : Quotable r) : ¬ trigTag <:+: (body r).toList := by
  rw [trigTag_body_iff]
  rintro (hagent | hinput | ⟨hmode, htarget⟩)
  · exact h.agent hagent
  · exact h.inputExpr hinput
  · exact h.target hmode htarget

theorem quotesInputs_of_quotable {server : SqlServer} {r : TriggerRequest} {table : TableName}
    (htable : server.regclass r.targetTable = some table) (hr : ValidRequest r)
    (h : Quotable r) : QuotesInputs server r table where
  function := (function_iff server r).mpr ⟨h.name, h.body⟩
  body := (lex_body_iff hr).mpr h.inputExpr_ends
  trigger := by
    obtain ⟨drop, hattach⟩ := attachAgentTrigger_eq htable
    have hcreate := create_of_clear htable (fun c hc => (h.name c hc).1) h.events h.whenSql
    rw [hcreate] at hattach
    exact ⟨drop, _, hattach, rfl, lex_trigger server table hr h.name h.whenSql_ends⟩

theorem quotable_of_quotesInputs {server : SqlServer} {r : TriggerRequest} {table : TableName}
    (htable : server.regclass r.targetTable = some table) (hr : ValidRequest r)
    (h : QuotesInputs server r table) : Quotable r := by
  obtain ⟨hname, hbody⟩ := (function_iff server r).mp h.function
  rw [trigTag_body_iff, not_or, not_or] at hbody
  obtain ⟨drop, create, hattach, rfl, name, ts, function, -, hts, -, hlex⟩ := h.trigger
  obtain ⟨drop', hattach'⟩ := attachAgentTrigger_eq htable
  have hcreate : selectFormat server (createTrigSql r) (AgentTriggers.trigName r.targetTable)
      r.targetTable = some (triggerText server r table) := by
    have heq := hattach'.symm.trans hattach
    rw [List.cons.injEq, List.cons.injEq, Option.toList_eq_singleton_iff] at heq
    exact heq.2.2
  have hclear := clear_of_create htable hcreate
  exact {
    name := hname
    agent := hbody.1
    inputExpr := hbody.2.1
    target := fun hmode htarget => hbody.2.2 ⟨hmode, htarget⟩
    inputExpr_ends := (lex_body_iff hr).mp h.body
    events := hclear.1
    whenSql := hclear.2
    whenSql_ends := whenSql_ends_of_lex hr hname hts hlex }

/-- **`attach_agent_trigger` quotes its inputs** exactly when the table's name makes a word without
upper case letters for the function, nothing in the body has the delimiter `$trig_body$`, the events
and the predicate have no quote and no percent sign, and neither the predicate nor the input
expression ends in a line comment. -/
theorem quotesInputs_iff {server : SqlServer} {r : TriggerRequest} {table : TableName}
    (htable : server.regclass r.targetTable = some table) (hr : ValidRequest r) :
    QuotesInputs server r table ↔ Quotable r :=
  ⟨quotable_of_quotesInputs htable hr, quotesInputs_of_quotable htable hr⟩

/-! ### A shop -/

def ordersTable : TableName where
  schema := some "shop".toList
  relation := "orders".toList
  schema_ne := by
    rintro s ⟨⟩
    simp
  relation_ne := by simp

def hyphenTable : TableName where
  schema := none
  relation := "my-table".toList
  schema_ne := by
    rintro s ⟨⟩
  relation_ne := by simp

/-- A database with a table `shop.orders` and a table `"my-table"`. -/
def shopServer : SqlServer where
  keyword s := s ∈ ["order".toList, "select".toList, "table".toList, "user".toList]
  keyword_synapse := by
    intro s
    simp
  int4 s := (String.ofList s).toInt?
  regclass t :=
    if t = "shop.orders" then some ordersTable
    else if t = "\"my-table\"" then some hyphenTable
    else none

/-- An agent whose name has a quote, and an input expression with a literal. -/
def orderRequest : TriggerRequest where
  targetTable := "shop.orders"
  agent := "o'brien"
  mode := "queue"
  events := "INSERT OR UPDATE OF total"
  whenSql := some "NEW.total > 100"
  inputExpr := "'it''s $5 or 5% of ' || NEW.total"

theorem valid_orderRequest : ValidRequest orderRequest where
  inputExpr := by
    rw [orderRequest,
      toList_eq (show "'it''s $5 or 5% of ' || NEW.total" = String.ofList _ from rfl)]
    rfl
  whenSql := by
    rintro w ⟨⟩
    rw [toList_eq (show "NEW.total > 100" = String.ofList _ from rfl)]
    rfl
  events := by
    rw [orderRequest, toList_eq (show "INSERT OR UPDATE OF total" = String.ofList _ from rfl)]
    rfl
  events_ends := by
    rw [orderRequest, toList_eq (show "INSERT OR UPDATE OF total" = String.ofList _ from rfl)]
    rfl

theorem safeName_orders : (AgentTriggers.safeName "shop.orders").toList = "shop_orders".toList := by
  rw [AgentTriggers.safeName, String.toList_ofList,
    toList_eq (show "shop.orders" = String.ofList _ from rfl),
    toList_eq (show "shop_orders" = String.ofList _ from rfl)]
  decide

theorem quotable_orderRequest : Quotable orderRequest where
  name := by
    rw [orderRequest, safeName_orders, toList_eq (show "shop_orders" = String.ofList _ from rfl)]
    intro c hc
    have hident : isIdentChar c = true := List.all_eq_true.mp rfl c hc
    exact ⟨isWordChar_of_isIdentChar hident, toLower_of_isIdentChar hident⟩
  agent := by
    rw [trigTag_eq, orderRequest, toList_eq (show "o'brien" = String.ofList _ from rfl)]
    decide
  inputExpr := by
    rw [trigTag_eq, orderRequest,
      toList_eq (show "'it''s $5 or 5% of ' || NEW.total" = String.ofList _ from rfl)]
    decide
  target := by
    intro _
    rw [trigTag_eq, orderRequest, toList_eq (show "shop.orders" = String.ofList _ from rfl)]
    decide
  inputExpr_ends := by
    rw [orderRequest,
      toList_eq (show "'it''s $5 or 5% of ' || NEW.total" = String.ofList _ from rfl)]
    decide
  events := by
    rw [orderRequest, toList_eq (show "INSERT OR UPDATE OF total" = String.ofList _ from rfl)]
    decide
  whenSql := by
    rintro w ⟨⟩
    rw [toList_eq (show "NEW.total > 100" = String.ofList _ from rfl)]
    decide
  whenSql_ends := by
    rintro w ⟨⟩
    rw [toList_eq (show "NEW.total > 100" = String.ofList _ from rfl)]
    decide

theorem quotesInputs_orderRequest : QuotesInputs shopServer orderRequest ordersTable :=
  (quotesInputs_iff (by simp [shopServer, orderRequest]) valid_orderRequest).mpr
    quotable_orderRequest

/-- A predicate with a literal, one with a percent sign, a table whose name is no word, and an agent
with the delimiter in its name. -/
theorem unquoted_inputs :
    (ValidRequest { orderRequest with whenSql := some "NEW.status = 'new'" } ∧
      ¬ QuotesInputs shopServer { orderRequest with whenSql := some "NEW.status = 'new'" }
        ordersTable) ∧
    (ValidRequest { orderRequest with whenSql := some "NEW.total % 2 = 0" } ∧
      ¬ QuotesInputs shopServer { orderRequest with whenSql := some "NEW.total % 2 = 0" }
        ordersTable) ∧
    (ValidRequest { orderRequest with targetTable := "\"my-table\"" } ∧
      ¬ QuotesInputs shopServer { orderRequest with targetTable := "\"my-table\"" }
        hyphenTable) ∧
    (ValidRequest { orderRequest with agent := "a$trig_body$b" } ∧
      ¬ QuotesInputs shopServer { orderRequest with agent := "a$trig_body$b" } ordersTable) := by
  have htable : shopServer.regclass "shop.orders" = some ordersTable := by simp [shopServer]
  have hhyphen : shopServer.regclass "\"my-table\"" = some hyphenTable := by simp [shopServer]
  have hliteral : ValidRequest { orderRequest with whenSql := some "NEW.status = 'new'" } := by
    refine { valid_orderRequest with whenSql := ?_ }
    rintro w ⟨⟩
    rw [toList_eq (show "NEW.status = 'new'" = String.ofList _ from rfl)]
    rfl
  have hpercent : ValidRequest { orderRequest with whenSql := some "NEW.total % 2 = 0" } := by
    refine { valid_orderRequest with whenSql := ?_ }
    rintro w ⟨⟩
    rw [toList_eq (show "NEW.total % 2 = 0" = String.ofList _ from rfl)]
    rfl
  have hname : ValidRequest { orderRequest with targetTable := "\"my-table\"" } :=
    { valid_orderRequest with }
  have hagent : ValidRequest { orderRequest with agent := "a$trig_body$b" } :=
    { valid_orderRequest with }
  refine ⟨⟨hliteral, fun h => ?_⟩, ⟨hpercent, fun h => ?_⟩, ⟨hname, fun h => ?_⟩,
    ⟨hagent, fun h => ?_⟩⟩
  · have hclear := (quotable_of_quotesInputs htable hliteral h).whenSql _ rfl
    exact hclear.1 (by simp)
  · have hclear := (quotable_of_quotesInputs htable hpercent h).whenSql _ rfl
    exact hclear.2 (by simp)
  · have hword := (quotable_of_quotesInputs hhyphen hname h).name '-' (by
      simp [AgentTriggers.safeName])
    exact absurd hword.1 (by decide)
  · refine (quotable_of_quotesInputs htable hagent h).agent ⟨['a'], ['b'], ?_⟩
    rw [trigTag_eq]
    simp

end TriggerSql

end PgSynapse
