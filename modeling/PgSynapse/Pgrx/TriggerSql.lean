import PgSynapse.Lib.SqlFormat
import PgSynapse.Pgrx.AgentTriggers

/-!
# The SQL of an agent trigger

The texts that `synapse.attach_agent_trigger` (`sql_functions.rs`) writes from its arguments and
hands to Postgres: the trigger function, and the queries whose answers are the statements that drop
and create the trigger.
-/

namespace PgSynapse

open SqlText

/-- A table as Postgres writes it, with its schema unless the search path finds the table. -/
structure TableName where
  schema : Option (List Char)
  relation : List Char
  schema_ne : ∀ s, schema = some s → s ≠ []
  relation_ne : relation ≠ []

/-- The output function of regclass. -/
def TableName.text (keyword : List Char → Bool) (t : TableName) : List Char :=
  match t.schema with
  | none => quoteIdentifier keyword t.relation
  | some s => quoteIdentifier keyword s ++ '.' :: quoteIdentifier keyword t.relation

/-- Postgres, as the queries rely on it. -/
structure SqlServer where
  /-- The key words that are no identifiers. -/
  keyword : List Char → Bool
  keyword_synapse : ∀ s, keyword ("synapse_".toList ++ s) = false
  /-- The input function of int4. -/
  int4 : List Char → Option Int
  /-- The table a text names, by the search path. -/
  regclass : String → Option TableName

/-- The arguments of `synapse.attach_agent_trigger`. -/
structure TriggerRequest where
  targetTable : String
  agent : String
  mode : String
  events : String
  whenSql : Option String
  inputExpr : String
  deriving DecidableEq, Repr

namespace TriggerSql

def whenClause : Option String → String
  | some w => "WHEN (" ++ w ++ ")"
  | none => ""

/-- `replace('\'', "''")`. -/
def replaceQuotes (s : String) : String := String.ofList (doubled '\'' s.toList)

def agentLit (agent : String) : String := "'" ++ replaceQuotes agent ++ "'"

def tableLit (targetTable : String) : String := replaceQuotes targetTable

/-- The text before the agent in the body of inline mode. -/
def inlineHead : String :=
  "
DECLARE
  _res JSONB;
  _status TEXT;
  _out TEXT;
  _obj JSONB;
  _decision TEXT;
  _reason TEXT;
BEGIN
  IF pg_trigger_depth() > 1 THEN
    RETURN NEW;
  END IF;
  _res := synapse.execute("

/-- The text after `input_expr` in the body of inline mode. -/
def inlineTail : String :=
  ")::text);
  _status := _res->>'status';
  -- The envelope output is the agent reply TEXT, not a JSON object.
  -- Pull the first JSON object substring out of it and parse a decision.
  _out := _res->>'output';
  BEGIN
    _obj := substring(_out from '\\\x7b[\\s\\S]*\\\x7d')::jsonb;
    _decision := lower(_obj->>'decision');
  EXCEPTION WHEN others THEN
    _obj := NULL;
    _decision := NULL;
  END;
  IF _status IS DISTINCT FROM 'completed' THEN
    -- NULLIF because a run that did not complete has output '', not NULL, so
    -- a plain COALESCE stopped there and raised \"rejected: \" with no reason.
    -- The person reading this is a DBA whose write just rolled back.
    _reason := COALESCE(
      _res->>'error',
      NULLIF(_out, ''),
      CASE WHEN _status = 'timed_out'
           THEN 'agent exceeded the inline budget, see pg_synapse.inline_timeout_ms'
           ELSE 'agent did not complete, status ' || COALESCE(_status, 'unknown') END
    );
    RAISE EXCEPTION 'synapse inline trigger rejected: %', _reason;
  END IF;
  IF _decision = 'reject'
     OR (_decision IS NULL AND _out ~* '\"decision\"\\s*:\\s*\"reject\"') THEN
    _reason := COALESCE(
      _obj->>'reason',
      substring(_out from '\"reason\"\\s*:\\s*\"([^\"]*)\"'),
      _out,
      'agent rejected row'
    );
    RAISE EXCEPTION 'synapse inline trigger rejected: %', _reason;
  END IF;
  RETURN NEW;
END;"

/-- Inline mode: the agent is executed, and an error or a reject decision is raised. -/
def inlineBody (agentLit inputExpr : String) : String :=
  inlineHead ++ agentLit ++ ", (" ++ inputExpr ++ inlineTail

/-- The text before the agent in the body of queue mode. -/
def queueHead : String :=
  "
BEGIN
  IF pg_trigger_depth() > 1 THEN
    RETURN NEW;
  END IF;
  PERFORM synapse.enqueue(\n    "

/-- Queue mode: fire-and-forget enqueue. -/
def queueBody (agentLit inputExpr tableLit : String) : String :=
  queueHead ++ agentLit ++ ",\n    (" ++ inputExpr ++ ")::text,\n    " ++
    "'trigger:" ++ tableLit ++ "'" ++ "\n  );\n  RETURN NEW;\nEND;"

/-- The body for a mode; every mode but `inline` is queue mode. -/
def body (r : TriggerRequest) : String :=
  if r.mode = "inline" then inlineBody (agentLit r.agent) r.inputExpr
  else queueBody (agentLit r.agent) r.inputExpr (tableLit r.targetTable)

def createFnSql (r : TriggerRequest) : String :=
  "CREATE OR REPLACE FUNCTION " ++ AgentTriggers.fnName r.targetTable ++
    "() RETURNS trigger LANGUAGE plpgsql SECURITY DEFINER AS " ++
    "$trig_body$" ++ body r ++ "$trig_body$"

def dropSql : String := "SELECT format('DROP TRIGGER IF EXISTS %I ON %s', $1, $2::regclass)"

def createTrigSql (r : TriggerRequest) : String :=
  "SELECT format('" ++ "CREATE TRIGGER %I AFTER " ++ r.events ++ " ON %s FOR EACH ROW " ++
    whenClause r.whenSql ++ " EXECUTE FUNCTION " ++ AgentTriggers.fnName r.targetTable ++ "()" ++
    "', $1, $2::regclass)"

/-- The tokens of a query `SELECT format('…', $1, $2::regclass)`. -/
def formatQuery (template : List Char) : List Lexeme :=
  [.word "select".toList, .word "format".toList, .punct ['('], .str .plain template, .punct [','],
    .param ['1'], .punct [','], .param ['2'], .punct [':', ':'], .word "regclass".toList,
    .punct [')']]

/-- The template of such a query. -/
def templateOf : List Lexeme → Option (List Char)
  | [_, _, _, .str .plain template, _, _, _, _, _, _, _] => some template
  | _ => none

/-- The call of `format` in such a query for a trigger name and a table. -/
def formatCall (server : SqlServer) (trigName : String) (table : TableName) : FormatCall where
  keyword := server.keyword
  int4 := server.int4
  args := [trigName.toList, table.text server.keyword]

/-- What Postgres answers to such a query.  `none` is an error, or a text that is no such query: what
Postgres makes of another query is left out. -/
def selectFormat (server : SqlServer) (query trigName targetTable : String) :
    Option (List Char) :=
  (lex query.toList).bind fun ts => (templateOf ts).bind fun template =>
    if ts = formatQuery template then
      (server.regclass targetTable).bind fun table =>
        (formatCall server trigName table).format template
    else none

/-- The statements that `attach_agent_trigger` runs.  It goes on without a statement that drops the
trigger, and ends with an error without one that creates it. -/
def attachAgentTrigger (server : SqlServer) (r : TriggerRequest) : List (List Char) :=
  let trigName := AgentTriggers.trigName r.targetTable
  (createFnSql r).toList ::
    ((selectFormat server dropSql trigName r.targetTable).toList ++
      (selectFormat server (createTrigSql r) trigName r.targetTable).toList)

end TriggerSql

end PgSynapse
