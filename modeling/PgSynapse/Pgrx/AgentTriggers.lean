import Mathlib.Data.List.Basic
import Mathlib.Logic.Function.Basic

/-!
# Agent triggers

`synapse.attach_agent_trigger` and `synapse.detach_agent_trigger` (`sql_functions.rs`), on the
functions and triggers of a database.  What Postgres makes of a name, a clause or a function body is
a parameter.
-/

namespace PgSynapse

/-- What the generated trigger function does for a row: it executes the agent, or enqueues it with a
source label. -/
inductive TriggerBody where
  | inline (agent inputExpr : String)
  | queue (agent inputExpr source : String)
  deriving DecidableEq, Repr

/-- Postgres, as the calls rely on it, with tables `τ` and writes `ω`. -/
structure Postgres (τ ω : Type) where
  /-- The table a text names, by the search path. -/
  regclass : String → Option τ
  /-- The function an unquoted text names in CREATE FUNCTION and DROP FUNCTION, folded and cut to 63
  bytes; `none` is a syntax error. -/
  functionName : String → Option String
  /-- The trigger a text names once it is quoted by `%I`, cut to 63 bytes. -/
  triggerName : String → String
  /-- Whether CREATE FUNCTION takes a body. -/
  acceptsBody : TriggerBody → Bool
  /-- Whether CREATE TRIGGER takes the events and the WHEN clause on a table. -/
  acceptsTrigger : String → Option String → τ → Bool
  /-- Whether a trigger with these events and this WHEN clause fires for a write. -/
  qualifies : String → Option String → ω → Bool

/-- A trigger of the database. -/
structure TriggerRow (τ : Type) where
  table : τ
  name : String
  function : String
  events : String
  whenSql : Option String
  deriving DecidableEq, Repr

/-- The trigger functions and the triggers. -/
structure TriggerCatalog (τ : Type) where
  functions : String → Option TriggerBody
  triggers : List (TriggerRow τ)

/-- A database without agent triggers. -/
def TriggerCatalog.empty {τ : Type} : TriggerCatalog τ := ⟨fun _ => none, []⟩

namespace AgentTriggers

/-- `safe_name`: dots become underscores and double quotes go. -/
def safeName (targetTable : String) : String :=
  String.ofList (targetTable.toList.filterMap fun c =>
    if c = '.' then some '_' else if c = '\x22' then none else some c)

def fnName (targetTable : String) : String := "synapse_trig_" ++ safeName targetTable

def trigName (targetTable : String) : String := "synapse_agent_" ++ safeName targetTable

/-- The body for a mode; every mode but `inline` is queue mode. -/
def body (targetTable agent mode inputExpr : String) : TriggerBody :=
  if mode = "inline" then .inline agent inputExpr
  else .queue agent inputExpr ("trigger:" ++ targetTable)

variable {τ ω : Type} [DecidableEq τ]

/-- DROP TRIGGER IF EXISTS. -/
def dropTrigger (table : τ) (name : String) (s : TriggerCatalog τ) : TriggerCatalog τ :=
  { s with triggers := s.triggers.filter fun t => !(t.table = table && t.name = name) }

/-- `synapse.attach_agent_trigger`.  An error undoes the call. -/
def attachAgentTrigger (pg : Postgres τ ω) (targetTable agent mode events : String)
    (whenSql : Option String) (inputExpr : String) (s : TriggerCatalog τ) :
    Except String (TriggerCatalog τ) :=
  let body := body targetTable agent mode inputExpr
  match pg.functionName (fnName targetTable) with
  | none => .error "attach_agent_trigger create function: syntax error"
  | some fn =>
    if !pg.acceptsBody body then .error "attach_agent_trigger create function: invalid body"
    else
      match pg.regclass targetTable with
      | none => .error ("relation \"" ++ targetTable ++ "\" does not exist")
      | some table =>
        if !pg.acceptsTrigger events whenSql table then
          .error "attach_agent_trigger create trigger: invalid clause"
        else
          let name := pg.triggerName (trigName targetTable)
          -- CREATE OR REPLACE: whatever uses the function runs the new body from now on
          let s := { s with functions := Function.update s.functions fn (some body) }
          let s := dropTrigger table name s
          .ok { s with triggers := s.triggers ++ [⟨table, name, fn, events, whenSql⟩] }

/-- `synapse.detach_agent_trigger`.  DROP FUNCTION fails while a trigger uses the function. -/
def detachAgentTrigger (pg : Postgres τ ω) (targetTable : String) (s : TriggerCatalog τ) :
    Except String (TriggerCatalog τ) :=
  match pg.regclass targetTable with
  | none => .error ("relation \"" ++ targetTable ++ "\" does not exist")
  | some table =>
    let s := dropTrigger table (pg.triggerName (trigName targetTable)) s
    match pg.functionName (fnName targetTable) with
    | none => .error "detach_agent_trigger drop function: syntax error"
    | some fn =>
      if s.triggers.any fun t => t.function = fn then
        .error ("detach_agent_trigger drop function: cannot drop function " ++ fn ++
          "() because other objects depend on it")
      else .ok { s with functions := Function.update s.functions fn none }

/-- What a write to a table does, at trigger depth 1. -/
def fires (pg : Postgres τ ω) (s : TriggerCatalog τ) (table : τ) (write : ω) : List TriggerBody :=
  (s.triggers.filter fun t => t.table = table && pg.qualifies t.events t.whenSql write).filterMap
    fun t => s.functions t.function

end AgentTriggers

/-- A call of one of the two functions. -/
inductive TriggerCall where
  | attach (targetTable agent mode events : String) (whenSql : Option String) (inputExpr : String)
  | detach (targetTable : String)
  deriving DecidableEq, Repr

/-- A call that returns. -/
def TriggerCall.step {τ ω : Type} [DecidableEq τ] (pg : Postgres τ ω) (s : TriggerCatalog τ) :
    TriggerCall → Option (TriggerCatalog τ)
  | attach targetTable agent mode events whenSql inputExpr =>
    (AgentTriggers.attachAgentTrigger pg targetTable agent mode events whenSql inputExpr s).toOption
  | detach targetTable => (AgentTriggers.detachAgentTrigger pg targetTable s).toOption

end PgSynapse
