import PgSynapse.Pgrx.TriggerSql

/-!
# The trigger function of an agent trigger

The statement that creates the trigger function, and the body in it (`function_iff`,
`lex_body_iff`).  The function name is spliced as it is, so it is a name only when it is one word.
The agent is a literal whose quotes are doubled, but the body around it stands between dollar tags
and ends at the first delimiter.  The input expression is closed by a parenthesis, which a comment at
its end hides.
-/

namespace PgSynapse

namespace TriggerSql

open SqlText

/-! ### The specification -/

/-- The body of a trigger function that runs the agent with the input expression. -/
def bodyTokens (r : TriggerRequest) : List Lexeme :=
  if r.mode = "inline" then
    code inlineHead ++ .str .plain r.agent.toList ::
      (code ", (" ++ tokens r.inputExpr.toList ++ code inlineTail)
  else
    code queueHead ++ .str .plain r.agent.toList ::
      (code ", (" ++ tokens r.inputExpr.toList ++ code ")::text, " ++
        .str .plain ("trigger:" ++ r.targetTable).toList :: code "); RETURN NEW; END;")

/-- The trigger function. -/
def functionTokens (r : TriggerRequest) (name : Lexeme) : List Lexeme :=
  code "CREATE OR REPLACE FUNCTION " ++ name ::
    (code "() RETURNS trigger LANGUAGE plpgsql SECURITY DEFINER AS " ++
      [.str .plain (body r).toList])

/-- The delimiter of the trigger function. -/
def trigTag : List Char := delimiter "trig_body".toList

/-- The texts of a request are SQL. -/
structure ValidRequest (r : TriggerRequest) : Prop where
  inputExpr : (lex r.inputExpr.toList).isSome
  whenSql : ∀ w, r.whenSql = some w → (lex w.toList).isSome
  events : (lex r.events.toList).isSome
  events_ends : endsInComment r.events.toList = false

/-! ### The texts of the program -/

set_option maxRecDepth 8000 in
theorem closes_inlineHead : ∃ cs, inlineHead = String.ofList cs ∧ closes cs = true :=
  ⟨_, rfl, by rfl⟩

set_option maxRecDepth 8000 in
theorem closes_inlineTail :
    ∃ cs, inlineTail = String.ofList (')' :: cs) ∧ closes (')' :: cs) = true :=
  ⟨_, rfl, by rfl⟩

set_option maxRecDepth 8000 in
/-- After a comment the end of the body begins with its next line. -/
theorem inlineTail_lost : ∃ cs, inlineTail = String.ofList cs ∧
    (lexFrom .lineComment cs).bind List.head? ≠ (some (tokens cs)).bind List.head? :=
  ⟨_, rfl, by decide +kernel⟩

set_option maxRecDepth 8000 in
theorem inlineTail_ends : inlineTail.toList.getLast? = some ';' := by
  rw [toList_eq (show inlineTail = String.ofList _ from rfl)]
  rfl

set_option maxRecDepth 8000 in
theorem closes_queueHead : ∃ cs, queueHead = String.ofList cs ∧ closes cs = true :=
  ⟨_, rfl, by rfl⟩

/-! ### Names -/

/-- The beginning of the two names. -/
theorem fnName_toList (targetTable : String) : (AgentTriggers.fnName targetTable).toList =
    "synapse_trig_".toList ++ (AgentTriggers.safeName targetTable).toList := by
  rw [AgentTriggers.fnName, String.toList_append]

theorem reads_fnName {targetTable : String}
    (h : ∀ c ∈ (AgentTriggers.safeName targetTable).toList, isWordChar c = true) :
    Reads .blank (AgentTriggers.fnName targetTable).toList []
      (.word (AgentTriggers.fnName targetTable).toList) := by
  have hbegin : "synapse_trig_".toList = 's' :: "ynapse_trig_".toList := by simp
  have hword : ∀ c ∈ "ynapse_trig_".toList, isWordChar c = true := by
    rw [toList_eq (show "ynapse_trig_" = String.ofList _ from rfl)]
    exact List.all_eq_true.mp rfl
  rw [fnName_toList, hbegin, List.cons_append]
  refine reads_word (by decide) fun c hc => ?_
  exact (List.mem_append.mp hc).elim (hword c) (h c)

theorem finish_fnName {targetTable : String}
    (h : ∀ c ∈ (AgentTriggers.safeName targetTable).toList, c.toLower = c) :
    finish (.word (AgentTriggers.fnName targetTable).toList) =
      some [.word (AgentTriggers.fnName targetTable).toList] := by
  have hbegin : ∀ c ∈ "synapse_trig_".toList, c.toLower = c := by
    rw [toList_eq (show "synapse_trig_" = String.ofList _ from rfl)]
    exact List.map_inj_left.mp rfl
  have hfold : foldCase (AgentTriggers.fnName targetTable).toList =
      (AgentTriggers.fnName targetTable).toList := by
    rw [fnName_toList, foldCase]
    refine (List.map_congr_left fun c hc => ?_).trans (List.map_id _)
    exact (List.mem_append.mp hc).elim (hbegin c) (h c)
  rw [finish, hfold]

theorem continues_fnName (targetTable : String) {c : Char} (hc : isWordChar c = false) :
    continues (.word (AgentTriggers.fnName targetTable).toList) c = none := by
  refine continues_word ?_ hc
  rw [fnName_toList, toList_eq (show "synapse_trig_" = String.ofList _ from rfl)]
  simp

theorem names_fnName (server : SqlServer) (targetTable : String) :
    (Lexeme.word (AgentTriggers.fnName targetTable).toList).Names server.keyword
      (AgentTriggers.fnName targetTable).toList := by
  refine Or.inr ⟨rfl, ?_⟩
  have hbegin : "synapse_trig_".toList = "synapse_".toList ++ "trig_".toList := by simp
  rw [fnName_toList, hbegin, List.append_assoc]
  exact server.keyword_synapse _

/-! ### The trigger function -/

theorem agentLit_toList (agent : String) :
    (agentLit agent).toList = '\'' :: (doubled '\'' agent.toList ++ ['\'']) := by
  simp [agentLit, replaceQuotes, String.toList_append]

/-- The agent is a literal, whatever its name. -/
theorem reads_agentLit (agent : String) :
    Reads .blank (agentLit agent).toList [] (.strEnd .plain agent.toList) := by
  rw [agentLit_toList]
  exact reads_literal agent.toList

theorem inlineBody_toList (agentLit inputExpr : String) : (inlineBody agentLit inputExpr).toList =
    inlineHead.toList ++ (agentLit.toList ++ (", (".toList ++ (inputExpr.toList ++
      inlineTail.toList))) := by
  simp only [inlineBody, String.toList_append, List.append_assoc]

theorem queueBody_toList (agentLit inputExpr tableLit : String) :
    (queueBody agentLit inputExpr tableLit).toList =
      queueHead.toList ++ (agentLit.toList ++ (",\n    (".toList ++ (inputExpr.toList ++
        (")::text,\n    ".toList ++ ("'trigger:".toList ++ (tableLit.toList ++ ("'".toList ++
          "\n  );\n  RETURN NEW;\nEND;".toList))))))) := by
  simp only [queueBody, String.toList_append, List.append_assoc]

theorem tableLit_toList (targetTable : String) :
    (tableLit targetTable).toList = doubled '\'' targetTable.toList := by
  rw [tableLit, replaceQuotes, String.toList_ofList]

/-- The label of a job, with its quotes doubled. -/
theorem doubled_label (targetTable : String) :
    doubled '\'' ("trigger:" ++ targetTable).toList =
      "trigger:".toList ++ (tableLit targetTable).toList := by
  have hplain : '\'' ∉ "trigger:".toList := by simp
  rw [String.toList_append, tableLit_toList, doubled, List.flatMap_append]
  exact congrArg (· ++ doubled '\'' targetTable.toList) (doubled_eq hplain)

/-- The label of a job is a literal. -/
theorem reads_tableLit (targetTable : String) :
    Reads .blank ("'trigger:".toList ++ ((tableLit targetTable).toList ++ "'".toList)) []
      (.strEnd .plain ("trigger:" ++ targetTable).toList) := by
  have hread := reads_literal ("trigger:" ++ targetTable).toList
  rw [doubled_label] at hread
  simpa using hread

/-- What stands before the input expression is read, in inline mode. -/
theorem reads_inline (agent : String) :
    Reads .blank (inlineHead.toList ++ ((agentLit agent).toList ++ ", (".toList))
      (code inlineHead ++ .str .plain agent.toList :: code ", (") .blank := by
  obtain ⟨cs, hcs, hclose⟩ := closes_inlineHead
  have hopen : Reads (.strEnd .plain agent.toList) ", (".toList
      ([.str .plain agent.toList] ++ code ", (") .blank :=
    Reads.afterCode rfl rfl rfl rfl
  exact (reads_code hcs hclose).append ((reads_agentLit agent).append hopen)

/-- What stands before the input expression is read, in queue mode. -/
theorem reads_queue (agent : String) :
    Reads .blank (queueHead.toList ++ ((agentLit agent).toList ++ ",\n    (".toList))
      (code queueHead ++ .str .plain agent.toList :: code ", (") .blank := by
  obtain ⟨cs, hcs, hclose⟩ := closes_queueHead
  have hcode : code ",\n    (" = code ", (" := by
    rw [code, code, toList_eq (show ",\n    (" = String.ofList _ from rfl),
      toList_eq (show ", (" = String.ofList _ from rfl)]
    decide
  have hopen : Reads (.strEnd .plain agent.toList) ",\n    (".toList
      ([.str .plain agent.toList] ++ code ",\n    (") .blank :=
    Reads.afterCode rfl rfl rfl rfl
  rw [hcode] at hopen
  exact (reads_code hcs hclose).append ((reads_agentLit agent).append hopen)

/-- The end of the body in queue mode, from the label on. -/
theorem reads_label (targetTable : String) :
    Reads .blank ("'trigger:".toList ++ ((tableLit targetTable).toList ++ ("'".toList ++
        "\n  );\n  RETURN NEW;\nEND;".toList)))
      (.str .plain ("trigger:" ++ targetTable).toList :: code "); RETURN NEW; END;") .blank := by
  have hsplit : "\n  );\n  RETURN NEW;\nEND;".toList =
      "\n  ".toList ++ ");\n  RETURN NEW;\nEND;".toList := by simp
  have hcode : code ");\n  RETURN NEW;\nEND;" = code "); RETURN NEW; END;" := by
    rw [code, code, toList_eq (show ");\n  RETURN NEW;\nEND;" = String.ofList _ from rfl),
      toList_eq (show "); RETURN NEW; END;" = String.ofList _ from rfl)]
    decide
  have hgap : Reads (.strEnd .plain ("trigger:" ++ targetTable).toList) "\n  ".toList []
      (.gap .plain ("trigger:" ++ targetTable).toList true) := by
    rw [toList_eq (show "\n  " = String.ofList _ from rfl)]
    rfl
  have hend : Reads (.gap .plain ("trigger:" ++ targetTable).toList true)
      ");\n  RETURN NEW;\nEND;".toList
      ([.str .plain ("trigger:" ++ targetTable).toList] ++ code ");\n  RETURN NEW;\nEND;")
      .blank :=
    Reads.afterCode rfl rfl rfl rfl
  rw [hcode] at hend
  have hread := (reads_tableLit targetTable).append (hgap.append hend)
  rw [hsplit]
  simpa only [List.append_assoc, List.nil_append, List.singleton_append] using hread

/-- The tokens of a body are those of the input expression between two texts.  The second one begins
with a closing parenthesis, which is lost in a comment. -/
structure Encloses (head tail inputExpr : List Char) (hs ts : List Lexeme) : Prop where
  reads_head : Reads .blank head hs .blank
  reads_tail : ∀ s us, finish s = some us → s ≠ .lineComment → Reads s tail (us ++ ts) .blank
  comment : lexFrom .lineComment tail ≠ some ts

/-- **The body by its input expression.** -/
theorem lex_enclosed {head tail inputExpr : List Char} {hs ts : List Lexeme}
    (h : Encloses head tail inputExpr hs ts) (hlex : (lex inputExpr).isSome) :
    lex (head ++ (inputExpr ++ tail)) = some (hs ++ (tokens inputExpr ++ ts)) ↔
      endsInComment inputExpr = false := by
  constructor
  · intro hbody
    by_contra hcomment
    rw [Bool.not_eq_false] at hcomment
    have hread := h.reads_head.append (reads_of_endsInComment hcomment)
    rw [lex, ← List.append_assoc, hread.lexFrom tail] at hbody
    obtain ⟨us, hus, htokens⟩ := Option.map_eq_some_iff.mp hbody
    rw [List.append_assoc, List.append_cancel_left_eq, List.append_cancel_left_eq] at htokens
    exact h.comment (hus.trans (congrArg some htokens))
  · intro hcomment
    obtain ⟨us, s, vs, hinput, hfinish, hline, htokens⟩ := reads_of_lex hlex hcomment
    have hread := h.reads_head.append (hinput.append (h.reads_tail s vs hfinish hline))
    rw [lex, hread.finished rfl, htokens, List.append_nil, List.append_assoc]

theorem encloses_inline (agent inputExpr : String) :
    Encloses (inlineHead.toList ++ ((agentLit agent).toList ++ ", (".toList)) inlineTail.toList
      inputExpr.toList (code inlineHead ++ .str .plain agent.toList :: code ", (")
      (code inlineTail) where
  reads_head := reads_inline agent
  reads_tail := by
    intro s us hs hcomment
    obtain ⟨cs, hcs, hclose⟩ := closes_inlineTail
    exact Reads.afterCode hs (continues_paren hs hcomment) hcs hclose
  comment := by
    obtain ⟨cs, hcs, hlost⟩ := inlineTail_lost
    rw [code, toList_eq hcs]
    exact fun h => hlost (congrArg (·.bind List.head?) h)

theorem encloses_queue (agent inputExpr targetTable : String) :
    Encloses (queueHead.toList ++ ((agentLit agent).toList ++ ",\n    (".toList))
      (")::text,\n    ".toList ++ ("'trigger:".toList ++ ((tableLit targetTable).toList ++
        ("'".toList ++ "\n  );\n  RETURN NEW;\nEND;".toList))))
      inputExpr.toList (code queueHead ++ .str .plain agent.toList :: code ", (")
      (code ")::text, " ++ .str .plain ("trigger:" ++ targetTable).toList ::
        code "); RETURN NEW; END;") where
  reads_head := reads_queue agent
  reads_tail := by
    intro s us hs hcomment
    have hcode : code ")::text,\n    " = code ")::text, " := by
      rw [code, code, toList_eq (show ")::text,\n    " = String.ofList _ from rfl),
        toList_eq (show ")::text, " = String.ofList _ from rfl)]
      decide
    have hcast : Reads s ")::text,\n    ".toList (us ++ code ")::text,\n    ") .blank :=
      Reads.afterCode hs (continues_paren hs hcomment) rfl rfl
    rw [hcode] at hcast
    have hread := hcast.append (reads_label targetTable)
    rwa [List.append_assoc] at hread
  comment := by
    intro h
    have hcast : Reads .lineComment ")::text,\n    ".toList [] .blank := by
      rw [toList_eq (show ")::text,\n    " = String.ofList _ from rfl)]
      rfl
    have hparen : (code ")::text, ").head? = some (.punct [')']) := by
      rw [code, toList_eq (show ")::text, " = String.ofList _ from rfl)]
      decide
    rw [(hcast.append (reads_label targetTable)).finished rfl, Option.some.injEq] at h
    have hhead := congrArg List.head? h
    rw [List.head?_append (l := code ")::text, "), hparen] at hhead
    cases hhead

/-- The body runs the agent with the input expression. -/
theorem lex_body_iff {r : TriggerRequest} (hr : ValidRequest r) :
    lex (body r).toList = some (bodyTokens r) ↔ endsInComment r.inputExpr.toList = false := by
  unfold body bodyTokens
  split
  · have hbody := lex_enclosed (encloses_inline r.agent r.inputExpr) hr.inputExpr
    simpa only [inlineBody_toList, List.append_assoc, List.cons_append] using hbody
  · have hbody := lex_enclosed (encloses_queue r.agent r.inputExpr r.targetTable) hr.inputExpr
    simpa only [queueBody_toList, List.append_assoc, List.cons_append] using hbody

theorem trigTag_eq :
    trigTag = ['$', 't', 'r', 'i', 'g', '_', 'b', 'o', 'd', 'y', '$'] := by
  rw [trigTag, toList_eq (show "trig_body" = String.ofList _ from rfl)]
  rfl

theorem trigTag_toList : "$trig_body$".toList = trigTag := by
  rw [trigTag_eq]
  exact toList_eq rfl

theorem trigTag_ne : trigTag ≠ [] := by
  rw [trigTag_eq]
  exact List.cons_ne_nil _ _

/-- The delimiter is in a text with a character that the delimiter does not have. -/
theorem trigTag_append_iff {q : Char} (hq : q ∉ trigTag) (a b : List Char) :
    trigTag <:+: a ++ q :: b ↔ trigTag <:+: a ∨ trigTag <:+: b := infix_append_cons hq trigTag_ne

/-- A literal in a text, with the delimiter. -/
theorem trigTag_literal_iff (a s b : List Char) :
    trigTag <:+: a ++ '\'' :: (doubled '\'' s ++ '\'' :: b) ↔
      trigTag <:+: a ∨ trigTag <:+: s ∨ trigTag <:+: b := by
  have hq : '\'' ∉ trigTag := by
    rw [trigTag_eq]
    decide
  rw [trigTag_append_iff hq, trigTag_append_iff hq, infix_doubled hq trigTag_ne]

set_option maxRecDepth 8000 in
theorem inlineBody_clear : ¬ trigTag <:+: inlineHead.toList ∧
    ∃ tail, inlineTail.toList = ')' :: tail ∧ ¬ trigTag <:+: tail := by
  rw [trigTag_eq]
  constructor
  · rw [toList_eq (show inlineHead = String.ofList _ from rfl)]
    decide +kernel
  · exact ⟨_, toList_eq rfl, by decide +kernel⟩

/-- **The delimiter is in the body** when it is in the agent, in the input expression or, in queue
mode, in the name of the table. -/
theorem trigTag_body_iff (r : TriggerRequest) : trigTag <:+: (body r).toList ↔
    trigTag <:+: r.agent.toList ∨ trigTag <:+: r.inputExpr.toList ∨
      r.mode ≠ "inline" ∧ trigTag <:+: r.targetTable.toList := by
  -- the tag has no bracket and no colon, so it cannot lie across the edge of a part
  have hopen : '(' ∉ trigTag := by
    rw [trigTag_eq]
    decide
  have hclose : ')' ∉ trigTag := by
    rw [trigTag_eq]
    decide
  have hcolon : ':' ∉ trigTag := by
    rw [trigTag_eq]
    decide
  unfold body
  split
  · next hmode =>
    obtain ⟨hhead, tail, htail, hclear⟩ := inlineBody_clear
    have hcomma : ¬ trigTag <:+: [',', ' '] := by
      rw [trigTag_eq]
      decide
    have hsplit : (inlineBody (agentLit r.agent) r.inputExpr).toList =
        inlineHead.toList ++ '\'' :: (doubled '\'' r.agent.toList ++ '\'' :: ([',', ' '] ++
          '(' :: (r.inputExpr.toList ++ ')' :: tail))) := by
      rw [inlineBody_toList, agentLit_toList, htail]
      simp
    rw [hsplit, trigTag_literal_iff, trigTag_append_iff hopen, trigTag_append_iff hclose]
    simp [hhead, hcomma, hclear, hmode]
  · next hmode =>
    have hhead : ¬ trigTag <:+: queueHead.toList := by
      rw [trigTag_eq, toList_eq (show queueHead = String.ofList _ from rfl)]
      decide +kernel
    have hcomma : ¬ trigTag <:+: ",\n    ".toList := by
      rw [trigTag_eq, toList_eq (show ",\n    " = String.ofList _ from rfl)]
      decide
    have hcast : ¬ trigTag <:+: "::text,\n    ".toList := by
      rw [trigTag_eq, toList_eq (show "::text,\n    " = String.ofList _ from rfl)]
      decide
    have hend : ¬ trigTag <:+: "\n  );\n  RETURN NEW;\nEND;".toList := by
      rw [trigTag_eq, toList_eq (show "\n  );\n  RETURN NEW;\nEND;" = String.ofList _ from rfl)]
      decide
    have hlabel : trigTag <:+: ("trigger:" ++ r.targetTable).toList ↔
        trigTag <:+: r.targetTable.toList := by
      have hsplit : ("trigger:" ++ r.targetTable).toList =
          "trigger".toList ++ ':' :: r.targetTable.toList := by simp
      have htrigger : ¬ trigTag <:+: "trigger".toList := by
        rw [trigTag_eq, toList_eq (show "trigger" = String.ofList _ from rfl)]
        decide
      rw [hsplit, trigTag_append_iff hcolon]
      exact or_iff_right htrigger
    have hsplit : (queueBody (agentLit r.agent) r.inputExpr (tableLit r.targetTable)).toList =
        queueHead.toList ++ '\'' :: (doubled '\'' r.agent.toList ++ '\'' :: (",\n    ".toList ++
          '(' :: (r.inputExpr.toList ++ ')' :: ("::text,\n    ".toList ++
            '\'' :: (doubled '\'' ("trigger:" ++ r.targetTable).toList ++
              '\'' :: "\n  );\n  RETURN NEW;\nEND;".toList))))) := by
      rw [queueBody_toList, agentLit_toList, doubled_label]
      simp
    rw [hsplit, trigTag_literal_iff, trigTag_append_iff hopen, trigTag_append_iff hclose,
      trigTag_literal_iff, hlabel]
    simp only [hhead, hcomma, hcast, hend, hmode, false_or, or_false, ne_eq, not_false_eq_true,
      true_and]

theorem createFnSql_toList (r : TriggerRequest) : (createFnSql r).toList =
    "CREATE OR REPLACE FUNCTION ".toList ++ ((AgentTriggers.fnName r.targetTable).toList ++
      ("() RETURNS trigger LANGUAGE plpgsql SECURITY DEFINER AS ".toList ++
        (trigTag ++ ((body r).toList ++ trigTag)))) := by
  unfold createFnSql
  simp only [String.toList_append, List.append_assoc]
  rw [trigTag_toList]

/-- A body ends in a semicolon. -/
theorem body_ends (r : TriggerRequest) : (body r).toList.getLast? = some ';' := by
  have hlast : ∀ a {b : List Char}, b.getLast? = some ';' → (a ++ b).getLast? = some ';' := by
    intro a b hb
    rw [List.getLast?_append, hb, Option.some_or]
  unfold body
  split
  · rw [inlineBody_toList]
    exact hlast _ (hlast _ (hlast _ (hlast _ inlineTail_ends)))
  · have hend : "\n  );\n  RETURN NEW;\nEND;".toList.getLast? = some ';' := by simp
    rw [queueBody_toList]
    exact hlast _ (hlast _ (hlast _ (hlast _ (hlast _ (hlast _ (hlast _ (hlast _ hend)))))))

/-- The delimiter is in the body or it does not end before the delimiter after the body. -/
theorem body_undelimited {r : TriggerRequest} (h : ¬ trigTag <:+: (body r).toList) :
    ¬ trigTag <:+: (body r).toList ++ trigTag.dropLast := by
  obtain ⟨init, hinit⟩ := List.getLast?_eq_some_iff.mp (body_ends r)
  have hsemicolon : ';' ∉ trigTag := by
    rw [trigTag_eq]
    decide
  rw [hinit] at h ⊢
  rw [List.append_assoc, List.singleton_append, trigTag_append_iff hsemicolon]
  rintro (hocc | hocc)
  · exact h (List.infix_append_of_infix_left hocc)
  · have hlength := hocc.length_le
    rw [List.length_dropLast, trigTag_eq] at hlength
    exact absurd hlength (by decide)

/-- The texts before the body, for a name that is a word. -/
theorem reads_function {r : TriggerRequest}
    (hword : ∀ c ∈ (AgentTriggers.safeName r.targetTable).toList, isWordChar c = true)
    (hlower : ∀ c ∈ (AgentTriggers.safeName r.targetTable).toList, c.toLower = c) :
    Reads .blank ("CREATE OR REPLACE FUNCTION ".toList ++
        ((AgentTriggers.fnName r.targetTable).toList ++
          ("() RETURNS trigger LANGUAGE plpgsql SECURITY DEFINER AS ".toList ++ trigTag)))
      (code "CREATE OR REPLACE FUNCTION " ++ .word (AgentTriggers.fnName r.targetTable).toList ::
        code "() RETURNS trigger LANGUAGE plpgsql SECURITY DEFINER AS ")
      (.dollarStr "trig_body".toList []) := by
  have hcreate : Reads .blank "CREATE OR REPLACE FUNCTION ".toList
      (code "CREATE OR REPLACE FUNCTION ") .blank := reads_code rfl rfl
  have hreturns : Reads (.word (AgentTriggers.fnName r.targetTable).toList)
      "() RETURNS trigger LANGUAGE plpgsql SECURITY DEFINER AS ".toList
      ([.word (AgentTriggers.fnName r.targetTable).toList] ++
        code "() RETURNS trigger LANGUAGE plpgsql SECURITY DEFINER AS ") .blank :=
    Reads.afterCode (finish_fnName hlower) (continues_fnName r.targetTable (by decide)) rfl
      rfl
  have htag : Reads .blank trigTag [] (.dollarStr "trig_body".toList []) := by
    rw [trigTag_eq, toList_eq (show "trig_body" = String.ofList _ from rfl)]
    rfl
  have hread := hcreate.append ((reads_fnName hword).append (hreturns.append htag))
  simpa only [List.append_nil, List.nil_append, List.singleton_append] using hread

theorem lex_function {r : TriggerRequest}
    (hword : ∀ c ∈ (AgentTriggers.safeName r.targetTable).toList, isWordChar c = true)
    (hlower : ∀ c ∈ (AgentTriggers.safeName r.targetTable).toList, c.toLower = c)
    (hbody : ¬ trigTag <:+: (body r).toList) :
    lex (createFnSql r).toList =
      some (functionTokens r (.word (AgentTriggers.fnName r.targetTable).toList)) := by
  have hread := (reads_function hword hlower).append (reads_dollarStr (body_undelimited hbody))
  have hlex := hread.finished rfl
  rw [createFnSql_toList, lex, functionTokens]
  simpa only [trigTag, List.append_assoc, List.append_nil, List.cons_append] using hlex

/-- The name of the function is the first word in its place, so the whole of it is a word. -/
theorem safeName_of_lex {server : SqlServer} {r : TriggerRequest} {name : Lexeme}
    (hname : name.Names server.keyword (AgentTriggers.fnName r.targetTable).toList)
    (hlex : lex (createFnSql r).toList = some (functionTokens r name)) :
    ∀ c ∈ (AgentTriggers.safeName r.targetTable).toList, isWordChar c = true ∧ c.toLower = c := by
  have hcreate : Reads .blank "CREATE OR REPLACE FUNCTION ".toList
      (code "CREATE OR REPLACE FUNCTION ") .blank := reads_code rfl rfl
  have hbegin : Reads .blank "synapse_trig_".toList [] (.word "synapse_trig_".toList) := by
    rw [toList_eq (show "synapse_trig_" = String.ofList _ from rfl)]
    rfl
  have hrest := hcreate.append hbegin
  rw [createFnSql_toList, lex, fnName_toList, List.append_assoc, ← List.append_assoc,
    hrest.lexFrom, functionTokens, List.append_nil] at hlex
  obtain ⟨ts, hts, htokens⟩ := Option.map_eq_some_iff.mp hlex
  rw [List.append_cancel_left_eq] at htokens
  have hreturns : "() RETURNS trigger LANGUAGE plpgsql SECURITY DEFINER AS ".toList =
      '(' :: ") RETURNS trigger LANGUAGE plpgsql SECURITY DEFINER AS ".toList := by simp
  rw [hreturns] at hts
  obtain ⟨us, hus⟩ := firstWord_of_lexFrom (by simp) (by decide) hts
  obtain ⟨rfl, -⟩ := List.cons.inj (htokens.symm.trans hus)
  obtain hquoted | ⟨hwhole, -⟩ := hname
  · cases hquoted
  · rw [Lexeme.word.injEq, fnName_toList] at hwhole
    have hlength := congrArg List.length hwhole
    rw [foldCase, List.length_map, List.length_append, List.length_append] at hlength
    have htakes : (AgentTriggers.safeName r.targetTable).toList.takeWhile isWordChar =
        (AgentTriggers.safeName r.targetTable).toList :=
      (List.takeWhile_prefix isWordChar).eq_of_length (by omega)
    rw [htakes, foldCase] at hwhole
    have hlower : ∀ c ∈ "synapse_trig_".toList ++ (AgentTriggers.safeName r.targetTable).toList,
        c.toLower = id c := by
      rw [← List.map_inj_left, hwhole, List.map_id]
    intro c hc
    refine ⟨?_, hlower c (List.mem_append_right _ hc)⟩
    rw [← htakes] at hc
    exact List.all_eq_true.mp List.all_takeWhile c hc

/-- **The function is created** with its name and its body. -/
theorem function_iff (server : SqlServer) (r : TriggerRequest) :
    (∃ name : Lexeme, name.Names server.keyword (AgentTriggers.fnName r.targetTable).toList ∧
      lex (createFnSql r).toList = some (functionTokens r name)) ↔
    (∀ c ∈ (AgentTriggers.safeName r.targetTable).toList, isWordChar c = true ∧ c.toLower = c) ∧
      ¬ trigTag <:+: (body r).toList := by
  constructor
  · rintro ⟨name, hname, hlex⟩
    have hsafe := safeName_of_lex hname hlex
    refine ⟨hsafe, ?_⟩
    have hread := reads_function (fun c hc => (hsafe c hc).1) fun c hc => (hsafe c hc).2
    have hsplit : (createFnSql r).toList = "CREATE OR REPLACE FUNCTION ".toList ++
        ((AgentTriggers.fnName r.targetTable).toList ++
          ("() RETURNS trigger LANGUAGE plpgsql SECURITY DEFINER AS ".toList ++ trigTag)) ++
        ((body r).toList ++ trigTag) := by
      rw [createFnSql_toList]
      simp only [List.append_assoc]
    rw [hsplit, lex, hread.lexFrom, functionTokens] at hlex
    obtain ⟨ts, hts, htokens⟩ := Option.map_eq_some_iff.mp hlex
    have hstart : ¬ delimiter "trig_body".toList <:+: [] := fun h =>
      trigTag_ne (List.infix_nil.mp h)
    obtain ⟨x, us, rfl, hx⟩ := dollarStr_of_lexFrom hstart hts
    rw [List.append_assoc, List.append_cancel_left_eq, List.cons_append] at htokens
    obtain ⟨-, htokens⟩ := List.cons.inj htokens
    rw [List.append_cancel_left_eq] at htokens
    obtain ⟨hbody, -⟩ := List.cons.inj htokens
    cases hbody
    exact hx
  · rintro ⟨hsafe, hbody⟩
    exact ⟨_, names_fnName server r.targetTable,
      lex_function (fun c hc => (hsafe c hc).1) (fun c hc => (hsafe c hc).2) hbody⟩

end TriggerSql

end PgSynapse
