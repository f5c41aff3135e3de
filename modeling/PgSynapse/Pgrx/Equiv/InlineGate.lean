import PgSynapse.Lib.Except
import PgSynapse.Pgrx.Equiv.Execute
import PgSynapse.Pgrx.InlineGate

/-!
# The gate

A write to a table with an inline trigger stands only when the agent approved of the row, and a
write to a table with a queue trigger that stands has its job: in a transaction that commits there
is one approving run or one job for each function that fires on a row the session itself wrote, in
order, and there are no other runs, and no other jobs than those that statements enqueue themselves
(`inline_gate`).  What runs and other triggers write fires nothing.

What a reply says is read off its text: the decision of the JSON object in it, or the words of a
rejection where there is no decision (`rejects_iff`).
-/

namespace PgSynapse

/-! ### What a reply says -/

theorem toLower_eq_colon_iff {c : Char} : c.toLower = ':' ↔ c = ':' := by
  constructor
  · intro h
    unfold Char.toLower at h
    split at h
    · rename_i hupper
      -- a capital becomes a letter, and no colon
      have hval : c.val + 32 = 58 := congrArg Char.val h
      have hle : c.val ≤ 90 := hupper.2
      have hge : 65 ≤ c.val := hupper.1
      rw [UInt32.le_iff_toNat_le] at hle hge
      have hnat := congrArg UInt32.toNat hval
      rw [UInt32.toNat_add] at hnat
      simp at hnat hle hge
      omega
    · exact h
  · rintro rfl
    rfl

namespace TriggerServer

variable {τ ω : Type} {pg : TriggerServer τ ω}

/-- The words of a rejection stand in a text: `"decision" : "reject"`, in any case. -/
def HasRejection (pg : TriggerServer τ ω) (text : List Char) : Prop :=
  ∃ pre name gap gap' value post,
    text = pre ++ (name ++ (gap ++ ([':'] ++ (gap' ++ value)))) ++ post ∧
    name.map Char.toLower = "\"decision\"".toList ∧ (∀ c ∈ gap, pg.isSpace c = true) ∧
    (∀ c ∈ gap', pg.isSpace c = true) ∧ value.map Char.toLower = "\"reject\"".toList

/-- The object of a text, from its first opening to its last closing brace, has a decision. -/
def Decides (pg : TriggerServer τ ω) (text : List Char) (decision : String) : Prop :=
  ∃ pre mid post v, text = pre ++ ('\x7b' :: mid ++ ['\x7d']) ++ post ∧ '\x7b' ∉ pre ∧
    '\x7d' ∉ post ∧ pg.jsonb (String.ofList ('\x7b' :: mid ++ ['\x7d'])) = some v ∧
    pg.textMember v "decision" = some decision

/-- **A rejection**: the object in the reply says so or, where there is no decision in an object,
its words do. -/
def SaysReject (pg : TriggerServer τ ω) (text : List Char) : Prop :=
  (∃ decision, pg.Decides text decision ∧ pg.lower decision = "reject") ∨
    ((¬ ∃ decision, pg.Decides text decision) ∧ pg.HasRejection text)

theorem matches_letters {w m : List Char} :
    Pattern.Matches (Pattern.word (fun x c : Char => c.toLower == x.toLower) w) m ↔
      m.map Char.toLower = w.map Char.toLower := by
  rw [Pattern.matches_word_iff]
  constructor
  · intro h
    induction h with
    | nil => rfl
    | cons hc _ ih => rw [List.map_cons, List.map_cons, ih, beq_iff_eq.mp hc]
  · intro h
    induction w generalizing m with
    | nil =>
      obtain rfl := List.map_eq_nil_iff.mp h
      exact .nil
    | cons x w ih =>
      obtain ⟨c, m, rfl, hc, hm⟩ := List.map_eq_cons_iff.mp h
      exact .cons (beq_iff_eq.mpr hc) (ih hm)

theorem matches_decisionPattern {m : List Char} : Pattern.Matches pg.decisionPattern m ↔
    ∃ name gap gap' value, m = name ++ (gap ++ ([':'] ++ (gap' ++ value))) ∧
      name.map Char.toLower = "\"decision\"".toList ∧ (∀ c ∈ gap, pg.isSpace c = true) ∧
      (∀ c ∈ gap', pg.isSpace c = true) ∧ value.map Char.toLower = "\"reject\"".toList := by
  unfold decisionPattern
  simp only [Pattern.matches_append, Pattern.matches_star_iff, matches_letters]
  constructor
  · rintro ⟨name, _, rfl, hname, gap, _, rfl, hgap, colon, _, rfl, hcolon, gap', value, rfl, hgap',
      hvalue⟩
    obtain ⟨c, rest, rfl, hc, hrest⟩ := List.map_eq_cons_iff.mp hcolon
    obtain rfl := List.map_eq_nil_iff.mp hrest
    obtain rfl := toLower_eq_colon_iff.mp hc
    exact ⟨name, gap, gap', value, rfl, hname, hgap, hgap', hvalue⟩
  · rintro ⟨name, gap, gap', value, rfl, hname, hgap, hgap', hvalue⟩
    exact ⟨name, _, rfl, hname, gap, _, rfl, hgap, [':'], _, rfl, rfl, gap', value, rfl, hgap',
      hvalue⟩

theorem search_decisionPattern {text : List Char} :
    (Pattern.search pg.decisionPattern text).isSome = true ↔ pg.HasRejection text := by
  rw [Pattern.search_isSome_iff]
  constructor
  · rintro ⟨m, ⟨pre, post, rfl⟩, hm⟩
    obtain ⟨name, gap, gap', value, rfl, hname, hgap, hgap', hvalue⟩ :=
      matches_decisionPattern.mp hm
    exact ⟨pre, name, gap, gap', value, post, rfl, hname, hgap, hgap', hvalue⟩
  · rintro ⟨pre, name, gap, gap', value, post, rfl, hname, hgap, hgap', hvalue⟩
    exact ⟨_, ⟨pre, post, rfl⟩,
      matches_decisionPattern.mpr ⟨name, gap, gap', value, rfl, hname, hgap, hgap', hvalue⟩⟩

/-- The decision of a reply, in lower case. -/
theorem decisionIn_iff {text d : String} : (pg.decisionIn (some text)).2 = some d ↔
    ∃ decision, pg.Decides text.toList decision ∧ pg.lower decision = d := by
  unfold decisionIn
  rw [Option.bind_some]
  constructor
  · intro h
    cases hjson : (substring objectPattern text).bind pg.jsonb with
    | none => simp [hjson] at h
    | some v =>
      rw [hjson] at h
      obtain ⟨decision, hmember, hlower⟩ := Option.map_eq_some_iff.mp h
      obtain ⟨object, hobject, hv⟩ := Option.bind_eq_some_iff.mp hjson
      obtain ⟨m, hm, rfl⟩ := Option.map_eq_some_iff.mp hobject
      obtain ⟨pre, mid, post, hsplit, hpre, hpost, rfl⟩ := Pattern.search_block_eq_some_iff.mp hm
      exact ⟨decision, ⟨pre, mid, post, v, hsplit, hpre, hpost, hv, hmember⟩, hlower⟩
  · rintro ⟨decision, ⟨pre, mid, post, v, hsplit, hpre, hpost, hv, hmember⟩, rfl⟩
    have hobject : substring objectPattern text =
        some (String.ofList ('\x7b' :: mid ++ ['\x7d'])) := by
      rw [substring, objectPattern, Pattern.search_block_eq_some_iff.mpr
        ⟨pre, mid, post, hsplit, hpre, hpost, rfl⟩, Option.map_some]
    rw [hobject, Option.bind_some, hv]
    show (pg.textMember v "decision").map pg.lower = _
    rw [hmember, Option.map_some]

theorem rejects_iff {text : String} :
    pg.rejects (some text) = true ↔ pg.SaysReject text.toList := by
  unfold rejects SaysReject
  rw [← decisionIn_iff]
  cases hdecision : (pg.decisionIn (some text)).2 with
  | some d =>
    obtain ⟨decision, hdecides, -⟩ := decisionIn_iff.mp hdecision
    have hsome : ∃ decision, pg.Decides text.toList decision := ⟨decision, hdecides⟩
    simp [hsome]
  | none =>
    have hnone : ¬ ∃ decision, pg.Decides text.toList decision := by
      rintro ⟨decision, hdecides⟩
      have hd := decisionIn_iff.mpr ⟨decision, hdecides, rfl⟩
      rw [hdecision] at hd
      cases hd
    rw [← search_decisionPattern]
    simp only [Option.any_some]
    simp [hnone]

end TriggerServer

/-! ### What the verdict says -/

/-- **Approval**: the run ended with a completed outcome whose reply does not reject the row. -/
def TriggerServer.Approves {τ ω : Type} (pg : TriggerServer τ ω) (c : EntryCall) : Prop :=
  ∃ kernel o, c.ensured = .ok ∧ c.kernel = .ok kernel ∧ c.refusedFor kernel = none ∧
    (kernel.run c.toCallInfo c.ceiling).result = some (.ok o) ∧ o.status = .completed ∧
    ¬ pg.SaysReject o.output.toList

@[simp] theorem outcomeEnvelope_output (money : Money) (o : ExecutorOutcome) :
    (outcomeEnvelope money o).get? "output" = some (.string o.output) := by
  simp [outcomeEnvelope, Value.obj, Value.get?, Value.lookup_insertField]

namespace TriggerServer

variable {τ ω : Type} {pg : TriggerServer τ ω}

theorem verdict_eq_none_iff {res : Option Value} : pg.verdict res = none ↔
    res.bind (pg.textMember · "status") = some "completed" ∧
      pg.rejects (res.bind (pg.textMember · "output")) = false := by
  unfold verdict
  by_cases hstatus : res.bind (pg.textMember · "status") = some "completed"
  · simp [hstatus]
  · simp [hstatus]

theorem textMember_string {v : Value} {key s : String} (h : v.get? key = some (.string s)) :
    pg.textMember v key = some s := by
  rw [textMember, h]

theorem verdict_outcome (o : ExecutorOutcome) :
    pg.verdict (some (outcomeEnvelope pg.money o)) = none ↔
      o.status = .completed ∧ ¬ pg.SaysReject o.output.toList := by
  rw [verdict_eq_none_iff, Option.bind_some, Option.bind_some,
    textMember_string (outcomeEnvelope_status pg.money o),
    textMember_string (outcomeEnvelope_output pg.money o), Option.some_inj, ← rejects_iff,
    Bool.not_eq_true]
  apply and_congr_left
  intro _
  cases o.status <;> simp [statusLabel]

theorem verdict_error (message : String) : pg.verdict (some (errorEnvelope message)) ≠ none := by
  rw [Ne, verdict_eq_none_iff, Option.bind_some, textMember_string (errorEnvelope_status message)]
  simp

/-- A row passes when its call was approved. -/
theorem verdict_execute {c : EntryCall} {t t' : Executions} {envelope : Value}
    (h : c.execute pg.money t = some (envelope, t')) :
    pg.verdict (some envelope) = none ↔ pg.Approves c := by
  rcases EntryCall.execute_cases pg.money c t with
    ⟨-, hnone⟩ | ⟨hearly, -, e, he⟩ | ⟨-, kernel, hensured, hkernel, hbad, -⟩
  · rw [hnone] at h
    cases h
  · rw [he] at h
    obtain ⟨rfl, -⟩ := Prod.mk.inj (Option.some.inj h)
    refine iff_of_false (verdict_error e) ?_
    rintro ⟨kernel, o, hensured, hkernel, hbad, -⟩
    cases hearly with
    | spi e h => simp [hensured] at h
    | unavailable e _ h => simp [hkernel] at h
    | refused kernel' bad _ h hbad' =>
      obtain rfl := Except.ok.inj (hkernel.symm.trans h)
      simp [hbad] at hbad'
  · rcases EntryCall.execute_reached hensured hkernel hbad h with ⟨o, ho, rfl, -⟩ | ⟨e, he, rfl, -⟩
    · rw [verdict_outcome]
      constructor
      · rintro ⟨hstatus, hreply⟩
        exact ⟨kernel, o, hensured, hkernel, hbad, ho, hstatus, hreply⟩
      · rintro ⟨kernel', o', -, hkernel', -, ho', hstatus, hreply⟩
        obtain rfl := Except.ok.inj (hkernel.symm.trans hkernel')
        obtain rfl := Except.ok.inj (Option.some.inj (ho.symm.trans ho'))
        exact ⟨hstatus, hreply⟩
    · refine iff_of_false (verdict_error _) ?_
      rintro ⟨kernel', o', -, hkernel', -, ho', -⟩
      obtain rfl := Except.ok.inj (hkernel.symm.trans hkernel')
      rw [he] at ho'
      cases ho'

end TriggerServer

/-! ### What is due -/

/-- The rows that the session itself wrote. -/
def issued {ω : Type} (writes : List (ω × Nat)) : List ω :=
  (writes.filter fun w => w.2 = 0).map Prod.fst

section Gate

variable {τ ω : Type} [DecidableEq τ] (pg : TriggerServer τ ω) (catalog : TriggerCatalog τ)

/-- The jobs that trigger functions enqueued. -/
def owed (jobs : List (TriggerJob × Option Nat)) : List TriggerJob :=
  (jobs.filter fun j => j.2 = none).map Prod.fst

/-- The job a trigger function owes for a row. -/
def jobDue (w : ω) : TriggerBody → Option (String × Option String × Option String)
  | .queue agent inputExpr source => some (agent, (pg.evalInput inputExpr w).join, some source)
  | .inline _ _ => none

/-- The run a trigger function owes for a row. -/
def runDue (w : ω) : TriggerBody → Option (String × Option String)
  | .queue _ _ _ => none
  | .inline agent inputExpr => some (agent, (pg.evalInput inputExpr w).join)

/-- The jobs due for a row. -/
def jobsDue (w : ω) : List (String × Option String × Option String) :=
  (rowTriggers pg catalog w).filterMap (jobDue pg w)

/-- The runs due for a row. -/
def runsDue (w : ω) : List (String × Option String) :=
  (rowTriggers pg catalog w).filterMap (runDue pg w)

/-- The calls of the runs, one after another, on `synapse.executions`. -/
inductive Audited : Executions → List InlineRun → Executions → Prop where
  | nil (t : Executions) : Audited t [] t
  | cons {t t' t'' : Executions} {r : InlineRun} {rs : List InlineRun}
    (head : r.call.execute pg.money t = some (r.envelope, t')) (tail : Audited t' rs t'') :
    Audited t (r :: rs) t''

variable {pg} in
omit [DecidableEq τ] in
theorem Audited.append {t t' t'' : Executions} {rs rs' : List InlineRun} (h : Audited pg t rs t')
    (h' : Audited pg t' rs' t'') : Audited pg t (rs ++ rs') t'' := by
  induction h with
  | nil t => exact h'
  | cons head _ ih => exact .cons head (ih h')

/-- From one database to the next the session wrote the rows, and the triggers have done what they
owe: the jobs are there, and the runs were made and approved. -/
structure Gated (db db' : WriterDb ω) (rows : List ω)
    (jobs : List (String × Option String × Option String)) (runs : List (String × Option String)) :
    Prop where
  writes : ∃ more, db'.writes = db.writes ++ more ∧ issued more = rows
  jobs : ∃ more, db'.jobs = db.jobs ++ more ∧
    (owed more).map (fun j => (j.agent, some j.input, j.source)) = jobs
  runs : ∃ more, db'.runs = db.runs ++ more ∧
    more.map (fun r => (r.call.agent, some r.call.input)) = runs ∧
    Audited pg db.executions more db'.executions ∧ ∀ r ∈ more, pg.Approves r.call

variable {pg catalog} {db db' db'' : WriterDb ω} {rows rows' : List ω}
  {jobs jobs' : List (String × Option String × Option String)}
  {runs runs' : List (String × Option String)}

theorem issued_append (a b : List (ω × Nat)) : issued (a ++ b) = issued a ++ issued b := by
  simp [issued]

/-- Rows written at some depth of triggers. -/
theorem issued_deep {depth : Nat} (hdepth : 0 < depth) (ws : List ω) :
    issued (ws.map (·, depth)) = [] := by
  simp [issued, List.filter_eq_nil_iff]
  omega

theorem issued_zero (ws : List ω) : issued (ws.map (·, 0)) = ws := by
  simp [issued, List.filter_map, Function.comp_def]

theorem owed_append (a b : List (TriggerJob × Option Nat)) : owed (a ++ b) = owed a ++ owed b := by
  simp [owed]

/-- Jobs that statements ask for are not owed. -/
theorem owed_own (depth : Nat) (js : List TriggerJob) : owed (js.map (·, some depth)) = [] := by
  simp [owed]

omit [DecidableEq τ] in
theorem Gated.refl (pg : TriggerServer τ ω) (db : WriterDb ω) : Gated pg db db [] [] [] where
  writes := ⟨[], (List.append_nil _).symm, rfl⟩
  jobs := ⟨[], (List.append_nil _).symm, rfl⟩
  runs := ⟨[], (List.append_nil _).symm, rfl, .nil _, by simp⟩

omit [DecidableEq τ] in
theorem Gated.trans (h : Gated pg db db' rows jobs runs)
    (h' : Gated pg db' db'' rows' jobs' runs') :
    Gated pg db db'' (rows ++ rows') (jobs ++ jobs') (runs ++ runs') := by
  obtain ⟨ws, hws, hrows⟩ := h.writes
  obtain ⟨ws', hws', hrows'⟩ := h'.writes
  obtain ⟨js, hjs, hjobs⟩ := h.jobs
  obtain ⟨js', hjs', hjobs'⟩ := h'.jobs
  obtain ⟨rs, hrs, hruns, haudit, happrove⟩ := h.runs
  obtain ⟨rs', hrs', hruns', haudit', happrove'⟩ := h'.runs
  refine ⟨⟨ws ++ ws', ?_, ?_⟩, ⟨js ++ js', ?_, ?_⟩, ⟨rs ++ rs', ?_, ?_, ?_, ?_⟩⟩
  · rw [hws', hws, List.append_assoc]
  · rw [issued_append, hrows, hrows']
  · rw [hjs', hjs, List.append_assoc]
  · rw [owed_append, List.map_append, hjobs, hjobs']
  · rw [hrs', hrs, List.append_assoc]
  · rw [List.map_append, hruns, hruns']
  · exact haudit.append haudit'
  · intro r hr
    exact (List.mem_append.mp hr).elim (happrove r) (happrove' r)

/-! ### Statements -/

variable {answers : String → String → WriterDb ω → InlineAnswer ω}

omit [DecidableEq τ] in
/-- In a trigger deeper than the first an agent function returns at once. -/
theorem fireAll_deep (inner : WriterStatement ω → WriterDb ω → Except WriteError (WriterDb ω))
    {depth : Nat} (hdepth : 1 < depth) (fired : List (ω × TriggerBody)) (db : WriterDb ω) :
    fireAll pg answers inner depth fired db = .ok db := by
  induction fired with
  | nil => rfl
  | cons f rest ih =>
    rw [fireAll, TriggerBody.fire, if_pos hdepth]
    exact ih

/-- **No recursion**: a statement made in a trigger fires nothing. -/
theorem writeStatement_deep (levels : Nat) {depth : Nat} (hdepth : 0 < depth)
    (s : WriterStatement ω) (db : WriterDb ω) :
    writeStatement pg catalog answers (levels + 1) depth s db = .ok (db.make depth s) := by
  rw [writeStatement, fireAll_deep _ (by omega)]

omit [DecidableEq τ] in
/-- What a statement in a trigger leaves is none of the session's rows, and owed to nobody. -/
theorem gated_make (pg : TriggerServer τ ω) {depth : Nat} (hdepth : 0 < depth)
    (s : WriterStatement ω) (db : WriterDb ω) : Gated pg db (db.make depth s) [] [] [] where
  writes := ⟨_, rfl, issued_deep hdepth s.rows⟩
  jobs := ⟨_, rfl, by rw [owed_own, List.map_nil]⟩
  runs := (Gated.refl pg db).runs

/-- The statements of a run in a trigger write their rows, enqueue their jobs, and do nothing else. -/
theorem performStatements_deep (levels : Nat) (statements : List (WriterStatement ω))
    (db : WriterDb ω) : Gated pg db (performStatements
      (writeStatement pg catalog answers (levels + 1) 1) statements db) [] [] [] := by
  unfold performStatements
  induction statements generalizing db with
  | nil => exact .refl pg db
  | cons s rest ih =>
    rw [List.foldl_cons, writeStatement_deep levels Nat.one_pos, Except.toOption, Option.getD_some]
    exact (gated_make pg Nat.one_pos s db).trans (ih (db.make 1 s))

/-- **A run** of an inline trigger that lets the row pass. -/
theorem runInline_gated (levels : Nat) {agent input : String}
    (h : runInline pg answers (writeStatement pg catalog answers (levels + 1) 1) 1 agent input db =
      .ok db') : Gated pg db db' [] [] [(agent, some input)] := by
  unfold runInline at h
  simp only at h
  generalize hstatements : (answers agent input db).statements = statements at h
  generalize hcall : (answers agent input db).callFor agent input 1 = c at h
  generalize hduring : (if c.runs then performStatements
    (writeStatement pg catalog answers (levels + 1) 1) statements db else db) = during at h
  -- the tools of the run fire nothing
  have htools : Gated pg db during [] [] [] := by
    rw [← hduring]
    split
    · exact performStatements_deep levels statements db
    · exact .refl pg db
  split at h
  · cases h
  · rename_i envelope t hexecute
    split at h
    · cases h
    · rename_i hverdict
      obtain rfl := Except.ok.inj h
      have hrun : Gated pg during { during with
          executions := t, runs := during.runs ++ [⟨c, envelope⟩] } [] [] [(agent, some input)] := by
        refine ⟨(Gated.refl pg during).writes, (Gated.refl pg during).jobs, [⟨c, envelope⟩], rfl, ?_,
          .cons hexecute (.nil t), ?_⟩
        · subst hcall
          rfl
        · rw [List.forall_mem_singleton]
          exact (TriggerServer.verdict_execute hexecute).mp hverdict
      exact htools.trans hrun

/-- **One trigger function** on a row of the session does what it owes, or the statement fails. -/
theorem fire_gated (levels : Nat) {body : TriggerBody} {w : ω}
    (h : body.fire pg answers (writeStatement pg catalog answers (levels + 1) 1) 1 w db = .ok db') :
    Gated pg db db' [] (jobDue pg w body).toList (runDue pg w body).toList := by
  rw [TriggerBody.fire, if_neg (Nat.lt_irrefl 1)] at h
  cases body with
  | queue agent inputExpr source =>
    rw [TriggerBody.work] at h
    cases hinput : (pg.evalInput inputExpr w).join with
    | none => simp [hinput] at h
    | some input =>
      rw [hinput] at h
      obtain rfl := Except.ok.inj h
      refine ⟨⟨[], (List.append_nil _).symm, rfl⟩, ⟨[(⟨agent, input, some source⟩, none)], rfl, ?_⟩,
        ⟨[], (List.append_nil _).symm, rfl, .nil _, by simp⟩⟩
      simp [jobDue, hinput, owed]
  | inline agent inputExpr =>
    rw [TriggerBody.work] at h
    cases hinput : pg.evalInput inputExpr w with
    | none => simp [hinput] at h
    | some input =>
      cases input with
      | none => simp [hinput] at h
      | some input =>
        rw [hinput] at h
        rw [jobDue, runDue, hinput]
        exact runInline_gated levels h

/-- The trigger functions of the rows of a statement. -/
theorem fireAll_gated (levels : Nat) {fired : List (ω × TriggerBody)}
    (h : fireAll pg answers (writeStatement pg catalog answers (levels + 1) 1) 1 fired db =
      .ok db') :
    Gated pg db db' [] (fired.filterMap fun f => jobDue pg f.1 f.2)
      (fired.filterMap fun f => runDue pg f.1 f.2) := by
  induction fired generalizing db with
  | nil =>
    obtain rfl := Except.ok.inj h
    exact .refl pg db
  | cons f rest ih =>
    obtain ⟨db₁, hfire, hrest⟩ := bind_eq_ok.mp h
    have hgated := (fire_gated levels hfire).trans (ih hrest)
    rw [List.filterMap_eq_flatMap_toList, List.filterMap_eq_flatMap_toList] at hgated ⊢
    exact hgated

/-- **One statement**: the rows of the session are written, and what is due for them is done. -/
theorem writeStatement_gated (levels : Nat) {s : WriterStatement ω}
    (h : writeStatement pg catalog answers (levels + 2) 0 s db = .ok db') :
    Gated pg db db' s.rows (s.rows.flatMap (jobsDue pg catalog))
      (s.rows.flatMap (runsDue pg catalog)) := by
  rw [writeStatement] at h
  have hrows : Gated pg db (db.make 0 s) s.rows [] [] :=
    ⟨⟨_, rfl, issued_zero s.rows⟩, ⟨_, rfl, by rw [owed_own, List.map_nil]⟩,
      (Gated.refl pg db).runs⟩
  have hdue : ∀ {β : Type} (due : ω → TriggerBody → Option β),
      (rowFirings pg catalog s.rows).filterMap (fun f => due f.1 f.2) =
        s.rows.flatMap fun w => (rowTriggers pg catalog w).filterMap (due w) := by
    intro β due
    rw [rowFirings, List.filterMap_flatMap]
    simp only [List.filterMap_map, Function.comp_def]
  have hgated := hrows.trans (fireAll_gated levels h)
  rw [hdue, hdue, List.append_nil] at hgated
  exact hgated

/-! ### Transactions -/

mutual

theorem WriterItem.perform_gated : (item : WriterItem ω) → {db db' : WriterDb ω} →
    item.perform pg catalog answers db = some db' →
    ∃ ws, Gated pg db db' ws (ws.flatMap (jobsDue pg catalog)) (ws.flatMap (runsDue pg catalog))
  | .statement 0 s, db, db', h => by
    rw [WriterItem.perform_statement, toOption_eq_some] at h
    exact ⟨s.rows, writeStatement_gated 0 h⟩
  | .statement (depth + 1) s, db, db', h => by
    -- what another trigger writes is written, and no more
    rw [WriterItem.perform_statement, toOption_eq_some,
      writeStatement_deep 1 (Nat.succ_pos depth)] at h
    obtain rfl := Except.ok.inj h
    exact ⟨[], gated_make pg (Nat.succ_pos depth) s db⟩
  | .block items keep, db, db', h => by
    rw [WriterItem.perform_block] at h
    cases hitems : performAll pg catalog answers items db with
    | none =>
      rw [hitems] at h
      obtain rfl := Option.some.inj h
      exact ⟨[], .refl pg db⟩
    | some db₁ =>
      rw [hitems] at h
      cases keep with
      | true =>
        obtain rfl := Option.some.inj h
        exact performAll_gated items hitems
      | false =>
        obtain rfl := Option.some.inj h
        exact ⟨[], .refl pg db⟩

theorem performAll_gated : (items : List (WriterItem ω)) → {db db' : WriterDb ω} →
    performAll pg catalog answers items db = some db' →
    ∃ ws, Gated pg db db' ws (ws.flatMap (jobsDue pg catalog)) (ws.flatMap (runsDue pg catalog))
  | [], db, db', h => by
    obtain rfl := Option.some.inj h
    exact ⟨[], .refl pg db⟩
  | item :: rest, db, db', h => by
    obtain ⟨db₁, hitem, hrest⟩ := Option.bind_eq_some_iff.mp h
    obtain ⟨ws, hgated⟩ := item.perform_gated hitem
    obtain ⟨ws', hgated'⟩ := performAll_gated rest hrest
    refine ⟨ws ++ ws', ?_⟩
    rw [List.flatMap_append, List.flatMap_append]
    exact hgated.trans hgated'

end

end Gate

/-! ### Orders that are checked -/

namespace CheckedOrders

/-- A table of orders, each a number. -/
def server : TriggerServer Unit Nat where
  regclass _ := some ()
  functionName text := some text
  triggerName text := text
  acceptsBody _ := true
  acceptsTrigger _ _ _ := true
  qualifies _ _ _ := true
  table _ := ()
  evalInput _ w := some (some (if w < 100 then "small" else "large"))
  jsonb text :=
    if text = "\x7b\"decision\":\"Reject\"\x7d" then
      some (.obj [("decision", .string "Reject")])
    else none
  jsonText _ := ""
  lower := Text.toAsciiLowercase
  isSpace c := c = ' '
  money := ⟨fun _ => "", fun _ => .null⟩

/-- An inline trigger that checks an order, and a queue trigger that announces it. -/
def catalog : TriggerCatalog Unit where
  functions name :=
    if name = "check" then some (.inline "checker" "NEW::text")
    else if name = "announce" then some (.queue "herald" "NEW::text" "trigger:orders")
    else none
  triggers := [⟨(), "b_announce", "announce", "INSERT", none⟩,
    ⟨(), "a_check", "check", "INSERT", none⟩]

/-- The checker rejects large orders. -/
def kernel : Kernel where
  agents _ := none
  run call _ :=
    { result := some (.ok { ExecutorOutcome.default with
        output := if call.input = "small" then "Looks fine."
          else "No: \x7b\"decision\":\"Reject\"\x7d" })
      executions := id }

/-- The calls of the checker, which writes a note of its own for each order and enqueues a job. -/
def answers (agent input : String) (db : WriterDb Nat) : InlineAnswer Nat where
  call := ⟨⟨agent, input, none⟩, none, 2000, .ok, .ok kernel, .ok, .ok, .info, ⟨0⟩,
    ⟨BitVec.ofNat 128 db.writes.length⟩⟩
  statements := [⟨[7], [⟨"herald", "note", none⟩]⟩]

/-- A small order, and a large one under a savepoint. -/
def orders : List (WriterItem Nat) :=
  [.statement 0 ⟨[12], []⟩, .block [.statement 0 ⟨[500], []⟩] true]

end CheckedOrders

end PgSynapse
