import PgSynapse.Pgrx.Equiv.SpiExecutor
import PgSynapse.Pgrx.Equiv.UuidIn
import PgSynapse.Pgrx.Provenance

/-!
# When row provenance is attributed to agent writes only

What a transaction does to the tracked tables and to the setting is what its standing effects do, one
after the other (`performItems_eq`).  A SQL tool call publishes its run's id first, whatever came
before; the setting outlives a savepoint that is released, and SQL may change it, so the trigger of a
write records it for the wrong run, or for none, just if it finds the wrong setting
(`attributed_iff`).
-/

namespace PgSynapse

theorem Uuid.text_isEmpty (u : Uuid) : u.text.isEmpty = false := by
  simp [Uuid.text, String.isEmpty_eq_false_iff]

/-! ### Effects in a row -/

theorem exists_ok_or_error {ε α : Type} (r : Except ε α) :
    (∃ a, r = .ok a) ∨ ∃ e, r = .error e := by
  cases r with
  | ok a => exact .inl ⟨a, rfl⟩
  | error e => exact .inr ⟨e, rfl⟩

/-- The setting after some effects. -/
def settingAfter (setting : Option String) (effects : List (Option Uuid × SqlEffect)) :
    Option String :=
  effects.foldl (fun setting e => e.2.leaves setting) setting

theorem trail_append (setting : Option String) (es es' : List (Option Uuid × SqlEffect)) :
    trail setting (es ++ es') = trail setting es ++ trail (settingAfter setting es) es' := by
  induction es generalizing setting with
  | nil => rfl
  | cons e es ih =>
    rw [List.cons_append, trail, ih]
    rfl

/-- One effect, by the setting it finds. -/
theorem toOption_applyEffect (s : Session Tracked) (author : Option Uuid) (e : SqlEffect) :
    (applyEffect s (author, e)).toOption =
      if (Found.mk s.executionId author e).raises then none
      else some ⟨⟨s.db.log ++ ((Found.mk s.executionId author e).logged).toList⟩,
        e.leaves s.executionId⟩ := by
  cases e with
  | write w =>
    unfold applyEffect Found.raises Found.logged
    rcases exists_ok_or_error (recordProvenance s.executionId w) with ⟨recorded, hrec⟩ | ⟨e, hrec⟩
    · simp [hrec, Except.map, Except.toOption, Except.isOk, Except.toBool, Session.add,
        SqlEffect.leaves]
    · simp [hrec, Except.map, Except.toOption, Except.isOk, Except.toBool]
  | setting value => simp [applyEffect, Found.raises, Found.logged, SqlEffect.leaves, Except.toOption]
  | entry p => rfl

/-- **Effects in a row**: they fail when the trigger of a write raises, and otherwise the database has
what each of them adds under the setting it finds. -/
theorem toOption_foldlM (es : List (Option Uuid × SqlEffect)) (s : Session Tracked) :
    (es.foldlM applyEffect s).toOption =
      if (trail s.executionId es).any Found.raises then none
      else some ⟨⟨s.db.log ++ (trail s.executionId es).filterMap Found.logged⟩,
        settingAfter s.executionId es⟩ := by
  induction es generalizing s with
  | nil => simp [trail, settingAfter, pure, Except.pure, Except.toOption]
  | cons e es ih =>
    obtain ⟨author, e⟩ := e
    have hstep := toOption_applyEffect s author e
    rw [List.foldlM_cons, trail, List.any_cons]
    cases happly : applyEffect s (author, e) with
    | error message =>
      rw [happly] at hstep
      split at hstep
      · rename_i hraises
        rw [hraises]
        rfl
      · exact absurd hstep (by simp [Except.toOption])
    | ok s' =>
      rw [happly] at hstep
      split at hstep
      · exact absurd hstep (by simp [Except.toOption])
      rename_i hraises
      obtain rfl : s' = _ := Option.some.inj hstep
      show (List.foldlM applyEffect _ es).toOption = _
      rw [ih, Bool.eq_false_iff.mpr hraises, Bool.false_or]
      split
      · rfl
      · rw [List.filterMap_cons, List.append_assoc]
        cases (Found.mk s.executionId author e).logged <;> rfl

theorem foldlM_append_toOption (es es' : List (Option Uuid × SqlEffect)) (s : Session Tracked) :
    ((es ++ es').foldlM applyEffect s).toOption =
      (es.foldlM applyEffect s).toOption.bind fun s => (es'.foldlM applyEffect s).toOption := by
  rw [List.foldlM_append]
  cases es.foldlM applyEffect s <;> rfl

/-! ### Agent runs -/

/-- From `b` to `b'` the effects happened, and what was opened was closed. -/
structure Plays (es : List (Option Uuid × SqlEffect)) (b b' : Backend (Session Tracked)) : Prop where
  saved : b'.saved = b.saved
  cur : (es.foldlM applyEffect b.cur).toOption = some b'.cur

theorem Plays.refl (b : Backend (Session Tracked)) : Plays [] b b := ⟨rfl, rfl⟩

theorem Plays.trans {es es' : List (Option Uuid × SqlEffect)} {b b₁ b₂ : Backend (Session Tracked)}
    (p : Plays es b b₁) (p' : Plays es' b₁ b₂) : Plays (es ++ es') b b₂ :=
  ⟨p'.saved.trans p.saved, by rw [foldlM_append_toOption, p.cur, Option.bind_some, p'.cur]⟩

/-- A statement in its savepoint: after the id is published, its effects happen unless a trigger
raises. -/
theorem toOption_published (id : Uuid) (stmt : SqlStatement) (s : Session Tracked) :
    ((stmt.effects.map (some id, ·)).foldlM applyEffect
      (publishExecutionId (some id.text) s)).toOption =
    ((stmt.published id).foldlM applyEffect s).toOption := rfl

/-- Whether a trigger raises does not depend on what came before the savepoint. -/
theorem raises_eq (id : Uuid) (stmt : SqlStatement) (setting : Option String) :
    (trail setting (stmt.published id)).any Found.raises = stmt.raises id := rfl

/-- How a statement in its savepoint ends. -/
theorem update_cases (id : Uuid) (stmt : SqlStatement) (sql : String) (params : List Value)
    (b : Backend (Session Tracked)) :
    (stmt.raises id = true ∧ ∃ message s,
      stmt.update (some id) sql params (publishExecutionId (some id.text) b.cur) =
        (.raised message, s)) ∨
    (stmt.raises id = false ∧ ∃ s,
      stmt.update (some id) sql params (publishExecutionId (some id.text) b.cur) =
        (stmt.outcome, s) ∧ Plays (stmt.published id) b ⟨s, b.saved⟩) := by
  have heffects := toOption_published id stmt b.cur
  have hraises := toOption_foldlM (stmt.published id) b.cur
  rw [raises_eq] at hraises
  unfold SqlStatement.update
  cases hfold : (stmt.effects.map (some id, ·)).foldlM applyEffect
      (publishExecutionId (some id.text) b.cur) with
  | error message =>
    rw [hfold] at heffects
    rw [← heffects] at hraises
    cases h : stmt.raises id with
    | true => exact .inl ⟨rfl, message, _, rfl⟩
    | false =>
      rw [h] at hraises
      exact absurd hraises (by simp [Except.toOption])
  | ok s =>
    rw [hfold] at heffects
    rw [← heffects] at hraises
    cases h : stmt.raises id with
    | true =>
      rw [h] at hraises
      exact absurd hraises (by simp [Except.toOption])
    | false => exact .inr ⟨rfl, s, rfl, rfl, heffects.symm⟩

theorem plays_execute (id : Uuid) (stmt : SqlStatement) (b : Backend (Session Tracked)) :
    Plays ((RunStep.execute stmt).standing id) b
      (SpiSqlExecutor.execute (stmt.update (some id)) false stmt.sql stmt.params
        (some id.text) b).2 := by
  rw [SpiSqlExecutor.execute_eq, RunStep.standing]
  rcases update_cases id stmt stmt.sql stmt.params b with ⟨hraises, message, s, hupd⟩ |
    ⟨hraises, s, hupd, hplays⟩
  · have hfails : stmt.executes id = false := by
      unfold SqlStatement.executes
      split <;> simp [hraises]
    rw [hupd, hfails]
    exact .refl b
  · rw [hupd]
    cases hout : stmt.outcome with
    | table rows len =>
      have hexecutes : stmt.executes id = true := by simp [SqlStatement.executes, hout, hraises]
      rw [hexecutes]
      exact hplays
    | error reason =>
      rw [show stmt.executes id = false by simp [SqlStatement.executes, hout]]
      exact .refl b
    | raised message =>
      rw [show stmt.executes id = false by simp [SqlStatement.executes, hout]]
      exact .refl b

theorem plays_query (id : Uuid) (stmt : SqlStatement) (b : Backend (Session Tracked)) :
    Plays ((RunStep.query stmt).standing id) b
      (SpiSqlExecutor.query (stmt.update (some id)) false stmt.sql stmt.params
        (some id.text) b).2 := by
  rw [SpiSqlExecutor.query_eq, RunStep.standing]
  rcases update_cases id stmt ("SELECT to_jsonb(t) FROM (" ++ stmt.sql ++ ") t") stmt.params b with
    ⟨hraises, message, s, hupd⟩ | ⟨hraises, s, hupd, hplays⟩
  · have hfails : stmt.answers id = false := by
      unfold SqlStatement.answers
      split <;> simp [hraises]
    rw [hupd, hfails]
    exact .refl b
  · rw [hupd]
    cases hout : stmt.outcome with
    | table rows len =>
      rcases exists_ok_or_error (readRows "sql_query" rows) with ⟨out, hread⟩ | ⟨e, hread⟩
      · have hanswers : stmt.answers id = true := by
          simp [SqlStatement.answers, hout, hraises, hread, Except.isOk, Except.toBool]
        rw [hanswers]
        simpa [hread] using hplays
      · -- rows that cannot be read roll the savepoint back like a failed statement
        have hfails : stmt.answers id = false := by
          simp [SqlStatement.answers, hout, hread, Except.isOk, Except.toBool]
        rw [hfails]
        simpa [hread] using Plays.refl b
    | error reason =>
      rw [show stmt.answers id = false by simp [SqlStatement.answers, hout]]
      exact .refl b
    | raised message =>
      rw [show stmt.answers id = false by simp [SqlStatement.answers, hout]]
      exact .refl b

mutual

theorem plays_perform (id : Uuid) :
    ∀ (step : RunStep) (b : Backend (Session Tracked)),
      Plays (step.standing id) b (step.perform false id b)
  | .execute stmt, b => by
    rw [RunStep.perform]
    exact plays_execute id stmt b
  | .query stmt, b => by
    rw [RunStep.perform]
    exact plays_query id stmt b
  | .delegate child steps, b => by
    rw [RunStep.perform, RunStep.standing]
    exact plays_performSteps child steps b

/-- **A run**: what it does to the tables and the setting is what its standing effects do. -/
theorem plays_performSteps (id : Uuid) :
    ∀ (steps : List RunStep) (b : Backend (Session Tracked)),
      Plays (standingAll id steps) b (performSteps false id steps b)
  | [], b => by
    rw [performSteps, standingAll]
    exact .refl b
  | step :: rest, b => by
    rw [performSteps, standingAll]
    exact (plays_perform id step b).trans (plays_performSteps id rest (step.perform false id b))

end

mutual

/-- With the SQL tools turned off a run does not reach the database. -/
theorem perform_disabled (id : Uuid) :
    ∀ (step : RunStep) (b : Backend (Session Tracked)), step.perform true id b = b
  | .execute stmt, b => by simp [RunStep.perform, SpiSqlExecutor.execute]
  | .query stmt, b => by simp [RunStep.perform, SpiSqlExecutor.query]
  | .delegate child steps, b => by simp [RunStep.perform, performSteps_disabled child steps b]

theorem performSteps_disabled (id : Uuid) :
    ∀ (steps : List RunStep) (b : Backend (Session Tracked)), performSteps true id steps b = b
  | [], b => by simp [performSteps]
  | step :: rest, b => by
    simp [performSteps, perform_disabled id step b, performSteps_disabled id rest b]

end

/-! ### Transactions -/

mutual

theorem perform_eq (disabled : Bool) :
    ∀ (item : TxItem) (b : Backend (Session Tracked)), item.perform disabled b =
      ((item.standing disabled).foldlM applyEffect b.cur).toOption.map fun s => ⟨s, b.saved⟩
  | .direct e, b => by
    rw [TxItem.perform, TxItem.standing, List.foldlM_cons]
    cases applyEffect b.cur (none, e) <;> rfl
  | .run id steps, b => by
    rw [TxItem.perform, TxItem.standing]
    cases disabled with
    | true =>
      rw [performSteps_disabled]
      rfl
    | false =>
      have h := plays_performSteps id steps b
      rw [if_neg Bool.false_ne_true, h.cur, Option.map_some, ← h.saved]
  | .block items keep, b => by
    have h := performItems_eq disabled items b.beginSub
    have hcur : b.beginSub.cur = b.cur := rfl
    rw [hcur] at h
    unfold TxItem.perform
    rw [h, TxItem.standing]
    cases hfold : ((standingIn disabled items).foldlM applyEffect b.cur).toOption with
    | none =>
      cases keep with
      | true => simp [hfold]
      | false =>
        -- the user rolls the aborted statements back
        rw [if_neg Bool.false_ne_true]
        exact congrArg some (Backend.rollback_of_saved rfl)
    | some s =>
      cases keep with
      | true =>
        rw [if_pos rfl, hfold]
        exact congrArg some (Backend.release_of_saved rfl)
      | false =>
        rw [if_neg Bool.false_ne_true]
        exact congrArg some (Backend.rollback_of_saved rfl)

/-- **A transaction** does what its standing effects do, and is aborted just if they fail. -/
theorem performItems_eq (disabled : Bool) :
    ∀ (items : List TxItem) (b : Backend (Session Tracked)), performItems disabled items b =
      ((standingIn disabled items).foldlM applyEffect b.cur).toOption.map fun s => ⟨s, b.saved⟩
  | [], b => by
    rw [performItems, standingIn]
    rfl
  | item :: rest, b => by
    rw [performItems, standingIn, perform_eq disabled item b, foldlM_append_toOption]
    cases ((item.standing disabled).foldlM applyEffect b.cur).toOption with
    | none => rfl
    | some s => exact performItems_eq disabled rest ⟨s, b.saved⟩

end

/-- **What a transaction leaves**: its standing writes and entries, unless a trigger raises. -/
theorem transact_eq (disabled : Bool) (setting : Option String) (items : List TxItem) (t : Tracked) :
    transact disabled setting items t =
      if (trail setting (standingIn disabled items)).any Found.raises then t
      else ⟨t.log ++ (trail setting (standingIn disabled items)).filterMap Found.logged⟩ := by
  rw [transact, performItems_eq, toOption_foldlM]
  cases h : (trail setting (standingIn disabled items)).any Found.raises with
  | true => simp only [txStart, h, if_true, Option.map_none]
  | false => simp only [txStart, h, Bool.false_eq_true, if_false, Option.map_some]

/-! ### Attribution -/

/-- The entry of a write whose trigger does not raise. -/
theorem toOption_recordProvenance (setting : Option String) (w : RowWrite) :
    (recordProvenance setting w).toOption.join =
      ((publishedId setting).bind Uuid.read).map (provenanceRow w) := by
  unfold recordProvenance
  cases publishedId setting with
  | none => rfl
  | some text =>
    simp only [Option.bind_some]
    cases Uuid.read text <;> rfl

theorem provenanceRow_injective (w : RowWrite) : Function.Injective (provenanceRow w) :=
  fun _ _ h => congrArg ProvenanceRow.executionId h

/-- A write that does not raise is attributed just if it finds the setting it should. -/
theorem attributed_logged_iff {f : Found} (hraises : f.raises = false) :
    (∀ l ∈ f.logged, l.Attributed) ↔ f.namesAuthor = true := by
  obtain ⟨setting, author, e⟩ := f
  cases e with
  | setting value => simp [Found.logged, Found.namesAuthor]
  | entry p => simp [Found.logged, Found.namesAuthor, Logged.Attributed]
  | write w =>
    simp only [Found.logged, Found.namesAuthor, Option.mem_def, Option.some.injEq, forall_eq',
      Logged.Attributed, toOption_recordProvenance]
    cases author with
    | some id =>
      rw [decide_eq_true_iff, Option.map_some, Option.map_eq_some_iff]
      constructor
      · rintro ⟨id', hid, hrow⟩
        rw [hid, provenanceRow_injective w hrow]
      · exact fun h => ⟨id, h, rfl⟩
    | none =>
      rw [Option.map_none, Option.map_eq_none_iff, Option.isNone_iff_eq_none]
      constructor
      · intro h
        -- a setting that is there and no id would have raised
        simp only [Found.raises, recordProvenance] at hraises
        cases hpub : publishedId setting with
        | none => rfl
        | some text =>
          rw [hpub, Option.bind_some] at h
          simp [hpub, h, Except.isOk, Except.toBool] at hraises
      · intro h
        rw [h]
        rfl

/-- **When provenance is attributed to agent writes only**: exactly when the transaction is aborted
because the trigger of a standing write finds a setting that is no id, or every standing row write
finds the setting it should: an empty one where the user made the write, and the id of its run where a
SQL tool call did. -/
theorem attributed_iff (disabled : Bool) (setting : Option String) (items : List TxItem) :
    Attributed (transact disabled setting items ⟨[]⟩) ↔
      (∃ f ∈ trail setting (standingIn disabled items), f.raises = true) ∨
        ∀ f ∈ trail setting (standingIn disabled items), f.namesAuthor = true := by
  rw [transact_eq]
  cases hraises : (trail setting (standingIn disabled items)).any Found.raises with
  | true =>
    refine iff_of_true ?_ (.inl (List.any_eq_true.mp hraises))
    exact fun l hl => absurd hl List.not_mem_nil
  | false =>
    have hnone := List.any_eq_false.mp hraises
    rw [if_neg Bool.false_ne_true, or_iff_right fun ⟨f, hf, h⟩ => hnone f hf h]
    constructor
    · intro h f hf
      refine (attributed_logged_iff (Bool.eq_false_iff.mpr (hnone f hf))).mp fun l hl => ?_
      exact h l (List.mem_filterMap.mpr ⟨f, hf, hl⟩)
    · intro h l hl
      obtain ⟨f, hf, hlog⟩ := List.mem_filterMap.mp hl
      exact (attributed_logged_iff (Bool.eq_false_iff.mpr (hnone f hf))).mpr (h f hf) l hlog

/-- A table, a run that inserts one row into it, and the user who then inserts another. -/
def lateInsert : List TxItem :=
  let orders : TrackedTable := ⟨"public", "orders", [⟨"id", true⟩]⟩
  [.run ⟨7⟩ [.execute ⟨"INSERT INTO orders VALUES (1)", [],
      [.write ⟨orders, .insert, [("id", some "1")]⟩], .table [] 1⟩],
    .direct (.write ⟨orders, .insert, [("id", some "2")]⟩)]

/-- The user's row is recorded with the run's id. -/
theorem lateInsert_not_attributed : ¬ Attributed (transact false none lateInsert ⟨[]⟩) := by
  decide

end PgSynapse
