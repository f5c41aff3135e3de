import PgSynapse.Pgrx.SpiExecutor

/-!
# What a SQL tool call leaves behind

A call through `SpiSqlExecutor` that returns an error leaves the backend as it was; one that returns
a value leaves what its statement did, on top of the published execution id.
-/

namespace PgSynapse

variable {δ α : Type}

/-- **The savepoint**: on success the body's state stays, on any failure nothing does. -/
theorem withSavepoint_run (tool : String) (f : Session δ → BodyResult α × Session δ)
    (b : Backend (Session δ)) :
    withSavepoint tool (Backend.run f) b =
      match (f b.cur).1.caught tool with
      | .ok a => (.ok a, ⟨(f b.cur).2, b.saved⟩)
      | .error e => (.error e, b) := by
  have hbody : Backend.run f b.beginSub = ((f b.cur).1, ⟨(f b.cur).2, b.beginSub.saved⟩) := rfl
  have hsaved : (⟨(f b.cur).2, b.beginSub.saved⟩ : Backend (Session δ)).saved =
      b.beginSub.saved := rfl
  rw [withSavepoint, hbody]
  cases hr : (f b.cur).1.caught tool with
  | ok a => simp only [hr, Backend.release_of_saved hsaved]
  | error e => simp only [hr, Backend.rollback_of_saved hsaved]

namespace SpiSqlExecutor

variable (spi : SpiUpdate δ) (disabled : Bool) (sql : String) (params : List Value)
  (executionId : Option String) (b : Backend (Session δ))

/-- **`execute`**: what the statement did stays exactly when it returned a table. -/
theorem execute_eq :
    execute spi disabled sql params executionId b =
      if disabled then (.error (disabledError "sql_exec"), b)
      else match spi sql params (publishExecutionId executionId b.cur) with
        | (.table _ len, s) => (.ok len, ⟨s, b.saved⟩)
        | (.error reason, _) => (.error (.execution "sql_exec" reason), b)
        | (.raised message, _) => (.error (.execution "sql_exec" message), b) := by
  unfold execute
  split
  · rfl
  rw [withSavepoint_run, statement]
  rcases spi sql params (publishExecutionId executionId b.cur) with ⟨_ | _ | _, s⟩ <;> rfl

/-- **`query`**: what the statement did stays exactly when its rows could be read. -/
theorem query_eq :
    query spi disabled sql params executionId b =
      if disabled then (.error (disabledError "sql_query"), b)
      else match spi ("SELECT to_jsonb(t) FROM (" ++ sql ++ ") t") params
          (publishExecutionId executionId b.cur) with
        | (.table rows _, s) =>
          match readRows "sql_query" rows with
          | .ok out => (.ok out, ⟨s, b.saved⟩)
          | .error e => (.error e, b)
        | (.error reason, _) => (.error (.execution "sql_query" reason), b)
        | (.raised message, _) => (.error (.execution "sql_query" message), b) := by
  unfold query
  split
  · rfl
  simp only [withSavepoint_run, statement]
  rcases spi ("SELECT to_jsonb(t) FROM (" ++ sql ++ ") t") params
    (publishExecutionId executionId b.cur) with ⟨rows | _ | _, s⟩
  · simp only [BodyResult.caught]
    cases readRows "sql_query" rows <;> rfl
  · rfl
  · rfl

variable {spi disabled sql params executionId b}

end SpiSqlExecutor

end PgSynapse
