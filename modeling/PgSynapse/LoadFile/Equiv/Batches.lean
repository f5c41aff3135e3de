import PgSynapse.Lib.Placeholders
import PgSynapse.LoadFile.Equiv.StageRows
import PgSynapse.LoadFile.Statements
import Mathlib.Algebra.Ring.Int.Defs
import Mathlib.Algebra.Ring.Nat

/-!
# The batches of a load

The loops of `stage_rows` write the statements of the `LoadPlan` (`insertSql_eq`).  A batch has as
many placeholders as parameters, numbered from 1 and within Postgres' limit, and the batches bind
the cells of all rows in order (`batched_inserts`).
-/

namespace PgSynapse

/-! ### The loops -/

theorem foldl_slotStep (row : List (Option String)) (columns : Nat) (s : SlotState) :
    (List.range columns).foldl (slotStep row) s =
      ⟨s.slots ++ (List.range columns).map (fun i => "$" ++ toString (s.n + i)),
        s.params ++ (List.range columns).map (fun i => cellParam row[i]?.join), s.n + columns⟩ := by
  induction columns with
  | zero => simp
  | succ columns ih =>
    rw [List.range_succ, List.foldl_append, ih, List.foldl_cons, List.foldl_nil, slotStep,
      List.map_append, List.map_append, ← List.append_assoc, ← List.append_assoc]
    rfl

theorem rowParams_eq (columns : Nat) (row : List (Option String)) :
    rowParams columns row = (List.range columns).map fun i => cellParam row[i]?.join := by
  unfold rowParams
  apply List.map_congr_left
  intro i _
  cases row[i]?.join <;> rfl

/-- A row of a batch, with `r` rows before it. -/
theorem rowStep_eq (columns r : Nat) (s : BatchState) (hn : s.n = r * columns + 1)
    (row : List (Option String)) :
    rowStep columns s row = ⟨s.placeholders ++ [rowSlots columns r],
      s.params ++ rowParams columns row, (r + 1) * columns + 1⟩ := by
  have hslots : (List.range columns).map (fun i => "$" ++ toString (s.n + i)) =
      (List.range columns).map fun i => "$" ++ toString (r * columns + i + 1) := by
    apply List.map_congr_left
    intro i _
    rw [hn, show r * columns + 1 + i = r * columns + i + 1 by omega]
  have hnext : s.n + columns = (r + 1) * columns + 1 := by
    rw [hn, Nat.succ_mul]
    omega
  unfold rowStep
  simp only
  rw [foldl_slotStep, rowParams_eq, ← hnext]
  simp only
  rw [hslots]
  rfl

theorem foldl_rowStep (columns : Nat) (chunk : List (List (Option String))) (r : Nat)
    (s : BatchState) (hn : s.n = r * columns + 1) :
    chunk.foldl (rowStep columns) s =
      ⟨s.placeholders ++ (List.range' r chunk.length).map (rowSlots columns),
        s.params ++ chunk.flatMap (rowParams columns), (r + chunk.length) * columns + 1⟩ := by
  induction chunk generalizing r s with
  | nil =>
    rw [List.foldl_nil, List.flatMap_nil, List.length_nil, List.range'_zero, List.map_nil,
      List.append_nil, List.append_nil, show (r + 0) * columns + 1 = s.n from hn.symm]
  | cons row chunk ih =>
    rw [List.foldl_cons, rowStep_eq columns r s hn row, ih (r + 1) _ rfl, List.length_cons,
      List.range'_succ, List.map_cons, List.flatMap_cons, List.append_assoc, List.append_assoc,
      show r + 1 + chunk.length = r + (chunk.length + 1) by omega]
    rfl

theorem batchState_eq (columns : Nat) (chunk : List (List (Option String))) :
    (batchState columns chunk).placeholders = (List.range chunk.length).map (rowSlots columns) ∧
      (batchState columns chunk).params = chunk.flatMap (rowParams columns) := by
  unfold batchState
  rw [foldl_rowStep columns chunk 0 _ (by simp), List.range_eq_range']
  exact ⟨rfl, rfl⟩

/-- **The loops write the statement** of the batch. -/
theorem insertSql_eq (qualified : String) (columns : List String)
    (chunk : List (List (Option String))) :
    insertSql qualified columns (batchState columns.length chunk).placeholders =
        (StageOp.insert chunk).sql qualified columns ∧
      (batchState columns.length chunk).params = (StageOp.insert chunk).params columns.length := by
  obtain ⟨hplaceholders, hparams⟩ := batchState_eq columns.length chunk
  rw [hplaceholders]
  exact ⟨rfl, hparams⟩

/-! ### Chunks -/

theorem flatten_chunksUpTo {α : Type} {n : Nat} (hn : 0 < n) (bound : Nat) (xs : List α)
    (hbound : xs.length ≤ bound) : (chunksUpTo n bound xs).flatten = xs := by
  induction bound generalizing xs with
  | zero =>
    rw [List.length_eq_zero_iff.mp (Nat.le_zero.mp hbound)]
    rfl
  | succ bound ih =>
    cases xs with
    | nil => rfl
    | cons x xs =>
      have hshort : ((x :: xs).drop n).length ≤ bound := by
        rw [List.length_drop]
        omega
      rw [chunksUpTo, List.flatten_cons, ih _ hshort, List.take_append_drop]

/-- The chunks are the list, cut. -/
theorem flatten_chunks {α : Type} {n : Nat} (hn : 0 < n) (xs : List α) :
    (chunks n xs).flatten = xs :=
  flatten_chunksUpTo hn xs.length xs le_rfl

theorem length_le_of_mem_chunks {α : Type} {n : Nat} {xs c : List α} (h : c ∈ chunks n xs) :
    c.length ≤ n := by
  unfold chunks at h
  generalize xs.length = bound at h
  induction bound generalizing xs with
  | zero => exact absurd h List.not_mem_nil
  | succ bound ih =>
    cases xs with
    | nil => exact absurd h List.not_mem_nil
    | cons x xs =>
      rcases List.mem_cons.mp h with rfl | hrest
      · exact List.length_take_le n _
      · exact ih hrest

/-- A batch stays within 60000 parameters. -/
theorem rowsPerBatch_mul_le {columns : Nat} (hpos : 0 < columns) (hle : columns ≤ 60000) :
    rowsPerBatch columns * columns ≤ 60000 := by
  have hquotient : 1 ≤ 60000 / columns := (Nat.one_le_div_iff hpos).mpr hle
  have hmul := Nat.div_mul_le_self 60000 columns
  unfold rowsPerBatch batchRows
  rw [if_neg (by omega), max_eq_left (show 1 ≤ columns from hpos),
    max_eq_left (le_min (by omega) hquotient)]
  exact (Nat.mul_le_mul_right _ (min_le_right _ _)).trans hmul

/-! ### The texts -/

open Sql

theorem Sql.Shows.join {α : Type} (sep : String) (hsep : Shows sep.toList []) {f : α → String}
    {g : α → List Nat} {xs : List α} (h : ∀ x ∈ xs, Shows (f x).toList (g x)) :
    Shows (sep.intercalate (xs.map f)).toList (xs.flatMap g) := by
  rw [String.toList_intercalate, List.map_map]
  exact .intercalate hsep h

/-- A literal without quotes, dollar signs and digits. -/
theorem Sql.Shows.literal {s : String}
    (h : s.toList.all (fun c => c != '"' && c != '$' && !c.isDigit) = true) :
    Shows s.toList [] := by
  have hall : ∀ c ∈ s.toList, (c ≠ '"' ∧ c ≠ '$') ∧ c.isDigit = false := by
    intro c hc
    simpa using List.all_eq_true.mp h c hc
  exact .plain (fun c hc => (hall c (List.mem_of_mem_head? hc)).2) fun c hc => (hall c hc).1

theorem shows_quoteIdent (name : String) : Shows (quoteIdent name).toList [] := by
  unfold quoteIdent
  simp only [String.toList_append, String.toList_ofList]
  exact Shows.quoted name.toList

theorem shows_quoteTable {table tool qualified : String} (h : quoteTable table tool = .ok qualified) :
    Shows qualified.toList [] := by
  unfold quoteTable at h
  simp only at h
  split at h
  · cases h
  · rw [← Except.ok.inj h]
    have hjoin := Shows.join "." (Shows.literal (by decide)) (g := fun _ => [])
      (fun p (_ : p ∈ Text.splitChar '.' table) => shows_quoteIdent (Text.trim p))
    rwa [List.flatMap_eq_nil_iff.mpr (fun _ _ => rfl)] at hjoin

theorem shows_rowSlots (columns r : Nat) :
    Shows (rowSlots columns r).toList
      ((List.range columns).map fun i => r * columns + i + 1) := by
  have hslot (n : Nat) : Shows ("$" ++ toString n).toList [n] := by
    simp only [Nat.toString_eq_ofList_toDigits, String.toList_append, String.toList_ofList]
    exact .placeholder n
  have hslots := Shows.join ", " (Shows.literal (by decide))
    (fun i (_ : i ∈ List.range columns) => hslot (r * columns + i + 1))
  rw [← List.map_eq_flatMap] at hslots
  have hopen : Shows "(".toList [] := Shows.literal (by decide)
  have hclose : Shows ")".toList [] := Shows.literal (by decide)
  have hrow := (hopen.append hslots).append hclose
  unfold rowSlots
  rw [String.toList_append, String.toList_append]
  rwa [List.nil_append, List.append_nil] at hrow

/-- The placeholders of the rows of a batch count up. -/
theorem flatMap_slots (columns rows : Nat) :
    ((List.range rows).flatMap fun r => (List.range columns).map fun i => r * columns + i + 1) =
      List.range' 1 (rows * columns) := by
  induction rows with
  | zero => simp
  | succ rows ih =>
    have hrow : (List.range columns).map (fun i => rows * columns + i + 1) =
        List.range' (1 + rows * columns) columns := by
      rw [List.range_eq_range', List.range'_eq_map_range, List.range'_eq_map_range, List.map_map]
      apply List.map_congr_left
      intro i _
      simp only [Function.comp_apply]
      omega
    rw [List.range_succ, List.flatMap_append, ih, List.flatMap_cons, List.flatMap_nil,
      List.append_nil, hrow, Nat.succ_mul, ← List.range'_append_1]

theorem length_params (columns : Nat) (chunk : List (List (Option String))) :
    ((StageOp.insert chunk).params columns).length = chunk.length * columns := by
  have hrow : ∀ row ∈ chunk, (rowParams columns row).length = columns := by
    intro row _
    rw [rowParams_eq, List.length_map, List.length_range]
  show (chunk.flatMap (rowParams columns)).length = _
  rw [List.length_flatMap, List.map_congr_left hrow, List.map_const', List.sum_replicate_nat]

/-- **The text of a batch** has the placeholders `$1`, `$2`, ..., as many as it has parameters. -/
theorem numbers_insert {table tool qualified : String} (h : quoteTable table tool = .ok qualified)
    (columns : List String) (chunk : List (List (Option String))) :
    Sql.numbers ((StageOp.insert chunk).sql qualified columns) =
      List.range' 1 ((StageOp.insert chunk).params columns.length).length := by
  have hcolumns := Shows.join ", " (Shows.literal (by decide)) (g := fun _ => [])
    (fun c (_ : c ∈ columns) => shows_quoteIdent c)
  have hrows := Shows.join ", " (Shows.literal (by decide))
    (fun r (_ : r ∈ List.range chunk.length) => shows_rowSlots columns.length r)
  have hinsert : Shows "INSERT INTO ".toList [] := Shows.literal (by decide)
  have hopen : Shows " (".toList [] := Shows.literal (by decide)
  have hvalues : Shows ") VALUES ".toList [] := Shows.literal (by decide)
  rw [List.flatMap_eq_nil_iff.mpr (fun _ _ => rfl)] at hcolumns
  rw [flatMap_slots] at hrows
  have htext := ((((hinsert.append (shows_quoteTable h)).append hopen).append hcolumns).append
    hvalues).append hrows
  rw [length_params]
  apply Shows.numbers
  unfold StageOp.sql
  simp only [String.toList_append]
  simpa using htext

/-! ### The statements of a load -/

section Load

variable {σ : Type}

/-- The executor, with the texts and parameters of the statements it was given so far. -/
def SqlExecutor.recorded (sql : SqlExecutor σ) : SqlExecutor (σ × List (String × List Value)) where
  query text params role id s :=
    ((sql.query text params role id s.1).1, ((sql.query text params role id s.1).2, s.2))
  execute text params role id s :=
    ((sql.execute text params role id s.1).1,
      ((sql.execute text params role id s.1).2, s.2 ++ [(text, params)]))

/-- An `INSERT` statement, by its text. -/
def isInsert (st : String × List Value) : Bool :=
  "INSERT INTO ".toList.isPrefixOf st.1.toList

/-- The `INSERT` statements among some. -/
def insertsOf (log : List (String × List Value)) : List (String × List Value) := log.filter isInsert

/-- The executor reports the number of inserted rows: an `INSERT` into `columns` columns inserts a
row for so many parameters. -/
def SqlExecutor.CountsRows (sql : SqlExecutor σ) (columns : Nat) : Prop :=
  ∀ text params role id env n, isInsert (text, params) = true →
    (sql.execute text params role id env).1 = .ok n → n * columns = params.length

/-- The statement of a batch. -/
def batchStatement (qualified : String) (columns : List String)
    (chunk : List (List (Option String))) : String × List Value :=
  ((StageOp.insert chunk).sql qualified columns, (StageOp.insert chunk).params columns.length)

theorem isInsert_batchStatement (qualified : String) (columns : List String)
    (chunk : List (List (Option String))) :
    isInsert (batchStatement qualified columns chunk) = true := by
  unfold isInsert batchStatement StageOp.sql
  rw [List.isPrefixOf_iff_prefix]
  simp only [String.toList_append, List.append_assoc]
  exact List.prefix_append _ _

/-- A call of the recording executor. -/
theorem recorded_execute (sql : SqlExecutor σ) (text : String) (params : List Value)
    (role id : Option String) (env : σ) (log : List (String × List Value)) :
    sql.recorded.execute text params role id (env, log) =
      ((sql.execute text params role id env).1,
        ((sql.execute text params role id env).2, log ++ [(text, params)])) := rfl

/-- **The batches that are issued**: all of them, unless one fails, and the rows they report. -/
theorem insertLoop_log (sql : SqlExecutor σ) (ctx : ToolCtx) (qualified : String)
    (columns : List String) (batches : List (List (List (Option String)))) (total : Nat) (env : σ)
    (log : List (String × List Value)) :
    ∃ issued, issued <+: batches ∧
      (sql.recorded.insertLoop ctx qualified columns batches total (env, log)).2.2 =
        log ++ issued.map (batchStatement qualified columns) ∧
      ∀ n, (sql.recorded.insertLoop ctx qualified columns batches total (env, log)).1 = .ok n →
        issued = batches ∧ (0 < columns.length → sql.CountsRows columns.length →
          n = total + (batches.map List.length).sum) := by
  induction batches generalizing total env log with
  | nil =>
    refine ⟨[], List.prefix_rfl, (List.append_nil log).symm, ?_⟩
    intro n hn
    exact ⟨rfl, fun _ _ => (Except.ok.inj hn).symm⟩
  | cons chunk batches ih =>
    obtain ⟨htext, hparams⟩ := insertSql_eq qualified columns chunk
    rw [SqlExecutor.insertLoop]
    simp only [htext, hparams]
    rw [recorded_execute]
    rcases hrun : sql.execute ((StageOp.insert chunk).sql qualified columns)
      ((StageOp.insert chunk).params columns.length) ctx.callerRole (some ctx.executionId.text)
      env with ⟨e | reported, env'⟩
    · refine ⟨[chunk], List.prefix_append [chunk] batches, rfl, ?_⟩
      intro n hn
      cases hn
    · obtain ⟨issued, hprefix, hlog, hok⟩ := ih (total + reported) env'
        (log ++ [batchStatement qualified columns chunk])
      refine ⟨chunk :: issued, (List.prefix_cons_inj chunk).mpr hprefix, ?_, ?_⟩
      · refine hlog.trans ?_
        rw [List.append_assoc, List.singleton_append, List.map_cons]
      · intro n hn
        obtain ⟨hall, hsum⟩ := hok n hn
        refine ⟨by rw [hall], fun hpos hcounts => ?_⟩
        have hreported : reported * columns.length = chunk.length * columns.length := by
          rw [hcounts _ _ _ _ env reported (isInsert_batchStatement qualified columns chunk)
            (by rw [hrun])]
          exact length_params columns.length chunk
        have hrows := Nat.eq_of_mul_eq_mul_right hpos hreported
        have htotal := hsum hpos hcounts
        rw [List.map_cons, List.sum_cons]
        omega

theorem insertsOf_batches (qualified : String) (columns : List String)
    (log : List (String × List Value)) (hlog : ∀ st ∈ log, isInsert st = false)
    (issued : List (List (List (Option String)))) :
    insertsOf (log ++ issued.map (batchStatement qualified columns)) =
      issued.map (batchStatement qualified columns) := by
  have hbefore : log.filter isInsert = [] := by
    rw [List.filter_eq_nil_iff]
    intro st hst h
    rw [hlog st hst] at h
    exact absurd h (by decide)
  have hall : (issued.map (batchStatement qualified columns)).filter isInsert =
      issued.map (batchStatement qualified columns) := by
    rw [List.filter_eq_self]
    intro st hst
    obtain ⟨chunk, -, rfl⟩ := List.mem_map.mp hst
    exact isInsert_batchStatement qualified columns chunk
  unfold insertsOf
  rw [List.filter_append, hbefore, hall, List.nil_append]

/-- A statement with another first letter. -/
theorem not_isInsert {c : Char} (hc : c ≠ 'I') {text : String} {cs : List Char}
    (h : text.toList = c :: cs) (params : List Value) : isInsert (text, params) = false := by
  have hinsert : "INSERT INTO ".toList = 'I' :: "NSERT INTO ".toList := by decide
  unfold isInsert
  rw [hinsert, h, List.isPrefixOf_cons_cons, beq_false_of_ne (Ne.symm hc), Bool.false_and]

theorem toList_append_cons {s : String} {c : Char} {cs : List Char} (h : s.toList = c :: cs)
    (t : String) : (s ++ t).toList = c :: (cs ++ t.toList) := by
  rw [String.toList_append, h, List.cons_append]

/-- What a run issues of a load's batches: the first of them, and all if it returns a total. -/
structure Issues (sql : SqlExecutor σ) (qualified : String) (columns : List String)
    (batches issued : List (List (List (Option String))))
    (run : Except ToolError Nat × (σ × List (String × List Value))) : Prop where
  first : issued <+: batches
  inserts : insertsOf run.2.2 = issued.map (batchStatement qualified columns)
  all : ∀ n, run.1 = .ok n → issued = batches
  counted : ∀ n, run.1 = .ok n → 0 < columns.length → sql.CountsRows columns.length →
    n = (batches.map List.length).sum

/-- Nothing is issued when an error comes before the batches. -/
theorem Issues.none (sql : SqlExecutor σ) (qualified : String) (columns : List String)
    (batches : List (List (List (Option String)))) (e : ToolError) (env : σ)
    {log : List (String × List Value)} (hlog : ∀ st ∈ log, isInsert st = false) :
    Issues sql qualified columns batches [] (.error e, (env, log)) where
  first := List.nil_prefix
  inserts := by
    have h := insertsOf_batches qualified columns log hlog []
    rwa [List.map_nil, List.append_nil] at h
  all n hn := by cases hn
  counted n hn := by cases hn

theorem insertLoop_issues (sql : SqlExecutor σ) (ctx : ToolCtx) (qualified : String)
    (columns : List String) (batches : List (List (List (Option String)))) (env : σ)
    {log : List (String × List Value)} (hlog : ∀ st ∈ log, isInsert st = false) :
    ∃ issued, Issues sql qualified columns batches issued
      (sql.recorded.insertLoop ctx qualified columns batches 0 (env, log)) := by
  obtain ⟨issued, hprefix, hissued, hok⟩ := insertLoop_log sql ctx qualified columns batches 0 env log
  refine ⟨issued, hprefix, ?_, fun n hn => (hok n hn).1, fun n hn hpos hcounts => ?_⟩
  · rw [hissued]
    exact insertsOf_batches qualified columns log hlog issued
  · rw [(hok n hn).2 hpos hcounts, Nat.zero_add]

/-- **What `stage_rows` issues**: the `CREATE` and the `DELETE` are no inserts, and then come the
batches. -/
theorem stageRows_issues (sql : SqlExecutor σ) (ctx : ToolCtx) (tool table : String)
    (columns : List String) (rows : List (List (Option String))) (replace : Bool) (env : σ) :
    ∃ qualified issued, (issued = [] ∨ quoteTable table tool = .ok qualified) ∧
      Issues sql qualified columns (chunks (rowsPerBatch columns.length) rows) issued
        (sql.recorded.stageRows ctx tool table columns rows replace (env, [])) := by
  have hcreate (qualified colDefs : String) :
      isInsert ("CREATE TABLE IF NOT EXISTS " ++ qualified ++ " (" ++ colDefs ++ ")", []) = false := by
    have hliteral :
        "CREATE TABLE IF NOT EXISTS ".toList = 'C' :: "REATE TABLE IF NOT EXISTS ".toList := by
      decide
    exact not_isInsert (by decide) (toList_append_cons (toList_append_cons (toList_append_cons
      (toList_append_cons hliteral _) _) _) _) []
  have hdelete (qualified : String) : isInsert ("DELETE FROM " ++ qualified, []) = false := by
    have hliteral : "DELETE FROM ".toList = 'D' :: "ELETE FROM ".toList := by decide
    exact not_isInsert (by decide) (toList_append_cons hliteral _) []
  unfold SqlExecutor.stageRows
  rcases hq : quoteTable table tool with e | qualified
  · exact ⟨"", [], .inl rfl, .none sql "" columns _ e env fun _ h => absurd h List.not_mem_nil⟩
  have hcreate := hcreate qualified (", ".intercalate (columns.map fun c => quoteIdent c ++ " text"))
  have hdelete := hdelete qualified
  simp only
  -- neither is an INSERT, and what else they say does not matter
  generalize "CREATE TABLE IF NOT EXISTS " ++ qualified ++ " (" ++
    ", ".intercalate (columns.map fun c => quoteIdent c ++ " text") ++ ")" = create at hcreate ⊢
  generalize "DELETE FROM " ++ qualified = delete at hdelete ⊢
  have hone : ∀ st ∈ [((create, []) : String × List Value)], isInsert st = false := by
    intro st hst
    rw [List.mem_singleton.mp hst]
    exact hcreate
  have hboth : ∀ st ∈ [((create, []) : String × List Value)] ++ [(delete, [])],
      isInsert st = false := by
    intro st hst
    rcases List.mem_append.mp hst with h | h
    · exact hone st h
    · rw [List.mem_singleton.mp h]
      exact hdelete
  rw [recorded_execute]
  rcases sql.execute create [] ctx.callerRole (some ctx.executionId.text) env with ⟨e | reported, env'⟩
  · exact ⟨qualified, [], .inl rfl, .none sql qualified columns _ e env' hone⟩
  · cases replace with
    | false =>
      obtain ⟨issued, hissues⟩ := insertLoop_issues sql ctx qualified columns
        (chunks (rowsPerBatch columns.length) rows) env' hone
      exact ⟨qualified, issued, .inr rfl, hissues⟩
    | true =>
      simp only [if_true]
      rw [recorded_execute]
      rcases sql.execute delete [] ctx.callerRole (some ctx.executionId.text) env' with
        ⟨e | reported', env''⟩
      · exact ⟨qualified, [], .inl rfl, .none sql qualified columns _ e env'' hboth⟩
      · obtain ⟨issued, hissues⟩ := insertLoop_issues sql ctx qualified columns
          (chunks (rowsPerBatch columns.length) rows) env'' hboth
        exact ⟨qualified, issued, .inr rfl, hissues⟩

/-! ### Rows in full -/

/-- A row cut or padded with `NULL` to so many columns. -/
def fitRow (columns : Nat) (row : List (Option String)) : List (Option String) :=
  (row ++ List.replicate columns none).take columns

/-- Every column of a fitted row has the row's cell, or `NULL`. -/
theorem getElem?_fitRow (columns : Nat) (row : List (Option String)) {i : Nat} (hi : i < columns) :
    (fitRow columns row)[i]? = some row[i]?.join := by
  unfold fitRow
  rw [List.getElem?_take_of_lt hi]
  by_cases hlt : i < row.length
  · rw [List.getElem?_append_left hlt, List.getElem?_eq_getElem hlt]
    rfl
  · rw [List.getElem?_append_right (by omega), List.getElem?_replicate_of_lt (by omega),
      List.getElem?_eq_none (by omega)]
    rfl

theorem length_fitRow (columns : Nat) (row : List (Option String)) :
    (fitRow columns row).length = columns := by
  unfold fitRow
  rw [List.length_take, List.length_append, List.length_replicate]
  omega

/-- A row in full is neither cut nor padded. -/
theorem fitRow_eq_self {columns : Nat} {row : List (Option String)} (h : row.length = columns) :
    fitRow columns row = row := by
  unfold fitRow
  rw [← h, List.take_left]

theorem rowParams_eq_fitRow (columns : Nat) (row : List (Option String)) :
    rowParams columns row = (fitRow columns row).map cellParam := by
  rw [rowParams_eq]
  apply List.ext_getElem?
  intro i
  by_cases hi : i < columns
  · rw [List.getElem?_map, List.getElem?_map, getElem?_fitRow columns row hi,
      List.getElem?_range hi]
    rfl
  · rw [List.getElem?_eq_none, List.getElem?_eq_none]
    · rw [List.length_map, length_fitRow]
      omega
    · rw [List.length_map, List.length_range]
      omega

/-- **The batches neither lose nor shift cells**: they bind the cells of the rows in order, each row
cut or padded to the columns; every statement has the placeholders `$1`, `$2`, ..., as many as
parameters and at most 65535; and an executor that counts rows counts all of them. -/
theorem batched_inserts (sql : SqlExecutor σ) (ctx : ToolCtx) (tool table : String)
    (columns : List String) (hpos : 1 ≤ columns.length) (hle : columns.length ≤ 60000)
    (rows : List (List (Option String))) (replace : Bool) (env : σ) :
    let run := sql.recorded.stageRows ctx tool table columns rows replace (env, [])
    let cells := rows.flatMap fun row => (fitRow columns.length row).map cellParam
    (∀ st ∈ insertsOf run.2.2,
      Sql.numbers st.1 = List.range' 1 st.2.length ∧ st.2.length ≤ 65535) ∧
    (insertsOf run.2.2).flatMap Prod.snd <+: cells ∧
    ∀ n, run.1 = .ok n → (insertsOf run.2.2).flatMap Prod.snd = cells ∧
      (sql.CountsRows columns.length → n = rows.length) := by
  intro run cells
  obtain ⟨qualified, issued, hqualified, hissues⟩ :=
    stageRows_issues sql ctx tool table columns rows replace env
  have hchunks := flatten_chunks (rowsPerBatch_pos columns.length) rows
  -- the parameters of the batches, put together, are the cells of their rows
  have hparams (batches : List (List (List (Option String)))) :
      (batches.map (batchStatement qualified columns)).flatMap Prod.snd =
        batches.flatten.flatMap fun row => (fitRow columns.length row).map cellParam := by
    induction batches with
    | nil => rfl
    | cons chunk batches ih =>
      rw [List.map_cons, List.flatMap_cons, ih, List.flatten_cons, List.flatMap_append]
      congr 1
      exact List.flatMap_congr fun row _ => rowParams_eq_fitRow columns.length row
  refine ⟨?_, ?_, ?_⟩
  · intro st hst
    rw [hissues.inserts] at hst
    obtain ⟨chunk, hchunk, rfl⟩ := List.mem_map.mp hst
    refine ⟨?_, ?_⟩
    · rcases hqualified with hnone | hok
      · rw [hnone] at hchunk
        exact absurd hchunk List.not_mem_nil
      · exact numbers_insert hok columns chunk
    -- a batch has as many rows as 60000 parameters allow
    · have hmem := hissues.first.subset hchunk
      have hlen := Nat.mul_le_mul_right columns.length (length_le_of_mem_chunks hmem)
      have hbatch := rowsPerBatch_mul_le hpos hle
      show ((StageOp.insert chunk).params columns.length).length ≤ 65535
      rw [length_params]
      omega
  · rw [hissues.inserts, hparams]
    obtain ⟨rest, hrest⟩ := hissues.first
    refine ⟨rest.flatten.flatMap fun row => (fitRow columns.length row).map cellParam, ?_⟩
    rw [← List.flatMap_append, ← List.flatten_append, hrest, hchunks]
  · intro n hn
    refine ⟨?_, fun hcounts => ?_⟩
    · rw [hissues.inserts, hparams, hissues.all n hn, hchunks]
    · rw [hissues.counted n hn hpos hcounts, ← List.length_flatten, hchunks]

end Load

/-! ### A ragged load -/

/-- An executor that takes every statement and reports a row for every two parameters. -/
def twoColumnExecutor : SqlExecutor Unit where
  query _ _ _ _ env := (.ok [], env)
  execute _ params _ _ env := (.ok (params.length / 2), env)

/-- Two columns, and rows of one, two and three cells. -/
theorem ragged_rows_inserted :
    let ctx : ToolCtx := ⟨⟨0⟩, none, none⟩
    let rows := [[some "a"], [some "b", none], [some "c", some "d", some "e"]]
    let run := twoColumnExecutor.recorded.stageRows ctx "load_csv" "t" ["x", "y"] rows false ((), [])
    run.1 = .ok 3 ∧ (insertsOf run.2.2).flatMap Prod.snd =
      [.string "a", .null, .string "b", .null, .string "c", .string "d"] := by
  intro ctx rows run
  obtain ⟨-, -, hok⟩ := batched_inserts twoColumnExecutor ctx "load_csv" "t" ["x", "y"] (by decide)
    (by decide) rows false ()
  have hrun : run.1 = .ok 3 := by decide +kernel
  exact ⟨hrun, (hok 3 hrun).1⟩

end PgSynapse
