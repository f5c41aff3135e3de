import PgSynapse.Lib.Numerals
import PgSynapse.LoadFile.Equiv.RoundTrip
import PgSynapse.Pgrx.BindArgs

/-!
# The texts that a load stages in Postgres

The loaders bind every cell as a text, and `json_to_datum` binds a text that reads as a number as that
number.  A `text` column then gets what Postgres prints for the number (`staged_texts_iff`).
-/

namespace PgSynapse

/-! ### Integers -/

/-- No plus sign, no minus sign before a zero, and no zero before another character. -/
def plainChars : List Char → Bool
  | '+' :: _ => false
  | '-' :: '0' :: _ => false
  | '0' :: rest => rest.isEmpty
  | _ => true

/-- A text that is plain. -/
def plainInteger (s : String) : Bool := plainChars s.toList

theorem plainChars_minus (c : Char) (rest : List Char) :
    plainChars ('-' :: c :: rest) = true ↔ c ≠ '0' := by
  by_cases hc : c = '0'
  · rw [hc]
    exact iff_of_false (by simp [plainChars]) (fun h => h rfl)
  · refine iff_of_true ?_ hc
    unfold plainChars
    split <;> simp_all

theorem plainChars_digit {c : Char} (hc : c.isDigit = true) (rest : List Char) :
    plainChars (c :: rest) = true ↔ c :: rest = ['0'] ∨ (c :: rest).head? ≠ some '0' := by
  by_cases hzero : c = '0'
  · rw [hzero]
    show rest.isEmpty = true ↔ _
    rw [List.isEmpty_iff]
    simp
  · refine iff_of_true ?_ (.inr fun h => hzero (Option.some.inj h))
    unfold plainChars
    split
    · rename_i heq
      rw [(List.cons.inj heq).1] at hc
      exact absurd hc (by decide)
    · rename_i heq
      rw [(List.cons.inj heq).1] at hc
      exact absurd hc (by decide)
    · rename_i heq
      exact absurd (List.cons.inj heq).1 hzero
    · rfl

theorem parseDigits_some {cs : List Char} {n : Nat} (h : parseDigits cs = some n) :
    cs ≠ [] ∧ (∀ c ∈ cs, c.isDigit = true) ∧ n = Nat.ofDigitChars 10 cs 0 := by
  unfold parseDigits at h
  by_cases hdigits : (!cs.isEmpty && cs.all Char.isDigit) = true
  · rw [if_pos hdigits] at h
    rw [Bool.and_eq_true, Bool.not_eq_true', List.isEmpty_eq_false_iff, List.all_eq_true] at hdigits
    exact ⟨hdigits.1, hdigits.2, (Option.some.inj h).symm⟩
  · rw [if_neg hdigits] at h
    cases h

theorem int8Out_natCast (n : Nat) : (int8Out n).toList = Nat.toDigits 10 n := by
  unfold int8Out
  rw [if_neg (by omega), Int.natAbs_natCast, Nat.toString_eq_ofList_toDigits, String.toList_ofList]

theorem int8Out_neg {n : Nat} (hn : 0 < n) : (int8Out (-n)).toList = '-' :: Nat.toDigits 10 n := by
  unfold int8Out
  rw [if_pos (by omega), Int.natAbs_neg, Int.natAbs_natCast, String.toList_append,
    Nat.toString_eq_ofList_toDigits, String.toList_ofList, String.toList_ofList]
  rfl

/-- The digits of a text that reads as an integer, and its sign. -/
theorem parseI64_some {s : String} {i : Int} (h : parseI64 s = some i) :
    ∃ cs n, parseDigits cs = some n ∧
      ((s.toList = '-' :: cs ∧ i = -n) ∨ (s.toList = '+' :: cs ∧ i = n) ∨ (s.toList = cs ∧ i = n)) := by
  have hbound {cs : List Char} {p : Nat → Prop} [DecidablePred p] {f : Nat → Int}
      (hbind : ((parseDigits cs).bind fun n => if p n then some (f n) else none) = some i) :
      ∃ n, parseDigits cs = some n ∧ i = f n := by
    obtain ⟨n, hn, hif⟩ := Option.bind_eq_some_iff.mp hbind
    refine ⟨n, hn, ?_⟩
    by_cases hp : p n
    · rw [if_pos hp] at hif
      exact (Option.some.inj hif).symm
    · rw [if_neg hp] at hif
      cases hif
  unfold parseI64 at h
  split at h
  · rename_i cs hs
    obtain ⟨n, hn, hi⟩ := hbound h
    exact ⟨cs, n, hn, .inl ⟨hs, hi⟩⟩
  · rename_i cs hs
    obtain ⟨n, hn, hi⟩ := hbound h
    exact ⟨cs, n, hn, .inr (.inl ⟨hs, hi⟩)⟩
  · obtain ⟨n, hn, hi⟩ := hbound h
    exact ⟨s.toList, n, hn, .inr (.inr ⟨rfl, hi⟩)⟩

/-- **A text that reads as an integer** is what Postgres prints for it just if it is plain. -/
theorem int8Out_eq_iff {s : String} {i : Int} (h : parseI64 s = some i) :
    int8Out i = s ↔ plainInteger s = true := by
  obtain ⟨cs, n, hn, hsign⟩ := parseI64_some h
  obtain ⟨hne, hall, rfl⟩ := parseDigits_some hn
  have hnumeral := toDigits_ofDigitChars_iff hall hne
  obtain ⟨c, rest, rfl⟩ := List.exists_cons_of_ne_nil hne
  have hc : c.isDigit = true := hall c List.mem_cons_self
  generalize hvalue : Nat.ofDigitChars 10 (c :: rest) 0 = n at hnumeral hsign
  rw [← String.toList_inj]
  unfold plainInteger
  rcases hsign with ⟨hs, rfl⟩ | ⟨hs, rfl⟩ | ⟨hs, rfl⟩
  · rw [hs, plainChars_minus]
    rcases Nat.eq_zero_or_pos n with rfl | hpos
    · -- minus zero is printed without its sign
      have hzero : c = '0' := by
        by_contra hzero
        rw [Nat.toDigits_zero] at hnumeral
        have hdigits := hnumeral.mpr (.inr fun h => hzero (Option.some.inj h))
        exact hzero (List.cons.inj hdigits).1.symm
      exact iff_of_false (by simp [int8Out]) (fun h => h hzero)
    · rw [int8Out_neg hpos, List.cons_inj_right, hnumeral]
      constructor
      · rintro (hone | hhead) hzero
        · rw [← hvalue, hone] at hpos
          exact absurd hpos (by decide)
        · exact hhead (congrArg some hzero)
      · exact fun hzero => .inr fun h => hzero (Option.some.inj h)
  · rw [hs, int8Out_natCast]
    refine iff_of_false (fun h => ?_) (by simp [plainChars])
    have hplus := Nat.isDigit_of_mem_toDigits (b := 10) (by decide) (by decide)
      (h ▸ List.mem_cons_self : '+' ∈ Nat.toDigits 10 n)
    exact absurd hplus (by decide)
  · rw [hs, int8Out_natCast, hnumeral, plainChars_digit hc]

/-! ### Cells -/

variable (D : Doubles)

/-- How the text of a cell ends up in a `text` column. -/
def stagedText (s : String) : Option String := assignText D (jsonToDatum D (.string s))

/-- **A text that is kept**: if it reads as an integer, it is plain, and if it only reads as a finite
double, Postgres prints the double that way. -/
def KeepsText (s : String) : Prop :=
  ((parseI64 s).isSome = true → plainInteger s = true) ∧
    (parseI64 s = none → ∀ x, D.parse s = some x → D.isFinite x = true → D.float8Out x = s)

theorem stagedText_int {s : String} {i : Int} (h : parseI64 s = some i) :
    stagedText D s = some (int8Out i) := by
  unfold stagedText jsonToDatum
  simp only [h, assignText]

/-- A text that reads as no integer. -/
theorem stagedText_noInt {s : String} (h : parseI64 s = none) :
    stagedText D s = some (((D.parse s).filter D.isFinite).elim s D.float8Out) := by
  unfold stagedText jsonToDatum
  simp only [h]
  rcases D.parse s with _ | x
  · rfl
  · cases hfinite : D.isFinite x <;> simp [assignText, Option.filter, hfinite]

theorem stagedText_eq_iff (s : String) : stagedText D s = some s ↔ KeepsText D s := by
  unfold KeepsText
  rcases hint : parseI64 s with _ | i
  · rw [stagedText_noInt D hint, Option.some_inj]
    rcases hdouble : (D.parse s).filter D.isFinite with _ | x
    · refine iff_of_true rfl ⟨fun h => (by cases h), fun _ x hx hfinite => ?_⟩
      rw [hx, Option.filter_some, if_pos hfinite] at hdouble
      cases hdouble
    · obtain ⟨hx, hfinite⟩ := Option.filter_eq_some_iff.mp hdouble
      constructor
      · intro h
        refine ⟨fun h => (by cases h), fun _ y hy _ => ?_⟩
        rw [← Option.some.inj (hx.symm.trans hy)]
        exact h
      · exact fun h => h.2 rfl x hx hfinite
  · rw [stagedText_int D hint, Option.some_inj, int8Out_eq_iff hint]
    exact ⟨fun h => ⟨fun _ => h, fun h => (by cases h)⟩, fun h => h.1 rfl⟩

/-- The store of the pgrx host: a parameter is bound, and the column is assigned its text. -/
def spiStore (v : Value) : Option String := assignText D (jsonToDatum D v)

/-- A list that is mapped to itself. -/
theorem map_eq_self_iff {α : Type} {f : α → α} {xs : List α} :
    xs.map f = xs ↔ ∀ x ∈ xs, f x = x := by
  have hid : xs.map f = xs ↔ xs.map f = xs.map id := by rw [List.map_id]
  exact hid.trans List.map_inj_left

/-- **The rows of a load** are kept just if every text in them is. -/
theorem staged_rows_iff {plan : LoadPlan}
    (hwidth : ∀ row ∈ plan.rows, row.length = plan.columns.length) :
    (plan.staged (spiStore D)).rows = plan.rows ↔
      ∀ row ∈ plan.rows, ∀ s, some s ∈ row → KeepsText D s := by
  have hrow : ∀ row ∈ plan.rows, (rowParams plan.columns.length row).map (spiStore D) =
      row.map fun v => v.bind (stagedText D) := by
    intro row hmem
    rw [rowParams_eq_fitRow, fitRow_eq_self (hwidth row hmem), List.map_map]
    refine List.map_congr_left fun v _ => ?_
    cases v <;> rfl
  have hcell (row : List (Option String)) : row.map (fun v => v.bind (stagedText D)) = row ↔
      ∀ s, some s ∈ row → KeepsText D s := by
    rw [map_eq_self_iff]
    constructor
    · intro h s hs
      exact (stagedText_eq_iff D s).mp (h _ hs)
    · rintro h (_ | s) hs
      · rfl
      · exact (stagedText_eq_iff D s).mpr (h s hs)
  show plan.rows.map (fun row => (rowParams plan.columns.length row).map (spiStore D)) = plan.rows ↔ _
  rw [map_eq_self_iff]
  refine forall₂_congr fun row hmem => ?_
  rw [hrow row hmem]
  exact hcell row

/-! ### Files -/

/-- A file that `load_csv` or `load_json` reads. -/
inductive StagedFile where
  | csv (bytes : ByteArray)
  | json (text : String)

namespace StagedFile

variable (U : UnicodeCase) (csv : Csv) (fromStr : String → Except String Value)

/-- What the tool makes of the file. -/
def plan (table : String) (replace : Bool) : StagedFile → Except ToolError LoadPlan
  | .csv bytes => LoadCsvTool.plan U csv table replace bytes
  | .json text => LoadJsonTool.plan U fromStr table replace text

/-- **The texts of a file**, a row for each record: of a CSV file, the trimmed fields under the
headers, or `NULL` where one is empty or missing; of a JSON file, the values under the keys, a string
itself, another value printed, and `NULL` where one is `null` or missing. -/
def Texts (texts : List (List (Option String))) : StagedFile → Prop
  | .csv bytes => ∃ headers, ∃ records : List (List String), csv.headers bytes = .ok headers ∧
      csv.records bytes = records.map .ok ∧ texts = records.map fun record =>
        (List.range headers.length).map fun i => record[i]?.bind csvCell
  | .json text => ∃ records, parseRecords fromStr text = .ok records ∧
      texts = records.map fun record => (unionKeys records).map fun k => jsonCell (record.lookup k)

/-- A load of the file into a table that is not there is accepted, and makes the table. -/
def Loaded (faults : Nat → Option (Fault Tables)) (table : String) (replace : Bool) (ctx : ToolCtx)
    (b : Backend (Session Tables)) (t : StagedTable) (file : StagedFile) : Prop :=
  ∃ plan qualified out b', file.plan U csv fromStr table replace = .ok plan ∧
    quoteTable plan.table plan.tool = .ok qualified ∧ b.cur.db qualified = none ∧
    LoadTool.run (freshTables (spiStore D) faults) false (.ok plan) ctx b = (.ok out, b') ∧
    b'.cur.db qualified = some t

/-- The rows of a plan are the texts of the file. -/
theorem texts_plan {file : StagedFile} {table : String} {replace : Bool} {plan : LoadPlan}
    (h : file.plan U csv fromStr table replace = .ok plan) :
    file.Texts csv fromStr plan.rows ∧ ∀ row ∈ plan.rows, row.length = plan.columns.length := by
  cases file with
  | csv bytes =>
    obtain ⟨headers, rows, hheaders, -, hrows, rfl⟩ := LoadCsvTool.plan_ok h
    obtain ⟨records, hread, rfl⟩ := csvRows_ok hrows
    have hlen : (columnNames U headers).length = headers.length := List.length_mapIdx
    refine ⟨⟨headers, records, hheaders, hread, ?_⟩, ?_⟩
    · rw [hlen]
      exact List.map_congr_left fun record _ => csvRow_eq _ record
    · intro row hrow
      obtain ⟨record, -, rfl⟩ := List.mem_map.mp hrow
      exact length_csvRow _ record
  | json text =>
    replace h : LoadJsonTool.plan U fromStr table replace text = .ok plan := h
    unfold LoadJsonTool.plan at h
    rcases hrecords : parseRecords fromStr text with e | records
    · rw [hrecords] at h
      cases h
    · rw [hrecords] at h
      by_cases hempty : records.isEmpty = true
      · simp only [if_pos hempty] at h
        cases h
      · simp only [if_neg hempty] at h
        obtain rfl := Except.ok.inj h
        refine ⟨⟨records, hrecords, rfl⟩, ?_⟩
        intro row hrow
        obtain ⟨record, -, rfl⟩ := List.mem_map.mp hrow
        rw [List.length_map]
        exact List.length_mapIdx.symm

end StagedFile

/-- **Staging keeps cell text**: an accepted load into a new table stores every text of the file as
it is, just if it keeps each of them: a text that reads as an integer is plain, and another that reads
as a finite double is what Postgres prints for it. -/
theorem staged_texts_iff {U : UnicodeCase} {csv : Csv} {fromStr : String → Except String Value}
    {faults : Nat → Option (Fault Tables)} {table : String} {replace : Bool} {ctx : ToolCtx}
    {b : Backend (Session Tables)} {t : StagedTable} {file : StagedFile}
    (hload : file.Loaded D U csv fromStr faults table replace ctx b t) :
    ∃ texts, file.Texts csv fromStr texts ∧
      (t.rows = texts ↔ ∀ row ∈ texts, ∀ s, some s ∈ row → KeepsText D s) := by
  obtain ⟨plan, qualified, out, b', hplan, hq, hfresh, hrun, ht⟩ := hload
  obtain ⟨htexts, hwidth⟩ := StagedFile.texts_plan U csv fromStr hplan
  obtain ⟨-, hdb⟩ := freshLoad_accepted hq hfresh hrun
  rw [hdb, Function.update_self] at ht
  refine ⟨plan.rows, htexts, ?_⟩
  rw [← Option.some.inj ht]
  exact staged_rows_iff D hwidth

/-! ### Two product codes -/

/-- The functions of doubles, on texts that read as no double. -/
def noDoubles : Doubles where
  F := Unit
  parse _ := none
  isFinite _ := true
  ofNat _ := ()
  ofF64 _ := ()
  float8Out _ := "0"
  jsonbOut _ := ""

/-- A file with one column and one cell. -/
def oneCell (cell : String) : String := "code\n" ++ cell ++ "\n"

/-- The table of such a file. -/
theorem oneCell_loaded {cell : String}
    (htext : (Text.lines (oneCell cell)).map (Text.splitChar ',') = [["code"], [cell]])
    {staged : String} (hcell : csvCell cell = some cell)
    (hstaged : stagedText noDoubles cell = some staged) (ctx : ToolCtx) :
    (StagedFile.csv (oneCell cell).toUTF8).Loaded noDoubles asciiCase plainCsv (fun _ => .ok .null)
      (fun _ => none) "t" false ctx noTables ⟨[("code", none)], [[some staged]]⟩ := by
  obtain ⟨plan, out, b', hplan, heq, hrun, hdb⟩ :=
    plainCsv_run (spiStore noDoubles) (oneCell cell) htext (by decide) (by decide +kernel) ctx
  have hname : columnNames asciiCase ["code"] = ["code"] := by decide +kernel
  have hrow : csvRow 1 [cell] = [some cell] := by
    unfold csvRow
    rw [List.map_singleton, hcell]
    rfl
  refine ⟨plan, "\"t\"", out, b', hplan, ?_, rfl, hrun, ?_⟩
  · rw [heq]
    exact quoteTable_t
  · rw [hdb, heq, hname, ← hstaged]
    show some (LoadPlan.staged _ ⟨"load_csv", "t", ["code"], [csvRow 1 [cell]], false⟩) = _
    rw [hrow]
    rfl

/-- The texts of such a file. -/
theorem texts_oneCell {cell : String}
    (htext : (Text.lines (oneCell cell)).map (Text.splitChar ',') = [["code"], [cell]])
    {texts : List (List (Option String))}
    (h : (StagedFile.csv (oneCell cell).toUTF8).Texts plainCsv (fun _ => .ok .null) texts) :
    texts = [[csvCell cell]] := by
  obtain ⟨headers, records, hheaders, hrecords, htexts⟩ := h
  have hplain : plainRecords (oneCell cell).toUTF8 = [["code"], [cell]] := by
    rw [plainRecords_toUTF8, htext]
  have hcode : Except.ok ((plainRecords (oneCell cell).toUTF8).headD []) = Except.ok headers :=
    hheaders
  have hcell : (plainRecords (oneCell cell).toUTF8).tail.map .ok = records.map Except.ok :=
    hrecords
  rw [hplain] at hcode hcell
  have hrecords' : [[cell]] = records :=
    (List.map_inj_right fun _ _ h => Except.ok.inj h).mp hcell
  rw [htexts, ← Except.ok.inj hcode, ← hrecords']
  simp

/-- A code with a letter is kept. -/
theorem letters_kept :
    let ctx : ToolCtx := ⟨⟨0⟩, none, none⟩
    let file := StagedFile.csv (oneCell "A-007").toUTF8
    let t : StagedTable := ⟨[("code", none)], [[some "A-007"]]⟩
    file.Loaded noDoubles asciiCase plainCsv (fun _ => .ok .null) (fun _ => none) "t" false ctx
        noTables t ∧
      file.Texts plainCsv (fun _ => .ok .null) t.rows := by
  intro ctx file t
  have htext : (Text.lines (oneCell "A-007")).map (Text.splitChar ',') = [["code"], ["A-007"]] := by
    decide +kernel
  have hstaged : stagedText noDoubles "A-007" = some "A-007" := by decide +kernel
  have hload := oneCell_loaded htext (by decide +kernel) hstaged ctx
  refine ⟨hload, ?_⟩
  obtain ⟨texts, htexts, hiff⟩ := staged_texts_iff noDoubles hload
  have hkeeps : KeepsText noDoubles "A-007" := (stagedText_eq_iff _ _).mp (by decide +kernel)
  have hcell : csvCell "A-007" = some "A-007" := by decide +kernel
  have hall : ∀ row ∈ texts, ∀ s, some s ∈ row → KeepsText noDoubles s := by
    rw [texts_oneCell htext htexts, hcell]
    intro row hrow s hs
    rw [List.mem_singleton.mp hrow, List.mem_singleton, Option.some_inj] at hs
    rwa [hs]
  rwa [hiff.mpr hall]

/-- A code of digits loses its zeros. -/
theorem zeros_lost :
    let ctx : ToolCtx := ⟨⟨0⟩, none, none⟩
    let file := StagedFile.csv (oneCell "007").toUTF8
    let t : StagedTable := ⟨[("code", none)], [[some "7"]]⟩
    file.Loaded noDoubles asciiCase plainCsv (fun _ => .ok .null) (fun _ => none) "t" false ctx
        noTables t ∧
      ¬ file.Texts plainCsv (fun _ => .ok .null) t.rows := by
  intro ctx file t
  have htext : (Text.lines (oneCell "007")).map (Text.splitChar ',') = [["code"], ["007"]] := by
    decide +kernel
  refine ⟨oneCell_loaded htext (by decide +kernel) (by decide +kernel) ctx, fun htexts => ?_⟩
  exact absurd (texts_oneCell htext htexts) (by decide +kernel)

end PgSynapse
