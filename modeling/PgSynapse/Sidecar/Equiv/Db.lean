import PgSynapse.Pgrx.Equiv.SpiExecutor
import PgSynapse.Pgrx.Equiv.ToJsonb
import PgSynapse.Sidecar.Db

/-!
# The same rows in both hosts

For which query results the rows the sidecar decodes say the same as the rows the extension host
lets `to_jsonb` make, and no value that is not `NULL` becomes JSON null.
-/

namespace PgSynapse

/-! ### One column -/

/-- The types the sidecar has a Rust type for. -/
def PgType.decoded : PgType → Bool
  | .bool | .int4 | .int8 | .float8 | .numeric => true
  | .text | .varchar | .bpchar | .name | .citext | .unknown => true
  | .json | .jsonb | .uuid | .timestamptz => true
  | _ => false

/-- The values both hosts have a JSON form for, other than JSON null itself. -/
def PgValue.Plain (F : SqlFormats) : PgValue → Prop
  | .json doc => (∃ v, F.readJson doc = some v ∧ v ≠ .null) ∧ ∃ w, F.jsonbDoc doc = some (some w)
  | .float f => ∃ a, f = .finite a
  | .numeric q => ∃ a, q = .finite a ∧ (F.jsonbNumeric a).isSome
  | .timestamptz t => ∃ a, t = .finite a ∧ a ≤ F.maxUtc
  | _ => True

/-- A domain has the values of the type it is reported as. -/
theorem PgValue.fits_reported (x : PgValue) (t : PgType) : x.Fits t.reported ↔ x.Fits t := by
  induction t with
  | domain _ base ih => exact ih
  | _ => exact Iff.rfl

/-- No domain is reported. -/
theorem PgType.reported_ne_domain (t : PgType) (name : String) (base : PgType) :
    t.reported ≠ .domain name base := by
  induction t with
  | domain _ _ ih => exact ih
  | _ => simp [PgType.reported]

/-- What the sidecar makes of a value of a type that is no domain. -/
def PgValue.decoded (F : SqlFormats) (t : PgType) : PgValue → Value
  | .json doc => (F.readJson doc).getD .null
  | .bool b => .bool b
  | .int i => if t = .int8 ∨ t = .int4 then .number (.int i) else .null
  | .float f => if t = .float8 then jsonFloat f else .null
  | .numeric (.finite q) => jsonDecimal F q
  | .uuid u => .string u.text
  | .timestamptz (.finite i) => if i ≤ F.maxUtc then .string (F.rfc3339 i) else .null
  | .text s => .string s
  | _ => .null

section Column

variable {F : SqlFormats} {row : List PgColumn} {c : PgColumn} {name : String} {x : PgValue}

/-- `NULL` is shown as null. -/
theorem tryDecodeColumn_null (h : columnNamed row name = some c) (hnull : c.value = none) :
    tryDecodeColumn F row name = .null := by
  simp [tryDecodeColumn, tryGet, h, hnull]

/-- **The list of types**: at most one of the reads succeeds, and its order does not matter. -/
theorem tryDecodeColumn_value (h : columnNamed row name = some c) (hx : c.value = some x) :
    tryDecodeColumn F row name = x.decoded F c.type.reported := by
  have hfits := (x.fits_reported c.type).mpr (c.fits x hx)
  have hdomain := c.type.reported_ne_domain
  simp only [tryDecodeColumn, tryGet, h, hx, Option.bind_some]
  generalize c.type.reported = t at hfits hdomain ⊢
  cases x <;> cases t <;> first
    -- a type that does not have the value
    | exact hfits.elim
    | exact absurd rfl (hdomain _ _)
    -- the one read that is compatible with the type
    | simp [SqlxType.compatible, PgValue.decoded, PgValue.asJson, PgValue.asBool, PgValue.asInt,
        PgValue.asFloat, PgValue.asUuid, PgValue.asText]
  case numeric.numeric q => cases q <;> rfl
  case timestamptz.timestamptz i =>
    cases i with
    | finite i =>
      by_cases hmax : i ≤ F.maxUtc
      · simp [PgValue.asInstant, hmax]
      · simp [PgValue.asInstant, hmax]
    | _ => rfl

/-- A number is what a decimal reads as, if `serde_json` can read it from `jsonb`. -/
theorem jsonDecimal_same {q : Rat} {m : Number} (h : F.jsonbNumeric q = some m) :
    ∃ n, jsonDecimal F q = .number n ∧ F.sameNumber n m := by
  obtain ⟨n, hread, hsame⟩ := F.decimalText_same q m h
  exact ⟨n, by rw [jsonDecimal, hread, Option.getD_some], hsame⟩

/-- A document both hosts read is shown, unless it is JSON null. -/
theorem json_decoded_iff {doc : String} {t : PgType} :
    (PgValue.decoded F t (.json doc) ≠ .null ∧ ∃ w, PgValue.toJsonb F (.json doc) = some (some w)) ↔
      PgValue.Plain F (.json doc) := by
  simp only [PgValue.decoded, PgValue.toJsonb, PgValue.Plain]
  cases F.readJson doc with
  | none => simp
  | some v => simp

/-- A decimal is shown in both hosts when the extension host can read its `jsonb`. -/
theorem numeric_decoded_iff {q : Extended Rat} {t : PgType} :
    (PgValue.decoded F t (.numeric q) ≠ .null ∧
      ∃ w, PgValue.toJsonb F (.numeric q) = some (some w)) ↔ PgValue.Plain F (.numeric q) := by
  cases q with
  | finite q =>
    simp only [PgValue.decoded, PgValue.toJsonb, PgValue.Plain, Extended.finite.injEq,
      exists_eq_left', Option.some.injEq]
    constructor
    · rintro ⟨-, w, hw⟩
      rw [← Option.isSome_map (f := Value.number), hw, Option.isSome_some]
    · intro hsome
      obtain ⟨m, hm⟩ := Option.isSome_iff_exists.mp hsome
      obtain ⟨n, hn, -⟩ := jsonDecimal_same hm
      rw [hn, hm]
      exact ⟨nofun, .number m, rfl⟩
  | _ => simp [PgValue.decoded, PgValue.Plain]

/-- A timestamp is shown up to the last instant the sidecar has. -/
theorem timestamptz_decoded_iff {i : Extended Int} {t : PgType} :
    (PgValue.decoded F t (.timestamptz i) ≠ .null ∧
      ∃ w, PgValue.toJsonb F (.timestamptz i) = some (some w)) ↔
      PgValue.Plain F (.timestamptz i) := by
  cases i with
  | finite i => simp [PgValue.decoded, PgValue.toJsonb, PgValue.Plain]
  | _ => simp [PgValue.decoded, PgValue.Plain]

/-- **Shown, and not as null**: a value the sidecar has a type for and both hosts a form. -/
theorem decoded_ne_null_iff {t : PgType} (hfits : x.Fits t)
    (hdomain : ∀ name base, t ≠ .domain name base) :
    (x.decoded F t ≠ .null ∧ ∃ w, x.toJsonb F = some (some w)) ↔ t.decoded ∧ x.Plain F := by
  cases x with
  | json doc =>
    rw [json_decoded_iff]
    cases t <;> first | exact hfits.elim | exact absurd rfl (hdomain _ _) | simp [PgType.decoded]
  | numeric q =>
    rw [numeric_decoded_iff]
    cases t <;> first | exact hfits.elim | exact absurd rfl (hdomain _ _) | simp [PgType.decoded]
  | timestamptz i =>
    rw [timestamptz_decoded_iff]
    cases t <;> first | exact hfits.elim | exact absurd rfl (hdomain _ _) | simp [PgType.decoded]
  | float f =>
    cases t <;> first
      | exact hfits.elim
      | exact absurd rfl (hdomain _ _)
      | (cases f <;>
          simp [PgValue.decoded, PgValue.toJsonb, PgType.decoded, PgValue.Plain, jsonFloat])
  | _ =>
    cases t <;> first
      | exact hfits.elim
      | exact absurd rfl (hdomain _ _)
      | simp [PgValue.decoded, PgValue.toJsonb, PgType.decoded, PgValue.Plain]

/-- **What is shown says the same**, unless it is null. -/
theorem decoded_same {t : PgType} {w : Value} (hfits : x.Fits t) (hne : x.decoded F t ≠ .null)
    (hw : x.toJsonb F = some (some w)) : SameInfo F.toReaders (x.decoded F t) w := by
  -- by the value: what the sidecar decodes at all, both hosts read off the same column
  cases x with
  | json doc =>
    simp only [PgValue.decoded, PgValue.toJsonb] at hne hw ⊢
    cases hread : F.readJson doc with
    | none => simp [hread] at hne
    | some v => exact F.jsonbDoc_same doc v w hread hw
  | numeric q =>
    cases q with
    | finite q =>
      obtain ⟨m, hm, rfl⟩ := Option.map_eq_some_iff.mp (Option.some.inj hw)
      obtain ⟨n, hn, hsame⟩ := jsonDecimal_same hm
      simp only [PgValue.decoded, hn]
      exact .number hsame
    | _ => exact absurd rfl hne
  | timestamptz i =>
    cases i with
    | finite i =>
      obtain rfl := Option.some.inj (Option.some.inj hw)
      simp only [PgValue.decoded, ne_eq, ite_eq_right_iff, Classical.not_imp] at hne ⊢
      rw [if_pos hne.1]
      exact .instant (F.rfc3339_reads i) (F.jsonbTimestamp_reads i)
    | _ => exact absurd rfl hne
  | float f =>
    simp only [PgValue.decoded] at hne ⊢
    split at hne
    · rename_i ht
      rw [if_pos ht]
      cases f with
      | finite f =>
        obtain rfl := Option.some.inj (Option.some.inj hw)
        exact .number (F.jsonbFloat_same f)
      | _ => exact absurd rfl hne
    · exact absurd rfl hne
  | int i =>
    obtain rfl := Option.some.inj (Option.some.inj hw)
    simp only [PgValue.decoded] at hne ⊢
    split at hne
    · rename_i ht
      rw [if_pos ht]
      exact .refl _
    · exact absurd rfl hne
  | bool b =>
    obtain rfl := Option.some.inj (Option.some.inj hw)
    exact .refl _
  | uuid u =>
    obtain rfl := Option.some.inj (Option.some.inj hw)
    exact .refl _
  | text s =>
    obtain rfl := Option.some.inj (Option.some.inj hw)
    exact .refl _
  | other shown => exact absurd rfl hne

end Column

/-! ### One row -/

/-- Every column shown that is not `NULL` has a type of the sidecar's and a form in both hosts. -/
def PlainRow (F : SqlFormats) (row : List PgColumn) : Prop :=
  ∀ c ∈ row, columnNamed row c.name = some c → ∀ x, c.value = some x →
    c.type.reported.decoded ∧ x.Plain F

/-- No column shown is null unless it is `NULL`. -/
def NullsAreNull (F : SqlFormats) (row : List PgColumn) : Prop :=
  ∀ c ∈ row, columnNamed row c.name = some c → c.value ≠ none →
    tryDecodeColumn F row c.name ≠ .null

section Row

variable {F : SqlFormats} {row : List PgColumn} {c : PgColumn} {x : PgValue} {w : Value}

/-- The column of a name is shown. -/
theorem columnNamed_shown {key : String} (h : columnNamed row key = some c) :
    columnNamed row c.name = some c := by
  rw [columnNamed_name h]
  exact h

/-- What `to_jsonb` makes of a column that is not `NULL`. -/
theorem PgColumn.toJsonb_value (hx : c.value = some x) : c.toJsonb F = x.toJsonb F := by
  rw [PgColumn.toJsonb, hx]

/-- A column that is not shown as null says the same in both hosts. -/
theorem tryDecodeColumn_same {key : String} (h : columnNamed row key = some c)
    (hx : c.value = some x) (hne : tryDecodeColumn F row key ≠ .null)
    (hw : x.toJsonb F = some (some w)) : SameInfo F.toReaders (tryDecodeColumn F row key) w := by
  rw [tryDecodeColumn_value h hx] at hne ⊢
  exact decoded_same ((x.fits_reported c.type).mpr (c.fits x hx)) hne hw

/-- A shown column is not null in the sidecar and has a member in the extension host exactly when
its type and its value are plain. -/
theorem tryDecodeColumn_ne_null_iff {key : String} (h : columnNamed row key = some c)
    (hx : c.value = some x) :
    (tryDecodeColumn F row key ≠ .null ∧ ∃ w, c.toJsonb F = some (some w)) ↔
      c.type.reported.decoded ∧ x.Plain F := by
  rw [tryDecodeColumn_value h hx, PgColumn.toJsonb_value hx]
  exact decoded_ne_null_iff ((x.fits_reported c.type).mpr (c.fits x hx))
    c.type.reported_ne_domain

/-- The members of the sidecar's object. -/
theorem lookup_rowToJson (F : SqlFormats) (row : List PgColumn) (key : String) :
    Option.Rel (fun c v => v = tryDecodeColumn F row c.name) (columnNamed row key)
      ((row.map fun c => (c.name, tryDecodeColumn F row c.name)).reverse.lookup key) := by
  apply lookup_members
  rw [List.forall₂_map_right_iff, List.forall₂_same]
  exact fun c _ => ⟨rfl, rfl⟩

/-- The two objects of a row without a column `t` say the same when its shown columns are plain. -/
theorem rowToJson_same {v : Value} (ht : columnNamed row "t" = none)
    (hcell : jsonbCell F row = some (some (some v))) (hplain : PlainRow F row) :
    SameInfo F.toReaders (rowToJson F row) v := by
  obtain ⟨-, fields, rfl, hfields⟩ := jsonbCell_object ht hcell
  refine sameInfo_obj fun key => ?_
  have hextension := hfields key
  have hsidecar := lookup_rowToJson F row key
  cases hc : columnNamed row key with
  | none =>
    rw [hc] at hextension hsidecar
    rw [rel_none_left hextension, rel_none_left hsidecar]
    exact .none
  | some c =>
    rw [hc] at hextension hsidecar
    obtain ⟨w, hlookup, hw⟩ := rel_some_left hextension
    obtain ⟨v, hlookup', hv⟩ := rel_some_left hsidecar
    rw [hlookup, hlookup', hv]
    refine .some ?_
    rw [columnNamed_name hc]
    cases hx : c.value with
    | none =>
      rw [PgColumn.toJsonb, hx] at hw
      rw [tryDecodeColumn_null hc hx, ← Option.some.inj (Option.some.inj hw)]
      exact .refl _
    | some x =>
      have hok := hplain c (columnNamed_mem hc) (columnNamed_shown hc) x hx
      rw [PgColumn.toJsonb_value hx] at hw
      exact tryDecodeColumn_same hc hx ((tryDecodeColumn_ne_null_iff hc hx).mpr hok).1 hw

/-- **One row**: both hosts show the same, and no value as null, exactly when `to_jsonb` takes every
column and the shown ones are plain. -/
theorem row_same_iff (ht : columnNamed row "t" = none) :
    ((∃ v, jsonbCell F row = some (some (some v)) ∧ SameInfo F.toReaders (rowToJson F row) v) ∧
      NullsAreNull F row) ↔ (∀ c ∈ row, (c.toJsonb F).isSome) ∧ PlainRow F row := by
  constructor
  · rintro ⟨⟨v, hcell, -⟩, hnulls⟩
    obtain ⟨htaken, fields, -, hfields⟩ := jsonbCell_object ht hcell
    refine ⟨htaken, fun c hc hshown x hx => ?_⟩
    have hmember := hfields c.name
    rw [hshown] at hmember
    obtain ⟨w, -, hw⟩ := rel_some_left hmember
    have hne := hnulls c hc hshown (by rw [hx]; exact Option.some_ne_none x)
    exact (tryDecodeColumn_ne_null_iff hshown hx).mp ⟨hne, w, hw⟩
  · rintro ⟨htaken, hplain⟩
    have hmembers : ∀ key c, columnNamed row key = some c → ∃ w, c.toJsonb F = some (some w) := by
      intro key c hc
      cases hx : c.value with
      | none => exact ⟨.null, by rw [PgColumn.toJsonb, hx]⟩
      | some x =>
        have hok := hplain c (columnNamed_mem hc) (columnNamed_shown hc) x hx
        exact ((tryDecodeColumn_ne_null_iff hc hx).mpr hok).2
    obtain ⟨v, hcell⟩ := exists_jsonbCell ht htaken hmembers
    refine ⟨⟨v, hcell, rowToJson_same ht hcell hplain⟩, fun c hc hshown hvalue => ?_⟩
    obtain ⟨x, hx⟩ := Option.ne_none_iff_exists'.mp hvalue
    exact ((tryDecodeColumn_ne_null_iff hshown hx).mpr (hplain c hc hshown x hx)).1

/-- A column `t` hides the row: what is shown instead does not say the same. -/
theorem not_same_of_t {v : Value} (ht : columnNamed row "t" = some c)
    (hcell : jsonbCell F row = some (some (some v))) (hnulls : NullsAreNull F row) :
    ¬ SameInfo F.toReaders (rowToJson F row) v := by
  intro hsame
  rw [jsonbCell, ht] at hcell
  cases hx : c.value with
  | none => simp [hx] at hcell
  | some x =>
    simp only [hx, Option.map_eq_some_iff, Option.some.injEq, exists_eq_right] at hcell
    have hne : tryDecodeColumn F row "t" ≠ .null := by
      have hne := hnulls c (columnNamed_mem ht) (columnNamed_shown ht) (by rw [hx]; exact Option.some_ne_none x)
      rwa [columnNamed_name ht] at hne
    have hmember : (rowToJson F row).get? "t" = some (tryDecodeColumn F row "t") := by
      have hrel := lookup_rowToJson F row "t"
      rw [← Value.get?_obj, ht] at hrel
      obtain ⟨v, hv, rfl⟩ := rel_some_left hrel
      rw [columnNamed_name ht] at hv
      exact hv
    exact hsame.not_within hmember (tryDecodeColumn_same ht hx hne hcell)

end Row

/-! ### The result of a query -/

/-- **Both hosts show the same rows**: the extension host shows, for each row of the sidecar's, one
with the same information, and the sidecar shows no value as null. -/
structure SameRows (F : SqlFormats) (result : QueryResult)
    (shown : Except ToolError (List Value)) : Prop where
  rows : ∃ values, shown = .ok values ∧
    List.Forall₂ (SameInfo F.toReaders) (rowsToJson F result.rows) values
  nulls : ∀ row ∈ result.rows, NullsAreNull F row

/-- What makes a result the same in both hosts. -/
structure Presentable (F : SqlFormats) (result : QueryResult) : Prop where
  /-- At most one column is called `t`, and none when there are rows. -/
  unambiguous : (result.columns.countP fun c => c.1 == "t") ≤ 1
  noneCalledT : ∀ row ∈ result.rows, ∀ c ∈ row, c.name ≠ "t"
  /-- `to_jsonb` fails on no value. -/
  taken : ∀ row ∈ result.rows, ∀ c ∈ row, (c.toJsonb F).isSome
  plain : ∀ row ∈ result.rows, PlainRow F row

/-- A name no column has. -/
theorem columnNamed_eq_none {row : List PgColumn} {name : String} :
    columnNamed row name = none ↔ ∀ c ∈ row, c.name ≠ name := by
  simp [columnNamed]

section Result

variable {δ : Type} (F : SqlFormats) (result : QueryResult) (sql : String) (params : List Value)
  (executionId : Option String) (b : Backend (Session δ))

/-- What the extension host shows of a result. -/
theorem query_ok_iff {values : List Value} :
    (SpiSqlExecutor.query (fun _ _ s => (jsonbTable F result, s)) false sql params
        executionId b).1 = .ok values ↔
      (result.columns.countP fun c => c.1 == "t") ≤ 1 ∧ ∃ cells,
        result.rows.mapM (jsonbCell F) = some cells ∧
          readRows "sql_query" (cells.map (readCell F)) = .ok values := by
  rw [SpiSqlExecutor.query_eq, if_neg (by decide)]
  simp only [jsonbTable]
  by_cases hcount : 1 < result.columns.countP fun c => c.1 == "t"
  · simp [hcount, Nat.not_le_of_lt hcount]
  · rw [if_neg hcount]
    cases hcells : result.rows.mapM (jsonbCell F) with
    | none => simp
    | some cells =>
      cases hread : readRows "sql_query" (cells.map (readCell F)) with
      | error e => simp [hread]
      | ok out => simp [hread, Nat.le_of_not_lt hcount]

/-- **Both hosts show the same rows** exactly when no column is called `t`, `to_jsonb` takes every
value, and every shown column that is not `NULL` has one of the types the sidecar asks for and a
value both hosts have a form for. -/
theorem same_rows_iff :
    SameRows F result (SpiSqlExecutor.query (fun _ _ s => (jsonbTable F result, s)) false sql params
      executionId b).1 ↔ Presentable F result := by
  have hrows := @readRows_iff F "sql_query" _ (jsonbCell F)
    (fun row v => SameInfo F.toReaders (rowToJson F row) v) result.rows
  constructor
  · rintro ⟨⟨values, hvalues, hall⟩, hnulls⟩
    obtain ⟨hcount, cells, hcells, hread⟩ :=
      (query_ok_iff F result sql params executionId b).mp hvalues
    rw [rowsToJson, List.forall₂_map_left_iff] at hall
    have hcell := hrows.mp ⟨cells, values, hcells, hread, hall⟩
    have ht : ∀ row ∈ result.rows, columnNamed row "t" = none := by
      intro row hrow
      obtain ⟨v, hv, hsame⟩ := hcell row hrow
      by_contra hc
      obtain ⟨c, hc⟩ := Option.ne_none_iff_exists'.mp hc
      exact not_same_of_t hc hv (hnulls row hrow) hsame
    have hok := fun row hrow =>
      (row_same_iff (ht row hrow)).mp ⟨hcell row hrow, hnulls row hrow⟩
    exact ⟨hcount, fun row hrow => columnNamed_eq_none.mp (ht row hrow),
      fun row hrow => (hok row hrow).1, fun row hrow => (hok row hrow).2⟩
  · rintro ⟨hcount, ht, htaken, hplain⟩
    have hok := fun row hrow => (row_same_iff (columnNamed_eq_none.mpr (ht row hrow))).mpr
      ⟨htaken row hrow, hplain row hrow⟩
    obtain ⟨cells, values, hcells, hread, hall⟩ := hrows.mpr fun row hrow => (hok row hrow).1
    refine ⟨⟨values, (query_ok_iff F result sql params executionId b).mpr
      ⟨hcount, cells, hcells, hread⟩, ?_⟩, fun row hrow => (hok row hrow).2⟩
    rw [rowsToJson, List.forall₂_map_left_iff]
    exact hall

end Result

/-! ### A `smallint` -/

/-- A number in unary, a negative one after a sign. -/
def unary (t : Int) : String :=
  String.ofList (if t < 0 then '-' :: List.replicate t.natAbs '1' else List.replicate t.natAbs '1')

/-- Reading a number in unary. -/
def readUnary (s : String) : Option Int :=
  some (if s.toList.head? = some '-' then 1 - s.toList.length else s.toList.length)

theorem readUnary_unary (t : Int) : readUnary (unary t) = some t := by
  by_cases h : t < 0
  · simp only [readUnary, unary, h, if_true, String.toList_ofList, List.head?_cons,
      List.length_cons, List.length_replicate]
    congr 1
    omega
  · have hhead : (List.replicate t.natAbs '1').head? ≠ some '-' := by
      rw [List.head?_replicate]
      split
      · exact nofun
      · exact fun heq => absurd (Option.some.inj heq) (by decide)
    simp only [readUnary, unary, h, if_false, String.toList_ofList, hhead, List.length_replicate]
    congr 1
    omega

/-- A double that is written as it is held stays the same number. -/
theorem float_as_held (f : F64) : Number.float f = .float f := rfl

/-- Formats of the least kind: documents and decimals are not read, a double is written as it is
held, and an instant in unary. -/
def SqlFormats.least : SqlFormats where
  sameNumber n m := n = m
  instantOf := readUnary
  readJson _ := none
  jsonbDoc _ := none
  jsonbDoc_same _ _ _ h _ := (Option.some_ne_none _ h.symm).elim
  decimalText _ := "0"
  jsonbNumeric _ := none
  decimalText_same _ _ h := (Option.some_ne_none _ h.symm).elim
  jsonbFloat := .float
  jsonbFloat_same := float_as_held
  maxUtc := 0
  rfc3339 := unary
  rfc3339_reads := readUnary_unary
  jsonbTimestamp := unary
  jsonbTimestamp_reads := readUnary_unary
  jsonbError := "unsupported Unicode escape sequence"
  readError := "failed to parse JsonB"

/-- The `smallint` 5. -/
def smallintColumn : PgColumn where
  name := "n"
  type := .int2
  value := some (.int 5)
  fits x hx := by
    obtain rfl := Option.some.inj hx
    exact ⟨by decide, by decide⟩

/-- One row with a `smallint`. -/
def smallintResult : QueryResult where
  columns := [("n", .int2)]
  rows := [[smallintColumn]]
  shape := by simp [smallintColumn]

/-- A `smallint` is null in the sidecar and a number in the extension host. -/
theorem smallint_shown_as_null :
    rowsToJson .least smallintResult.rows = [.obj [("n", .null)]] ∧
      (SpiSqlExecutor.query (fun _ _ s => (jsonbTable .least smallintResult, s)) false
        "SELECT n FROM t" [] none ⟨(⟨(), none⟩ : Session Unit), []⟩).1 =
          .ok [.obj [("n", .number (.int 5))]] ∧
      ¬ SameRows .least smallintResult
        (SpiSqlExecutor.query (fun _ _ s => (jsonbTable .least smallintResult, s)) false
          "SELECT n FROM t" [] none ⟨(⟨(), none⟩ : Session Unit), []⟩).1 := by
  refine ⟨by decide +kernel, by decide +kernel, fun h => ?_⟩
  have hnull : tryDecodeColumn .least [smallintColumn] "n" = .null := by decide +kernel
  exact h.nulls [smallintColumn] List.mem_cons_self smallintColumn List.mem_cons_self rfl nofun
    hnull

end PgSynapse
