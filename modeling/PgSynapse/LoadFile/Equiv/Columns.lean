import PgSynapse.LoadFile.Sources

/-!
# The column names of a file

`to_column_name` joins the words of a header at underscores, or numbers the column
(`toColumnName_eq`).  Every name is one Postgres takes as it is, but two headers can get one name:
`columnNames_usable_iff` says which.
-/

namespace PgSynapse

variable (U : UnicodeCase)

/-! ### Names -/

/-- The words of a header, in lowercase. -/
def headerWords (header : String) : List (List Char) :=
  words Char.isAlphanum (U.toLowercase (Text.trim header)).toList

/-- The words of a header, joined. -/
def headerText (header : String) : List Char := ['_'].intercalate (headerWords U header)

/-- The first word of a header starts with a letter. -/
def startsWithLetter (header : String) : Bool := (headerText U header).head?.any Char.isAlpha

/-- The text of a number. -/
def numeral (n : Nat) : List Char := Nat.toDigits 10 n

/-- **The name of a column**: the words of its header, cut at 63 characters, or its number. -/
theorem toColumnName_eq (header : String) (index : Nat) :
    toColumnName U header index =
      if startsWithLetter U header = true then String.ofList ((headerText U header).take 63)
      else String.ofList ("col_".toList ++ numeral (index + 1)) := by
  have htrimmed : trimMatches '_' ((U.toLowercase (Text.trim header)).toList.foldl
      (squeezeStep Char.isAlphanum '_') []) = headerText U header :=
    trimMatches_squeeze (by decide) _
  unfold toColumnName startsWithLetter
  simp only [htrimmed]
  have hnumbered : "col_" ++ toString (index + 1) =
      String.ofList ("col_".toList ++ numeral (index + 1)) := by
    rw [String.ofList_append, String.ofList_toList, Nat.toString_eq_ofList_toDigits]
    rfl
  rw [hnumbered]
  cases headerText U header with
  | nil => rfl
  | cons c text =>
    cases hc : c.isAlpha <;> simp [hc]

/-- A name that Postgres takes as it is: 1 to 63 lowercase letters, digits and underscores, a letter
first. -/
structure ValidName (name : String) : Prop where
  length : 1 ≤ name.length ∧ name.length ≤ 63
  first : name.toList.head?.any Char.isLower = true
  chars : ∀ c ∈ name.toList, c.isLower = true ∨ c.isDigit = true ∨ c = '_'

/-- The column names of a table: no two are the same, and each is valid. -/
structure UsableNames (names : List String) : Prop where
  nodup : names.Nodup
  valid : ∀ name ∈ names, ValidName name

/-! ### Every name is valid -/

/-- The codes of the uppercase letters. -/
theorem isUpper_iff_toNat {c : Char} : c.isUpper = true ↔ 65 ≤ c.toNat ∧ c.toNat ≤ 90 := by
  unfold Char.isUpper
  rw [decide_eq_true_eq]
  exact and_congr UInt32.le_iff_toNat_le UInt32.le_iff_toNat_le

/-- The codes of the lowercase letters. -/
theorem isLower_iff_toNat {c : Char} : c.isLower = true ↔ 97 ≤ c.toNat ∧ c.toNat ≤ 122 := by
  unfold Char.isLower
  rw [Bool.and_eq_true, decide_eq_true_eq, decide_eq_true_eq]
  exact and_congr UInt32.le_iff_toNat_le UInt32.le_iff_toNat_le

/-- A letter or digit of a lowercase text. -/
theorem lower_or_digit {c : Char} (h : c.isAlphanum = true) (hupper : c.isUpper = false) :
    c.isLower = true ∨ c.isDigit = true := by
  have hcase : ((c.isUpper || c.isLower) || c.isDigit) = true := h
  simpa [hupper] using hcase

theorem mem_headerWords {header : String} {w : List Char} (h : w ∈ headerWords U header) :
    w ≠ [] ∧ ∀ c ∈ w, (c.isLower = true ∨ c.isDigit = true) ∧ c ≠ '_' := by
  obtain ⟨hne, hall⟩ := mem_words h
  refine ⟨hne, fun c hc => ⟨lower_or_digit (hall c hc) ?_, ?_⟩⟩
  · have hmem := (mem_of_mem_wordsFrom h hc).resolve_left List.not_mem_nil
    exact U.not_upper _ c hmem
  · rintro rfl
    exact absurd (hall '_' hc) (by decide)

theorem mem_intercalate {sep c : Char} {ws : List (List Char)} (h : c ∈ [sep].intercalate ws) :
    c = sep ∨ ∃ w ∈ ws, c ∈ w := by
  rcases ws with _ | ⟨w, ws⟩
  · exact absurd h List.not_mem_nil
  · rw [intercalate_cons] at h
    rcases List.mem_append.mp h with hw | hrest
    · exact .inr ⟨w, List.mem_cons_self, hw⟩
    · obtain ⟨v, hv, hc⟩ := List.mem_flatMap.mp hrest
      rcases List.mem_cons.mp hc with hsep | hc
      · exact .inl hsep
      · exact .inr ⟨v, List.mem_cons_of_mem w hv, hc⟩

/-- The characters of the joined words. -/
theorem mem_headerText {header : String} {c : Char} (h : c ∈ headerText U header) :
    c.isLower = true ∨ c.isDigit = true ∨ c = '_' := by
  rcases mem_intercalate h with hsep | ⟨w, hw, hc⟩
  · exact .inr (.inr hsep)
  · rcases ((mem_headerWords U hw).2 c hc).1 with hlower | hdigit
    · exact .inl hlower
    · exact .inr (.inl hdigit)

theorem length_numeral {n : Nat} (h : n ≤ 2 ^ 64) : (numeral n).length ≤ 20 :=
  (Nat.length_toDigits_le_iff (by decide) (by decide)).mpr (by omega)

theorem mem_numeral {n : Nat} {c : Char} (h : c ∈ numeral n) : c.isDigit = true :=
  Nat.isDigit_of_mem_toDigits (by decide) (by decide) h

theorem numeral_ne_nil (n : Nat) : numeral n ≠ [] := Nat.toDigits_ne_nil

theorem numeral_injective {m n : Nat} (h : numeral m = numeral n) : m = n := by
  rw [← @Nat.ofDigitChars_ten_toDigits m, ← @Nat.ofDigitChars_ten_toDigits n]
  exact congrArg (Nat.ofDigitChars 10 · 0) h

/-- A letter is no digit. -/
theorem isDigit_of_isAlpha {c : Char} (h : c.isAlpha = true) : c.isDigit = false := by
  by_contra hdigit
  rw [Bool.not_eq_false, Char.isDigit_iff_toNat] at hdigit
  rw [show c.isAlpha = (c.isUpper || c.isLower) from rfl, Bool.or_eq_true, isUpper_iff_toNat,
    isLower_iff_toNat] at h
  have h57 : '9'.toNat = 57 := rfl
  omega

/-- The name of a column is valid. -/
theorem toColumnName_valid (header : String) {index : Nat} (hindex : index < 2 ^ 64) :
    ValidName (toColumnName U header index) := by
  rw [toColumnName_eq]
  by_cases hletter : startsWithLetter U header = true
  · rw [if_pos hletter]
    have hall : ∀ c ∈ headerText U header, c.isLower = true ∨ c.isDigit = true ∨ c = '_' :=
      fun _ => mem_headerText U
    unfold startsWithLetter at hletter
    generalize headerText U header = text at hletter hall
    rcases text with _ | ⟨c, text⟩
    · cases hletter
    refine ⟨⟨?_, ?_⟩, ?_, ?_⟩
    · rw [String.length_ofList, List.length_take, List.length_cons]
      omega
    · rw [String.length_ofList]
      exact List.length_take_le 63 _
    · rw [String.toList_ofList]
      have halpha : c.isAlpha = true := hletter
      -- a letter is no digit and no underscore
      rcases hall c List.mem_cons_self with hlower | hdigit | rfl
      · exact hlower
      · rw [isDigit_of_isAlpha halpha] at hdigit
        cases hdigit
      · exact absurd halpha (by decide)
    · rw [String.toList_ofList]
      exact fun d hd => hall d (List.mem_of_mem_take hd)
  · rw [if_neg hletter]
    have hlen := length_numeral (n := index + 1) (by omega)
    have hcol : "col_".toList = ['c', 'o', 'l', '_'] := by decide
    refine ⟨?_, ?_, ?_⟩
    · rw [String.length_ofList, hcol, List.length_append]
      simp only [List.length_cons, List.length_nil]
      omega
    · rw [String.toList_ofList, hcol]
      rfl
    · rw [String.toList_ofList, hcol]
      intro c hc
      rcases List.mem_append.mp hc with hprefix | hdigit
      · have hletters : ['c', 'o', 'l', '_'].all
            (fun c => c.isLower || c.isDigit || c == '_') = true := by decide
        have h := List.all_eq_true.mp hletters c hprefix
        simpa [or_assoc] using h
      · exact .inr (.inl (mem_numeral hdigit))

/-! ### Two headers with one name -/

/-- Two headers make one text: they have the same words, or more than a name holds and the same
beginning. -/
def SameBeginning (header header' : String) : Prop :=
  headerWords U header = headerWords U header' ∨
    (63 ≤ (headerText U header).length ∧ 63 ≤ (headerText U header').length ∧
      (headerText U header).take 63 = (headerText U header').take 63)

/-- **Two headers clash**: the first starts with a letter, and the other does too and makes the same
text, or the other is numbered and the words of the first are `col` and its number. -/
def Clash (headers : List String) : Prop :=
  ∃ i j header header', i ≠ j ∧ headers[i]? = some header ∧ headers[j]? = some header' ∧
    startsWithLetter U header = true ∧
    if startsWithLetter U header' = true then SameBeginning U header header'
    else headerWords U header = ["col".toList, numeral (j + 1)]

theorem headerWords_ne_nil {header : String} (h : startsWithLetter U header = true) :
    headerWords U header ≠ [] := by
  intro hnil
  unfold startsWithLetter headerText at h
  rw [hnil] at h
  cases h

theorem not_mem_headerWords {header : String} : ∀ w ∈ headerWords U header, '_' ∉ w :=
  fun _ hw hmem => ((mem_headerWords U hw).2 '_' hmem).2 rfl

/-- Texts that agree up to a length are the same, or both have that length. -/
theorem take_eq_take_iff {a b : List Char} (n : Nat) :
    a.take n = b.take n ↔ a = b ∨ (n ≤ a.length ∧ n ≤ b.length ∧ a.take n = b.take n) := by
  constructor
  · intro h
    have hlen := congrArg List.length h
    rw [List.length_take, List.length_take] at hlen
    by_cases hshort : a.length < n
    · left
      rwa [List.take_of_length_le (by omega), List.take_of_length_le (by omega)] at h
    · exact .inr ⟨by omega, by omega, h⟩
  · rintro (rfl | ⟨-, -, h⟩)
    · rfl
    · exact h

/-- Two named columns. -/
theorem named_eq_iff {header header' : String} (h : startsWithLetter U header = true)
    (h' : startsWithLetter U header' = true) :
    String.ofList ((headerText U header).take 63) = String.ofList ((headerText U header').take 63) ↔
      SameBeginning U header header' := by
  have hwords : headerText U header = headerText U header' ↔
      headerWords U header = headerWords U header' := by
    constructor
    · exact words_inj (not_mem_headerWords U) (not_mem_headerWords U) (headerWords_ne_nil U h)
        (headerWords_ne_nil U h')
    · intro heq
      exact congrArg ['_'].intercalate heq
  rw [String.ofList_inj, take_eq_take_iff, hwords]
  rfl

/-- A named column and a numbered one. -/
theorem numbered_eq_iff {header : String} (h : startsWithLetter U header = true) {n : Nat}
    (hn : n ≤ 2 ^ 64) :
    String.ofList ((headerText U header).take 63) = String.ofList ("col_".toList ++ numeral n) ↔
      headerWords U header = ["col".toList, numeral n] := by
  have hjoined : ['_'].intercalate ["col".toList, numeral n] = "col_".toList ++ numeral n := by
    rw [intercalate_cons, List.flatMap_cons, List.flatMap_nil, List.append_nil,
      show "col_".toList = "col".toList ++ ['_'] by decide, List.append_assoc]
    rfl
  have hclear : ∀ w ∈ ["col".toList, numeral n], '_' ∉ w := by
    intro w hw
    rcases List.mem_cons.mp hw with rfl | hw
    · decide
    · rw [List.mem_singleton.mp hw]
      exact Nat.underscore_not_in_toDigits
  have hshort : ("col_".toList ++ numeral n).length ≤ 24 := by
    have hlen := length_numeral hn
    rw [List.length_append, show "col_".toList.length = 4 by decide]
    omega
  rw [String.ofList_inj, ← hjoined]
  constructor
  · intro htake
    have hlen := congrArg List.length htake
    rw [hjoined, List.length_take] at hlen
    rw [List.take_of_length_le (by omega)] at htake
    exact words_inj (not_mem_headerWords U) hclear (headerWords_ne_nil U h) (List.cons_ne_nil _ _)
      htake
  · intro hwords
    unfold headerText
    rw [hwords, hjoined, List.take_of_length_le (by omega)]

/-- The name of a column, by its place. -/
theorem getElem?_columnNames (headers : List String) (i : Nat) :
    (columnNames U headers)[i]? = headers[i]?.map fun h => toColumnName U h i :=
  List.getElem?_mapIdx

/-- **The column names of a file** are distinct and valid just if no two of its headers clash. -/
theorem columnNames_usable_iff (headers : List String) (hlen : headers.length < 2 ^ 64) :
    UsableNames (columnNames U headers) ↔ ¬ Clash U headers := by
  -- a place is a `usize`
  have hplace {i : Nat} {header : String} (h : headers[i]? = some header) : i < 2 ^ 64 := by
    have := (List.getElem?_eq_some_iff.mp h).1
    omega
  have hvalid : ∀ name ∈ columnNames U headers, ValidName name := by
    intro name hname
    obtain ⟨i, hi⟩ := List.getElem?_of_mem hname
    rw [getElem?_columnNames] at hi
    obtain ⟨header, hheader, rfl⟩ := Option.map_eq_some_iff.mp hi
    exact toColumnName_valid U header (hplace hheader)
  constructor
  -- two headers of one letter form, or a header that spells the number another gets, meet in one name
  · rintro husable ⟨i, j, header, header', hne, hi, hj, hletter, hclash⟩
    have hsame : toColumnName U header i = toColumnName U header' j := by
      rw [toColumnName_eq, toColumnName_eq, if_pos hletter]
      by_cases hletter' : startsWithLetter U header' = true
      · rw [if_pos hletter'] at hclash ⊢
        exact (named_eq_iff U hletter hletter').mpr hclash
      · rw [if_neg hletter'] at hclash ⊢
        exact (numbered_eq_iff U hletter (hplace hj)).mpr hclash
    have hlt : i < (columnNames U headers).length := by
      unfold columnNames
      rw [List.length_mapIdx]
      exact (List.getElem?_eq_some_iff.mp hi).1
    refine hne ((List.getElem?_inj hlt husable.nodup).mp ?_)
    rw [getElem?_columnNames, getElem?_columnNames, hi, hj]
    exact congrArg some hsame
  · intro hclear
    refine ⟨?_, hvalid⟩
    rw [List.nodup_iff_getElem?_ne_getElem?]
    intro i j hij hj heq
    rw [getElem?_columnNames, getElem?_columnNames] at heq
    unfold columnNames at hj
    rw [List.length_mapIdx] at hj
    have hi : i < headers.length := by omega
    rw [List.getElem?_eq_getElem hi, List.getElem?_eq_getElem hj] at heq
    have hname : toColumnName U headers[i] i = toColumnName U headers[j] j := Option.some.inj heq
    have hgeti := List.getElem?_eq_getElem hi
    have hgetj := List.getElem?_eq_getElem hj
    generalize headers[i] = header at hname hgeti
    generalize headers[j] = header' at hname hgetj
    rw [toColumnName_eq, toColumnName_eq] at hname
    by_cases hletter : startsWithLetter U header = true
    · rw [if_pos hletter] at hname
      refine hclear ⟨i, j, header, header', by omega, hgeti, hgetj, hletter, ?_⟩
      by_cases hletter' : startsWithLetter U header' = true
      · rw [if_pos hletter'] at hname ⊢
        exact (named_eq_iff U hletter hletter').mp hname
      · rw [if_neg hletter'] at hname ⊢
        exact (numbered_eq_iff U hletter (hplace hgetj)).mp hname
    · rw [if_neg hletter] at hname
      by_cases hletter' : startsWithLetter U header' = true
      · rw [if_pos hletter'] at hname
        refine hclear ⟨j, i, header', header, by omega, hgetj, hgeti, hletter', ?_⟩
        rw [if_neg hletter]
        exact (numbered_eq_iff U hletter' (hplace hgeti)).mp hname.symm
      · rw [if_neg hletter', String.ofList_inj] at hname
        -- two numbered columns have their places in their names
        have hnumber := numeral_injective (List.append_cancel_left hname)
        omega

/-! ### Ordinary headers -/

theorem isUpper_asciiLower (c : Char) :
    (if 'A' ≤ c && c ≤ 'Z' then Char.ofNat (c.toNat + 32) else c).isUpper = false := by
  have hlower : ∀ n < 91, 65 ≤ n → (Char.ofNat (n + 32)).isUpper = false := by decide
  have hrange : ('A' ≤ c && c ≤ 'Z') = true ↔ 65 ≤ c.toNat ∧ c.toNat ≤ 90 := by
    rw [Bool.and_eq_true, decide_eq_true_eq, decide_eq_true_eq]
    exact and_congr UInt32.le_iff_toNat_le UInt32.le_iff_toNat_le
  by_cases hupper : ('A' ≤ c && c ≤ 'Z') = true
  · rw [if_pos hupper]
    obtain ⟨hlo, hhi⟩ := hrange.mp hupper
    exact hlower c.toNat (by omega) hlo
  · rw [if_neg hupper, Bool.eq_false_iff]
    exact fun h => hupper (hrange.mpr (isUpper_iff_toNat.mp h))

theorem asciiLower_not_upper (s : String) :
    ∀ c ∈ (Text.toAsciiLowercase s).toList, c.isUpper = false := by
  intro c hc
  unfold Text.toAsciiLowercase at hc
  rw [String.toList_ofList] at hc
  obtain ⟨d, -, rfl⟩ := List.mem_map.mp hc
  exact isUpper_asciiLower d

theorem asciiLower_ascii (s : String) (_ : ∀ c ∈ s.toList, c.toNat < 128) :
    Text.toAsciiLowercase s = Text.toAsciiLowercase s := rfl

/-- Lowercasing of ASCII texts. -/
def asciiCase : UnicodeCase where
  toLowercase := Text.toAsciiLowercase
  ascii := asciiLower_ascii
  not_upper := asciiLower_not_upper

/-- Punctuation, and no header at all. -/
theorem order_columns_usable :
    let headers := ["Order #", "Total (USD)", ""]
    UsableNames (columnNames asciiCase headers) ∧ ¬ Clash asciiCase headers := by
  intro headers
  have husable : UsableNames (columnNames asciiCase headers) := by
    refine ⟨by decide +kernel, ?_⟩
    intro name hname
    obtain ⟨i, hi, rfl⟩ := List.mem_mapIdx.mp hname
    have hlen : headers.length = 3 := rfl
    exact toColumnName_valid asciiCase _ (by omega)
  exact ⟨husable, (columnNames_usable_iff asciiCase headers (by decide)).mp husable⟩

/-- Two headers that differ in case only. -/
theorem case_columns_clash : ¬ UsableNames (columnNames asciiCase ["ID", "id"]) := by
  intro husable
  exact absurd husable.nodup (by decide +kernel)

end PgSynapse
