import PgSynapse.Lib.Separators
import PgSynapse.Providers.Equiv.Formats
import PgSynapse.Serde.Equiv.Print

/-!
# Gemma's calls are read back

A reply that consists of calls in Gemma's own format is read as these calls exactly when no string of
an array holds a closing bracket (`gemma_calls_read_back_iff`): the scanner ends an array at the first
one, also within quotes.
-/

namespace PgSynapse.Extraction

/-! ### The format -/

/-- A value that is neither an array nor an object. -/
inductive Scalar where
  | null
  | bool (b : Bool)
  | number (n : Number)
  | string (s : String)
  deriving DecidableEq, Repr

namespace Scalar

/-- The JSON value. -/
def value : Scalar → Value
  | .null => .null
  | .bool b => .bool b
  | .number n => .number n
  | .string s => .string s

/-- The scalar as it is written: a string between quotes, and anything else as JSON. -/
def written : Scalar → List Char
  | .string s => qmark ++ (s.toList ++ qmark)
  | s => s.value.print

/-- A string is free of the quote and of the closing token, and anything else is read back as the
JSON it is printed as. -/
def WellWritten (ext : Extraction) : Scalar → Prop
  | .string s => ¬ qmark <:+: s.toList ∧ ¬ "<tool_call|>".toList <:+: s.toList
  | s => ext.fromStr s.value.toText = some s.value

instance (ext : Extraction) : DecidablePred (Scalar.WellWritten ext)
  | .string s =>
    inferInstanceAs (Decidable (¬ qmark <:+: s.toList ∧ ¬ "<tool_call|>".toList <:+: s.toList))
  | .null => inferInstanceAs (Decidable (ext.fromStr Value.null.toText = some .null))
  | .bool b => inferInstanceAs (Decidable (ext.fromStr (Value.bool b).toText = some (.bool b)))
  | .number n =>
    inferInstanceAs (Decidable (ext.fromStr (Value.number n).toText = some (.number n)))

end Scalar

/-- A value of an argument. -/
inductive GemmaValue where
  | scalar (s : Scalar)
  | array (items : List Scalar)
  deriving DecidableEq, Repr

namespace GemmaValue

/-- The JSON value. -/
def value : GemmaValue → Value
  | .scalar s => s.value
  | .array items => .array (items.map Scalar.value)

/-- The value as it is written. -/
def written : GemmaValue → List Char
  | .scalar s => s.written
  | .array items => '[' :: ([','].intercalate (items.map Scalar.written) ++ [']'])

/-- The scalars of a value. -/
def scalars : GemmaValue → List Scalar
  | .scalar s => [s]
  | .array items => items

/-- No string of an array holds a closing bracket. -/
def Unbracketed : GemmaValue → Prop
  | .scalar _ => True
  | .array items => ∀ s, Scalar.string s ∈ items → ']' ∉ s.toList

end GemmaValue

/-- A call of a reply. -/
structure GemmaCall where
  name : String
  args : List (String × GemmaValue)

namespace GemmaCall

/-- An argument as it is written. -/
def argText (a : String × GemmaValue) : List Char := a.1.toList ++ ':' :: a.2.written

/-- What stands between the braces. -/
def argsText (c : GemmaCall) : List Char := [','].intercalate (c.args.map argText)

/-- The call as it is written. -/
def text (c : GemmaCall) : List Char :=
  "<|tool_call>call:".toList ++ (c.name.toList ++
    ('\x7b' :: (c.argsText ++ '\x7d' :: "<tool_call|>".toList)))

/-- The arguments as an object. -/
def object (c : GemmaCall) : Value := .obj (c.args.map fun a => (a.1, a.2.value))

/-- The call is of a known tool, its keys are identifiers and its scalars are well written. -/
structure WellWritten (ext : Extraction) (toolNames : List String) (c : GemmaCall) : Prop where
  name : c.name ∈ toolNames
  keys : ∀ a ∈ c.args, Text.IsIdentifier a.1
  scalars : ∀ a ∈ c.args, ∀ s ∈ a.2.scalars, s.WellWritten ext

end GemmaCall

variable {ext : Extraction} {toolNames : List String}

/-! ### Scalars -/

theorem isDelimiter_qmark : IsDelimiter qmark := by decide

/-- What is not a string is written with letters, digits, signs and points. -/
theorem written_chars {s : Scalar} (hs : ∀ t, s ≠ .string t) : s.written ≠ [] ∧
    ∀ c ∈ s.written, c ∉ [',', ']', '[', '<', '\x7b'] ∧ Text.isWhitespace c = false := by
  have hnumber : ∀ c, Value.IsNumberChar c → c ∉ [',', ']', '[', '<', '\x7b'] ∧
      Text.isWhitespace c = false := by
    intro c hc
    refine ⟨fun hmem => ?_, Value.isNumberChar_not_white hc⟩
    exact Text.forall_mem_of_all (P := fun c => ¬ Value.IsNumberChar c) (by decide) c hmem hc
  cases s with
  | null => exact ⟨by decide, Text.forall_mem_of_all (by decide)⟩
  | bool b => cases b <;> exact ⟨by decide, Text.forall_mem_of_all (by decide)⟩
  | number n =>
    exact ⟨Value.printNumber_ne_nil n, fun c hc => hnumber c (Value.printNumber_chars n c hc)⟩
  | string t => exact absurd rfl (hs t)

theorem readJson_written {s : Scalar} (hs : s.WellWritten ext) (hstring : ∀ t, s ≠ .string t) :
    ext.readJson s.written = some s.value := by
  cases s with
  | string t => exact absurd rfl (hstring t)
  | _ => exact hs

theorem trim_written {s : Scalar} (hstring : ∀ t, s ≠ .string t) : trim s.written = s.written := by
  obtain ⟨hne, hchars⟩ := written_chars hstring
  exact (Text.tight_of_forall hne fun c hc => (hchars c hc).2).trim_eq

/-- The quoted text after a quote. -/
theorem splitOnce_quoted {s : List Char} (hs : ¬ qmark <:+: s) (r : List Char) :
    splitOnce qmark (s ++ (qmark ++ r)) = some (s, r) :=
  splitOnce_append isDelimiter_qmark hs r

theorem written_string (s : String) (r : List Char) :
    (Scalar.string s).written ++ r = qmark ++ (s.toList ++ (qmark ++ r)) := by
  simp only [Scalar.written, List.append_assoc]

theorem qmark_head : qmark = '<' :: qmark.tail := rfl

/-! ### Arrays -/

/-- A quoted item. -/
theorem gemmaArray_string (ext : Extraction) (fuel : Nat) (inner : List Char) :
    ext.gemmaArray (fuel + 1) (',' :: (qmark ++ inner)) =
      (sliceTo inner ((find inner qmark).getD (byteLen inner))).bind fun text =>
        (sliceFrom inner ((find inner qmark).getD (byteLen inner) + byteLen qmark)).bind fun a =>
          (ext.gemmaArray fuel a).map fun items => .string (String.ofList text) :: items := by
  have hdrop : (',' :: (qmark ++ inner)).dropWhile isItemGap = qmark ++ inner := by
    rw [qmark_head, List.cons_append, List.dropWhile_cons_of_pos (by decide),
      List.dropWhile_cons_of_neg (by decide)]
  have hslice : sliceFrom (qmark ++ inner) (byteLen qmark) = some inner := sliceFrom_append _ _
  rw [gemmaArray]
  simp only [hdrop]
  rw [if_neg (by rw [qmark_head]; exact List.cons_ne_nil _ _), if_pos (List.prefix_append _ _)]
  simp only [hslice, Option.bind_eq_bind, Option.bind_some, Option.map_eq_bind]
  rfl

/-- **An item** is read back. -/
theorem gemmaArray_item {s : Scalar} (hs : s.WellWritten ext) (fuel : Nat) {r : List Char}
    (hr : Separated ',' r) : ext.gemmaArray (fuel + 1) (',' :: (s.written ++ r)) =
      (ext.gemmaArray fuel r).map (s.value :: ·) := by
  by_cases hstring : ∃ t, s = .string t
  · obtain ⟨t, rfl⟩ := hstring
    have hsplit := splitOnce_quoted hs.1 r
    rw [written_string, gemmaArray_string, find_of_splitOnce hsplit, Option.getD_some,
      sliceTo_before hsplit, sliceFrom_after hsplit, Option.bind_some, Option.bind_some,
      String.ofList_toList]
    rfl
  · have hstring : ∀ t, s ≠ .string t := fun t ht => hstring ⟨t, ht⟩
    obtain ⟨hne, hchars⟩ := written_chars hstring
    have hread := readJson_written hs hstring
    have htrim := trim_written hstring
    -- a scalar that is no string is read up to the next comma or bracket, and it has neither
    have hgap : ∀ c ∈ s.written, isItemGap c = false := by
      intro c hc
      have hcomma : c ≠ ',' := fun h => (hchars c hc).1 (by simp [h])
      have hspace : c ≠ ' ' := by
        rintro rfl
        exact absurd (hchars ' ' hc).2 (by decide)
      simp [isItemGap, hcomma, hspace]
    have hend : ∀ c ∈ s.written, isItemEnd c = false := by
      intro c hc
      have hcomma : c ≠ ',' := fun h => (hchars c hc).1 (by simp [h])
      have hbracket : c ≠ ']' := fun h => (hchars c hc).1 (by simp [h])
      simp [isItemEnd, hcomma, hbracket]
    have hdrop : (',' :: (s.written ++ r)).dropWhile isItemGap = s.written ++ r := by
      rw [List.dropWhile_cons_of_pos (by decide)]
      obtain ⟨c, w, hw⟩ := List.exists_cons_of_ne_nil hne
      rw [hw, List.cons_append, List.dropWhile_cons_of_neg]
      rw [hgap c (by rw [hw]; exact List.mem_cons_self)]
      exact Bool.false_ne_true
    have hquote : ¬ qmark <+: s.written ++ r := by
      obtain ⟨c, w, hw⟩ := List.exists_cons_of_ne_nil hne
      rw [hw, List.cons_append, qmark_head, List.cons_prefix_cons]
      rintro ⟨rfl, -⟩
      exact (hchars '<' (by rw [hw]; exact List.mem_cons_self)).1 (by decide)
    have htake : (s.written ++ r).takeWhile (fun c => !isItemEnd c) = s.written := by
      rw [List.takeWhile_append_of_pos fun c hc => by rw [hend c hc]; rfl]
      rcases hr with rfl | ⟨t, rfl⟩
      · simp
      · rw [List.takeWhile_cons_of_neg (by decide), List.append_nil]
    rw [gemmaArray]
    simp only [hdrop]
    rw [if_neg (by simp [hne]), if_neg hquote]
    simp only [findChar_getD, htake, sliceTo_append, sliceFrom_append, Option.bind_eq_bind,
      Option.bind_some, htrim, hread, Option.getD_some]
    cases ext.gemmaArray fuel r <;> rfl

/-- The items of an array, each after a comma. -/
def itemsTail (items : List Scalar) : List Char := items.flatMap fun s => ',' :: s.written

theorem separated_itemsTail (items : List Scalar) {r : List Char} (hr : Separated ',' r) :
    Separated ',' (itemsTail items ++ r) := by
  cases items with
  | nil => exact hr
  | cons s items => exact .inr ⟨_, rfl⟩

/-- **The items** of an array are read back. -/
theorem gemmaArray_items {items : List Scalar} (hitems : ∀ s ∈ items, s.WellWritten ext)
    (fuel : Nat) {r : List Char} (hr : Separated ',' r) :
    ext.gemmaArray (items.length + fuel) (itemsTail items ++ r) =
      (ext.gemmaArray fuel r).map (items.map Scalar.value ++ ·) := by
  induction items with
  | nil =>
    simp [itemsTail]
  | cons s items ih =>
    obtain ⟨hs, hitems⟩ := List.forall_mem_cons.mp hitems
    have htext : itemsTail (s :: items) ++ r = ',' :: (s.written ++ (itemsTail items ++ r)) := by
      simp [itemsTail]
    have hfuel : (s :: items).length + fuel = items.length + fuel + 1 := by
      rw [List.length_cons]
      omega
    rw [htext, hfuel, gemmaArray_item hs _ (separated_itemsTail items hr), ih hitems, Option.map_map]
    rfl

/-- A comma before an item is skipped. -/
theorem gemmaArray_comma (fuel : Nat) (a : List Char) :
    ext.gemmaArray fuel (',' :: a) = ext.gemmaArray fuel a := by
  cases fuel with
  | zero => rfl
  | succ fuel =>
    rw [gemmaArray, gemmaArray, List.dropWhile_cons_of_pos (by decide)]

/-- A quote that is not closed has no slice after it. -/
theorem gemmaArray_unclosed {p : List Char} (hp : ¬ qmark <:+: p) (fuel : Nat) :
    ext.gemmaArray fuel (',' :: (qmark ++ p)) = none := by
  cases fuel with
  | zero => rfl
  | succ fuel =>
    have hlt : byteLen p < byteLen p + byteLen qmark :=
      Nat.lt_add_of_pos_right (byteLen_pos (List.cons_ne_nil _ _))
    rw [gemmaArray_string, find_eq_none (splitOnce_eq_none_iff.mpr hp), Option.getD_none,
      sliceTo_byteLen, Option.bind_some, sliceFrom_of_lt hlt, Option.bind_none]

/-- The items of an array with commas between them. -/
def itemsText (items : List Scalar) : List Char := [','].intercalate (items.map Scalar.written)

theorem itemsText_cons (s : Scalar) (items : List Scalar) :
    itemsText (s :: items) = s.written ++ itemsTail items := by
  rw [itemsText, List.map_cons, intercalate_cons, List.flatMap_map]
  rfl

theorem written_ne_nil (s : Scalar) : s.written ≠ [] := by
  by_cases hstring : ∃ t, s = .string t
  · obtain ⟨t, rfl⟩ := hstring
    exact List.cons_ne_nil _ _
  · exact (written_chars fun t ht => hstring ⟨t, ht⟩).1

theorem length_itemsTail (items : List Scalar) : 2 * items.length ≤ (itemsTail items).length := by
  induction items with
  | nil => exact le_refl 0
  | cons s items ih =>
    have hpos := List.length_pos_iff.mpr (written_ne_nil s)
    have hlen : (itemsTail (s :: items)).length =
        s.written.length + 1 + (itemsTail items).length := by
      simp only [itemsTail, List.flatMap_cons, List.length_append, List.length_cons]
    rw [hlen, List.length_cons]
    omega

/-- **An array** that is closed after its items is read back. -/
theorem gemmaArray_itemsText {items : List Scalar} (hitems : ∀ s ∈ items, s.WellWritten ext) :
    ext.gemmaArray ((itemsText items).length + 1) (itemsText items) =
      some (items.map Scalar.value) := by
  cases items with
  | nil => rfl
  | cons s items =>
    have htail : itemsTail (s :: items) = ',' :: itemsText (s :: items) := by
      rw [itemsText_cons]
      rfl
    have hlen := length_itemsTail (s :: items)
    rw [htail, List.length_cons] at hlen
    obtain ⟨k, hk⟩ : ∃ k, (itemsText (s :: items)).length + 1 = (s :: items).length + (k + 1) :=
      ⟨(itemsText (s :: items)).length - (s :: items).length, by
        rw [List.length_cons] at hlen ⊢
        omega⟩
    have h := gemmaArray_items hitems (k + 1) (.inl rfl)
    rw [List.append_nil, htail, gemmaArray_comma, ← hk] at h
    rw [h]
    simp [gemmaArray]

/-- What is written of a scalar has no closing bracket, unless it is a string with one. -/
theorem bracket_not_mem {s : Scalar} (hs : ∀ t, s = .string t → ']' ∉ t.toList) :
    ']' ∉ s.written := by
  by_cases hstring : ∃ t, s = .string t
  · obtain ⟨t, rfl⟩ := hstring
    have hquote : ']' ∉ qmark := by decide
    rw [Scalar.written, List.mem_append, List.mem_append]
    rintro (h | h | h)
    · exact hquote h
    · exact hs t rfl h
    · exact hquote h
  · intro h
    exact ((written_chars fun t ht => hstring ⟨t, ht⟩).2 ']' h).1 (by decide)

theorem bracket_not_mem_itemsTail {items : List Scalar}
    (hitems : ∀ t, Scalar.string t ∈ items → ']' ∉ t.toList) : ']' ∉ itemsTail items := by
  intro h
  obtain ⟨s, hs, h⟩ := List.mem_flatMap.mp h
  rcases List.mem_cons.mp h with h | h
  · cases h
  · exact bracket_not_mem (fun t ht => hitems t (ht ▸ hs)) h

/-- The first string with a closing bracket. -/
theorem exists_bracket {items : List Scalar}
    (h : ¬ ∀ t, Scalar.string t ∈ items → ']' ∉ t.toList) : ∃ before t p q after,
      items = before ++ Scalar.string t :: after ∧ t.toList = p ++ ']' :: q ∧ ']' ∉ p ∧
        ∀ t, Scalar.string t ∈ before → ']' ∉ t.toList := by
  induction items with
  | nil => exact absurd (fun t ht => nomatch ht) h
  | cons s items ih =>
    by_cases hs : ∃ t, s = .string t ∧ ']' ∈ t.toList
    · obtain ⟨t, rfl, ht⟩ := hs
      obtain ⟨p, q, htext, hp⟩ := List.eq_append_cons_of_mem ht
      exact ⟨[], t, p, q, items, rfl, htext, hp, fun t ht => nomatch ht⟩
    · have hs : ∀ t, s = .string t → ']' ∉ t.toList := fun t ht hmem => hs ⟨t, ht, hmem⟩
      have hrest : ¬ ∀ t, Scalar.string t ∈ items → ']' ∉ t.toList := by
        intro hitems
        refine h fun t ht => ?_
        rcases List.mem_cons.mp ht with ht | ht
        · exact hs t ht.symm
        · exact hitems t ht
      obtain ⟨before, t, p, q, after, rfl, htext, hp, hbefore⟩ := ih hrest
      refine ⟨s :: before, t, p, q, after, rfl, htext, hp, fun t ht => ?_⟩
      rcases List.mem_cons.mp ht with ht | ht
      · exact hs t ht.symm
      · exact hbefore t ht

/-- **An array with a bracket in a string** is cut at the bracket, where the quote is not closed. -/
theorem itemsText_cut {items : List Scalar} (hitems : ∀ s ∈ items, s.WellWritten ext)
    (h : ¬ ∀ t, Scalar.string t ∈ items → ']' ∉ t.toList) : ∃ arr rest,
      itemsText items = arr ++ ']' :: rest ∧ ']' ∉ arr ∧
        ext.gemmaArray (arr.length + 1) arr = none := by
  obtain ⟨before, t, p, q, after, rfl, htext, hp, hbefore⟩ := exists_bracket h
  obtain ⟨hwell, ht, -⟩ := List.forall_mem_append.mp hitems
    |>.imp_right List.forall_mem_cons.mp
  -- the items up to the bracket, after a comma
  have hcut : ∃ arr, itemsTail before ++ ',' :: (qmark ++ p) = ',' :: arr := by
    cases before <;> exact ⟨_, rfl⟩
  obtain ⟨arr, harr⟩ := hcut
  have hall : ',' :: itemsText (before ++ .string t :: after) =
      ',' :: (arr ++ ']' :: (q ++ (qmark ++ itemsTail after))) := by
    have htail : ',' :: itemsText (before ++ .string t :: after) =
        itemsTail (before ++ .string t :: after) := by
      cases before with
      | nil =>
        rw [List.nil_append, itemsText_cons]
        rfl
      | cons s before =>
        rw [List.cons_append, itemsText_cons]
        rfl
    rw [htail, ← List.cons_append, ← harr, itemsTail, List.flatMap_append, List.flatMap_cons,
      List.append_assoc]
    simp only [List.cons_append, written_string, htext, List.append_assoc, itemsTail]
  refine ⟨arr, _, (List.cons.inj hall).2, ?_, ?_⟩
  · have hmem : ']' ∉ ',' :: arr := by
      rw [← harr, List.mem_append, List.mem_cons, List.mem_append]
      rintro (h | h | h | h)
      · exact bracket_not_mem_itemsTail hbefore h
      · cases h
      · exact absurd h (by decide)
      · exact hp h
    exact fun h => hmem (List.mem_cons_of_mem _ h)
  · have hquote : ¬ qmark <:+: p := fun h => ht.1 (htext ▸ h.trans (List.prefix_append _ _).isInfix)
    have hlen := length_itemsTail before
    have hlen' := congrArg List.length harr
    rw [List.length_append, List.length_cons, List.length_cons] at hlen'
    obtain ⟨k, hk⟩ : ∃ k, arr.length + 1 = before.length + k :=
      ⟨arr.length + 1 - before.length, by omega⟩
    rw [← gemmaArray_comma, ← harr, hk, gemmaArray_items hwell k (.inr ⟨_, rfl⟩),
      gemmaArray_unclosed hquote, Option.map_none]

/-! ### Arguments -/

/-- One argument, from its key on. -/
theorem gemmaArgs_key {rem key v : List Char}
    (h : splitOnce ":".toList (rem.dropWhile isArgGap) = some (key, v)) (fuel : Nat)
    (map : List (String × Value)) :
    ext.gemmaArgs (fuel + 1) rem map =
      if qmark <+: v then
        (sliceFrom v (byteLen qmark)).bind fun inner =>
          (sliceTo inner ((find inner qmark).getD (byteLen inner))).bind fun text =>
            (sliceFrom inner ((find inner qmark).getD (byteLen inner) + byteLen qmark)).bind
              fun rem => ext.gemmaArgs fuel rem
                (Value.insertField (String.ofList (trim key)) (.string (String.ofList text)) map)
      else if "[".toList <+: v then
        (find v "]".toList).elim (some map) fun arrEnd => (slice v 1 arrEnd).bind fun arrStr =>
          (ext.gemmaArray (arrStr.length + 1) arrStr).bind fun items =>
            (sliceFrom v (arrEnd + 1)).bind fun rem => ext.gemmaArgs fuel rem
              (Value.insertField (String.ofList (trim key)) (.array items) map)
      else
        (sliceTo v ((find v ",".toList).getD (byteLen v))).bind fun text =>
          (sliceFrom v ((find v ",".toList).getD (byteLen v))).bind fun rem =>
            ext.gemmaArgs fuel rem
              (Value.insertField (String.ofList (trim key)) (ext.jsonOrText (trim text)) map) := by
  have hne : rem.dropWhile isArgGap ≠ [] := by
    intro hnil
    rw [hnil] at h
    cases h
  have hone : byteLen ":".toList = 1 := rfl
  have hslice := sliceFrom_after h
  rw [hone] at hslice
  rw [gemmaArgs]
  simp only [if_neg hne, find_of_splitOnce h, sliceTo_before h, hslice, Option.bind_eq_bind,
    Option.bind_some]
  cases find v "]".toList <;> rfl

section Values

variable {rem key r : List Char} (fuel : Nat) (map : List (String × Value))

/-- A quoted value. -/
theorem gemmaArgs_string {t : String} (ht : ¬ qmark <:+: t.toList)
    (h : splitOnce ":".toList (rem.dropWhile isArgGap) =
      some (key, (Scalar.string t).written ++ r)) :
    ext.gemmaArgs (fuel + 1) rem map =
      ext.gemmaArgs fuel r (Value.insertField (String.ofList (trim key)) (.string t) map) := by
  rw [written_string] at h
  have hsplit := splitOnce_quoted ht r
  have hslice : sliceFrom (qmark ++ (t.toList ++ (qmark ++ r))) (byteLen qmark) =
      some (t.toList ++ (qmark ++ r)) := sliceFrom_append _ _
  rw [gemmaArgs_key h, if_pos (List.prefix_append _ _), hslice, Option.bind_some,
    find_of_splitOnce hsplit, Option.getD_some, sliceTo_before hsplit, sliceFrom_after hsplit,
    Option.bind_some, Option.bind_some, String.ofList_toList]

/-- A value that is neither quoted nor an array. -/
theorem gemmaArgs_bare {s : Scalar} (hs : s.WellWritten ext) (hstring : ∀ t, s ≠ .string t)
    (hr : Separated ',' r)
    (h : splitOnce ":".toList (rem.dropWhile isArgGap) = some (key, s.written ++ r)) :
    ext.gemmaArgs (fuel + 1) rem map =
      ext.gemmaArgs fuel r (Value.insertField (String.ofList (trim key)) s.value map) := by
  obtain ⟨hne, hchars⟩ := written_chars hstring
  have hread := readJson_written hs hstring
  have htrim := trim_written hstring
  have hcomma : ',' ∉ s.written := fun h => (hchars ',' h).1 (by decide)
  have hclose : sliceTo (s.written ++ r) ((find (s.written ++ r) ",".toList).getD
        (byteLen (s.written ++ r))) = some s.written ∧
      sliceFrom (s.written ++ r) ((find (s.written ++ r) ",".toList).getD
        (byteLen (s.written ++ r))) = some r := by
    rcases hr with rfl | ⟨t, rfl⟩
    · have hnone : splitOnce ",".toList s.written = none :=
        splitOnce_eq_none_iff.mpr fun h => hcomma (h.subset (List.mem_singleton_self ','))
      rw [List.append_nil, find_eq_none hnone, Option.getD_none]
      exact ⟨sliceTo_byteLen _, sliceFrom_byteLen _⟩
    · have hsplit : splitOnce ",".toList (s.written ++ ',' :: t) = some (s.written, t) :=
        splitOnce_singleton hcomma t
      rw [find_of_splitOnce hsplit, Option.getD_some]
      exact ⟨sliceTo_append _ _, sliceFrom_append _ _⟩
  obtain ⟨c, w, hw⟩ := List.exists_cons_of_ne_nil hne
  have hc := (hchars c (by rw [hw]; exact List.mem_cons_self)).1
  have hquote : ¬ qmark <+: s.written ++ r := by
    rw [hw, List.cons_append, qmark_head, List.cons_prefix_cons]
    rintro ⟨rfl, -⟩
    exact hc (by decide)
  have hbracket : ¬ "[".toList <+: s.written ++ r := by
    rw [hw, List.cons_append]
    rintro ⟨t, ht⟩
    obtain ⟨rfl, -⟩ := List.cons.inj ht
    exact hc (by decide)
  rw [gemmaArgs_key h, if_neg hquote, if_neg hbracket, hclose.1, hclose.2, Option.bind_some,
    Option.bind_some, htrim, jsonOrText, hread, Option.getD_some]

/-- An array, up to the first closing bracket. -/
theorem gemmaArgs_array {arr : List Char} (harr : ']' ∉ arr)
    (h : splitOnce ":".toList (rem.dropWhile isArgGap) = some (key, '[' :: (arr ++ ']' :: r))) :
    ext.gemmaArgs (fuel + 1) rem map =
      (ext.gemmaArray (arr.length + 1) arr).bind fun items =>
        ext.gemmaArgs fuel r (Value.insertField (String.ofList (trim key)) (.array items) map) := by
  have hquote : ¬ qmark <+: '[' :: (arr ++ ']' :: r) := by
    rw [qmark_head, List.cons_prefix_cons]
    exact fun h => absurd h.1 (by decide)
  have hopen : "[".toList <+: '[' :: (arr ++ ']' :: r) := List.prefix_append ['['] _
  have hsplit : splitOnce "]".toList ('[' :: (arr ++ ']' :: r)) = some ('[' :: arr, r) := by
    have hmem : ']' ∉ '[' :: arr := by simpa using harr
    exact splitOnce_singleton hmem r
  have hslice : slice ('[' :: (arr ++ ']' :: r)) 1 (byteLen ('[' :: arr)) = some arr := by
    have h := @slice_between _ _ ['['] r arr hsplit
    exact h
  have hone : byteLen "]".toList = 1 := rfl
  have hafter := sliceFrom_after hsplit
  rw [hone] at hafter
  rw [gemmaArgs_key h, if_neg hquote, if_pos hopen, find_of_splitOnce hsplit, Option.elim_some,
    hslice, Option.bind_some]
  simp only [hafter, Option.bind_some]

end Values

/-- The key of a written argument, after a comma. -/
theorem splitOnce_argText {a : String × GemmaValue} (hkey : Text.IsIdentifier a.1)
    (r : List Char) :
    splitOnce ":".toList ((',' :: (GemmaCall.argText a ++ r)).dropWhile isArgGap) =
      some (a.1.toList, a.2.written ++ r) := by
  have hcolon : ':' ∉ a.1.toList := hkey.not_mem (by decide)
  have hdrop : (',' :: (GemmaCall.argText a ++ r)).dropWhile isArgGap =
      a.1.toList ++ ':' :: (a.2.written ++ r) := by
    rw [List.dropWhile_cons_of_pos (by decide), GemmaCall.argText, List.append_assoc,
      List.cons_append]
    obtain ⟨c, w, hw⟩ := List.exists_cons_of_ne_nil hkey.1
    have hc := hkey.2 c (by rw [hw]; exact List.mem_cons_self)
    rw [hw, List.cons_append, List.dropWhile_cons_of_neg]
    intro hgap
    simp only [isArgGap, List.mem_cons, List.not_mem_nil, or_false, decide_eq_true_eq] at hgap
    rcases hgap with rfl | rfl | rfl | rfl <;> exact absurd hc (by decide)
  rw [hdrop]
  exact splitOnce_singleton hcolon _

theorem trim_key {key : String} (hkey : Text.IsIdentifier key) :
    String.ofList (trim key.toList) = key := by
  rw [trim, hkey.tight.trim_eq, String.ofList_toList]

/-- **An argument**: a bracket in a string of an array panics, and otherwise the value is read
back. -/
theorem gemmaArgs_arg {a : String × GemmaValue} (hkey : Text.IsIdentifier a.1)
    (hscalars : ∀ s ∈ a.2.scalars, s.WellWritten ext) (fuel : Nat) {r : List Char} (hr : Separated ',' r)
    (map : List (String × Value)) :
    (a.2.Unbracketed → ext.gemmaArgs (fuel + 1) (',' :: (GemmaCall.argText a ++ r)) map =
      ext.gemmaArgs fuel r (Value.insertField a.1 a.2.value map)) ∧
    (¬ a.2.Unbracketed →
      ext.gemmaArgs (fuel + 1) (',' :: (GemmaCall.argText a ++ r)) map = none) := by
  have h := splitOnce_argText hkey r
  have hname := trim_key hkey
  obtain ⟨key, value⟩ := a
  cases value with
  | scalar s =>
    refine ⟨fun _ => ?_, fun h => absurd trivial h⟩
    have hs := hscalars s List.mem_cons_self
    by_cases hstring : ∃ t, s = .string t
    · obtain ⟨t, rfl⟩ := hstring
      rw [gemmaArgs_string fuel map hs.1 h, hname]
      rfl
    · rw [gemmaArgs_bare fuel map hs (fun t ht => hstring ⟨t, ht⟩) hr h, hname]
      rfl
  | array items =>
    have hscalars : ∀ s ∈ items, s.WellWritten ext := hscalars
    have hwritten : ∀ r, GemmaValue.written (.array items) ++ r =
        '[' :: (itemsText items ++ ']' :: r) := by
      simp [GemmaValue.written, itemsText]
    constructor
    · intro hitems
      have hmem : ']' ∉ itemsText items := by
        cases items with
        | nil => exact List.not_mem_nil
        | cons s items =>
          have htail := bracket_not_mem_itemsTail hitems
          rw [itemsText_cons]
          exact fun h => htail (List.mem_cons_of_mem _ h)
      simp only [hwritten] at h
      rw [gemmaArgs_array fuel map hmem h, gemmaArray_itemsText hscalars, Option.bind_some, hname]
      rfl
    · intro hitems
      -- the array is cut at the first bracket, inside one of its strings
      obtain ⟨arr, rest, htext, hmem, hnone⟩ := itemsText_cut hscalars hitems
      simp only [hwritten] at h
      rw [htext, List.append_assoc, List.cons_append] at h
      rw [gemmaArgs_array fuel map hmem h, hnone, Option.bind_none]

/-- The arguments, each after a comma. -/
def argsTail (args : List (String × GemmaValue)) : List Char :=
  args.flatMap fun a => ',' :: GemmaCall.argText a

theorem separated_argsTail (args : List (String × GemmaValue)) : Separated ',' (argsTail args) := by
  cases args with
  | nil => exact .inl rfl
  | cons a args => exact .inr ⟨_, rfl⟩

/-- The arguments inserted one after the other. -/
def insertArgs (args : List (String × GemmaValue)) (map : List (String × Value)) :
    List (String × Value) :=
  args.foldl (fun map a => Value.insertField a.1 a.2.value map) map

/-- **The arguments** are read back, unless a string of an array has a closing bracket. -/
theorem gemmaArgs_args {args : List (String × GemmaValue)}
    (hkeys : ∀ a ∈ args, Text.IsIdentifier a.1)
    (hscalars : ∀ a ∈ args, ∀ s ∈ a.2.scalars, s.WellWritten ext) (fuel : Nat)
    (map : List (String × Value)) :
    ((∀ a ∈ args, a.2.Unbracketed) →
      ext.gemmaArgs (args.length + (fuel + 1)) (argsTail args) map =
        some (insertArgs args map)) ∧
    ((¬ ∀ a ∈ args, a.2.Unbracketed) →
      ext.gemmaArgs (args.length + (fuel + 1)) (argsTail args) map = none) := by
  induction args generalizing map with
  | nil =>
    refine ⟨fun _ => ?_, fun h => absurd (List.forall_mem_nil _) h⟩
    simp [argsTail, insertArgs, gemmaArgs]
  | cons a args ih =>
    obtain ⟨hkey, hkeys⟩ := List.forall_mem_cons.mp hkeys
    obtain ⟨hscalar, hscalars⟩ := List.forall_mem_cons.mp hscalars
    obtain ⟨hread, hpanic⟩ :=
      gemmaArgs_arg hkey hscalar (args.length + (fuel + 1)) (separated_argsTail args) map
    have htext : argsTail (a :: args) = ',' :: (GemmaCall.argText a ++ argsTail args) := rfl
    have hfuel : (a :: args).length + (fuel + 1) = args.length + (fuel + 1) + 1 := by
      rw [List.length_cons]
      omega
    obtain ⟨hok, hnone⟩ := ih hkeys hscalars (Value.insertField a.1 a.2.value map)
    rw [htext, hfuel]
    by_cases ha : a.2.Unbracketed
    · rw [hread ha]
      constructor
      · intro h
        exact hok (List.forall_mem_cons.mp h).2
      · intro h
        exact hnone fun hargs => h (List.forall_mem_cons.mpr ⟨ha, hargs⟩)
    · refine ⟨fun h => absurd (List.forall_mem_cons.mp h).1 ha, fun _ => hpanic ha⟩

/-- A comma before an argument is skipped. -/
theorem gemmaArgs_comma (fuel : Nat) (rem : List Char) (map : List (String × Value)) :
    ext.gemmaArgs fuel (',' :: rem) map = ext.gemmaArgs fuel rem map := by
  cases fuel with
  | zero => rfl
  | succ fuel =>
    rw [gemmaArgs, gemmaArgs, List.dropWhile_cons_of_pos (by decide)]

theorem argsText_cons {c : GemmaCall} {a : String × GemmaValue} {args : List (String × GemmaValue)}
    (h : c.args = a :: args) : c.argsText = GemmaCall.argText a ++ argsTail args := by
  rw [GemmaCall.argsText, h, List.map_cons, intercalate_cons, List.flatMap_map]
  rfl

theorem length_argsTail (args : List (String × GemmaValue)) :
    2 * args.length ≤ (argsTail args).length := by
  induction args with
  | nil => exact le_refl 0
  | cons a args ih =>
    have hlen : (argsTail (a :: args)).length =
        (GemmaCall.argText a).length + 1 + (argsTail args).length := by
      simp only [argsTail, List.flatMap_cons, List.length_append, List.length_cons]
    have harg : 1 ≤ (GemmaCall.argText a).length := by
      rw [GemmaCall.argText, List.length_append, List.length_cons]
      omega
    rw [hlen, List.length_cons]
    omega

/-- **What stands between the braces** of a call is read back, or panics. -/
theorem gemmaArgs_argsText {c : GemmaCall} (hc : c.WellWritten ext toolNames) :
    ((∀ a ∈ c.args, a.2.Unbracketed) → ext.gemmaArgs (c.argsText.length + 1) c.argsText [] =
      some (insertArgs c.args [])) ∧
    ((¬ ∀ a ∈ c.args, a.2.Unbracketed) →
      ext.gemmaArgs (c.argsText.length + 1) c.argsText [] = none) := by
  cases h : c.args with
  | nil =>
    have htext : c.argsText = [] := by
      rw [GemmaCall.argsText, h]
      rfl
    rw [htext]
    exact ⟨fun _ => rfl, fun h => absurd (List.forall_mem_nil _) h⟩
  | cons a args =>
    have htail : argsTail (a :: args) = ',' :: c.argsText := by
      rw [argsText_cons h]
      rfl
    have hlen := length_argsTail (a :: args)
    rw [htail, List.length_cons] at hlen
    obtain ⟨k, hk⟩ : ∃ k, c.argsText.length + 1 = (a :: args).length + (k + 1) :=
      ⟨c.argsText.length - (a :: args).length, by
        rw [List.length_cons] at hlen ⊢
        omega⟩
    have hrun := gemmaArgs_args (h ▸ hc.keys) (h ▸ hc.scalars) k []
    rwa [htail, gemmaArgs_comma, ← hk] at hrun

/-! ### The closing token -/

theorem isDelimiter_gemmaOpen : IsDelimiter "<|tool_call>call:".toList := by decide

theorem isDelimiter_gemmaClose : IsDelimiter "<tool_call|>".toList := by decide

theorem gemmaClose_eq : "<tool_call|>".toList = '<' :: "tool_call|>".toList := by decide

theorem clear_qmark : Clear "<tool_call|>".toList qmark := by
  intro r h
  rw [qmark_head, List.cons_append] at h
  rw [gemmaClose_eq] at h ⊢
  rcases List.infix_cons_iff.mp h with hpre | hrest
  · have hsecond := (List.cons_prefix_cons.mp hpre).2
    exact absurd (List.cons_prefix_cons.mp hsecond).1 (by decide)
  · exact infix_of_infix_append (by decide) hrest

/-- A scalar does not hold the closing token, and does not start one. -/
theorem clear_written {s : Scalar} (hs : s.WellWritten ext) :
    Clear "<tool_call|>".toList s.written := by
  by_cases hstring : ∃ t, s = .string t
  · obtain ⟨t, rfl⟩ := hstring
    refine clear_qmark.append fun r h => ?_
    rw [List.append_assoc, qmark_head, List.cons_append] at h
    have hfirst : '<' ∉ ("<tool_call|>".toList).tail := by decide
    rcases infix_or_infix hfirst h with h | h
    · exact absurd h hs.2
    · exact clear_qmark r h
  · rw [gemmaClose_eq]
    exact clear_of_not_mem fun h => ((written_chars fun t ht => hstring ⟨t, ht⟩).2 '<' h).1 (by decide)

theorem clear_char {c : Char} (hc : c ≠ '<') : Clear "<tool_call|>".toList [c] := by
  rw [gemmaClose_eq]
  exact clear_of_not_mem (by simpa using hc.symm)

theorem clear_gemmaValue {v : GemmaValue} (hv : ∀ s ∈ v.scalars, s.WellWritten ext) :
    Clear "<tool_call|>".toList v.written := by
  cases v with
  | scalar s => exact clear_written (hv s List.mem_cons_self)
  | array items =>
    have hitems : Clear "<tool_call|>".toList (itemsText items) :=
      Clear.intercalate (clear_char (by decide)) fun w hw => by
        obtain ⟨s, hs, rfl⟩ := List.mem_map.mp hw
        exact clear_written (hv s hs)
    exact (clear_char (by decide)).append (hitems.append (clear_char (by decide)))

theorem clear_argText {a : String × GemmaValue} (hkey : Text.IsIdentifier a.1)
    (hscalars : ∀ s ∈ a.2.scalars, s.WellWritten ext) :
    Clear "<tool_call|>".toList (GemmaCall.argText a) := by
  have hname : Clear "<tool_call|>".toList a.1.toList := by
    rw [gemmaClose_eq]
    exact clear_of_not_mem (hkey.not_mem (by decide))
  exact hname.append ((clear_char (c := ':') (by decide)).append (clear_gemmaValue hscalars))

/-- The closing token of a call is the first one. -/
theorem not_close_isInfix {c : GemmaCall} (hc : c.WellWritten ext toolNames) :
    ¬ "<tool_call|>".toList <:+: '\x7b' :: (c.argsText ++ ['\x7d']) := by
  have hargs : Clear "<tool_call|>".toList c.argsText :=
    Clear.intercalate (clear_char (by decide)) fun w hw => by
      obtain ⟨a, ha, rfl⟩ := List.mem_map.mp hw
      exact clear_argText (hc.keys a ha) (hc.scalars a ha)
  have hclear : Clear "<tool_call|>".toList ('\x7b' :: (c.argsText ++ ['\x7d'])) :=
    (clear_char (by decide)).append (hargs.append (clear_char (by decide)))
  exact hclear.not_infix (by decide)

/-! ### Calls -/

variable (ext) in
/-- A text that is read as a JSON object starts with the object's brace. -/
def OpensObjects : Prop :=
  ∀ s fields, ext.readJson (trim s) = some (.object fields) → (trim s).head? = some '\x7b'

/-- What stands between the braces is no JSON. -/
theorem readJson_argsText (hobjects : ext.OpensObjects) {c : GemmaCall}
    (hc : c.WellWritten ext toolNames) (fields : List (String × Value)) :
    ext.readJson (trim c.argsText) ≠ some (.object fields) := by
  intro hread
  have hhead := hobjects _ _ hread
  cases h : c.args with
  | nil =>
    have htext : c.argsText = [] := by
      rw [GemmaCall.argsText, h]
      rfl
    rw [htext] at hhead
    exact absurd hhead (by decide)
  | cons a args =>
    have hkey := hc.keys a (by rw [h]; exact List.mem_cons_self)
    obtain ⟨d, w, hw⟩ := List.exists_cons_of_ne_nil hkey.1
    have hd := hkey.2 d (by rw [hw]; exact List.mem_cons_self)
    obtain ⟨w', htext⟩ : ∃ w', c.argsText = d :: w' := by
      rw [argsText_cons h, GemmaCall.argText, hw]
      exact ⟨_, rfl⟩
    have hpre := Text.trim_prefix (s := w') (Text.isWhitespace_of_isIdentifierChar hd)
    rw [htext, trim] at hhead
    generalize (Text.trim (String.ofList (d :: w'))).toList = t at hhead hpre
    cases t with
    | nil => cases hhead
    | cons e t =>
      obtain rfl := Option.some.inj hhead
      obtain ⟨rfl, -⟩ := List.cons_prefix_cons.mp hpre
      exact absurd hd (by decide)

/-- **The arguments of a call** are read back, or panic. -/
theorem gemmaArgsOf_argsText (hobjects : ext.OpensObjects) {c : GemmaCall}
    (hc : c.WellWritten ext toolNames) :
    ((∀ a ∈ c.args, a.2.Unbracketed) → ext.gemmaArgsOf c.argsText =
      some (insertArgs c.args [])) ∧
    ((¬ ∀ a ∈ c.args, a.2.Unbracketed) → ext.gemmaArgsOf c.argsText = none) := by
  have hslow : ext.gemmaArgsOf c.argsText =
      ext.gemmaArgs (c.argsText.length + 1) c.argsText [] := by
    rw [gemmaArgsOf]
    split
    · rename_i fields hread
      exact absurd hread (readJson_argsText hobjects hc fields)
    · rfl
  rw [hslow]
  exact gemmaArgs_argsText hc

namespace GemmaCall

/-- The name has no brace, and no white space around it. -/
def PlainName (c : GemmaCall) : Prop := '\x7b' ∉ c.name.toList ∧ Text.trim c.name = c.name

/-- No string of an array of the call holds a closing bracket. -/
def Unbracketed (c : GemmaCall) : Prop := ∀ a ∈ c.args, a.2.Unbracketed

end GemmaCall

theorem GemmaCall.text_append (c : GemmaCall) (rest : List Char) :
    c.text ++ rest = "<|tool_call>call:".toList ++ (c.name.toList ++
      '\x7b' :: (c.argsText ++ '\x7d' :: ("<tool_call|>".toList ++ rest))) := by
  unfold GemmaCall.text
  generalize "<|tool_call>call:".toList = openToken
  generalize "<tool_call|>".toList = closeToken
  simp only [List.append_assoc, List.cons_append]

/-- The braces around the arguments are stripped. -/
theorem stripBraces_argsText (s : List Char) :
    stripBraces (trim ('\x7b' :: (s ++ ['\x7d']))) = s := by
  have htrim : trim ('\x7b' :: (s ++ ['\x7d'])) = '\x7b' :: (s ++ ['\x7d']) :=
    (Text.tight_between (by decide) (by decide) s).trim_eq
  rw [htrim, stripBraces, List.getLast?_concat, if_pos rfl, List.dropLast_concat]

/-- The places at which a call is split. -/
theorem GemmaCall.splits {c : GemmaCall} (hc : c.WellWritten ext toolNames) (hname : c.PlainName)
    (rest : List Char) : ∃ after args,
      splitOnce "<|tool_call>call:".toList (c.text ++ rest) = some ([], after) ∧
      splitOnce "\x7b".toList after = some (c.name.toList, args) ∧
      splitOnce "<tool_call|>".toList ('\x7b' :: args) =
        some ('\x7b' :: (c.argsText ++ ['\x7d']), rest) ∧
      String.ofList (trim c.name.toList) ∈ toolNames := by
  obtain ⟨hbrace, htrim⟩ := hname
  refine ⟨_, _, ?_, splitOnce_singleton hbrace
    (c.argsText ++ '\x7d' :: ("<tool_call|>".toList ++ rest)), ?_, ?_⟩
  · rw [GemmaCall.text_append]
    exact splitOnce_append isDelimiter_gemmaOpen
      (fun h => absurd (List.infix_nil.mp h) (by decide)) _
  · have h := splitOnce_append isDelimiter_gemmaClose (not_close_isInfix hc) rest
    generalize "<tool_call|>".toList = closeToken at h ⊢
    rw [List.cons_append, List.append_assoc] at h
    exact h
  · simp only [trim, String.ofList_toList, htrim]
    exact hc.name

/-- **One call** of the loop. -/
theorem gemmaLoop_call {c : GemmaCall} (hc : c.WellWritten ext toolNames) (hname : c.PlainName)
    (fuel : Nat) (rest : List Char) (results : List ToolCall) :
    ext.gemmaLoop toolNames (fuel + 1) (c.text ++ rest) results =
      (ext.gemmaArgsOf c.argsText).bind fun args => ext.gemmaLoop toolNames fuel rest
        (results ++ [⟨ext.callId results.length, c.name, .object args⟩]) := by
  obtain ⟨after, args, hopen, hsplit, hclose, htool⟩ := GemmaCall.splits hc hname rest
  have htrim : String.ofList (trim c.name.toList) = c.name := by
    simp only [trim, String.ofList_toList, hname.2]
  have hbrace : "\x7b".toList ++ args = '\x7b' :: args := rfl
  have hlt : byteLen ('\x7b' :: (c.argsText ++ ['\x7d'])) < byteLen ('\x7b' :: args) := by
    have hle := byteLen_pattern_le hclose
    have hpos : 0 < byteLen "<tool_call|>".toList := by decide
    omega
  rw [htrim] at htool
  rw [gemmaLoop, find_of_splitOnce hopen]
  simp only [sliceFrom_after hopen, Option.bind_eq_bind, Option.bind_some]
  rw [find_of_splitOnce hsplit]
  simp only [sliceTo_before hsplit, sliceFrom_at hsplit, Option.bind_some, htrim, if_pos htool,
    hbrace]
  rw [find_of_splitOnce hclose, Option.getD_some, sliceTo_before hclose, Option.bind_some,
    stripBraces_argsText]
  simp only [if_pos hlt, sliceFrom_after hclose, Option.bind_some]

/-- A call with a plain name is found. -/
theorem gemmaCalls_text {c : GemmaCall} (hc : c.WellWritten ext toolNames) (hname : c.PlainName)
    (rest : List Char) :
    gemmaCalls toolNames (c.text ++ rest) = c.argsText :: gemmaCalls toolNames rest := by
  obtain ⟨after, args, hopen, hsplit, hclose, htool⟩ := GemmaCall.splits hc hname rest
  rw [gemmaCalls_cons hopen hsplit htool hclose, stripBraces_argsText]

theorem GemmaCall.object_eq (c : GemmaCall) : c.object = .object (insertArgs c.args []) := by
  rw [GemmaCall.object, Value.obj, List.foldl_map]
  rfl

/-- **The loop** over written calls reads them back, or panics at the first bracket in a string. -/
theorem gemmaLoop_calls (hobjects : ext.OpensObjects) {calls : List GemmaCall}
    (hcalls : ∀ c ∈ calls, c.WellWritten ext toolNames) (hnames : ∀ c ∈ calls, c.PlainName)
    (fuel : Nat) (results : List ToolCall) :
    ((∀ c ∈ calls, c.Unbracketed) → ∃ new,
      ext.gemmaLoop toolNames (calls.length + (fuel + 1)) (calls.flatMap GemmaCall.text) results =
        some (results ++ new) ∧
      (new.map fun tc => (tc.name, tc.args)) = calls.map fun c => (c.name, c.object)) ∧
    ((¬ ∀ c ∈ calls, c.Unbracketed) →
      ext.gemmaLoop toolNames (calls.length + (fuel + 1)) (calls.flatMap GemmaCall.text) results =
        none) := by
  induction calls generalizing results with
  | nil =>
    refine ⟨fun _ => ⟨[], ?_, rfl⟩, fun h => absurd (List.forall_mem_nil _) h⟩
    rw [List.append_nil, List.flatMap_nil]
    rfl
  | cons c calls ih =>
    obtain ⟨hc, hcalls⟩ := List.forall_mem_cons.mp hcalls
    obtain ⟨hname, hnames⟩ := List.forall_mem_cons.mp hnames
    obtain ⟨hread, hpanic⟩ := gemmaArgsOf_argsText hobjects hc
    have hfuel : (c :: calls).length + (fuel + 1) = calls.length + (fuel + 1) + 1 := by
      rw [List.length_cons]
      omega
    rw [List.flatMap_cons, hfuel, gemmaLoop_call hc hname]
    by_cases hargs : c.Unbracketed
    · rw [hread hargs, Option.bind_some]
      obtain ⟨hok, hnone⟩ := ih hcalls hnames
        (results ++ [⟨ext.callId results.length, c.name, .object (insertArgs c.args [])⟩])
      constructor
      · intro h
        obtain ⟨new, hnew, hmap⟩ := hok (List.forall_mem_cons.mp h).2
        refine ⟨_ :: new, by rw [hnew, List.append_assoc, List.singleton_append], ?_⟩
        rw [List.map_cons, List.map_cons, hmap, c.object_eq]
      · intro h
        exact hnone fun hrest => h (List.forall_mem_cons.mpr ⟨hargs, hrest⟩)
    · rw [hpanic hargs, Option.bind_none]
      exact ⟨fun h => absurd (List.forall_mem_cons.mp h).1 hargs, fun _ => rfl⟩

theorem GemmaCall.open_prefix (c : GemmaCall) : "<|tool_call>call:".toList <+: c.text := by
  unfold GemmaCall.text
  exact List.prefix_append _ _

theorem length_le_flatMap_text (calls : List GemmaCall) :
    calls.length ≤ (calls.flatMap GemmaCall.text).length := by
  induction calls with
  | nil => exact le_refl 0
  | cons c calls ih =>
    have hpos : 0 < c.text.length :=
      (by decide : 0 < "<|tool_call>call:".toList.length).trans_le c.open_prefix.length_le
    rw [List.flatMap_cons, List.length_append, List.length_cons]
    omega

/-- **Gemma's calls are read back** exactly when no string of an array holds a closing bracket, and
no name a brace or white space around it: for a reply that has no call in a `<tool_call>` block and
in which the scanner finds a call. -/
theorem gemma_calls_read_back_iff (ext : Extraction) (toolNames : List String)
    (calls : List GemmaCall) (hne : calls ≠ [])
    (hcalls : ∀ c ∈ calls, c.WellWritten ext toolNames) (hobjects : ext.OpensObjects)
    (hblocks : ext.NoBlockCall toolNames (calls.flatMap GemmaCall.text))
    (hfound : gemmaCalls toolNames (calls.flatMap GemmaCall.text) ≠ []) :
    ext.ReadAs toolNames (calls.flatMap GemmaCall.text) (calls.map fun c => (c.name, c.object)) ↔
      ∀ c ∈ calls, c.PlainName ∧ c.Unbracketed := by
  have htoken : "<|tool_call>".toList <:+: calls.flatMap GemmaCall.text := by
    obtain ⟨c, rest, rfl⟩ := List.exists_cons_of_ne_nil hne
    have hopen : "<|tool_call>".toList <+: "<|tool_call>call:".toList := by decide
    rw [List.flatMap_cons]
    exact ((hopen.trans c.open_prefix).trans (List.prefix_append _ _)).isInfix
  obtain ⟨hgemma, hnone⟩ := extract_gemma hblocks htoken
  -- the loop has fuel for every call and one round more
  obtain ⟨k, hk⟩ : ∃ k, (calls.flatMap GemmaCall.text).length + 1 = calls.length + (k + 1) :=
    ⟨(calls.flatMap GemmaCall.text).length - calls.length, by
      have hlen := length_le_flatMap_text calls
      omega⟩
  have hparse : ext.parseGemmaToolCallOpenai toolNames (calls.flatMap GemmaCall.text) =
      ext.gemmaLoop toolNames (calls.length + (k + 1)) (calls.flatMap GemmaCall.text) [] := by
    rw [parseGemmaToolCallOpenai, hk]
  constructor
  · rintro ⟨out, hout, hmap⟩
    cases hresult : ext.parseGemmaToolCallOpenai toolNames (calls.flatMap GemmaCall.text) with
    | none => cases (hnone hresult).symm.trans hout
    | some found =>
      have hfound : found ≠ [] := by
        have hiff := (ext.gemmaLoop_end toolNames (Nat.lt_succ_self _) []).ok_of_eq_some hresult
        exact fun hnil => hfound (hiff.mp hnil).2
      obtain rfl := Option.some.inj ((hgemma found hresult hfound).symm.trans hout)
      have hnames : ∀ c ∈ calls, c.PlainName := by
        -- a name that was read ends at the first brace and is trimmed
        have hplain : ∀ tc ∈ found, '\x7b' ∉ tc.name.toList ∧ Text.trim tc.name = tc.name := by
          refine gemmaLoop_forall (fun before _ _ hbrace _ => ?_) (List.forall_mem_nil _) hresult
          simp only [trim, String.ofList_toList, Text.trim_trim, and_true]
          exact fun h => hbrace ((Text.trim_isInfix before).subset h)
        intro c hc
        obtain ⟨tc, htc, heq⟩ := List.mem_map.mp (hmap ▸ List.mem_map_of_mem hc :
          (c.name, c.object) ∈ found.map fun tc => (tc.name, tc.args))
        have hname : tc.name = c.name := congrArg Prod.fst heq
        rw [GemmaCall.PlainName, ← hname]
        exact hplain tc htc
      rw [hparse] at hresult
      refine fun c hc => ⟨hnames c hc, ?_⟩
      -- a bracket inside an array cuts a string open, and the loop panics
      by_contra hbracket
      have hpanic := (gemmaLoop_calls hobjects hcalls hnames k []).2 fun h => hbracket (h c hc)
      cases hpanic.symm.trans hresult
  · intro h
    rw [hparse] at hgemma
    obtain ⟨new, hnew, hmap⟩ := (gemmaLoop_calls hobjects hcalls (fun c hc => (h c hc).1) k []).1
      fun c hc => (h c hc).2
    refine ⟨new, hgemma new hnew ?_, hmap⟩
    rintro rfl
    exact hne (List.map_eq_nil_iff.mp hmap.symm)

/-- A call with a quoted string, an array and a number. -/
def insertCall : GemmaCall where
  name := "sql_exec"
  args := [("query", .scalar (.string "INSERT INTO t VALUES ($1, $2)]")),
    ("params", .array [.string "a, b", .number (.int 5)]), ("limit", .scalar .null)]

/-- A call with a string and a number. -/
def sampleCall : GemmaCall where
  name := "sample_rows"
  args := [("table", .scalar (.string "t")), ("limit", .scalar (.number (.int 5)))]

/-- Both calls are read back, the first one with the bracket of its query. -/
theorem insert_call_read_back :
    let ext : Extraction := ⟨fun s => if s = "5" then some (.number (.int 5))
      else if s = "null" then some .null else none, toString⟩
    ext.ReadAs ["sql_exec", "sample_rows"] ([insertCall, sampleCall].flatMap GemmaCall.text)
      [("sql_exec", insertCall.object), ("sample_rows", sampleCall.object)] := by
  intro ext
  have hinsert : insertCall.WellWritten ext ["sql_exec", "sample_rows"] :=
    ⟨by decide, by decide +kernel, by decide +kernel⟩
  have hsample : sampleCall.WellWritten ext ["sql_exec", "sample_rows"] :=
    ⟨by decide, by decide +kernel, by decide +kernel⟩
  have hnames : insertCall.PlainName ∧ sampleCall.PlainName :=
    ⟨⟨by decide +kernel, by decide +kernel⟩, ⟨by decide +kernel, by decide +kernel⟩⟩
  have hobjects : ext.OpensObjects := by
    intro s fields h
    simp only [readJson, ext] at h
    split at h
    · cases h
    · split at h <;> cases h
  have hfound : gemmaCalls ["sql_exec", "sample_rows"]
      ([insertCall, sampleCall].flatMap GemmaCall.text) ≠ [] := by
    rw [List.flatMap_cons, gemmaCalls_text hinsert hnames.1]
    exact List.cons_ne_nil _ _
  refine (gemma_calls_read_back_iff ext ["sql_exec", "sample_rows"] [insertCall, sampleCall]
    (List.cons_ne_nil _ _)
    (List.forall_mem_cons.mpr ⟨hinsert, List.forall_mem_singleton.mpr hsample⟩) hobjects
    (noBlockCall_of_not_isInfix (by decide +kernel)) hfound).mpr
      (List.forall_mem_cons.mpr ⟨⟨hnames.1, ?_⟩, List.forall_mem_singleton.mpr ⟨hnames.2, ?_⟩⟩)
  · simp [GemmaCall.Unbracketed, insertCall, GemmaValue.Unbracketed]
  · simp [GemmaCall.Unbracketed, sampleCall, GemmaValue.Unbracketed]

/-- A string of an array with a closing bracket panics. -/
theorem bracketed_string_panics :
    let ext : Extraction := ⟨fun _ => none, toString⟩
    let call : GemmaCall := ⟨"sql_exec", [("params", .array [.string "a]"])]⟩
    ext.extractToolCallsFromContent ["sql_exec"]
        (String.ofList ([call].flatMap GemmaCall.text)) = none ∧
      ¬ ext.ReadAs ["sql_exec"] ([call].flatMap GemmaCall.text) [("sql_exec", call.object)] := by
  intro ext call
  have hnone : ext.extractToolCallsFromContent ["sql_exec"]
      (String.ofList ([call].flatMap GemmaCall.text)) = none := by decide +kernel
  refine ⟨hnone, ?_⟩
  rintro ⟨out, hout, -⟩
  cases hnone.symm.trans hout

end PgSynapse.Extraction
