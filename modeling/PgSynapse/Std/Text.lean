import Mathlib.Data.List.DropRight
import Mathlib.Data.List.Infix
import Mathlib.Data.List.TakeWhile

/-!
# The Rust string functions the kernel uses

`str::trim`, `str::split` and the tests for a part of a string, on Lean's `String`.  A Rust
`String` is a sequence of Unicode scalar values, as Lean's is; `trim` removes the characters with
the Unicode `White_Space` property, which is more than Lean's own `String.trim` removes, so it is
written out here.
-/

namespace PgSynapse.Text

/-- `char::is_whitespace`: the Unicode `White_Space` property. -/
def isWhitespace (c : Char) : Bool :=
  let n := c.toNat
  (9 ≤ n && n ≤ 13) || n == 0x20 || n == 0x85 || n == 0xA0 || n == 0x1680 ||
    (0x2000 ≤ n && n ≤ 0x200A) || n == 0x2028 || n == 0x2029 || n == 0x202F || n == 0x205F ||
    n == 0x3000

/-- `str::trim_start`. -/
def trimStart (s : String) : String :=
  String.ofList (s.toList.dropWhile isWhitespace)

/-- `str::trim_end`. -/
def trimEnd (s : String) : String :=
  String.ofList (s.toList.reverse.dropWhile isWhitespace).reverse

/-- `str::trim`. -/
def trim (s : String) : String :=
  trimEnd (trimStart s)

/-- `s.trim().is_empty()`. -/
def isBlank (s : String) : Bool :=
  (trim s).isEmpty

theorem isBlank_iff (s : String) : isBlank s = true ↔ ∀ c ∈ s.toList, isWhitespace c = true := by
  have hempty : isBlank s = true ↔
      ((s.toList.dropWhile isWhitespace).reverse.dropWhile isWhitespace) = [] := by
    simp [isBlank, trim, trimEnd, trimStart, String.isEmpty_iff]
  rw [hempty, ← List.dropWhile_eq_nil_iff]
  constructor
  · intro h
    rw [List.dropWhile_eq_nil_iff] at h
    by_contra hne
    -- what is left after the leading white space starts with something else
    have hhead := List.head_dropWhile_not isWhitespace hne
    have hmem : (s.toList.dropWhile isWhitespace).head hne ∈
        (s.toList.dropWhile isWhitespace).reverse := List.mem_reverse.mpr (List.head_mem hne)
    rw [h _ hmem] at hhead
    exact absurd hhead (by decide)
  · intro h
    rw [h]
    rfl

/-- A text with a part that is not blank is not blank. -/
theorem isBlank_append (s t : String) : isBlank (s ++ t) = (isBlank s && isBlank t) := by
  rw [Bool.eq_iff_iff, Bool.and_eq_true, isBlank_iff, isBlank_iff, isBlank_iff]
  simp only [String.toList_append, List.mem_append]
  constructor
  · intro h
    exact ⟨fun c hc => h c (.inl hc), fun c hc => h c (.inr hc)⟩
  · rintro ⟨hs, ht⟩ c (hc | hc)
    · exact hs c hc
    · exact ht c hc

/-! ### Trimming a part of a text -/

/-- A list with fewer entries has fewer after its first entries are dropped. -/
theorem dropWhile_sublist_dropWhile {α : Type} (p : α → Bool) {l l' : List α}
    (h : List.Sublist l' l) : List.Sublist (l'.dropWhile p) (l.dropWhile p) := by
  induction h with
  | slnil => exact .slnil
  | @cons l' l a h ih =>
    rw [List.dropWhile_cons]
    split
    · exact ih
    · exact ((List.dropWhile_sublist p).trans h).trans (List.sublist_cons_self a l)
  | @cons_cons l' l a h ih =>
    rw [List.dropWhile_cons, List.dropWhile_cons]
    split
    · exact ih
    · exact h.cons_cons a

theorem trimEnd_sublist {s t : String} (h : List.Sublist s.toList t.toList) :
    List.Sublist (trimEnd s).toList (trimEnd t).toList := by
  rw [trimEnd, trimEnd, String.toList_ofList, String.toList_ofList]
  exact (dropWhile_sublist_dropWhile isWhitespace h.reverse).reverse

theorem trim_sublist {s t : String} (h : List.Sublist s.toList t.toList) :
    List.Sublist (trim s).toList (trim t).toList := by
  refine trimEnd_sublist ?_
  rw [trimStart, trimStart, String.toList_ofList, String.toList_ofList]
  exact dropWhile_sublist_dropWhile isWhitespace h

/-- A text with some characters left out is no longer once trimmed. -/
theorem trim_length_le {s t : String} (h : List.Sublist s.toList t.toList) :
    (trim s).length ≤ (trim t).length := by
  have := (trim_sublist h).length_le
  rwa [String.length_toList, String.length_toList] at this

theorem trim_sublist_trimEnd (s : String) :
    List.Sublist (trim s).toList (trimEnd s).toList := by
  refine trimEnd_sublist ?_
  rw [trimStart, String.toList_ofList]
  exact List.dropWhile_sublist isWhitespace

/-- Trimming twice is trimming once. -/
theorem trim_trim (s : String) : trim (trim s) = trim s := by
  have hlist : ∀ l : List Char,
      ((l.dropWhile isWhitespace).reverse.dropWhile isWhitespace).reverse.dropWhile isWhitespace =
        ((l.dropWhile isWhitespace).reverse.dropWhile isWhitespace).reverse := by
    intro l
    rw [List.dropWhile_eq_self_iff]
    intro hpos
    -- what is left starts as the text without its leading white space does
    obtain ⟨tail, htail⟩ := List.dropWhile_suffix (l := (l.dropWhile isWhitespace).reverse)
      isWhitespace
    have hpre : ((l.dropWhile isWhitespace).reverse.dropWhile isWhitespace).reverse <+:
        l.dropWhile isWhitespace := by
      refine ⟨tail.reverse, ?_⟩
      rw [← List.reverse_append, htail, List.reverse_reverse]
    have hne : l.dropWhile isWhitespace ≠ [] := by
      intro hnil
      rw [hnil] at hpos
      exact absurd hpos (by simp)
    have hhead := List.head_dropWhile_not isWhitespace hne
    rw [hpre.getElem hpos]
    simpa [List.head_eq_getElem] using hhead
  simp only [trim, trimEnd, trimStart, String.toList_ofList]
  rw [hlist s.toList, List.reverse_reverse, List.dropWhile_idempotent]

/-- What is left after trimming is a part of the text. -/
theorem trim_isInfix (s : List Char) : (trim (String.ofList s)).toList <:+: s := by
  simp only [trim, trimEnd, trimStart, String.toList_ofList]
  have hend : ((s.dropWhile isWhitespace).reverse.dropWhile isWhitespace).reverse <+:
      s.dropWhile isWhitespace := by
    have h := List.dropWhile_suffix (l := (s.dropWhile isWhitespace).reverse) isWhitespace
    rwa [← List.reverse_prefix, List.reverse_reverse] at h
  exact hend.isInfix.trans (List.dropWhile_suffix isWhitespace).isInfix

/-- A trimmed text does not start with white space. -/
theorem not_white_of_trim_eq {s : String} (h : trim s = s) {c : Char} {t : List Char}
    (hs : s.toList = c :: t) : isWhitespace c = false := by
  by_contra hc
  rw [Bool.not_eq_false] at hc
  have hle : (trim s).toList.length ≤ (s.toList.dropWhile isWhitespace).length := by
    simp only [trim, trimEnd, trimStart, String.toList_ofList]
    have hend := (List.dropWhile_sublist (l := (s.toList.dropWhile isWhitespace).reverse)
      isWhitespace).length_le
    rwa [List.length_reverse, ← List.length_reverse] at hend
  have hstart := (List.dropWhile_sublist (l := t) isWhitespace).length_le
  rw [h, hs, List.dropWhile_cons_of_pos hc, List.length_cons] at hle
  omega

/-- What is left of a text that does not start with white space is its beginning. -/
theorem trim_prefix {c : Char} {s : List Char} (hc : isWhitespace c = false) :
    (trim (String.ofList (c :: s))).toList <+: c :: s := by
  simp only [trim, trimEnd, trimStart, String.toList_ofList]
  rw [List.dropWhile_cons_of_neg (by rw [hc]; exact Bool.false_ne_true)]
  have h := List.dropWhile_suffix (l := (c :: s).reverse) isWhitespace
  rwa [← List.reverse_prefix, List.reverse_reverse] at h

/-- Trimming takes the white space around a text that neither starts nor ends with any. -/
theorem trim_pad {pre m post : List Char} (hpre : ∀ c ∈ pre, isWhitespace c = true)
    (hpost : ∀ c ∈ post, isWhitespace c = true) (hne : m ≠ [])
    (hhead : isWhitespace (m.head hne) = false) (hlast : isWhitespace (m.getLast hne) = false) :
    trim (String.ofList (pre ++ m ++ post)) = String.ofList m := by
  have hstart : (pre ++ m ++ post).dropWhile isWhitespace = m ++ post := by
    rw [List.append_assoc, List.dropWhile_append_of_pos hpre]
    obtain ⟨c, m, rfl⟩ := List.exists_cons_of_ne_nil hne
    exact List.dropWhile_cons_of_neg (by simpa using hhead)
  have hend : (m ++ post).reverse.dropWhile isWhitespace = m.reverse := by
    rw [List.reverse_append, List.dropWhile_append_of_pos fun c hc => hpost c (List.mem_reverse.mp hc)]
    have hne' : m.reverse ≠ [] := by simpa using hne
    obtain ⟨c, t, ht⟩ := List.exists_cons_of_ne_nil hne'
    have hc : isWhitespace c = false := by
      have hc : m.getLast hne = c := by
        simp [← List.head_reverse hne', ht]
      rwa [hc] at hlast
    rw [ht]
    exact List.dropWhile_cons_of_neg (by simpa using hc)
  simp only [trim, trimEnd, trimStart, String.toList_ofList]
  rw [hstart, hend, List.reverse_reverse]

/-- What is checked of the characters of a text one by one, which is not a check of all there
are. -/
theorem forall_mem_of_all {P : Char → Prop} [DecidablePred P] {s : List Char}
    (h : s.all (fun c => decide (P c)) = true) : ∀ c ∈ s, P c := by simpa using h

/-- The first and the last character of a text are no white space. -/
def Tight (s : List Char) : Prop :=
  ∃ h : s ≠ [], isWhitespace (s.head h) = false ∧ isWhitespace (s.getLast h) = false

theorem tight_of_forall {s : List Char} (hne : s ≠ [])
    (h : ∀ c ∈ s, isWhitespace c = false) : Tight s :=
  ⟨hne, h _ (List.head_mem hne), h _ (List.getLast_mem hne)⟩

/-- A text between two characters that are no white space. -/
theorem tight_between {a b : Char} (ha : isWhitespace a = false)
    (hb : isWhitespace b = false) (s : List Char) : Tight (a :: s ++ [b]) :=
  ⟨by simp, by simpa using ha, by simpa using hb⟩

/-- A text that starts with one tight text and ends with another is tight. -/
theorem Tight.append {a b : List Char} (ha : Tight a) (hb : Tight b) (s : List Char) :
    Tight (a ++ s ++ b) := by
  obtain ⟨hane, hahead, -⟩ := ha
  obtain ⟨hbne, -, hblast⟩ := hb
  refine ⟨by simp [hane], ?_, ?_⟩
  · simpa [List.append_assoc, List.head_append_of_ne_nil hane] using hahead
  · rwa [List.getLast_append_of_ne_nil _ hbne]

/-- **Trimming** a tight text with white space around it. -/
theorem Tight.trim_pad {pre m post : List Char} (hm : Tight m)
    (hpre : ∀ c ∈ pre, isWhitespace c = true) (hpost : ∀ c ∈ post, isWhitespace c = true) :
    (trim (String.ofList (pre ++ m ++ post))).toList = m := by
  obtain ⟨hne, hhead, hlast⟩ := hm
  rw [Text.trim_pad hpre hpost hne hhead hlast, String.toList_ofList]

/-- A tight text is trimmed already. -/
theorem Tight.trim_eq {m : List Char} (hm : Tight m) : (trim (String.ofList m)).toList = m := by
  have hpad := @Tight.trim_pad [] m [] hm (List.forall_mem_nil _) (List.forall_mem_nil _)
  rwa [List.nil_append, List.append_nil] at hpad

/-- Trimming a text whose beginning is tight. -/
theorem Tight.trim_append {pre m : List Char} (hm : Tight m)
    (hpre : ∀ c ∈ pre, isWhitespace c = true) (t : List Char) :
    ∃ t', (trim (String.ofList (pre ++ m ++ t))).toList = m ++ t' := by
  obtain ⟨hne, hhead, hlast⟩ := hm
  have hstart : (pre ++ m ++ t).dropWhile isWhitespace = m ++ t := by
    rw [List.append_assoc, List.dropWhile_append_of_pos hpre]
    obtain ⟨c, m, rfl⟩ := List.exists_cons_of_ne_nil hne
    exact List.dropWhile_cons_of_neg (by simpa using hhead)
  have hend : m.reverse.dropWhile isWhitespace = m.reverse := by
    have hne' : m.reverse ≠ [] := by simpa using hne
    have hc : isWhitespace (m.reverse.head hne') = false := by rwa [List.head_reverse]
    obtain ⟨c, w, hw⟩ := List.exists_cons_of_ne_nil hne'
    simp only [hw, List.head_cons] at hc ⊢
    exact List.dropWhile_cons_of_neg (by simpa using hc)
  simp only [trim, trimEnd, trimStart, String.toList_ofList]
  rw [hstart, List.reverse_append, List.dropWhile_append, hend]
  split
  · exact ⟨[], by simp⟩
  · exact ⟨(t.reverse.dropWhile isWhitespace).reverse, by simp⟩

/-- A pattern without white space is not changed by white space around a text. -/
theorem infix_of_infix_pad {pat pre m post : List Char} (hpat : ∀ c ∈ pat, isWhitespace c = false)
    (hne : pat ≠ []) (hpre : ∀ c ∈ pre, isWhitespace c = true)
    (hpost : ∀ c ∈ post, isWhitespace c = true) (h : pat <:+: pre ++ m ++ post) : pat <:+: m := by
  -- white space before a text
  have strip : ∀ {q w t : List Char}, (∀ c ∈ q, isWhitespace c = false) → q ≠ [] →
      (∀ c ∈ w, isWhitespace c = true) → q <:+: w ++ t → q <:+: t := by
    intro q w t hq hqne hw h
    induction w with
    | nil => exact h
    | cons c w ih =>
      rcases List.infix_cons_iff.mp h with hhead | hrest
      · obtain ⟨d, q, rfl⟩ := List.exists_cons_of_ne_nil hqne
        obtain ⟨rfl, -⟩ := List.cons_prefix_cons.mp hhead
        have hc := hw d List.mem_cons_self
        rw [hq d List.mem_cons_self] at hc
        cases hc
      · exact ih (fun c hc => hw c (List.mem_cons_of_mem _ hc)) hrest
  rw [List.append_assoc] at h
  have hm := strip hpat hne hpre h
  rw [← List.reverse_infix, List.reverse_append] at hm
  rw [← List.reverse_infix]
  exact strip (by simpa using hpat) (by simpa using hne) (by simpa using hpost) hm

/-! ### Identifiers -/

/-- A character of an identifier: a letter, a digit, an underscore, or one that is not ASCII. -/
def isIdentifierChar (c : Char) : Bool :=
  c.isAlphanum || c == '_' || (128 ≤ c.toNat && !isWhitespace c)

/-- An identifier. -/
def IsIdentifier (s : String) : Prop := s.toList ≠ [] ∧ ∀ c ∈ s.toList, isIdentifierChar c = true

instance : DecidablePred IsIdentifier := fun s =>
  decidable_of_iff (s.toList ≠ [] ∧ s.toList.all isIdentifierChar = true)
    (and_congr_right fun _ => List.all_eq_true)

/-- Letters and digits stand between the codes 48 and 122. -/
theorem toNat_of_isAlphanum {c : Char} (h : c.isAlphanum = true) :
    48 ≤ c.toNat ∧ c.toNat ≤ 122 := by
  have range : ∀ lo hi : UInt32, c.val ≥ lo ∧ c.val ≤ hi → lo.toNat ≤ c.toNat ∧ c.toNat ≤ hi.toNat :=
    fun lo hi hc => hc.imp UInt32.le_iff_toNat_le.mp UInt32.le_iff_toNat_le.mp
  have both : ∀ {p q : Prop} [Decidable p] [Decidable q], (decide p && decide q) = true → p ∧ q :=
    fun hand => ((Bool.and_eq_true _ _).mp hand).imp of_decide_eq_true of_decide_eq_true
  rcases (Bool.or_eq_true _ _).mp h with hletter | hdigit
  · rcases (Bool.or_eq_true _ _).mp hletter with hupper | hlower
    · have hc : 65 ≤ c.toNat ∧ c.toNat ≤ 90 := range 65 90 (of_decide_eq_true hupper)
      omega
    · have hc : 97 ≤ c.toNat ∧ c.toNat ≤ 122 := range 97 122 (both hlower)
      omega
  · have hc : 48 ≤ c.toNat ∧ c.toNat ≤ 57 := range 48 57 (both hdigit)
    omega

/-- The characters of an identifier are no control characters. -/
theorem le_of_isIdentifierChar {c : Char} (h : isIdentifierChar c = true) : 48 ≤ c.toNat := by
  simp only [isIdentifierChar, Bool.or_eq_true, Bool.and_eq_true, beq_iff_eq,
    decide_eq_true_eq] at h
  rcases h with (halnum | rfl) | hhigh
  · exact (toNat_of_isAlphanum halnum).1
  · decide
  · omega

/-- The characters of an identifier are no white space. -/
theorem isWhitespace_of_isIdentifierChar {c : Char} (h : isIdentifierChar c = true) :
    isWhitespace c = false := by
  by_contra hwhite
  rw [Bool.not_eq_false] at hwhite
  have hlow := le_of_isIdentifierChar h
  have hhigh : c.toNat < 128 := by
    simp only [isIdentifierChar, hwhite, Bool.not_true, Bool.and_false, Bool.or_false,
      Bool.or_eq_true, beq_iff_eq] at h
    rcases h with halnum | rfl
    · have hc := toNat_of_isAlphanum halnum
      omega
    · decide
  simp only [isWhitespace] at hwhite
  simp at hwhite
  omega

theorem IsIdentifier.tight {s : String} (h : IsIdentifier s) : Tight s.toList :=
  tight_of_forall h.1 fun c hc => isWhitespace_of_isIdentifierChar (h.2 c hc)

theorem IsIdentifier.not_mem {s : String} (h : IsIdentifier s) {c : Char}
    (hc : isIdentifierChar c = false) : c ∉ s.toList := fun hmem => by
  rw [h.2 c hmem] at hc
  cases hc

/-- `str::contains` with a string pattern. -/
def contains (s pat : String) : Bool :=
  decide (pat.toList <:+: s.toList)

/-- `str::split` at one character. -/
def splitChar (sep : Char) (s : String) : List String :=
  (go s.toList).map String.ofList
where
  go : List Char → List (List Char)
  | [] => [[]]
  | c :: rest =>
    if c = sep then [] :: go rest
    else match go rest with
      | [] => [[c]]
      | part :: parts => (c :: part) :: parts

/-- `str::lines`: a carriage return before a line feed belongs to the line ending. -/
def lines (s : String) : List String :=
  let parts := splitChar '\n' s
  let ended := parts.dropLast.map fun line =>
    if line.toList.getLast? = some '\r' then String.ofList line.toList.dropLast else line
  match parts.getLast? with
  | some last => if last.isEmpty then ended else ended ++ [last]
  | none => ended

theorem splitChar_go_ne_nil (sep : Char) (s : List Char) : splitChar.go sep s ≠ [] := by
  cases s with
  | nil => exact List.cons_ne_nil _ _
  | cons c s =>
    rw [splitChar.go]
    split
    · exact List.cons_ne_nil _ _
    · split <;> exact List.cons_ne_nil _ _

/-- The part before the first separator. -/
theorem splitChar_go_append {sep : Char} {s : List Char} (hs : sep ∉ s) (t : List Char) :
    splitChar.go sep (s ++ sep :: t) = s :: splitChar.go sep t := by
  induction s with
  | nil => rw [List.nil_append, splitChar.go, if_pos rfl]
  | cons c s ih =>
    rw [List.mem_cons, not_or] at hs
    rw [List.cons_append, splitChar.go, if_neg (Ne.symm hs.1), ih hs.2]

/-- **The first line** of a text. -/
theorem lines_cons {line : List Char} (hline : '\n' ∉ line) (hreturn : line.getLast? ≠ some '\r')
    (t : List Char) : lines (String.ofList (line ++ '\n' :: t)) =
      String.ofList line :: lines (String.ofList t) := by
  have hparts : splitChar '\n' (String.ofList (line ++ '\n' :: t)) =
      String.ofList line :: splitChar '\n' (String.ofList t) := by
    rw [splitChar, String.toList_ofList, splitChar_go_append hline, List.map_cons, splitChar,
      String.toList_ofList]
  have hne : splitChar '\n' (String.ofList t) ≠ [] := by
    rw [splitChar, ne_eq, List.map_eq_nil_iff]
    exact splitChar_go_ne_nil _ _
  simp only [lines, hparts]
  generalize splitChar '\n' (String.ofList t) = parts at hne
  obtain ⟨part, parts, rfl⟩ := List.exists_cons_of_ne_nil hne
  rw [List.dropLast_cons_cons, List.map_cons, String.toList_ofList, if_neg hreturn,
    List.getLast?_cons_cons]
  split
  · split <;> rfl
  · rfl

/-- The number of places `str::matches` finds: they do not overlap, and an empty pattern matches
before, between and after the characters. -/
def countMatches (s pat : String) : Nat :=
  if pat.isEmpty then s.length + 1 else go 0 s.toList
where
  go : Nat → List Char → Nat
  | _, [] => 0
  | skip + 1, _ :: rest => go skip rest
  | 0, c :: rest =>
    if pat.toList <+: c :: rest then 1 + go (pat.length - 1) rest else go 0 rest

/-- `str::replacen` with a count of one. -/
def replaceFirst (s pat new : String) : String :=
  String.ofList (go s.toList)
where
  go : List Char → List Char
  | [] => if pat.isEmpty then new.toList else []
  | c :: rest =>
    if pat.toList <+: c :: rest then new.toList ++ (c :: rest).drop pat.length else c :: go rest

/-- `str::to_ascii_lowercase`. -/
def toAsciiLowercase (s : String) : String :=
  String.ofList (s.toList.map fun c => if 'A' ≤ c && c ≤ 'Z' then Char.ofNat (c.toNat + 32) else c)

/-- `str::ends_with` with a string pattern. -/
def endsWith (s pat : String) : Bool :=
  decide (pat.toList <:+ s.toList)

end PgSynapse.Text
