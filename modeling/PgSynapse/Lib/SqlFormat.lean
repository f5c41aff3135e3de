import Mathlib.Algebra.Ring.Int.Defs
import Mathlib.Algebra.Ring.Nat
import PgSynapse.Lib.SqlStrings

/-!
# The format function of SQL

`format(template, …)` of Postgres over text arguments, with `quote_ident` and `quote_literal` for the
types `I` and `L`.

What a specification writes begins with spaces and quotes and goes on with a character that is none of
`'`, `%` and a space, if each argument begins with such a character.  So a part of a template that is
first the text of a string constant comes out as it went in only when it has no quote and no percent
sign (`clear_of_format`).
-/

namespace PgSynapse

namespace SqlText

/-! ### Quoting -/

def isIdentStart (c : Char) : Bool := c.isLower || c = '_'

def isIdentChar (c : Char) : Bool := isIdentStart c || c.isDigit

/-- `quote_ident`: an identifier that is no key word and has no unusual character stands as it is. -/
def quoteIdentifier (keyword : List Char → Bool) (s : List Char) : List Char :=
  if s.head?.any isIdentStart && s.all isIdentChar && !keyword s then s
  else '\x22' :: (doubled '\x22' s ++ ['\x22'])

/-- `quote_literal`. -/
def quoteLiteral (s : List Char) : List Char :=
  let body := doubled '\\' (doubled '\'' s)
  if '\\' ∈ s then 'E' :: '\'' :: (body ++ ['\'']) else '\'' :: (body ++ ['\''])

/-- The token is an identifier with this name. -/
def Lexeme.Names (keyword : List Char → Bool) (t : Lexeme) (s : List Char) : Prop :=
  t = .quoted false s ∨ t = .word s ∧ keyword s = false

/-! ### Templates -/

/-- A format specification without its type. -/
structure FormatSpec where
  position : Option Nat
  /-- The flag `-`. -/
  left : Bool
  width : Nat
  /-- The position of the argument that has the width, 0 for the next one. -/
  widthFrom : Option Nat
  deriving DecidableEq, Repr

def FormatSpec.simple : FormatSpec := ⟨none, false, 0, none⟩

/-- Where `format` is in its template. -/
inductive Scan where
  | text
  /-- After a percent sign. -/
  | percent
  /-- In a number that is a position or a width. -/
  | number (n : Nat)
  | flags (spec : FormatSpec)
  | star (spec : FormatSpec)
  | starNumber (spec : FormatSpec) (n : Nat)
  | starred (spec : FormatSpec)
  | width (spec : FormatSpec)
  deriving DecidableEq, Repr

/-- A number with one more digit, an int4. -/
def addDigit (n : Nat) (c : Char) : Option Nat :=
  let n := 10 * n + (c.toNat - '0'.toNat)
  if c.isDigit && n ≤ 2147483647 then some n else none

/-- A further character of a specification, `none` when the type stands there. -/
def Scan.next : Scan → Char → Option Scan
  | .text, _ => none
  | .percent, c =>
    if c = '-' then some (.flags { FormatSpec.simple with left := true })
    else if c = '*' then some (.star .simple)
    else (addDigit 0 c).map .number
  | .number n, c =>
    if c = '$' && n ≠ 0 then some (.flags { FormatSpec.simple with position := some n })
    else (addDigit n c).map .number
  | .flags spec, c =>
    if c = '-' then some (.flags { spec with left := true })
    else if c = '*' then some (.star spec)
    else (addDigit 0 c).map fun n => .width { spec with width := n }
  | .star spec, c => (addDigit 0 c).map (.starNumber spec)
  | .starNumber spec n, c =>
    if c = '$' && n ≠ 0 then some (.starred { spec with widthFrom := some n })
    else (addDigit n c).map (.starNumber spec)
  | .starred _, _ => none
  | .width spec, c => (addDigit spec.width c).map fun n => .width { spec with width := n }

/-- The specification before its type. -/
def Scan.spec : Scan → Option FormatSpec
  | .text | .starNumber .. => none
  | .percent => some .simple
  | .number n => some { FormatSpec.simple with width := n }
  | .flags spec | .starred spec | .width spec => some spec
  | .star spec => some { spec with widthFrom := some 0 }

def pad (width : Int) (left : Bool) (a : List Char) : List Char :=
  let spaces := List.replicate (width.natAbs - a.length) ' '
  if left || width < 0 then a ++ spaces else spaces ++ a

/-- What a call of `format` has beside its template. -/
structure FormatCall where
  keyword : List Char → Bool
  /-- The input function of int4. -/
  int4 : List Char → Option Int
  args : List (List Char)

namespace FormatCall

/-- An argument by its position from 1 on. -/
def arg (f : FormatCall) (i : Nat) : Option (List Char) := if i = 0 then none else f.args[i - 1]?

def convert (f : FormatCall) (type : Char) (a : List Char) : Option (List Char) :=
  if type = 's' then some a
  else if type = 'I' then some (quoteIdentifier f.keyword a)
  else if type = 'L' then some (quoteLiteral a)
  else none

/-- The width of a specification, and the next argument then. -/
def width (f : FormatCall) (spec : FormatSpec) (next : Nat) : Option (Int × Nat) :=
  match spec.widthFrom with
  | none => some (spec.width, next)
  | some p =>
    let i := if p = 0 then next else p
    (f.arg i).bind fun a => (f.int4 a).map fun w => (w, i + 1)

/-- What a specification writes, and the next argument then. -/
def piece (f : FormatCall) (spec : FormatSpec) (type : Char) (next : Nat) :
    Option (List Char × Nat) :=
  (f.width spec next).bind fun w =>
    let i := spec.position.getD w.2
    (f.arg i).bind fun a => (f.convert type a).map fun s => (pad w.1 spec.left s, i + 1)

/-- The rest of the template; `none` is an error. -/
def formatFrom (f : FormatCall) : Scan → Nat → List Char → Option (List Char)
  | scan, _, [] => if scan = .text then some [] else none
  | scan, next, c :: cs =>
    if scan = .text then
      if c = '%' then f.formatFrom .percent next cs
      else (f.formatFrom .text next cs).map (c :: ·)
    else if scan = .percent && c = '%' then (f.formatFrom .text next cs).map ('%' :: ·)
    else
      match scan.next c with
      | some scan => f.formatFrom scan next cs
      | none => scan.spec.bind fun spec => (f.piece spec c next).bind fun r =>
          (f.formatFrom .text r.2 cs).map (r.1 ++ ·)

/-- `format(template, args…)`. -/
def format (f : FormatCall) (template : List Char) : Option (List Char) :=
  f.formatFrom .text 1 template

end FormatCall

/-! ### An identifier in a statement -/

/-- A character at which an identifier ends. -/
def EndsName (c : Char) : Prop := isWordChar c = false ∧ c ≠ '\'' ∧ c ≠ '&' ∧ c ≠ '\x22'

instance (c : Char) : Decidable (EndsName c) := inferInstanceAs (Decidable (_ ∧ _ ∧ _ ∧ _))

theorem le_of_isLower {c : Char} (h : c.isLower = true) : 97 ≤ c.val.toNat :=
  of_decide_eq_true (Bool.and_eq_true_iff.mp h).1

theorem isAlpha_of_isLower {c : Char} (h : c.isLower = true) : c.isAlpha = true :=
  Bool.or_eq_true_iff.mpr (Or.inr h)

theorem toLower_of_isIdentChar {c : Char} (h : isIdentChar c = true) : c.toLower = c := by
  have hupper : ¬ (c.val ≥ 'A'.val ∧ c.val ≤ 'Z'.val) := by
    rintro ⟨hlo, hhi⟩
    have hlo : 65 ≤ c.val.toNat := hlo
    have hhi : c.val.toNat ≤ 90 := hhi
    simp only [isIdentChar, isIdentStart, Char.isDigit, Bool.or_eq_true,
      Bool.and_eq_true, decide_eq_true_eq] at h
    rcases h with (h | rfl) | ⟨-, h⟩
    · have h : 97 ≤ c.val.toNat := le_of_isLower h
      omega
    · exact absurd hhi (by decide)
    · have h : c.val.toNat ≤ 57 := h
      omega
  unfold Char.toLower
  rw [dif_neg hupper]

theorem isWordChar_of_isIdentChar {c : Char} (h : isIdentChar c = true) : isWordChar c = true := by
  simp only [isIdentChar, isIdentStart, Bool.or_eq_true, decide_eq_true_eq] at h
  simp only [isWordChar, isWordStart, Bool.or_eq_true, decide_eq_true_eq]
  rcases h with (h | h) | h
  · exact Or.inl (Or.inl (Or.inl (Or.inl (isAlpha_of_isLower h))))
  · tauto
  · tauto

theorem isWordStart_of_isIdentStart {c : Char} (h : isIdentStart c = true) :
    isWordStart c = true := by
  simp only [isIdentStart, Bool.or_eq_true, decide_eq_true_eq] at h
  simp only [isWordStart, Bool.or_eq_true, decide_eq_true_eq]
  exact h.elim (fun h => Or.inl (Or.inl (isAlpha_of_isLower h))) fun h => Or.inl (Or.inr h)

/-- **A quoted identifier is one token**, with the name that was quoted. -/
theorem reads_quoteIdentifier (keyword : List Char → Bool) {s : List Char} (hs : s ≠ []) :
    ∃ t s', t.Names keyword s ∧ Reads .blank (quoteIdentifier keyword s) [] s' ∧
      finish s' = some [t] ∧ ∀ c, EndsName c → continues s' c = none := by
  unfold quoteIdentifier
  split
  · next h =>
    simp only [Bool.and_eq_true, Bool.not_eq_true', List.all_eq_true] at h
    obtain ⟨⟨hhead, hall⟩, hkeyword⟩ := h
    obtain ⟨c, w, rfl⟩ := List.exists_cons_of_ne_nil hs
    have hfold : foldCase (c :: w) = c :: w := by
      unfold foldCase
      conv_rhs => rw [← List.map_id (c :: w)]
      exact List.map_congr_left fun d hd => toLower_of_isIdentChar (hall d hd)
    have hword : ∀ d ∈ w, isWordChar d = true := fun d hd =>
      isWordChar_of_isIdentChar (hall d (List.mem_cons_of_mem c hd))
    refine ⟨.word (c :: w), .word (c :: w), Or.inr ⟨rfl, hkeyword⟩,
      reads_word (isWordStart_of_isIdentStart hhead) hword, ?_, ?_⟩
    · rw [finish, hfold]
    · rintro d ⟨hd, hquote, hand, -⟩
      simp [continues, hd, hquote, hand]
  · refine ⟨.quoted false s, .quotedEnd false s, Or.inl rfl, reads_quotedIdent s, ?_, ?_⟩
    · rw [finish, if_neg hs]
    · rintro d ⟨-, -, -, hd⟩
      simp [continues, hd]

/-- The first character of a quoted identifier. -/
theorem quoteIdentifier_head (keyword : List Char → Bool) {s : List Char} (hs : s ≠ []) :
    ∃ c w, quoteIdentifier keyword s = c :: w ∧ (isIdentStart c = true ∨ c = '\x22') := by
  obtain ⟨c, w, rfl⟩ := List.exists_cons_of_ne_nil hs
  unfold quoteIdentifier
  split
  · next h =>
    simp only [List.head?_cons, Option.any_some, Bool.and_eq_true] at h
    exact ⟨c, w, rfl, Or.inl h.1.1⟩
  · exact ⟨'\x22', _, rfl, Or.inr rfl⟩

theorem not_isDigit_of_isIdentStart {c : Char} (h : isIdentStart c = true) : c.isDigit = false := by
  simp only [isIdentStart, Bool.or_eq_true, decide_eq_true_eq] at h
  rw [Char.isDigit, Bool.and_eq_false_iff, decide_eq_false_iff_not, decide_eq_false_iff_not]
  refine Or.inr fun hle => ?_
  have hle : c.val.toNat ≤ 57 := hle
  rcases h with hlo | rfl
  · have hlo : 97 ≤ c.val.toNat := le_of_isLower hlo
    omega
  · exact absurd hle (by decide)

/-- A quoted identifier after a dot. -/
theorem Reads.afterDot {keyword : List Char → Bool} {s : List Char} {s' : State} (hs : s ≠ [])
    (h : Reads .blank (quoteIdentifier keyword s) [] s') :
    Reads .dot (quoteIdentifier keyword s) [.punct ['.']] s' := by
  obtain ⟨c, w, hcons, hc⟩ := quoteIdentifier_head keyword hs
  have hdot : finish .dot = some [.punct ['.']] := rfl
  rw [hcons] at h ⊢
  refine h.after hdot ?_
  rcases hc with hc | rfl
  · have hpoint : c ≠ '.' := by
      rintro rfl
      cases hc
    simp [continues, hpoint, not_isDigit_of_isIdentStart hc]
  · rfl

/-! ### What comes out as it goes in -/

namespace FormatCall

section Verbatim

variable {f : FormatCall} {next : Nat} {a b : List Char}

/-- Text without a percent sign. -/
theorem formatFrom_append (ha : '%' ∉ a) :
    f.formatFrom .text next (a ++ b) = (f.formatFrom .text next b).map (a ++ ·) := by
  induction a with
  | nil => simp
  | cons c a ih =>
    rw [List.mem_cons, not_or] at ha
    rw [List.cons_append, formatFrom, if_pos rfl, if_neg (Ne.symm ha.1), ih ha.2, Option.map_map]
    rfl

theorem formatFrom_text (ha : '%' ∉ a) : f.formatFrom .text next a = some a := by
  have h : f.formatFrom .text next (a ++ []) = (f.formatFrom .text next []).map (a ++ ·) :=
    formatFrom_append ha
  rw [List.append_nil] at h
  rw [h, formatFrom, if_pos rfl, Option.map_some, List.append_nil]

/-- A specification that is only its type. -/
theorem formatFrom_type {type : Char} {s : List Char} (htype : Scan.next .percent type = none)
    (hpercent : type ≠ '%') (harg : f.arg next = some a) (hconvert : f.convert type a = some s) :
    f.formatFrom .text next ('%' :: type :: b) =
      (f.formatFrom .text (next + 1) b).map (s ++ ·) := by
  have hpad : pad 0 false s = s := by
    simp [pad]
  have hpiece : f.piece .simple type next = some (s, next + 1) := by
    simp [piece, width, FormatSpec.simple, harg, hconvert, hpad]
  have hdoubled : ¬ ((Scan.percent = .percent && type = '%') = true) := by
    simp [hpercent]
  rw [formatFrom, if_pos rfl, if_pos rfl, formatFrom, if_neg (by decide), if_neg hdoubled, htype]
  simp only [Scan.spec, Option.bind_some, hpiece]

/-- A character that may stand before what a specification writes, or makes a difference in a string
constant or a template. -/
def isLoose (c : Char) : Bool := c = '\'' || c = '%' || isSpace c

/-- Spaces and quotes, and a character that is not loose. -/
def Begins (o : List Char) : Prop :=
  ∃ p c rest, o = p ++ c :: rest ∧ (∀ d ∈ p, isLoose d = true ∧ d ≠ '%') ∧ isLoose c = false

theorem begins_cons {c : Char} (hc : isLoose c = false) (o : List Char) : Begins (c :: o) :=
  ⟨[], c, o, rfl, List.forall_mem_nil _, hc⟩

theorem Begins.append {o : List Char} (h : Begins o) (b : List Char) : Begins (o ++ b) := by
  obtain ⟨p, c, rest, rfl, hp, hc⟩ := h
  exact ⟨p, c, rest ++ b, by simp, hp, hc⟩

theorem Begins.prepend {o p : List Char} (hp : ∀ d ∈ p, isLoose d = true ∧ d ≠ '%')
    (h : Begins o) : Begins (p ++ o) := by
  obtain ⟨q, c, rest, rfl, hq, hc⟩ := h
  refine ⟨p ++ q, c, rest, by simp, fun d hd => ?_, hc⟩
  exact (List.mem_append.mp hd).elim (hp d) (hq d)

/-- Loose characters at the beginning have no percent sign. -/
theorem Begins.not_percent {u v : List Char} (h : Begins (u ++ v))
    (hu : ∀ c ∈ u, isLoose c = true) : '%' ∉ u := by
  obtain ⟨p, c, rest, heq, hp, hc⟩ := h
  rcases List.append_eq_append_iff.mp heq with ⟨q, rfl, -⟩ | ⟨q, rfl, hq⟩
  · exact fun hmem => (hp '%' (List.mem_append_left q hmem)).2 rfl
  · cases q with
    | nil =>
      rw [List.append_nil]
      exact fun hmem => (hp '%' hmem).2 rfl
    | cons d q =>
      obtain ⟨rfl, -⟩ := List.cons.inj hq
      rw [hu c (List.mem_append_right p List.mem_cons_self)] at hc
      cases hc

/-- An argument that begins with a character that is not loose. -/
def Firm (a : List Char) : Prop := ∃ c rest, a = c :: rest ∧ isLoose c = false

theorem firm_quoteIdentifier (keyword : List Char → Bool) {s : List Char} (hs : s ≠ []) :
    Firm (quoteIdentifier keyword s) := by
  obtain ⟨c, w, hcons, hc⟩ := quoteIdentifier_head keyword hs
  refine ⟨c, w, hcons, ?_⟩
  rcases hc with hc | rfl
  · by_contra hloose
    rw [Bool.not_eq_false] at hloose
    simp only [isLoose, isSpace, Bool.or_eq_true, decide_eq_true_eq, List.mem_cons,
      List.not_mem_nil, or_false] at hloose
    rcases hloose with (rfl | rfl) | rfl | rfl | rfl | rfl | rfl | rfl <;> cases hc
  · decide

theorem convert_begins {type : Char} {s : List Char} (ha : Firm a)
    (h : f.convert type a = some s) : Begins s := by
  obtain ⟨c, rest, rfl, hc⟩ := ha
  unfold convert at h
  split_ifs at h <;> cases h
  · exact begins_cons hc rest
  · unfold quoteIdentifier
    split
    · exact begins_cons hc rest
    · exact begins_cons (by decide) _
  · have hquote : c ≠ '\'' := by
      rintro rfl
      cases hc
    unfold quoteLiteral
    split
    · exact begins_cons (by decide) _
    · next hslash =>
      have hbackslash : c ≠ '\\' := by
        rintro rfl
        exact hslash List.mem_cons_self
      have hbody : doubled '\\' (doubled '\'' (c :: rest)) =
          c :: doubled '\\' (doubled '\'' rest) := by
        simp [doubled, hquote, hbackslash]
      rw [hbody]
      have hp : ∀ d ∈ ['\''], isLoose d = true ∧ d ≠ '%' :=
        List.forall_mem_singleton.mpr ⟨rfl, by decide⟩
      exact Begins.prepend hp (begins_cons hc _)

theorem pad_begins {width : Int} {left : Bool} (ha : Begins a) : Begins (pad width left a) := by
  unfold pad
  split
  · exact ha.append _
  · refine Begins.prepend (fun d hd => ?_) ha
    rw [List.eq_of_mem_replicate hd]
    decide

/-- **What a specification writes** for such arguments. -/
theorem piece_begins (hargs : ∀ a ∈ f.args, Firm a) {spec : FormatSpec} {type : Char}
    {r : List Char × Nat} (h : f.piece spec type next = some r) : Begins r.1 := by
  obtain ⟨w, -, hpiece⟩ := Option.bind_eq_some_iff.mp h
  obtain ⟨a, harg, hconvert⟩ := Option.bind_eq_some_iff.mp hpiece
  obtain ⟨s, hs, rfl⟩ := Option.map_eq_some_iff.mp hconvert
  have ha : a ∈ f.args := by
    unfold arg at harg
    split_ifs at harg
    exact List.mem_of_getElem? harg
  exact pad_begins (convert_begins (hargs a ha) hs)

theorem next_ne {scan scan' : Scan} {c : Char} (h : scan.next c = some scan') :
    scan' ≠ .text ∧ scan' ≠ .percent := by
  cases scan <;> simp only [Scan.next] at h <;> (try split_ifs at h) <;>
    simp only [Option.map_eq_some_iff, Option.some.injEq, reduceCtorEq] at h <;>
    first
    | (subst h; exact ⟨nofun, nofun⟩)
    | (obtain ⟨n, -, rfl⟩ := h; exact ⟨nofun, nofun⟩)

/-- What stands after a percent sign that is not doubled. -/
theorem formatFrom_begins (hargs : ∀ a ∈ f.args, Firm a) {scan : Scan} {o : List Char}
    (hscan : scan ≠ .text) (hpercent : scan = .percent → a.head? ≠ some '%')
    (h : f.formatFrom scan next a = some o) : Begins o := by
  induction a generalizing scan with
  | nil =>
    rw [formatFrom, if_neg hscan] at h
    cases h
  | cons c a ih =>
    have hdoubled : ¬ ((scan = .percent && c = '%') = true) := by
      simp only [Bool.and_eq_true, decide_eq_true_eq, not_and]
      intro hs hc
      exact hpercent hs (congrArg some hc)
    rw [formatFrom, if_neg hscan, if_neg hdoubled] at h
    cases hnext : scan.next c with
    | some scan' =>
      rw [hnext] at h
      obtain ⟨htext, hne⟩ := next_ne hnext
      exact ih htext (fun hp => absurd hp hne) h
    | none =>
      rw [hnext] at h
      obtain ⟨spec, -, hspec⟩ := Option.bind_eq_some_iff.mp h
      obtain ⟨r, hpiece, hrest⟩ := Option.bind_eq_some_iff.mp hspec
      obtain ⟨o', -, rfl⟩ := Option.map_eq_some_iff.mp hrest
      exact (piece_begins hargs hpiece).append o'

/-- Nothing, or spaces and a character that is not loose. -/
def Settled (x : List Char) : Prop :=
  x = [] ∨ ∃ g c y, x = g ++ c :: y ∧ (∀ d ∈ g, isSpace d = true) ∧ isLoose c = false

theorem Settled.head {c : Char} {x : List Char} (h : Settled (c :: x)) : c ≠ '\'' ∧ c ≠ '%' := by
  obtain h | ⟨g, d, y, heq, hg, hd⟩ := h
  · cases h
  · cases g with
    | nil =>
      obtain ⟨rfl, -⟩ := List.cons.inj heq
      constructor <;> rintro rfl <;> cases hd
    | cons d g =>
      obtain ⟨rfl, -⟩ := List.cons.inj heq
      have hspace := hg c List.mem_cons_self
      constructor <;> rintro rfl <;> cases hspace

/-- Spaces and a quote do not begin it. -/
theorem Settled.not_quote {g x : List Char} (hg : ∀ d ∈ g, isSpace d = true) :
    ¬ Settled (g ++ '\'' :: x) := by
  rintro (h | ⟨g', d, y, heq, hg', hd⟩)
  · exact List.append_ne_nil_of_right_ne_nil g (List.cons_ne_nil _ _) h
  · have hdrop : ∀ (g : List Char) (c : Char) (x : List Char), (∀ d ∈ g, isSpace d = true) →
        isSpace c = false → (g ++ c :: x).dropWhile isSpace = c :: x := by
      intro g c x hg hc
      rw [List.dropWhile_append_of_pos hg, List.dropWhile_cons_of_neg (by simp [hc])]
    have hspace : isSpace d = false := by
      simp only [isLoose, Bool.or_eq_false_iff] at hd
      exact hd.2
    have hquote := congrArg (List.dropWhile isSpace) heq
    rw [hdrop g '\'' x hg (by decide), hdrop g' d y hg' hspace] at hquote
    obtain ⟨rfl, -⟩ := List.cons.inj hquote
    cases hd

/-- Loose characters that should have come out already. -/
def Loose (u : List Char) : Prop := ∀ c ∈ u, isLoose c = true

theorem Loose.append {u w : List Char} (hu : Loose u) (hw : Loose w) : Loose (u ++ w) :=
  fun c hc => (List.mem_append.mp hc).elim (hu c) (hw c)

theorem Loose.tail {c : Char} {u : List Char} (hu : Loose (c :: u)) : Loose u :=
  fun d hd => hu d (List.mem_cons_of_mem c hd)

theorem Loose.single {c : Char} (hc : isLoose c = true) : Loose [c] := by
  intro d hd
  rw [List.mem_singleton.mp hd]
  exact hc

theorem Loose.spaces {g : List Char} (hg : ∀ c ∈ g, isSpace c = true) : Loose g := by
  intro c hc
  rw [isLoose, hg c hc, Bool.or_true]

def Marked (u : List Char) : Prop := '\'' ∈ u ∨ '%' ∈ u

theorem Marked.ne_nil {u : List Char} (h : Marked u) : u ≠ [] := by
  rintro rfl
  exact h.elim List.not_mem_nil List.not_mem_nil

/-- The rest of a template has loose characters to write before what should come out. -/
def Strays (f : FormatCall) (x v : List Char) : Prop :=
  ∃ t next u, Unquoted x t ∧ f.formatFrom .text next t = some (u ++ v) ∧ Loose u ∧ Marked u

/-- A part `e` of a literal that should come out as it stands there, with `t` from it on: when the
output is behind by `u` at its beginning, it is behind at its end, where `x` is left of the literal
and `v` of the output.  Otherwise the part has no mark, or the output is behind at its end. -/
structure PassesOn (f : FormatCall) (t e x v : List Char) : Prop where
  text : ∀ next u, Loose u → (u = [] ∨ Marked u) →
    f.formatFrom .text next t = some (u ++ (e ++ v)) →
      u = [] ∧ ¬ Marked e ∨ Strays f x v
  percent : ∀ next u, Loose u → '%' ∈ u →
    f.formatFrom .percent next t = some (u ++ (e ++ v)) → Strays f x v

/-- A specification writes no percent sign before it writes its argument. -/
theorem percent_of_formatFrom (hargs : ∀ a ∈ f.args, Firm a) {t u v : List Char}
    (h : f.formatFrom .percent next t = some (u ++ v)) (hu : Loose u) (hmem : '%' ∈ u) :
    t.head? = some '%' := by
  by_contra hhead
  have hbegins := formatFrom_begins hargs (by decide) (fun _ => hhead) h
  exact hbegins.not_percent hu hmem

theorem PassesOn.behind {t e x v u : List Char} (h : PassesOn f t e x v) (hu : Loose u)
    (hmark : Marked u) (hout : f.formatFrom .text next t = some (u ++ (e ++ v))) :
    Strays f x v :=
  (h.text next u hu (Or.inr hmark) hout).resolve_left fun hnil => hmark.ne_nil hnil.1

theorem passesOn_nil (hargs : ∀ a ∈ f.args, Firm a) {x t v : List Char} (hx : Unquoted x t)
    (hsettled : Settled x) : PassesOn f t [] x v := by
  constructor
  · intro next u hu hmark hout
    obtain rfl | hmark := hmark
    · exact Or.inl ⟨rfl, fun hnil => hnil.ne_nil rfl⟩
    · exact Or.inr ⟨t, next, u, hx, hout, hu, hmark⟩
  · intro next u hu hmem hout
    have hhead := percent_of_formatFrom hargs hout hu hmem
    cases hx with
    | nil => cases hhead
    | char => exact absurd (Option.some.inj hhead) hsettled.head.2
    | pair => exact absurd rfl hsettled.head.1
    | gap => exact absurd rfl hsettled.head.1

theorem PassesOn.char (hargs : ∀ a ∈ f.args, Firm a) {c : Char} {t e x v : List Char}
    (hc : c ≠ '\'') (h : PassesOn f t e x v) : PassesOn f (c :: t) (c :: e) x v := by
  by_cases hpercent : c = '%'
  · subst hpercent
    have hloose : Loose ['%'] := Loose.single (by decide)
    constructor
    · intro next u hu _ hout
      -- a percent sign in the text opens a conversion
      rw [formatFrom, if_pos rfl, if_pos rfl, List.cons_append, List.append_cons] at hout
      exact Or.inr (h.percent next (u ++ ['%']) (hu.append hloose) (by simp) hout)
    · intro next u hu hmem hout
      -- behind a percent sign it makes the two of them one
      rw [formatFrom, if_neg (by decide), if_pos (by decide)] at hout
      obtain ⟨o, ho, hcons⟩ := Option.map_eq_some_iff.mp hout
      obtain ⟨b, u, rfl⟩ := List.exists_cons_of_ne_nil (List.ne_nil_of_mem hmem)
      obtain ⟨-, rfl⟩ := List.cons.inj hcons
      rw [List.append_eq, List.cons_append, List.append_cons] at ho
      exact h.behind (hu.tail.append hloose) (Or.inr (by simp)) ho
  · constructor
    · intro next u hu hmark hout
      rw [formatFrom, if_pos rfl, if_neg hpercent] at hout
      obtain ⟨o, ho, hcons⟩ := Option.map_eq_some_iff.mp hout
      cases u with
      | nil =>
        obtain ⟨-, rfl⟩ := List.cons.inj hcons
        refine (h.text next [] hu (Or.inl rfl) ho).imp_left fun hclear => ⟨rfl, ?_⟩
        rintro (hmem | hmem)
        · exact hclear.2 (Or.inl ((List.mem_cons.mp hmem).resolve_left (Ne.symm hc)))
        · exact hclear.2 (Or.inr ((List.mem_cons.mp hmem).resolve_left (Ne.symm hpercent)))
      | cons b u =>
        obtain ⟨rfl, rfl⟩ := List.cons.inj hcons
        rw [List.append_eq, List.cons_append, List.append_cons] at ho
        have hloose : Loose [c] := Loose.single (hu c List.mem_cons_self)
        have hmark' : Marked (u ++ [c]) := by
          obtain hnil | hmem | hmem := hmark
          · cases hnil
          · exact Or.inl (List.mem_append_left _
              ((List.mem_cons.mp hmem).resolve_left (Ne.symm hc)))
          · exact Or.inr (List.mem_append_left _
              ((List.mem_cons.mp hmem).resolve_left (Ne.symm hpercent)))
        exact Or.inr (h.behind (hu.tail.append hloose) hmark' ho)
    · intro next u hu hmem hout
      have hhead := percent_of_formatFrom hargs hout hu hmem
      exact absurd (Option.some.inj hhead) hpercent

/-- The literal takes one of two quotes away. -/
theorem PassesOn.pair (hargs : ∀ a ∈ f.args, Firm a) {t e x v : List Char}
    (h : PassesOn f t e x v) : PassesOn f ('\'' :: t) ('\'' :: '\'' :: e) x v := by
  have hloose : Loose ['\''] := Loose.single (by decide)
  constructor
  · intro next u hu _ hout
    rw [formatFrom, if_pos rfl, if_neg (by decide)] at hout
    obtain ⟨o, ho, hcons⟩ := Option.map_eq_some_iff.mp hout
    cases u with
    | nil =>
      obtain ⟨-, rfl⟩ := List.cons.inj hcons
      rw [List.append_eq, List.cons_append, ← List.singleton_append] at ho
      exact Or.inr (h.behind hloose (Or.inl (by simp)) ho)
    | cons b u =>
      obtain ⟨-, rfl⟩ := List.cons.inj hcons
      rw [List.append_eq, List.cons_append, List.append_cons, List.cons_append,
        List.append_cons] at ho
      have hmore := (hu.tail.append hloose).append hloose
      exact Or.inr (h.behind hmore (Or.inl (by simp)) ho)
  · intro next u hu hmem hout
    exact absurd (percent_of_formatFrom hargs hout hu hmem) (by simp)

/-- The literal takes a gap away. -/
theorem PassesOn.gap {g t e x v : List Char} (hg : ∀ c ∈ g, isSpace c = true)
    (h : PassesOn f t e x v) : PassesOn f t ('\'' :: (g ++ '\'' :: e)) x v := by
  have hloose : Loose ['\''] := Loose.single (by decide)
  have hgap : Loose (['\''] ++ (g ++ ['\''])) := hloose.append ((Loose.spaces hg).append hloose)
  have hsplit : ∀ u : List Char, u ++ ('\'' :: (g ++ '\'' :: e) ++ v) =
      u ++ (['\''] ++ (g ++ ['\''])) ++ (e ++ v) := by simp
  constructor
  · intro next u hu _ hout
    rw [hsplit] at hout
    exact Or.inr (h.behind (hu.append hgap) (Or.inl (by simp)) hout)
  · intro next u hu hmem hout
    rw [hsplit] at hout
    exact h.percent next _ (hu.append hgap) (List.mem_append_left _ hmem) hout

/-- **A part of a literal**, by what stands between the quotes. -/
theorem passesOn_of_unquoted (hargs : ∀ a ∈ f.args, Firm a) {r t : List Char}
    (h : Unquoted r t) {e x v : List Char} (hr : r = e ++ x) (hx : Settled x) :
    PassesOn f t e x v := by
  induction h generalizing e with
  | nil =>
    obtain ⟨rfl, rfl⟩ := List.append_eq_nil_iff.mp hr.symm
    exact passesOn_nil hargs .nil hx
  | @char c r t hc h ih =>
    cases e with
    | nil =>
      cases hr
      exact passesOn_nil hargs (.char hc h) hx
    | cons d e =>
      obtain ⟨rfl, htail⟩ := List.cons.inj hr
      exact PassesOn.char hargs hc (ih htail)
  | @pair r t h ih =>
    have hquote : ∀ {y}, x ≠ '\'' :: y := by
      rintro y rfl
      exact hx.head.1 rfl
    cases e with
    | nil => exact absurd hr.symm hquote
    | cons d e =>
      obtain ⟨rfl, htail⟩ := List.cons.inj hr
      cases e with
      | nil => exact absurd htail.symm hquote
      | cons d e =>
        obtain ⟨rfl, hrest⟩ := List.cons.inj htail
        exact PassesOn.pair hargs (ih hrest)
  | @gap g r t hg hline h ih =>
    have hquote : ∀ {y}, x ≠ '\'' :: y := by
      rintro y rfl
      exact hx.head.1 rfl
    cases e with
    | nil => exact absurd hr.symm hquote
    | cons d e =>
      obtain ⟨rfl, htail⟩ := List.cons.inj hr
      -- the part has the whole of the gap, since what follows does not begin with a quote
      rcases List.append_eq_append_iff.mp htail with ⟨q, rfl, hq⟩ | ⟨q, rfl, rfl⟩
      · cases q with
        | nil => exact absurd hq.symm hquote
        | cons b q =>
          obtain ⟨rfl, hrest⟩ := List.cons.inj hq
          exact PassesOn.gap hg (ih hrest)
      · refine absurd hx (Settled.not_quote fun d hd => ?_)
        exact hg d (List.mem_append_right e hd)

/-- The output is not behind at spaces and a character that is not loose. -/
theorem not_strays {g r v : List Char} {c : Char} (hg : ∀ d ∈ g, isSpace d = true)
    (hc : isLoose c = false) : ¬ Strays f (g ++ c :: r) v := by
  rintro ⟨t, next, u, hx, hout, hu, hmark⟩
  have hplain : ∀ d ∈ g, d ≠ '\'' ∧ d ≠ '%' := by
    intro d hd
    have hspace := hg d hd
    constructor <;> rintro rfl <;> cases hspace
  have hquote : c ≠ '\'' := by
    rintro rfl
    cases hc
  have hpercent : c ≠ '%' := by
    rintro rfl
    cases hc
  obtain ⟨t, rfl, ht⟩ := hx.drop fun hmem => (hplain _ hmem).1 rfl
  obtain ⟨t, rfl, -⟩ := Unquoted.tail hquote ht
  rw [formatFrom_append fun hmem => (hplain _ hmem).2 rfl, formatFrom, if_pos rfl,
    if_neg hpercent] at hout
  obtain ⟨o, ho, heq⟩ := Option.map_eq_some_iff.mp hout
  obtain ⟨o, -, rfl⟩ := Option.map_eq_some_iff.mp ho
  have hsub : ∀ d ∈ u, d ∈ g := by
    rcases List.append_eq_append_iff.mp heq with ⟨q, rfl, hq⟩ | ⟨q, rfl, -⟩
    · cases q with
      | nil =>
        rw [List.append_nil]
        exact fun d hd => hd
      | cons b q =>
        obtain ⟨rfl, -⟩ := List.cons.inj hq
        rw [hu c (List.mem_append_right g List.mem_cons_self)] at hc
        cases hc
    · exact fun d hd => List.mem_append_left q hd
  rcases hmark with hmem | hmem
  · exact (hplain _ (hsub _ hmem)).1 rfl
  · exact (hplain _ (hsub _ hmem)).2 rfl

/-- A part without quotes is in the literal that begins with it. -/
theorem exists_literal {r rest y : List Char} (ha : '\'' ∉ a)
    (hr : r ++ '\'' :: rest = a ++ y) : ∃ r', r = a ++ r' ∧ y = r' ++ '\'' :: rest := by
  rcases List.append_eq_append_iff.mp hr with ⟨q, rfl, hq⟩ | ⟨q, rfl, hq⟩
  · cases q with
    | nil => exact ⟨[], by simp, hq.symm⟩
    | cons b q =>
      obtain ⟨rfl, -⟩ := List.cons.inj hq
      exact absurd (List.mem_append_right r List.mem_cons_self) ha
  · exact ⟨q, rfl, hq⟩

/-- **A part that comes out as it stands in the text of the statement** has no quote and no percent
sign, and the literal goes on behind it. -/
theorem clear_of_format (hargs : ∀ a ∈ f.args, Firm a) {r t rest e g y v : List Char} {c : Char}
    (h : Unquoted r t) (hg : ∀ d ∈ g, isSpace d = true) (hc : isLoose c = false)
    (hr : r ++ '\'' :: rest = e ++ (g ++ c :: y))
    (hout : f.formatFrom .text next t = some (e ++ v)) :
    ¬ Marked e ∧ ∃ r', r = e ++ (g ++ c :: r') ∧ y = r' ++ '\'' :: rest := by
  have hplain : '\'' ∉ g ++ [c] := by
    intro hmem
    rcases List.mem_append.mp hmem with hmem | hmem
    · cases hg _ hmem
    · rw [← List.mem_singleton.mp hmem] at hc
      cases hc
  rcases List.append_eq_append_iff.mp hr with ⟨q, rfl, hq⟩ | ⟨q, rfl, hq⟩
  · -- the literal ends in the part
    have hcut : ∃ q', q = '\'' :: q' := by
      cases q with
      | nil =>
        rw [List.nil_append, List.append_cons] at hq
        obtain ⟨r', hr', -⟩ := exists_literal (r := []) hplain hq
        simp at hr'
      | cons b q =>
        obtain ⟨rfl, -⟩ := List.cons.inj hq
        exact ⟨q, rfl⟩
    obtain ⟨q, rfl⟩ := hcut
    have hpasses : PassesOn f t r [] ('\'' :: q ++ v) :=
      passesOn_of_unquoted hargs h (by simp) (Or.inl rfl)
    rw [List.append_assoc] at hout
    rcases hpasses.text next [] (List.forall_mem_nil _) (Or.inl rfl) hout with
      ⟨-, hclear⟩ | ⟨t', next', u, ht', hout', -, hmark⟩
    · have ht : t = r := by
        rw [← List.append_nil r] at h
        obtain ⟨t', rfl, ht'⟩ := h.drop fun hmem => hclear (Or.inl hmem)
        cases ht'
        rw [List.append_nil]
      rw [ht, formatFrom_text fun hmem => hclear (Or.inr hmem), Option.some.injEq] at hout
      simp at hout
    · cases ht'
      rw [formatFrom, if_pos rfl, Option.some.injEq] at hout'
      exact absurd (List.append_eq_nil_iff.mp hout'.symm).1 hmark.ne_nil
  · rw [List.append_cons] at hq
    obtain ⟨r', rfl, rfl⟩ := exists_literal hplain hq.symm
    have hrest : g ++ [c] ++ r' = g ++ c :: r' := by simp
    rw [hrest] at h ⊢
    have hpasses : PassesOn f t e (g ++ c :: r') v :=
      passesOn_of_unquoted hargs h rfl (Or.inr ⟨g, c, r', rfl, hg, hc⟩)
    rcases hpasses.text next [] (List.forall_mem_nil _) (Or.inl rfl) hout with hclear | hstrays
    · exact ⟨hclear.2, r', rfl, rfl⟩
    · exact absurd hstrays (not_strays hg hc)

end Verbatim

end FormatCall

end SqlText

end PgSynapse
