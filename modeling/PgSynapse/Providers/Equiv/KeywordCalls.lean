import PgSynapse.Lib.Matched
import PgSynapse.Lib.Separators
import PgSynapse.Providers.Equiv.Formats
import PgSynapse.Serde.Equiv.Print

/-!
# Keyword calls are read back

Calls with keyword arguments, one on each line of a fenced block, are read back exactly when there is
one of them and its arguments are split where they were joined (`keyword_calls_read_back_iff`): the
scanner stops at its first call, and counts brackets and commas inside of strings as well.

That a wrong split cannot give the right arguments is a matter of weight: every comma of a value that
is read is one of its text, or an escape in it.
-/

namespace PgSynapse.Extraction

/-! ### The format -/

/-- A call of a reply. -/
structure KeywordCall where
  name : String
  args : List (String × Value)

namespace KeywordCall

/-- An argument as it is written. -/
def argText (a : String × Value) : List Char := a.1.toList ++ '=' :: a.2.print

/-- The arguments as they are written. -/
def argsText (c : KeywordCall) : List Char := ", ".toList.intercalate (c.args.map argText)

/-- The line of a call. -/
def line (c : KeywordCall) : List Char := c.name.toList ++ '(' :: (c.argsText ++ [')'])

/-- The call is of a known tool, its keys are identifiers, each of which it has once, and its values
are read back. -/
structure WellWritten (ext : Extraction) (toolNames : List String) (c : KeywordCall) : Prop where
  name : c.name ∈ toolNames
  args : c.args ≠ []
  keys : ∀ a ∈ c.args, Text.IsIdentifier a.1
  nodup : (c.args.map Prod.fst).Nodup
  reads : ∀ a ∈ c.args, ext.fromStr a.2.toText = some a.2

end KeywordCall

/-- The fenced block of a reply. -/
def fence (calls : List KeywordCall) : List Char :=
  "```python\n".toList ++ (calls.flatMap (fun c => c.line ++ ['\n']) ++ "```".toList)

/-! ### Weight -/

/-- The commas of a text, with its control characters and its `\u` escapes. -/
def weight : List Char → Nat
  | [] => 0
  | c :: cs =>
    (if c = ',' ∨ c.toNat < 0x20 ∨ (c = '\\' ∧ cs.head? = some 'u') then 1 else 0) + weight cs

theorem weight_append_cons {c : Char} (hc : c ≠ 'u') (s t : List Char) :
    weight (s ++ c :: t) = weight s + weight (c :: t) := by
  induction s with
  | nil => simp [weight]
  | cons d s ih =>
    have hhead : (s ++ c :: t).head? = some 'u' ↔ s.head? = some 'u' := by
      cases s with
      | nil => simp [hc]
      | cons e s => rfl
    simp only [List.cons_append, weight, ih, hhead, Nat.add_assoc]

theorem countsSeparator_weight : CountsSeparator weight ',' := fun s t => by
  have hcomma : weight (',' :: t) = 1 + weight t := rfl
  rw [weight_append_cons (by decide), hcomma, Nat.add_assoc]

theorem weight_append_le (s t : List Char) : weight s + weight t ≤ weight (s ++ t) := by
  induction s with
  | nil => simp [weight]
  | cons c s ih =>
    have hhead : s.head? = some 'u' → (s ++ t).head? = some 'u' := by
      cases s with
      | nil => exact nofun
      | cons d s => exact id
    rw [List.cons_append, weight, weight]
    by_cases h : c = ',' ∨ c.toNat < 0x20 ∨ (c = '\\' ∧ s.head? = some 'u')
    · have h' : c = ',' ∨ c.toNat < 0x20 ∨ (c = '\\' ∧ (s ++ t).head? = some 'u') :=
        h.imp_right (Or.imp_right (And.imp_right hhead))
      rw [if_pos h, if_pos h']
      omega
    · rw [if_neg h]
      omega

/-- A part of a text weighs no more. -/
theorem weight_le_of_isInfix {s t : List Char} (h : s <:+: t) : weight s ≤ weight t := by
  obtain ⟨pre, post, rfl⟩ := h
  have hpre := weight_append_le pre s
  have hpost := weight_append_le (pre ++ s) post
  omega

/-- Hexadecimal digits weigh nothing. -/
theorem weight_hexDigit {n : Nat} (hn : n < 16) (t : List Char) :
    weight (Nat.digitChar n :: t) = weight t := by
  have hchar : Nat.digitChar n ≠ ',' ∧ ¬ (Nat.digitChar n).toNat < 0x20 ∧ Nat.digitChar n ≠ '\\' := by
    revert n
    decide
  rw [weight, if_neg (by simp [hchar]), Nat.zero_add]

theorem head?_escape {s : List Char} (h : (s.flatMap Value.escapeChar).head? = some 'u') :
    s.head? = some 'u' := by
  cases s with
  | nil => exact h
  | cons c s =>
    rw [List.flatMap_cons, Value.escapeChar] at h
    split_ifs at h <;> simp_all

/-- A character that is escaped with another one. -/
theorem weight_escaped {c : Char} (hu : c ≠ 'u') (t : List Char) :
    weight ('\\' :: c :: t) = weight (c :: t) := by
  rw [weight, if_neg (by simp [hu]), Nat.zero_add]

/-- A character that weighs nothing wherever it stands. -/
theorem weight_light {c : Char} (hcomma : c ≠ ',') (hcontrol : ¬ c.toNat < 0x20) (hslash : c ≠ '\\')
    (t : List Char) : weight (c :: t) = weight t := by
  rw [weight, if_neg (by simp [hcomma, hcontrol, hslash]), Nat.zero_add]

/-- **Escaping** a text adds no weight. -/
theorem weight_escape (s : List Char) : weight (s.flatMap Value.escapeChar) ≤ weight s := by
  induction s with
  | nil => exact le_refl 0
  | cons c s ih =>
    rw [List.flatMap_cons]
    generalize ht : s.flatMap Value.escapeChar = t at ih
    -- an escape of two characters
    have short : ∀ d : Char, d ≠ 'u' → d ≠ ',' → ¬ d.toNat < 0x20 → d ≠ '\\' →
        weight (['\\', d] ++ t) ≤ weight (c :: s) := by
      intro d hu hcomma hcontrol hslash
      rw [List.cons_append, List.singleton_append, weight_escaped hu,
        weight_light hcomma hcontrol hslash, weight]
      omega
    rw [Value.escapeChar]
    by_cases hquote : c = '"'
    · rw [if_pos hquote]
      exact short '"' (by decide) (by decide) (by decide) (by decide)
    rw [if_neg hquote]
    by_cases hslash : c = '\\'
    · have hhead : t.head? = some 'u' → s.head? = some 'u' := ht ▸ head?_escape
      rw [if_pos hslash, List.cons_append, List.singleton_append, weight_escaped (by decide), weight,
        weight]
      by_cases hu : t.head? = some 'u'
      · simp only [hu, hhead hu, hslash]
        omega
      · rw [if_neg (by simp [hu])]
        omega
    rw [if_neg hslash]
    by_cases hnewline : c = '\n'
    · rw [if_pos hnewline]
      exact short 'n' (by decide) (by decide) (by decide) (by decide)
    rw [if_neg hnewline]
    by_cases hreturn : c = '\r'
    · rw [if_pos hreturn]
      exact short 'r' (by decide) (by decide) (by decide) (by decide)
    rw [if_neg hreturn]
    by_cases htab : c = '\t'
    · rw [if_pos htab]
      exact short 't' (by decide) (by decide) (by decide) (by decide)
    rw [if_neg htab]
    by_cases hback : c.toNat = 8
    · rw [if_pos hback]
      exact short 'b' (by decide) (by decide) (by decide) (by decide)
    rw [if_neg hback]
    by_cases hfeed : c.toNat = 12
    · rw [if_pos hfeed]
      exact short 'f' (by decide) (by decide) (by decide) (by decide)
    rw [if_neg hfeed]
    by_cases hcontrol : c.toNat < 0x20
    · have hhex := weight_hexDigit (by omega : c.toNat / 16 < 16)
        (Nat.digitChar (c.toNat % 16) :: t)
      have hhex' := weight_hexDigit (by omega : c.toNat % 16 < 16) t
      have hescape : weight ('\\' :: 'u' :: '0' :: '0' :: Nat.digitChar (c.toNat / 16) ::
          Nat.digitChar (c.toNat % 16) :: t) = 1 + weight t := by
        rw [weight, if_pos (by simp), weight_light (by decide) (by decide) (by decide),
          weight_light (by decide) (by decide) (by decide),
          weight_light (by decide) (by decide) (by decide), hhex, hhex']
      rw [if_pos hcontrol]
      simp only [List.cons_append, List.nil_append]
      rw [hescape, weight, if_pos (.inr (.inl hcontrol))]
      omega
    · rw [if_neg hcontrol, List.singleton_append, weight, weight]
      simp only [hslash, hcontrol, false_and, or_false]
      omega

/-- A text as a string weighs no more. -/
theorem weight_string (s : List Char) :
    weight (Value.string (String.ofList s)).print ≤ weight s := by
  have hquote : ∀ t, weight ('"' :: t) = weight t :=
    weight_light (by decide) (by decide) (by decide)
  have hprint : (Value.string (String.ofList s)).print =
      '"' :: (s.flatMap Value.escapeChar ++ ['"']) := by
    rw [Value.print, Value.printString, String.toList_ofList, List.cons_append]
  rw [hprint, hquote, weight_append_cons (by decide), hquote]
  exact weight_escape s

/-! ### The splitter -/

/-- The depth of brackets after a text. -/
def depthAfter (depth : Int32) (s : List Char) : Int32 := s.foldl (fun d c => bracketDepth c d) depth

/-- A comma of the text stands outside all brackets, as the splitter counts them. -/
def TopLevelComma (s : List Char) : Prop :=
  ∃ pre post, s = pre ++ ',' :: post ∧ depthAfter 0 pre = 0

theorem depthAfter_append (depth : Int32) (s t : List Char) :
    depthAfter depth (s ++ t) = depthAfter (depthAfter depth s) t := List.foldl_append

/-- The splitter goes over a text without a top-level comma. -/
theorem topLevelTokens_append {s : List Char} {depth : Int32}
    (h : ∀ pre post, s = pre ++ ',' :: post → depthAfter depth pre ≠ 0)
    (current rest : List Char) :
    topLevelTokens current (s ++ rest) depth =
      topLevelTokens (current ++ s) rest (depthAfter depth s) := by
  induction s generalizing current depth with
  | nil =>
    rw [List.nil_append, List.append_nil]
    rfl
  | cons c s ih =>
    have hc : ¬ (c = ',' ∧ depth = 0) := by
      rintro ⟨rfl, rfl⟩
      exact h [] s rfl rfl
    have hrest : ∀ pre post, s = pre ++ ',' :: post → depthAfter (bracketDepth c depth) pre ≠ 0 :=
      fun pre post heq => h (c :: pre) post (by rw [heq]; rfl)
    rw [List.cons_append, topLevelTokens, if_neg hc, ih hrest, List.append_assoc]
    rfl

theorem topLevelTokens_ne_nil (current s : List Char) (depth : Int32) :
    topLevelTokens current s depth ≠ [] := by
  induction s generalizing current depth with
  | nil => exact List.cons_ne_nil _ _
  | cons c s ih =>
    rw [topLevelTokens]
    split
    · exact List.cons_ne_nil _ _
    · exact ih _ _

/-- One more character makes no top-level comma, unless it is one. -/
theorem not_topLevelComma_concat {s : List Char} {c : Char} (hs : ¬ TopLevelComma s)
    (hc : ¬ (c = ',' ∧ depthAfter 0 s = 0)) : ¬ TopLevelComma (s ++ [c]) := by
  rintro ⟨pre, post, heq, hdepth⟩
  cases post using List.reverseRecOn with
  | nil =>
    obtain ⟨rfl, hlast⟩ := List.append_inj' heq rfl
    exact hc ⟨List.singleton_inj.mp hlast, hdepth⟩
  | append_singleton post d =>
    rw [← List.cons_append, ← List.append_assoc] at heq
    obtain ⟨rfl, -⟩ := List.append_inj' heq rfl
    exact hs ⟨pre, post, rfl, hdepth⟩

theorem not_topLevelComma_nil : ¬ TopLevelComma [] := by
  rintro ⟨pre, post, heq, -⟩
  exact List.append_ne_nil_of_right_ne_nil pre (List.cons_ne_nil _ _) heq.symm

/-- **The tokens** join up to the text, hold no top-level comma, and all but the last are closed. -/
theorem topLevelTokens_spec {current : List Char} (s : List Char)
    (hcurrent : ¬ TopLevelComma current) :
    [','].intercalate (topLevelTokens current s (depthAfter 0 current)) = current ++ s ∧
    (∀ t ∈ topLevelTokens current s (depthAfter 0 current), ¬ TopLevelComma t) ∧
    ∀ t ∈ (topLevelTokens current s (depthAfter 0 current)).dropLast, depthAfter 0 t = 0 := by
  induction s generalizing current with
  | nil =>
    rw [topLevelTokens, List.append_nil]
    exact ⟨List.intercalate_singleton, List.forall_mem_singleton.mpr hcurrent,
      List.forall_mem_nil _⟩
  | cons c s ih =>
    rw [topLevelTokens]
    by_cases hc : c = ',' ∧ depthAfter 0 current = 0
    · obtain ⟨rfl, hdepth⟩ := hc
      obtain ⟨hjoin, htokens, hclosed⟩ := ih not_topLevelComma_nil
      have hzero : depthAfter 0 [] = 0 := rfl
      rw [hzero] at hjoin htokens hclosed
      rw [if_pos ⟨rfl, hdepth⟩, hdepth]
      have hne := topLevelTokens_ne_nil [] s 0
      generalize topLevelTokens [] s 0 = tokens at hjoin htokens hclosed hne
      obtain ⟨token, tokens, rfl⟩ := List.exists_cons_of_ne_nil hne
      refine ⟨?_, List.forall_mem_cons.mpr ⟨hcurrent, htokens⟩, ?_⟩
      · rw [List.intercalate_cons_cons, hjoin, List.append_assoc]
        rfl
      · rw [List.dropLast_cons_of_ne_nil (List.cons_ne_nil _ _)]
        exact List.forall_mem_cons.mpr ⟨hdepth, hclosed⟩
    · have hnext : depthAfter 0 (current ++ [c]) = bracketDepth c (depthAfter 0 current) := by
        rw [depthAfter_append]
        rfl
      have h := ih (not_topLevelComma_concat hcurrent hc)
      rw [hnext, List.append_assoc] at h
      rwa [if_neg hc]

/-- The tokens of a whole text. -/
theorem topLevelTokens_split (s : List Char) :
    [','].intercalate (topLevelTokens [] s 0) = s ∧
    (∀ t ∈ topLevelTokens [] s 0, ¬ TopLevelComma t) ∧
    ∀ t ∈ (topLevelTokens [] s 0).dropLast, depthAfter 0 t = 0 :=
  topLevelTokens_spec s not_topLevelComma_nil

/-- **Parts are tokens** exactly when they have no top-level comma and all but the last are
closed. -/
theorem topLevelTokens_intercalate_iff {parts : List (List Char)} (hne : parts ≠ []) :
    topLevelTokens [] ([','].intercalate parts) 0 = parts ↔
      (∀ p ∈ parts, ¬ TopLevelComma p) ∧ ∀ p ∈ parts.dropLast, depthAfter 0 p = 0 := by
  constructor
  · intro h
    have hspec := (topLevelTokens_split ([','].intercalate parts)).2
    rwa [h] at hspec
  · rintro ⟨hparts, hclosed⟩
    induction parts with
    | nil => exact absurd rfl hne
    | cons part parts ih =>
      obtain ⟨hpart, hparts⟩ := List.forall_mem_cons.mp hparts
      have hscan : ∀ pre post, part = pre ++ ',' :: post → depthAfter 0 pre ≠ 0 :=
        fun pre post heq hdepth => hpart ⟨pre, post, heq, hdepth⟩
      cases parts with
      | nil =>
        have h := topLevelTokens_append hscan [] []
        rw [List.append_nil, List.nil_append] at h
        rw [List.intercalate_singleton, h]
        rfl
      | cons next parts =>
        rw [List.dropLast_cons_of_ne_nil (List.cons_ne_nil _ _)] at hclosed
        obtain ⟨hdepth, hclosed⟩ := List.forall_mem_cons.mp hclosed
        rw [List.intercalate_cons_cons, List.append_assoc, topLevelTokens_append hscan, hdepth,
          List.singleton_append, topLevelTokens, if_pos ⟨rfl, rfl⟩,
          ih (List.cons_ne_nil _ _) hparts hclosed, List.nil_append]

/-- A text without a top-level comma is one token. -/
theorem topLevelTokens_eq_singleton_iff {s : List Char} :
    topLevelTokens [] s 0 = [s] ↔ ¬ TopLevelComma s := by
  have h := topLevelTokens_intercalate_iff (List.cons_ne_nil s [])
  rwa [List.intercalate_singleton, List.forall_mem_singleton, List.dropLast_singleton,
    and_iff_left (List.forall_mem_nil _)] at h

instance (s : List Char) : Decidable (TopLevelComma s) :=
  decidable_of_iff (topLevelTokens [] s 0 ≠ [s]) (topLevelTokens_eq_singleton_iff.not.trans not_not)

/-! ### Written arguments -/

/-- A text is an argument as it is written, with spaces before it. -/
def IsPiece (piece : List Char) (a : String × Value) : Prop :=
  ∃ spaces, (∀ c ∈ spaces, c = ' ') ∧ piece = spaces ++ KeywordCall.argText a

/-- The arguments between the commas that join them. -/
def pieces : List (String × Value) → List (List Char)
  | [] => []
  | a :: args => KeywordCall.argText a :: args.map fun a => ' ' :: KeywordCall.argText a

theorem argsText_eq (c : KeywordCall) : c.argsText = [','].intercalate (pieces c.args) := by
  rw [KeywordCall.argsText]
  cases c.args with
  | nil => rfl
  | cons a args =>
    rw [List.map_cons, intercalate_eq, pieces, intercalate_cons, List.flatMap_map,
      List.flatMap_map]
    rfl

theorem pieces_forall₂ (args : List (String × Value)) : List.Forall₂ IsPiece (pieces args) args := by
  cases args with
  | nil => exact .nil
  | cons a args =>
    refine .cons ⟨[], List.forall_mem_nil _, rfl⟩ ?_
    rw [List.forall₂_map_left_iff, List.forall₂_same]
    exact fun a _ => ⟨[' '], List.forall_mem_singleton.mpr rfl, rfl⟩

theorem pieces_ne_nil {args : List (String × Value)} (hne : args ≠ []) : pieces args ≠ [] := by
  intro hnil
  have hall := pieces_forall₂ args
  rw [hnil] at hall
  exact hne (List.forall₂_nil_left_iff.mp hall)

theorem space_white {spaces : List Char} (h : ∀ c ∈ spaces, c = ' ') :
    ∀ c ∈ spaces, Text.isWhitespace c = true := fun c hc => by
  rw [h c hc]
  decide

section Keys

variable {key : String} {spaces : List Char}

/-- What stands before the value of an argument is tight. -/
theorem tight_key (hkey : Text.IsIdentifier key) : Text.Tight (key.toList ++ ['=']) := by
  have hequals : Text.Tight ['='] :=
    Text.tight_of_forall (by decide) (List.forall_mem_singleton.mpr (by decide))
  have h := hkey.tight.append hequals []
  rwa [List.append_nil] at h

/-- The split of a trimmed token at its first equals sign. -/
theorem kwargOf_of_trim (hkey : Text.IsIdentifier key) {token t : List Char}
    (h : trim token = key.toList ++ '=' :: t) : kwargOf token = some (key.toList, trim t) := by
  have hequals : '=' ∉ key.toList := hkey.not_mem (by decide)
  have hsplit : splitOnce "=".toList (trim token) = some (key.toList, t) := by
    rw [h]
    exact splitOnce_singleton hequals t
  have htrim : trim key.toList = key.toList := hkey.tight.trim_eq
  have hspace : ' ' ∉ key.toList := hkey.not_mem (by decide)
  rw [kwargOf, hsplit, Option.bind_some]
  simp only [htrim]
  rw [if_neg (not_or.mpr ⟨hkey.1, hspace⟩)]

/-- A token that starts with a key has it as its key. -/
theorem kwargOf_key (hkey : Text.IsIdentifier key) (hspaces : ∀ c ∈ spaces, c = ' ')
    (t : List Char) : ∃ raw, kwargOf (spaces ++ (key.toList ++ '=' :: t)) = some (key.toList, raw) := by
  obtain ⟨t', ht'⟩ := (tight_key hkey).trim_append (space_white hspaces) t
  have htext : spaces ++ (key.toList ++ '=' :: t) = spaces ++ (key.toList ++ ['=']) ++ t := by simp
  refine ⟨_, kwargOf_of_trim (t := t') hkey ?_⟩
  rw [htext, trim, ht', List.append_assoc, List.singleton_append]

/-- **A written argument** has its key and the text of its value. -/
theorem kwargOf_piece {a : String × Value} (hkey : Text.IsIdentifier a.1) {piece : List Char}
    (h : IsPiece piece a) : kwargOf piece = some (a.1.toList, a.2.print) := by
  obtain ⟨spaces, hspaces, rfl⟩ := h
  have htight : Text.Tight (KeywordCall.argText a) := by
    have h := hkey.tight.append (Value.print_tight a.2) ['=']
    rwa [List.append_assoc, List.singleton_append] at h
  have htrim : trim (spaces ++ KeywordCall.argText a) = KeywordCall.argText a := by
    have h := htight.trim_pad (space_white hspaces) (List.forall_mem_nil _)
    rwa [List.append_nil] at h
  have hvalue : trim a.2.print = a.2.print := (Value.print_tight a.2).trim_eq
  rw [kwargOf_of_trim hkey htrim, hvalue]

end Keys

/-- A character that splits nothing and weighs nothing, wherever it stands. -/
def IsPlain (c : Char) : Prop :=
  c ∉ [',', '(', ')', '[', ']', '\x7b', '\x7d', '\\'] ∧ ¬ c.toNat < 0x20

instance : DecidablePred IsPlain := fun _ => inferInstanceAs (Decidable (_ ∧ _))

/-- What stands before the value of an argument. -/
theorem piece_eq {piece : List Char} {a : String × Value} (h : IsPiece piece a)
    (hkey : Text.IsIdentifier a.1) : ∃ pre, piece = pre ++ a.2.print ∧
      (∃ spaces, (∀ c ∈ spaces, c = ' ') ∧ pre = spaces ++ (a.1.toList ++ ['='])) ∧
      ∀ c ∈ pre, IsPlain c := by
  obtain ⟨spaces, hspaces, rfl⟩ := h
  refine ⟨spaces ++ (a.1.toList ++ ['=']), by simp [KeywordCall.argText], ⟨spaces, hspaces, rfl⟩, ?_⟩
  rw [List.forall_mem_append, List.forall_mem_append]
  refine ⟨fun c hc => ?_, fun c hc => ?_, List.forall_mem_singleton.mpr (by decide)⟩
  · rw [hspaces c hc]
    decide
  · have hident := hkey.2 c hc
    have hpunct : ∀ d ∈ [',', '(', ')', '[', ']', '\x7b', '\x7d', '\\'],
        Text.isIdentifierChar d = false := Text.forall_mem_of_all (by decide)
    refine ⟨fun hmem => ?_, fun hlow => ?_⟩
    · cases (hpunct c hmem).symm.trans hident
    · have hle := Text.le_of_isIdentifierChar hident
      omega

/-- A text of plain characters before another adds no weight. -/
theorem weight_plain_append {pre : List Char}
    (hpre : ∀ c ∈ pre, IsPlain c)
    (t : List Char) : weight (pre ++ t) = weight t := by
  induction pre with
  | nil => rfl
  | cons c pre ih =>
    obtain ⟨hc, hpre⟩ := List.forall_mem_cons.mp hpre
    have hcomma : c ≠ ',' := fun h => hc.1 (by simp [h])
    have hslash : c ≠ '\\' := fun h => hc.1 (by simp [h])
    rw [List.cons_append, weight_light hcomma hc.2 hslash, ih hpre]

/-- A text of plain characters does not change the depth. -/
theorem depthAfter_plain {pre : List Char}
    (hpre : ∀ c ∈ pre, IsPlain c)
    (depth : Int32) : depthAfter depth pre = depth := by
  induction pre with
  | nil => rfl
  | cons c pre ih =>
    obtain ⟨hc, hpre⟩ := List.forall_mem_cons.mp hpre
    have hdepth : bracketDepth c depth = depth := by
      have hbrackets := hc.1
      simp only [List.mem_cons, List.not_mem_nil, or_false, not_or] at hbrackets
      simp [bracketDepth, hbrackets]
    have hcons : depthAfter depth (c :: pre) = depthAfter (bracketDepth c depth) pre := rfl
    rw [hcons, hdepth, ih hpre]

section Pieces

variable {piece : List Char} {a : String × Value} (h : IsPiece piece a)
  (hkey : Text.IsIdentifier a.1)

include h hkey

theorem weight_piece : weight piece = weight a.2.print := by
  obtain ⟨pre, rfl, -, hpre⟩ := piece_eq h hkey
  exact weight_plain_append hpre _

theorem depthAfter_piece : depthAfter 0 piece = depthAfter 0 a.2.print := by
  obtain ⟨pre, rfl, -, hpre⟩ := piece_eq h hkey
  rw [depthAfter_append, depthAfter_plain hpre]

theorem topLevelComma_piece : TopLevelComma piece ↔ TopLevelComma a.2.print := by
  obtain ⟨pre, rfl, -, hpre⟩ := piece_eq h hkey
  have hcomma : ',' ∉ pre := fun hmem => (hpre ',' hmem).1 (by decide)
  constructor
  · rintro ⟨before, post, heq, hdepth⟩
    obtain ⟨mid, rfl⟩ := prefix_of_not_mem hcomma (.inr ⟨post, rfl⟩) heq.symm
    rw [List.append_assoc, List.append_cancel_left_eq] at heq
    rw [depthAfter_append, depthAfter_plain hpre] at hdepth
    exact ⟨mid, post, heq, hdepth⟩
  · rintro ⟨before, post, heq, hdepth⟩
    refine ⟨pre ++ before, post, by rw [heq, List.append_assoc], ?_⟩
    rw [depthAfter_append, depthAfter_plain hpre, hdepth]

end Pieces

namespace KeywordCall

/-- The arguments of the call are split where they were joined: no value has a comma outside of
brackets, and all but the last close their brackets, where a bracket in a string counts as one. -/
structure SplitsApart (c : KeywordCall) : Prop where
  commas : ∀ a ∈ c.args, ¬ TopLevelComma a.2.print
  closed : ∀ a ∈ c.args.dropLast, depthAfter 0 a.2.print = 0

end KeywordCall

/-- **The tokens are the written arguments** exactly when these split apart. -/
theorem topLevelTokens_argsText_iff {c : KeywordCall} (hne : c.args ≠ [])
    (hkeys : ∀ a ∈ c.args, Text.IsIdentifier a.1) :
    topLevelTokens [] c.argsText 0 = pieces c.args ↔ c.SplitsApart := by
  have hall := pieces_forall₂ c.args
  have hpieces : pieces c.args ≠ [] := pieces_ne_nil hne
  have hlast : List.Forall₂ IsPiece (pieces c.args).dropLast c.args.dropLast := by
    rw [List.dropLast_eq_take, List.dropLast_eq_take, hall.length_eq]
    exact List.forall₂_take _ hall
  rw [argsText_eq, topLevelTokens_intercalate_iff hpieces,
    forall_iff_of_forall₂ hall fun p a ha h => (topLevelComma_piece h (hkeys a ha)).not,
    forall_iff_of_forall₂ hlast fun p a ha h => by
      rw [depthAfter_piece h (hkeys a (List.mem_of_mem_dropLast ha))]]
  exact ⟨fun h => ⟨h.1, h.2⟩, fun h => ⟨h.1, h.2⟩⟩

/-! ### What the scanner reads -/

variable {ext : Extraction} {toolNames : List String}

variable (ext) in
/-- The value of a keyword argument is read as a field. -/
def ReadsField (kw : List Char × List Char) (f : String × Value) : Prop :=
  f.1 = String.ofList kw.1 ∧ ext.kwargValue kw.2 = some f.2

/-- **The loop over tokens** inserts the fields it reads one after the other. -/
theorem kwargLoop_iff {tokens : List (List Char)} {args out : List (String × Value)} :
    ext.kwargLoop tokens args = some out ↔
      ∃ fields, List.Forall₂ ext.ReadsField (tokens.filterMap kwargOf) fields ∧
        fields.foldl (fun acc f => Value.insertField f.1 f.2 acc) args = out := by
  induction tokens generalizing args with
  | nil =>
    constructor
    · intro h
      exact ⟨[], .nil, Option.some.inj h⟩
    · rintro ⟨fields, hfields, rfl⟩
      rw [List.filterMap_nil, List.forall₂_nil_left_iff] at hfields
      rw [hfields]
      rfl
  | cons token tokens ih =>
    rw [kwargLoop]
    cases h : splitOnce "=".toList (trim token) with
    | none =>
      -- a token without an equals sign is passed over
      have hkw : kwargOf token = none := by rw [kwargOf, h, Option.bind_none]
      rw [find_eq_none h, List.filterMap_cons_none hkw]
      exact ih
    | some p =>
      obtain ⟨key, rawVal⟩ := p
      have hkw : kwargOf token = if trim key = [] ∨ ' ' ∈ trim key then none
          else some (trim key, trim rawVal) := by
        rw [kwargOf, h, Option.bind_some]
      have hone : byteLen "=".toList = 1 := rfl
      have hraw := sliceFrom_after h
      rw [hone] at hraw
      rw [find_of_splitOnce h]
      simp only [sliceTo_before h, hraw, Option.bind_eq_bind, Option.bind_some]
      generalize trim key = key, trim rawVal = rawVal at hkw ⊢
      by_cases hkey : key = [] ∨ ' ' ∈ key
      -- so is one whose key is no word
      · rw [if_pos hkey] at hkw ⊢
        rw [List.filterMap_cons_none hkw]
        exact ih
      · rw [if_neg hkey] at hkw ⊢
        rw [List.filterMap_cons_some hkw, Option.bind_eq_some_iff]
        constructor
        · rintro ⟨v, hv, hrest⟩
          obtain ⟨fields, hfields, hout⟩ := ih.mp hrest
          exact ⟨(String.ofList key, v) :: fields, .cons ⟨rfl, hv⟩ hfields, hout⟩
        · rintro ⟨fields, hfields, hout⟩
          cases hfields with
          | @cons _ f _ fields hf hfields =>
            obtain ⟨hname, hv⟩ := hf
            obtain ⟨name, v⟩ := f
            obtain rfl : name = String.ofList key := hname
            exact ⟨v, hv, ih.mpr ⟨fields, hfields, hout⟩⟩

/-- **A line** that is split at its brackets. -/
theorem pythonCall_of_split {line name inside argsStr after : List Char}
    (h : splitOnce "(".toList line = some (name, inside))
    (hname : String.ofList (trim name) ∈ toolNames)
    (h₁ : rsplitOnce ")".toList inside = some (argsStr, after)) (heq : '=' ∈ argsStr) :
    ext.pythonCall toolNames line =
      (ext.kwargLoop (topLevelTokens [] argsStr 0) []).map fun args =>
        if args = [] then none else some ⟨ext.callId 0, String.ofList (trim name), .object args⟩ := by
  have hline : line = name ++ '(' :: inside := splitOnce_eq h
  have hlast : rsplitOnce ")".toList line = some (name ++ ['('] ++ argsStr, after) := by
    have h₂ := rsplitOnce_append h₁ (name ++ ['('])
    rwa [List.append_assoc, List.singleton_append, ← hline] at h₂
  have hafter : ¬ byteLen (name ++ ['('] ++ argsStr) ≤ byteLen name := by
    rw [byteLen_append, byteLen_append, byteLen_cons]
    have hpos := Char.utf8Size_pos '('
    omega
  have hargsStr : slice line (byteLen name + 1) (byteLen (name ++ ['('] ++ argsStr)) =
      some argsStr := by
    have hone : byteLen (name ++ ['(']) = byteLen name + 1 := by
      rw [byteLen_append]
      rfl
    rw [← hone, slice, if_pos (by rw [byteLen_append (name ++ ['('])]; omega),
      sliceTo_before_last hlast, Option.bind_some, sliceFrom_append]
  have htokens : tokenLoop argsStr argsStr 0 0 0 = some (topLevelTokens [] argsStr 0) :=
    @tokenLoop_eq argsStr [] [] argsStr 0 rfl
  rw [pythonCall, find_of_splitOnce h]
  simp only [sliceTo_before h, Option.bind_eq_bind, Option.bind_some, if_pos hname]
  rw [rfind_of_rsplitOnce hlast]
  simp only [if_neg hafter, hargsStr, Option.bind_some, if_pos heq, htokens, Option.map_eq_bind]
  congr 1
  funext args
  by_cases hargs : args = []
  · simp [hargs]
  · simp [hargs]

/-- A line with keyword arguments is split at its brackets. -/
theorem split_of_keywords {line : List Char} (h : keywords toolNames line ≠ []) :
    ∃ name inside argsStr after, splitOnce "(".toList line = some (name, inside) ∧
      String.ofList (trim name) ∈ toolNames ∧
      rsplitOnce ")".toList inside = some (argsStr, after) ∧ '=' ∈ argsStr := by
  cases hargs : callArgs toolNames line with
  | none =>
    rw [keywords, hargs] at h
    exact absurd rfl h
  | some argsStr =>
    rw [callArgs] at hargs
    obtain ⟨⟨name, inside⟩, hsplit, hargs⟩ := Option.bind_eq_some_iff.mp hargs
    split at hargs
    · rename_i hname
      obtain ⟨⟨before, after⟩, hlast, hargs⟩ := Option.bind_eq_some_iff.mp hargs
      split at hargs
      · rename_i heq
        exact ⟨name, inside, before, after, hsplit, hname, hlast, heq⟩
      · cases hargs
    · cases hargs

/-! ### A wrong split -/

variable (ext) in
/-- Reading makes up no commas: every comma of a value, and every control character, is one of its
text or a `\u` escape in it. -/
def ReadsLight : Prop := ∀ s v, ext.readJson s = some v → weight v.print ≤ weight s

theorem weight_kwargValue (hlight : ext.ReadsLight) {raw : List Char} {v : Value}
    (h : ext.kwargValue raw = some v) : weight v.print ≤ weight raw := by
  rw [kwargValue] at h
  cases hread : ext.readJson raw with
  | some w =>
    simp only [hread] at h
    obtain rfl := Option.some.inj h
    exact hlight _ _ hread
  | none =>
    simp only [hread] at h
    split at h
    · obtain ⟨inner, hslice, rfl⟩ := Option.map_eq_some_iff.mp h
      have hinner : inner <:+: raw := by
        rw [slice] at hslice
        split at hslice
        · obtain ⟨t, ht, hfrom⟩ := Option.bind_eq_some_iff.mp hslice
          exact (suffix_of_sliceFrom hfrom).isInfix.trans (prefix_of_sliceTo ht).isInfix
        · cases hslice
      exact (weight_string inner).trans (weight_le_of_isInfix hinner)
    · obtain rfl := Option.some.inj h
      exact weight_string raw

/-- The value's text is a part of its token. -/
theorem weight_kwargOf {token key raw : List Char} (h : kwargOf token = some (key, raw)) :
    weight raw ≤ weight token := by
  rw [kwargOf] at h
  obtain ⟨⟨before, after⟩, hsplit, hkw⟩ := Option.bind_eq_some_iff.mp h
  split at hkw
  · cases hkw
  · obtain ⟨-, rfl⟩ := Prod.mk.inj (Option.some.inj hkw)
    have hafter : after <:+ trim token := by
      rw [splitOnce_eq hsplit, ← List.append_assoc]
      exact List.suffix_append _ _
    have htrim : trim after <:+: trim token := (Text.trim_isInfix after).trans hafter.isInfix
    exact weight_le_of_isInfix (htrim.trans (Text.trim_isInfix token))

/-- Tokens of the weights of the written arguments are these. -/
theorem tokens_eq_pieces {all args : List (String × Value)} {tokens parts : List (List Char)}
    (hkeys : ∀ a ∈ all, Text.IsIdentifier a.1) (hnodup : (all.map Prod.fst).Nodup)
    (hargs : args ⊆ all) (hparts : List.Forall₂ IsPiece parts args)
    (htokens : ∀ t ∈ tokens, ∀ kw, kwargOf t = some kw →
      ∃ a ∈ all, a.1 = String.ofList kw.1 ∧ weight t = weight a.2.print)
    (hjoin : tokens.flatMap (',' :: ·) = parts.flatMap (',' :: ·)) : tokens = parts := by
  induction hparts generalizing tokens with
  | nil =>
    cases tokens with
    | nil => rfl
    | cons t tokens => cases hjoin
  | @cons p a parts args hp hparts ih =>
    cases tokens with
    | nil => cases hjoin
    | cons t tokens =>
      obtain ⟨ht, htokens⟩ := List.forall_mem_cons.mp htokens
      obtain ⟨ha, hargs⟩ := List.cons_subset.mp hargs
      have hkey := hkeys a ha
      rw [List.flatMap_cons, List.flatMap_cons, List.cons_append, List.cons_append,
        List.cons.injEq] at hjoin
      have hjoin := hjoin.2
      -- the key of the token is the key of the argument
      have hweight : weight t = weight p := by
        obtain ⟨pre, hpre, ⟨spaces, hspaces, rfl⟩, hlight⟩ := piece_eq hp hkey
        have hcomma : ',' ∉ spaces ++ (a.1.toList ++ ['=']) := fun hmem =>
          (hlight ',' hmem).1 (by decide)
        have hstart : t ++ tokens.flatMap (',' :: ·) = spaces ++ (a.1.toList ++ ['=']) ++
            (a.2.print ++ parts.flatMap (',' :: ·)) := by
          rw [hjoin, hpre, List.append_assoc]
        obtain ⟨rest, rfl⟩ :=
          prefix_of_not_mem hcomma (separated_flatMap ',' tokens) hstart
        obtain ⟨raw, hraw⟩ := kwargOf_key hkey hspaces rest
        have htext : spaces ++ (a.1.toList ++ '=' :: rest) =
            spaces ++ (a.1.toList ++ ['=']) ++ rest := by simp
        rw [htext] at hraw
        obtain ⟨b, hb, hname, hbweight⟩ := ht _ hraw
        have hsame : b = a := List.inj_on_of_nodup_map hnodup hb ha (by
          rw [hname, String.ofList_toList])
        rw [hbweight, hsame, weight_piece hp hkey]
      have hfirst : t = p := part_eq countsSeparator_weight (separated_flatMap ',' tokens)
        (separated_flatMap ',' parts) hjoin hweight
      rw [hfirst] at hjoin ⊢
      rw [ih hargs htokens (List.append_cancel_left hjoin)]

/-! ### The arguments of a call -/

/-- A member of an object is inserted into it. -/
theorem mem_of_obj_eq {fields args : List (String × Value)} (hnodup : (args.map Prod.fst).Nodup)
    (h : Value.obj fields = Value.obj args) {a : String × Value} (ha : a ∈ args) : a ∈ fields := by
  have hargs : args.reverse.lookup a.1 = some a.2 := by
    obtain ⟨before, after, rfl⟩ := List.append_of_mem ha
    rw [List.map_append, List.map_cons, List.nodup_middle, List.nodup_cons] at hnodup
    rw [List.lookup_eq_some_iff]
    refine ⟨after.reverse, before.reverse, by simp, fun p hp => ?_⟩
    have hmem : p.1 ∈ before.map Prod.fst ++ after.map Prod.fst :=
      List.mem_append_right _ (List.mem_map_of_mem (List.mem_reverse.mp hp))
    exact bne_iff_ne.mpr fun heq => hnodup.1 (heq ▸ hmem)
  rw [← Value.get?_obj, ← h, Value.get?_obj, List.lookup_eq_some_iff] at hargs
  obtain ⟨l₁, l₂, heq, -⟩ := hargs
  exact List.mem_reverse.mp (heq ▸ List.mem_append_right _ List.mem_cons_self)

section Call

variable {c : KeywordCall} (hne : c.args ≠ []) (hkeys : ∀ a ∈ c.args, Text.IsIdentifier a.1)

include hne hkeys

/-- The tokens weigh what the arguments do. -/
theorem weight_tokens :
    ((topLevelTokens [] c.argsText 0).map fun t => weight t + 1).sum =
      (c.args.map fun a => weight a.2.print + 1).sum := by
  have hwritten : ((pieces c.args).map fun p => weight p + 1) =
      c.args.map fun a => weight a.2.print + 1 :=
    map_eq_map_of_forall₂ (pieces_forall₂ c.args) fun p a ha h => by
      rw [weight_piece h (hkeys a ha)]
  have htokens := (topLevelTokens_split c.argsText).1
  rw [← weight_intercalate countsSeparator_weight (topLevelTokens_ne_nil _ _ _), htokens,
    argsText_eq, weight_intercalate countsSeparator_weight (pieces_ne_nil hne), hwritten]

/-- **A wrong split** does not give the right arguments: where the fields that are read make up the
object of the call, each token is as heavy as the argument with its key. -/
theorem tokens_of_fields (hnodup : (c.args.map Prod.fst).Nodup) (hlight : ext.ReadsLight)
    {fields : List (String × Value)} (hobj : Value.obj fields = Value.obj c.args)
    (hfields : List.Forall₂ ext.ReadsField
      ((topLevelTokens [] c.argsText 0).filterMap kwargOf) fields) :
    topLevelTokens [] c.argsText 0 = pieces c.args := by
  have hsum := weight_tokens hne hkeys
  have hjoin := (topLevelTokens_split c.argsText).1
  have htokensne := topLevelTokens_ne_nil [] c.argsText 0
  generalize topLevelTokens [] c.argsText 0 = tokens at hfields hsum hjoin htokensne ⊢
  let entry (t : List Char) : Option (String × Nat) :=
    (kwargOf t).map fun kw => (String.ofList kw.1, weight t)
  have hentry : ∀ t kw, kwargOf t = some kw → entry t = some (String.ofList kw.1, weight t) :=
    fun t kw h => Option.map_eq_some_iff.mpr ⟨kw, h, rfl⟩
  let needs := c.args.map fun a => (a.1, weight a.2.print)
  have hperm : (tokens.filterMap entry).Perm needs := by
    refine perm_of_matched (by simpa [needs, Function.comp_def] using hnodup) ?_ ?_
    · intro n hn
      obtain ⟨a, ha, rfl⟩ := List.mem_map.mp hn
      -- the argument is a field, and its value is not heavier than the token it is read from
      obtain ⟨kw, hkw, hkey, hvalue⟩ :=
        exists_left_of_forall₂ hfields (mem_of_obj_eq hnodup hobj ha)
      obtain ⟨t, ht, htoken⟩ := List.mem_filterMap.mp hkw
      exact ⟨_, List.mem_filterMap.mpr ⟨t, ht, hentry t kw htoken⟩, hkey.symm,
        (weight_kwargValue hlight hvalue).trans (weight_kwargOf htoken)⟩
    · rw [List.map_map]
      refine (sum_filterMap_le (v := fun t => weight t + 1) (fun t f hf => ?_) tokens).trans hsum.le
      obtain ⟨kw, -, rfl⟩ := Option.map_eq_some_iff.mp hf
      exact le_refl _
  refine tokens_eq_pieces hkeys hnodup (List.Subset.refl _) (pieces_forall₂ c.args) ?_ ?_
  · intro t ht kw hkw
    have hmem := hperm.subset (List.mem_filterMap.mpr ⟨t, ht, hentry t kw hkw⟩)
    obtain ⟨a, ha, heq⟩ := List.mem_map.mp hmem
    obtain ⟨hkey, hweight⟩ := Prod.mk.inj heq
    exact ⟨a, ha, hkey, hweight.symm⟩
  · rw [flatMap_eq htokensne, flatMap_eq (pieces_ne_nil hne), hjoin, argsText_eq]

/-- The arguments of a call that splits apart are read one by one. -/
theorem fields_of_splitsApart (hreads : ∀ a ∈ c.args, ext.fromStr a.2.toText = some a.2)
    (h : c.SplitsApart) :
    List.Forall₂ ext.ReadsField ((topLevelTokens [] c.argsText 0).filterMap kwargOf) c.args := by
  have hkwargs : (pieces c.args).filterMap kwargOf =
      c.args.map fun a => (a.1.toList, a.2.print) :=
    filterMap_of_forall₂ (pieces_forall₂ c.args) fun p a ha hp => kwargOf_piece (hkeys a ha) hp
  rw [(topLevelTokens_argsText_iff hne hkeys).mpr h, hkwargs, List.forall₂_map_left_iff,
    List.forall₂_same]
  intro a ha
  have hread : ext.readJson a.2.print = some a.2 := hreads a ha
  exact ⟨String.ofList_toList.symm, by rw [kwargValue, hread]⟩

end Call

/-! ### The reply -/

namespace KeywordCall

/-- The name is what stands before the first bracket of the line, trimmed. -/
def PlainName (c : KeywordCall) : Prop := '(' ∉ c.name.toList ∧ Text.trim c.name = c.name

end KeywordCall

/-- The line of a call, split at its brackets. -/
theorem split_line {c : KeywordCall} (hargs : c.args ≠ []) (hname : c.PlainName) :
    splitOnce "(".toList c.line = some (c.name.toList, c.argsText ++ [')']) ∧
      String.ofList (trim c.name.toList) = c.name ∧
      rsplitOnce ")".toList (c.argsText ++ [')']) = some (c.argsText, []) ∧ '=' ∈ c.argsText := by
  refine ⟨splitOnce_singleton hname.1 _, ?_, ?_, ?_⟩
  · rw [trim, String.ofList_toList, String.ofList_toList, hname.2]
  · have hclose : rsplitOnce [')'] [')'] = some ([], []) := rfl
    have h := rsplitOnce_append hclose c.argsText
    rwa [List.append_nil] at h
  · obtain ⟨a, args, hargs⟩ := List.exists_cons_of_ne_nil hargs
    rw [argsText_eq, hargs, pieces, intercalate_cons, KeywordCall.argText]
    simp

/-- What the scanner makes of the line of a call. -/
theorem pythonCall_line {c : KeywordCall} (h : c.WellWritten ext toolNames)
    (hname : c.PlainName) :
    ext.pythonCall toolNames c.line =
      (ext.kwargLoop (topLevelTokens [] c.argsText 0) []).map fun args =>
        if args = [] then none else some ⟨ext.callId 0, c.name, .object args⟩ := by
  obtain ⟨hsplit, htrim, hlast, heq⟩ := split_line h.args hname
  have hcall := @pythonCall_of_split ext _ _ _ _ _ _ hsplit (htrim.symm ▸ h.name) hlast heq
  rwa [htrim] at hcall

/-- The line of a call has keyword arguments. -/
theorem keywords_line {c : KeywordCall} (h : c.WellWritten ext toolNames)
    (hname : c.PlainName) : keywords toolNames c.line ≠ [] := by
  obtain ⟨hsplit, htrim, hlast, heq⟩ := split_line h.args hname
  have hargs : callArgs toolNames c.line = some c.argsText := by
    rw [callArgs, hsplit, Option.bind_some, if_pos (htrim.symm ▸ h.name), hlast, Option.bind_some,
      if_pos heq]
  rw [keywords, hargs, Option.map_some, Option.getD_some]
  have hjoin := (topLevelTokens_split c.argsText).1
  have hne := topLevelTokens_ne_nil [] c.argsText 0
  generalize topLevelTokens [] c.argsText 0 = tokens at hjoin hne
  obtain ⟨token, tokens, rfl⟩ := List.exists_cons_of_ne_nil hne
  obtain ⟨a, args, hcons⟩ := List.exists_cons_of_ne_nil h.args
  have hkey : Text.IsIdentifier a.1 := h.keys a (hcons ▸ List.mem_cons_self)
  -- the first token starts with the first key
  have hcomma : ',' ∉ a.1.toList ++ ['='] := by
    rw [List.mem_append, not_or]
    exact ⟨hkey.not_mem (by decide), by decide⟩
  have hstart : token ++ tokens.flatMap (',' :: ·) = a.1.toList ++ ['='] ++ (a.2.print ++
      (args.map fun a => ' ' :: KeywordCall.argText a).flatMap (',' :: ·)) := by
    rw [← intercalate_cons, hjoin, argsText_eq, hcons, pieces, intercalate_cons,
      KeywordCall.argText]
    simp
  obtain ⟨rest, rfl⟩ := prefix_of_not_mem hcomma (separated_flatMap ',' tokens) hstart
  obtain ⟨raw, hraw⟩ := kwargOf_key hkey (List.forall_mem_nil _) rest
  rw [List.nil_append, ← List.singleton_append, ← List.append_assoc] at hraw
  rw [List.filterMap_cons_some hraw]
  exact List.cons_ne_nil _ _

/-- A call's name is trimmed, and has no bracket. -/
theorem plain_of_pythonCall {line : List Char} (h : keywords toolNames line ≠ [])
    {tc : ToolCall} (hcall : ext.pythonCall toolNames line = some (some tc)) :
    '(' ∉ tc.name.toList ∧ Text.trim tc.name = tc.name := by
  obtain ⟨name, inside, argsStr, after, hsplit, hname, hlast, heq⟩ := split_of_keywords h
  rw [pythonCall_of_split hsplit hname hlast heq, Option.map_eq_some_iff] at hcall
  obtain ⟨args, -, hcall⟩ := hcall
  split at hcall
  · cases hcall
  · obtain rfl := Option.some.inj hcall
    simp only [trim, String.ofList_toList, Text.trim_trim, and_true]
    exact fun hmem => not_mem_of_splitOnce hsplit ((Text.trim_isInfix name).subset hmem)

/-- A call whose arguments split apart is read from its line. -/
theorem pythonCall_of_splitsApart {c : KeywordCall} (h : c.WellWritten ext toolNames)
    (hname : c.PlainName) (happart : c.SplitsApart) :
    ∃ tc, ext.pythonCall toolNames c.line = some (some tc) ∧
      (tc.name, tc.args) = (c.name, Value.obj c.args) := by
  have hfields := fields_of_splitsApart h.args h.keys h.reads happart
  have hargs : ext.kwargLoop (topLevelTokens [] c.argsText 0) [] =
      some (c.args.foldl (fun acc f => Value.insertField f.1 f.2 acc) []) :=
    kwargLoop_iff.mpr ⟨c.args, hfields, rfl⟩
  have hnonempty : c.args.foldl (fun acc f => Value.insertField f.1 f.2 acc) [] ≠ [] := by
    intro hnil
    have hkwargs := (((ext.kwargLoop_end _ []).ok_of_eq_some hargs).mp hnil).2
    rw [hkwargs] at hfields
    exact h.args (List.forall₂_nil_left_iff.mp hfields)
  rw [pythonCall_line h hname, hargs, Option.map_some, if_neg hnonempty]
  exact ⟨_, rfl, rfl⟩

/-- A call that is read from its line has arguments that split apart. -/
theorem splitsApart_of_pythonCall {c : KeywordCall} (h : c.WellWritten ext toolNames)
    (hname : c.PlainName) (hlight : ext.ReadsLight) {tc : ToolCall}
    (hcall : ext.pythonCall toolNames c.line = some (some tc))
    (heq : (tc.name, tc.args) = (c.name, Value.obj c.args)) : c.SplitsApart := by
  rw [pythonCall_line h hname] at hcall
  obtain ⟨args, hargs, hcall⟩ := Option.map_eq_some_iff.mp hcall
  obtain ⟨fields, hfields, hfold⟩ := kwargLoop_iff.mp hargs
  split at hcall
  · cases hcall
  · obtain rfl := Option.some.inj hcall
    have hobj : Value.obj fields = Value.obj c.args := by
      rw [← (Prod.mk.inj heq).2, ← hfold]
      rfl
    exact (topLevelTokens_argsText_iff h.args h.keys).mp
      (tokens_of_fields h.args h.keys h.nodup hlight hobj hfields)

/-- **Keyword calls are read back** exactly when there is one, its name has no bracket and no white
space around it, and its arguments split apart: for a reply that has no call in the formats before,
and in which the first line with keyword arguments is that of the first call. -/
theorem keyword_calls_read_back_iff (ext : Extraction) (toolNames : List String)
    (calls : List KeywordCall) (hne : calls ≠ [])
    (hcalls : ∀ c ∈ calls, c.WellWritten ext toolNames) (hlight : ext.ReadsLight)
    (hblocks : ext.NoBlockCall toolNames (fence calls))
    (hgemma : "<|tool_call>".toList <:+: fence calls → gemmaCalls toolNames (fence calls) = [])
    (hline : ∀ c ∈ calls.head?, calledLine toolNames (callLines (fence calls)) = some c.line) :
    ext.ReadAs toolNames (fence calls) (calls.map fun c => (c.name, .obj c.args)) ↔
      ∃ c, calls = [c] ∧ c.PlainName ∧ c.SplitsApart := by
  obtain ⟨c, rest, rfl⟩ := List.exists_cons_of_ne_nil hne
  have hcall := (List.forall_mem_cons.mp hcalls).1
  have hline := hline c rfl
  have hkeywords : keywords toolNames c.line ≠ [] := by simpa using List.find?_some hline
  rw [ReadAs, extract_python hblocks hgemma hline]
  constructor
  · rintro ⟨out, hout, hmap⟩
    obtain ⟨call, hpython, rfl⟩ := Option.map_eq_some_iff.mp hout
    cases call with
    | none => cases hmap
    | some tc =>
      obtain ⟨heq, hrest⟩ := List.cons.inj hmap
      obtain rfl : rest = [] := List.map_eq_nil_iff.mp hrest.symm
      have hname : tc.name = c.name := (Prod.mk.inj heq).1
      have hplain : c.PlainName := by
        rw [KeywordCall.PlainName, ← hname]
        exact plain_of_pythonCall hkeywords hpython
      exact ⟨c, rfl, hplain, splitsApart_of_pythonCall hcall hplain hlight hpython heq⟩
  · rintro ⟨c', heq, hplain, happart⟩
    obtain ⟨rfl, rfl⟩ := List.cons.inj heq
    obtain ⟨tc, hpython, heq⟩ := pythonCall_of_splitsApart hcall hplain happart
    exact ⟨[tc], by rw [hpython]; rfl, by rw [List.map_singleton, heq]; rfl⟩

/-! ### Plain replies -/

/-- The first of the lines of a text. -/
theorem trimmedLines_cons {line : List Char} (hline : Text.Tight line) (hfeed : '\n' ∉ line)
    (rest : List Char) : trimmedLines (line ++ '\n' :: rest) = line :: trimmedLines rest := by
  have hreturn : line.getLast? ≠ some '\r' := by
    obtain ⟨hne, -, hlast⟩ := hline
    rw [List.getLast?_eq_some_getLast hne]
    intro heq
    rw [Option.some.inj heq] at hlast
    exact absurd hlast (by decide)
  have htrim : trim line = line := hline.trim_eq
  rw [trimmedLines, Text.lines_cons hfeed hreturn, List.map_cons, String.toList_ofList, htrim,
    List.filter_cons_of_pos (by simpa using hline.1)]
  rfl

/-- **A fenced block** without another fence in it: its lines come first. -/
theorem callLines_fenced {body : List Char} (hmark : ¬ "```".toList <:+: body ++ ['\n']) :
    ∃ others, callLines ("```python\n".toList ++ (body ++ ['\n'] ++ "```".toList)) =
      trimmedLines (body ++ ['\n']) ++ others := by
  have hlang : isCallLanguage (trim "python".toList) = true := by decide
  have hnofeed : '\n' ∉ "python".toList := by decide
  have hopen : "```python\n".toList ++ (body ++ ['\n'] ++ "```".toList) =
      "```".toList ++ ("python".toList ++ '\n' :: (body ++ ['\n'] ++ "```".toList)) := by
    have hstart : "```python\n".toList = "```".toList ++ ("python".toList ++ ['\n']) := by
      decide
    rw [hstart, List.append_assoc, List.append_assoc]
    rfl
  have hclose := splitOnce_append_cons (by decide) (by decide) hmark []
  rw [List.append_nil] at hclose
  rw [hopen]
  generalize hblock : body ++ ['\n'] ++ "```".toList = block at hclose
  have hblock : 0 < byteLen block := byteLen_pos (by rw [← hblock]; simp)
  have h₀ := splitOnce_self (by decide : "```".toList ≠ [])
    ("python".toList ++ '\n' :: block)
  have h₁ : splitOnce "\n".toList ("python".toList ++ '\n' :: block) =
      some ("python".toList, block) := splitOnce_singleton hnofeed block
  generalize hcontent : "```".toList ++ ("python".toList ++ '\n' :: block) = content at h₀
  have hpos : 0 < content.length := by
    rw [← hcontent]
    simp
  have hslice₀ : sliceFrom content (byteLen [] + 3) = some ("python".toList ++ '\n' :: block) :=
    sliceFrom_after h₀
  have hslice₁ : sliceFrom ("python".toList ++ '\n' :: block) (byteLen "python".toList + 1) =
      some block := sliceFrom_after h₁
  have hslice₂ : sliceFrom block (byteLen (body ++ ['\n']) + 3) = some [] := sliceFrom_after hclose
  have hlong : ¬ byteLen ("python".toList ++ '\n' :: block) ≤ byteLen "python".toList + 1 := by
    rw [byteLen_append, byteLen_cons]
    have hone : Char.utf8Size '\n' = 1 := rfl
    omega
  obtain ⟨others, hothers⟩ := Option.isSome_iff_exists.mp (fencedLines_isSome (s := []) hpos)
  -- the lines of the block come first, then those of later blocks and of the whole text
  refine ⟨others ++ trimmedLines content, ?_⟩
  rw [callLines, fencedLines, find_of_splitOnce h₀]
  simp only [hslice₀, Option.bind_eq_bind, Option.bind_some]
  rw [find_of_splitOnce h₁, Option.getD_some, sliceTo_before h₁, Option.bind_some, if_neg hlong,
    hslice₁, Option.bind_some, find_of_splitOnce hclose]
  simp only [sliceTo_before hclose, hslice₂, hothers, Option.bind_some, if_pos hlang]
  rw [← List.append_assoc]
  rfl

/-- The line of a call is one line, and no white space stands around it. -/
theorem line_tight {c : KeywordCall} (hname : c.PlainName) : Text.Tight c.line := by
  have hline : c.line = c.name.toList ++ '(' :: c.argsText ++ [')'] := by simp [KeywordCall.line]
  rw [hline]
  cases hs : c.name.toList with
  | nil => exact Text.tight_between (by decide) (by decide) _
  | cons d s => exact Text.tight_between (Text.not_white_of_trim_eq hname.2 hs) (by decide) _

theorem not_mem_line {c : KeywordCall} (hkeys : ∀ a ∈ c.args, Text.IsIdentifier a.1)
    (hfeed : '\n' ∉ c.name.toList) : '\n' ∉ c.line := by
  have harg : ∀ a ∈ c.args, '\n' ∉ KeywordCall.argText a := fun a ha => by
    have hkey : '\n' ∉ a.1.toList := (hkeys a ha).not_mem (by decide)
    simp [KeywordCall.argText, hkey, Value.not_mem_print]
  have hargs : '\n' ∉ c.argsText := by
    cases hc : c.args with
    | nil => simp [KeywordCall.argsText, hc]
    | cons a args =>
      rw [hc] at harg
      obtain ⟨ha, hrest⟩ := List.forall_mem_cons.mp harg
      rw [argsText_eq, hc, pieces, intercalate_cons]
      simp only [List.mem_append, List.mem_flatMap, List.mem_map, not_or, not_exists, not_and]
      refine ⟨ha, ?_⟩
      rintro p ⟨b, hb, rfl⟩
      simp [hrest b hb]
  simp [KeywordCall.line, hfeed, hargs]

/-- **The first line** with keyword arguments is that of the first call, in a block of calls without
a fence in them. -/
theorem calledLine_fence {c : KeywordCall} {rest : List KeywordCall}
    (h : c.WellWritten ext toolNames) (hname : c.PlainName) (hfeed : '\n' ∉ c.name.toList)
    (hmark : ¬ "```".toList <:+: (c :: rest).flatMap fun c => c.line ++ ['\n']) :
    calledLine toolNames (callLines (fence (c :: rest))) = some c.line := by
  obtain ⟨body, hbody⟩ : ∃ body, ((c :: rest).flatMap fun c => c.line ++ ['\n']) = body ++ ['\n'] := by
    obtain ⟨init, last, hlast⟩ := (c :: rest).eq_nil_or_concat.resolve_left (List.cons_ne_nil _ _)
    rw [hlast, List.concat_eq_append, List.flatMap_append, List.flatMap_singleton,
      ← List.append_assoc]
    exact ⟨_, rfl⟩
  rw [hbody] at hmark
  obtain ⟨others, hothers⟩ := callLines_fenced hmark
  have hlines : trimmedLines (body ++ ['\n']) =
      c.line :: trimmedLines (rest.flatMap fun c => c.line ++ ['\n']) := by
    rw [← hbody, List.flatMap_cons, List.append_assoc, List.singleton_append,
      trimmedLines_cons (line_tight hname) (not_mem_line h.keys hfeed)]
  have hfence : fence (c :: rest) = "```python\n".toList ++ (body ++ ['\n'] ++ "```".toList) := by
    unfold fence
    rw [hbody]
  have hcalled := List.find?_cons_of_pos (p := fun line => keywords toolNames line ≠ [])
    (l := trimmedLines (rest.flatMap fun c => c.line ++ ['\n']) ++ others)
    (decide_eq_true (keywords_line h hname))
  rwa [hfence, hothers, hlines]

/-- **A plain reply** is read back: one call whose arguments split apart, in a text without the marks
of the formats before and without a fence in the call. -/
theorem keyword_call_read_back {c : KeywordCall} (h : c.WellWritten ext toolNames)
    (hname : c.PlainName) (hfeed : '\n' ∉ c.name.toList) (happart : c.SplitsApart)
    (hmark : ¬ "```".toList <:+: c.line ++ ['\n'])
    (hblock : ¬ "<tool_call>".toList <:+: fence [c])
    (hgemma : ¬ "<|tool_call>".toList <:+: fence [c]) :
    ext.ReadAs toolNames (fence [c]) [(c.name, .obj c.args)] := by
  have hline : calledLine toolNames (callLines (fence [c])) = some c.line :=
    calledLine_fence h hname hfeed (by rwa [List.flatMap_singleton])
  obtain ⟨tc, hcall, heq⟩ := pythonCall_of_splitsApart h hname happart
  refine ⟨[tc], ?_, by rw [List.map_singleton, heq]⟩
  rw [extract_python (noBlockCall_of_not_isInfix hblock) (fun h => absurd h hgemma) hline, hcall]
  rfl

/-- A call with a query and a list of numbers. -/
def searchCall : KeywordCall where
  name := "sql_exec"
  args := [("query", .string "SELECT 1"), ("params", .array [.number (.int 5), .number (.int 6)]),
    ("limit", .null)]

/-- The call is read back, with the comma of its list. -/
theorem search_call_read_back :
    let ext : Extraction := ⟨fun s => if s = "\"SELECT 1\"" then some (.string "SELECT 1")
      else if s = "[5,6]" then some (.array [.number (.int 5), .number (.int 6)])
      else if s = "null" then some .null else none, toString⟩
    ext.ReadAs ["sql_exec"] (fence [searchCall]) [("sql_exec", .obj searchCall.args)] := by
  intro ext
  have hcall : searchCall.WellWritten ext ["sql_exec"] :=
    ⟨by decide, by decide, by decide +kernel, by decide +kernel, by decide +kernel⟩
  have hlight : ext.ReadsLight := by
    intro s v h
    simp only [readJson, ext] at h
    have hs : s = (String.ofList s).toList := String.toList_ofList.symm
    rw [hs]
    split at h
    · rename_i htext
      obtain rfl := Option.some.inj h
      rw [htext]
      decide +kernel
    split at h
    · rename_i htext
      obtain rfl := Option.some.inj h
      rw [htext]
      decide +kernel
    split at h
    · rename_i htext
      obtain rfl := Option.some.inj h
      rw [htext]
      decide +kernel
    · cases h
  refine (keyword_calls_read_back_iff ext ["sql_exec"] [searchCall] (List.cons_ne_nil _ _)
    (List.forall_mem_singleton.mpr hcall) hlight (noBlockCall_of_not_isInfix (by decide +kernel))
    (fun h => absurd h (by decide +kernel)) ?_).mpr
      ⟨searchCall, rfl, ⟨by decide, by decide +kernel⟩, ⟨by decide +kernel, by decide +kernel⟩⟩
  rintro c ⟨⟩
  decide +kernel

/-- A query with a comma is cut at it, and a second call is dropped. -/
theorem comma_cuts_query :
    let ext : Extraction := ⟨fun s => if s = "\"SELECT a, b\"" then some (.string "SELECT a, b")
      else none, toString⟩
    let call : KeywordCall := ⟨"sql_exec", [("query", .string "SELECT a, b")]⟩
    (ext.extractToolCallsFromContent ["sql_exec"] (String.ofList (fence [call]))).map
        (List.map fun tc => (tc.name, tc.args)) =
      some [("sql_exec", .object [("query", .string "\"SELECT a")])] ∧
    ¬ ext.ReadAs ["sql_exec"] (fence [call]) [("sql_exec", .obj call.args)] := by
  intro ext call
  have hread : (ext.extractToolCallsFromContent ["sql_exec"] (String.ofList (fence [call]))).map
      (List.map fun tc => (tc.name, tc.args)) =
        some [("sql_exec", .object [("query", .string "\"SELECT a")])] := by decide +kernel
  refine ⟨hread, ?_⟩
  rintro ⟨out, hout, heq⟩
  rw [hout, Option.map_some, heq] at hread
  revert hread
  decide +kernel

end PgSynapse.Extraction
