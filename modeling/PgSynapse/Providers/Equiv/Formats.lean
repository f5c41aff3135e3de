import PgSynapse.Providers.Equiv.Extraction

/-!
# The format a reply is read in

The formats are tried one after the other.  Without a call in a `<tool_call>` block the extraction is
what Gemma's calls give if there are any, and without these the call on the first line that has one.
-/

namespace PgSynapse.Extraction

variable (ext : Extraction) (toolNames : List String)

/-- The extraction returns calls with these names and arguments, in this order. -/
def ReadAs (content : List Char) (calls : List (String × Value)) : Prop :=
  ∃ out, ext.extractToolCallsFromContent toolNames (String.ofList content) = some out ∧
    (out.map fun tc => (tc.name, tc.args)) = calls

/-- No `<tool_call>` block is a call, or has a parameter that is not closed. -/
def NoBlockCall (content : List Char) : Prop :=
  ∀ inner ∈ blocks content, ¬ ext.IsCall toolNames inner ∧ ¬ ext.Unclosed toolNames inner

variable {ext toolNames} {content : List Char}

theorem noBlockCall_of_not_isInfix (h : ¬ "<tool_call>".toList <:+: content) :
    ext.NoBlockCall toolNames content := by
  intro inner hinner
  rw [blocks_nil (splitOnce_eq_none_iff.mpr h)] at hinner
  cases hinner

theorem blockLoop_of_noBlockCall (h : ext.NoBlockCall toolNames content) :
    ext.blockLoop toolNames (content.length + 1) content [] = some [] := by
  have hend := ext.blockLoop_end toolNames (Nat.lt_succ_self content.length) []
  generalize ext.blockLoop toolNames (content.length + 1) content [] = result at hend
  cases hend with
  | panicked hopen =>
    obtain ⟨inner, hinner, hopen⟩ := hopen
    exact absurd hopen (h inner hinner).2
  | @returned out _ hiff =>
    rw [hiff.mpr ⟨rfl, fun inner hinner => (h inner hinner).1⟩]

/-- **Gemma's format**: its calls are the reply's, and if it panics the extraction does. -/
theorem extract_gemma (hblocks : ext.NoBlockCall toolNames content)
    (htoken : "<|tool_call>".toList <:+: content) :
    (∀ out, ext.parseGemmaToolCallOpenai toolNames content = some out → out ≠ [] →
      ext.extractToolCallsFromContent toolNames (String.ofList content) = some out) ∧
    (ext.parseGemmaToolCallOpenai toolNames content = none →
      ext.extractToolCallsFromContent toolNames (String.ofList content) = none) := by
  rw [extractToolCallsFromContent]
  simp only [String.toList_ofList, blockLoop_of_noBlockCall hblocks, Option.bind_eq_bind,
    Option.bind_some, if_pos (And.intro trivial htoken)]
  constructor
  · intro out hout hne
    simp only [hout, Option.bind_some, if_neg hne]
  · intro hnone
    rw [hnone, Option.bind_none]

/-- **The calls of Gemma's format** have the trimmed text before a brace as their names. -/
theorem gemmaLoop_forall {P : ToolCall → Prop}
    (hP : ∀ (before : List Char) index args, '\x7b' ∉ before →
      String.ofList (trim before) ∈ toolNames →
        P ⟨ext.callId index, String.ofList (trim before), .object args⟩)
    {fuel : Nat} {search : List Char} {results out : List ToolCall}
    (hresults : ∀ tc ∈ results, P tc)
    (h : ext.gemmaLoop toolNames fuel search results = some out) : ∀ tc ∈ out, P tc := by
  induction fuel generalizing search results with
  | zero => cases h
  | succ fuel ih =>
    have done : some results = some out → ∀ tc ∈ out, P tc := by
      rintro ⟨⟩
      exact hresults
    rw [gemmaLoop] at h
    split at h
    · exact done h
    · simp only [Option.bind_eq_bind] at h
      obtain ⟨after, -, h⟩ := Option.bind_eq_some_iff.mp h
      cases hbrace : splitOnce "\x7b".toList after with
      | none =>
        rw [find_eq_none hbrace] at h
        exact done h
      | some p =>
        obtain ⟨before, rest⟩ := p
        rw [find_of_splitOnce hbrace] at h
        simp only [sliceTo_before hbrace, sliceFrom_at hbrace, Option.bind_some] at h
        split at h
        · rename_i hmem
          obtain ⟨blob, -, h⟩ := Option.bind_eq_some_iff.mp h
          obtain ⟨args, -, h⟩ := Option.bind_eq_some_iff.mp h
          have hcall := hP before results.length args (not_mem_of_splitOnce hbrace) hmem
          have hnext := List.forall_mem_append.mpr
            ⟨hresults, List.forall_mem_singleton.mpr hcall⟩
          split at h
          · obtain ⟨next, -, h⟩ := Option.bind_eq_some_iff.mp h
            exact ih hnext h
          · obtain rfl := Option.some.inj h
            exact hnext
        · exact ih hresults h

/-- A line without keyword arguments is no call. -/
theorem pythonCall_of_keywords {line : List Char} (h : keywords toolNames line = []) :
    ext.pythonCall toolNames line = some none := by
  have hend := ext.pythonCall_end toolNames line
  generalize ext.pythonCall toolNames line = result at hend
  cases hend with
  | panicked hlone =>
    obtain ⟨kw, hkw, -⟩ := hlone
    rw [h] at hkw
    cases hkw
  | @returned call _ hiff =>
    cases call with
    | none => rfl
    | some tc => exact absurd h (hiff.mp rfl)

/-- The search for a call is the call on the first line that has one. -/
theorem firstPythonCall_called {lines : List (List Char)} {line : List Char}
    (h : calledLine toolNames lines = some line) :
    ext.firstPythonCall toolNames lines = ext.pythonCall toolNames line := by
  induction lines with
  | nil => cases h
  | cons first rest ih =>
    rw [firstPythonCall]
    by_cases hfirst : keywords toolNames first = []
    · rw [calledLine, List.find?_cons_of_neg (by simp [hfirst])] at h
      rw [pythonCall_of_keywords hfirst]
      exact ih h
    · rw [calledLine, List.find?_cons_of_pos (by simp [hfirst])] at h
      obtain rfl := Option.some.inj h
      have hend := ext.pythonCall_end toolNames first
      generalize ext.pythonCall toolNames first = result at hend ⊢
      cases hend with
      | panicked _ => rfl
      | @returned call _ hiff =>
        cases call with
        | some tc => rfl
        | none => exact absurd (hiff.mpr hfirst) Bool.false_ne_true

/-- The line of a call is one. -/
theorem pythonCall_called {lines : List (List Char)} {line : List Char}
    (h : calledLine toolNames lines = some line) {call : Option ToolCall}
    (hcall : ext.pythonCall toolNames line = some call) : call ≠ none := by
  rintro rfl
  have hne : keywords toolNames line ≠ [] := by simpa using List.find?_some h
  exact Bool.false_ne_true (((ext.pythonCall_end toolNames line).ok_of_eq_some hcall).mpr hne)

/-- **Python's format**: the call on the first line that has one is the reply's only call. -/
theorem extract_python (hblocks : ext.NoBlockCall toolNames content)
    (hgemma : "<|tool_call>".toList <:+: content → gemmaCalls toolNames content = [])
    {line : List Char} (hline : calledLine toolNames (callLines content) = some line) :
    ext.extractToolCallsFromContent toolNames (String.ofList content) =
      (ext.pythonCall toolNames line).map Option.toList := by
  have hgemma : "<|tool_call>".toList <:+: content →
      ext.parseGemmaToolCallOpenai toolNames content = some [] := by
    intro htoken
    have hend := ext.gemmaLoop_end toolNames (Nat.lt_succ_self content.length) []
    rw [parseGemmaToolCallOpenai]
    generalize ext.gemmaLoop toolNames (content.length + 1) content [] = result at hend
    rw [hgemma htoken] at hend
    cases hend with
    | panicked hopen =>
      obtain ⟨blob, hblob, -⟩ := hopen
      cases hblob
    | returned _ hiff => rw [hiff.mpr ⟨rfl, rfl⟩]
  have hpython : ext.parsePythonToolCalls toolNames content =
      (ext.pythonCall toolNames line).map Option.toList := by
    obtain ⟨fenced, hfenced⟩ := Option.isSome_iff_exists.mp
      (fencedLines_isSome (Nat.lt_succ_self content.length))
    have hlines : callLines content = fenced ++ trimmedLines content := by
      rw [callLines, hfenced, Option.getD_some]
    rw [hlines] at hline
    simp only [parsePythonToolCalls, hfenced, Option.bind_eq_bind, Option.bind_some,
      firstPythonCall_called hline, Option.map_eq_bind]
    rfl
  have hcall : ∀ call, ext.pythonCall toolNames line = some call → call.toList ≠ [] :=
    fun call h hnil => pythonCall_called hline h (Option.toList_eq_nil_iff.mp hnil)
  rw [extractToolCallsFromContent]
  simp only [String.toList_ofList, blockLoop_of_noBlockCall hblocks, Option.bind_eq_bind,
    Option.bind_some, hpython]
  by_cases htoken : "<|tool_call>".toList <:+: content
  · rw [if_pos ⟨trivial, htoken⟩, hgemma htoken, Option.bind_some, if_pos rfl]
    cases h : ext.pythonCall toolNames line with
    | none => rfl
    | some call => rw [Option.map_some, Option.bind_some, if_neg (hcall call h)]
  · rw [if_neg fun hand => htoken hand.2, if_pos trivial]
    cases h : ext.pythonCall toolNames line with
    | none => rfl
    | some call => rw [Option.map_some, Option.bind_some, if_neg (hcall call h)]

end PgSynapse.Extraction
