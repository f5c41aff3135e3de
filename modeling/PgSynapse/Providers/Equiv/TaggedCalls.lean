import PgSynapse.Providers.Equiv.Extraction

/-!
# Tagged calls are read back

A reply that writes each of its calls as a JSON object between `<tool_call>` and `</tool_call>`, with
any texts around them that do not open a block, is read as these calls, in order
(`tagged_calls_read_back`).
-/

namespace PgSynapse.Extraction

/-- One call of a reply: what stands between its tags is JSON with white space around it, and a text
follows its closing tag. -/
structure TaggedCall where
  pre : List Char
  name : String
  args : List (String × Value)
  post : List Char
  after : List Char

namespace TaggedCall

/-- The object a call is written as. -/
def json (c : TaggedCall) : Value := .obj [("name", .string c.name), ("arguments", .object c.args)]

/-- What stands between the tags. -/
def inner (c : TaggedCall) : List Char := c.pre ++ c.json.print ++ c.post

/-- The call as it is written, with the text after it. -/
def text (c : TaggedCall) : List Char :=
  "<tool_call>".toList ++ (c.inner ++ ("</tool_call>".toList ++ c.after))

theorem text_append (c : TaggedCall) (rest : List Char) : c.text ++ rest = "<tool_call>".toList ++
    (c.inner ++ ("</tool_call>".toList ++ (c.after ++ rest))) := by
  unfold text
  generalize "<tool_call>".toList = openTag
  generalize "</tool_call>".toList = closeTag
  simp only [List.append_assoc]

/-- The call as it is read. -/
def toolCall (ext : Extraction) (index : Nat) (c : TaggedCall) : ToolCall :=
  ⟨ext.callId index, c.name, .object c.args⟩

/-- The call is of a known tool, its JSON is read back and does not hold the closing tag, and the text
after it does not open a block. -/
structure WellTagged (ext : Extraction) (toolNames : List String) (c : TaggedCall) : Prop where
  name : c.name ∈ toolNames
  reads : ext.fromStr c.json.toText = some c.json
  pre : ∀ x ∈ c.pre, Text.isWhitespace x = true
  post : ∀ x ∈ c.post, Text.isWhitespace x = true
  closed : ¬ "</tool_call>".toList <:+: c.json.print
  after : ¬ "<tool_call>".toList <:+: c.after

end TaggedCall

variable {ext : Extraction} {toolNames : List String}

theorem trim_inner {c : TaggedCall} (hc : c.WellTagged ext toolNames) :
    trim c.inner = c.json.print := by
  obtain ⟨fields, hfields⟩ : ∃ fields, c.json = .object fields := ⟨_, rfl⟩
  have hprint : c.json.print = '\x7b' :: Value.printFields fields ++ ['\x7d'] := by
    rw [hfields, Value.print]
  have hne : c.json.print ≠ [] := by simp [hprint]
  have hhead : c.json.print.head hne = '\x7b' := by simp [hprint]
  have hlast : c.json.print.getLast hne = '\x7d' := by simp only [hprint, List.getLast_concat]
  rw [trim, TaggedCall.inner, Text.trim_pad hc.pre hc.post hne, String.toList_ofList]
  · rw [hhead]
    decide
  · rw [hlast]
    decide

/-- A block of a call is read as the call. -/
theorem blockCall_tagged {c : TaggedCall} (hc : c.WellTagged ext toolNames) (index : Nat) :
    ext.blockCall toolNames index (trim c.inner) = some (some (c.toolCall ext index)) := by
  have htrim : trim (trim c.inner) = trim c.inner := by
    rw [trim, trim, String.ofList_toList, Text.trim_trim]
  have hread : ext.readJson (trim (trim c.inner)) = some c.json := by
    rw [htrim, trim_inner hc]
    exact hc.reads
  have hname : (c.json.get? "name").bind Value.asStr? = some c.name := by
    simp [TaggedCall.json, Value.obj, Value.get?, Value.lookup_insertField, Value.asStr?]
  have hargs : c.json.get? "arguments" = some (.object c.args) := by
    simp [TaggedCall.json, Value.obj, Value.get?, Value.lookup_insertField]
  have htry : ext.tryParse toolNames index (trim c.inner) = some (c.toolCall ext index) := by
    simp [tryParse, hread, hname, hargs, hc.name, Value.isObject, TaggedCall.toolCall]
  rw [blockCall, htry]

theorem isDelimiter_open : IsDelimiter "<tool_call>".toList := by decide

theorem isDelimiter_close : IsDelimiter "</tool_call>".toList := by decide

/-- **The loop over blocks** reads the calls written after `intro`. -/
theorem blockLoop_tagged {intro : List Char} {calls : List TaggedCall}
    (hintro : ¬ "<tool_call>".toList <:+: intro)
    (hcalls : ∀ c ∈ calls, c.WellTagged ext toolNames) {fuel : Nat}
    (hfuel : (intro ++ calls.flatMap TaggedCall.text).length < fuel) (results : List ToolCall) :
    ext.blockLoop toolNames fuel (intro ++ calls.flatMap TaggedCall.text) results =
      some (results ++ calls.mapIdx fun i c => c.toolCall ext (results.length + i)) := by
  induction calls generalizing intro fuel results with
  | nil =>
    obtain ⟨fuel, rfl⟩ : ∃ n, fuel = n + 1 := ⟨fuel - 1, by omega⟩
    rw [List.flatMap_nil, List.append_nil, blockLoop,
      find_eq_none (splitOnce_eq_none_iff.mpr hintro)]
    simp
  | cons c calls ih =>
    obtain ⟨hc, hcalls⟩ := List.forall_mem_cons.mp hcalls
    obtain ⟨fuel, rfl⟩ : ∃ n, fuel = n + 1 := ⟨fuel - 1, by omega⟩
    have hinner : ¬ "</tool_call>".toList <:+: c.inner := fun h =>
      hc.closed (Text.infix_of_infix_pad (Text.forall_mem_of_all (by decide)) (by decide)
        hc.pre hc.post h)
    have hopen := splitOnce_append isDelimiter_open hintro
      (c.inner ++ ("</tool_call>".toList ++ (c.after ++ calls.flatMap TaggedCall.text)))
    have hclose := splitOnce_append isDelimiter_close hinner
      (c.after ++ calls.flatMap TaggedCall.text)
    rw [List.flatMap_cons, TaggedCall.text_append] at hfuel ⊢
    have hlen := splitOnce_length (by decide) hopen
    have hlen' := splitOnce_length (by decide) hclose
    rw [blockLoop, find_of_splitOnce hopen]
    simp only [sliceFrom_after hopen, Option.bind_eq_bind, Option.bind_some]
    rw [find_of_splitOnce hclose]
    simp only [sliceTo_before hclose, sliceFrom_after hclose, Option.bind_some]
    rw [blockCall_tagged hc, Option.bind_some, ih hc.after hcalls (by omega)]
    simp [List.mapIdx_cons, Nat.add_assoc, Nat.add_comm 1]

/-- **Tagged calls are read back**: a reply with calls between tags is read as these calls, whatever
else it contains. -/
theorem tagged_calls_read_back (ext : Extraction) (toolNames : List String) (intro : List Char)
    (calls : List TaggedCall) (hne : calls ≠ []) (hintro : ¬ "<tool_call>".toList <:+: intro)
    (hcalls : ∀ c ∈ calls, c.WellTagged ext toolNames) :
    ext.extractToolCallsFromContent toolNames
        (String.ofList (intro ++ calls.flatMap TaggedCall.text)) =
      some (calls.mapIdx fun i c => c.toolCall ext i) := by
  have hresults : (calls.mapIdx fun i c => c.toolCall ext i) ≠ [] := by
    simpa using hne
  rw [extractToolCallsFromContent]
  simp only [String.toList_ofList, blockLoop_tagged hintro hcalls (Nat.lt_succ_self _),
    Option.bind_eq_bind, Option.bind_some, List.nil_append, List.length_nil, Nat.zero_add]
  simp [hresults]

/-- A call that holds an opening tag of its own, between two lines. -/
def selectCall : TaggedCall where
  pre := ['\n']
  name := "sql_exec"
  args := [("query", .string "SELECT '<tool_call>'")]
  post := ['\n']
  after := " and </tool_call> as text".toList

/-- A call on one line, the last thing of its reply. -/
def describeCall : TaggedCall where
  pre := []
  name := "describe_schema"
  args := [("table", .string "orders")]
  post := []
  after := []

/-- A reply with both calls and text around them is read as the two calls. -/
theorem select_call_read_back :
    let ext : Extraction :=
      ⟨fun s => if s = selectCall.json.toText then some selectCall.json
        else if s = describeCall.json.toText then some describeCall.json else none, toString⟩
    ext.extractToolCallsFromContent ["sql_exec", "describe_schema"]
        (String.ofList ("Running: ".toList ++ [selectCall, describeCall].flatMap TaggedCall.text)) =
      some [⟨"call_0", "sql_exec", .object [("query", .string "SELECT '<tool_call>'")]⟩,
        ⟨"call_1", "describe_schema", .object [("table", .string "orders")]⟩] := by
  intro ext
  have hselect : selectCall.WellTagged ext ["sql_exec", "describe_schema"] :=
    ⟨by decide, by simp [ext], List.forall_mem_singleton.mpr (by decide),
      List.forall_mem_singleton.mpr (by decide), by decide, by decide⟩
  have hdescribe : describeCall.WellTagged ext ["sql_exec", "describe_schema"] :=
    ⟨by decide, by decide +kernel, List.forall_mem_nil _, List.forall_mem_nil _, by decide,
      by decide⟩
  have hread := tagged_calls_read_back ext ["sql_exec", "describe_schema"] "Running: ".toList
    [selectCall, describeCall] (by simp) (by decide)
    (List.forall_mem_cons.mpr ⟨hselect, List.forall_mem_singleton.mpr hdescribe⟩)
  rw [hread]
  decide +kernel

end PgSynapse.Extraction
