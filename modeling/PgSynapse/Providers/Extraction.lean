import PgSynapse.Lib.ByteSlices
import PgSynapse.OpenAi.Payload
import PgSynapse.Std.Text

/-!
# Tool calls in the text of a reply

A translation of `extract_tool_calls_from_content` and its four scanners
(`pg-synapse-provider-openai`, `client.rs`), of which `pg-synapse-provider-llama-cpp` has a copy
under its own names.

A text is a list of characters and every slice of it is taken at byte offsets, as in the source; a
slice that does not exist is the panic, `none`.  The loops carry fuel, and would be `none` without.
-/

namespace PgSynapse

/-- What the extraction leaves to other code: `serde_json::from_str`, and the identifiers
`uuid_v4_hex` gives one call after the other. -/
structure Extraction where
  fromStr : String → Option Value
  uuidHex : Nat → String

namespace Extraction

/-- `str::trim`. -/
def trim (s : List Char) : List Char := (Text.trim (String.ofList s)).toList

/-- `format!("call_{}", uuid_v4_hex())`. -/
def callId (ext : Extraction) (index : Nat) : String := "call_" ++ ext.uuidHex index

variable (ext : Extraction) (toolNames : List String)

/-- `serde_json::from_str(s)`. -/
def readJson (s : List Char) : Option Value := ext.fromStr (String.ofList s)

/-- `try_parse`: a JSON object that names a tool. -/
def tryParse (index : Nat) (raw : List Char) : Option ToolCall := do
  let v ← ext.readJson (trim raw)
  let name ← (v.get? "name").bind Value.asStr?
  if name ∈ toolNames then
    let args := ((v.get? "arguments").or (v.get? "parameters")).getD (.object [])
    if args.isObject then some ⟨ext.callId index, name, args⟩ else none
  else none

/-! ### `<tool_call>` blocks -/

/-- `serde_json::from_str(val)`, or the text itself. -/
def jsonOrText (s : List Char) : Value := (ext.readJson s).getD (.string (String.ofList s))

/-- The loop of `parse_xml_function_block` over `<parameter=KEY>VALUE</parameter>`; it gives the
block up at a parameter whose key does not end. -/
def parameterLoop : Nat → List Char → List (String × Value) →
    Option (Option (List (String × Value)))
  | 0, _, _ => none
  | fuel + 1, search, args =>
    match find search "<parameter=".toList with
    | none => some (some args)
    | some pStart => do
      let afterP ← sliceFrom search (pStart + byteLen "<parameter=".toList)
      match find afterP ">".toList with
      | none => some none
      | some keyEnd => do
        let key ← sliceTo afterP keyEnd
        let valStr ← sliceFrom afterP (keyEnd + 1)
        let valEnd := (find valStr "</parameter>".toList).getD (byteLen valStr)
        let val ← sliceTo valStr valEnd
        let search ← sliceFrom valStr
          (valEnd + min (byteLen "</parameter>".toList) (byteLen valStr))
        parameterLoop fuel search
          (Value.insertField (String.ofList (trim key)) (ext.jsonOrText (trim val)) args)

/-- `parse_xml_function_block`. -/
def parseXmlFunctionBlock (index : Nat) (inner : List Char) : Option (Option ToolCall) :=
  match find inner "<function=".toList with
  | none => some none
  | some funcStart => do
    let afterFunc ← sliceFrom inner (funcStart + byteLen "<function=".toList)
    match find afterFunc ">".toList with
    | none => some none
    | some nameEnd => do
      let name := String.ofList (trim (← sliceTo afterFunc nameEnd))
      if name ∈ toolNames then do
        let body ← sliceFrom afterFunc (nameEnd + 1)
        let body ← match rfind body "</function>".toList with
          | some e => sliceTo body e
          | none => some body
        let args ← ext.parameterLoop (body.length + 1) body []
        return args.map fun args => ⟨ext.callId index, name, .object args⟩
      else some none

/-- The call in a `<tool_call>` block: a JSON object, or else an XML function block. -/
def blockCall (index : Nat) (inner : List Char) : Option (Option ToolCall) :=
  match ext.tryParse toolNames index inner with
  | some tc => some (some tc)
  | none => ext.parseXmlFunctionBlock toolNames index inner

/-- The loop over `<tool_call>` blocks. -/
def blockLoop : Nat → List Char → List ToolCall → Option (List ToolCall)
  | 0, _, _ => none
  | fuel + 1, search, results =>
    match find search "<tool_call>".toList with
    | none => some results
    | some start => do
      let afterOpen ← sliceFrom search (start + byteLen "<tool_call>".toList)
      match find afterOpen "</tool_call>".toList with
      | none => some results
      | some close => do
        let inner := trim (← sliceTo afterOpen close)
        let call ← ext.blockCall toolNames results.length inner
        let search ← sliceFrom afterOpen (close + byteLen "</tool_call>".toList)
        blockLoop fuel search (results ++ call.toList)

/-! ### Gemma's tokens -/

/-- `QMARK`, Gemma's quote. -/
def qmark : List Char := "<|\"|>".toList

/-- What is trimmed before an argument: `[',', ' ', '\n', '\t']`. -/
def isArgGap (c : Char) : Bool := c ∈ [',', ' ', '\n', '\t']

/-- What is trimmed before an item: `[',', ' ']`. -/
def isItemGap (c : Char) : Bool := c ∈ [',', ' ']

/-- What ends a bare item: `[',', ']']`. -/
def isItemEnd (c : Char) : Bool := c ∈ [',', ']']

/-- The items of an array in Gemma's format. -/
def gemmaArray : Nat → List Char → Option (List Value)
  | 0, _ => none
  | fuel + 1, a =>
    let a := a.dropWhile isItemGap
    if a = [] then some []
    else if qmark <+: a then do
      let inner ← sliceFrom a (byteLen qmark)
      let close := (find inner qmark).getD (byteLen inner)
      let text ← sliceTo inner close
      let a ← sliceFrom inner (close + byteLen qmark)
      let items ← gemmaArray fuel a
      return .string (String.ofList text) :: items
    else do
      let close := (findChar a isItemEnd).getD (byteLen a)
      let text ← sliceTo a close
      let a ← sliceFrom a close
      let items ← gemmaArray fuel a
      return (ext.readJson (trim text)).getD .null :: items

/-- The arguments in Gemma's `key:value` format. -/
def gemmaArgs : Nat → List Char → List (String × Value) → Option (List (String × Value))
  | 0, _, _ => none
  | fuel + 1, rem, map =>
    let rem := rem.dropWhile isArgGap
    if rem = [] then some map
    else
      match find rem ":".toList with
      | none => some map
      | some colon => do
        let key := String.ofList (trim (← sliceTo rem colon))
        let rem ← sliceFrom rem (colon + 1)
        if qmark <+: rem then do
          let inner ← sliceFrom rem (byteLen qmark)
          let close := (find inner qmark).getD (byteLen inner)
          let text ← sliceTo inner close
          let rem ← sliceFrom inner (close + byteLen qmark)
          gemmaArgs fuel rem (Value.insertField key (.string (String.ofList text)) map)
        else if "[".toList <+: rem then
          match find rem "]".toList with
          | none => some map
          | some arrEnd => do
            let arrStr ← slice rem 1 arrEnd
            let items ← ext.gemmaArray (arrStr.length + 1) arrStr
            let rem ← sliceFrom rem (arrEnd + 1)
            gemmaArgs fuel rem (Value.insertField key (.array items) map)
        else do
          let close := (find rem ",".toList).getD (byteLen rem)
          let text ← sliceTo rem close
          let rem ← sliceFrom rem close
          gemmaArgs fuel rem (Value.insertField key (ext.jsonOrText (trim text)) map)

/-- `strip_prefix('{').and_then(|s| s.strip_suffix('}')).unwrap_or(args_blob)`. -/
def stripBraces (s : List Char) : List Char :=
  match s with
  | '\x7b' :: t => if t.getLast? = some '\x7d' then t.dropLast else s
  | _ => s

/-- The arguments of a Gemma call: a JSON object, or else Gemma's own format. -/
def gemmaArgsOf (blob : List Char) : Option (List (String × Value)) :=
  match ext.readJson (trim blob) with
  | some (.object map) => some map
  | _ => ext.gemmaArgs (blob.length + 1) blob []

/-- The loop of `parse_gemma_tool_call_openai`. -/
def gemmaLoop : Nat → List Char → List ToolCall → Option (List ToolCall)
  | 0, _, _ => none
  | fuel + 1, search, results =>
    match find search "<|tool_call>call:".toList with
    | none => some results
    | some start => do
      let after ← sliceFrom search (start + byteLen "<|tool_call>call:".toList)
      match find after "\x7b".toList with
      | none => some results
      | some brace => do
        let name := String.ofList (trim (← sliceTo after brace))
        let rest ← sliceFrom after brace
        if name ∈ toolNames then do
          let close := (find rest "<tool_call|>".toList).getD (byteLen rest)
          let blob := stripBraces (trim (← sliceTo rest close))
          let args ← ext.gemmaArgsOf blob
          let results := results ++ [⟨ext.callId results.length, name, .object args⟩]
          if close < byteLen rest then do
            let search ← sliceFrom rest (close + byteLen "<tool_call|>".toList)
            gemmaLoop fuel search results
          else some results
        else gemmaLoop fuel rest results

/-- `parse_gemma_tool_call_openai`, and `parse_gemma_tool_call` in the copy. -/
def parseGemmaToolCallOpenai (content : List Char) : Option (List ToolCall) :=
  ext.gemmaLoop toolNames (content.length + 1) content []

/-! ### Python calls -/

/-- The lines of a text, trimmed, without the blank ones. -/
def trimmedLines (s : List Char) : List (List Char) :=
  ((Text.lines (String.ofList s)).map fun line => trim line.toList).filter fun t => t ≠ []

/-- The languages a fenced block of calls may have; the tag is compared in lower case, which is
ASCII lower case for these. -/
def isCallLanguage (lang : List Char) : Bool :=
  Text.toAsciiLowercase (String.ofList lang) ∈ ["python", "tool_code", "tool_call", ""]

/-- The candidate lines in fenced blocks. -/
def fencedLines : Nat → List Char → Option (List (List Char))
  | 0, _ => none
  | fuel + 1, s =>
    match find s "```".toList with
    | none => some []
    | some start => do
      let after ← sliceFrom s (start + 3)
      let langEnd := (find after "\n".toList).getD (byteLen after)
      let lang := trim (← sliceTo after langEnd)
      let bodyStart := langEnd + 1
      if byteLen after ≤ bodyStart then some []
      else do
        let body ← sliceFrom after bodyStart
        match find body "```".toList with
        | none => some []
        | some close => do
          let block ← sliceTo body close
          let s ← sliceFrom body (close + 3)
          let rest ← fencedLines fuel s
          return (if isCallLanguage lang then trimmedLines block else []) ++ rest

/-- The depth of brackets after a character, an `i32`. -/
def bracketDepth (c : Char) (depth : Int32) : Int32 :=
  if c ∈ ['(', '[', '\x7b'] then depth + 1
  else if c ∈ [')', ']', '\x7d'] then depth - 1
  else depth

/-- The tokens between top-level commas; the characters from the offset `i` on are left. -/
def tokenLoop (argsStr : List Char) :
    List Char → Nat → Nat → Int32 → Option (List (List Char))
  | [], _, tokenStart, _ => (sliceFrom argsStr tokenStart).map fun token => [token]
  | c :: cs, i, tokenStart, depth =>
    if c = ',' ∧ depth = 0 then do
      let token ← slice argsStr tokenStart i
      let tokens ← tokenLoop argsStr cs (i + 1) (i + 1) depth
      return token :: tokens
    else tokenLoop argsStr cs (i + c.utf8Size) tokenStart (bracketDepth c depth)

/-- `raw_val.starts_with(q) && raw_val.ends_with(q)`. -/
def isQuotedBy (q : Char) (raw : List Char) : Bool := raw.head? = some q ∧ raw.getLast? = some q

/-- The value of a keyword argument: JSON, a quoted Python string, or the text itself. -/
def kwargValue (rawVal : List Char) : Option Value :=
  match ext.readJson rawVal with
  | some v => some v
  | none =>
    if isQuotedBy '\'' rawVal || isQuotedBy '"' rawVal then
      (slice rawVal 1 (byteLen rawVal - 1)).map fun inner => .string (String.ofList inner)
    else some (.string (String.ofList rawVal))

/-- The loop over tokens: a token without `key=` is skipped. -/
def kwargLoop : List (List Char) → List (String × Value) → Option (List (String × Value))
  | [], args => some args
  | token :: tokens, args =>
    let token := trim token
    match find token "=".toList with
    | none => kwargLoop tokens args
    | some eq => do
      let key := trim (← sliceTo token eq)
      if key = [] ∨ ' ' ∈ key then kwargLoop tokens args
      else do
        let rawVal := trim (← sliceFrom token (eq + 1))
        let v ← ext.kwargValue rawVal
        kwargLoop tokens (Value.insertField (String.ofList key) v args)

/-- The call on one line. -/
def pythonCall (line : List Char) : Option (Option ToolCall) :=
  match find line "(".toList with
  | none => some none
  | some paren => do
    let name := String.ofList (trim (← sliceTo line paren))
    if name ∈ toolNames then
      match rfind line ")".toList with
      | none => some none
      | some close =>
        if close ≤ paren then some none
        else do
          let argsStr ← slice line (paren + 1) close
          if '=' ∈ argsStr then do
            let tokens ← tokenLoop argsStr argsStr 0 0 0
            let args ← ext.kwargLoop tokens []
            if args = [] then some none
            else some (some ⟨ext.callId 0, name, .object args⟩)
          else some none
    else some none

/-- The first line with a call. -/
def firstPythonCall : List (List Char) → Option (Option ToolCall)
  | [] => some none
  | line :: rest => do
    match ← ext.pythonCall toolNames line with
    | some tc => some (some tc)
    | none => firstPythonCall rest

/-- `parse_python_tool_calls`. -/
def parsePythonToolCalls (content : List Char) : Option (List ToolCall) := do
  let fenced ← fencedLines (content.length + 1) content
  let call ← ext.firstPythonCall toolNames (fenced ++ trimmedLines content)
  return call.toList

/-! ### Fenced JSON -/

/-- The bodies of fenced blocks. -/
def fencedBodies : Nat → List Char → Option (List (List Char))
  | 0, _ => none
  | fuel + 1, s =>
    match find s "```".toList with
    | none => some []
    | some start => do
      let after ← sliceFrom s (start + 3)
      let bodyStart := ((find after "\n".toList).map fun i => i + 1).getD 0
      let body ← sliceFrom after bodyStart
      match find body "```".toList with
      | none => some []
      | some close => do
        let block ← sliceTo body close
        let s ← sliceFrom body (close + 3)
        let rest ← fencedBodies fuel s
        return trim block :: rest

/-! ### The whole extraction -/

/-- `extract_tool_calls_from_content`: each format is tried when the ones before gave no call. -/
def extractToolCallsFromContent (content : String) : Option (List ToolCall) := do
  let text := content.toList
  let blocks ← ext.blockLoop toolNames (text.length + 1) text []
  let gemma ← if blocks = [] ∧ "<|tool_call>".toList <:+: text then
      ext.parseGemmaToolCallOpenai toolNames text
    else some blocks
  let python ← if gemma = [] then ext.parsePythonToolCalls toolNames text else some gemma
  if python = [] then do
    let fenced ← fencedBodies (text.length + 1) text
    return ((fenced ++ [trim text]).findSome? (ext.tryParse toolNames 0)).toList
  else some python

end Extraction

namespace LlamaCppProvider

/-- `extract_tool_calls_from_content`, and the three scanners it has a copy of. -/
def extractToolCallsFromContent (ext : Extraction) (toolNames : List String) (content : String) :
    Option (List ToolCall) :=
  ext.extractToolCallsFromContent toolNames content

end LlamaCppProvider

end PgSynapse
