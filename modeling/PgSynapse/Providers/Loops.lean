import PgSynapse.Lib.Loops
import PgSynapse.Providers.Extraction

/-!
# The loops of the extraction, one iteration at a time

The bodies of the seven loops that scan a text for tool calls.  The state of a loop is the text that
is left to scan and what was collected, and a slice that does not exist makes the iteration fail.
-/

namespace PgSynapse.Extraction

variable (ext : Extraction) (toolNames : List String)

/-- The text that is left, and what was collected. -/
abbrev Scan (α : Type) := List Char × α

/-- `while let Some(p_start) = search.find("<parameter=")`.  The loop gives the function block up
when a key does not end, and the arguments otherwise. -/
def parameterBody : Scan (List (String × Value)) →
    Option (Iteration (Scan (List (String × Value))) (Option (List (String × Value))))
  | (search, args) =>
    match find search "<parameter=".toList with
    | none => some (.exit (some args))
    | some pStart => do
      let afterP ← sliceFrom search (pStart + byteLen "<parameter=".toList)
      match find afterP ">".toList with
      | none => some (.exit none)
      | some keyEnd => do
        let key ← sliceTo afterP keyEnd
        let valStr ← sliceFrom afterP (keyEnd + 1)
        let valEnd := (find valStr "</parameter>".toList).getD (byteLen valStr)
        let val ← sliceTo valStr valEnd
        let search ← sliceFrom valStr
          (valEnd + min (byteLen "</parameter>".toList) (byteLen valStr))
        return .next (search,
          Value.insertField (String.ofList (trim key)) (ext.jsonOrText (trim val)) args)

/-- `while let Some(start) = search.find("<tool_call>")`. -/
def blockBody : Scan (List ToolCall) → Option (Iteration (Scan (List ToolCall)) (List ToolCall))
  | (search, results) =>
    match find search "<tool_call>".toList with
    | none => some (.exit results)
    | some start => do
      let afterOpen ← sliceFrom search (start + byteLen "<tool_call>".toList)
      match find afterOpen "</tool_call>".toList with
      | none => some (.exit results)
      | some close => do
        let inner := trim (← sliceTo afterOpen close)
        let call ← ext.blockCall toolNames results.length inner
        let search ← sliceFrom afterOpen (close + byteLen "</tool_call>".toList)
        return .next (search, results ++ call.toList)

/-- `while !a.is_empty()`, over the items of an array. -/
def gemmaArrayBody : Scan (List Value) → Option (Iteration (Scan (List Value)) (List Value))
  | (a, items) =>
    if a = [] then some (.exit items)
    else
      let a := a.dropWhile isItemGap
      if a = [] then some (.exit items)
      else if qmark <+: a then do
        let inner ← sliceFrom a (byteLen qmark)
        let close := (find inner qmark).getD (byteLen inner)
        let text ← sliceTo inner close
        let a ← sliceFrom inner (close + byteLen qmark)
        return .next (a, items ++ [.string (String.ofList text)])
      else do
        let close := (findChar a isItemEnd).getD (byteLen a)
        let text ← sliceTo a close
        let a ← sliceFrom a close
        return .next (a, items ++ [(ext.readJson (trim text)).getD .null])

/-- `while !rem.is_empty()`, over the arguments. -/
def gemmaArgsBody : Scan (List (String × Value)) →
    Option (Iteration (Scan (List (String × Value))) (List (String × Value)))
  | (rem, map) =>
    if rem = [] then some (.exit map)
    else
      let rem := rem.dropWhile isArgGap
      if rem = [] then some (.exit map)
      else
        match find rem ":".toList with
        | none => some (.exit map)
        | some colon => do
          let key := String.ofList (trim (← sliceTo rem colon))
          let rem ← sliceFrom rem (colon + 1)
          if qmark <+: rem then do
            let inner ← sliceFrom rem (byteLen qmark)
            let close := (find inner qmark).getD (byteLen inner)
            let text ← sliceTo inner close
            let rem ← sliceFrom inner (close + byteLen qmark)
            return .next (rem, Value.insertField key (.string (String.ofList text)) map)
          else if "[".toList <+: rem then
            match find rem "]".toList with
            | none => some (.exit map)
            | some arrEnd => do
              let arrStr ← slice rem 1 arrEnd
              let items ← ext.gemmaArray (arrStr.length + 1) arrStr
              let rem ← sliceFrom rem (arrEnd + 1)
              return .next (rem, Value.insertField key (.array items) map)
          else do
            let close := (find rem ",".toList).getD (byteLen rem)
            let text ← sliceTo rem close
            let rem ← sliceFrom rem close
            return .next (rem, Value.insertField key (ext.jsonOrText (trim text)) map)

/-- `while let Some(start) = search.find(OPEN)`. -/
def gemmaBody : Scan (List ToolCall) → Option (Iteration (Scan (List ToolCall)) (List ToolCall))
  | (search, results) =>
    match find search "<|tool_call>call:".toList with
    | none => some (.exit results)
    | some start => do
      let after ← sliceFrom search (start + byteLen "<|tool_call>call:".toList)
      match find after "\x7b".toList with
      | none => some (.exit results)
      | some brace => do
        let name := String.ofList (trim (← sliceTo after brace))
        let rest ← sliceFrom after brace
        if name ∈ toolNames then do
          let close := (find rest "<tool_call|>".toList).getD (byteLen rest)
          let blob := stripBraces (trim (← sliceTo rest close))
          let args ← ext.gemmaArgsOf blob
          let results := results ++ [⟨ext.callId results.length, name, .object args⟩]
          if close < byteLen rest then do
            let search ← sliceFrom rest (close + byteLen "<tool_call|>".toList)
            return .next (search, results)
          else some (.exit results)
        else some (.next (rest, results))

/-- `while let Some(open) = s.find("```")`, over blocks of Python calls. -/
def fencedLinesBody : Scan (List (List Char)) →
    Option (Iteration (Scan (List (List Char))) (List (List Char)))
  | (s, lines) =>
    match find s "```".toList with
    | none => some (.exit lines)
    | some start => do
      let after ← sliceFrom s (start + 3)
      let langEnd := (find after "\n".toList).getD (byteLen after)
      let lang := trim (← sliceTo after langEnd)
      let bodyStart := langEnd + 1
      if byteLen after ≤ bodyStart then some (.exit lines)
      else do
        let body ← sliceFrom after bodyStart
        match find body "```".toList with
        | none => some (.exit lines)
        | some close => do
          let block ← sliceTo body close
          let s ← sliceFrom body (close + 3)
          return .next (s, lines ++ if isCallLanguage lang then trimmedLines block else [])

/-- `while let Some(open) = s.find("```")`, over blocks of JSON. -/
def fencedBodiesBody : Scan (List (List Char)) →
    Option (Iteration (Scan (List (List Char))) (List (List Char)))
  | (s, bodies) =>
    match find s "```".toList with
    | none => some (.exit bodies)
    | some start => do
      let after ← sliceFrom s (start + 3)
      let bodyStart := ((find after "\n".toList).map fun i => i + 1).getD 0
      let body ← sliceFrom after bodyStart
      match find body "```".toList with
      | none => some (.exit bodies)
      | some close => do
        let block ← sliceTo body close
        let s ← sliceFrom body (close + 3)
        return .next (s, bodies ++ [trim block])

end PgSynapse.Extraction
