import PgSynapse.Std.Text
import PgSynapse.Lib.PathWalk
import PgSynapse.Types.Message
import PgSynapse.LoadFile.StageRows

/-!
# The file tools and their sandbox

`FsSandbox::resolve`, the five tools of `pg-synapse-tools-fs` and the two of
`pg-synapse-tools-loadfile` that take a path, `load_csv` and `export_csv`, over a tree of files,
directories and symbolic links.  Each call returns with the files it read, listed, created or
overwrote, at their locations in the tree.

The operating system resolves paths as `Tree.walk` does.  It may refuse any access it could make, for
a missing permission or a name it does not take, and then leaves the tree as it was.  A file that is
opened for writing is written whole: a disk that fills up under it, which would leave the file
created or cut short, is left out.
-/

namespace PgSynapse

/-! ### Paths -/

/-- A name a directory entry can have. -/
def FileName : Type := { s : String // s ≠ "" ∧ s ≠ "." ∧ s ≠ ".." ∧ '/' ∉ s.toList }

instance : DecidableEq FileName := inferInstanceAs (DecidableEq (Subtype _))

/-- The order of `OsString`. -/
def FileName.le (a b : FileName) : Bool := decide (a.val ≤ b.val)

/-- A part of a path, between two slashes. -/
def comp (part : String) : Comp FileName :=
  if h : part ≠ "" ∧ part ≠ "." ∧ part ≠ ".." ∧ '/' ∉ part.toList then .name ⟨part, h⟩
  else if part = ".." then .parent
  else .self

/-- The components of a path; a slash at its end asks for a directory, as a dot does. -/
def comps (path : String) : List (Comp FileName) := (Text.splitChar '/' path).map comp

/-- `Path::iter`, of a path without `..`. -/
def pathNames (path : List (Comp FileName)) : List FileName :=
  path.filterMap fun
    | .name n => some n
    | _ => none

/-- The text of a relative path. -/
def namesText (names : List FileName) : String := "/".intercalate (names.map Subtype.val)

/-- A tree of files, with their bytes. -/
abbrev FileTree := Tree FileName ByteArray

/-- `MAXSYMLINKS`. -/
def maxSymlinks : Nat := 40

/-- Resolve an absolute path. -/
def lookup (t : FileTree) (path : List (Comp FileName)) : Walk FileName := t.walk maxSymlinks [] path

/-! ### The operating system -/

/-- What a call does with a file or directory. -/
inductive AccessKind where
  | read
  | list
  | create
  | overwrite
  | mkdir
  deriving DecidableEq, Repr

/-- An access, at a location of the tree. -/
structure Access where
  kind : AccessKind
  loc : List FileName
  deriving DecidableEq

/-- Failures of the file functions. -/
inductive IoError where
  | errno (e : Errno)
  | refused (reason : String)
  | invalidUtf8
  | notFound (reason : String)
  deriving DecidableEq, Repr

/-- `PATH_MAX`. -/
def pathMax : Nat := 4096

/-- What the operating system adds to the tree: which accesses it refuses, which paths are too long
for it, the sizes of entries, and its messages.  A path has no more components than bytes. -/
structure Os where
  refuses : Access → Option String
  tooLong : List (Comp FileName) → Bool
  tooLong_of_length : ∀ path, pathMax ≤ path.length → tooLong path = true
  entrySize : List FileName → Nat
  errorText : IoError → String

/-- `Path::exists`. -/
def pathExists (t : FileTree) (path : List (Comp FileName)) : Bool :=
  match lookup t path with
  | .found _ _ => true
  | _ => false

/-- `Path::is_file`. -/
def isFile (t : FileTree) (path : List (Comp FileName)) : Bool :=
  match lookup t path with
  | .found p _ => !t.isDirAt p
  | _ => false

/-- `Path::is_dir`. -/
def isDir (t : FileTree) (path : List (Comp FileName)) : Bool :=
  match lookup t path with
  | .found p _ => t.isDirAt p
  | _ => false

/-- `std::fs::metadata(path).len()` of a file. -/
def fileLen (t : FileTree) (path : List (Comp FileName)) : Nat :=
  match lookup t path with
  | .found p _ =>
    match t.node p with
    | some (.file content) => content.size
    | _ => 0
  | _ => 0

section Calls

variable (os : Os)

/-- Make an access that reads a value, unless it is refused. -/
def access {α : Type} (kind : AccessKind) (loc : List FileName) (value : α) :
    Except IoError α × List Access :=
  match os.refuses ⟨kind, loc⟩ with
  | some reason => (.error (.refused reason), [])
  | none => (.ok value, [⟨kind, loc⟩])

/-- `std::fs::read`. -/
def fsRead (t : FileTree) (path : List (Comp FileName)) : Except IoError ByteArray × List Access :=
  match lookup t path with
  | .found p _ =>
    match t.node p with
    | some (.file content) => access os .read p content
    | _ => (.error (.errno .isdir), [])
  | .missing _ _ => (.error (.errno .noent), [])
  | .failed e => (.error (.errno e), [])

/-- `std::fs::read_to_string`. -/
def fsReadToString (t : FileTree) (path : List (Comp FileName)) :
    Except IoError String × List Access :=
  let (r, log) := fsRead os t path
  (match r with
    | .error e => .error e
    | .ok bytes =>
      match String.fromUTF8? bytes with
      | some s => .ok s
      | none => .error .invalidUtf8, log)

/-- `std::fs::read_dir`, the names in the order the system has them. -/
def readDir (t : FileTree) (path : List (Comp FileName)) :
    Except IoError (List FileName × List FileName) × List Access :=
  match lookup t path with
  | .found p _ =>
    if t.isDirAt p then access os .list p (p, t.names p) else (.error (.errno .notdir), [])
  | .missing _ _ => (.error (.errno .noent), [])
  | .failed e => (.error (.errno e), [])

/-- The end of a call that may change the tree. -/
structure FsRun (α : Type) where
  result : α
  log : List Access
  tree : FileTree

/-- Make an access that changes the tree, unless it is refused. -/
def change (kind : AccessKind) (loc : List FileName) (before after : FileTree) :
    FsRun (Except IoError Unit) :=
  match os.refuses ⟨kind, loc⟩ with
  | some reason => ⟨.error (.refused reason), [], before⟩
  | none => ⟨.ok (), [⟨kind, loc⟩], after⟩

/-- `std::fs::write`: the file is created where it is missing, also behind a link. -/
def fsWrite (t : FileTree) (path : List (Comp FileName)) (bytes : ByteArray) :
    FsRun (Except IoError Unit) :=
  match lookup t path with
  | .found p _ =>
    if t.isDirAt p then ⟨.error (.errno .isdir), [], t⟩
    else change os .overwrite p t (t.setContent p bytes)
  | .missing d n => change os .create (d ++ [n]) t (t.add d n (.file bytes))
  | .failed e => ⟨.error (.errno e), [], t⟩

/-- `mkdir`, of a path given last name first.  A link in the last place is not followed. -/
def mkdir (t : FileTree) : List FileName → FsRun (Except IoError Unit)
  | [] => ⟨.error (.errno .exist), [], t⟩
  | n :: up =>
    match lookup t (up.reverse.map .name) with
    | .found d _ =>
      if t.isDirAt d then
        if (t.node (d ++ [n])).isSome then ⟨.error (.errno .exist), [], t⟩
        else change os .mkdir (d ++ [n]) t (t.add d n .dir)
      else ⟨.error (.errno .notdir), [], t⟩
    | .missing _ _ => ⟨.error (.errno .noent), [], t⟩
    | .failed e => ⟨.error (.errno e), [], t⟩

/-- `std::fs::create_dir_all`, of a path given last name first. -/
def createDirAll (t : FileTree) (path : List FileName) : FsRun (Except IoError Unit) :=
  match (mkdir os t path).result with
  | .ok () => mkdir os t path
  | .error (.errno .noent) =>
    match path with
    | [] => ⟨.error (.notFound "failed to create whole tree"), [], t⟩
    | n :: up =>
      -- the parent is missing: make it, and try again
      let above := createDirAll t up
      match above.result with
      | .error e => ⟨.error e, above.log, above.tree⟩
      | .ok () =>
        let last := mkdir os above.tree (n :: up)
        match last.result with
        | .ok () => ⟨.ok (), above.log ++ last.log, last.tree⟩
        | .error e =>
          if isDir above.tree ((n :: up).reverse.map .name) then ⟨.ok (), above.log, above.tree⟩
          else ⟨.error e, above.log, above.tree⟩
  | .error e =>
    if isDir t (path.reverse.map .name) then ⟨.ok (), [], t⟩ else ⟨.error e, [], t⟩

end Calls

/-! ### The sandbox -/

/-- `FsSandbox`: a directory, by its canonical path. -/
structure FsSandbox (t : FileTree) where
  root : List FileName
  isDir : t.node root = some .dir

/-- `canonicalize_existing_prefix`, of a path given last name first; `suffix` are the names already
taken off. -/
def canonicalizeExistingPrefix (t : FileTree) (path suffix : List FileName) :
    Except String (List FileName) :=
  match lookup t (path.reverse.map .name) with
  | .found p _ => .ok (p ++ suffix)
  | _ =>
    match path with
    -- a link to nowhere counts as missing too, and only what is above it is canonicalized
    | [] => .error "path has no existing ancestor"
    | n :: up => canonicalizeExistingPrefix t up (n :: suffix)

/-- `FsSandbox::resolve`.  The path returned is the joined one, with its links unresolved. -/
def FsSandbox.resolve {t : FileTree} (sandbox : FsSandbox t) (rel toolName : String) :
    Except ToolError (List (Comp FileName)) :=
  let rel := Text.trim rel
  if rel.toList.head? = some '/' ∨ rel.toList.head? = some '\\' then
    .error (.invalidInput toolName
      "absolute paths are not allowed; provide a path relative to the sandbox root")
  else if (comps rel).contains .parent then
    .error (.invalidInput toolName "path escapes sandbox root (.. component detected)")
  else
    let joined := sandbox.root.map .name ++ comps rel
    match canonicalizeExistingPrefix t (pathNames joined).reverse [] with
    | .error e => .error (.invalidInput toolName ("path resolution failed: " ++ e))
    | .ok canon =>
      if sandbox.root <+: canon then .ok joined
      else .error (.invalidInput toolName "path escapes sandbox root")

/-! ### The tools -/

section Tools

variable (os : Os) {t : FileTree} (sandbox : FsSandbox t)

/-- `MAX_FILE_BYTES`: 1 MiB. -/
def maxFileBytes : Nat := 1024 * 1024

/-- `ReadFileTool::run`. -/
def ReadFileTool.run (path : String) : Except ToolError ToolOutput × List Access :=
  let arg := Text.trim path
  match sandbox.resolve arg "read_file" with
  | .error e => (.error e, [])
  | .ok path =>
    if !pathExists t path then (.error (.execution "read_file" ("file not found: " ++ arg)), [])
    else if !isFile t path then (.error (.execution "read_file" ("not a file: " ++ arg)), [])
    else if fileLen t path > maxFileBytes then
      (.error (.execution "read_file"
        ("file is " ++ toString (fileLen t path) ++ " bytes, over the 1 MiB limit")), [])
    else
      let (r, log) := fsReadToString os t path
      (match r with
        | .error e => .error (.execution "read_file" ("read failed: " ++ os.errorText e))
        | .ok contents => .ok (.text contents), log)

/-- `WriteFileTool::run`. -/
def WriteFileTool.run (path content : String) : FsRun (Except ToolError ToolOutput) :=
  match sandbox.resolve (Text.trim path) "write_file" with
  | .error e => ⟨.error e, [], t⟩
  | .ok path =>
    let above : FsRun (Except IoError Unit) :=
      match (pathNames path).reverse with
      | [] => ⟨.ok (), [], t⟩
      | _ :: up => createDirAll os t up
    match above.result with
    | .error e =>
      ⟨.error (.execution "write_file" ("create_dir_all failed: " ++ os.errorText e)), above.log,
        above.tree⟩
    | .ok () =>
      let bytes := content.toUTF8
      let last := fsWrite os above.tree path bytes
      ⟨match last.result with
        | .error e => .error (.execution "write_file" ("write failed: " ++ os.errorText e))
        | .ok () => .ok (.json (.obj [("bytes_written", .nat bytes.size)])),
        above.log ++ last.log, last.tree⟩

/-- `EditFileTool::run`. -/
def EditFileTool.run (path old new : String) : FsRun (Except ToolError ToolOutput) :=
  let arg := Text.trim path
  match sandbox.resolve arg "edit_file" with
  | .error e => ⟨.error e, [], t⟩
  | .ok path =>
    if !pathExists t path || !isFile t path then
      ⟨.error (.execution "edit_file" ("file not found: " ++ arg)), [], t⟩
    else
      let (r, log) := fsReadToString os t path
      match r with
      | .error e => ⟨.error (.execution "edit_file" ("read failed: " ++ os.errorText e)), log, t⟩
      | .ok contents =>
        let count := Text.countMatches contents old
        if count = 0 then
          ⟨.error (.execution "edit_file"
            "old text not found in file (0 matches); check the exact text to replace"), log, t⟩
        else if count > 1 then
          ⟨.error (.execution "edit_file" ("old text matches " ++ toString count ++
            " times; must match exactly once to avoid ambiguous edits")), log, t⟩
        else
          let last := fsWrite os t path (Text.replaceFirst contents old new).toUTF8
          ⟨match last.result with
            | .error e => .error (.execution "edit_file" ("write failed: " ++ os.errorText e))
            | .ok () => .ok (.json (.obj [("replaced", .bool true)])), log ++ last.log, last.tree⟩

/-- `ListFilesTool::run`.  The metadata of an entry is that of a link itself. -/
def ListFilesTool.run (dir : String) : Except ToolError ToolOutput × List Access :=
  let dirArg := Text.trim dir
  match sandbox.resolve dirArg "list_files" with
  | .error e => (.error e, [])
  | .ok path =>
    if !isDir t path then (.error (.execution "list_files" ("not a directory: " ++ dirArg)), [])
    else
      let (r, log) := readDir os t path
      (match r with
        | .error e => .error (.execution "list_files" ("readdir failed: " ++ os.errorText e))
        | .ok (loc, names) =>
          .ok (.json (.obj [("entries", .array ((names.mergeSort FileName.le).map fun n =>
            .obj [("name", .string n.val), ("is_dir", .bool (t.isDirAt (loc ++ [n]))),
              ("size", .nat (os.entrySize (loc ++ [n])))]))])), log)

/-- `LoadCsvTool::run` up to the rows it stages; `readCsv` is what the CSV reader makes of the
bytes. -/
def LoadCsvTool.source (readCsv : ByteArray → Except ToolError LoadPlan) (path : String) :
    Except ToolError LoadPlan × List Access :=
  match sandbox.resolve path "load_csv" with
  | .error e => (.error e, [])
  | .ok joined =>
    let (r, log) := fsRead os t joined
    (match r with
      | .error e =>
        .error (.execution "load_csv" ("could not read " ++ path ++ ": " ++ os.errorText e))
      | .ok bytes => readCsv bytes, log)

/-- A cell of an exported row. -/
def exportCell (row : Value) (column : String) : String :=
  match row.get? column with
  | none => ""
  | some .null => ""
  | some (.string s) => s
  | some other => other.toText

/-- The keys of the first row. -/
def exportColumns (rows : List Value) : List String :=
  match rows with
  | .object fields :: _ => fields.map Prod.fst
  | _ => []

/-- `ExportCsvTool::run`.  `rows` is what the query returns, `writeCsv` the CSV writer. -/
def ExportCsvTool.run (rows : Except ToolError (List Value))
    (writeCsv : List (List String) → Except String ByteArray) (path : String) :
    FsRun (Except ToolError ToolOutput) :=
  match sandbox.resolve path "export_csv" with
  | .error e => ⟨.error e, [], t⟩
  | .ok joined =>
    match rows with
    | .error e => ⟨.error e, [], t⟩
    | .ok rows =>
      if rows.isEmpty then
        ⟨.error (.execution "export_csv"
          "the query returned no rows, so there is nothing to export"), [], t⟩
      else
        let columns := exportColumns rows
        match writeCsv (columns :: rows.map fun row => columns.map (exportCell row)) with
        | .error e => ⟨.error (.execution "export_csv" e), [], t⟩
        | .ok bytes =>
          let last := fsWrite os t joined bytes
          ⟨match last.result with
            | .error e => .error (.execution "export_csv"
                ("could not save " ++ path ++ ": " ++ os.errorText e))
            | .ok () => .ok (.json (.obj [("path", .string path),
                ("rows_exported", .nat rows.length),
                ("columns", .array (columns.map .string)), ("bytes", .nat bytes.size)])),
            last.log, last.tree⟩

end Tools

/-! ### `grep` -/

/-- `GREP_MAX_MATCHES`. -/
def grepMaxMatches : Nat := 200

/-- The matches in a file, as `grep_file` reports them. -/
def grepMatches (display pattern contents : String) : List Value :=
  ((Text.lines contents).zipIdx.filter fun (line, _) => Text.contains line pattern).map
    fun (line, i) =>
      .obj [("file", .string display), ("line_no", .nat (i + 1)), ("line", .string line)]

/-- The name a match is reported under: the path below the one searched, or its file name. -/
def grepDisplay (base : List (Comp FileName)) (below : List FileName) : String :=
  if below.isEmpty then
    match (pathNames base).getLast? with
    | some n => n.val
    | none => ""
  else namesText below

section Grep

variable (os : Os) (t : FileTree) (base : List (Comp FileName)) (pattern : String)

/-- `grep_file`: the matches found so far, with those of one more file up to the limit. -/
def grepFile (below : List FileName) (out : List Value) : List Value × List Access :=
  let (r, log) := fsReadToString os t (base ++ below.map .name)
  (match r with
    | .error _ => out
    | .ok contents =>
      out ++ (grepMatches (grepDisplay base below) pattern contents).take
        (grepMaxMatches - out.length), log)

/-- `grep_path`, for a path `below` the one searched, with the accesses made so far.  The first
argument bounds the depth; `grepTrail_depth` shows that `pathMax` levels are enough. -/
def grepPath : Nat → List FileName → List Value × List Access → List Value × List Access
  | 0, _, s => s
  | depth + 1, below, (out, log) =>
    let path := base ++ below.map .name
    if out.length ≥ grepMaxMatches then (out, log)
    else if os.tooLong path then (out, log)
    else if isFile t path then
      let (out, acc) := grepFile os t base pattern below out
      (out, log ++ acc)
    else if isDir t path then
      -- `is_dir` follows links, so a link to a directory is searched as well
      match readDir os t path with
      | (.error _, acc) => (out, log ++ acc)
      | (.ok (_, names), acc) =>
        (names.mergeSort FileName.le).foldl (fun s n => grepPath depth (below ++ [n]) s)
          (out, log ++ acc)
    else (out, log)

end Grep

/-- `GrepTool::run`. -/
def GrepTool.run (os : Os) {t : FileTree} (sandbox : FsSandbox t) (pattern path : String) :
    Except ToolError ToolOutput × List Access :=
  match sandbox.resolve (Text.trim path) "grep" with
  | .error e => (.error e, [])
  | .ok resolved =>
    let (found, log) := grepPath os t resolved (Text.trim pattern) pathMax [] ([], [])
    (.ok (.json (.obj [("matches", .array (found.take grepMaxMatches))])), log)

end PgSynapse
