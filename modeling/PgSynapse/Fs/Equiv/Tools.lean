import PgSynapse.Fs.Equiv.Sandbox

/-!
# The file tools, one by one

`read_file`, `edit_file`, `list_files` and `load_csv` only touch what their path resolves to, and stay
inside the root.  For `write_file`, `export_csv` and `grep` the theorems say when they do.  What `grep`
reports are the first matches of the whole search (`GrepTool.first_matches`).
-/

namespace PgSynapse

variable {os : Os} {t : FileTree} {sandbox : FsSandbox t}

/-! ### Reading and listing -/

/-- Accesses at the place a checked path resolves to. -/
theorem contained_of_found {rel tool : String} {joined : List (Comp FileName)} {log : List Access}
    (h : sandbox.resolve rel tool = .ok joined)
    (hlog : ∀ a ∈ log, ∃ left, lookup t joined = .found a.loc left) :
    Contained sandbox.root log := by
  intro a ha
  obtain ⟨left, hp⟩ := hlog a ha
  exact FsSandbox.resolve_found h hp

theorem contained_nil (root : List FileName) : Contained root [] := by simp [Contained]

theorem contained_append {root : List FileName} {l₁ l₂ : List Access} :
    Contained root (l₁ ++ l₂) ↔ Contained root l₁ ∧ Contained root l₂ := List.forall_mem_append

theorem ReadFileTool.run_contained (path : String) :
    Contained sandbox.root (ReadFileTool.run os sandbox path).2 := by
  unfold ReadFileTool.run
  dsimp only
  split
  · exact contained_nil _
  rename_i joined hjoined
  split
  · exact contained_nil _
  split
  · exact contained_nil _
  split
  · exact contained_nil _
  exact contained_of_found hjoined fun a ha => fsRead_found ha

theorem ListFilesTool.run_contained (dir : String) :
    Contained sandbox.root (ListFilesTool.run os sandbox dir).2 := by
  unfold ListFilesTool.run
  dsimp only
  split
  · exact contained_nil _
  rename_i joined hjoined
  split
  · exact contained_nil _
  exact contained_of_found hjoined fun a ha => readDir_found ha

theorem LoadCsvTool.source_contained (readCsv : ByteArray → Except ToolError LoadPlan)
    (path : String) : Contained sandbox.root (LoadCsvTool.source os sandbox readCsv path).2 := by
  unfold LoadCsvTool.source
  split
  · exact contained_nil _
  rename_i joined hjoined
  exact contained_of_found hjoined fun a ha => fsRead_found ha

/-! ### Writing -/

/-- A path that exists leads nowhere new. -/
theorem not_leaks_of_exists {root : List FileName} {path : List (Comp FileName)}
    (h : pathExists t path = true) : ¬ Leaks os t root path := by
  rintro ⟨d, n, hmiss, -⟩
  simp [pathExists, hmiss] at h

theorem EditFileTool.run_contained (path old new : String) :
    Contained sandbox.root (EditFileTool.run os sandbox path old new).log := by
  unfold EditFileTool.run
  dsimp only
  split
  · exact contained_nil _
  rename_i joined hjoined
  split
  · exact contained_nil _
  rename_i hfile
  have hread : Contained sandbox.root (fsReadToString os t joined).2 :=
    contained_of_found hjoined fun a ha => fsRead_found ha
  split
  · exact hread
  split
  · exact hread
  split
  · exact hread
  have hexists : pathExists t joined = true := by
    cases hx : pathExists t joined with
    | true => rfl
    | false => simp [hx] at hfile
  rw [contained_append]
  exact ⟨hread, (fsWrite_contained_iff hjoined _).mpr (not_leaks_of_exists hexists)⟩

/-- What `write_file` creates behind new directories is inside the root. -/
theorem Created.write_contained (os : Os) {rel tool : String} {joined : List (Comp FileName)}
    (h : sandbox.resolve rel tool = .ok joined) {run : FsRun (Except IoError Unit)}
    {names a b d : List FileName} {n leaf : FileName} (hc : Created t run names a b n d)
    (hnames : pathNames joined = names ++ [leaf]) (bytes : ByteArray) :
    Contained sandbox.root run.log ∧
      (run.result = .ok () → Contained sandbox.root (fsWrite os run.tree joined bytes).log) := by
  obtain ⟨left, hleft⟩ := hc.found
  have hsplit : pathNames joined = a ++ n :: (b ++ [leaf]) := by
    rw [hnames, hc.split]
    simp
  have hroot : sandbox.root <+: d := FsSandbox.resolve_free h hsplit hleft hc.isDir hc.free
  refine ⟨fun x hx => hroot.trans (hc.below x hx), fun hok x hx => ?_⟩
  obtain ⟨⟨left', hdone⟩, hdir, hempty⟩ := hc.done hok
  have hmiss : lookup run.tree ((pathNames joined).map .name) = .missing (d ++ n :: b) leaf := by
    rw [hnames, List.map_append]
    exact lookup_free hdone hdir (hempty leaf)
  have hparent := (FsSandbox.resolve_ok h).1
  have hsame : ∀ w, lookup run.tree joined = w → (∀ e, w ≠ .failed e) →
      w = .missing (d ++ n :: b) leaf := by
    rintro w rfl hw
    rw [← hmiss]
    exact (walk_pathNames hparent hw).symm
  rcases fsWrite_log hx with ⟨l, hl⟩ | ⟨d', n', hl, rfl, -⟩
  · cases hsame _ hl (by simp)
  · cases hsame _ hl (by simp)
    exact hroot.trans ⟨n :: b ++ [leaf], by simp⟩

/-- **`write_file`**. -/
theorem WriteFileTool.run_contained_iff (path content : String) :
    Contained sandbox.root (WriteFileTool.run os sandbox path content).log ↔
      ∀ joined, sandbox.resolve (Text.trim path) "write_file" = .ok joined →
        ¬ Leaks os t sandbox.root joined := by
  unfold WriteFileTool.run
  cases hjoined : sandbox.resolve (Text.trim path) "write_file" with
  | error e => simp [contained_nil]
  | ok joined =>
    simp only [Except.ok.injEq, forall_eq']
    cases hnames : (pathNames joined).reverse with
    | nil =>
      simp only [List.nil_append]
      exact fsWrite_contained_iff hjoined _
    | cons leaf up =>
      have hsplit : pathNames joined = up.reverse ++ [leaf] := by
        rw [← List.reverse_reverse (pathNames joined), hnames, List.reverse_cons]
      dsimp only
      rcases createDirAll_cases os t up with ⟨hlog, htree, hok⟩ | ⟨a, b, n, d, hc⟩
      · cases habove : (createDirAll os t up).result with
        | error e =>
          dsimp only
          rw [hlog]
          refine iff_of_true (contained_nil _) ?_
          -- a missing file has a parent that exists, and then nothing is created
          rintro ⟨d, n, hmiss, -⟩
          have hpath : lookup t (up.reverse.map .name ++ [.name leaf]) = .missing d n := by
            rw [← hmiss, ← List.map_singleton (f := Comp.name), ← List.map_append, ← hsplit]
            exact walk_pathNames (FsSandbox.resolve_ok hjoined).1
              (fun e he => by rw [← lookup, hmiss] at he; cases he)
          obtain ⟨p, left, hp, hdir⟩ := lookup_concat (fun e he => by rw [hpath] at he; cases he)
          rw [createDirAll_existing hp hdir] at habove
          cases habove
        | ok _ =>
          dsimp only
          rw [hlog, htree, List.nil_append]
          exact fsWrite_contained_iff hjoined _
      · -- the path ends in several missing names, so no link leads on from it
        have hlook : lookup t ((pathNames joined).map .name) = .failed .noent := by
          obtain ⟨left, hleft⟩ := hc.found
          have : (pathNames joined).map (Comp.name (N := FileName)) =
              (a.map .name ++ [.name n]) ++ (b ++ [leaf]).map .name := by
            rw [hsplit, hc.split]
            simp
          rw [this, lookup_append, lookup_free hleft hc.isDir hc.free, Tree.andThen]
          simp
        have hleak : ¬ Leaks os t sandbox.root joined := by
          rintro ⟨d', n', hmiss, -⟩
          have := walk_pathNames (FsSandbox.resolve_ok hjoined).1
            (fun e he => by rw [← lookup, hmiss] at he; cases he)
          rw [← lookup, ← lookup, hlook, hmiss] at this
          cases this
        refine iff_of_true ?_ hleak
        obtain ⟨hmade, hwrite⟩ := hc.write_contained os hjoined hsplit content.toUTF8
        cases habove : (createDirAll os t up).result with
        | error e => exact hmade
        | ok _ => exact contained_append.mpr ⟨hmade, hwrite habove⟩

/-- What `export_csv` writes, when its query and its CSV writer succeed. -/
def exportBytes (rows : Except ToolError (List Value))
    (writeCsv : List (List String) → Except String ByteArray) : Option ByteArray :=
  match rows with
  | .error _ => none
  | .ok [] => none
  | .ok rows =>
    let columns := exportColumns rows
    (writeCsv (columns :: rows.map fun row => columns.map (exportCell row))).toOption

/-- The bytes of a text are read as the text. -/
theorem fromUTF8?_toUTF8 (s : String) : String.fromUTF8? s.toUTF8 = some s := by
  have hvalid : s.toUTF8.IsValidUTF8 := s.isValidUTF8
  unfold String.fromUTF8?
  rw [dif_pos hvalid]
  rfl

/-- **The file of an export** holds `exportBytes`. -/
theorem ExportCsvTool.run_writes {rows : Except ToolError (List Value)}
    {writeCsv : List (List String) → Except String ByteArray} {path : String}
    {joined : List (Comp FileName)} (hjoined : sandbox.resolve path "export_csv" = .ok joined)
    {bytes : ByteArray} (hbytes : exportBytes rows writeCsv = some bytes) :
    (ExportCsvTool.run os sandbox rows writeCsv path).tree = (fsWrite os t joined bytes).tree ∧
      (ExportCsvTool.run os sandbox rows writeCsv path).result.isOk =
        (fsWrite os t joined bytes).result.isOk := by
  unfold exportBytes at hbytes
  rcases rows with e | _ | ⟨row, rows⟩
  · cases hbytes
  · cases hbytes
  · simp only at hbytes
    unfold ExportCsvTool.run
    simp only [hjoined]
    rw [if_neg (by simp)]
    rcases hwrite : writeCsv (exportColumns (row :: rows) ::
      (row :: rows).map fun row' => (exportColumns (row :: rows)).map (exportCell row')) with e | out
    · rw [hwrite] at hbytes
      cases hbytes
    · rw [hwrite] at hbytes
      obtain rfl : out = bytes := Option.some.inj hbytes
      refine ⟨rfl, ?_⟩
      simp only
      cases (fsWrite os t joined out).result <;> rfl

/-- **`export_csv`**. -/
theorem ExportCsvTool.run_contained_iff (rows : Except ToolError (List Value))
    (writeCsv : List (List String) → Except String ByteArray) (path : String) :
    Contained sandbox.root (ExportCsvTool.run os sandbox rows writeCsv path).log ↔
      ((exportBytes rows writeCsv).isSome = true → ∀ joined,
        sandbox.resolve path "export_csv" = .ok joined → ¬ Leaks os t sandbox.root joined) := by
  unfold ExportCsvTool.run exportBytes
  cases hjoined : sandbox.resolve path "export_csv" with
  | error e => simp [contained_nil]
  | ok joined =>
    simp only [Except.ok.injEq, forall_eq']
    cases rows with
    | error e => simp [contained_nil]
    | ok rows =>
      cases rows with
      | nil => simp [contained_nil]
      | cons row rows =>
        dsimp only
        rw [if_neg (by simp)]
        cases writeCsv (exportColumns (row :: rows) ::
          (row :: rows).map fun row' => (exportColumns (row :: rows)).map (exportCell row')) with
        | error e => simp [contained_nil, Except.toOption]
        | ok bytes =>
          simp only [Except.toOption, Option.isSome_some, true_implies]
          exact fsWrite_contained_iff hjoined _

/-! ### Searching -/

/-- A file or directory that a search comes to, with the text of a file. -/
structure Visit where
  access : Access
  display : String
  text : Option String
  deriving DecidableEq

/-- The matches in a visited file. -/
def Visit.found (v : Visit) (pattern : String) : List Value :=
  match v.text with
  | some contents => grepMatches v.display pattern contents
  | none => []

section Trail

variable (os : Os) (t : FileTree) (base : List (Comp FileName))

/-- The files and directories at and below a path in the order of the search, links followed and no
limit set. -/
def grepTrail : Nat → List FileName → List Visit
  | 0, _ => []
  | depth + 1, below =>
    let path := base ++ below.map .name
    if os.tooLong path then []
    else if isFile t path then
      let (r, log) := fsReadToString os t path
      log.map fun a => ⟨a, grepDisplay base below, r.toOption⟩
    else if isDir t path then
      match readDir os t path with
      | (.error _, log) => log.map fun a => ⟨a, "", none⟩
      | (.ok (_, names), log) =>
        (log.map fun a => ⟨a, "", none⟩) ++
          (names.mergeSort FileName.le).flatMap fun n => grepTrail depth (below ++ [n])
    else []

/-- Paths have fewer components than `pathMax`, so the search goes no deeper. -/
theorem grepTrail_depth (depth : Nat) (below : List FileName)
    (h : pathMax ≤ base.length + below.length + depth) :
    grepTrail os t base depth below = grepTrail os t base (depth + 1) below := by
  induction depth generalizing below with
  | zero =>
    have hlong : os.tooLong (base ++ below.map .name) = true :=
      os.tooLong_of_length _ (by simpa using h)
    simp [grepTrail, hlong]
  | succ depth ih =>
    have hnext : ∀ n, grepTrail os t base depth (below ++ [n]) =
        grepTrail os t base (depth + 1) (below ++ [n]) := by
      intro n
      refine ih _ ?_
      rw [List.length_append, List.length_singleton]
      omega
    rw [grepTrail]
    simp only [hnext]
    conv_rhs => rw [grepTrail]

end Trail

/-- The visits a search makes, from `n` matches on, before it has found `grepMaxMatches`. -/
def beforeLimit (pattern : String) : Nat → List Visit → List Visit
  | _, [] => []
  | n, v :: rest =>
    if n ≥ grepMaxMatches then []
    else v :: beforeLimit pattern (min grepMaxMatches (n + (v.found pattern).length)) rest

/-- A search along a trail, with its limit. -/
def replay (pattern : String) : List Visit → List Value × List Access → List Value × List Access
  | [], s => s
  | v :: rest, (out, log) =>
    if out.length ≥ grepMaxMatches then (out, log)
    else replay pattern rest
      (out ++ (v.found pattern).take (grepMaxMatches - out.length), log ++ [v.access])

theorem replay_limit (pattern : String) (trail : List Visit) (s : List Value × List Access)
    (h : s.1.length ≥ grepMaxMatches) : replay pattern trail s = s := by
  cases trail with
  | nil => rfl
  | cons v rest => rw [replay, if_pos h]

theorem replay_append (pattern : String) (trail trail' : List Visit)
    (s : List Value × List Access) :
    replay pattern (trail ++ trail') s = replay pattern trail' (replay pattern trail s) := by
  induction trail generalizing s with
  | nil => rfl
  | cons v trail ih =>
    obtain ⟨out, log⟩ := s
    rw [List.cons_append, replay, replay]
    split
    · rename_i h
      rw [replay_limit _ _ _ h]
    · exact ih _

theorem replay_flatMap (pattern : String) (trail : FileName → List Visit) (names : List FileName)
    (s : List Value × List Access) :
    replay pattern (names.flatMap trail) s =
      names.foldl (fun s n => replay pattern (trail n) s) s := by
  induction names generalizing s with
  | nil => rfl
  | cons n names ih => rw [List.flatMap_cons, replay_append, ih, List.foldl_cons]

/-- The accesses of a search along a trail. -/
theorem replay_log (pattern : String) (trail : List Visit) (out : List Value)
    (log : List Access) :
    (replay pattern trail (out, log)).2 =
      log ++ (beforeLimit pattern out.length trail).map Visit.access := by
  induction trail generalizing out log with
  | nil => simp [replay, beforeLimit]
  | cons v trail ih =>
    rw [replay, beforeLimit]
    split
    · simp
    · rename_i h
      have hlen : (out ++ (v.found pattern).take (grepMaxMatches - out.length)).length =
          min grepMaxMatches (out.length + (v.found pattern).length) := by
        rw [List.length_append, List.length_take]
        omega
      rw [ih, hlen, List.map_cons, List.append_assoc]
      rfl

/-- The matches of a search along a trail. -/
theorem replay_found (pattern : String) (trail : List Visit) (out : List Value)
    (log : List Access) (hout : out.length ≤ grepMaxMatches) :
    (replay pattern trail (out, log)).1 =
      (out ++ trail.flatMap fun v => v.found pattern).take grepMaxMatches := by
  induction trail generalizing out log with
  | nil => simp [replay, List.take_of_length_le hout]
  | cons v trail ih =>
    rw [replay]
    split_ifs with hlimit
    · show out = _
      rw [List.take_append_of_le_length hlimit, List.take_of_length_le hout]
    · have hlen : (out ++ (v.found pattern).take (grepMaxMatches - out.length)).length ≤
          grepMaxMatches := by
        rw [List.length_append, List.length_take]
        omega
      have hcut : ∀ (m : Nat) (found later : List Value),
          (found.take m ++ later).take m = (found ++ later).take m := by
        intro m found later
        have hleft : m - (found.take m).length = m - found.length := by
          rw [List.length_take]
          omega
        rw [List.take_append, List.take_append, List.take_take, Nat.min_self, hleft]
      have hrest : ∀ rest : List Value,
          (out ++ rest).take grepMaxMatches = out ++ rest.take (grepMaxMatches - out.length) := by
        intro rest
        rw [List.take_append, List.take_of_length_le hout]
      rw [ih _ _ hlen, List.flatMap_cons, List.append_assoc, hrest, hrest, hcut]

/-- A visit to a file adds what `grep_file` finds there. -/
theorem replay_file (base : List (Comp FileName)) (pattern : String) (below : List FileName)
    (out : List Value) (log : List Access) (h : ¬ out.length ≥ grepMaxMatches) :
    ((grepFile os t base pattern below out).1, log ++ (grepFile os t base pattern below out).2) =
      replay pattern ((fsReadToString os t (base ++ below.map .name)).2.map fun a =>
        ⟨a, grepDisplay base below, (fsReadToString os t (base ++ below.map .name)).1.toOption⟩)
        (out, log) := by
  unfold grepFile fsReadToString
  rcases fsRead_cases os t (base ++ below.map .name) with ⟨bytes, a, hr⟩ | ⟨e, hr⟩
  · simp only [hr]
    rw [List.map_singleton, replay, if_neg h, replay, Visit.found]
    cases String.fromUTF8? bytes with
    | none => simp [Except.toOption]
    | some contents => simp [Except.toOption]
  · simp [hr, replay]

/-- **The search** is one along its trail. -/
theorem grepPath_eq_replay (base : List (Comp FileName)) (pattern : String) (depth : Nat)
    (below : List FileName) (s : List Value × List Access) :
    grepPath os t base pattern depth below s =
      replay pattern (grepTrail os t base depth below) s := by
  induction depth generalizing below s with
  | zero => rfl
  | succ depth ih =>
    obtain ⟨out, log⟩ := s
    rw [grepPath, grepTrail]
    by_cases hlimit : out.length ≥ grepMaxMatches
    · rw [replay_limit _ _ _ hlimit]
      simp only [hlimit, if_true]
    simp only [hlimit, if_false]
    split
    · rfl
    split
    · exact replay_file base pattern below out log hlimit
    split
    · rcases readDir_cases os t (base ++ below.map .name) with ⟨⟨loc, names⟩, a, hr⟩ | ⟨e, hr⟩
      · simp only [hr, ih]
        rw [List.map_singleton, replay_append, replay, if_neg hlimit, replay, replay_flatMap,
          Visit.found, List.take_nil, List.append_nil]
      · simp [hr, replay]
    · rfl

/-- **`grep`**. -/
theorem GrepTool.run_contained_iff (pattern path : String) :
    Contained sandbox.root (GrepTool.run os sandbox pattern path).2 ↔
      ∀ resolved, sandbox.resolve (Text.trim path) "grep" = .ok resolved →
        ∀ v ∈ beforeLimit (Text.trim pattern) 0 (grepTrail os t resolved pathMax []),
          sandbox.root <+: v.access.loc := by
  unfold GrepTool.run
  cases hresolved : sandbox.resolve (Text.trim path) "grep" with
  | error e => simp [contained_nil]
  | ok resolved =>
    simp only [Except.ok.injEq, forall_eq']
    rw [grepPath_eq_replay, replay_log, List.nil_append, Contained, List.forall_mem_map]
    rfl

/-- However deep a search may go, it comes past the same files. -/
theorem grepTrail_deeper (base : List (Comp FileName)) (more : Nat) :
    grepTrail os t base (pathMax + more) [] = grepTrail os t base pathMax [] := by
  induction more with
  | zero => rfl
  | succ more ih =>
    rw [← ih]
    refine (grepTrail_depth os t base (pathMax + more) [] ?_).symm
    show pathMax ≤ base.length + 0 + (pathMax + more)
    omega

/-- **The first matches**: `grep` reports the first `grepMaxMatches` matches of a search that goes on
to the end, to any depth. -/
theorem GrepTool.first_matches (os : Os) {t : FileTree} (sandbox : FsSandbox t)
    (pattern path : String) (more : Nat) :
    (GrepTool.run os sandbox pattern path).1 =
      (sandbox.resolve (Text.trim path) "grep").map fun resolved =>
        .json (.obj [("matches", .array (((grepTrail os t resolved (pathMax + more) []).flatMap
          fun v => v.found (Text.trim pattern)).take grepMaxMatches))]) := by
  unfold GrepTool.run
  cases sandbox.resolve (Text.trim path) "grep" with
  | error e => rfl
  | ok resolved =>
    have hsearch := replay_found (Text.trim pattern) (grepTrail os t resolved pathMax []) [] []
      (Nat.zero_le grepMaxMatches)
    rw [List.nil_append] at hsearch
    show Except.ok (ToolOutput.json (.obj [("matches", .array (List.take grepMaxMatches
      (grepPath os t resolved (Text.trim pattern) pathMax [] ([], [])).1))])) = _
    rw [grepPath_eq_replay, hsearch, List.take_take, Nat.min_self,
      ← grepTrail_deeper resolved more]
    rfl

/-! ### All of them -/

/-- A call of a file tool, with what the query and the CSV library give it. -/
inductive FileCall where
  | readFile (path : String)
  | writeFile (path content : String)
  | editFile (path old new : String)
  | listFiles (dir : String)
  | grep (pattern path : String)
  | loadCsv (readCsv : ByteArray → Except ToolError LoadPlan) (path : String)
  | exportCsv (rows : Except ToolError (List Value))
      (writeCsv : List (List String) → Except String ByteArray) (path : String)

section FileCall

variable (os) (sandbox)

/-- The files and directories a call reads, lists, creates or overwrites. -/
def FileCall.log : FileCall → List Access
  | .readFile path => (ReadFileTool.run os sandbox path).2
  | .writeFile path content => (WriteFileTool.run os sandbox path content).log
  | .editFile path old new => (EditFileTool.run os sandbox path old new).log
  | .listFiles dir => (ListFilesTool.run os sandbox dir).2
  | .grep pattern path => (GrepTool.run os sandbox pattern path).2
  | .loadCsv readCsv path => (LoadCsvTool.source os sandbox readCsv path).2
  | .exportCsv rows writeCsv path => (ExportCsvTool.run os sandbox rows writeCsv path).log

/-- When a call stays inside.  A file that is written is not the missing target of a link, outside the
root, and neither a file nor a directory that a search comes to before its limit is outside. -/
def FileCall.StaysInside : FileCall → Prop
  | .readFile _ => True
  | .writeFile path _ => ∀ joined, sandbox.resolve (Text.trim path) "write_file" = .ok joined →
      ¬ Leaks os t sandbox.root joined
  | .editFile _ _ _ => True
  | .listFiles _ => True
  | .grep pattern path => ∀ resolved, sandbox.resolve (Text.trim path) "grep" = .ok resolved →
      ∀ v ∈ beforeLimit (Text.trim pattern) 0 (grepTrail os t resolved pathMax []),
        sandbox.root <+: v.access.loc
  | .loadCsv _ _ => True
  | .exportCsv rows writeCsv path => (exportBytes rows writeCsv).isSome = true →
      ∀ joined, sandbox.resolve path "export_csv" = .ok joined → ¬ Leaks os t sandbox.root joined

end FileCall

/-- **The sandbox**: every file and directory a call touches is under the root, exactly when
`StaysInside` holds of the call and the tree. -/
theorem file_calls_contained_iff (os : Os) {t : FileTree} (sandbox : FsSandbox t)
    (call : FileCall) :
    Contained sandbox.root (call.log os sandbox) ↔ call.StaysInside os sandbox := by
  cases call with
  | readFile path => exact iff_of_true (ReadFileTool.run_contained path) trivial
  | writeFile path content => exact WriteFileTool.run_contained_iff path content
  | editFile path old new => exact iff_of_true (EditFileTool.run_contained path old new) trivial
  | listFiles dir => exact iff_of_true (ListFilesTool.run_contained dir) trivial
  | grep pattern path => exact GrepTool.run_contained_iff pattern path
  | loadCsv readCsv path => exact iff_of_true (LoadCsvTool.source_contained readCsv path) trivial
  | exportCsv rows writeCsv path => exact ExportCsvTool.run_contained_iff rows writeCsv path

/-! ### A link to a missing file -/

/-- The directory `/sandbox`, with the link `out` to `/etc/cron`, which is missing. -/
def danglingTree : FileTree :=
  ((Tree.bare.add [] ⟨"sandbox", by decide⟩ .dir).add [] ⟨"etc", by decide⟩ .dir).add
    [⟨"sandbox", by decide⟩] ⟨"out", by decide⟩
    (.symlink true [.name ⟨"etc", by decide⟩, .name ⟨"cron", by decide⟩])

/-- The sandbox `/sandbox`. -/
def danglingSandbox : FsSandbox danglingTree := ⟨[⟨"sandbox", by decide⟩], rfl⟩

/-- An operating system that refuses nothing but paths that are too long. -/
def plainOs : Os where
  refuses _ := none
  tooLong path := decide (pathMax ≤ path.length)
  tooLong_of_length _ h := decide_eq_true h
  entrySize _ := 0
  errorText _ := ""

/-- `write_file` to `out` creates `/etc/cron`. -/
theorem dangling_write_escapes :
    ¬ Contained danglingSandbox.root
      ((FileCall.writeFile "out" "x").log plainOs danglingSandbox) := by
  intro h
  have hcron := h ⟨.create, [⟨"etc", by decide⟩, ⟨"cron", by decide⟩]⟩ (by decide)
  exact absurd hcron (by decide)

end PgSynapse
