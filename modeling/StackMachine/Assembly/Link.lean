import StackMachine.Assembly.Excerpt
import StackMachine.Assembly.File

/-!
# Linking

A program is linked from source files in order, which share one session. A file that is rejected
makes the link fail, but the files behind it are still assembled, so that all errors are told. A
file that cannot be read ends the link at once.

* `link` takes source files, `linkPaths` takes paths and a way to read files; both are folds of
  `LinkState.assemble`.
-/

namespace StackMachine.Assembly

/-- Diagnostics and the source files that they are about. -/
structure Report where
  diagnostics : Diagnostics
  sources : Array SourceFile

namespace Report

/-- The report that says nothing. -/
def empty : Report :=
  ⟨#[], #[]⟩

/-- The diagnostics with excerpts from the sources. -/
def toText (style : ExcerptStyle) (r : Report) : String :=
  r.diagnostics.toText style r.sources

end Report

/-- Why there is no program. -/
inductive LinkError where
  /-- Files were rejected. -/
  | failed
  /-- A file could not be read. -/
  | unreadable (path cause : String)
deriving DecidableEq, Repr

/-- The outcome of a link, and what there is to say about it. -/
structure LinkResult where
  outcome : Except LinkError Program
  report : Report

/-- The text of a link error, in view of the report. -/
def LinkError.message (report : Report) : LinkError → String
  | failed =>
    "assembly failed with " ++ Text.decimal report.diagnostics.errorCount ++ " errors"
  | unreadable path cause => "cannot read `" ++ path ++ "`: " ++ cause

/-- The state between two files of a link. -/
structure LinkState where
  session : Session
  report : Report
  rejected : Bool

namespace LinkState

/-- The state before the first file. -/
def start (registry : Registry) : LinkState :=
  ⟨Session.start registry, .empty, false⟩

/-- Assemble one more file. -/
def assemble (state : LinkState) (file : SourceFile) : LinkState :=
  let result := file.assemble state.session
  { session := result.session
    report :=
      { diagnostics := state.report.diagnostics ++ result.diagnostics
        sources := state.report.sources.push file }
    rejected := state.rejected || !result.accepted }

/-- Take note of a file that is no text. -/
def reject (state : LinkState) (e : EncodingError) : LinkState :=
  let diagnostic := Diagnostic.ofKind .invalidEncoding e.path e.line ⟨0, 0⟩ e.message
  { state with
    report := { state.report with diagnostics := state.report.diagnostics.push diagnostic }
    rejected := true }

/-- Assemble one more file from its bytes, if they are a text. -/
def assembleBytes (state : LinkState) (path : String) (bytes : Bytes) : LinkState :=
  match SourceFile.ofBytes path bytes with
  | .ok file => state.assemble file
  | .error e => state.reject e

/-- The outcome after the last file. -/
def finish (state : LinkState) : LinkResult :=
  ⟨if state.rejected then .error .failed else .ok state.session.finish, state.report⟩

/-- Read and assemble the files at some paths. -/
def assemblePaths (read : String → Except String Bytes) (state : LinkState) :
    List String → LinkResult
  | [] => state.finish
  | path :: rest =>
    match read path with
    | .ok bytes => assemblePaths read (state.assembleBytes path bytes) rest
    | .error cause => ⟨.error (.unreadable path cause), state.report⟩

end LinkState

/-- Link source files. -/
def link (registry : Registry) (files : List SourceFile) : LinkResult :=
  (files.foldl LinkState.assemble (.start registry)).finish

/-- Link the files at some paths; `read` gives the bytes at a path, or why there are none. -/
def linkPaths (registry : Registry) (read : String → Except String Bytes) (paths : List String) :
    LinkResult :=
  (LinkState.start registry).assemblePaths read paths

end StackMachine.Assembly
