import LoopNest.CommandLine.Files
import LoopNest.CommandLine.Options
import LoopNest.NoticeFilter
import LoopNest.Param
import LoopNest.Selection
import LoopNest.Text.Basic
import LoopNest.Tir.Reader
import LoopNest.Tir.Session

/-!
# Runs

A run loads the configuration, reads the module and selects the loops of every kernel.
It fails at the first thing that is wrong, and only a run that did not fail until then
writes the plan file, so a failing run leaves nothing behind.
-/

namespace LoopNest
namespace CommandLine

/-!
## Failures
-/

inductive Failure where
  | paramUnreadable (path : String) (fault : SystemFault)
  | paramInvalid (error : ConfigError)
  | unsupported (name : String)
  | inputUnreadable (path : String) (fault : SystemFault)
  | inputInvalid (path : String) (error : Tir.ReadError)
  | functionNotFound (name : String)
  | planUnwritable (path : String) (fault : SystemFault)

/-- The message for a failure.  Failures of the configuration stand alone. -/
def Failure.message : Failure -> String
  | paramUnreadable path fault => "Failed to read " ++ path ++ ": " ++ fault.message
  | paramInvalid error => error.message
  | unsupported name =>
      "Error: Unsupported input format: " ++ name
        ++ " is LLVM IR; rebuild with `--features llvm`"
  | inputUnreadable path fault =>
      "Error: Failed to read " ++ path ++ ": " ++ fault.message
  | inputInvalid path error => "Error: Failed to parse " ++ path ++ ": " ++ error.message
  | functionNotFound name => "Error: Function not found: " ++ name
  | planUnwritable path fault =>
      "Error: Failed to write " ++ path ++ ": " ++ fault.message

/-!
## Configuration
-/

/-- The configuration in the text of the parameter file, or the standard one if there is no
such file.  The notices tell which. -/
def configure (path : String) (text : Option (Except SystemFault String)) :
    Except Failure (TargetConfig × List Notice) :=
  match text with
  | none => .ok (.standard, [.paramMissing path])
  | some (.error fault) => .error (.paramUnreadable path fault)
  | some (.ok text) =>
      match TargetConfig.ofText text with
      | .error error => .error (.paramInvalid error)
      | .ok config =>
          .ok (config, [.paramLoaded path config.kernels.size config.targetNested
            config.targetEntireFunction])

/-!
## Functions
-/

structure FunctionReport where
  output : List String
  notices : List Notice
  plans : List Plan

def loopLine {beta : Type} (config : TargetConfig) (code : Code beta) (forest : LoopForest beta)
    (id : LoopId) : Option String :=
  (forest.get? id).map fun l =>
    String.ofList (List.replicate (2 * l.depth) ' ') ++ "loop " ++ code.blockName l.header
      ++ " depth " ++ toString l.depth ++ ": "
      ++ (Candidates.classUnder config code forest id).display
      ++ " (" ++ toString l.blocks.length ++ " blocks)"

def nestLines {beta : Type} (config : TargetConfig) (name : String) (code : Code beta)
    (forest : LoopForest beta) : List String :=
  ("Loops of " ++ name ++ " (" ++ toString forest.size ++ " total)")
    :: forest.outline.filterMap (loopLine config code forest)

def nestNotices {beta : Type} (config : TargetConfig) (code : Code beta)
    (forest : LoopForest beta) : List Notice :=
  forest.outline.flatMap (forest.classNotices code config.scope)

/-- The form of a block in the notices of an analysis. -/
def blockLabel {n : Nat} (b : Fin n) : String :=
  "BlockRef(" ++ toString b.val ++ ")"

def kernelReport {n : Nat} (config : TargetConfig) (printLoops : Bool) (code : Code (Fin n))
    (name : String) (g : FlowGraph n) : FunctionReport :=
  let forest := g.forest
  let selection := Selection.ofForest config name code forest
  { output := (if printLoops then nestLines config name code forest else [])
      ++ selection.events.map SelectionEvent.display
    notices := g.analyze.notices blockLabel forest
      ++ (if printLoops then nestNotices config code forest else [])
      ++ Selection.notices config name code forest
      ++ if selection.isEmpty then [.nothingSelected name] else []
    plans := [Plan.ofSelection config name code forest selection] }

/-- The report on a function.  Declarations and functions that are no kernels are skipped. -/
def functionReport (config : TargetConfig) (printLoops : Bool) (m : Tir.Module)
    (code : Code m.BlockIn) (f : Tir.Function) : FunctionReport :=
  match m.graph? f, f.isDeclaration || !config.isKernel f.name with
  | some g, false => kernelReport config printLoops code f.name g
  | _, _ => ⟨[], [.skipped f.name], []⟩

/-!
## Modules
-/

def moduleNotices (config : TargetConfig) (input : String) (m : Tir.Module) : List Notice :=
  .functionCount m.functions.length
    :: (config.kernels.names.filter fun name => (m.function? name).isNone).map fun name =>
      .undefinedKernel name input

/-- The functions that a run looks at. -/
def chosen (only : Option String) (m : Tir.Module) : List Tir.Function :=
  match only with
  | none => m.functions
  | some name => m.functions.filter fun f => f.name == name

def missing? (only : Option String) (m : Tir.Module) : Option String :=
  only.filter fun name => (m.function? name).isNone

/-- The module in the text of the input file.  Some extensions are not supported. -/
def load (path : String) (text : Except SystemFault String) : Except Failure Tir.Module :=
  if Path.extension? path = some "ll" ∨ Path.extension? path = some "bc" then
    .error (.unsupported ((Path.fileName? path).getD path))
  else
    match text with
    | .error fault => .error (.inputUnreadable path fault)
    | .ok text => (Tir.Module.parse text).mapError (.inputInvalid path)

/-!
## Runs
-/

/-- What a run prints and reports, and the plans that it makes or the failure that ends it.
Behind that stand the text that was written to a standard stream as the plan file, and the
notices that follow it. -/
structure Report where
  output : List String
  notices : List Notice
  result : Except Failure (List Plan)
  streamed : Option (Stream × String) := none
  lastNotices : List Notice := []

def moduleReport (config : TargetConfig) (options : Options) (m : Tir.Module) : Report :=
  let notices := moduleNotices config options.input m
  match missing? options.function m with
  | some name => { output := [], notices, result := .error (.functionNotFound name) }
  | none =>
      let reports := (chosen options.function m).map
        (functionReport config options.printLoops m m.code.stored)
      { output := reports.flatMap FunctionReport.output
        notices := notices ++ reports.flatMap FunctionReport.notices
        result := .ok (reports.flatMap FunctionReport.plans) }

/-- The report of a run up to the plan file, from the texts of its files. -/
def report (options : Options) (param : Option (Except SystemFault String))
    (input : Except SystemFault String) : Report :=
  match configure options.param param with
  | .error failure => { output := [], notices := [], result := .error failure }
  | .ok (config, loaded) =>
      match load options.input input with
      | .error failure => { output := [], notices := loaded, result := .error failure }
      | .ok m =>
          let r := moduleReport config options m
          { r with notices := loaded ++ r.notices }

/-- The plan file that a report asks for: its path and its text. -/
def Report.planFile? (options : Options) (r : Report) : Option (String × String) :=
  match options.planFile, r.result with
  | some path, .ok plans => some (path, Plan.fileText plans)
  | _, _ => none

/-- The report after the plan file has been written, or could not be.  A standard stream
may have taken its text. -/
def Report.afterWriting (r : Report) (path : String) (fault : Option SystemFault)
    (streamed : Option (Stream × String)) : Report :=
  match fault, r.result with
  | some fault, _ => { r with result := .error (.planUnwritable path fault) }
  | none, .ok plans =>
      { r with streamed, lastNotices := [.plansWritten plans.length path] }
  | none, .error _ => r

def Report.status (r : Report) : Nat :=
  match r.result with
  | .ok _ => 0
  | .error _ => 1

/-- The text of the plan file, if a standard stream has taken it. -/
def Report.streamedTo (r : Report) (stream : Stream) : String :=
  match r.streamed with
  | none => ""
  | some (s, text) => if s = stream then text else ""

def Report.outputText (r : Report) : String :=
  Text.ofLines r.output ++ r.streamedTo .output

/-- What stands on the standard error output in the end: the last notices that are wanted,
and the failure. -/
def Report.closingText (r : Report) (filter : NoticeFilter) : String :=
  let failure :=
    match r.result with
    | .ok _ => []
    | .error failure => [failure.message]
  filter.entries r.lastNotices ++ Text.ofLines failure

/-- The standard error output: the notices that are wanted, and the failure. -/
def Report.errorText (r : Report) (filter : NoticeFilter) : String :=
  filter.log r.notices ++ r.streamedTo .errors ++ r.closingText filter

/-- A run on files: its report and the files after it. -/
def run (options : Options) (files : Files) : Report × Files :=
  let param := if files.holds options.param then some (files.read options.param) else none
  let r := report options param (files.read options.input)
  match r.planFile? options with
  | none => (r, files)
  | some (path, text) =>
      match files.write path text with
      | (some fault, left) => (r.afterWriting path (some fault) none, left)
      | (none, written) =>
          (r.afterWriting path none ((files.stream? path).map fun s => (s, text)), written)

end CommandLine
end LoopNest
