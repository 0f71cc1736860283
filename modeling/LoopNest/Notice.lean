import LoopNest.Analysis
import LoopNest.Selection

/-!
# Notices

What a program reports while it works, and how the reports are printed.
-/

namespace LoopNest
namespace Terminal

/-!
## Text for terminals

A terminal takes some characters as commands: control characters, and sequences that an
escape character opens.  A text that is not meant for a terminal is printed without them.

The phase of a terminal says in which part of a sequence it is.  What is printed begins with
the first character that the phase lets through, and from there on goes on up to the next
control character, even where white space stood inside a sequence.
-/

inductive Phase where
  | ground
  | escape
  | escapeMarks
  | sequence
  | deviceStart
  | deviceNumbers
  | deviceMarks
  | string
  | systemCommand
  deriving DecidableEq, Repr

def within (low high : Nat) (c : Char) : Bool :=
  decide (low ≤ c.toNat) && decide (c.toNat ≤ high)

/-- The byte that ends a string, by itself or inside the UTF-8 form of a character. -/
def endOfString : UInt8 :=
  0x9c

/-- White space that keeps its meaning as a control character. -/
def isSpacing (c : Char) : Bool :=
  c == '\t' || c == '\n' || c == '\x0c' || c == '\r'

namespace Phase

def afterEscape (c : Char) : Phase :=
  if within 0x20 0x2f c then escapeMarks
  else if c = '[' then sequence
  else if c = ']' then systemCommand
  else if c = 'P' then deviceStart
  else if c = 'X' ∨ c = '^' ∨ c = '_' then string
  else if within 0x30 0x7e c then ground
  else escape

def next (p : Phase) (c : Char) : Phase :=
  if c = '\x1b' then escape
  else if c = '\x18' ∨ c = '\x1a' then ground
  else
    match p with
    | ground => ground
    | escape => afterEscape c
    | escapeMarks => if within 0x30 0x7e c then ground else escapeMarks
    | sequence => if within 0x40 0x7e c then ground else sequence
    | deviceStart =>
        if within 0x20 0x2f c then deviceMarks
        else if within 0x30 0x3f c then deviceNumbers
        else if within 0x40 0x7e c then string
        else deviceStart
    | deviceNumbers =>
        if within 0x20 0x2f c then deviceMarks
        else if within 0x3c 0x7e c then string
        else deviceNumbers
    | deviceMarks => if within 0x30 0x7e c then string else deviceMarks
    | string => if (String.utf8EncodeChar c).contains endOfString then ground else string
    | systemCommand => if c = '\x07' then ground else systemCommand

def shows (p : Phase) (c : Char) : Bool :=
  match p with
  | ground => isSpacing c || (decide (' ' ≤ c) && c != '\x7f')
  | escape => isSpacing c
  | escapeMarks => isSpacing c
  | sequence => isSpacing c
  | _ => false

/-- The phase behind a character that was printed.  Characters outside ASCII end a
sequence. -/
def afterPrinting (p : Phase) (c : Char) : Phase :=
  if c.toNat < 0x80 then p else ground

end Phase

/-- The characters that are printed from a phase on; `running` says that the last character
was printed. -/
def printedFrom : (running : Bool) -> Phase -> List Char -> List Char
  | _, _, [] => []
  | running, p, c :: cs =>
      if (if running then Phase.ground else p).shows c then
        c :: printedFrom true (p.afterPrinting c) cs
      else
        printedFrom false (p.next c) cs

def printed (text : String) : String :=
  String.ofList (printedFrom false .ground text.toList)

end Terminal

/-!
## Notices

Every stage of a run reports what it found.  A notice has a level, a target that names the
stage, and a text; a reader of the notices asks for all notices up to a level.  Notices are
computed from the results of a stage, so they never influence them.
-/

/-- The levels of notices, the most severe first. -/
inductive Level where
  | error
  | warn
  | info
  | debug
  | trace
  deriving DecidableEq, Repr

namespace Level

def rank : Level -> Nat
  | error => 1
  | warn => 2
  | info => 3
  | debug => 4
  | trace => 5

def name : Level -> String
  | error => "ERROR"
  | warn => "WARN"
  | info => "INFO"
  | debug => "DEBUG"
  | trace => "TRACE"

def paddedName (level : Level) : String :=
  level.name.pushn ' ' (5 - level.name.length)

def ofWord? (word : String) : Option Level :=
  [error, warn, info, debug, trace].find? fun level => level.name == word.toUpper

/-- The bound that a word sets: a level, or none if everything is turned off. -/
def boundOfWord? (word : String) : Option (Option Level) :=
  if word.toUpper = "OFF" then some none else (ofWord? word).map some

end Level

inductive Notice where
  | naturalLoop (header : String) (size : Nat)
  | analyzed (reachable loops topLevel : Nat)
  | vectorUse (use : VectorUse)
  | candidate (header : String) (depth : Nat) (loopClass : LoopClass)
  | selection (event : SelectionEvent)
  | unmatched (function : String) (index candidates : Nat)
  | paramLoaded (path : String) (kernels : Nat) (nested entireFunction : Bool)
  | paramMissing (path : String)
  | functionCount (count : Nat)
  | undefinedKernel (kernel input : String)
  | skipped (function : String)
  | nothingSelected (function : String)
  | plansWritten (count : Nat) (path : String)
  deriving DecidableEq, Repr

namespace Notice

def level : Notice -> Level
  | naturalLoop .. => .trace
  | analyzed .. => .debug
  | vectorUse .. => .trace
  | candidate .. => .debug
  | selection .. => .debug
  | unmatched .. => .warn
  | paramLoaded .. => .debug
  | paramMissing .. => .warn
  | functionCount .. => .debug
  | undefinedKernel .. => .warn
  | skipped .. => .debug
  | nothingSelected .. => .info
  | plansWritten .. => .info

/-- The stage that a notice comes from. -/
def target : Notice -> String
  | naturalLoop .. => "loopsel::core::loops"
  | analyzed .. => "loopsel::core::loops"
  | vectorUse .. => "loopsel::core::classifier"
  | candidate .. => "loopsel::core::selector"
  | selection .. => "loopsel::core::selector"
  | unmatched .. => "loopsel::core::selector"
  | paramLoaded .. => "loopsel::config"
  | paramMissing .. => "loopsel::config"
  | functionCount .. => "loopsel"
  | undefinedKernel .. => "loopsel"
  | skipped .. => "loopsel"
  | nothingSelected .. => "loopsel"
  | plansWritten .. => "loopsel"

def text : Notice -> String
  | naturalLoop header size =>
      "Natural loop at " ++ header ++ " with " ++ toString size ++ " blocks"
  | analyzed reachable loops topLevel =>
      "Loop analysis: " ++ toString reachable ++ " reachable blocks, " ++ toString loops
        ++ " loops (" ++ toString topLevel ++ " top-level)"
  | vectorUse ⟨.result, opcode, block⟩ =>
      "Vector result from '" ++ opcode ++ "' in block " ++ block
  | vectorUse ⟨.operand, opcode, block⟩ =>
      "Vector operand to '" ++ opcode ++ "' in block " ++ block
  | candidate header depth loopClass =>
      "Loop at " ++ header ++ " (depth " ++ toString depth ++ ") is " ++ loopClass.display
  | selection event => event.display
  | unmatched function index candidates =>
      function ++ ": targetLoopsID " ++ toString index ++ " matches no loop ("
        ++ toString candidates ++ " candidates)"
  | paramLoaded path kernels nested entireFunction =>
      "Loaded " ++ path ++ ": " ++ toString kernels ++ " kernel(s), targetNested="
        ++ toString nested ++ ", targetFunction=" ++ toString entireFunction
  | paramMissing path => path ++ " not found, using default configuration"
  | functionCount count => toString count ++ " function(s) in module"
  | undefinedKernel kernel input => "Kernel " ++ kernel ++ " is not defined in " ++ input
  | skipped function => "Skipping " ++ function ++ ": not a target kernel"
  | nothingSelected function => function ++ ": no loops selected"
  | plansWritten count path =>
      "Wrote " ++ toString count ++ " mapping plan(s) to " ++ path

def isWithin (bound : Option Level) (notice : Notice) : Bool :=
  match bound with
  | none => false
  | some level => decide (notice.level.rank ≤ level.rank)

def upTo (bound : Option Level) (notices : List Notice) : List Notice :=
  notices.filter (isWithin bound)

/-- The entry for a notice in a log, with its line feed.  Further lines of the text are
indented, and nothing is left that only a terminal understands. -/
def entry (notice : Notice) : String :=
  Terminal.printed
    ("[" ++ notice.level.paddedName ++ " " ++ notice.target ++ "] "
      ++ String.intercalate "\n    " (notice.text.splitOn "\n") ++ "\n")

end Notice

/-!
### Notices of the stages
-/

/-- The notices of an analysis; `label` names a block. -/
def Analysis.notices {n : Nat} (label : Fin n -> String) (a : Analysis n)
    (forest : LoopForest (Fin n)) : List Notice :=
  (forest.loops.map fun l => Notice.naturalLoop (label l.header) l.blocks.length)
    ++ [.analyzed a.order.length forest.size forest.topLevel.length]

def Code.notices {beta : Type} (code : Code beta) (blocks : List beta) : List Notice :=
  (code.vectorUse? blocks).toList.map .vectorUse

def LoopForest.classNotices {beta : Type} (forest : LoopForest beta) (code : Code beta)
    (scope : ClassifyScope) (id : LoopId) : List Notice :=
  code.notices (forest.inspected scope id)

def Candidates.loopNotices {beta : Type} (config : TargetConfig) (code : Code beta)
    (forest : LoopForest beta) (id : LoopId) : List Notice :=
  match forest.get? id with
  | none => []
  | some l =>
      forest.classNotices code config.scope id
        ++ [.candidate (code.blockName l.header) l.depth (classUnder config code forest id)]

def Candidates.notices {beta : Type} (config : TargetConfig) (code : Code beta)
    (forest : LoopForest beta) : List Notice :=
  (discovered config forest).flatMap (loopNotices config code forest)

/-- The notices of a selection.  Loops that were asked for are reported before the numbers
without a loop, loops that were chosen automatically after them. -/
def Selection.notices {beta : Type} (config : TargetConfig) (name : String) (code : Code beta)
    (forest : LoopForest beta) : List Notice :=
  if config.isKernel name then
    let count := (Candidates.ofForest config code forest).size
    let selection := Selection.ofForest config name code forest
    let events := selection.events.map Notice.selection
    let unmatched := selection.unmatchedIds.map fun id => Notice.unmatched name id count
    Candidates.notices config code forest
      ++ if selection.autoSelected then unmatched ++ events else events ++ unmatched
  else []

end LoopNest
