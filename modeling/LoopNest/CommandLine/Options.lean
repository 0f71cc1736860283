/-!
# Command lines

A command line names one module file.  It may name a parameter file, a function and a plan
file, and may ask for the loop nests.  A value follows its option as the next argument or
after an equals sign; behind the letter of a short option the sign may be left out.
-/

namespace LoopNest
namespace CommandLine

structure Options where
  input : String
  param : String
  function : Option String
  planFile : Option String
  printLoops : Bool
  deriving DecidableEq, Repr

/-- The options that have been read so far. -/
structure Request where
  input : Option String
  param : Option String
  function : Option String
  planFile : Option String
  printLoops : Bool

namespace Request

def empty : Request :=
  ⟨none, none, none, none, false⟩

/-- The options that take a value. -/
inductive Slot where
  | input
  | param
  | function
  | planFile

def fill (p : Request) (slot : Slot) (value : String) : Option Request :=
  match slot with
  | .input => if p.input.isSome then none else some { p with input := some value }
  | .param => if p.param.isSome then none else some { p with param := some value }
  | .function => if p.function.isSome then none else some { p with function := some value }
  | .planFile => if p.planFile.isSome then none else some { p with planFile := some value }

/-- Asks for the loop nests, unless that was done before. -/
def setPrint (p : Request) : Option Request :=
  if p.printLoops then none else some { p with printLoops := true }

def finish (p : Request) : Option Options :=
  p.input.map fun input =>
    ⟨input, p.param.getD "param.json", p.function, p.planFile, p.printLoops⟩

end Request

def longSlot? (name : List Char) : Option Request.Slot :=
  if name = "param".toList then some .param
  else if name = "function".toList then some .function
  else if name = "emit-plan".toList then some .planFile
  else none

def shortSlot? (letter : Char) : Option Request.Slot :=
  if letter = 'p' then some .param
  else if letter = 'f' then some .function
  else none

inductive Argument where
  | positional (value : String)
  | rest
  | print
  | option (slot : Request.Slot) (value : Option String)
  | unknown

def longArgument (text : List Char) : Argument :=
  if text = [] then .rest
  else if text = "print-loops".toList then .print
  else
    match longSlot? (text.takeWhile (· != '=')), text.dropWhile (· != '=') with
    | none, _ => .unknown
    | some slot, [] => .option slot none
    | some slot, _ :: value => .option slot (some (String.ofList value))

def shortArgument (letter : Char) (text : List Char) : Argument :=
  match shortSlot? letter, text with
  | none, _ => .unknown
  | some slot, [] => .option slot none
  | some slot, '=' :: value => .option slot (some (String.ofList value))
  | some slot, value => .option slot (some (String.ofList value))

def Argument.ofString (text : String) : Argument :=
  match text.toList with
  | '-' :: '-' :: name => longArgument name
  | '-' :: letter :: value => shortArgument letter value
  | _ => .positional text

/-- Reads arguments from left to right.  Options are `allowed` up to two hyphens that stand
alone. -/
def readArguments : (allowed : Bool) -> Request -> List String -> Option Request
  | _, p, [] => some p
  | false, p, text :: texts => do
      let p <- p.fill .input text
      readArguments false p texts
  | true, p, text :: texts =>
      match Argument.ofString text with
      | .positional value => do
          let p <- p.fill .input value
          readArguments true p texts
      | .rest => readArguments false p texts
      | .print => do
          let p <- p.setPrint
          readArguments true p texts
      | .option slot (some value) => do
          let p <- p.fill slot value
          readArguments true p texts
      | .option slot none =>
          match texts with
          | [] => none
          | value :: texts =>
              match Argument.ofString value with
              | .positional value => do
                  let p <- p.fill slot value
                  readArguments true p texts
              | _ => none
      | .unknown => none

/-- The options of a command line; none if it is not one of ours. -/
def Options.ofArguments (arguments : List String) : Option Options := do
  let p <- readArguments true .empty arguments
  p.finish

end CommandLine
end LoopNest
