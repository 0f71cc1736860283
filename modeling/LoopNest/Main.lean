import LoopNest.CommandLine.Run

/-!
# The program

Reads the files of a run, prints what the run says and writes the plan file.
-/

namespace LoopNest
namespace CommandLine

def SystemFault.ofError : IO.Error -> SystemFault
  | .noFileOrDirectory _ _ _ => .notFound
  | .inappropriateType _ code details =>
      if code = 20 then .notADirectory
      else if code = 21 then .isADirectory
      else .other (numbered details code)
  | .invalidArgument _ code details =>
      if code = 36 then .nameTooLong else .other (numbered details code)
  | .permissionDenied _ code details =>
      if code = 13 then .denied else .other (numbered details code)
  | .noSuchThing _ code details =>
      if code = 6 then .noDevice else .other (numbered details code)
  | .resourceBusy code details =>
      if code = 26 then .busy else .other (numbered details code)
  | .resourceExhausted _ code details =>
      if code = 28 then .noSpace else .other (numbered details code)
  | error => .other (toString error)
where
  /-- The wording of a fault with its number. -/
  numbered (details : String) (code : UInt32) : String :=
    details ++ " (os error " ++ toString code ++ ")"

def readText (path : String) : IO (Except SystemFault String) := do
  try
    let file <- IO.FS.Handle.mk path .read
    let bytes <- file.readBinToEnd
    match String.fromUTF8? bytes with
    | none => return .error .notText
    | some text => return .ok text
  catch error => return .error (SystemFault.ofError error)

/-- The text of a file that need not be there. -/
def readOptional (path : String) : IO (Option (Except SystemFault String)) := do
  match <- readText path with
  | .error .notFound => return none
  | .error .notADirectory => return none
  | .error .nameTooLong => return none
  | result => return some result

/-- Writes a file; the answer is the fault that prevented it. -/
def writeText (path text : String) : IO (Option SystemFault) := do
  try
    let file <- IO.FS.Handle.mk path .write
    file.putStr text
    file.flush
    return none
  catch error => return some (SystemFault.ofError error)

/-- A run on the files of the system.  What comes before the plan file is printed before it
is written, for it may be one of the standard streams. -/
def runOnFiles (options : Options) (filter : NoticeFilter) : IO Report := do
  let r := report options (<- readOptional options.param) (<- readText options.input)
  IO.print r.outputText
  (<- IO.getStdout).flush
  IO.eprint (filter.log r.notices)
  let r <-
    match r.planFile? options with
    | none => pure r
    | some (path, text) => pure (r.afterWriting path (<- writeText path text) none)
  IO.eprint (r.closingText filter)
  return r

end CommandLine
end LoopNest

def main (arguments : List String) : IO UInt32 := do
  match LoopNest.CommandLine.Options.ofArguments arguments with
  | none =>
      IO.eprintln "usage: loopsel INPUT [-p FILE] [-f NAME] [--emit-plan FILE] [--print-loops]"
      return 2
  | some options =>
      let wanted <- IO.getEnv "LOG_FILTER"
      let filter := (wanted.map LoopNest.NoticeFilter.ofText).getD .standard
      let r <- LoopNest.CommandLine.runOnFiles options filter
      return r.status.toUInt32
