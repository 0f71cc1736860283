import LoopNest.Text.Basic

/-!
# Files

The files of a run: how a path is walked, what can lie at its end, and what is read and written
there.  What lies where, where links lead and what a run may do are a parameter; the last section
has one machine, around a given working directory.
-/

namespace LoopNest
namespace CommandLine

/-!
## Paths

A path is a row of names with slashes between them.
-/

namespace Path

def names (path : String) : List String :=
  (Text.parts '/' path).filter (· != "")

/-- The names that move along the way. -/
def steps (path : String) : List String :=
  (names path).filter (· != ".")

def fileName? (path : String) : Option String :=
  match (steps path).getLast? with
  | none => none
  | some name => if name = ".." then none else some name

/-- The part of the last name behind its last point.  A point at the front does not count. -/
def extension? (path : String) : Option String :=
  match fileName? path with
  | none => none
  | some name =>
      match (Text.parts '.' name).reverse with
      | extension :: stem :: more =>
          if stem = "" ∧ more = [] then none else some extension
      | _ => none

/-- A path that ends with a slash can only lead to a directory. -/
def namesDirectory (path : String) : Bool :=
  path.toList.getLast? == some '/'

def greatestName : Nat := 255

def greatestPath : Nat := 4095

def isLongName (name : String) : Bool :=
  decide (greatestName < Text.byteCount name.toList)

def isLong (path : String) : Bool :=
  decide (greatestPath < Text.byteCount path.toList)

end Path

/-!
## Faults
-/

inductive SystemFault where
  | notFound
  | noDevice
  | denied
  | notADirectory
  | isADirectory
  | busy
  | noSpace
  | nameTooLong
  | notText
  | other (text : String)
  deriving DecidableEq, Repr

def SystemFault.message : SystemFault -> String
  | notFound => "No such file or directory (os error 2)"
  | noDevice => "No such device or address (os error 6)"
  | denied => "Permission denied (os error 13)"
  | notADirectory => "Not a directory (os error 20)"
  | isADirectory => "Is a directory (os error 21)"
  | busy => "Text file busy (os error 26)"
  | noSpace => "No space left on device (os error 28)"
  | nameTooLong => "File name too long (os error 36)"
  | notText => "stream did not contain valid UTF-8"
  | other text => text

/-!
## Entries
-/

inductive Stream where
  | input
  | output
  | errors
  deriving DecidableEq, Repr

/-- What keeps a run from reading a file or directory, from writing to it, and from passing
through it. -/
structure Access where
  reading : Option SystemFault := none
  writing : Option SystemFault := none
  passing : Option SystemFault := none

/-- A device gives the same bytes whenever it is read to its end.  It keeps nothing that is written
to it, but may pass it on to a standard stream. -/
structure Device where
  reading : Except SystemFault ByteArray
  writing : Except SystemFault (Option Stream)

/-- What lies at a place. -/
inductive Entry where
  | directory (access : Access := {})
  | file (bytes : ByteArray) (access : Access := {})
  | device (device : Device)

namespace Entry

def isDirectory : Entry -> Bool
  | directory _ => true
  | _ => false

def textOf (bytes : ByteArray) : Except SystemFault String :=
  match String.fromUTF8? bytes with
  | none => .error .notText
  | some text => .ok text

/-- The text that can be read.  A directory can be opened, but not read. -/
def text : Entry -> Except SystemFault String
  | directory access => .error (access.reading.getD .isADirectory)
  | file bytes access =>
      match access.reading with
      | some fault => .error fault
      | none => textOf bytes
  | device d => d.reading >>= textOf

end Entry

/-!
## Places
-/

/-- A place is told by the names that lead to it from the root, without a link on the way. -/
abbrev FilePlace :=
  List String

/-- What lies where, and where the names lead. -/
structure Files where
  /-- The directory that a run works in. -/
  workplace : FilePlace
  /-- Where a link at a place leads in the end, or the place itself. -/
  follow : FilePlace -> Except SystemFault FilePlace
  at? : FilePlace -> Option Entry
  /-- How many of some bytes can be stored at a place, if not all, and what stops the rest. -/
  shortage : FilePlace -> ByteArray -> Option (Nat × SystemFault)

namespace Files

def start (files : Files) (path : String) : FilePlace :=
  if path.toList.head? = some '/' then [] else files.workplace

/-- Can names be looked up at a place? -/
def pass (files : Files) (place : FilePlace) : Except SystemFault Unit :=
  match files.at? place with
  | none => .error .notFound
  | some (.directory access) =>
      match access.passing with
      | some fault => .error fault
      | none => .ok ()
  | some _ => .error .notADirectory

/-- The place that a name leads to from a directory.  The root is above itself. -/
def next (files : Files) (place : FilePlace) (name : String) : Except SystemFault FilePlace :=
  if name = "." then .ok place
  else if name = ".." then .ok place.dropLast
  else if Path.isLongName name then .error .nameTooLong
  else files.follow (place ++ [name])

def enter (files : Files) (place : FilePlace) (name : String) :
    Except SystemFault FilePlace := do
  files.pass place
  files.next place name

/-!
## Walking
-/

/-- Walks a path up to its last name: the directory that is reached there, and the name; no
name if the path is made of slashes only. -/
def walk (files : Files) (path : String) : Except SystemFault (FilePlace × Option String) := do
  if path = "" then .error .notFound
  else if Path.isLong path then .error .nameTooLong
  else
    let place <- (Path.names path).dropLast.foldlM files.enter (files.start path)
    match (Path.names path).getLast? with
    | none => return (place, none)
    | some name => do
        files.pass place
        return (place, some name)

def locate (files : Files) (path : String) : Except SystemFault FilePlace := do
  match <- files.walk path with
  | (place, none) => return place
  | (place, some name) => files.next place name

def find (files : Files) (path : String) : Except SystemFault Entry := do
  match files.at? (<- files.locate path) with
  | none => .error .notFound
  | some entry =>
      if Path.namesDirectory path && !entry.isDirectory then .error .notADirectory
      else return entry

/-!
## Reading
-/

def holds (files : Files) (path : String) : Bool :=
  (files.find path).isOk

def read (files : Files) (path : String) : Except SystemFault String := do
  (<- files.find path).text

/-- The standard stream that takes what is written to a path. -/
def stream? (files : Files) (path : String) : Option Stream :=
  match files.find path with
  | .ok (.device ⟨_, .ok stream⟩) => stream
  | _ => none

/-!
## Writing
-/

def put (files : Files) (place : FilePlace) (entry : Entry) : Files :=
  { files with at? := fun other => if other = place then some entry else files.at? other }

/-- Stores bytes in a file.  When not all can be stored, the file keeps those that could. -/
def store (files : Files) (place : FilePlace) (bytes : ByteArray) (access : Access) :
    Option SystemFault × Files :=
  match files.shortage place bytes with
  | none => (none, files.put place (.file bytes access))
  | some (count, fault) => (some fault, files.put place (.file (bytes.extract 0 count) access))

/-- What keeps a run from making a file at a place: its directory must be there. -/
def making (files : Files) (place : FilePlace) : Option SystemFault :=
  match files.at? place.dropLast with
  | none => some .notFound
  | some (.directory access) => access.writing
  | some _ => some .notADirectory

/-- Writes a text at a place: the fault, if there is one, and the files then. -/
def writeAt (files : Files) (place : FilePlace) (text : String) : Option SystemFault × Files :=
  match files.at? place with
  | none =>
      match files.making place with
      | some fault => (some fault, files)
      | none => files.store place text.toUTF8 {}
  | some (.directory _) => (some .isADirectory, files)
  | some (.file _ access) =>
      match access.writing with
      | some fault => (some fault, files)
      | none => files.store place text.toUTF8 access
  | some (.device d) =>
      match d.writing with
      | .error fault => (some fault, files)
      | .ok _ => (none, files)

def target? (files : Files) (path : String) : Except SystemFault FilePlace := do
  match <- files.walk path with
  | (_, none) => .error .isADirectory
  | (place, some name) =>
      if name = "." ∨ name = ".." ∨ Path.namesDirectory path then .error .isADirectory
      else files.next place name

/-- Writes a text to a path.  The directory must be there; the file need not. -/
def write (files : Files) (path text : String) : Option SystemFault × Files :=
  match files.target? path with
  | .error fault => (some fault, files)
  | .ok place => files.writeAt place text

end Files

/-!
## One machine

The directories that stand around a working directory by the common standard, the usual links
between them, and the devices that a run may be pointed to.  Nothing stands on the standard input
and there is no terminal.
-/

namespace Machine

def workplace : FilePlace :=
  ["tmp", "work"]

def directories : List FilePlace :=
  [ [], ["dev"], ["etc"], ["home"], ["root"], ["tmp"], workplace, ["usr"], ["usr", "bin"],
    ["usr", "lib"], ["usr", "sbin"], ["var"] ]

/-- Directories in which no file can be made. -/
def closedDirectories : List FilePlace :=
  [["proc"], ["proc", "self"], ["proc", "self", "fd"]]

def devices : List (FilePlace × Device) :=
  [ (["dev", "null"], ⟨.ok .empty, .ok none⟩), (["dev", "full"], ⟨.ok .empty, .error .noSpace⟩),
    (["dev", "tty"], ⟨.error .noDevice, .error .noDevice⟩),
    (["proc", "self", "exe"], ⟨.error .notText, .error .busy⟩),
    (["proc", "self", "fd", "0"], ⟨.ok .empty, .ok (some .input)⟩),
    (["proc", "self", "fd", "1"], ⟨.ok .empty, .ok (some .output)⟩),
    (["proc", "self", "fd", "2"], ⟨.ok .empty, .ok (some .errors)⟩) ]

def entries : List (FilePlace × Entry) :=
  directories.map (fun place => (place, .directory))
    ++ closedDirectories.map (fun place => (place, .directory ⟨none, some .notFound, none⟩))
    ++ devices.map fun device => (device.1, .device device.2)

def links : List (FilePlace × FilePlace) :=
  [ (["proc", "self", "cwd"], workplace), (["proc", "self", "root"], []),
    (["dev", "fd"], ["proc", "self", "fd"]), (["dev", "stdin"], ["proc", "self", "fd", "0"]),
    (["dev", "stdout"], ["proc", "self", "fd", "1"]),
    (["dev", "stderr"], ["proc", "self", "fd", "2"]), (["bin"], ["usr", "bin"]),
    (["sbin"], ["usr", "sbin"]), (["lib"], ["usr", "lib"]) ]

/-- What lies at a place among the given entries.  The directories around a file are there, too. -/
def lookup (entries : List (FilePlace × Entry)) (place : FilePlace) : Option Entry :=
  match entries.lookup place with
  | some entry => some entry
  | none =>
      if entries.any fun entry => place.length < entry.1.length && place.isPrefixOf entry.1 then
        some .directory
      else none

end Machine

/-- The files and directories of the working directory, by the names that lead to them from
there, with the machine around them. -/
def Files.ofWorkplace (entries : List (List String × Entry)) : Files where
  workplace := Machine.workplace
  follow place := .ok ((Machine.links.lookup place).getD place)
  at? := Machine.lookup
    (entries.map (fun entry => (Machine.workplace ++ entry.1, entry.2)) ++ Machine.entries)
  shortage _ _ := none

end CommandLine
end LoopNest
