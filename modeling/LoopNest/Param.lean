import LoopNest.Config
import LoopNest.Json.Reader

/-!
# Parameter files

A configuration is read from a JSON object.  All required members must be there before any
of them is looked at; then the members are decoded in the order of their names, and the
first one of a wrong kind is reported.  Members with other names are ignored.
-/

namespace LoopNest

inductive ConfigError where
  | malformed (error : JsonError)
  | notAnObject
  | missingMember (name : String)
  | mismatch (m : JsonMismatch)

/-- The wording of an error without its place in the text. -/
def ConfigError.summary : ConfigError -> String
  | malformed error => "Invalid param.json: " ++ error.fault.message
  | notAnObject => "param.json must contain a JSON object at the top level"
  | missingMember name => "Missing parameter in param.json: " ++ name
  | mismatch m => "Invalid param.json: " ++ m.message

/-- The wording of an error.  Only a text that is no JSON text has a place to tell. -/
def ConfigError.message : ConfigError -> String
  | malformed error => "Invalid param.json: " ++ error.message
  | other => other.summary

namespace JsonValue

/-!
## Decoding values
-/

def natBelow (bound : Nat) (asked : JsonKind) : JsonValue -> Except JsonMismatch Nat
  | .integer value =>
      if 0 ≤ value ∧ value.toNat < bound then .ok value.toNat
      else .error (.outOfRange value asked)
  | found => .error (.wrongKind found asked)

def asWord32 : JsonValue -> Except JsonMismatch Nat :=
  natBelow (Nat.pow 2 32) .word32

def asWord64 : JsonValue -> Except JsonMismatch Nat :=
  natBelow (Nat.pow 2 64) .word64

def asBool : JsonValue -> Except JsonMismatch Bool
  | .bool value => .ok value
  | found => .error (.wrongKind found .boolean)

def asText : JsonValue -> Except JsonMismatch String
  | .text value => .ok value
  | found => .error (.wrongKind found .text)

/-- A list whose items are decoded in order. -/
def asList {alpha : Type} (item : JsonValue -> Except JsonMismatch alpha) :
    JsonValue -> Except JsonMismatch (List alpha)
  | .list items => items.mapM item
  | found => .error (.wrongKind found .list)

/-- An object whose members are decoded in order. -/
def asTable {alpha : Type} (item : JsonValue -> Except JsonMismatch alpha) :
    JsonValue -> Except JsonMismatch (List (String × alpha))
  | .object members => members.mapM fun entry => do
      let value <- item entry.2
      return (entry.1, value)
  | found => .error (.wrongKind found .object)

end JsonValue

namespace TargetConfig

/-- The members that must be there, in the order in which they are looked for. -/
def requiredMembers : List String :=
  [ "row", "column", "targetFunction", "kernel", "targetNested", "targetLoopsID",
    "isTrimmedDemo", "doCGRAMapping", "isStaticElasticCGRA", "ctrlMemConstraint",
    "bypassConstraint", "regConstraint", "precisionAware", "vectorizationMode",
    "fusionStrategy", "heuristicMapping", "parameterizableCGRA" ]

def missingMember? (members : List (String × JsonValue)) : Option String :=
  requiredMembers.find? fun name => (JsonValue.member? members name).isNone

def required {alpha : Type} (members : List (String × JsonValue))
    (decode : JsonValue -> Except JsonMismatch alpha) (name : String) :
    Except ConfigError alpha :=
  match JsonValue.member? members name with
  | none => .error (.missingMember name)
  | some value => (decode value).mapError .mismatch

def optional {alpha : Type} (members : List (String × JsonValue))
    (decode : JsonValue -> Except JsonMismatch alpha) (standard : alpha) (name : String) :
    Except ConfigError alpha :=
  match JsonValue.member? members name with
  | none => .ok standard
  | some value => (decode value).mapError .mismatch

def ofMembers (members : List (String × JsonValue)) : Except ConfigError TargetConfig := do
  let more <- optional members (JsonValue.asTable (JsonValue.asList JsonValue.asWord64)) []
    "additionalKernels"
  let bypassConstraint <- required members JsonValue.asWord32 "bypassConstraint"
  let classifySubLoopBlocks <- optional members JsonValue.asBool false "classifySubLoopBlocks"
  let columns <- required members JsonValue.asWord32 "column"
  let ctrlMemConstraint <- required members JsonValue.asWord32 "ctrlMemConstraint"
  let doCgraMapping <- required members JsonValue.asBool "doCGRAMapping"
  let fusionStrategy <- required members (JsonValue.asList JsonValue.asText) "fusionStrategy"
  let heuristicMapping <- required members JsonValue.asBool "heuristicMapping"
  let isStaticElasticCgra <- required members JsonValue.asBool "isStaticElasticCGRA"
  let isTrimmedDemo <- required members JsonValue.asBool "isTrimmedDemo"
  let kernel <- required members JsonValue.asText "kernel"
  let parameterizableCgra <- required members JsonValue.asBool "parameterizableCGRA"
  let precisionAware <- required members JsonValue.asBool "precisionAware"
  let regConstraint <- required members JsonValue.asWord32 "regConstraint"
  let rows <- required members JsonValue.asWord32 "row"
  let targetEntireFunction <- required members JsonValue.asBool "targetFunction"
  let ids <- required members (JsonValue.asList JsonValue.asWord64) "targetLoopsID"
  let targetNested <- required members JsonValue.asBool "targetNested"
  let vectorizationMode <- required members JsonValue.asText "vectorizationMode"
  return {
    kernels := ((kernel, ids) :: more).foldl
      (fun kernels entry => kernels.insert entry.1 entry.2) KernelTargets.empty
    targetEntireFunction, targetNested, classifySubLoopBlocks
    settings := {
      rows, columns, isStaticElasticCgra, isTrimmedDemo, doCgraMapping, ctrlMemConstraint,
      bypassConstraint, regConstraint, precisionAware, vectorizationMode, fusionStrategy,
      heuristicMapping, parameterizableCgra } }

def ofJson : JsonValue -> Except ConfigError TargetConfig
  | .object members =>
      match missingMember? members with
      | some name => .error (.missingMember name)
      | none => ofMembers members
  | _ => .error .notAnObject

def ofText (text : String) : Except ConfigError TargetConfig :=
  match JsonValue.read text with
  | .error error => .error (.malformed error)
  | .ok value => ofJson value

end TargetConfig
end LoopNest
