import LoopNest.Code
import LoopNest.Config
import LoopNest.Forest
import LoopNest.Json.Value

/-!
# Selections

The class of a loop, the candidates of a function, the loops that are selected among them, and the
plan that is made of these.
-/

namespace LoopNest

/-!
## Loop classes

A loop is vectorized if one of the inspected blocks uses vectors, and scalar otherwise.
Either the blocks outside the sub-loops are inspected, or the whole body.
-/

inductive LoopClass where
  | vectorized
  | scalar
  deriving DecidableEq, Repr

namespace LoopClass

def isVectorized : LoopClass -> Bool
  | vectorized => true
  | scalar => false

def display : LoopClass -> String
  | vectorized => "vectorized"
  | scalar => "scalar"

end LoopClass

/-- Which blocks of a loop are inspected. -/
inductive ClassifyScope where
  | ownBlocks
  | withSubLoops
  deriving DecidableEq, Repr

def Loop.inspected {beta : Type} (l : Loop beta) : ClassifyScope -> List beta
  | .ownBlocks => l.ownBlocks
  | .withSubLoops => l.blocks

/-- The blocks that are inspected for the loop `id`; none if there is no such loop. -/
def LoopForest.inspected {beta : Type} (forest : LoopForest beta) (scope : ClassifyScope)
    (id : LoopId) : List beta :=
  match forest.get? id with
  | none => []
  | some l => l.inspected scope

namespace Code

/-- The class of a loop from the blocks that are inspected. -/
def classOf {beta : Type} (code : Code beta) (blocks : List beta) : LoopClass :=
  if code.hasVector blocks then .vectorized else .scalar

def classify {beta : Type} (code : Code beta) (scope : ClassifyScope)
    (forest : LoopForest beta) (id : LoopId) : LoopClass :=
  code.classOf (forest.inspected scope id)

end Code

/-!
## Candidates

The candidates of a function are its top-level loops in discovery order, each followed by
its immediate sub-loops if nested loops are targets too.  They are numbered with the
vectorized ones first; the order within a class is the discovery order.
-/

/-- The blocks that decide the class of a loop under a configuration. -/
def TargetConfig.scope (config : TargetConfig) : ClassifyScope :=
  if config.classifySubLoopBlocks then .withSubLoops else .ownBlocks

/-- The candidates of a function by class. -/
structure Candidates where
  vectorized : List LoopId
  scalar : List LoopId
  deriving DecidableEq, Repr

namespace Candidates

/-- All candidates; the place of a loop in this list is its candidate number. -/
def combined (c : Candidates) : List LoopId :=
  c.vectorized ++ c.scalar

def size (c : Candidates) : Nat :=
  c.combined.length

def isEmpty (c : Candidates) : Bool :=
  c.combined.isEmpty

/-- The class of the candidates with numbers below the number of all candidates. -/
def numberClass (c : Candidates) (index : Nat) : LoopClass :=
  if index < c.vectorized.length then .vectorized else .scalar

def classAt? (c : Candidates) (index : Nat) : Option LoopClass :=
  if index < c.size then some (c.numberClass index) else none

/-- The loops that are candidates, in discovery order. -/
def discovered {beta : Type} (config : TargetConfig) (forest : LoopForest beta) : List LoopId :=
  forest.topLevel.flatMap fun id =>
    id :: if config.targetNested then forest.subLoops id else []

def classUnder {beta : Type} (config : TargetConfig) (code : Code beta)
    (forest : LoopForest beta) (id : LoopId) : LoopClass :=
  code.classify config.scope forest id

def ofForest {beta : Type} (config : TargetConfig) (code : Code beta)
    (forest : LoopForest beta) : Candidates :=
  let ids := discovered config forest
  { vectorized := ids.filter fun id => (classUnder config code forest id).isVectorized
    scalar := ids.filter fun id => !(classUnder config code forest id).isVectorized }

end Candidates

/-!
## Selection

Loops are selected in kernels only.  The candidates whose numbers were asked for are
selected; if no number fits, all vectorized candidates are, or all scalar ones if there is
no vectorized one.  Numbers that fit no candidate are reported.
-/

/-- How a loop came to be selected. -/
inductive SelectionEvent where
  | selected (index : Nat) (loopClass : LoopClass)
  | autoSelected (loopClass : LoopClass)
  deriving DecidableEq, Repr

def SelectionEvent.display : SelectionEvent -> String
  | selected index loopClass =>
      "[Loop Selection] Selected loop " ++ toString index ++ " (vectorized: "
        ++ (if loopClass.isVectorized then "yes" else "no") ++ ")"
  | autoSelected .vectorized => "[Loop Selection] Auto-selected vectorized loop"
  | autoSelected .scalar =>
      "[Loop Selection] Auto-selected scalar loop (no vectorized loops found)"

structure SelectedLoop where
  id : LoopId
  candidateIndex : Nat
  loopClass : LoopClass
  deriving DecidableEq, Repr

/-- The outcome of a selection: one event for each selected loop, the numbers that fit no
candidate, and whether the automatic policy chose the loops. -/
structure Selection where
  loops : List SelectedLoop
  events : List SelectionEvent
  unmatchedIds : List Nat
  autoSelected : Bool
  deriving DecidableEq, Repr

namespace Selection

/-- The selection in a function that is no kernel. -/
def empty : Selection :=
  ⟨[], [], [], false⟩

def isEmpty (s : Selection) : Bool :=
  s.loops.isEmpty

/-- The candidates as loops to select, in the order of their numbers. -/
def numbered (c : Candidates) : List SelectedLoop :=
  c.combined.zipIdx.map fun entry => ⟨entry.1, entry.2, c.numberClass entry.2⟩

def explicit (c : Candidates) (ids : List Nat) : List SelectedLoop :=
  (numbered c).filter fun l => ids.contains l.candidateIndex

/-- The candidates of the preferred class. -/
def automatic (c : Candidates) : List SelectedLoop :=
  if c.vectorized.isEmpty then numbered c
  else (numbered c).filter fun l => l.loopClass.isVectorized

def ofCandidates (c : Candidates) (ids : List Nat) : Selection :=
  let unmatched := ids.filter fun id => decide (c.size ≤ id)
  match explicit c ids with
  | [] =>
      let loops := automatic c
      ⟨loops, loops.map fun l => .autoSelected l.loopClass, unmatched, !loops.isEmpty⟩
  | loops =>
      ⟨loops, loops.map fun l => .selected l.candidateIndex l.loopClass, unmatched, false⟩

def ofForest {beta : Type} (config : TargetConfig) (name : String) (code : Code beta)
    (forest : LoopForest beta) : Selection :=
  match config.kernels.loopIds? name with
  | none => empty
  | some ids => ofCandidates (Candidates.ofForest config code forest) ids

end Selection

/-!
## Mapping plans

A plan hands the selected loops of a kernel on to the mapper: enough to find each loop
again, the two flags that say what is mapped, and the settings of the mapper.
-/

/-- A selected loop with the names of its blocks. -/
structure PlannedLoop where
  candidateIndex : Nat
  header : String
  loopClass : LoopClass
  depth : Nat
  blocks : List String
  deriving DecidableEq, Repr

structure Plan where
  function : String
  targetEntireFunction : Bool
  targetNested : Bool
  loops : List PlannedLoop
  settings : MapperSettings
  deriving DecidableEq, Repr

def PlannedLoop.ofLoop {beta : Type} (code : Code beta) (l : Loop beta) (s : SelectedLoop) :
    PlannedLoop where
  candidateIndex := s.candidateIndex
  header := code.blockName l.header
  loopClass := s.loopClass
  depth := l.depth
  blocks := l.blocks.map code.blockName

def Plan.ofSelection {beta : Type} (config : TargetConfig) (name : String) (code : Code beta)
    (forest : LoopForest beta) (selection : Selection) : Plan where
  function := name
  targetEntireFunction := config.targetEntireFunction
  targetNested := config.targetNested
  loops := selection.loops.filterMap fun s =>
    (forest.get? s.id).map fun l => PlannedLoop.ofLoop code l s
  settings := config.settings

/-!
### Plans as JSON
-/

def MapperSettings.toJson (s : MapperSettings) : JsonValue :=
  .object [
    ("rows", .integer s.rows),
    ("columns", .integer s.columns),
    ("isStaticElasticCgra", .bool s.isStaticElasticCgra),
    ("isTrimmedDemo", .bool s.isTrimmedDemo),
    ("doCgraMapping", .bool s.doCgraMapping),
    ("ctrlMemConstraint", .integer s.ctrlMemConstraint),
    ("bypassConstraint", .integer s.bypassConstraint),
    ("regConstraint", .integer s.regConstraint),
    ("precisionAware", .bool s.precisionAware),
    ("vectorizationMode", .text s.vectorizationMode),
    ("fusionStrategy", .list (s.fusionStrategy.map .text)),
    ("heuristicMapping", .bool s.heuristicMapping),
    ("parameterizableCgra", .bool s.parameterizableCgra)]

def PlannedLoop.toJson (l : PlannedLoop) : JsonValue :=
  .object [
    ("candidateIndex", .integer l.candidateIndex),
    ("header", .text l.header),
    ("class", .text l.loopClass.display),
    ("depth", .integer l.depth),
    ("blocks", .list (l.blocks.map .text))]

def Plan.toJson (p : Plan) : JsonValue :=
  .object [
    ("function", .text p.function),
    ("targetEntireFunction", .bool p.targetEntireFunction),
    ("targetNested", .bool p.targetNested),
    ("loops", .list (p.loops.map PlannedLoop.toJson)),
    ("params", p.settings.toJson)]

def Plan.fileText (plans : List Plan) : String :=
  (JsonValue.list (plans.map Plan.toJson)).display

end LoopNest
