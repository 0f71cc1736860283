import LoopNest.Ordered

/-!
# Configurations

The kernels that are to be mapped, and the settings of a selection.
-/

namespace LoopNest

/-!
## Kernel targets

A kernel is a function whose loops are to be mapped.  Each kernel has a set of candidate
numbers that were asked for; an empty set leaves the choice to the automatic policy.
-/

/-- Function names with their candidate numbers, both in increasing order. -/
structure KernelTargets where
  entries : List (String × List Nat)
  sorted_names : (entries.map Prod.fst).Pairwise (· < ·)
  sorted_ids : forall entry, entry ∈ entries -> entry.2.Pairwise (· < ·)
  deriving DecidableEq, Repr

namespace KernelTargets

def empty : KernelTargets :=
  ⟨[], List.Pairwise.nil, fun _ h => absurd h List.not_mem_nil⟩

def insert (kernels : KernelTargets) (name : String) (ids : List Nat) : KernelTargets where
  entries := Ordered.alter name (fun old => Ordered.insertAll ids (old.getD [])) kernels.entries
  sorted_names := Ordered.sorted_alter kernels.sorted_names
  sorted_ids := by
    intro entry hentry
    rcases Ordered.mem_alter hentry with hold | rfl | ⟨old, hold, rfl⟩
    · exact kernels.sorted_ids entry hold
    · exact Ordered.sorted_insertAll ids List.Pairwise.nil
    · exact Ordered.sorted_insertAll ids (kernels.sorted_ids _ hold)

def loopIds? (kernels : KernelTargets) (name : String) : Option (List Nat) :=
  kernels.entries.lookup name

def contains (kernels : KernelTargets) (name : String) : Bool :=
  (kernels.loopIds? name).isSome

def names (kernels : KernelTargets) : List String :=
  kernels.entries.map Prod.fst

def size (kernels : KernelTargets) : Nat :=
  kernels.entries.length

def isEmpty (kernels : KernelTargets) : Bool :=
  kernels.entries.isEmpty

theorem mem_of_loopIds? {kernels : KernelTargets} {name : String} {ids : List Nat}
    (h : kernels.loopIds? name = some ids) : (name, ids) ∈ kernels.entries := by
  rcases List.lookup_eq_some_iff.mp h with ⟨before, after, heq, _⟩
  rw [heq]
  exact List.mem_append_right _ List.mem_cons_self

theorem sorted_loopIds? {kernels : KernelTargets} {name : String} {ids : List Nat}
    (h : kernels.loopIds? name = some ids) : ids.Pairwise (· < ·) :=
  kernels.sorted_ids _ (mem_of_loopIds? h)

end KernelTargets

/-!
## Target configuration

A configuration names the kernels, says which loops of a kernel are candidates and how
they are classified, and carries the settings of the mapper, which loop selection only
hands on.
-/

structure MapperSettings where
  rows : Nat
  columns : Nat
  isStaticElasticCgra : Bool
  isTrimmedDemo : Bool
  doCgraMapping : Bool
  ctrlMemConstraint : Nat
  bypassConstraint : Nat
  regConstraint : Nat
  precisionAware : Bool
  vectorizationMode : String
  fusionStrategy : List String
  heuristicMapping : Bool
  parameterizableCgra : Bool
  deriving DecidableEq, Repr

/-- The settings of a run without a parameter file. -/
def MapperSettings.standard : MapperSettings where
  rows := 4
  columns := 4
  isStaticElasticCgra := false
  isTrimmedDemo := true
  doCgraMapping := true
  ctrlMemConstraint := 200
  bypassConstraint := 4
  regConstraint := 8
  precisionAware := false
  vectorizationMode := "all"
  fusionStrategy := []
  heuristicMapping := true
  parameterizableCgra := false

/-- The configuration of a selection run.  With `targetNested` the immediate sub-loops of
top-level loops are candidates too; with `classifySubLoopBlocks` a loop is classified by
its whole body. -/
structure TargetConfig where
  kernels : KernelTargets
  targetEntireFunction : Bool
  targetNested : Bool
  classifySubLoopBlocks : Bool
  settings : MapperSettings
  deriving DecidableEq, Repr

namespace TargetConfig

/-- The configuration of a run without a parameter file: no function is a kernel. -/
def standard : TargetConfig where
  kernels := .empty
  targetEntireFunction := false
  targetNested := false
  classifySubLoopBlocks := false
  settings := .standard

def addKernel (config : TargetConfig) (name : String) (ids : List Nat) : TargetConfig :=
  { config with kernels := config.kernels.insert name ids }

def isKernel (config : TargetConfig) (name : String) : Bool :=
  config.kernels.contains name

end TargetConfig

end LoopNest
