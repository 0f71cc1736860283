import LoopNest.Proofs.CommandLine.Failures
import LoopNest.Proofs.Config.Decoding

/-!
# Plan files

A plan file is a document, and what is read from it says what the plans say.  The settings of the
mapper go through two sets of names on the way from the parameter file, but their values are the
ones that were written there, texts character by character.
-/

namespace LoopNest

open JsonValue

/-!
## Settings
-/

def settingNames : List (String × String) :=
  [ ("rows", "row"), ("columns", "column"), ("isStaticElasticCgra", "isStaticElasticCGRA"),
    ("isTrimmedDemo", "isTrimmedDemo"), ("doCgraMapping", "doCGRAMapping"),
    ("ctrlMemConstraint", "ctrlMemConstraint"), ("bypassConstraint", "bypassConstraint"),
    ("regConstraint", "regConstraint"), ("precisionAware", "precisionAware"),
    ("vectorizationMode", "vectorizationMode"), ("fusionStrategy", "fusionStrategy"),
    ("heuristicMapping", "heuristicMapping"), ("parameterizableCgra", "parameterizableCGRA") ]

/-- The value is an object of settings that are the ones in a parameter file, and nothing else. -/
structure HoldsSettings (members : List (String × JsonValue)) (v : JsonValue) : Prop where
  each : forall entry, entry ∈ settingNames ->
    exists x, v.Has entry.1 x ∧ member? members entry.2 = some x
  only : forall name x, v.Has name x -> name ∈ settingNames.map Prod.fst

theorem HoldsSettings.has {members : List (String × JsonValue)} {v x : JsonValue}
    {name key : String} (h : HoldsSettings members v) (hentry : (name, key) ∈ settingNames)
    (hmember : member? members key = some x) : v.Has name x := by
  rcases h.each (name, key) hentry with ⟨y, hy, heq⟩
  cases heq.symm.trans hmember
  exact hy

namespace TargetConfig

variable {members : List (String × JsonValue)} {name kernel : String} {ids : List Nat}
  {more : List (String × List Nat)} {config : TargetConfig} {depth n : Nat}

theorem writable_of_required (h : required members asWord32 name = .ok n) :
    Writable depth (.integer n) := by
  rcases required_eq_ok.mp h with ⟨v, _, hv⟩
  have hlt : n < Nat.pow 2 32 := (natBelow_eq_ok.mp hv).2
  exact writable_natural (Nat.lt_trans hlt (by decide))

theorem Decoded.writable_settings (h : Decoded members kernel ids more config) :
    Writable (depth + 2) config.settings.toJson := by
  rw [MapperSettings.toJson, Writable]
  simp only [List.forall_mem_cons, List.not_mem_nil, false_implies, implies_true, and_true]
  exact ⟨writable_of_required h.rows, writable_of_required h.columns, writable_bool _,
    writable_bool _, writable_bool _, writable_of_required h.ctrlMemConstraint,
    writable_of_required h.bypassConstraint, writable_of_required h.regConstraint, writable_bool _,
    writable_text _, writable_texts _, writable_bool _, writable_bool _⟩

theorem Decoded.holdsSettings (h : Decoded members kernel ids more config) :
    HoldsSettings members config.settings.toJson.sorted where
  each := by
    have hword {name : String} {n : Nat} (hn : required members asWord32 name = .ok n) :
        member? members name = some (.integer n) :=
      (member_of_required undoes_asWord32 hn :)
    have hflag {name : String} {b : Bool} (hb : required members asBool name = .ok b) :
        member? members name = some (.bool b) :=
      member_of_required undoes_asBool hb
    have hmode := member_of_required undoes_asText h.vectorizationMode
    have hstrategy := member_of_required undoes_asText.asList h.fusionStrategy
    simp only [settingNames, List.forall_mem_cons, List.not_mem_nil, false_implies, implies_true,
      and_true]
    exact ⟨⟨_, has_sorted rfl rfl, hword h.rows⟩, ⟨_, has_sorted rfl rfl, hword h.columns⟩,
      ⟨_, has_sorted rfl rfl, hflag h.isStaticElasticCgra⟩,
      ⟨_, has_sorted rfl rfl, hflag h.isTrimmedDemo⟩,
      ⟨_, has_sorted rfl rfl, hflag h.doCgraMapping⟩,
      ⟨_, has_sorted rfl rfl, hword h.ctrlMemConstraint⟩,
      ⟨_, has_sorted rfl rfl, hword h.bypassConstraint⟩,
      ⟨_, has_sorted rfl rfl, hword h.regConstraint⟩,
      ⟨_, has_sorted rfl rfl, hflag h.precisionAware⟩, ⟨_, has_sorted rfl rfl, hmode⟩,
      ⟨_, has_sorted rfl (sorted_texts _), hstrategy⟩,
      ⟨_, has_sorted rfl rfl, hflag h.heuristicMapping⟩,
      ⟨_, has_sorted rfl rfl, hflag h.parameterizableCgra⟩⟩
  only := fun _ _ hname => name_mem_of_has_sorted hname

end TargetConfig

/-!
## Plans
-/

/-- What is read for a loop of a plan. -/
structure HoldsLoop (l : PlannedLoop) (v : JsonValue) : Prop where
  candidateIndex : v.Has "candidateIndex" (.integer l.candidateIndex)
  header : v.Has "header" (.text l.header)
  loopClass : v.Has "class" (.text l.loopClass.display)
  depth : v.Has "depth" (.integer l.depth)
  blocks : v.Has "blocks" (.list (l.blocks.map .text))

/-- What is read for a plan under the configuration in a parameter file with these members.  The
plan has the settings of the configuration, and what is read for them is what is in the file. -/
structure HoldsPlan (members : List (String × JsonValue)) (config : TargetConfig) (p : Plan)
    (v : JsonValue) : Prop where
  function : v.Has "function" (.text p.function)
  targetEntireFunction : exists flag, v.Has "targetEntireFunction" flag ∧
    member? members "targetFunction" = some flag ∧ flag = .bool p.targetEntireFunction
  targetNested : exists flag, v.Has "targetNested" flag ∧
    member? members "targetNested" = some flag ∧ flag = .bool p.targetNested
  loops : exists loops, v.Has "loops" (.list loops) ∧ List.Forall₂ HoldsLoop p.loops loops
  settings : p.settings = config.settings
  params : exists params, v.Has "params" params ∧ HoldsSettings members params

variable {members : List (String × JsonValue)} {config : TargetConfig} {depth : Nat}

theorem LoopClass.display_inj {c d : LoopClass} (h : c.display = d.display) : c = d := by
  cases c with
  | vectorized =>
      cases d with
      | vectorized => rfl
      | scalar => exact absurd h (by decide)
  | scalar =>
      cases d with
      | vectorized => exact absurd h (by decide)
      | scalar => rfl

theorem texts_inj {xs ys : List String}
    (h : JsonValue.list (xs.map .text) = .list (ys.map .text)) : xs = ys :=
  List.map_injective_iff.mpr (fun _ _ => JsonValue.text.inj) (JsonValue.list.inj h)

theorem natural_inj {j k : Nat} (h : JsonValue.integer j = .integer k) : j = k :=
  Int.ofNat.inj (JsonValue.integer.inj h)

/-- What is read for a loop tells everything about it. -/
theorem leftUnique_holdsLoop : Relator.LeftUnique HoldsLoop := by
  rintro ⟨_, _, _, _, _⟩ ⟨_, _, _, _, _⟩ v h h'
  cases natural_inj (h.candidateIndex.unique h'.candidateIndex)
  cases JsonValue.text.inj (h.header.unique h'.header)
  cases LoopClass.display_inj (JsonValue.text.inj (h.loopClass.unique h'.loopClass))
  cases natural_inj (h.depth.unique h'.depth)
  cases texts_inj (h.blocks.unique h'.blocks)
  rfl

theorem leftUnique_holdsPlan : Relator.LeftUnique (HoldsPlan members config) := by
  rintro ⟨_, _, _, _, _⟩ ⟨_, _, _, _, _⟩ v h h'
  rcases h with ⟨hfunction, ⟨_, hentire, _, rfl⟩, ⟨_, hnested, _, rfl⟩, ⟨ls, hls, hloops⟩, rfl, _⟩
  rcases h' with ⟨hfunction', ⟨_, hentire', _, rfl⟩, ⟨_, hnested', _, rfl⟩, ⟨ls', hls', hloops'⟩,
    rfl, _⟩
  cases JsonValue.text.inj (hfunction.unique hfunction')
  cases JsonValue.bool.inj (hentire.unique hentire')
  cases JsonValue.bool.inj (hnested.unique hnested')
  cases JsonValue.list.inj (hls.unique hls')
  cases leftUnique_holdsLoop.forall₂ hloops hloops'
  rfl

/-!
## Reading plans
-/

theorem PlannedLoop.writable {l : PlannedLoop} (hindex : l.candidateIndex < 2 ^ 64)
    (hdepth : l.depth < 2 ^ 64) : Writable (depth + 2) l.toJson := by
  rw [PlannedLoop.toJson, Writable]
  simp only [List.forall_mem_cons, List.not_mem_nil, false_implies, implies_true, and_true]
  exact ⟨writable_natural hindex, writable_text _, writable_text _, writable_natural hdepth,
    writable_texts _⟩

theorem holdsLoop_sorted (l : PlannedLoop) : HoldsLoop l l.toJson.sorted where
  candidateIndex := has_sorted rfl rfl
  header := has_sorted rfl rfl
  loopClass := has_sorted rfl rfl
  depth := has_sorted rfl rfl
  blocks := has_sorted rfl (sorted_texts _)

theorem Plan.writable {p : Plan} (hsettings : Writable (depth + 3) p.settings.toJson)
    (hloops : forall l, l ∈ p.loops -> Writable (depth + 2) l.toJson) :
    Writable (depth + 4) p.toJson := by
  rw [Plan.toJson, Writable]
  simp only [List.forall_mem_cons, List.not_mem_nil, false_implies, implies_true, and_true]
  refine ⟨writable_text _, writable_bool _, writable_bool _, ?_, hsettings⟩
  intro item hitem
  rcases List.mem_map.mp hitem with ⟨l, hl, rfl⟩
  exact hloops l hl

theorem holdsPlan_sorted {p : Plan} {kernel : String} {ids : List Nat}
    {more : List (String × List Nat)} (h : TargetConfig.Decoded members kernel ids more config)
    (hentire : p.targetEntireFunction = config.targetEntireFunction)
    (hnested : p.targetNested = config.targetNested) (hsettings : p.settings = config.settings) :
    HoldsPlan members config p p.toJson.sorted where
  function := has_sorted rfl rfl
  targetEntireFunction := by
    have hmember := TargetConfig.member_of_required undoes_asBool h.targetEntireFunction
    rw [← hentire] at hmember
    exact ⟨_, has_sorted rfl rfl, hmember, rfl⟩
  targetNested := by
    have hmember := TargetConfig.member_of_required undoes_asBool h.targetNested
    rw [← hnested] at hmember
    exact ⟨_, has_sorted rfl rfl, hmember, rfl⟩
  loops := by
    refine ⟨sortedItems (p.loops.map PlannedLoop.toJson), has_sorted rfl rfl, ?_⟩
    rw [sortedItems_eq_map, List.map_map, List.forall₂_map_right_iff, List.forall₂_same]
    intro l _
    exact holdsLoop_sorted l
  settings := hsettings
  params := by
    refine ⟨_, has_sorted rfl rfl, ?_⟩
    rw [hsettings]
    exact h.holdsSettings

/-!
## Runs
-/

namespace CommandLine

variable {o : Options} {files : Files} {m : Tir.Module} {f : Tir.Function} {plan : Plan}
  {plans : List Plan} {paramSource source : String}

theorem IsPlanOf.bounds (h : IsPlanOf config m f plan) {l : PlannedLoop} (hl : l ∈ plan.loops) :
    l.candidateIndex < m.blockCount ∧ l.depth ≤ 2 := by
  rcases h with ⟨g, _, rfl⟩
  have hnested : g.forest.Nested :=
    LoopForest.Nested.map g.separates_blockAt g.laminar_loops.nested_forest
  rcases Plan.exists_selected hl with ⟨s, k, hs, hk, rfl⟩
  constructor
  · have hindex := Selection.candidateIndex_lt hs
    exact Nat.lt_of_lt_of_le hindex (Nat.le_trans (Candidates.size_le hnested) g.size_forest_le)
  · have hdiscovered := Selection.id_mem_discovered hs
    exact TargetConfig.le_two_of_takesDepth
      ((Candidates.mem_discovered hnested hk).mp hdiscovered)

theorem IsPlanOf.passes_on (h : IsPlanOf config m f plan) :
    plan.targetEntireFunction = config.targetEntireFunction ∧
      plan.targetNested = config.targetNested ∧ plan.settings = config.settings := by
  rcases h with ⟨g, _, rfl⟩
  exact ⟨rfl, rfl, rfl⟩

/-- What is read from a plan file. -/
theorem read_fileText {kernel : String} {ids : List Nat} {more : List (String × List Nat)}
    (hdecoded : TargetConfig.Decoded members kernel ids more config)
    (hcount : m.blockCount < 2 ^ 64)
    (hplans : forall p, p ∈ plans -> exists f, IsPlanOf config m f p) :
    exists values, JsonValue.read (Plan.fileText plans) = .ok (.list values) ∧
      List.Forall₂ (HoldsPlan members config) plans values := by
  refine ⟨plans.map fun p => p.toJson.sorted, ?_, ?_⟩
  · rw [Plan.fileText, read_display, sorted, sortedItems_eq_map, List.map_map]
    · rfl
    · show Writable (122 + 5) _
      intro item hitem
      rcases List.mem_map.mp hitem with ⟨p, hp, rfl⟩
      rcases hplans p hp with ⟨f, hplan⟩
      apply Plan.writable
      · rw [hplan.passes_on.2.2]
        exact hdecoded.writable_settings
      · intro l hl
        rcases hplan.bounds hl with ⟨hindex, hdepth⟩
        exact PlannedLoop.writable (Nat.lt_trans hindex hcount) (by lia)
  · rw [List.forall₂_map_right_iff, List.forall₂_same]
    intro p hp
    rcases hplans p hp with ⟨f, hplan⟩
    rcases hplan.passes_on with ⟨hentire, hnested, hsettings⟩
    exact holdsPlan_sorted hdecoded hentire hnested hsettings

theorem Ready.exists_function (h : Ready o files config m plans) :
    forall p, p ∈ plans -> exists f, IsPlanOf config m f p := by
  have hflip : List.Forall₂ (flip (IsPlanOf config m)) plans
      (selectedFunctions config o.function m) := List.Forall₂.flip h.forall₂_plans
  have heach : List.Forall₂ (fun p f => (exists f, IsPlanOf config m f p) ∧ IsPlanOf config m f p)
      plans (selectedFunctions config o.function m) :=
    hflip.imp fun p f hplan => ⟨⟨f, hplan⟩, hplan⟩
  exact ((List.forall₂_and_left _ _).mp heach).1

theorem ready_of_result (h : (run o files).1.result = .ok plans) :
    exists config m, Ready o files config m plans ∧
      forall path, o.planFile = some path -> Delivered o files path (Plan.fileText plans) := by
  have hending := ending_run o files
  rw [h] at hending
  cases hending with
  | done _ hready hdelivered _ => exact ⟨_, _, hready, hdelivered⟩

theorem Ready.config_eq {used : TargetConfig} (h : Ready o files used m plans)
    (hholds : files.holds o.param = true) (hparam : files.read o.param = .ok paramSource)
    (hconfig : TargetConfig.ofText paramSource = .ok config) : used = config := by
  rcases h.configured with ⟨loaded, hused⟩
  rcases configure_of_ofText o.param hconfig with ⟨loaded', hconfigured⟩
  rw [paramText_of_holds hholds, hparam] at hused
  cases hused.symm.trans hconfigured
  rfl

/-- The plan file of a run is a document, and what is read from it says what the plans say and
nothing else: it stands for these plans only.  The settings and the flags are the values in the
parameter file.  A text in memory has less than `2 ^ 64` characters, so the candidate numbers fit 64
bits. -/
theorem plan_file_reads (hholds : files.holds o.param = true)
    (hparam : files.read o.param = .ok paramSource)
    (hconfig : TargetConfig.ofText paramSource = .ok config)
    (hinput : files.read o.input = .ok source) (hlength : source.length < 2 ^ 64)
    (hresult : (run o files).1.result = .ok plans) :
    exists members values, JsonValue.read paramSource = .ok (.object members) ∧
      JsonValue.read (Plan.fileText plans) = .ok (.list values) ∧
      List.Forall₂ (HoldsPlan members config) plans values ∧
      (forall plans', List.Forall₂ (HoldsPlan members config) plans' values -> plans' = plans) ∧
      forall path, o.planFile = some path -> Delivered o files path (Plan.fileText plans) := by
  rcases TargetConfig.ofText_eq_ok hconfig with ⟨members, kernel, ids, more, hread, hdecoded⟩
  rcases ready_of_result hresult with ⟨used, m, hready, hdelivered⟩
  cases hready.config_eq hholds hparam hconfig
  rcases load_eq_ok hready.loaded with ⟨source', hsource, hparse⟩
  cases hinput.symm.trans hsource
  have hcount : m.blockCount < 2 ^ 64 :=
    Nat.lt_of_le_of_lt (Tir.Module.length_blocks_le hparse) hlength
  rcases read_fileText hdecoded hcount hready.exists_function with ⟨values, hvalues, hall⟩
  exact ⟨members, values, hread, hvalues, hall,
    fun plans' h => leftUnique_holdsPlan.forall₂ h hall, hdelivered⟩

/-- Separators, quotes and control characters in the parameter file are in the plan file again. -/
theorem plan_file_reads_kernelFiles :
    (kernelFiles.holds kernelOptions.param = true ∧
      kernelFiles.read kernelOptions.param = .ok kernelParam.display ∧
      TargetConfig.ofText kernelParam.display = .ok kernelConfig ∧
      kernelFiles.read kernelOptions.input = .ok Tir.Module.countText ∧
      Tir.Module.countText.length < 2 ^ 64) ∧
    exists plan v params, (run kernelOptions kernelFiles).1.result = .ok [plan] ∧
      JsonValue.read (Plan.fileText [plan]) = .ok (.list [v]) ∧
      v.Has "function" (.text plan.function) ∧ v.Has "params" params ∧
      params.Has "columns" (.integer 8) ∧ params.Has "vectorizationMode" (.text "all\u2028") ∧
      params.Has "fusionStrategy" (.list [.text "a\"b\\", .text "\t"]) := by
  rcases read_param_kernelFiles with ⟨hholds, hparam⟩
  have hinput : kernelFiles.read kernelOptions.input = .ok Tir.Module.countText := read_kernelFiles
  have hlength : Tir.Module.countText.length < 2 ^ 64 := by decide
  refine ⟨⟨hholds, hparam, ofText_kernelParam, hinput, hlength⟩, ?_⟩
  rcases ready_kernelFiles none with ⟨plan, hready⟩
  have hone : (run kernelOptions kernelFiles).1.result = .ok [plan] := by
    have hnone : forall r : Report, r.planFile? kernelOptions = none := fun r => rfl
    rw [run_of_no_plan (hnone _)]
    exact hready.firstReport
  rcases plan_file_reads (o := kernelOptions) hholds hparam ofText_kernelParam hinput hlength
    hone with ⟨members, values, hread, hvalues, hall, _⟩
  cases hread.symm.trans read_kernelParam
  rcases List.forall₂_cons_left_iff.mp hall with ⟨v, others, hplan, hothers, rfl⟩
  cases List.forall₂_nil_left_iff.mp hothers
  rcases hplan.params with ⟨params, hparams, hsettings⟩
  have hcolumns : ("columns", "column") ∈ settingNames := by decide
  have hmode : ("vectorizationMode", "vectorizationMode") ∈ settingNames := by decide
  have hstrategy : ("fusionStrategy", "fusionStrategy") ∈ settingNames := by decide
  exact ⟨plan, v, params, hone, hvalues, hplan.function, hparams, hsettings.has hcolumns rfl,
    hsettings.has hmode rfl, hsettings.has hstrategy rfl⟩

end CommandLine

end LoopNest
