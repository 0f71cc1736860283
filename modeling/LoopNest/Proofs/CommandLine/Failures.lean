import LoopNest.Proofs.CommandLine.Concatenation
import LoopNest.Proofs.CommandLine.Files
import LoopNest.Proofs.Selection.Plans

/-!
# Failing runs

A run fails if and only if something stands in its way, and it reports the first thing that does.
Nothing is printed or written before the plan file, and that is the last thing that can be in the
way.
-/

namespace LoopNest
namespace CommandLine

/-- A run whose input is in order, up to the plan file. -/
structure Ready (o : Options) (files : Files) (config : TargetConfig) (m : Tir.Module)
    (plans : List Plan) : Prop where
  configured : exists loaded, configure o.param (paramText o files) = .ok (config, loaded)
  loaded : load o.input (files.read o.input) = .ok m
  found : missing? o.function m = none
  plans : plans = (functionReports config o m).flatMap FunctionReport.plans

/-- What stands in the way of a run. -/
inductive Obstacle (o : Options) (files : Files) : Failure -> Prop where
  | paramUnreadable {fault : SystemFault} :
      files.holds o.param = true -> files.read o.param = .error fault ->
      Obstacle o files (.paramUnreadable o.param fault)
  | paramInvalid {text : String} {error : ConfigError} :
      files.holds o.param = true -> files.read o.param = .ok text ->
      TargetConfig.ofText text = .error error -> Obstacle o files (.paramInvalid error)
  | unsupported :
      Path.extension? o.input = some "ll" ∨ Path.extension? o.input = some "bc" ->
      Obstacle o files (.unsupported ((Path.fileName? o.input).getD o.input))
  | inputUnreadable {fault : SystemFault} :
      files.read o.input = .error fault -> Obstacle o files (.inputUnreadable o.input fault)
  | inputInvalid {text : String} {error : Tir.ReadError} :
      files.read o.input = .ok text -> Tir.Module.parse text = .error error ->
      Obstacle o files (.inputInvalid o.input error)
  | functionNotFound {name text : String} {m : Tir.Module} :
      files.read o.input = .ok text -> Tir.Module.parse text = .ok m -> o.function = some name ->
      (forall f, f ∈ m.functions -> f.name ≠ name) -> Obstacle o files (.functionNotFound name)
  | planUnwritable {path : String} {fault : SystemFault} {config : TargetConfig} {m : Tir.Module}
      {plans : List Plan} :
      o.planFile = some path -> Ready o files config m plans ->
      (files.write path (Plan.fileText plans)).1 = some fault ->
      Obstacle o files (.planUnwritable path fault)

/-- The place of a failure in the order in which they are looked for. -/
def Failure.rank : Failure -> Nat
  | paramUnreadable _ _ => 0
  | paramInvalid _ => 1
  | unsupported _ => 2
  | inputUnreadable _ _ => 3
  | inputInvalid _ _ => 4
  | functionNotFound _ => 5
  | planUnwritable _ _ => 6

variable {o : Options} {files : Files} {failure other : Failure} {config : TargetConfig}
  {loaded : List Notice} {m : Tir.Module} {rank : Nat}

theorem Ready.plans_unique {used : TargetConfig} {k : Tir.Module} {plans plans' : List Plan}
    (h : Ready o files config m plans) (h' : Ready o files used k plans') : plans = plans' := by
  rcases h.configured with ⟨_, hconfig⟩
  rcases h'.configured with ⟨_, hused⟩
  cases hconfig.symm.trans hused
  cases h.loaded.symm.trans h'.loaded
  rw [h.plans, h'.plans]

/-- Two obstacles of the same rank are the same. -/
theorem Obstacle.unique (h : Obstacle o files failure) (h' : Obstacle o files other)
    (hrank : failure.rank = other.rank) : failure = other := by
  cases h with
  | paramUnreadable _ hread =>
      cases h' with
      | paramUnreadable _ hread' =>
          cases hread.symm.trans hread'
          rfl
      | _ => cases hrank
  | paramInvalid _ hread hinvalid =>
      cases h' with
      | paramInvalid _ hread' hinvalid' =>
          cases hread.symm.trans hread'
          cases hinvalid.symm.trans hinvalid'
          rfl
      | _ => cases hrank
  | unsupported _ =>
      cases h' with
      | unsupported _ => rfl
      | _ => cases hrank
  | inputUnreadable hread =>
      cases h' with
      | inputUnreadable hread' =>
          cases hread.symm.trans hread'
          rfl
      | _ => cases hrank
  | inputInvalid hread hparse =>
      cases h' with
      | inputInvalid hread' hparse' =>
          cases hread.symm.trans hread'
          cases hparse.symm.trans hparse'
          rfl
      | _ => cases hrank
  | functionNotFound _ _ hname _ =>
      cases h' with
      | functionNotFound _ _ hname' _ =>
          cases hname.symm.trans hname'
          rfl
      | _ => cases hrank
  | planUnwritable hplan hready hwrite =>
      cases h' with
      | planUnwritable hplan' hready' hother =>
          cases hplan.symm.trans hplan'
          cases hready.plans_unique hready'
          cases hwrite.symm.trans hother
          rfl
      | _ => cases hrank

/-!
## The steps of a run
-/

/-- Nothing stands in the way before the given rank. -/
def Clear (o : Options) (files : Files) (rank : Nat) : Prop :=
  forall failure, Obstacle o files failure -> rank ≤ failure.rank

/-- The failure is the first thing that stands in the way. -/
def First (o : Options) (files : Files) (failure : Failure) : Prop :=
  Obstacle o files failure ∧ Clear o files failure.rank

theorem paramText_of_holds (h : files.holds o.param = true) :
    paramText o files = some (files.read o.param) := by
  rw [paramText, h, if_pos rfl]

theorem clear_of_configure (h : configure o.param (paramText o files) = .ok (config, loaded)) :
    Clear o files 2 := by
  intro failure hobstacle
  cases hobstacle with
  | paramUnreadable hholds hread =>
      rw [paramText_of_holds hholds, hread] at h
      cases h
  | paramInvalid hholds hread hinvalid =>
      rw [paramText_of_holds hholds, hread] at h
      simp only [configure, hinvalid] at h
      cases h
  | unsupported | inputUnreadable | inputInvalid | functionNotFound | planUnwritable =>
      simp [Failure.rank]

theorem first_of_configure (h : configure o.param (paramText o files) = .error failure) :
    First o files failure ∧ failure.rank < 2 := by
  cases hholds : files.holds o.param with
  | false =>
      rw [paramText, hholds, if_neg Bool.false_ne_true] at h
      cases h
  | true =>
      rw [paramText_of_holds hholds] at h
      cases hread : files.read o.param with
      | error fault =>
          rw [hread] at h
          cases h
          exact ⟨⟨Obstacle.paramUnreadable hholds hread, fun _ _ => Nat.zero_le _⟩,
            by simp [Failure.rank]⟩
      | ok text =>
          rw [hread] at h
          simp only [configure] at h
          split at h
          · rename_i error hinvalid
            cases h
            refine ⟨⟨Obstacle.paramInvalid hholds hread hinvalid, fun other hother => ?_⟩,
              by simp [Failure.rank]⟩
            cases hother with
            | paramUnreadable _ hread' => cases hread.symm.trans hread'
            | paramInvalid | unsupported | inputUnreadable | inputInvalid | functionNotFound
            | planUnwritable => simp [Failure.rank]
          · cases h

theorem clear_of_load (hclear : Clear o files 2) (h : load o.input (files.read o.input) = .ok m) :
    Clear o files 5 := by
  intro failure hobstacle
  have hrank := hclear failure hobstacle
  rcases load_eq_ok h with ⟨source, hsource, hparse⟩
  cases hobstacle with
  | paramUnreadable | paramInvalid => simp [Failure.rank] at hrank
  | unsupported hformat =>
      unfold load at h
      rw [if_pos hformat] at h
      cases h
  | inputUnreadable hread => cases hsource.symm.trans hread
  | inputInvalid hread hinvalid =>
      cases hsource.symm.trans hread
      cases hparse.symm.trans hinvalid
  | functionNotFound | planUnwritable => simp [Failure.rank]

theorem first_of_load (hclear : Clear o files 2)
    (h : load o.input (files.read o.input) = .error failure) :
    First o files failure ∧ failure.rank < 5 := by
  unfold load at h
  split at h
  · rename_i hformat
    cases h
    exact ⟨⟨Obstacle.unsupported hformat, hclear⟩, by simp [Failure.rank]⟩
  rename_i hformat
  cases hread : files.read o.input with
  | error fault =>
      rw [hread] at h
      cases h
      refine ⟨⟨Obstacle.inputUnreadable hread, fun other hother => ?_⟩, by simp [Failure.rank]⟩
      have hrank := hclear other hother
      cases hother with
      | paramUnreadable | paramInvalid => simp [Failure.rank] at hrank
      | unsupported hformat' => exact absurd hformat' hformat
      | inputUnreadable | inputInvalid | functionNotFound | planUnwritable => simp [Failure.rank]
  | ok text =>
      rw [hread] at h
      cases hparse : Tir.Module.parse text with
      | ok k =>
          simp only [hparse] at h
          cases h
      | error error =>
          simp only [hparse] at h
          cases h
          refine ⟨⟨Obstacle.inputInvalid hread hparse, fun other hother => ?_⟩,
            by simp [Failure.rank]⟩
          have hrank := hclear other hother
          cases hother with
          | paramUnreadable | paramInvalid => simp [Failure.rank] at hrank
          | unsupported hformat' => exact absurd hformat' hformat
          | inputUnreadable hread' => cases hread.symm.trans hread'
          | inputInvalid | functionNotFound | planUnwritable => simp [Failure.rank]

theorem missing?_eq_some {only : Option String} {name : String} :
    missing? only m = some name <->
      only = some name ∧ forall f, f ∈ m.functions -> f.name ≠ name := by
  cases only with
  | none => simp [missing?]
  | some asked =>
      simp only [missing?, Tir.Module.function?, Option.filter_some, Option.isNone_iff_eq_none,
        List.findIdx?_eq_none_iff, beq_eq_false_iff_ne, Option.ite_none_right_eq_some,
        Option.some.injEq]
      rw [and_comm]
      constructor
      · rintro ⟨rfl, h⟩
        exact ⟨rfl, h⟩
      · rintro ⟨rfl, h⟩
        exact ⟨rfl, h⟩

theorem first_of_missing {name : String} (hclear : Clear o files 5)
    (hm : load o.input (files.read o.input) = .ok m) (h : missing? o.function m = some name) :
    First o files (.functionNotFound name) := by
  rcases load_eq_ok hm with ⟨source, hsource, hparse⟩
  rcases missing?_eq_some.mp h with ⟨hname, hnone⟩
  exact ⟨Obstacle.functionNotFound hsource hparse hname hnone, hclear⟩

theorem clear_of_found (hclear : Clear o files 5)
    (hm : load o.input (files.read o.input) = .ok m) (h : missing? o.function m = none) :
    Clear o files 6 := by
  intro failure hobstacle
  have hrank := hclear failure hobstacle
  rcases load_eq_ok hm with ⟨source, hsource, hparse⟩
  cases hobstacle with
  | paramUnreadable | paramInvalid | unsupported | inputUnreadable | inputInvalid =>
      simp [Failure.rank] at hrank
  | functionNotFound hread hparse' hname hnone =>
      cases hsource.symm.trans hread
      cases hparse.symm.trans hparse'
      have hmissing := missing?_eq_some.mpr ⟨hname, hnone⟩
      cases h.symm.trans hmissing
  | planUnwritable => simp [Failure.rank]

/-!
## The result of a run
-/

/-- Up to the plan file a run either stops at the first obstacle, without output, or is ready. -/
theorem firstReport_cases (o : Options) (files : Files) :
    (exists failure, (firstReport o files).result = .error failure ∧ First o files failure ∧
      (firstReport o files).output = [] ∧ failure.rank < 6) ∨
    (exists config m plans, (firstReport o files).result = .ok plans ∧
      Ready o files config m plans ∧ Clear o files 6) := by
  cases hconfig : configure o.param (paramText o files) with
  | error failure =>
      rcases first_of_configure hconfig with ⟨hfirst, hrank⟩
      refine Or.inl ⟨failure, ?_, hfirst, ?_, by lia⟩
      · simp only [firstReport, report, hconfig]
      · simp only [firstReport, report, hconfig]
  | ok p =>
      rcases p with ⟨config, loaded⟩
      have hclear := clear_of_configure hconfig
      cases hm : load o.input (files.read o.input) with
      | error failure =>
          rcases first_of_load hclear hm with ⟨hfirst, hrank⟩
          refine Or.inl ⟨failure, ?_, hfirst, ?_, by lia⟩
          · simp only [firstReport, report, hconfig, hm]
          · simp only [firstReport, report, hconfig, hm]
      | ok m =>
          have hclear := clear_of_load hclear hm
          cases hmissing : missing? o.function m with
          | some name =>
              refine Or.inl ⟨_, ?_, first_of_missing hclear hm hmissing, ?_, by simp [Failure.rank]⟩
              · simp only [firstReport, report, hconfig, hm, moduleReport, hmissing]
              · simp only [firstReport, report, hconfig, hm, moduleReport, hmissing]
          | none =>
              rcases report_of_load hconfig hm hmissing with ⟨_, hresult, _⟩
              exact Or.inr ⟨config, m, _, hresult, ⟨⟨loaded, hconfig⟩, hm, hmissing, rfl⟩,
                clear_of_found hclear hm hmissing⟩

/-- Where a text is after a run: in the file at the path, or, if a device is there, with the stream
that the device passes it on to. -/
structure Delivered (o : Options) (files : Files) (path text : String) : Prop where
  kept : (forall d, files.find path ≠ .ok (.device d)) -> (run o files).2.Keeps path text
  passed : forall d, files.find path = .ok (.device d) -> (run o files).2 = files ∧
    forall stream, d.writing = .ok (some stream) -> (run o files).1.streamedTo stream = text

/-- How a run ends: at an obstacle that is in the way before the plan file, with neither output nor
changes; at the plan file, which cannot be written; or with plans. -/
inductive Ending (o : Options) (files : Files) : Except Failure (List Plan) -> Prop where
  | stopped {failure : Failure} :
      First o files failure -> failure.rank < 6 -> (run o files).1.outputText = "" ->
      (run o files).2 = files -> Ending o files (.error failure)
  | unwritable {path : String} {fault : SystemFault} :
      First o files (.planUnwritable path fault) ->
      Ending o files (.error (.planUnwritable path fault))
  | done {config : TargetConfig} {m : Tir.Module} {plans : List Plan} :
      (forall failure, ¬ Obstacle o files failure) -> Ready o files config m plans ->
      (forall path, o.planFile = some path -> Delivered o files path (Plan.fileText plans)) ->
      (o.planFile = none -> (run o files).2 = files) -> Ending o files (.ok plans)

theorem no_obstacle {plans : List Plan} (hclear : Clear o files 6)
    (hready : Ready o files config m plans)
    (hplan : forall path, o.planFile = some path ->
      (files.write path (Plan.fileText plans)).1 = none) : ¬ Obstacle o files failure := by
  intro hobstacle
  have hrank := hclear failure hobstacle
  cases hobstacle with
  | planUnwritable hpath hready' hwrite =>
      cases hready.plans_unique hready'
      cases (hplan _ hpath).symm.trans hwrite
  | paramUnreadable | paramInvalid | unsupported | inputUnreadable | inputInvalid
  | functionNotFound => simp [Failure.rank] at hrank

theorem Ready.firstReport {plans : List Plan} (h : Ready o files config m plans) :
    (firstReport o files).result = .ok plans := by
  rcases h.configured with ⟨loaded, hconfig⟩
  rcases report_of_load hconfig h.loaded h.found with ⟨_, hresult, _⟩
  rw [h.plans]
  exact hresult

theorem Ready.run_of_write {path : String} {plans : List Plan} {written : Files}
    (h : Ready o files config m plans) (hplan : o.planFile = some path)
    (hwrite : files.write path (Plan.fileText plans) = (none, written)) :
    (run o files).1.result = .ok plans ∧ (run o files).2 = written := by
  rw [run_of_written (planFile?_of_ok hplan h.firstReport) hwrite]
  simp only [Report.afterWriting, h.firstReport]
  exact ⟨trivial, trivial⟩

theorem delivered_of_write {path : String} {plans : List Plan} {written : Files}
    (hready : Ready o files config m plans) (hplan : o.planFile = some path)
    (hwrite : files.write path (Plan.fileText plans) = (none, written)) :
    Delivered o files path (Plan.fileText plans) := by
  have hrun := run_of_written (planFile?_of_ok hplan hready.firstReport) hwrite
  constructor
  · intro hfile
    rw [hrun]
    exact Files.keeps_of_write hwrite hfile
  · intro d hdevice
    rcases Files.eq_of_write_device hwrite hdevice with ⟨hsame, taken, htaken⟩
    rw [hrun]
    refine ⟨hsame, fun stream hstream => ?_⟩
    have hs : files.stream? path = some stream := by
      rcases d with ⟨reading, writing⟩
      cases hstream
      rw [Files.stream?, hdevice]
    simp only [Report.afterWriting, hready.firstReport, hs, Option.map_some, Report.streamedTo,
      if_true]

theorem ending_run (o : Options) (files : Files) : Ending o files (run o files).1.result := by
  have hstreamed : (firstReport o files).streamed = none := streamed_report _ _ _
  rcases firstReport_cases o files with ⟨failure, hresult, hfirst, houtput, hrank⟩ |
    ⟨config, m, plans, hresult, hready, hclear⟩
  · have hrun : run o files = (firstReport o files, files) :=
      run_of_no_plan (by simp [Report.planFile?, hresult])
    have hending : Ending o files (.error failure) := by
      refine Ending.stopped hfirst hrank ?_ (by rw [hrun])
      rw [hrun, outputText_of_not_streamed (by rw [Report.streamedTo, hstreamed]), houtput]
      rfl
    rwa [← hresult, ← congrArg (fun p => p.1.result) hrun] at hending
  cases hplan : o.planFile with
  | none =>
      have hrun : run o files = (firstReport o files, files) :=
        run_of_no_plan (by simp [Report.planFile?, hplan])
      have hending : Ending o files (.ok plans) := by
        refine Ending.done (fun failure => no_obstacle hclear hready ?_) hready ?_
          fun _ => by rw [hrun]
        · intro path hpath
          cases hplan.symm.trans hpath
        · intro path hpath
          cases hplan.symm.trans hpath
      rwa [← hresult, ← congrArg (fun p => p.1.result) hrun] at hending
  | some path =>
      have hfile := planFile?_of_ok hplan hresult
      rcases hwrite : files.write path (Plan.fileText plans) with ⟨fault?, after⟩
      cases fault? with
      | some fault =>
          rw [run_of_unwritable hfile hwrite]
          exact Ending.unwritable
            ⟨Obstacle.planUnwritable hplan hready (congrArg Prod.fst hwrite), hclear⟩
      | none =>
          rw [(hready.run_of_write hplan hwrite).1]
          refine Ending.done (fun failure => no_obstacle hclear hready ?_) hready ?_ ?_
          · intro other hother
            cases hplan.symm.trans hother
            exact congrArg Prod.fst hwrite
          · intro other hother
            cases hplan.symm.trans hother
            exact delivered_of_write hready hplan hwrite
          · intro hnone
            cases hplan.symm.trans hnone

/-- The plan of a function for the mapper. -/
def IsPlanOf (config : TargetConfig) (m : Tir.Module) (f : Tir.Function) (plan : Plan) : Prop :=
  exists g, m.graph? f = some g ∧
    plan = Plan.ofSelection config f.name m.code g.forest
      (Selection.ofForest config f.name m.code g.forest)

/-- The functions that a run reports on, in module order. -/
def selectedFunctions (config : TargetConfig) (only : Option String) (m : Tir.Module) :
    List Tir.Function :=
  (chosen only m).filter fun f => !f.isDeclaration && config.isKernel f.name

theorem selects_iff {f : Tir.Function} :
    (!f.isDeclaration && config.isKernel f.name) = true <-> Selected config f := by
  rw [Selected, Bool.and_eq_true, Bool.not_eq_true']

theorem forall₂_plans {printLoops : Bool} (hm : m.WellFormed) {fs : List Tir.Function}
    (hfs : forall f, f ∈ fs -> f ∈ m.functions) :
    List.Forall₂ (IsPlanOf config m)
      (fs.filter fun f => !f.isDeclaration && config.isKernel f.name)
      ((fs.map (functionReport config printLoops m m.code.stored)).flatMap
        FunctionReport.plans) := by
  induction fs with
  | nil => exact List.Forall₂.nil
  | cons f fs ih =>
      rw [List.forall_mem_cons] at hfs
      rcases plans_functionReport config printLoops hm hfs.1 with
        ⟨hselected, hskipped⟩
      rw [List.filter_cons, List.map_cons, List.flatMap_cons]
      split
      · rename_i hf
        rcases hselected (selects_iff.mp hf) with ⟨g, hg, hplans⟩
        rw [hplans]
        exact List.Forall₂.cons ⟨g, hg, rfl⟩ (ih hfs.2)
      · rename_i hf
        rw [(hskipped fun h => hf (selects_iff.mpr h)).1]
        exact ih hfs.2

theorem chosen_subset {only : Option String} {f : Tir.Function} (hf : f ∈ chosen only m) :
    f ∈ m.functions := by
  rw [chosen_eq_filter] at hf
  exact (List.mem_filter.mp hf).1

theorem Ready.forall₂_plans {plans : List Plan} (h : Ready o files config m plans) :
    List.Forall₂ (IsPlanOf config m) (selectedFunctions config o.function m) plans := by
  rw [h.plans]
  exact CommandLine.forall₂_plans (wellFormed_of_load h.loaded) fun f => chosen_subset

theorem First.unique (h : First o files failure) (h' : First o files other) : failure = other :=
  h.1.unique h'.1 (Nat.le_antisymm (h.2 other h'.1) (h'.2 failure h.1))

/-- The same run with another plan file, or none. -/
def Options.delivering (o : Options) (planFile : Option String) : Options :=
  { o with planFile }

theorem ready_kernelFiles (planFile : Option String) :
    exists plan, Ready (kernelOptions.delivering planFile) kernelFiles kernelConfig
      Tir.Module.countModule [plan] := by
  rcases configure_kernelFiles with ⟨loaded, hconfig⟩
  have hready : Ready (kernelOptions.delivering planFile) kernelFiles kernelConfig
      Tir.Module.countModule _ :=
    ⟨⟨loaded, hconfig⟩, load_kernelFiles, rfl, rfl⟩
  have hplans : List.Forall₂ (IsPlanOf kernelConfig Tir.Module.countModule)
      [⟨"f", false, ⟨0, 2⟩, ⟨0, 1⟩⟩] _ := hready.forall₂_plans
  rcases List.forall₂_cons_left_iff.mp hplans with ⟨plan, rest, _, hrest, heq⟩
  rw [List.forall₂_nil_left_iff.mp hrest] at heq
  rw [heq] at hready
  exact ⟨plan, hready⟩

end CommandLine
end LoopNest
