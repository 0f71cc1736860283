import LoopNest.Proofs.CommandLine.Files
import LoopNest.Proofs.CommandLine.Reports
import LoopNest.Proofs.Json.Writing

/-!
# Runs on single functions

A run on a module says what the runs on its functions say one after another, and its plans are their
plans.
-/

namespace LoopNest
namespace CommandLine

variable {o : Options} {files : Files} {config : TargetConfig} {loaded : List Notice}
  {m : Tir.Module} {f : Tir.Function} {only : Option String}

theorem load_eq_ok {path : String} {text : Except SystemFault String} (h : load path text = .ok m) :
    exists source, text = .ok source ∧ Tir.Module.parse source = .ok m := by
  unfold load at h
  split at h
  · cases h
  split at h
  · cases h
  · rename_i source
    refine ⟨source, rfl, ?_⟩
    cases hparse : Tir.Module.parse source with
    | error e =>
        rw [hparse] at h
        cases h
    | ok k =>
        rw [hparse] at h
        cases h
        rfl

theorem wellFormed_of_load {path : String} {text : Except SystemFault String}
    (h : load path text = .ok m) : m.WellFormed := by
  rcases load_eq_ok h with ⟨source, _, hparse⟩
  rcases Tir.Module.parse_eq_ok.mp hparse with ⟨fs, hread, rfl⟩
  exact (Tir.Module.wellFormed_of_readDrafts hread).1

theorem configure_of_ofText {text : String} (path : String)
    (h : TargetConfig.ofText text = .ok config) :
    exists loaded, configure path (some (.ok text)) = .ok (config, loaded) := by
  simp only [configure, h]
  exact ⟨_, rfl⟩

/-- The same run, but for one function or for all of them, and without a plan file. -/
def Options.asking (o : Options) (only : Option String) : Options :=
  { o with function := only, planFile := none }

section

variable (hconfig : configure o.param (paramText o files) = .ok (config, loaded))
  (hm : load o.input (files.read o.input) = .ok m)
include hconfig hm

theorem run_asking (hfound : missing? only m = none) :
    (run (o.asking only) files).1.output =
        (functionReports config (o.asking only) m).flatMap FunctionReport.output ∧
      (run (o.asking only) files).1.result =
        .ok ((functionReports config (o.asking only) m).flatMap FunctionReport.plans) ∧
      (run (o.asking only) files).1.outputText =
        Text.ofLines
          ((functionReports config (o.asking only) m).flatMap FunctionReport.output) := by
  rcases report_of_load (o := o.asking only) hconfig hm hfound with ⟨houtput, hresult, _⟩
  have htext : (run (o.asking only) files).1.outputText =
      Text.ofLines (firstReport (o.asking only) files).output :=
    outputText_run fun path hpath => by cases hpath
  rw [run_of_no_plan rfl] at htext ⊢
  rw [htext]
  exact ⟨houtput, hresult, congrArg Text.ofLines houtput⟩

theorem run_asking_name (hf : f ∈ m.functions) :
    (run (o.asking (some f.name)) files).1.result =
        .ok (functionReport config o.printLoops m m.code.stored f).plans ∧
      (run (o.asking (some f.name)) files).1.outputText =
        Text.ofLines (functionReport config o.printLoops m m.code.stored f).output := by
  have hfound : missing? (some f.name) m = none := by
    rw [missing?_eq_none]
    intro name hname
    cases hname
    exact ⟨f, hf, rfl⟩
  have hreports : functionReports config (o.asking (some f.name)) m =
      [functionReport config o.printLoops m m.code.stored f] := by
    show (chosen (some f.name) m).map _ = _
    rw [chosen_name (wellFormed_of_load hm) hf]
    rfl
  rcases run_asking hconfig hm hfound with ⟨_, hresult, htext⟩
  rw [hreports, List.flatMap_singleton] at hresult htext
  exact ⟨hresult, htext⟩

/-- The output of a run on a module is made of the outputs of the runs on its functions, and its
plans are made of theirs.  A run on one function has exactly one plan if the function is selected,
and neither plans nor output otherwise.  All that a run says is what one session says that is
switched from function to function, whatever it has looked at before; and a plan file changes only
what takes the text of the plans. -/
theorem run_concat :
    (run (o.asking none) files).1.outputText =
        String.join (m.functions.map fun f => (run (o.asking (some f.name)) files).1.outputText) ∧
      (exists lists,
        List.Forall₂ (fun f plans => (run (o.asking (some f.name)) files).1.result = .ok plans)
          m.functions lists ∧
        (run (o.asking none) files).1.result = .ok lists.flatten) ∧
      (forall f, f ∈ m.functions ->
        (Selected config f -> exists g, m.graph? f = some g ∧
          (run (o.asking (some f.name)) files).1.result =
            .ok [Plan.ofSelection config f.name m.code g.forest
              (Selection.ofForest config f.name m.code g.forest)]) ∧
        (¬ Selected config f ->
          (run (o.asking (some f.name)) files).1.result = .ok [] ∧
          (run (o.asking (some f.name)) files).1.outputText = "")) ∧
      forall only, missing? only m = none ->
        (forall s : Tir.Session m, exists reports,
          tour config o.printLoops only s (List.range m.functions.length) = .ok reports ∧
          (run (o.asking only) files).1.output = reports.flatMap FunctionReport.output ∧
          (run (o.asking only) files).1.result = .ok (reports.flatMap FunctionReport.plans)) ∧
        forall path plans, (run (o.asking only) files).1.result = .ok plans ->
          let p : Options := { o with function := only, planFile := some path }
          (firstReport p files).planFile? p = some (path, Plan.fileText plans) ∧
          (files.stream? path ≠ some .output ->
            (run p files).1.outputText = (run (o.asking only) files).1.outputText) := by
  have hwell := wellFormed_of_load hm
  have hall : functionReports config (o.asking none) m =
      m.functions.map (functionReport config o.printLoops m m.code.stored) := rfl
  have hfound : missing? none m = none := rfl
  rcases run_asking hconfig hm hfound with ⟨_, hresult, htext⟩
  refine ⟨?_, ?_, fun f hf => ?_, fun only hfound => ⟨fun s => ?_, ?_⟩⟩
  · rw [htext, hall, List.flatMap_map, ofLines_flatMap]
    congr 1
    apply List.map_congr_left
    intro f hf
    exact (run_asking_name hconfig hm hf).2.symm
  · refine ⟨m.functions.map fun f => (functionReport config o.printLoops m m.code.stored f).plans,
      ?_, ?_⟩
    · rw [List.forall₂_map_right_iff, List.forall₂_same]
      intro f hf
      exact (run_asking_name hconfig hm hf).1
    · rw [hresult, hall, List.flatMap_map]
      rfl
  · rcases run_asking_name hconfig hm hf with ⟨hplans, htext⟩
    rcases plans_functionReport config o.printLoops hwell hf with
      ⟨hselected, hskipped⟩
    constructor
    · intro h
      rcases hselected h with ⟨g, hg, heq⟩
      exact ⟨g, hg, by rw [hplans, heq]⟩
    · intro h
      rcases hskipped h with ⟨heq, hnone⟩
      rw [hplans, htext, heq, hnone]
      exact ⟨rfl, rfl⟩
  · rcases run_asking hconfig hm hfound with ⟨houtput, hresult, _⟩
    refine ⟨_, ?_, houtput, hresult⟩
    rw [tour_eq hwell (forall₂_range m), ← chosen_eq_filter]
    rfl
  · intro path plans hplans p
    rcases run_asking hconfig hm hfound with ⟨_, hresult, htext⟩
    rcases report_of_load (o := p) hconfig hm hfound with ⟨houtput, hfirst, _⟩
    have heq : functionReports config p m = functionReports config (o.asking only) m := rfl
    rw [heq] at houtput hfirst
    constructor
    · exact planFile?_of_ok rfl (hfirst.trans (hresult.symm.trans hplans))
    · intro hstream
      have houtputText : (run p files).1.outputText = Text.ofLines (firstReport p files).output :=
        outputText_run fun path' hpath => by
          cases hpath
          exact hstream
      rw [houtputText, htext, ← houtput]
      rfl

end

/-!
## A directory with two files
-/

/-- A name that leads to an entry of the working directory. -/
structure PlainName (name : String) : Prop where
  nonempty : name ≠ ""
  short : Path.isLong name = false
  names : Path.names name = [name]
  relative : name.toList.head? ≠ some '/'
  moves : name ≠ "." ∧ name ≠ ".." ∧ Path.isLongName name = false
  plain : Path.namesDirectory name = false

theorem PlainName.locate {name : String} (h : PlainName name)
    (hpass : files.pass files.workplace = .ok ()) :
    files.locate name = files.follow (files.workplace ++ [name]) := by
  have hwalk : files.walk name = .ok (files.workplace, some name) := by
    rw [Files.walk, if_neg h.nonempty, if_neg (by simp [h.short]), h.names, Files.start,
      if_neg h.relative]
    simp only [List.dropLast_singleton, List.foldlM_nil, List.getLast?_singleton]
    show (files.pass files.workplace >>= _) = _
    rw [hpass]
    rfl
  rw [Files.locate, hwalk]
  show files.next files.workplace name = _
  rw [Files.next, if_neg h.moves.1, if_neg h.moves.2.1, h.moves.2.2, if_neg Bool.false_ne_true]

theorem PlainName.read {name text : String} {place : FilePlace} (h : PlainName name)
    (hpass : files.pass files.workplace = .ok ())
    (hfollow : files.follow (files.workplace ++ [name]) = .ok place)
    (hat : files.at? place = some (.file text.toUTF8)) :
    files.holds name = true ∧ files.read name = .ok text := by
  have hfind : files.find name = .ok (.file text.toUTF8) :=
    Files.find_of_locate ((h.locate hpass).trans hfollow) h.plain hat
  constructor
  · rw [Files.holds, hfind]
    rfl
  · rw [Files.read, hfind]
    show Entry.textOf text.toUTF8 = _
    rw [Entry.textOf, fromUTF8?_toUTF8]

theorem plainName_m : PlainName "m" := by
  constructor
  all_goals decide

theorem plainName_p : PlainName "p" := by
  constructor
  all_goals decide

def kernelParam : JsonValue :=
  .object [
    ("row", .integer 4), ("column", .integer 8), ("targetFunction", .bool true),
    ("kernel", .text "f"), ("targetNested", .bool false), ("targetLoopsID", .list []),
    ("isTrimmedDemo", .bool true), ("doCGRAMapping", .bool false),
    ("isStaticElasticCGRA", .bool false), ("ctrlMemConstraint", .integer 200),
    ("bypassConstraint", .integer 4), ("regConstraint", .integer 8),
    ("precisionAware", .bool false), ("vectorizationMode", .text "all\u2028"),
    ("fusionStrategy", .list [.text "a\"b\\", .text "\t"]), ("heuristicMapping", .bool true),
    ("parameterizableCGRA", .bool false)]

def kernelConfig : TargetConfig where
  kernels := KernelTargets.empty.insert "f" []
  targetEntireFunction := true
  targetNested := false
  classifySubLoopBlocks := false
  settings := {
    MapperSettings.standard with
    columns := 8
    doCgraMapping := false
    vectorizationMode := "all\u2028"
    fusionStrategy := ["a\"b\\", "\t"] }

theorem read_kernelParam : JsonValue.read kernelParam.display = .ok kernelParam.sorted := by
  apply JsonValue.read_display
  simp [kernelParam, JsonReader.greatestDepth, JsonValue.Writable]

theorem ofText_kernelParam : TargetConfig.ofText kernelParam.display = .ok kernelConfig := by
  rw [TargetConfig.ofText, read_kernelParam]
  rfl

def kernelFiles : Files :=
  .ofWorkplace
    [(["m"], .file Tir.Module.countText.toUTF8), (["p"], .file kernelParam.display.toUTF8)]

def kernelOptions : Options :=
  ⟨"m", "p", none, none, true⟩

theorem pass_kernelFiles : kernelFiles.pass kernelFiles.workplace = .ok () :=
  rfl

theorem read_kernelFiles : kernelFiles.read "m" = .ok Tir.Module.countText :=
  (plainName_m.read pass_kernelFiles rfl rfl).2

theorem read_param_kernelFiles :
    kernelFiles.holds "p" = true ∧ kernelFiles.read "p" = .ok kernelParam.display :=
  plainName_p.read pass_kernelFiles rfl rfl

theorem configure_kernelFiles :
    exists loaded,
      configure kernelOptions.param (paramText kernelOptions kernelFiles) =
        .ok (kernelConfig, loaded) := by
  rcases read_param_kernelFiles with ⟨hholds, hread⟩
  have htext : paramText kernelOptions kernelFiles = some (.ok kernelParam.display) := by
    rw [paramText, kernelOptions, hholds, if_pos rfl, hread]
  rw [htext]
  exact configure_of_ofText _ ofText_kernelParam

theorem load_kernelFiles :
    load kernelOptions.input (kernelFiles.read kernelOptions.input) =
      .ok Tir.Module.countModule := by
  have hextension : Path.extension? "m" = none := by decide +kernel
  have hparse : Tir.Module.parse Tir.Module.countText = .ok Tir.Module.countModule := by
    decide +kernel
  rw [kernelOptions, read_kernelFiles]
  simp only [load, hextension, hparse]
  rfl

/-- The module has a declaration, which has neither plan nor output, and a kernel, which has the
plan of the whole run. -/
theorem run_concat_kernelFiles :
    (exists loaded, configure kernelOptions.param (paramText kernelOptions kernelFiles) =
        .ok (kernelConfig, loaded)) ∧
      load kernelOptions.input (kernelFiles.read kernelOptions.input) =
        .ok Tir.Module.countModule ∧
      (run (kernelOptions.asking none) kernelFiles).1.outputText =
        (run (kernelOptions.asking (some "f")) kernelFiles).1.outputText ∧
      (run (kernelOptions.asking (some "g")) kernelFiles).1.outputText = "" ∧
      exists plan, (run (kernelOptions.asking none) kernelFiles).1.result = .ok [plan] ∧
        (run (kernelOptions.asking (some "f")) kernelFiles).1.result = .ok [plan] := by
  rcases configure_kernelFiles with ⟨loaded, hconfig⟩
  refine ⟨⟨loaded, hconfig⟩, load_kernelFiles, ?_⟩
  rcases run_concat hconfig load_kernelFiles with ⟨htext, ⟨lists, hlists, hresult⟩, hsingle, _⟩
  have hg := (hsingle ⟨"g", true, ⟨0, 0⟩, ⟨0, 0⟩⟩ (by decide)).2 (by
    rintro ⟨hbody, _⟩
    cases hbody)
  rcases (hsingle ⟨"f", false, ⟨0, 2⟩, ⟨0, 1⟩⟩ (by decide)).1 ⟨rfl, by decide⟩ with ⟨graph, _, hf⟩
  have hparts : (run (kernelOptions.asking none) kernelFiles).1.outputText =
      String.join [(run (kernelOptions.asking (some "g")) kernelFiles).1.outputText,
        (run (kernelOptions.asking (some "f")) kernelFiles).1.outputText] := htext
  simp only [String.join_cons, String.join_nil, String.append_empty] at hparts
  refine ⟨?_, hg.2, _, ?_, hf⟩
  · rw [hparts, hg.2, String.empty_append]
  · cases hlists with
    | cons hfirst hrest =>
        cases hrest with
        | cons hsecond hnil =>
            cases hnil
            cases hg.1.symm.trans hfirst
            cases hf.symm.trans hsecond
            exact hresult

end CommandLine
end LoopNest
