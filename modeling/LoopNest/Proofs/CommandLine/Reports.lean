import LoopNest.CommandLine.Run
import LoopNest.Proofs.Tir.Language
import LoopNest.Proofs.Tir.Sessions

/-!
# Reports on functions

A run looks at the functions of a module one after another.  It does so in one session, which is
switched from function to function, and nothing that the session remembers of a function is left
when the next one is reported on.
-/

namespace LoopNest
namespace CommandLine

variable {config : TargetConfig} {printLoops : Bool} {m : Tir.Module} {f : Tir.Function}
  {only : Option String}

def Selected (config : TargetConfig) (f : Tir.Function) : Prop :=
  f.isDeclaration = false ∧ config.isKernel f.name = true

theorem skips_iff :
    (f.isDeclaration || !config.isKernel f.name) = true <-> ¬ Selected config f := by
  rw [Selected, Bool.or_eq_true, Bool.not_eq_true', ← Bool.not_eq_true (config.isKernel _),
    Decidable.not_and_iff_or_not, Bool.not_eq_false]

theorem functionReport_selected {g : FlowGraph m.blockCount} (code : Code m.BlockIn)
    (h : Selected config f) (hg : m.graph? f = some g) :
    functionReport config printLoops m code f = kernelReport config printLoops code f.name g := by
  have hskips : (f.isDeclaration || !config.isKernel f.name) = false := by
    rw [← Bool.not_eq_true, skips_iff, not_not]
    exact h
  rw [functionReport, hg, hskips]

theorem functionReport_skipped (code : Code m.BlockIn) (h : ¬ Selected config f) :
    functionReport config printLoops m code f = ⟨[], [.skipped f.name], []⟩ := by
  rw [functionReport, skips_iff.mpr h]
  cases m.graph? f with
  | none => rfl
  | some g => rfl

/-- A run has one plan for every function that it reports on, and none for the others. -/
theorem plans_functionReport (config : TargetConfig) (printLoops : Bool) (h : m.WellFormed)
    (hf : f ∈ m.functions) :
    (Selected config f -> exists g, m.graph? f = some g ∧
      (functionReport config printLoops m m.code.stored f).plans =
        [Plan.ofSelection config f.name m.code g.forest
          (Selection.ofForest config f.name m.code g.forest)]) ∧
    (¬ Selected config f ->
      (functionReport config printLoops m m.code.stored f).plans = [] ∧
      (functionReport config printLoops m m.code.stored f).output = []) := by
  constructor
  · intro hselected
    rcases h.exists_graph hf hselected.1 with ⟨g, hg⟩
    refine ⟨g, hg, ?_⟩
    rw [functionReport_selected _ hselected hg, Code.stored_eq]
    rfl
  · intro hskipped
    rw [functionReport_skipped _ hskipped]
    exact ⟨rfl, rfl⟩

/-!
## One session for all functions
-/

/-- The report on the function that a session has analyzed last. -/
def sessionReport (config : TargetConfig) (printLoops : Bool) (code : Code m.BlockIn)
    (name : String) (s : Tir.Session m) : FunctionReport :=
  let selection := Selection.ofForest config name code s.forest
  { output := (if printLoops then nestLines config name code s.forest else [])
      ++ selection.events.map SelectionEvent.display
    notices := s.analysis.notices blockLabel s.forest
      ++ (if printLoops then nestNotices config code s.forest else [])
      ++ Selection.notices config name code s.forest
      ++ if selection.isEmpty then [.nothingSelected name] else []
    plans := [Plan.ofSelection config name code s.forest selection] }

def tour (config : TargetConfig) (printLoops : Bool) (only : Option String) :
    Tir.Session m -> List Nat -> Except Tir.SessionFault (List FunctionReport)
  | _, [] => .ok []
  | s, i :: is => do
      let f <- Tir.Session.function m i
      if only.any (· != f.name) then
        tour config printLoops only s is
      else if f.isDeclaration || !config.isKernel f.name then do
        let reports <- tour config printLoops only s is
        return ⟨[], [.skipped f.name], []⟩ :: reports
      else
        match s.switch i with
        | (.error fault, _) => .error fault
        | (.ok (), moved) => do
            let reports <- tour config printLoops only moved is
            return sessionReport config printLoops m.code f.name moved :: reports

theorem sessionReport_eq {s : Tir.Session m} {g : FlowGraph m.blockCount} (code : Code m.BlockIn)
    (name : String) (hanalysis : s.analysis = g.analyze) (hforest : s.forest = g.forest) :
    sessionReport config printLoops code name s = kernelReport config printLoops code name g := by
  rw [sessionReport, kernelReport, hanalysis, hforest]

theorem chosen_eq_filter (only : Option String) (m : Tir.Module) :
    chosen only m = m.functions.filter fun f => !only.any (· != f.name) := by
  cases only with
  | none => simp [chosen]
  | some name =>
      apply List.filter_congr
      intro f _
      rw [Option.any_some, bne, Bool.not_not, Bool.beq_comm]

/-- Whatever the session has looked at before, the reports are the ones on the functions alone. -/
theorem tour_eq (h : m.WellFormed) {is : List Nat} {fs : List Tir.Function}
    (hfs : List.Forall₂ (fun i f => m.functions[i]? = some f) is fs) (s : Tir.Session m) :
    tour config printLoops only s is =
      .ok ((fs.filter fun f => !only.any (· != f.name)).map
        (functionReport config printLoops m m.code.stored)) := by
  induction hfs generalizing s with
  | nil => rfl
  | cons hf _ ih =>
      rename_i i f is fs _
      rw [tour, Tir.Session.function, hf, List.filter_cons]
      show (if _ then _ else _) = _
      split
      · rename_i hpassed
        rw [ih, hpassed]
        rfl
      rename_i hchosen
      rw [Bool.not_eq_true] at hchosen
      rw [hchosen, Bool.not_false, if_pos rfl, List.map_cons]
      split
      · rename_i hskips
        rw [functionReport_skipped _ (skips_iff.mp hskips), ih]
        rfl
      · rename_i hselected
        rw [skips_iff, not_not] at hselected
        rcases h.exists_graph (List.mem_of_getElem? hf) hselected.1 with ⟨g, hg⟩
        have hswitch := Tir.Session.call_of_graph (s := s) (c := .switch i) hf hselected.1 hg rfl
        rw [Tir.Session.call] at hswitch
        rw [hswitch, functionReport_selected _ hselected hg, Code.stored_eq,
          ← sessionReport_eq (s := ⟨i, g.analyze, g.forest⟩) m.code f.name rfl rfl]
        show (tour config printLoops only _ is >>= _) = _
        rw [ih, Code.stored_eq]
        rfl

theorem forall₂_range (m : Tir.Module) :
    List.Forall₂ (fun i f => m.functions[i]? = some f) (List.range m.functions.length)
      m.functions := by
  rw [List.forall₂_iff_get]
  refine ⟨List.length_range, fun i hi hi' => ?_⟩
  simp

/-!
## Functions that are asked for
-/

theorem filter_name {fs : List Tir.Function} (hnames : (fs.map Tir.Function.name).Nodup)
    (hf : f ∈ fs) : fs.filter (fun k => k.name == f.name) = [f] := by
  induction fs with
  | nil => cases hf
  | cons first fs ih =>
      rw [List.map_cons, List.nodup_cons] at hnames
      rcases List.mem_cons.mp hf with rfl | hf
      · rw [List.filter_cons, if_pos (beq_self_eq_true f.name), List.filter_eq_nil_iff.mpr]
        intro k hk heq
        exact hnames.1 (List.mem_map.mpr ⟨k, hk, beq_iff_eq.mp heq⟩)
      · have hne : ¬ (first.name == f.name) = true := by
          rw [beq_iff_eq]
          intro heq
          exact hnames.1 (List.mem_map.mpr ⟨f, hf, heq.symm⟩)
        rw [List.filter_cons, if_neg hne, ih hnames.2 hf]

theorem chosen_name (h : m.WellFormed) (hf : f ∈ m.functions) : chosen (some f.name) m = [f] :=
  filter_name h.nodup_names hf

theorem missing?_eq_none :
    missing? only m = none <->
      forall name, only = some name -> exists f, f ∈ m.functions ∧ f.name = name := by
  cases only with
  | none => simp [missing?]
  | some name => simp [missing?, Tir.Module.function?]

/-!
## Reports on modules
-/

variable {o : Options} {files : Files} {loaded : List Notice}

/-- The text of the parameter file, if there is such a file. -/
def paramText (o : Options) (files : Files) : Option (Except SystemFault String) :=
  if files.holds o.param then some (files.read o.param) else none

def functionReports (config : TargetConfig) (o : Options) (m : Tir.Module) : List FunctionReport :=
  (chosen o.function m).map (functionReport config o.printLoops m m.code.stored)

theorem report_of_load {param : Option (Except SystemFault String)}
    {input : Except SystemFault String} (hconfig : configure o.param param = .ok (config, loaded))
    (hm : load o.input input = .ok m) (hfound : missing? o.function m = none) :
    (report o param input).output = (functionReports config o m).flatMap FunctionReport.output ∧
      (report o param input).result =
        .ok ((functionReports config o m).flatMap FunctionReport.plans) ∧
      (report o param input).streamed = none := by
  simp only [report, hconfig, hm, moduleReport, hfound]
  exact ⟨rfl, rfl, trivial⟩

theorem ofLines_flatMap {alpha : Type} (f : alpha -> List String) (xs : List alpha) :
    Text.ofLines (xs.flatMap f) = String.join (xs.map fun x => Text.ofLines (f x)) := by
  apply String.toList_inj.mp
  simp only [Text.ofLines, String.toList_ofList, String.toList_join, List.flatMap_assoc,
    List.flatMap_map]

/-!
## Runs
-/

theorem streamed_report (o : Options) (param : Option (Except SystemFault String))
    (input : Except SystemFault String) : (report o param input).streamed = none := by
  unfold report moduleReport
  repeat' split
  all_goals rfl

theorem outputText_of_not_streamed {r : Report} (h : r.streamedTo .output = "") :
    r.outputText = Text.ofLines r.output := by
  rw [Report.outputText, h, String.append_empty]

/-- The report of a run up to the plan file. -/
def firstReport (o : Options) (files : Files) : Report :=
  report o (paramText o files) (files.read o.input)

theorem run_of_no_plan (hplan : (firstReport o files).planFile? o = none) :
    run o files = (firstReport o files, files) := by
  rw [firstReport, paramText] at hplan ⊢
  simp only [run, hplan]

theorem run_of_unwritable {path text : String} {fault : SystemFault} {left : Files}
    (hplan : (firstReport o files).planFile? o = some (path, text))
    (hwrite : files.write path text = (some fault, left)) :
    run o files = ((firstReport o files).afterWriting path (some fault) none, left) := by
  rw [firstReport, paramText] at hplan ⊢
  simp only [run, hplan, hwrite]

theorem run_of_written {path text : String} {written : Files}
    (hplan : (firstReport o files).planFile? o = some (path, text))
    (hwrite : files.write path text = (none, written)) :
    run o files = ((firstReport o files).afterWriting path none
      ((files.stream? path).map fun s => (s, text)), written) := by
  rw [firstReport, paramText] at hplan ⊢
  simp only [run, hplan, hwrite]

theorem planFile?_of_ok {r : Report} {path : String} {plans : List Plan}
    (hplan : o.planFile = some path) (hr : r.result = .ok plans) :
    r.planFile? o = some (path, Plan.fileText plans) := by
  rw [Report.planFile?, hplan, hr]

theorem planFile?_eq_some {r : Report} {path text : String}
    (h : r.planFile? o = some (path, text)) :
    o.planFile = some path ∧ exists plans, r.result = .ok plans ∧ text = Plan.fileText plans := by
  unfold Report.planFile? at h
  split at h
  · rename_i hplan hr
    cases h
    exact ⟨hplan, _, hr, rfl⟩
  · cases h

/-- The output of a run does not depend on its plan file, unless the standard output takes it. -/
theorem outputText_run
    (h : forall path, o.planFile = some path -> files.stream? path ≠ some .output) :
    (run o files).1.outputText = Text.ofLines (firstReport o files).output := by
  have hstreamed : (firstReport o files).streamed = none := streamed_report _ _ _
  cases hfile : (firstReport o files).planFile? o with
  | none =>
      rw [run_of_no_plan hfile]
      exact outputText_of_not_streamed (by rw [Report.streamedTo, hstreamed])
  | some file =>
      rcases file with ⟨path, text⟩
      rcases planFile?_eq_some hfile with ⟨hplan, plans, hr, _⟩
      rcases hwrite : files.write path text with ⟨fault?, after⟩
      cases fault? with
      | some fault =>
          rw [run_of_unwritable hfile hwrite]
          apply outputText_of_not_streamed
          rw [Report.afterWriting, Report.streamedTo, hstreamed]
      | none =>
          rw [run_of_written hfile hwrite]
          simp only [Report.afterWriting, hr]
          apply outputText_of_not_streamed
          rw [Report.streamedTo]
          cases hstream : files.stream? path with
          | none => rfl
          | some stream =>
              have hne : stream ≠ .output := by
                rintro rfl
                exact h path hplan hstream
              simp [hne]

end CommandLine
end LoopNest
