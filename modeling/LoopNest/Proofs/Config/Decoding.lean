import LoopNest.Param
import Mathlib.Data.List.Find

/-!
# Decoding members

A configuration is decoded member by member.  What the decoded parts are is told once, and what
follows is told of all of them: decoding an object that has the required members stops only at a
member of a wrong kind, and it looks at no other members.
-/

namespace LoopNest

/-!
## Values that can be decoded
-/

namespace JsonValue

variable {alpha : Type} {decode : JsonValue -> Except JsonMismatch alpha}
  {encode : alpha -> JsonValue} {v : JsonValue} {bound : Nat}

theorem natBelow_eq_ok {asked : JsonKind} {n : Nat} :
    natBelow bound asked v = .ok n <-> v = .integer n ∧ n < bound := by
  cases v with
  | integer value =>
      rw [natBelow]
      split
      · rename_i h
        simp only [Except.ok.injEq, JsonValue.integer.injEq]
        constructor
        · rintro rfl
          exact ⟨by lia, h.2⟩
        · rintro ⟨rfl, _⟩
          lia
      · rename_i h
        simp only [reduceCtorEq, JsonValue.integer.injEq, false_iff, not_and]
        rintro rfl
        lia
  | null | bool | double | text | list | object => simp [natBelow]

/-- What was decoded is written as the value that it was decoded from. -/
def Undoes (encode : alpha -> JsonValue) (decode : JsonValue -> Except JsonMismatch alpha) : Prop :=
  forall v x, decode v = .ok x -> v = encode x

theorem undoes_asWord32 : Undoes (fun n : Nat => .integer n) asWord32 :=
  fun _ _ h => (natBelow_eq_ok.mp h).1

theorem undoes_asBool : Undoes .bool asBool := by
  intro v x h
  cases v with
  | bool value =>
      cases h
      rfl
  | null | integer | double | text | list | object => cases h

theorem undoes_asText : Undoes .text asText := by
  intro v x h
  cases v with
  | text value =>
      cases h
      rfl
  | null | bool | integer | double | list | object => cases h

theorem Undoes.mapM {items : List JsonValue} {xs : List alpha} (h : Undoes encode decode)
    (hxs : items.mapM decode = .ok xs) : items = xs.map encode := by
  induction items generalizing xs with
  | nil =>
      cases hxs
      rfl
  | cons item items ih =>
      simp only [List.mapM_cons, bind_eq_ok] at hxs
      rcases hxs with ⟨x, hx, ys, hys, heq⟩
      cases heq
      rw [List.map_cons, ← h item x hx, ← ih hys]

theorem Undoes.asList (h : Undoes encode decode) :
    Undoes (fun xs => .list (xs.map encode)) (asList decode) := by
  intro v xs hv
  cases v with
  | list items => exact congrArg JsonValue.list (h.mapM hv)
  | null | bool | integer | double | text | object => cases hv

end JsonValue

namespace TargetConfig

open JsonValue

variable {alpha beta : Type} {members members' : List (String × JsonValue)}
  {decode : JsonValue -> Except JsonMismatch alpha} {encode : alpha -> JsonValue}
  {standard x : alpha} {name : String} {config : TargetConfig}

theorem required_eq_ok :
    required members decode name = .ok x <->
      exists v, member? members name = some v ∧ decode v = .ok x := by
  rw [required]
  cases member? members name with
  | none => simp
  | some v =>
      cases hdecode : decode v with
      | error e => simp [Except.mapError, hdecode]
      | ok y => simp [Except.mapError, hdecode]

theorem optional_eq_ok :
    optional members decode standard name = .ok x <->
      (member? members name = none ∧ x = standard) ∨
        exists v, member? members name = some v ∧ decode v = .ok x := by
  rw [optional]
  cases member? members name with
  | none => simp [eq_comm]
  | some v =>
      cases hdecode : decode v with
      | error e => simp [Except.mapError, hdecode]
      | ok y => simp [Except.mapError, hdecode]

theorem member_of_required (hundoes : Undoes encode decode)
    (h : required members decode name = .ok x) :
    member? members name = some (encode x) := by
  rcases required_eq_ok.mp h with ⟨v, hmember, hv⟩
  rw [hmember, hundoes v x hv]

/-!
## The parts of a configuration
-/

/-- The members and the parts that are decoded from them. -/
structure Decoded (members : List (String × JsonValue)) (kernel : String) (ids : List Nat)
    (more : List (String × List Nat)) (config : TargetConfig) : Prop where
  rows : required members asWord32 "row" = .ok config.settings.rows
  columns : required members asWord32 "column" = .ok config.settings.columns
  targetEntireFunction :
    required members asBool "targetFunction" = .ok config.targetEntireFunction
  kernelName : required members asText "kernel" = .ok kernel
  targetNested : required members asBool "targetNested" = .ok config.targetNested
  targetLoops : required members (asList asWord64) "targetLoopsID" = .ok ids
  isTrimmedDemo : required members asBool "isTrimmedDemo" = .ok config.settings.isTrimmedDemo
  doCgraMapping : required members asBool "doCGRAMapping" = .ok config.settings.doCgraMapping
  isStaticElasticCgra :
    required members asBool "isStaticElasticCGRA" = .ok config.settings.isStaticElasticCgra
  ctrlMemConstraint :
    required members asWord32 "ctrlMemConstraint" = .ok config.settings.ctrlMemConstraint
  bypassConstraint :
    required members asWord32 "bypassConstraint" = .ok config.settings.bypassConstraint
  regConstraint : required members asWord32 "regConstraint" = .ok config.settings.regConstraint
  precisionAware : required members asBool "precisionAware" = .ok config.settings.precisionAware
  vectorizationMode :
    required members asText "vectorizationMode" = .ok config.settings.vectorizationMode
  fusionStrategy :
    required members (asList asText) "fusionStrategy" = .ok config.settings.fusionStrategy
  heuristicMapping :
    required members asBool "heuristicMapping" = .ok config.settings.heuristicMapping
  parameterizableCgra :
    required members asBool "parameterizableCGRA" = .ok config.settings.parameterizableCgra
  classifySubLoopBlocks :
    optional members asBool false "classifySubLoopBlocks" = .ok config.classifySubLoopBlocks
  additional : optional members (asTable (asList asWord64)) [] "additionalKernels" = .ok more
  kernels : config.kernels = ((kernel, ids) :: more).foldl
    (fun kernels entry => kernels.insert entry.1 entry.2) KernelTargets.empty

theorem ofMembers_eq_ok :
    ofMembers members = .ok config <->
      exists kernel ids more, Decoded members kernel ids more config := by
  simp only [ofMembers, bind_eq_ok]
  constructor
  · rintro ⟨more, hmore, bypassConstraint, hbypass, classify, hclassify, columns, hcolumns,
      ctrlMemConstraint, hctrl, doCgraMapping, hdo, fusionStrategy, hfusion, heuristicMapping,
      hheuristic, isStatic, hstatic, isTrimmedDemo, htrimmed, kernel, hkernel, parameterizable,
      hparameterizable, precisionAware, hprecision, regConstraint, hreg, rows, hrows,
      entireFunction, hentire, ids, hids, nested, hnested, vectorizationMode, hvectorization, h⟩
    cases h
    exact ⟨kernel, ids, more, hrows, hcolumns, hentire, hkernel, hnested, hids, htrimmed, hdo,
      hstatic, hctrl, hbypass, hreg, hprecision, hvectorization, hfusion, hheuristic,
      hparameterizable, hclassify, hmore, rfl⟩
  · rintro ⟨kernel, ids, more, h⟩
    refine ⟨more, h.additional, _, h.bypassConstraint, _, h.classifySubLoopBlocks, _, h.columns,
      _, h.ctrlMemConstraint, _, h.doCgraMapping, _, h.fusionStrategy, _, h.heuristicMapping,
      _, h.isStaticElasticCgra, _, h.isTrimmedDemo, kernel, h.kernelName, _, h.parameterizableCgra,
      _, h.precisionAware, _, h.regConstraint, _, h.rows, _, h.targetEntireFunction,
      ids, h.targetLoops, _, h.targetNested, _, h.vectorizationMode, ?_⟩
    rw [← h.kernels]
    rfl

/-!
## Faults
-/

def OnlyMismatch (answer : Except ConfigError alpha) : Prop :=
  forall error, answer = .error error -> exists m, error = .mismatch m

theorem OnlyMismatch.ok (x : alpha) : OnlyMismatch (.ok x) := by
  intro error h
  cases h

theorem OnlyMismatch.bind {answer : Except ConfigError alpha}
    {f : alpha -> Except ConfigError beta} (h : OnlyMismatch answer)
    (hf : forall x, OnlyMismatch (f x)) : OnlyMismatch (answer >>= f) := by
  cases answer with
  | error e =>
      intro error herror
      cases herror
      exact h e rfl
  | ok x => exact hf x

theorem OnlyMismatch.mapError (answer : Except JsonMismatch alpha) :
    OnlyMismatch (answer.mapError .mismatch) := by
  intro error h
  cases answer with
  | error m =>
      cases h
      exact ⟨m, rfl⟩
  | ok x => cases h

theorem onlyMismatch_required (h : (member? members name).isSome) :
    OnlyMismatch (required members decode name) := by
  rcases Option.isSome_iff_exists.mp h with ⟨v, hv⟩
  rw [required, hv]
  exact OnlyMismatch.mapError _

theorem onlyMismatch_optional : OnlyMismatch (optional members decode standard name) := by
  rw [optional]
  split
  · exact OnlyMismatch.ok _
  · exact OnlyMismatch.mapError _

/-- Once the required members are there, decoding stops only at a value of a wrong kind. -/
theorem onlyMismatch_ofMembers
    (h : forall name, name ∈ requiredMembers -> (member? members name).isSome) :
    OnlyMismatch (ofMembers members) := by
  have hrequired {alpha : Type} {decode : JsonValue -> Except JsonMismatch alpha} {name : String}
      (hname : name ∈ requiredMembers) : OnlyMismatch (required members decode name) :=
    onlyMismatch_required (h name hname)
  unfold ofMembers
  repeat' refine OnlyMismatch.bind ?_ fun _ => ?_
  all_goals first
    | exact hrequired (by decide)
    | exact onlyMismatch_optional
    | exact OnlyMismatch.ok _

/-!
## Other members
-/

/-- The members that are looked at. -/
def knownMembers : List String :=
  requiredMembers ++ ["classifySubLoopBlocks", "additionalKernels"]

theorem ofMembers_congr
    (h : forall name, name ∈ knownMembers -> member? members name = member? members' name) :
    ofMembers members = ofMembers members' := by
  have hrequired {alpha : Type} (decode : JsonValue -> Except JsonMismatch alpha) (name : String)
      (hname : name ∈ knownMembers) :
      required members decode name = required members' decode name := by
    rw [required, required, h name hname]
  have hoptional {alpha : Type} (decode : JsonValue -> Except JsonMismatch alpha) (standard : alpha)
      (name : String) (hname : name ∈ knownMembers) :
      optional members decode standard name = optional members' decode standard name := by
    rw [optional, optional, h name hname]
  simp (disch := decide) only [ofMembers, hrequired, hoptional]

/-- The answer depends on the known members only. -/
theorem ofJson_object_congr
    (h : forall name, name ∈ knownMembers -> member? members name = member? members' name) :
    ofJson (.object members) = ofJson (.object members') := by
  have hmissing : missingMember? members = missingMember? members' := by
    apply List.find?_congr
    intro name hname
    rw [h name (List.mem_append_left _ hname)]
  rw [ofJson, ofJson, hmissing, ofMembers_congr h]

theorem ofText_eq_ok {text : String} (h : ofText text = .ok config) :
    exists members kernel ids more, JsonValue.read text = .ok (.object members) ∧
      Decoded members kernel ids more config := by
  unfold ofText at h
  split at h
  · cases h
  rename_i v hread
  unfold ofJson at h
  split at h
  · rename_i members
    split at h
    · cases h
    · rcases ofMembers_eq_ok.mp h with ⟨kernel, ids, more, hdecoded⟩
      exact ⟨members, kernel, ids, more, hread, hdecoded⟩
  · cases h

end TargetConfig
end LoopNest
