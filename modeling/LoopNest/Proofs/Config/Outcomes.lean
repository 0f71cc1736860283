import LoopNest.Proofs.Config.Shapes
import LoopNest.Proofs.Json.Documents
import LoopNest.Proofs.Json.Limits
import LoopNest.Proofs.Json.Writing

/-!
# Outcomes of loading a configuration

Which of its outcomes loading has is decided by the document alone: whether there is one, whether it
is an object, which required member it lacks first, and whether every member that is looked at has
the shape that is asked for.
-/

namespace LoopNest
namespace TargetConfig

open JsonValue JsonTree

variable {alpha : Type} {decode : JsonValue -> Except JsonMismatch alpha} {Shape : JsonTree -> Prop}
  {standard : alpha} {depth : Nat} {name text : String} {tree : JsonTree} {v : JsonValue}
  {trees : List (String × JsonTree)} {table : List (String × JsonValue)}

/-!
## The table of members
-/

def requiredShapes : List (String × (JsonTree -> Prop)) :=
  [ ("row", IsNatural (Nat.pow 2 32)), ("column", IsNatural (Nat.pow 2 32)),
    ("targetFunction", IsFlag), ("kernel", IsText), ("targetNested", IsFlag),
    ("targetLoopsID", IsListOf (IsNatural (Nat.pow 2 64))), ("isTrimmedDemo", IsFlag),
    ("doCGRAMapping", IsFlag), ("isStaticElasticCGRA", IsFlag),
    ("ctrlMemConstraint", IsNatural (Nat.pow 2 32)),
    ("bypassConstraint", IsNatural (Nat.pow 2 32)), ("regConstraint", IsNatural (Nat.pow 2 32)),
    ("precisionAware", IsFlag), ("vectorizationMode", IsText),
    ("fusionStrategy", IsListOf IsText), ("heuristicMapping", IsFlag),
    ("parameterizableCGRA", IsFlag) ]

def optionalShapes : List (String × (JsonTree -> Prop)) :=
  [ ("classifySubLoopBlocks", IsFlag),
    ("additionalKernels", IsTableOf (IsListOf (IsNatural (Nat.pow 2 64)))) ]

/-- Every member that is looked at has its shape. -/
structure Accepted (members : List (String × JsonTree)) : Prop where
  required : forall entry, entry ∈ requiredShapes ->
    exists tree, last? members entry.1 = some tree ∧ entry.2 tree
  optional : forall entry, entry ∈ optionalShapes ->
    forall tree, last? members entry.1 = some tree -> entry.2 tree

/-!
## Decoding a document
-/

/-- The members of the table are the values of the members written last. -/
def Holds (depth : Nat) (trees : List (String × JsonTree)) (table : List (String × JsonValue)) :
    Prop :=
  forall name, (member? table name).map some = (last? trees name).map (value? depth)

theorem required_isOk (h : Holds depth trees table) (hfits : Fits decode Shape) :
    (exists x, required table decode name = .ok x) <->
      exists tree, last? trees name = some tree ∧ Shape tree := by
  have hname := h name
  simp only [required_eq_ok]
  constructor
  · rintro ⟨x, v, hmember, hx⟩
    rw [hmember, Option.map_some] at hname
    rcases Option.map_eq_some_iff.mp hname.symm with ⟨tree, htree, hvalue⟩
    exact ⟨tree, htree, (hfits hvalue).mp ⟨x, hx⟩⟩
  · rintro ⟨tree, htree, hshape⟩
    rw [htree, Option.map_some] at hname
    rcases Option.map_eq_some_iff.mp hname with ⟨v, hmember, hvalue⟩
    rcases (hfits hvalue.symm).mpr hshape with ⟨x, hx⟩
    exact ⟨x, v, hmember, hx⟩

theorem optional_isOk (h : Holds depth trees table) (hfits : Fits decode Shape) :
    (exists x, optional table decode standard name = .ok x) <->
      forall tree, last? trees name = some tree -> Shape tree := by
  have hname := h name
  cases hlast : last? trees name with
  | none =>
      rw [hlast, Option.map_none, Option.map_eq_none_iff] at hname
      exact iff_of_true ⟨standard, optional_eq_ok.mpr (Or.inl ⟨hname, rfl⟩)⟩ (by simp)
  | some tree =>
      rw [hlast, Option.map_some] at hname
      rcases Option.map_eq_some_iff.mp hname with ⟨v, hmember, hvalue⟩
      simp only [optional_eq_ok, hmember, reduceCtorEq, false_and, false_or, Option.some.injEq,
        exists_eq_left', forall_eq']
      exact hfits hvalue.symm

theorem bind_isOk {epsilon alpha beta : Type} {x : Except epsilon alpha}
    {f : alpha -> Except epsilon beta} :
    (exists b, (x >>= f) = .ok b) <-> exists a, x = .ok a ∧ exists b, f a = .ok b := by
  simp only [bind_eq_ok]
  constructor
  · rintro ⟨b, a, hx, hf⟩
    exact ⟨a, hx, b, hf⟩
  · rintro ⟨a, hx, b, hf⟩
    exact ⟨b, a, hx, hf⟩

theorem pure_isOk {epsilon alpha : Type} (x : alpha) :
    exists b, (pure x : Except epsilon alpha) = .ok b :=
  ⟨x, rfl⟩

/-- Members are decoded in the order of their names, and the first fault stops decoding.  Whether
there is a fault at all does not depend on the order. -/
theorem ofMembers_isOk (h : Holds depth trees table) :
    (exists config, ofMembers table = .ok config) <-> Accepted trees := by
  have hword : Fits asWord32 (IsNatural (Nat.pow 2 32)) := fits_natBelow (by decide) _
  have hids : Fits (asList asWord64) (IsListOf (IsNatural (Nat.pow 2 64))) :=
    fits_asList (fits_natBelow (Nat.le_refl _) _)
  have htexts : Fits (asList asText) (IsListOf IsText) := fits_asList fits_asText
  simp only [ofMembers, bind_isOk, pure_isOk, and_true, exists_and_right, required_isOk h hword,
    required_isOk h hids, required_isOk h htexts, required_isOk h fits_asBool,
    required_isOk h fits_asText, optional_isOk h fits_asBool, optional_isOk h (fits_asTable hids)]
  constructor
  · rintro ⟨hmore, hbypass, hclassify, hcolumn, hctrl, hmapping, hfusion, hheuristic, hstatic,
      htrimmed, hkernel, hparameterizable, hprecision, hreg, hrow, hentire, htargets, hnested,
      hmode⟩
    constructor
    · simp only [requiredShapes, List.forall_mem_cons, List.not_mem_nil, false_implies,
        implies_true, and_true]
      exact ⟨hrow, hcolumn, hentire, hkernel, hnested, htargets, htrimmed, hmapping, hstatic, hctrl,
        hbypass, hreg, hprecision, hmode, hfusion, hheuristic, hparameterizable⟩
    · simp only [optionalShapes, List.forall_mem_cons, List.not_mem_nil, false_implies,
        implies_true, and_true]
      exact ⟨hclassify, hmore⟩
  · rintro ⟨hrequired, hoptional⟩
    simp only [requiredShapes, List.forall_mem_cons, List.not_mem_nil, false_implies,
      implies_true, and_true] at hrequired
    simp only [optionalShapes, List.forall_mem_cons, List.not_mem_nil, false_implies,
      implies_true, and_true] at hoptional
    rcases hrequired with ⟨hrow, hcolumn, hentire, hkernel, hnested, htargets, htrimmed, hmapping,
      hstatic, hctrl, hbypass, hreg, hprecision, hmode, hfusion, hheuristic, hparameterizable⟩
    exact ⟨hoptional.2, hbypass, hoptional.1, hcolumn, hctrl, hmapping, hfusion, hheuristic,
      hstatic, htrimmed, hkernel, hparameterizable, hprecision, hreg, hrow, hentire, htargets,
      hnested, hmode⟩

/-!
## Loading a text
-/

/-- The first required member that an object lacks. -/
def firstMissing? (members : List (String × JsonTree)) : Option String :=
  requiredMembers.find? fun name => (last? members name).isNone

theorem missingMember?_eq (h : Holds depth trees table) :
    missingMember? table = firstMissing? trees := by
  apply List.find?_congr
  intro name _
  have hname := congrArg Option.isNone (h name)
  rwa [Option.isNone_map, Option.isNone_map] at hname

theorem ofText_of_document (h : DocumentText text.toList tree)
    (hv : tree.value? JsonReader.greatestDepth = some v) : ofText text = ofJson v := by
  rw [ofText, JsonValue.read_eq_ok.mpr ⟨tree, h, hv⟩]

theorem holds_of_document (h : DocumentText text.toList (.object trees))
    (hv : (value? JsonReader.greatestDepth (.object trees)).isSome) :
    exists table, Holds 126 trees table ∧ ofText text = ofJson (.object table) := by
  rcases Option.isSome_iff_exists.mp hv with ⟨v, hv⟩
  have hdepth : value? (126 + 1) (.object trees) = some v := hv
  rcases members_of_value hdepth with ⟨table, rfl, _, hholds⟩
  exact ⟨table, hholds, ofText_of_document h hv⟩

theorem ofJson_of_missing (h : missingMember? table = some name) :
    ofJson (.object table) = .error (.missingMember name) := by
  rw [ofJson, h]

theorem ofJson_of_complete (h : missingMember? table = none) :
    ofJson (.object table) = ofMembers table := by
  rw [ofJson, h]

theorem onlyMismatch_of_complete (h : missingMember? table = none) :
    OnlyMismatch (ofMembers table) := by
  apply onlyMismatch_ofMembers
  intro name hname
  have hnot := List.find?_eq_none.mp h name hname
  rwa [Bool.not_eq_true, Option.isNone_eq_false_iff] at hnot

/-- The outcome of loading a text.  A text is malformed unless it is a document within the limits of
the reader; a document is refused unless it is an object that has every required member in the shape
that is asked for.  Other members do not count, nor does the order of members, and of a name written
twice the last member counts. -/
theorem ofText_outcome (text : String) :
    ((¬ exists tree, DocumentText text.toList tree ∧ tree.Within JsonReader.greatestDepth) ->
      exists error, ofText text = .error (.malformed error)) ∧
    forall tree, DocumentText text.toList tree -> tree.Within JsonReader.greatestDepth ->
      ((forall members, tree ≠ .object members) -> ofText text = .error .notAnObject) ∧
      forall members, tree = .object members ->
        (forall name, firstMissing? members = some name ->
          ofText text = .error (.missingMember name)) ∧
        (firstMissing? members = none ->
          ((exists config, ofText text = .ok config) <-> Accepted members) ∧
          (¬ Accepted members -> exists m, ofText text = .error (.mismatch m))) ∧
        forall other members', DocumentText other.toList (.object members') ->
          Within JsonReader.greatestDepth (.object members') ->
          (forall name, name ∈ knownMembers ->
            Option.Rel Alike (last? members name) (last? members' name)) ->
          ofText other = ofText text := by
  constructor
  · intro hnone
    cases hread : JsonValue.read text with
    | error error => exact ⟨error, by rw [ofText, hread]⟩
    | ok v =>
        rcases JsonValue.read_eq_ok.mp hread with ⟨tree, htree, hv⟩
        exact absurd ⟨tree, htree, value?_isSome.mp (by rw [hv]; rfl)⟩ hnone
  intro tree htree hwithin
  have hsome := value?_isSome.mpr hwithin
  constructor
  · intro hobject
    rcases Option.isSome_iff_exists.mp hsome with ⟨v, hv⟩
    rw [ofText_of_document htree hv]
    cases kind_of_value hv with
    | object members table => exact absurd rfl (hobject members)
    | null | bool | integer | double | text | list => rfl
  rintro members rfl
  rcases holds_of_document htree hsome with ⟨table, hholds, htext⟩
  rw [htext, ← missingMember?_eq hholds]
  refine ⟨fun name => ofJson_of_missing, fun hmissing => ?_, ?_⟩
  · rw [ofJson_of_complete hmissing, ofMembers_isOk hholds]
    refine ⟨Iff.rfl, fun hnot => ?_⟩
    cases hresult : ofMembers table with
    | ok config => exact absurd ((ofMembers_isOk hholds).mp ⟨config, hresult⟩) hnot
    | error error =>
        rcases onlyMismatch_of_complete hmissing error hresult with ⟨m, rfl⟩
        exact ⟨m, rfl⟩
  · intro other members' hother hwithin' halike
    rcases holds_of_document hother (value?_isSome.mpr hwithin') with ⟨table', hholds', hother⟩
    rw [hother]
    apply ofJson_object_congr
    intro name hname
    exact (member_eq_of_alike (halike name hname) value_eq_of_alike (hholds name)
      (hholds' name)).symm

/-!
## Two members of one name
-/

/-- A parameter document with two members named `row`, of which the second is a number. -/
def parameters (row strategy : JsonValue) : JsonValue :=
  .object [
    ("row", row), ("row", .integer 4), ("column", .integer 8), ("targetFunction", .bool true),
    ("kernel", .text "f"), ("targetNested", .bool false), ("targetLoopsID", .list [.integer 0]),
    ("isTrimmedDemo", .bool true), ("doCGRAMapping", .bool false),
    ("isStaticElasticCGRA", .bool false), ("ctrlMemConstraint", .integer 200),
    ("bypassConstraint", .integer 4), ("regConstraint", .integer 8),
    ("precisionAware", .bool false), ("vectorizationMode", .text "all"),
    ("fusionStrategy", strategy), ("heuristicMapping", .bool true),
    ("parameterizableCGRA", .bool false), ("note", .list [.null])]

theorem document_parameters (row strategy : JsonValue) (hrow : Writable 126 row)
    (hstrategy : Writable 126 strategy) :
    DocumentText (parameters row strategy).display.toList (parameters row strategy).tree ∧
      (parameters row strategy).tree.Within JsonReader.greatestDepth := by
  have hwritable : Writable (126 + 1) (parameters row strategy) := by
    simp [parameters, Writable, hrow, hstrategy]
  rcases documentText_display hwritable with ⟨hdocument, hvalue⟩
  exact ⟨hdocument, value?_isSome.mp (by rw [hvalue]; rfl)⟩

/-- Only the last of two members counts, even if the first has another shape.  A member that is
looked at must have its shape. -/
theorem ofText_parameters :
    (exists config,
      ofText (parameters (.text "four") (.list [.text "chain"])).display = .ok config) ∧
    exists m, ofText (parameters (.integer 4) (.text "chain")).display = .error (.mismatch m) := by
  constructor
  · rcases document_parameters (.text "four") (.list [.text "chain"]) (by simp [Writable])
      (by simp [Writable]) with ⟨hdocument, hwithin⟩
    have houtcome := ((ofText_outcome _).2 _ hdocument hwithin).2 _ rfl
    apply (houtcome.2.1 rfl).1.mpr
    have hnatural {n bound : Nat} (h : n < bound) : IsNatural bound (JsonValue.tree (.integer n)) :=
      ⟨_, rfl, by rwa [Int.natAbs_natCast, Decimal.ofDigits_toDigits]⟩
    have hflag (value : Bool) : IsFlag (JsonValue.tree (.bool value)) := ⟨value, rfl⟩
    have htext (value : String) : IsText (JsonValue.tree (.text value)) := ⟨value, rfl⟩
    have hlist {Item : JsonTree -> Prop} {v : JsonValue} (h : Item v.tree) :
        IsListOf Item (JsonValue.tree (.list [v])) :=
      ⟨[v.tree], rfl, by simpa [JsonValue.treeItems] using h⟩
    constructor
    · simp only [requiredShapes, List.forall_mem_cons, List.not_mem_nil, false_implies,
        implies_true, and_true]
      exact ⟨⟨_, rfl, hnatural (n := 4) (by decide)⟩, ⟨_, rfl, hnatural (n := 8) (by decide)⟩,
        ⟨_, rfl, hflag _⟩, ⟨_, rfl, htext _⟩, ⟨_, rfl, hflag _⟩,
        ⟨_, rfl, hlist (hnatural (n := 0) (by decide))⟩, ⟨_, rfl, hflag _⟩, ⟨_, rfl, hflag _⟩,
        ⟨_, rfl, hflag _⟩, ⟨_, rfl, hnatural (n := 200) (by decide)⟩,
        ⟨_, rfl, hnatural (n := 4) (by decide)⟩, ⟨_, rfl, hnatural (n := 8) (by decide)⟩,
        ⟨_, rfl, hflag _⟩, ⟨_, rfl, htext _⟩, ⟨_, rfl, hlist (htext _)⟩, ⟨_, rfl, hflag _⟩,
        ⟨_, rfl, hflag _⟩⟩
    · simp only [optionalShapes, List.forall_mem_cons, List.not_mem_nil, false_implies,
        implies_true, and_true]
      constructor
      · intro tree htree
        cases htree
      · intro tree htree
        cases htree
  · rcases document_parameters (.integer 4) (.text "chain") (by simp [Writable])
      (by simp [Writable]) with ⟨hdocument, hwithin⟩
    have houtcome := ((ofText_outcome _).2 _ hdocument hwithin).2 _ rfl
    apply (houtcome.2.1 rfl).2
    intro haccepted
    have hmem : ("fusionStrategy", IsListOf IsText) ∈ requiredShapes := by
      simp [requiredShapes]
    rcases haccepted.required _ hmem with ⟨tree, htree, items, rfl, _⟩
    cases htree

/-!
## Deep nesting
-/

/-- Lists around an empty list. -/
def brackets (depth : Nat) : List Char :=
  List.replicate (depth + 1) '[' ++ List.replicate (depth + 1) ']'

/-- The tree of lists around an empty list. -/
def nest : (depth : Nat) -> JsonTree
  | 0 => .list []
  | depth + 1 => .list [nest depth]

theorem valueText_brackets (depth : Nat) : ValueText (brackets depth) (nest depth) := by
  induction depth with
  | zero => exact ValueText.emptyList blanks_nil
  | succ depth ih =>
      have hitem : ElementText ValueText (brackets depth) (nest depth) := by
        simpa using ElementText.mk blanks_nil ih blanks_nil
      have hlist := ValueText.list (Separated.one hitem)
      have heq : brackets (depth + 1) = '[' :: (brackets depth ++ [']']) := by
        rw [brackets, brackets, List.replicate_succ, List.cons_append, List.append_assoc,
          ← List.replicate_succ' (n := depth + 1)]
      rw [heq]
      exact hlist

/-- The reader stops at the bracket that is one too many. -/
theorem nested_tooDeep (depth : Nat) (cs : List Char) :
    (JsonReader.nested depth).read (List.replicate (depth + 1) '[' ++ cs) =
      .error (JsonFault.tooDeep.on ('[' :: cs)) := by
  have hblank : JsonReader.isBlank '[' = false := by decide
  have hskip (rest : List Char) : JsonReader.skip ('[' :: rest) = '[' :: rest :=
    JsonReader.skip_of_stops (stops_cons.mpr hblank)
  induction depth with
  | zero =>
      show JsonReader.readFlat ('[' :: cs) = _
      rw [JsonReader.readFlat, hskip]
      rfl
  | succ depth ih =>
      have hfront : List.replicate (depth + 1) '[' ++ cs =
          '[' :: (List.replicate depth '[' ++ cs) := rfl
      show JsonReader.readWith _ ('[' :: (List.replicate (depth + 1) '[' ++ cs)) = _
      rw [JsonReader.readWith, hskip]
      simp only [JsonReader.list, hfront, hskip]
      rw [← hfront, ih]
      rfl

/-- A list is no object, but one that is nested too deeply is not even seen to be a document. -/
theorem ofText_brackets :
    DocumentText (String.ofList (brackets JsonReader.greatestDepth)).toList
        (nest JsonReader.greatestDepth) ∧
      (forall members, nest JsonReader.greatestDepth ≠ .object members) ∧
      exists error, ofText (String.ofList (brackets JsonReader.greatestDepth)) =
        .error (.malformed error) := by
  have hdocument :=
    ElementText.mk blanks_nil (valueText_brackets JsonReader.greatestDepth) blanks_nil
  rw [List.nil_append, List.append_nil] at hdocument
  have hread := nested_tooDeep JsonReader.greatestDepth
    (List.replicate (JsonReader.greatestDepth + 1) ']')
  refine ⟨?_, ?_, ?_⟩
  · rw [String.toList_ofList]
    exact hdocument
  · intro members h
    cases h
  · have hall : JsonReader.readAll (brackets JsonReader.greatestDepth) =
        .error (JsonFault.tooDeep.on
          ('[' :: List.replicate (JsonReader.greatestDepth + 1) ']')) := by
      rw [JsonReader.readAll, brackets, hread]
      rfl
    exact ⟨_, by rw [ofText, JsonValue.read, String.toList_ofList, hall]; rfl⟩

end TargetConfig
end LoopNest
