import LoopNest.Proofs.Config.Decoding
import LoopNest.Proofs.Json.Writing
import LoopNest.Proofs.Text.Bytes
import LoopNest.Selection
import Mathlib.Data.List.Induction
import Mathlib.Data.List.Perm.Basic
import Mathlib.Logic.Relation

/-!
# Kernels as unions

Kernels are added call by call.  What a sequence of calls leads to is the union of the calls: a name
is a kernel if some call has it, and its numbers are those that the calls pass with it.  Neither the
order of the calls nor the way in which the numbers are spread over them can be told afterwards, and
a selection sees nothing else of the kernels.
-/

namespace LoopNest

/-!
## Sets and tables
-/

namespace Ordered

variable {alpha : Type} {key name : String} {f : Option alpha -> alpha}
  {entries : List (String × alpha)} {xs ys set : List Nat} {x : Nat}

theorem mem_insertAll : x ∈ insertAll xs set <-> x ∈ xs ∨ x ∈ set := by
  induction xs generalizing set with
  | nil => simp [insertAll]
  | cons y xs ih =>
      show x ∈ insertAll xs (insert y set) <-> _
      rw [ih, mem_insert, List.mem_cons, or_left_comm, or_assoc]

theorem eq_of_mem_iff (hxs : xs.Pairwise (· < ·)) (hys : ys.Pairwise (· < ·))
    (h : forall x, x ∈ xs <-> x ∈ ys) : xs = ys := by
  have hperm := (List.perm_ext_iff_of_nodup (hxs.imp Nat.ne_of_lt) (hys.imp Nat.ne_of_lt)).mpr h
  exact hperm.eq_of_pairwise (fun a b _ _ hab hba => absurd hab (Nat.lt_asymm hba)) hxs hys

theorem lookup_alter (h : (entries.map Prod.fst).Pairwise (· < ·)) :
    (alter key f entries).lookup name =
      if name = key then some (f (entries.lookup key)) else entries.lookup name := by
  induction entries with
  | nil => rw [alter, lookup_cons, List.lookup_nil, List.lookup_nil]
  | cons entry entries ih =>
      rcases entry with ⟨k, x⟩
      have hrest := List.pairwise_cons.mp h
      rw [alter]
      split
      · rename_i hlt
        -- the key is below all others, so it had no entry
        have hnone : ((k, x) :: entries).lookup key = none := by
          apply lookup_eq_none_of_lt
          rw [List.map_cons, List.forall_mem_cons]
          exact ⟨hlt, fun l hl => String.lt_trans hlt (hrest.1 l hl)⟩
        rw [lookup_cons, hnone]
      · split
        · rename_i heq
          subst heq
          rw [lookup_cons, lookup_cons, lookup_cons, if_pos rfl]
          split
          · rfl
          · rfl
        · rename_i hne
          rw [lookup_cons, ih hrest.2, lookup_cons, lookup_cons, if_neg hne]
          split
          · rename_i heq
            rw [if_neg (heq ▸ Ne.symm hne)]
          · rfl

end Ordered

namespace KernelTargets

variable {kernels kernels' : KernelTargets} {name other : String} {ids : List Nat}
  {calls calls' : List (String × List Nat)} {x : Nat}

theorem loopIds?_insert :
    (kernels.insert name ids).loopIds? other =
      if other = name then some (Ordered.insertAll ids ((kernels.loopIds? name).getD []))
      else kernels.loopIds? other :=
  Ordered.lookup_alter kernels.sorted_names

theorem mem_names : name ∈ kernels.names <-> kernels.loopIds? name ≠ none := by
  rw [names, loopIds?, Ne, List.lookup_eq_none_iff, List.mem_map]
  constructor
  · intro hcase hnone
    rcases hcase with ⟨entry, hentry, rfl⟩
    exact bne_iff_ne.mp (hnone entry hentry) rfl
  · intro hnone
    by_contra hname
    apply hnone
    intro entry hentry
    rw [bne_iff_ne]
    intro heq
    exact hname ⟨entry, hentry, heq.symm⟩

theorem eq_of_loopIds? (h : forall name, kernels.loopIds? name = kernels'.loopIds? name) :
    kernels = kernels' := by
  have hentries := Ordered.eq_of_lookup_eq kernels.sorted_names kernels'.sorted_names h
  cases kernels
  cases kernels'
  cases hentries
  rfl

/-!
## Calls
-/

def ofCalls (calls : List (String × List Nat)) : KernelTargets :=
  calls.foldl (fun kernels call => kernels.insert call.1 call.2) empty

def Named (calls : List (String × List Nat)) (name : String) : Prop :=
  exists ids, (name, ids) ∈ calls

def Passed (calls : List (String × List Nat)) (name : String) (x : Nat) : Prop :=
  exists ids, (name, ids) ∈ calls ∧ x ∈ ids

/-- The kernels are the union of the calls. -/
structure IsUnion (calls : List (String × List Nat)) (kernels : KernelTargets) : Prop where
  loopIds?_eq_none : forall name, kernels.loopIds? name = none <-> ¬ Named calls name
  mem_loopIds : forall name ids, kernels.loopIds? name = some ids ->
    forall x, x ∈ ids <-> Passed calls name x

/-- The names of the kernels and the numbers of each kernel are in order, without repetitions.
Names are compared by their bytes. -/
structure Increasing (kernels : KernelTargets) : Prop where
  names : kernels.names.Pairwise fun name other => Text.utf8 name < Text.utf8 other
  loopIds : forall name ids, kernels.loopIds? name = some ids -> ids.Pairwise (· < ·)

/-- Calls with the same union. -/
structure SameUnion (calls calls' : List (String × List Nat)) : Prop where
  named : forall name, Named calls name <-> Named calls' name
  passed : forall name x, Passed calls name x <-> Passed calls' name x

/-- Ways to arrange calls anew. -/
inductive Rearranges : (calls calls' : List (String × List Nat)) -> Prop where
  | permuted {calls calls' : List (String × List Nat)} :
      calls.Perm calls' -> Rearranges calls calls'
  | repeated {call : String × List Nat} {calls : List (String × List Nat)} :
      call ∈ calls -> Rearranges calls (call :: calls)
  | divided (name : String) (xs ys : List Nat) (calls : List (String × List Nat)) :
      Rearranges ((name, xs ++ ys) :: calls) ((name, xs) :: (name, ys) :: calls)
  | reordered (name : String) {xs ys : List Nat} (calls : List (String × List Nat)) :
      (forall x, x ∈ xs <-> x ∈ ys) -> Rearranges ((name, xs) :: calls) ((name, ys) :: calls)

theorem increasing (kernels : KernelTargets) : kernels.Increasing where
  names := kernels.sorted_names.imp Text.utf8_lt
  loopIds := fun _ _ => sorted_loopIds?

theorem ofCalls_concat (calls : List (String × List Nat)) (call : String × List Nat) :
    ofCalls (calls ++ [call]) = (ofCalls calls).insert call.1 call.2 := by
  rw [ofCalls, List.foldl_append]
  rfl

theorem not_named_nil : ¬ Named [] name := by
  simp [Named]

theorem named_cons : Named ((name, ids) :: calls) other <-> other = name ∨ Named calls other := by
  simp [Named, exists_or]

theorem passed_cons :
    Passed ((name, ids) :: calls) other x <-> (other = name ∧ x ∈ ids) ∨ Passed calls other x := by
  simp only [Passed, List.mem_cons, Prod.mk.injEq, or_and_right, exists_or]
  simp

theorem named_concat :
    Named (calls ++ [(name, ids)]) other <-> other = name ∨ Named calls other := by
  simp [Named, exists_or, or_comm]

theorem passed_concat :
    Passed (calls ++ [(name, ids)]) other x <->
      (other = name ∧ x ∈ ids) ∨ Passed calls other x := by
  rw [← passed_cons]
  simp [Passed, or_comm]

theorem Passed.named (h : Passed calls name x) : Named calls name := by
  rcases h with ⟨ids, hids, _⟩
  exact ⟨ids, hids⟩

/-!
## The union of the calls
-/

theorem isUnion_empty : IsUnion [] empty where
  loopIds?_eq_none := fun _ => iff_of_true rfl not_named_nil
  mem_loopIds := by
    intro name ids hids
    cases hids

/-- One more call adds its name and its numbers. -/
theorem IsUnion.insert (h : IsUnion calls kernels) (name : String) (ids : List Nat) :
    IsUnion (calls ++ [(name, ids)]) (kernels.insert name ids) where
  loopIds?_eq_none := by
    intro other
    rw [loopIds?_insert, named_concat, not_or]
    split
    · rename_i heq
      simp [heq]
    · rename_i hne
      rw [h.loopIds?_eq_none other]
      simp [hne]
  mem_loopIds := by
    intro other set hset x
    rw [loopIds?_insert] at hset
    rw [passed_concat]
    split at hset
    · rename_i heq
      subst heq
      cases hset
      rw [Ordered.mem_insertAll]
      cases hold : kernels.loopIds? other with
      | none =>
          have hnot : ¬ Passed calls other x := mt Passed.named ((h.loopIds?_eq_none other).mp hold)
          simp [hnot]
      | some old => simp [h.mem_loopIds other old hold x]
    · rename_i hne
      rw [h.mem_loopIds other set hset x]
      simp [hne]

theorem isUnion_ofCalls (calls : List (String × List Nat)) : IsUnion calls (ofCalls calls) := by
  induction calls using List.reverseRecOn with
  | nil => exact isUnion_empty
  | append_singleton calls call ih =>
      rw [ofCalls_concat]
      exact ih.insert call.1 call.2

namespace IsUnion

variable (h : IsUnion calls kernels)
include h

theorem named_iff : Named calls name <-> kernels.loopIds? name ≠ none :=
  (not_iff_comm.mp (h.loopIds?_eq_none name).symm).symm

theorem passed_iff :
    Passed calls name x <-> exists ids, kernels.loopIds? name = some ids ∧ x ∈ ids := by
  constructor
  · intro hpassed
    rcases Option.ne_none_iff_exists'.mp (h.named_iff.mp hpassed.named) with ⟨ids, hids⟩
    exact ⟨ids, hids, (h.mem_loopIds name ids hids x).mpr hpassed⟩
  · intro hcase
    rcases hcase with ⟨ids, hids, hx⟩
    exact (h.mem_loopIds name ids hids x).mp hx

theorem sameUnion (h' : IsUnion calls' kernels) : SameUnion calls calls' where
  named := fun _ => h.named_iff.trans h'.named_iff.symm
  passed := fun _ _ => h.passed_iff.trans h'.passed_iff.symm

/-- The union determines the kernels. -/
theorem eq_of_sameUnion (h' : IsUnion calls' kernels') (hsame : SameUnion calls calls') :
    kernels = kernels' := by
  apply eq_of_loopIds?
  intro name
  have hnone : kernels.loopIds? name = none <-> kernels'.loopIds? name = none := by
    rw [h.loopIds?_eq_none, h'.loopIds?_eq_none, hsame.named]
  cases hids : kernels.loopIds? name with
  | none => rw [hnone.mp hids]
  | some ids =>
      rcases Option.ne_none_iff_exists'.mp (mt hnone.mpr (hids ▸ Option.some_ne_none ids)) with
        ⟨ids', hids'⟩
      rw [hids', Ordered.eq_of_mem_iff (sorted_loopIds? hids) (sorted_loopIds? hids')]
      intro x
      rw [h.mem_loopIds name ids hids, h'.mem_loopIds name ids' hids', hsame.passed]

end IsUnion

theorem ofCalls_eq_iff : ofCalls calls = ofCalls calls' <-> SameUnion calls calls' := by
  constructor
  · intro heq
    exact (isUnion_ofCalls calls).sameUnion (heq ▸ isUnion_ofCalls calls')
  · exact (isUnion_ofCalls calls).eq_of_sameUnion (isUnion_ofCalls calls')

/-!
## Rearranged calls
-/

theorem Rearranges.sameUnion (h : Rearranges calls calls') : SameUnion calls calls' := by
  cases h with
  | permuted hperm => exact ⟨fun _ => by simp [Named, hperm.mem_iff],
      fun _ _ => by simp [Passed, hperm.mem_iff]⟩
  | repeated hcall =>
      rename_i call
      rcases call with ⟨name, ids⟩
      constructor
      · intro other
        rw [named_cons]
        refine ⟨Or.inr, fun hcase => hcase.elim (fun heq => heq ▸ ⟨ids, hcall⟩) id⟩
      · intro other x
        rw [passed_cons]
        refine ⟨Or.inr, fun hcase => hcase.elim (fun hx => hx.1 ▸ ⟨ids, hcall, hx.2⟩) id⟩
  | divided name xs ys calls =>
      constructor
      · intro other
        rw [named_cons, named_cons, named_cons, ← or_assoc, or_self]
      · intro other x
        rw [passed_cons, passed_cons, passed_cons, List.mem_append, and_or_left, or_assoc]
  | reordered name calls hxs =>
      constructor
      · intro other
        rw [named_cons, named_cons]
      · intro other x
        rw [passed_cons, passed_cons, hxs]

/-- However often calls are arranged anew, the kernels stay the same. -/
theorem ofCalls_eq_of_rearranged (h : Relation.EqvGen Rearranges calls calls') :
    ofCalls calls = ofCalls calls' := by
  induction h with
  | rel _ _ hstep => exact ofCalls_eq_iff.mpr hstep.sameUnion
  | refl _ => rfl
  | symm _ _ _ ih => exact ih.symm
  | trans _ _ _ _ _ ih ih' => exact ih.trans ih'

end KernelTargets

/-!
## Kernels of a parameter file
-/

namespace JsonValue

variable {alpha : Type} {decode : JsonValue -> Except JsonMismatch alpha}
  {encode : alpha -> JsonValue}

theorem undoes_asWord64 : Undoes (fun n : Nat => .integer n) asWord64 :=
  fun _ _ h => (natBelow_eq_ok.mp h).1

theorem Undoes.asTable (h : Undoes encode decode) :
    Undoes (fun xs => .object (xs.map fun entry => (entry.1, encode entry.2)))
      (asTable decode) := by
  intro v xs hv
  cases v with
  | object members =>
      apply congrArg JsonValue.object
      rw [JsonValue.asTable] at hv
      induction members generalizing xs with
      | nil =>
          cases hv
          rfl
      | cons member members ih =>
          simp only [List.mapM_cons, bind_eq_ok] at hv
          rcases hv with ⟨_, ⟨x, hx, hentry⟩, rest, hrest, heq⟩
          cases hentry
          cases heq
          rw [List.map_cons, ← ih rest hrest, ← h member.2 x hx]
  | null | bool | integer | double | text | list => cases hv

end JsonValue

namespace TargetConfig

open JsonValue

variable {text : String} {config config' : TargetConfig}

/-- A list of candidate numbers. -/
def idList (ids : List Nat) : JsonValue :=
  .list (ids.map fun n : Nat => .integer n)

/-- The parameter file has the kernel and its numbers in the first call, and its additional kernels,
if it has any, in the others. -/
def ListsKernels (text : String) (calls : List (String × List Nat)) : Prop :=
  exists members kernel ids more, calls = (kernel, ids) :: more ∧
    JsonValue.read text = .ok (.object members) ∧
    member? members "kernel" = some (.text kernel) ∧
    member? members "targetLoopsID" = some (idList ids) ∧
    ((member? members "additionalKernels" = none ∧ more = []) ∨
      member? members "additionalKernels" =
        some (.object (more.map fun call => (call.1, idList call.2))))

theorem listsKernels_of_ofText (h : ofText text = .ok config) :
    exists calls, ListsKernels text calls ∧ config.kernels = .ofCalls calls := by
  rcases ofText_eq_ok h with ⟨members, kernel, ids, more, hread, hdecoded⟩
  refine ⟨(kernel, ids) :: more, ⟨members, kernel, ids, more, rfl, hread, ?_, ?_, ?_⟩,
    hdecoded.kernels⟩
  · exact member_of_required undoes_asText hdecoded.kernelName
  · exact member_of_required undoes_asWord64.asList hdecoded.targetLoops
  · rcases optional_eq_ok.mp hdecoded.additional with hnone | ⟨v, hmember, hv⟩
    · exact Or.inl hnone
    · rw [hmember, undoes_asWord64.asList.asTable v more hv]
      exact Or.inr rfl

/-- Of a configuration a selection sees the kernels, and which loops are candidates and how they are
classified. -/
theorem selection_congr {beta : Type} (hkernels : config.kernels = config'.kernels)
    (hnested : config.targetNested = config'.targetNested)
    (hclassify : config.classifySubLoopBlocks = config'.classifySubLoopBlocks) (name : String)
    (code : Code beta) (forest : LoopForest beta) :
    Selection.ofForest config name code forest = Selection.ofForest config' name code forest := by
  have hcandidates : Candidates.ofForest config code forest =
      Candidates.ofForest config' code forest := by
    simp only [Candidates.ofForest, Candidates.discovered, Candidates.classUnder, scope, hnested,
      hclassify]
  rw [Selection.ofForest, Selection.ofForest, hkernels, hcandidates]

end TargetConfig

/-- Kernels are the union of the calls that add them, in increasing order, and are equal if and only
if their calls have the same union; so calls can be arranged anew.  The kernels of a parameter file
are the union of what it lists, and configurations whose kernels are such equal unions lead to the
same selections. -/
theorem KernelTargets.union_of_calls :
    (forall calls, IsUnion calls (ofCalls calls) ∧ (ofCalls calls).Increasing ∧
      forall name, name ∈ (ofCalls calls).names <-> Named calls name) ∧
    (forall calls calls', ofCalls calls = ofCalls calls' <-> SameUnion calls calls') ∧
    (forall calls calls', Relation.EqvGen Rearranges calls calls' ->
      ofCalls calls = ofCalls calls') ∧
    (forall text config, TargetConfig.ofText text = .ok config ->
      exists calls, TargetConfig.ListsKernels text calls ∧ config.kernels = ofCalls calls) ∧
    forall (config config' : TargetConfig) (calls calls' : List (String × List Nat)),
      config.kernels = ofCalls calls -> config'.kernels = ofCalls calls' ->
      SameUnion calls calls' -> config.targetNested = config'.targetNested ->
      config.classifySubLoopBlocks = config'.classifySubLoopBlocks ->
      forall (beta : Type) (name : String) (code : Code beta) (forest : LoopForest beta),
        Selection.ofForest config name code forest =
          Selection.ofForest config' name code forest := by
  refine ⟨fun calls => ⟨isUnion_ofCalls calls, increasing _, fun name => ?_⟩,
    fun calls calls' => ofCalls_eq_iff, fun calls calls' => ofCalls_eq_of_rearranged,
    fun text config => TargetConfig.listsKernels_of_ofText, ?_⟩
  · exact mem_names.trans (isUnion_ofCalls calls).named_iff.symm
  · intro config config' calls calls' hcalls hcalls' hsame hnested hclassify beta
    have hkernels : config.kernels = config'.kernels := by
      rw [hcalls, hcalls', ofCalls_eq_iff.mpr hsame]
    exact TargetConfig.selection_congr hkernels hnested hclassify

namespace TargetConfig

def twiceParam : JsonValue :=
  .object [
    ("row", .integer 6), ("column", .integer 8), ("targetFunction", .bool false),
    ("kernel", .text "f"), ("targetNested", .bool true),
    ("targetLoopsID", .list [.integer 2, .integer 0]), ("isTrimmedDemo", .bool true),
    ("doCGRAMapping", .bool true), ("isStaticElasticCGRA", .bool false),
    ("ctrlMemConstraint", .integer 10), ("bypassConstraint", .integer 2),
    ("regConstraint", .integer 12), ("precisionAware", .bool false),
    ("vectorizationMode", .text "all"), ("fusionStrategy", .list []),
    ("heuristicMapping", .bool true), ("parameterizableCGRA", .bool false),
    ("additionalKernels",
      .object [("f", .list [.integer 5, .integer 2]), ("g", .list [])])]

def twiceConfig : TargetConfig where
  kernels := .ofCalls [("f", [2, 0]), ("f", [5, 2]), ("g", [])]
  targetEntireFunction := false
  targetNested := true
  classifySubLoopBlocks := false
  settings := {
    MapperSettings.standard with
    rows := 6
    columns := 8
    ctrlMemConstraint := 10
    bypassConstraint := 2
    regConstraint := 12 }

theorem ofText_twiceParam : ofText twiceParam.display = .ok twiceConfig := by
  have hread : JsonValue.read twiceParam.display = .ok twiceParam.sorted := by
    apply JsonValue.read_display
    simp [twiceParam, JsonReader.greatestDepth, JsonValue.Writable]
  rw [ofText, hread]
  rfl

end TargetConfig

/-- Kernels of a parameter file and the same kernels, added in another way to the standard
configuration. -/
theorem KernelTargets.union_of_calls_twiceConfig :
    let calls := [("f", [2, 0]), ("f", [5, 2]), ("g", [])]
    let calls' := [("g", []), ("f", [5, 2]), ("f", [0]), ("f", [2])]
    let config' := { TargetConfig.standard with kernels := ofCalls calls', targetNested := true }
    Relation.EqvGen Rearranges calls calls' ∧ ofCalls calls = ofCalls calls' ∧
      TargetConfig.ofText TargetConfig.twiceParam.display = .ok TargetConfig.twiceConfig ∧
      (exists listed, TargetConfig.ListsKernels TargetConfig.twiceParam.display listed ∧
        TargetConfig.twiceConfig.kernels = ofCalls listed) ∧
      TargetConfig.twiceConfig.kernels = ofCalls calls ∧ config'.kernels = ofCalls calls' ∧
      SameUnion calls calls' ∧ TargetConfig.twiceConfig.targetNested = config'.targetNested ∧
      TargetConfig.twiceConfig.classifySubLoopBlocks = config'.classifySubLoopBlocks ∧
      forall (name : String) (code : Code Nat) (forest : LoopForest Nat),
        Selection.ofForest TargetConfig.twiceConfig name code forest =
          Selection.ofForest config' name code forest := by
  intro calls calls' config'
  rcases union_of_calls with ⟨_, hiff, hrearranged, htext, hselection⟩
  have hsteps : Relation.EqvGen Rearranges calls calls' :=
    .trans _ _ _ (.rel _ _ (.divided "f" [2] [0] [("f", [5, 2]), ("g", [])]))
      (.rel _ _ (.permuted (List.reverse_perm _).symm))
  have heq := hrearranged calls calls' hsteps
  have hsame := (hiff calls calls').mp heq
  exact ⟨hsteps, heq, TargetConfig.ofText_twiceParam,
    htext _ _ TargetConfig.ofText_twiceParam, rfl, rfl, hsame, rfl, rfl,
    hselection TargetConfig.twiceConfig config' calls calls' rfl rfl hsame rfl rfl Nat⟩

end LoopNest
