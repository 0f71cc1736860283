import LoopNest.Proofs.Tir.ReadInstructions
import LoopNest.Proofs.Tir.Spelling

/-!
# Reading functions

The readers of blocks, arguments and functions agree with the grammar, and they refuse names
that are not fresh and operands that name nothing.  So a text is read as a list of functions
exactly when the grammar derives them and their names are in order.
-/

namespace LoopNest
namespace Tir

variable {cs front rest : List Char} {labels defined seen known : List String} {name : String}
  {b : BlockDraft} {bs : List BlockDraft} {vs : List Variable} {f : FunctionDraft}
  {fs : List FunctionDraft}

/-!
## Blocks
-/

theorem blockText_of_block (h : block labels defined cs = .ok (b, rest)) (hrest : rest ≠ []) :
    BlockText (skip cs) b rest ∧ skip rest = rest ∧ b.label ∉ labels ∧
      Fresh defined b.defines := by
  unfold block at h
  split at h
  · cases h
  · rename_i label colon hlabel
    split at h
    · cases h
    · rename_i hfresh
      split at h
      · cases h
      · rename_i is final his
        cases h
        rcases instructionsText_of_instructions his hrest with ⟨htext, hresults⟩
        have hblock := BlockText.block (word_eq_ok.mp hlabel) (spaces_skip colon) htext
        exact ⟨hblock, skip_of_instructions his, hfresh, hresults⟩
  · cases h

theorem BlockText.starts (h : BlockText cs b rest) : skip cs = cs ∧ endsBlock cs = true := by
  cases h with
  | block hlabel _ _ => exact ⟨hlabel.skip_eq, endsBlock_label hlabel⟩

theorem block_of_blockText (h : BlockText cs b rest) (hend : endsBlock rest = true)
    (hskip : skip rest = rest) (hlabel : b.label ∉ labels) (hfresh : Fresh defined b.defines) :
    block labels defined cs = .ok (b, rest) := by
  cases h with
  | block hname hspaces htext =>
      have hword := word_eq_ok.mpr (hname.skip_eq.symm ▸ hname)
      have hread := instructions_of_instructionsText htext hend hskip hfresh
        (skip_of_spaces hspaces)
      unfold block
      rw [hword]
      simp only [if_neg hlabel, hread]

theorem blocks_eq (function : String) (labels defined : List String) (cs : List Char) :
    blocks function labels defined cs =
      match skip cs with
      | [] => .error (.unterminatedBody function, [])
      | c :: rest =>
          if c = '}' then .ok ([], rest)
          else
            match block labels defined (c :: rest) with
            | .error e => .error e
            | .ok (b, rest) =>
                consItem b (blocks function (b.label :: labels) (b.defines ++ defined) rest) := by
  fun_cases blocks function labels defined cs
  all_goals simp [*]

theorem blocksText_of_blocks (h : blocks name labels defined cs = .ok (bs, rest)) :
    BlocksText (skip cs) bs ('}' :: rest) ∧ Fresh labels (bs.map BlockDraft.label) ∧
      Fresh defined (bs.flatMap BlockDraft.defines) := by
  fun_induction blocks name labels defined cs generalizing bs rest with
  | case1 => cases h
  | case2 labels defined cs front hskip =>
      cases h
      rw [hskip]
      exact ⟨BlocksText.nil _, fresh_nil _, fresh_nil _⟩
  | case3 => cases h
  | case4 labels defined cs c front hskip hc b afterFirst hfirst ih =>
      rcases consItem_eq_ok.mp h with ⟨more, hmore, rfl⟩
      have hafter : afterFirst ≠ [] := by
        rintro rfl
        rw [blocks_eq] at hmore
        cases hmore
      rcases blockText_of_block hfirst hafter with ⟨htext, hskip', hlabel, hresults⟩
      rcases ih hmore with ⟨htexts, hlabels, hfreshes⟩
      rw [← hskip, skip_skip] at htext
      rw [hskip'] at htexts
      rw [List.map_cons, List.flatMap_cons]
      exact ⟨BlocksText.cons htext htexts, fresh_cons.mpr ⟨hlabel, hlabels⟩,
        fresh_append.mpr ⟨hresults, hfreshes⟩⟩

/-- In front of a closing brace blocks start where a block ends. -/
theorem BlocksText.starts (h : BlocksText cs bs ('}' :: rest)) :
    skip cs = cs ∧ endsBlock cs = true := by
  cases h with
  | nil => exact ⟨skip_solid (by decide), rfl⟩
  | cons hfirst _ => exact hfirst.starts

theorem blocks_of_blocksText (h : BlocksText cs bs ('}' :: rest))
    (hlabels : Fresh labels (bs.map BlockDraft.label))
    (hfresh : Fresh defined (bs.flatMap BlockDraft.defines)) (hfront : skip front = cs) :
    blocks name labels defined front = .ok (bs, rest) := by
  generalize hfinal : '}' :: rest = final at h
  induction h generalizing labels defined front with
  | nil cs =>
      subst hfinal
      rw [blocks_eq, hfront]
      rfl
  | cons hfirst hmore ih =>
      subst hfinal
      rename_i b bs
      rw [List.map_cons] at hlabels
      rw [List.flatMap_cons] at hfresh
      rcases fresh_cons.mp hlabels with ⟨hlabel, hlabels⟩
      rcases fresh_append.mp hfresh with ⟨hfresh, hfreshes⟩
      rcases hmore.starts with ⟨hsolid, hend⟩
      have hread := block_of_blockText hfirst hend hsolid hlabel hfresh
      have hreads := ih hlabels hfreshes hsolid rfl
      cases hfirst with
      | block hname _ _ =>
          rcases hname.opens with ⟨c, code, rfl, hopens⟩
          have hbrace : c ≠ '}' := by
            rintro rfl
            exact absurd hopens (by decide)
          rw [blocks_eq, hfront]
          simp only [if_neg hbrace, hread, hreads]
          rfl

/-!
## Arguments
-/

theorem arguments_eq (seen : List String) (cs : List Char) :
    arguments seen cs =
      match skip cs with
      | ')' :: rest => .ok ([], rest)
      | _ =>
          match definition cs with
          | .error e => .error e
          | .ok (v, rest) =>
              if v.name ∈ seen then .error (.duplicateArgument v.name, rest)
              else
                match skip rest with
                | ',' :: more => consItem v (arguments (v.name :: seen) more)
                | ')' :: more => consItem v (arguments (v.name :: seen) (')' :: more))
                | other => .error (.openArguments, other) := by
  fun_cases arguments seen cs
  all_goals simp [*]

theorem arguments_close (seen : List String) (h : skip cs = ')' :: rest) :
    arguments seen cs = .ok ([], rest) := by
  rw [arguments_eq, h]
  rfl

theorem argumentsText_of_arguments (h : arguments seen cs = .ok (vs, rest)) :
    ArgumentsText (skip cs) vs (')' :: rest) ∧ Fresh seen (vs.map Variable.name) := by
  fun_induction arguments seen cs generalizing vs rest with
  | case1 seen cs front hskip =>
      cases h
      rw [hskip]
      exact ⟨ArgumentsText.none _, fresh_nil _⟩
  | case2 => cases h
  | case3 => cases h
  | case4 seen cs v afterFirst hfirst hnew more hskip hopen ih =>
      rcases consItem_eq_ok.mp h with ⟨vs', hmore, rfl⟩
      rcases ih hmore with ⟨htext, hfresh⟩
      have hcomma := (skip_eq_cons (by decide)).mp hskip
      rw [List.map_cons]
      exact ⟨ArgumentsText.cons (definitionText_of_definition hfirst) hcomma (spaces_skip more)
        htext, fresh_cons.mpr ⟨hnew, hfresh⟩⟩
  | case5 seen cs v afterFirst hfirst hnew more hskip hopen ih =>
      rcases consItem_eq_ok.mp h with ⟨vs', hmore, rfl⟩
      rw [arguments_close _ (skip_solid (by decide))] at hmore
      cases hmore
      have hclose := (skip_eq_cons (by decide)).mp hskip
      rw [List.map_cons]
      exact ⟨ArgumentsText.last (definitionText_of_definition hfirst) hclose,
        fresh_cons.mpr ⟨hnew, fresh_nil _⟩⟩
  | case6 => cases h

theorem arguments_of_argumentsText (h : ArgumentsText cs vs (')' :: rest))
    (hfresh : Fresh seen (vs.map Variable.name)) (hfront : skip front = skip cs) :
    arguments seen front = .ok (vs, rest) := by
  generalize hfinal : ')' :: rest = final at h
  induction h generalizing seen front with
  | none cs =>
      subst hfinal
      exact arguments_close seen (hfront.trans (skip_solid (by decide)))
  | last htext hspaces =>
      subst hfinal
      rename_i cs more v
      have hnew : v.name ∉ seen := fresh_singleton.mp hfresh
      have hclose := (skip_eq_cons (by decide)).mpr hspaces
      have hcolon : more.head? ≠ some ':' := hspaces.head?_ne (by decide) (by decide)
      rcases htext.head with ⟨code, rfl⟩
      rw [skip_solid (by decide)] at hfront
      have hread := definition_of_definitionText (hfront ▸ htext) hcolon
      rw [arguments_eq, hfront]
      simp only [hread, if_neg hnew, hclose, arguments_close _ (skip_solid (c := ')') (by decide))]
      rfl
  | cons htext hcomma hspaces _ ih =>
      subst hfinal
      rename_i cs before after more v vs _
      rw [List.map_cons] at hfresh
      rcases fresh_cons.mp hfresh with ⟨hnew, hfresh⟩
      have hskip := (skip_eq_cons (by decide)).mpr hcomma
      have hcolon : before.head? ≠ some ':' := hcomma.head?_ne (by decide) (by decide)
      rcases htext.head with ⟨code, rfl⟩
      rw [skip_solid (by decide)] at hfront
      have hread := definition_of_definitionText (hfront ▸ htext) hcolon
      have hreads := ih hfresh (skip_of_spaces hspaces) rfl
      rw [arguments_eq, hfront]
      simp only [hread, if_neg hnew, hskip, hreads]
      rfl

/-!
## Functions
-/

theorem endingText_of_ending {body : Option (List BlockDraft)}
    (h : ending name vs cs = .ok (body, rest)) :
    EndingText (skip cs) body rest ∧ ((body.getD []).map BlockDraft.label).Nodup ∧
      Fresh (vs.map Variable.name) ((body.getD []).flatMap BlockDraft.defines) := by
  unfold ending at h
  split at h
  · rename_i hskip
    cases h
    rw [hskip]
    exact ⟨EndingText.declaration _, List.nodup_nil, fresh_nil _⟩
  · simp only [bind_eq_ok] at h
    rcases h with ⟨afterMark, hmark, ⟨bs, afterBody⟩, hbody, h⟩
    cases h
    have hskip := (skip_eq_cons (by decide)).mpr ((expect_eq_ok (by decide)).mp hmark)
    unfold Tir.body at hbody
    split at hbody
    · cases hbody
    · cases hbody
    · rename_i hne hblocks
      cases hbody
      rcases blocksText_of_blocks hblocks with ⟨htext, hlabels, hresults⟩
      rw [hskip]
      have hbs : bs ≠ [] := by
        rintro rfl
        exact hne rfl
      exact ⟨EndingText.body (spaces_skip _) htext hbs, fresh_empty.mp hlabels, hresults⟩

theorem ending_of_endingText {body : Option (List BlockDraft)} (h : EndingText cs body rest)
    (hfront : skip front = cs) (hlabels : ((body.getD []).map BlockDraft.label).Nodup)
    (hresults : Fresh (vs.map Variable.name) ((body.getD []).flatMap BlockDraft.defines)) :
    ending name vs front = .ok (body, rest) := by
  cases h with
  | declaration =>
      unfold ending
      rw [hfront]
      rfl
  | body hspaces htext hbs =>
      rename_i cs more bs
      have hmark : expect '{' front = .ok cs :=
        (expect_eq_ok (by decide)).mpr ((skip_eq_cons (by decide)).mp hfront)
      have hskip : skip cs = more := (skip_of_spaces hspaces).trans htext.starts.1
      have hread : blocks name [] (vs.map Variable.name) cs = .ok (bs, rest) :=
        blocks_of_blocksText htext (fresh_empty.mpr hlabels) hresults hskip
      have hbody : Tir.body name vs cs = .ok (bs, rest) := by
        unfold Tir.body
        rw [hread]
        cases bs with
        | nil => exact absurd rfl hbs
        | cons b bs => rfl
      unfold ending
      rw [hfront]
      simp only [hmark, bind, Except.bind, hbody]
      rfl

theorem freshName_eq_ok :
    freshName known cs = .ok (name, rest) <-> NameText (skip cs) name rest ∧ name ∉ known := by
  rw [← word_eq_ok]
  unfold freshName
  cases word cs with
  | error e => simp
  | ok p =>
      rcases p with ⟨word, more⟩
      by_cases hknown : word ∈ known
      · simp only [if_pos hknown, Except.ok.injEq, Prod.mk.injEq, reduceCtorEq, false_iff]
        rintro ⟨⟨rfl, _⟩, hnot⟩
        exact hnot hknown
      · simp only [if_neg hknown, Except.ok.injEq, Prod.mk.injEq]
        constructor
        · rintro ⟨rfl, rfl⟩
          exact ⟨⟨rfl, rfl⟩, hknown⟩
        · exact fun h => h.1

theorem resolve_eq_ok_iff {g : FunctionDraft} {final : List Char} :
    resolve f rest = .ok (g, final) <-> (g = f ∧ final = rest) ∧
      (forall name, name ∈ f.instructions.flatMap InstructionDraft.values ->
        name ∈ f.valueNames) ∧
      forall name, name ∈ f.blocks.flatMap BlockDraft.targets -> name ∈ f.labels := by
  have hvalues : f.undefinedValue? = none <->
      forall name, name ∈ f.instructions.flatMap InstructionDraft.values ->
        name ∈ f.valueNames := by
    rw [FunctionDraft.undefinedValue?, List.find?_eq_none]
    simp only [Bool.not_eq_true', Bool.not_eq_false, List.contains_iff_mem]
  have hblocks : f.undefinedBlock? = none <->
      forall name, name ∈ f.blocks.flatMap BlockDraft.targets -> name ∈ f.labels := by
    rw [FunctionDraft.undefinedBlock?, List.find?_eq_none]
    simp only [Bool.not_eq_true', Bool.not_eq_false, List.contains_iff_mem]
  rw [← hvalues, ← hblocks]
  unfold resolve
  cases f.undefinedValue? with
  | some name => simp
  | none =>
      cases f.undefinedBlock? with
      | some name => simp
      | none =>
          simp only [Except.ok.injEq, Prod.mk.injEq, and_true]
          exact and_congr eq_comm eq_comm

/-- Names in order are what the reader checks: fresh arguments, labels and results, and
operands that name something. -/
theorem scoped_iff (h : f.Spelled) :
    f.Scoped <-> Fresh [] (f.arguments.map Variable.name) ∧ f.labels.Nodup ∧
      Fresh (f.arguments.map Variable.name) (f.blocks.flatMap BlockDraft.defines) ∧
      (forall name, name ∈ f.instructions.flatMap InstructionDraft.values ->
        name ∈ f.valueNames) ∧
      forall name, name ∈ f.blocks.flatMap BlockDraft.targets -> name ∈ f.labels := by
  have hnodup : f.definedNames.Nodup <-> Fresh [] (f.arguments.map Variable.name) ∧
      Fresh (f.arguments.map Variable.name) (f.blocks.flatMap BlockDraft.defines) := by
    rw [← fresh_empty, FunctionDraft.definedNames, fresh_append, List.append_nil]
  constructor
  · intro hscoped
    rcases hnodup.mp hscoped.nodup_values with ⟨hargs, hresults⟩
    exact ⟨hargs, hscoped.nodup_labels, hresults, fun name hname =>
      ((FunctionDraft.mem_definedNames h).mp (hscoped.values_defined name hname)).1,
      hscoped.targets_defined⟩
  · rintro ⟨hargs, hlabels, hresults, hvalues, htargets⟩
    exact ⟨hnodup.mpr ⟨hargs, hresults⟩, hlabels, fun name hname =>
      (FunctionDraft.mem_definedNames h).mpr ⟨hvalues name hname, h.ne_empty hname⟩, htargets⟩

theorem functionText_of_function (h : function known cs = .ok (f, rest)) :
    FunctionText (skip cs) f rest ∧ f.name ∉ known ∧ f.Scoped := by
  simp only [function, bind_eq_ok] at h
  rcases h with ⟨⟨name, afterName⟩, hname, afterMark, hmark, ⟨args, afterArguments⟩,
    harguments, ⟨body, afterBody⟩, hbody, h⟩
  rcases resolve_eq_ok_iff.mp h with ⟨⟨rfl, rfl⟩, hresolved⟩
  rcases freshName_eq_ok.mp hname with ⟨htext, hnew⟩
  rcases argumentsText_of_arguments harguments with ⟨hargs, hfresh⟩
  rcases endingText_of_ending hbody with ⟨hending, hlabels, hresults⟩
  have hfunction := FunctionText.function htext ((expect_eq_ok (by decide)).mp hmark)
    (spaces_skip afterMark) hargs (spaces_skip afterArguments) hending
  refine ⟨hfunction, hnew, (scoped_iff hfunction.spelled).mpr ?_⟩
  exact ⟨hfresh, hlabels, hresults, hresolved⟩

theorem EndingText.skip_eq {body : Option (List BlockDraft)} (h : EndingText cs body rest) :
    skip cs = cs := by
  cases h with
  | declaration => exact skip_solid (by decide)
  | body => exact skip_solid (by decide)

theorem FunctionText.skip_eq (h : FunctionText cs f rest) : skip cs = cs := by
  cases h with
  | function hname => exact hname.skip_eq

theorem function_of_functionText (h : FunctionText cs f rest) (hnew : f.name ∉ known)
    (hscoped : f.Scoped) : function known cs = .ok (f, rest) := by
  rcases (scoped_iff h.spelled).mp hscoped with ⟨hargs, hlabels, hresults, hresolved⟩
  cases h with
  | function hname hmark hspaces htext hclose hending =>
      rename_i before after front more final name args body
      have hopen : expect '(' before = .ok after := (expect_eq_ok (by decide)).mpr hmark
      have hread : arguments [] after = .ok (args, more) :=
        arguments_of_argumentsText htext hargs (skip_of_spaces hspaces)
      have hend : ending name args more = .ok (body, rest) :=
        ending_of_endingText hending ((skip_of_spaces hclose).trans hending.skip_eq) hlabels
          hresults
      simp only [function, bind_eq_ok]
      exact ⟨_, freshName_eq_ok.mpr ⟨hname.skip_eq.symm ▸ hname, hnew⟩, _, hopen, _, hread, _,
        hend, resolve_eq_ok_iff.mpr ⟨⟨rfl, rfl⟩, hresolved⟩⟩

/-!
## Texts
-/

theorem functions_eq (known : List String) (cs : List Char) :
    functions known cs =
      match skip cs with
      | [] => .ok []
      | c :: front =>
          match function known (c :: front) with
          | .error e => .error e
          | .ok (f, rest) => (functions (f.name :: known) rest).map (f :: ·) := by
  fun_cases functions known cs
  all_goals simp [*]

theorem functions_of_skip (hskip : skip front = skip cs) :
    functions known front = functions known cs := by
  rw [functions_eq, hskip, ← functions_eq]

theorem functions_cons (hread : function known cs = .ok (f, rest)) (hskip : skip cs = cs) :
    functions known cs = (functions (f.name :: known) rest).map (f :: ·) := by
  rw [functions_eq, hskip]
  cases cs with
  | nil => cases hread
  | cons c code => simp only [hread]

theorem functionsText_of_functions (h : functions known cs = .ok fs) :
    FunctionsText (skip cs) fs ∧ Fresh known (fs.map FunctionDraft.name) ∧
      forall f, f ∈ fs -> f.Scoped := by
  fun_induction functions known cs generalizing fs with
  | case1 known cs hskip =>
      cases h
      rw [hskip]
      exact ⟨FunctionsText.nil, fresh_nil _, fun f hf => absurd hf List.not_mem_nil⟩
  | case2 => cases h
  | case3 known cs c front hskip f rest hfirst ih =>
      cases hmore : functions (f.name :: known) rest with
      | error e =>
          rw [hmore] at h
          cases h
      | ok gs =>
          rw [hmore] at h
          cases h
          rcases functionText_of_function hfirst with ⟨htext, hnew, hscoped⟩
          rcases ih hmore with ⟨htexts, hfresh, hall⟩
          rw [← hskip, skip_skip] at htext
          rw [List.map_cons]
          refine ⟨FunctionsText.cons htext (spaces_skip rest) htexts,
            fresh_cons.mpr ⟨hnew, hfresh⟩, ?_⟩
          intro g hg
          rcases List.mem_cons.mp hg with rfl | hg
          · exact hscoped
          · exact hall g hg

theorem functions_of_functionsText (h : FunctionsText cs fs)
    (hfresh : Fresh known (fs.map FunctionDraft.name)) (hscoped : forall f, f ∈ fs -> f.Scoped)
    (hfront : skip front = cs) : functions known front = .ok fs := by
  induction h generalizing known front with
  | nil =>
      rw [functions_eq, hfront]
  | cons hfirst hspaces hmore ih =>
      rename_i cs more rest f fs
      rw [List.map_cons] at hfresh
      rcases fresh_cons.mp hfresh with ⟨hnew, hfresh⟩
      have hread := function_of_functionText hfirst hnew (hscoped f List.mem_cons_self)
      have hsolid : skip rest = rest := by
        cases hmore with
        | nil => rfl
        | cons hnext _ _ => exact hnext.skip_eq
      have hreads := ih hfresh (fun g hg => hscoped g (List.mem_cons_of_mem f hg))
        ((skip_of_spaces hspaces).trans hsolid)
      rw [functions_of_skip (hfront.trans hfirst.skip_eq.symm), functions_cons hread hfirst.skip_eq,
        hreads]
      rfl

theorem readDrafts_eq_functions {text : String} :
    readDrafts text = .ok fs <-> functions [] text.toList = .ok fs := by
  unfold readDrafts
  cases functions [] text.toList with
  | ok gs => simp
  | error e => simp

/-- A text is read as a list of functions exactly when the grammar derives them, no two have
the same name, and the names inside each of them are in order. -/
theorem readDrafts_eq_ok {text : String} :
    readDrafts text = .ok fs <-> ModuleText text.toList fs ∧
      (fs.map FunctionDraft.name).Nodup ∧ forall f, f ∈ fs -> f.Scoped := by
  rw [readDrafts_eq_functions, ← fresh_empty]
  constructor
  · intro h
    rcases functionsText_of_functions h with ⟨htext, hfresh, hscoped⟩
    exact ⟨⟨_, spaces_skip _, htext⟩, hfresh, hscoped⟩
  · rintro ⟨⟨front, hspaces, htext⟩, hfresh, hscoped⟩
    have hsolid : skip front = front := by
      cases htext with
      | nil => rfl
      | cons hnext _ _ => exact hnext.skip_eq
    exact functions_of_functionsText htext hfresh hscoped
      ((skip_of_spaces hspaces).trans hsolid)

end Tir
end LoopNest
