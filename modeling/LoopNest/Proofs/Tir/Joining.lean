import LoopNest.Proofs.Tir.Language
import LoopNest.Proofs.Tir.Remainders

/-!
# Texts after each other

A text may be followed by another text on a new line.  From one function to the next a reader
carries nothing but the names of the functions; so the second text is read as if it stood alone,
its tables come behind those of the first text, and its faults stay what they are.
-/

namespace LoopNest
namespace Tir

variable {lines : Bool} {cs front rest : List Char} {name : String} {known extra : List String}
  {fs : List FunctionDraft}

/-!
## More lines behind a text

What the grammar derives does not depend on the lines that follow: a line feed continues no word
and no comment.
-/

theorem EndsLine.extend (h : EndsLine cs) (tail : List Char) : EndsLine (cs ++ '\n' :: tail) := by
  intro c hc
  cases cs with
  | nil => exact (Option.some.inj hc).symm
  | cons d cs => exact h c hc

theorem Spaces.extend (h : Spaces lines cs rest) (tail : List Char) :
    Spaces lines (cs ++ '\n' :: tail) (rest ++ '\n' :: tail) := by
  induction h with
  | none cs => exact Spaces.none _
  | blank hblank hline _ ih => exact Spaces.blank hblank hline ih
  | comment htext hcs _ ih =>
      rw [List.cons_append, List.append_assoc]
      exact Spaces.comment htext (hcs.extend tail) ih

theorem NameText.extend (h : NameText cs name rest) (tail : List Char) :
    NameText (cs ++ '\n' :: tail) name (rest ++ '\n' :: tail) := by
  cases h with
  | name hopens hcontinues hrest =>
      rw [List.cons_append, List.append_assoc]
      refine NameText.name hopens hcontinues fun d hd => ?_
      cases rest with
      | nil =>
          cases Option.some.inj hd
          decide
      | cons e rest => exact hrest d hd

theorem DefinitionText.extend {v : Variable} (h : DefinitionText cs v rest) (tail : List Char) :
    DefinitionText (cs ++ '\n' :: tail) v (rest ++ '\n' :: tail) := by
  cases h with
  | plain hname => exact DefinitionText.plain (hname.extend tail)
  | annotated hname hword htype =>
      exact DefinitionText.annotated (hname.extend tail) (hword.extend tail) htype

theorem OperandsText.extend {os : List Operand} (h : OperandsText cs os rest)
    (tail : List Char) : OperandsText (cs ++ '\n' :: tail) os (rest ++ '\n' :: tail) := by
  induction h with
  | spaces hspaces _ ih => exact OperandsText.spaces (hspaces.extend tail) ih
  | comma _ ih => exact OperandsText.comma ih
  | value hname _ ih => exact OperandsText.value (hname.extend tail) ih
  | block hname _ ih => exact OperandsText.block (hname.extend tail) ih
  | line rest => exact OperandsText.line _
  | brace rest => exact OperandsText.brace _

theorem ResultText.extend {v : Option Variable} (h : ResultText cs v rest) (tail : List Char) :
    ResultText (cs ++ '\n' :: tail) v (rest ++ '\n' :: tail) := by
  cases h with
  | none => exact ResultText.none _
  | some htext hmark hspaces =>
      exact ResultText.some (htext.extend tail) (hmark.extend tail) (hspaces.extend tail)

theorem InstructionText.extend {i : InstructionDraft} (h : InstructionText cs i rest)
    (tail : List Char) : InstructionText (cs ++ '\n' :: tail) i (rest ++ '\n' :: tail) := by
  cases h with
  | instruction hresult hopcode hoperands hspaces =>
      exact InstructionText.instruction (hresult.extend tail) (hopcode.extend tail)
        (hoperands.extend tail) (hspaces.extend tail)

theorem InstructionsText.extend {is : List InstructionDraft} (h : InstructionsText cs is rest)
    (tail : List Char) : InstructionsText (cs ++ '\n' :: tail) is (rest ++ '\n' :: tail) := by
  induction h with
  | nil => exact InstructionsText.nil _
  | cons hfirst _ ih => exact InstructionsText.cons (hfirst.extend tail) ih

theorem BlocksText.extend {bs : List BlockDraft} (h : BlocksText cs bs rest)
    (tail : List Char) : BlocksText (cs ++ '\n' :: tail) bs (rest ++ '\n' :: tail) := by
  induction h with
  | nil => exact BlocksText.nil _
  | cons hfirst _ ih =>
      cases hfirst with
      | block hlabel hspaces hinstructions =>
          exact BlocksText.cons (BlockText.block (hlabel.extend tail) (hspaces.extend tail)
            (hinstructions.extend tail)) ih

theorem ArgumentsText.extend {vs : List Variable} (h : ArgumentsText cs vs rest)
    (tail : List Char) : ArgumentsText (cs ++ '\n' :: tail) vs (rest ++ '\n' :: tail) := by
  induction h with
  | none => exact ArgumentsText.none _
  | last htext hspaces => exact ArgumentsText.last (htext.extend tail) (hspaces.extend tail)
  | cons htext hcomma hspaces _ ih =>
      exact ArgumentsText.cons (htext.extend tail) (hcomma.extend tail) (hspaces.extend tail) ih

theorem FunctionText.extend {f : FunctionDraft} (h : FunctionText cs f rest)
    (tail : List Char) : FunctionText (cs ++ '\n' :: tail) f (rest ++ '\n' :: tail) := by
  cases h with
  | function hname hopen hspaces hargs hclose hending =>
      refine FunctionText.function (hname.extend tail) (hopen.extend tail) (hspaces.extend tail)
        (hargs.extend tail) (hclose.extend tail) ?_
      cases hending with
      | declaration => exact EndingText.declaration _
      | body hfront hblocks hne =>
          exact EndingText.body (hfront.extend tail) (hblocks.extend tail) hne

/-!
## Functions behind functions
-/

/-- Behind functions whose names are in order, the reader goes on with the next line and knows
their names. -/
theorem functions_extend (h : FunctionsText cs fs)
    (hfresh : Fresh known (fs.map FunctionDraft.name)) (hscoped : forall f, f ∈ fs -> f.Scoped)
    (tail : List Char) :
    functions known (cs ++ '\n' :: tail) =
      (functions ((fs.map FunctionDraft.name).reverse ++ known) tail).map (fs ++ ·) := by
  -- each function adds its name to the known ones, so these vary in the induction
  induction h generalizing known with
  | nil =>
      have hskip : skip ('\n' :: tail) = skip tail := rfl
      rw [List.nil_append, functions_of_skip hskip, List.map_nil, List.reverse_nil,
        List.nil_append]
      cases functions known tail with
      | ok gs => rfl
      | error e => rfl
  | cons hfirst hspaces _ ih =>
      rename_i cs more rest f fs _
      rw [List.map_cons] at hfresh
      rcases fresh_cons.mp hfresh with ⟨hnew, hfresh⟩
      have hextended := hfirst.extend tail
      have hread := function_of_functionText hextended hnew (hscoped f List.mem_cons_self)
      have hskip := skip_of_spaces (hspaces.extend tail)
      have hreads := ih hfresh fun g hg => hscoped g (List.mem_cons_of_mem f hg)
      rw [functions_cons hread hextended.skip_eq, functions_of_skip hskip, hreads, List.map_cons,
        List.reverse_cons, List.append_assoc, List.singleton_append]
      cases functions ((fs.map FunctionDraft.name).reverse ++ f.name :: known) tail with
      | ok gs => rfl
      | error e => rfl

theorem functions_joined (h : functions [] cs = .ok fs) (tail : List Char) :
    functions [] (cs ++ '\n' :: tail) =
      (functions (fs.map FunctionDraft.name).reverse tail).map (fs ++ ·) := by
  rcases functionsText_of_functions h with ⟨htext, hfresh, hscoped⟩
  have hskip := skip_of_spaces ((spaces_skip cs).extend tail)
  rw [functions_of_skip hskip, functions_extend htext hfresh hscoped, List.append_nil]

/-!
## Known names

A text without faults is read next to known names if and only if it defines none of them.  Names
that do not occur in a text at all do not change its faults either.
-/

theorem functions_known_eq_ok :
    functions known cs = .ok fs <->
      functions [] cs = .ok fs ∧ known.Disjoint (fs.map FunctionDraft.name) := by
  constructor
  · intro h
    rcases functionsText_of_functions h with ⟨htext, ⟨hnodup, hknown⟩, hscoped⟩
    refine ⟨functions_of_functionsText htext (fresh_empty.mpr hnodup) hscoped rfl, ?_⟩
    exact fun name hmem hname => hknown name hname hmem
  · rintro ⟨h, hdisjoint⟩
    rcases functionsText_of_functions h with ⟨htext, ⟨hnodup, _⟩, hscoped⟩
    have hfresh : Fresh known (fs.map FunctionDraft.name) :=
      ⟨hnodup, fun name hname hmem => hdisjoint hmem hname⟩
    exact functions_of_functionsText htext hfresh hscoped rfl

theorem word_within (h : word cs = .ok (name, rest)) : name.toList <:+: cs := by
  have hname := word_eq_ok.mp h
  have hfront : name.toList <+: skip cs := by
    generalize skip cs = front at hname
    cases hname with
    | name => exact ⟨rest, by rw [String.toList_ofList, List.cons_append]⟩
  exact hfront.isInfix.trans (suffix_skip cs).isInfix

theorem freshName_append (h : forall name, name ∈ extra -> ¬name.toList <:+: cs) :
    freshName (known ++ extra) cs = freshName known cs := by
  unfold freshName
  cases hword : word cs with
  | error e => rfl
  | ok p =>
      rcases p with ⟨name, rest⟩
      have hextra : name ∉ extra := fun hmem => h name hmem (word_within hword)
      simp [hextra]

theorem function_append (h : forall name, name ∈ extra -> ¬name.toList <:+: cs) :
    function (known ++ extra) cs = function known cs := by
  unfold function
  rw [freshName_append h]

theorem functions_append (h : forall name, name ∈ extra -> ¬name.toList <:+: cs) :
    functions (known ++ extra) cs = functions known cs := by
  -- what is left behind a function is an end of the text, and the names do not occur there either
  fun_induction functions known cs with
  | case1 known cs hskip => rw [functions_eq, hskip]
  | case2 known cs c front hskip e hfirst =>
      have hfront : c :: front <:+ cs := hskip ▸ suffix_skip cs
      have hread : function (known ++ extra) (c :: front) = function known (c :: front) :=
        function_append fun name hname hwithin => h name hname (hwithin.trans hfront.isInfix)
      rw [functions_eq, hskip]
      simp only [hread, hfirst]
  | case3 known cs c front hskip f afterFirst hfirst ih =>
      have hfront : c :: front <:+ cs := hskip ▸ suffix_skip cs
      have hafter : afterFirst <:+ c :: front := (keeps_function known _).ok hfirst
      have hread : function (known ++ extra) (c :: front) = function known (c :: front) :=
        function_append fun name hname hwithin => h name hname (hwithin.trans hfront.isInfix)
      have hreads := ih fun name hname hwithin =>
        h name hname (hwithin.trans (hafter.trans hfront).isInfix)
      rw [functions_eq, hskip]
      simp only [hread, hfirst]
      rw [← hreads, List.cons_append]

/-!
## Modules behind modules
-/

theorem readDrafts_eq_error {text : String} {e : ReadError} :
    readDrafts text = .error e <-> exists rest, functions [] text.toList = .error (e.fault, rest) ∧
      e.line = lineAt text.toList rest := by
  unfold readDrafts
  cases functions [] text.toList with
  | ok gs => simp
  | error p =>
      rcases p with ⟨fault, rest⟩
      rcases e with ⟨line, fault'⟩
      simp only [Except.error.injEq, ReadError.mk.injEq, Prod.mk.injEq]
      constructor
      · rintro ⟨rfl, rfl⟩
        exact ⟨rest, ⟨rfl, rfl⟩, rfl⟩
      · rintro ⟨final, ⟨rfl, rfl⟩, rfl⟩
        exact ⟨rfl, rfl⟩

theorem lineAt_extend (before : List Char) (h : rest <:+ cs) :
    lineAt (before ++ '\n' :: cs) rest = lineAt cs rest + (1 + before.count '\n') := by
  have hle := h.sublist.count_le '\n'
  rw [lineAt, lineAt, List.count_append, List.count_cons_self]
  omega

section

variable {first second : String} {gs : List FunctionDraft} (hfirst : readDrafts first = .ok fs)
include hfirst

theorem functions_lines (second : String) :
    functions [] (first ++ "\n" ++ second).toList =
      (functions (fs.map FunctionDraft.name).reverse second.toList).map (fs ++ ·) := by
  have hlines : (first ++ "\n" ++ second).toList = first.toList ++ '\n' :: second.toList := by
    simp
  rw [hlines, functions_joined (readDrafts_eq_functions.mp hfirst)]

theorem readDrafts_lines_eq_ok :
    readDrafts (first ++ "\n" ++ second) = .ok (fs ++ gs) <->
      readDrafts second = .ok gs ∧
        (fs.map FunctionDraft.name).Disjoint (gs.map FunctionDraft.name) := by
  have hreverse : (fs.map FunctionDraft.name).reverse.Disjoint (gs.map FunctionDraft.name) <->
      (fs.map FunctionDraft.name).Disjoint (gs.map FunctionDraft.name) := by
    simp only [List.Disjoint, List.mem_reverse]
  rw [readDrafts_eq_functions, functions_lines hfirst, readDrafts_eq_functions, ← hreverse,
    ← functions_known_eq_ok]
  cases functions (fs.map FunctionDraft.name).reverse second.toList with
  | ok gs' => simp [Except.map]
  | error e => simp [Except.map]

theorem readDrafts_lines_front {both : List FunctionDraft}
    (h : readDrafts (first ++ "\n" ++ second) = .ok both) : exists gs, both = fs ++ gs := by
  rw [readDrafts_eq_functions, functions_lines hfirst] at h
  cases hsecond : functions (fs.map FunctionDraft.name).reverse second.toList with
  | ok gs =>
      rw [hsecond] at h
      cases h
      exact ⟨gs, rfl⟩
  | error e =>
      rw [hsecond] at h
      cases h

theorem readDrafts_lines_error {e : ReadError} (hsecond : readDrafts second = .error e)
    (hnames : forall name, name ∈ fs.map FunctionDraft.name ->
      ¬name.toList <:+: second.toList) :
    readDrafts (first ++ "\n" ++ second) =
      .error ⟨e.line + (1 + first.toList.count '\n'), e.fault⟩ := by
  rcases readDrafts_eq_error.mp hsecond with ⟨rest, hread, hline⟩
  have hknown : functions (fs.map FunctionDraft.name).reverse second.toList =
      functions [] second.toList := by
    rw [← List.nil_append (fs.map FunctionDraft.name).reverse]
    exact functions_append fun name hname => hnames name (List.mem_reverse.mp hname)
  apply readDrafts_eq_error.mpr
  refine ⟨rest, ?_, ?_⟩
  · rw [functions_lines hfirst, hknown, hread]
    rfl
  · have hsuffix : rest <:+ second.toList := suffix_of_functions_error hread
    rw [hline, ← lineAt_extend first.toList hsuffix]
    simp

end

namespace Module

variable {first second text : String} {m k : Module} {gs : List FunctionDraft}

/-- The functions of two texts in turn make the join of their modules. -/
theorem ofDrafts_append (hfirst : readDrafts first = .ok fs) (hsecond : readDrafts second = .ok gs)
    (htext : readDrafts text = .ok (fs ++ gs))
    (hnames : (fs.map FunctionDraft.name).Disjoint (gs.map FunctionDraft.name)) :
    ofDrafts (fs ++ gs) = (ofDrafts fs).append (ofDrafts gs) := by
  rcases wellFormed_of_readDrafts hfirst with ⟨hfs, houtline⟩
  rcases wellFormed_of_readDrafts hsecond with ⟨hgs, houtline'⟩
  rcases wellFormed_of_readDrafts htext with ⟨hboth, hbothOutline⟩
  rw [← names_ofDrafts, ← names_ofDrafts] at hnames
  refine eq_of_outline_eq hboth (hfs.append hgs hnames) ?_
  rw [outline_append hfs hgs, hbothOutline, houtline, houtline', List.map_append]

/-- If a text stands for a module, then a text on the lines behind it is read as if it stood
alone: its tables come behind those of the first text if no function name is in both, a common
name is a fault, and a fault of its own stays the same on a later line. -/
theorem parse_lines (h : Module.parse first = .ok m) (second : String) :
    (forall k, Module.parse second = .ok k ->
      (m.functions.map Function.name).Disjoint (k.functions.map Function.name) ->
      Module.parse (first ++ "\n" ++ second) = .ok (m.append k)) ∧
    (forall k, Module.parse second = .ok k ->
      ¬(m.functions.map Function.name).Disjoint (k.functions.map Function.name) ->
      exists e, Module.parse (first ++ "\n" ++ second) = .error e) ∧
    forall e, Module.parse second = .error e ->
      (forall name, name ∈ m.functions.map Function.name ->
        ¬name.toList <:+: second.toList) ->
      Module.parse (first ++ "\n" ++ second) =
        .error ⟨e.line + (1 + first.toList.count '\n'), e.fault⟩ := by
  rcases parse_eq_ok.mp h with ⟨fs, hfirst, rfl⟩
  rw [names_ofDrafts]
  refine ⟨fun k hk hnames => ?_, fun k hk hnames => ?_, fun e he hnames => ?_⟩
  · rcases parse_eq_ok.mp hk with ⟨gs, hsecond, rfl⟩
    rw [names_ofDrafts] at hnames
    have hboth := (readDrafts_lines_eq_ok hfirst).mpr ⟨hsecond, hnames⟩
    exact parse_eq_ok.mpr ⟨_, hboth, ofDrafts_append hfirst hsecond hboth hnames⟩
  · rcases parse_eq_ok.mp hk with ⟨gs, hsecond, rfl⟩
    rw [names_ofDrafts] at hnames
    cases hboth : Module.parse (first ++ "\n" ++ second) with
    | error e => exact ⟨e, rfl⟩
    | ok both =>
        rcases parse_eq_ok.mp hboth with ⟨hs, hread, _⟩
        rcases readDrafts_lines_front hfirst hread with ⟨gs', rfl⟩
        rcases (readDrafts_lines_eq_ok hfirst).mp hread with ⟨hsecond', hdisjoint⟩
        cases hsecond.symm.trans hsecond'
        exact absurd hdisjoint hnames
  · exact parse_eq_error.mpr (readDrafts_lines_error hfirst (parse_eq_error.mp he) hnames)

def stepText : String :=
  "k(%a)\x7be:\nx %a ^e\x7d"

def stepModule : Module where
  functions := [⟨"k", false, ⟨0, 1⟩, ⟨0, 1⟩⟩]
  blocks := [⟨"e", ⟨0, 1⟩, ⟨1, 2⟩⟩]
  values :=
    [⟨"a", .argument, "", .scalar, ⟨0, 0⟩⟩, ⟨"", .instruction, "x", .void, ⟨0, 1⟩⟩]
  valueOperands := [0]
  blockSuccessors := [0]

theorem parse_lines_countText :
    Module.parse countText = .ok countModule ∧
      Module.parse (countText ++ "\n" ++ stepText) = .ok (countModule.append stepModule) ∧
      (exists e, Module.parse (countText ++ "\n" ++ "f()!") = .error e) ∧
      Module.parse (countText ++ "\n" ++ "k()\x7be:\nx %a\x7d") =
        .error ⟨6, .undefinedValue "a"⟩ := by
  have hcount : Module.parse countText = .ok countModule := by
    decide +kernel
  have hstep : Module.parse stepText = .ok stepModule := by
    decide +kernel
  have hagain : Module.parse "f()!" = .ok ⟨[⟨"f", true, ⟨0, 0⟩, ⟨0, 0⟩⟩], [], [], [], []⟩ := by
    decide +kernel
  have hfault : Module.parse "k()\x7be:\nx %a\x7d" = .error ⟨2, .undefinedValue "a"⟩ := by
    decide +kernel
  refine ⟨hcount, (parse_lines hcount _).1 _ hstep ?_, ?_, ?_⟩
  · simp [countModule, stepModule]
  · exact (parse_lines hcount _).2.1 _ hagain (by simp [countModule])
  · exact (parse_lines hcount _).2.2 _ hfault (by decide +kernel)

end Module
end Tir
end LoopNest
