import LoopNest.Proofs.Tir.ReadFunctions
import LoopNest.Text.Basic

/-!
# Writing functions

A function is written as lines: a header, and for a function with a body the label and the
instructions of each block and a closing brace.  The lines of functions whose words are
identifiers derive from the grammar, and they are read back as these functions.
-/

namespace LoopNest

/-- The word for a type.  No value is a label, so the word for a label stands for nothing. -/
def ValueType.word : ValueType -> String
  | void => "void"
  | scalar => "i32"
  | vector lanes => "v" ++ toString lanes ++ "i32"
  | aggregate => "agg"
  | label => "label"

namespace Tir

/-!
## Lines of functions
-/

def Variable.text (v : Variable) : String :=
  "%" ++ v.name ++ ":" ++ v.type.word

def Operand.text : Operand -> String
  | .value name => "%" ++ name
  | .block name => "^" ++ name

def InstructionDraft.code (i : InstructionDraft) : String :=
  " ".intercalate (i.opcode :: i.operands.map Operand.text)

def InstructionDraft.line (i : InstructionDraft) : String :=
  match i.result with
  | none => i.code
  | some v => v.text ++ " = " ++ i.code

def BlockDraft.lines (b : BlockDraft) : List String :=
  (b.label ++ ":") :: b.instructions.map InstructionDraft.line

def FunctionDraft.header (f : FunctionDraft) : String :=
  f.name ++ "(" ++ ", ".intercalate (f.arguments.map Variable.text) ++ ")"

def FunctionDraft.lines (f : FunctionDraft) : List String :=
  match f.body with
  | none => [f.header ++ "!"]
  | some bs => (f.header ++ " \x7b") :: (bs.flatMap BlockDraft.lines ++ ["\x7d"])

def textOf (fs : List FunctionDraft) : String :=
  Text.ofLines (fs.flatMap FunctionDraft.lines)

end Tir

/-!
## Texts of lines
-/

namespace Text

@[simp] theorem toList_ofLines_nil : (ofLines []).toList = [] :=
  rfl

@[simp] theorem toList_ofLines_cons (line : String) (lines : List String) :
    (ofLines (line :: lines)).toList = line.toList ++ '\n' :: (ofLines lines).toList := by
  simp [ofLines]

@[simp] theorem toList_ofLines_append (xs ys : List String) :
    (ofLines (xs ++ ys)).toList = (ofLines xs).toList ++ (ofLines ys).toList := by
  simp [ofLines]

theorem toList_intercalate_cons (mark word : String) (words : List String) :
    (mark.intercalate (word :: words)).toList =
      word.toList ++ words.flatMap fun other => mark.toList ++ other.toList := by
  rw [String.toList_intercalate, List.map_cons]
  induction words generalizing word with
  | nil => simp
  | cons other words ih =>
      rw [List.map_cons, List.intercalate_cons_cons, ih, List.flatMap_cons, List.append_assoc,
        List.append_assoc]

end Text

namespace Tir

variable {cs rest : List Char} {name : String} {v : Variable} {i : InstructionDraft}
  {b : BlockDraft} {f : FunctionDraft}

/-!
## Words
-/

/-- The text cannot continue an identifier in front of it. -/
def EndsName (cs : List Char) : Prop :=
  forall d, cs.head? = some d -> continuesIdentifier d = false

theorem endsName_cons {c : Char} (h : continuesIdentifier c = false) (cs : List Char) :
    EndsName (c :: cs) := by
  intro d hd
  cases Option.some.inj hd
  exact h

theorem IsName.nameText (h : IsName name) (hrest : EndsName rest) :
    NameText (name.toList ++ rest) name rest := by
  rcases h with ⟨c, cs, rfl, hopens, hcontinues⟩
  rw [String.toList_ofList, List.cons_append]
  exact NameText.name hopens hcontinues hrest

theorem IsName.nameText_cons {mark : Char} (h : IsName name)
    (hmark : continuesIdentifier mark = false) (rest : List Char) :
    NameText (name.toList ++ mark :: rest) name (mark :: rest) :=
  h.nameText (endsName_cons hmark rest)

theorem spaces_space (lines : Bool) (cs : List Char) : Spaces lines (' ' :: cs) cs :=
  Spaces.blank (by decide) (fun heq => absurd heq (by decide)) (Spaces.none cs)

theorem spaces_line (cs : List Char) : Spaces true ('\n' :: cs) cs :=
  Spaces.blank (by decide) (fun _ => rfl) (Spaces.none cs)

theorem continues_of_digit {d : Char} (h : d.isDigit = true) : continuesIdentifier d = true := by
  have hall : forall code, code ∈ List.range' 48 10 ->
      continuesIdentifier (Char.ofNat code) = true := by decide
  have hcode : d.toNat ∈ List.range' 48 10 := by
    rw [List.mem_range'_1]
    simp only [Char.isDigit, Bool.and_eq_true, decide_eq_true_eq] at h
    exact ⟨h.1, Nat.lt_succ_of_le h.2⟩
  have hd := hall _ hcode
  rwa [Char.ofNat_toNat] at hd

theorem word_vector (lanes : Nat) :
    (ValueType.vector lanes).word =
      String.ofList ('v' :: (Nat.toDigits 10 lanes ++ "i32".toList)) := by
  apply String.toList_inj.mp
  simp [ValueType.word, Nat.toList_repr]

theorem isName_word (type : ValueType) : IsName type.word := by
  cases type with
  | void => exact ⟨'v', ['o', 'i', 'd'], rfl, by decide, List.all_eq_true.mp (by decide)⟩
  | scalar => exact ⟨'i', ['3', '2'], rfl, by decide, List.all_eq_true.mp (by decide)⟩
  | aggregate => exact ⟨'a', ['g', 'g'], rfl, by decide, List.all_eq_true.mp (by decide)⟩
  | label => exact ⟨'l', ['a', 'b', 'e', 'l'], rfl, by decide, List.all_eq_true.mp (by decide)⟩
  | vector lanes =>
      refine ⟨'v', Nat.toDigits 10 lanes ++ "i32".toList, word_vector lanes, by decide, ?_⟩
      intro d hd
      rcases List.mem_append.mp hd with hd | hd
      · exact continues_of_digit (Nat.isDigit_of_mem_toDigits (by decide) (by decide) hd)
      · have hall : "i32".toList.all continuesIdentifier = true := by decide
        exact List.all_eq_true.mp hall d hd

theorem typeName_word {type : ValueType} (h : type.Writable) : TypeName type.word type := by
  cases type with
  | void => exact TypeName.void
  | scalar => exact TypeName.scalar (by decide)
  | aggregate => exact TypeName.aggregate
  | label => exact absurd rfl h.1
  | vector lanes =>
      rcases h.2 lanes rfl with ⟨hpos, hlt⟩
      have hdigits : forall d, d ∈ Nat.toDigits 10 lanes -> d.isDigit = true := fun d hd =>
        Nat.isDigit_of_mem_toDigits (by decide) (by decide) hd
      rw [← Decimal.ofDigits_toDigits lanes] at hpos hlt
      have hword := TypeName.vector Nat.toDigits_ne_nil hdigits hpos hlt
        (by decide : "i32" ∈ ValueType.elementNames)
      rwa [Decimal.ofDigits_toDigits, ← word_vector] at hword

theorem Variable.Spelled.definitionText {mark : Char} (h : v.Spelled)
    (hmark : continuesIdentifier mark = false) (rest : List Char) :
    DefinitionText (v.text.toList ++ mark :: rest) v (mark :: rest) := by
  have hword := (isName_word v.type).nameText_cons hmark rest
  have hname := h.1.nameText_cons (by decide : continuesIdentifier ':' = false)
    (v.type.word.toList ++ mark :: rest)
  simpa [Variable.text] using DefinitionText.annotated hname hword (typeName_word h.2)

/-!
## Instructions
-/

theorem toList_code (i : InstructionDraft) :
    i.code.toList = i.opcode.toList ++ i.operands.flatMap fun o => ' ' :: o.text.toList := by
  rw [InstructionDraft.code, Text.toList_intercalate_cons, List.flatMap_map]
  rfl

theorem InstructionDraft.Spelled.isName_operand (h : i.Spelled) :
    forall o, o ∈ i.operands -> exists name, IsName name ∧ (o = .value name ∨ o = .block name) := by
  intro o ho
  cases o with
  | value name => exact ⟨name, h.values name (InstructionDraft.mem_values.mpr ho), Or.inl rfl⟩
  | block name => exact ⟨name, h.targets name (InstructionDraft.mem_targets.mpr ho), Or.inr rfl⟩

theorem operandsText_line (os : List Operand) (rest : List Char)
    (h : forall o, o ∈ os -> exists name, IsName name ∧ (o = .value name ∨ o = .block name)) :
    EndsName ((os.flatMap fun o => ' ' :: o.text.toList) ++ '\n' :: rest) ∧
      OperandsText ((os.flatMap fun o => ' ' :: o.text.toList) ++ '\n' :: rest) os rest := by
  -- the name of an operand ends only if what is behind it ends names, so both are shown together
  induction os with
  | nil => exact ⟨endsName_cons (by decide) rest, OperandsText.line rest⟩
  | cons o os ih =>
      rw [List.forall_mem_cons] at h
      rcases ih h.2 with ⟨hends, hrest⟩
      rcases h.1 with ⟨name, hname, ho⟩
      rw [List.flatMap_cons, List.append_assoc, List.cons_append]
      refine ⟨endsName_cons (by decide) _, OperandsText.spaces (spaces_space _ _) ?_⟩
      rcases ho with rfl | rfl
      · have htext := OperandsText.value (hname.nameText hends) hrest
        simpa [Operand.text] using htext
      · have htext := OperandsText.block (hname.nameText hends) hrest
        simpa [Operand.text] using htext

theorem InstructionDraft.Spelled.instructionText (h : i.Spelled) (rest : List Char) :
    InstructionText (i.line.toList ++ '\n' :: rest) i rest := by
  rcases operandsText_line i.operands rest h.isName_operand with ⟨hends, hoperands⟩
  have hopcode := h.opcode.nameText hends
  rw [← List.append_assoc, ← toList_code] at hopcode
  rcases i with ⟨result, opcode, os⟩
  cases result with
  | none =>
      exact InstructionText.instruction (ResultText.none _) hopcode hoperands (Spaces.none rest)
  | some v =>
      have hv := (h.result v rfl).definitionText (by decide : continuesIdentifier ' ' = false)
      have htext := InstructionText.instruction
        (ResultText.some (hv _) (spaces_space true _) (spaces_space true _)) hopcode hoperands
        (Spaces.none rest)
      simpa [InstructionDraft.line] using htext

theorem instructionsText_lines (is : List InstructionDraft) (rest : List Char)
    (h : forall i, i ∈ is -> i.Spelled) :
    InstructionsText ((Text.ofLines (is.map InstructionDraft.line)).toList ++ rest) is rest := by
  induction is with
  | nil => exact InstructionsText.nil rest
  | cons i is ih =>
      rw [List.forall_mem_cons] at h
      have hfirst := h.1.instructionText
        ((Text.ofLines (is.map InstructionDraft.line)).toList ++ rest)
      simpa using InstructionsText.cons hfirst (ih h.2)

/-!
## Functions
-/

theorem BlockDraft.Spelled.blockText (h : b.Spelled) (rest : List Char) :
    BlockText ((Text.ofLines b.lines).toList ++ rest) b rest := by
  have hinstructions := instructionsText_lines b.instructions rest h.instructions
  have hlabel := h.label.nameText_cons (by decide : continuesIdentifier ':' = false)
  simpa [BlockDraft.lines] using BlockText.block (hlabel _) (spaces_line _) hinstructions

theorem blocksText_lines (bs : List BlockDraft) (rest : List Char)
    (h : forall b, b ∈ bs -> b.Spelled) :
    BlocksText ((Text.ofLines (bs.flatMap BlockDraft.lines)).toList ++ rest) bs rest := by
  induction bs with
  | nil => exact BlocksText.nil rest
  | cons b bs ih =>
      rw [List.forall_mem_cons] at h
      have hfirst := h.1.blockText
        ((Text.ofLines (bs.flatMap BlockDraft.lines)).toList ++ rest)
      simpa using BlocksText.cons hfirst (ih h.2)

theorem argumentsText_cons (v : Variable) (vs : List Variable) (rest : List Char)
    (h : forall w, w ∈ v :: vs -> w.Spelled) :
    ArgumentsText (v.text.toList ++ ((vs.flatMap fun w => ", ".toList ++ w.text.toList) ++
      ')' :: rest)) (v :: vs) (')' :: rest) := by
  induction vs generalizing v with
  | nil =>
      rw [List.forall_mem_singleton] at h
      have hv := h.definitionText (by decide : continuesIdentifier ')' = false)
      exact ArgumentsText.last (hv rest) (Spaces.none _)
  | cons w vs ih =>
      rw [List.forall_mem_cons] at h
      have hv := h.1.definitionText (by decide : continuesIdentifier ',' = false)
      have htext := ArgumentsText.cons (hv _) (Spaces.none _) (spaces_space true _) (ih w h.2)
      simpa using htext

theorem argumentsText_list (vs : List Variable) (rest : List Char)
    (h : forall v, v ∈ vs -> v.Spelled) :
    ArgumentsText ((", ".intercalate (vs.map Variable.text)).toList ++ ')' :: rest) vs
      (')' :: rest) := by
  cases vs with
  | nil => exact ArgumentsText.none _
  | cons v vs =>
      rw [List.map_cons, Text.toList_intercalate_cons, List.flatMap_map, List.append_assoc]
      exact argumentsText_cons v vs rest h

theorem FunctionDraft.Spelled.functionText (h : f.Spelled) (rest : List Char) :
    FunctionText ((Text.ofLines f.lines).toList ++ rest) f ('\n' :: rest) := by
  have hname := h.name.nameText_cons (by decide : continuesIdentifier '(' = false)
  have harguments := fun rest => argumentsText_list f.arguments rest h.arguments
  have hblocks := h.blocks
  have hbody := h.body
  rcases f with ⟨name, args, body⟩
  cases body with
  | none =>
      have htext := FunctionText.function (hname _) (Spaces.none _) (Spaces.none _)
        (harguments _) (Spaces.none _) (EndingText.declaration ('\n' :: rest))
      simpa [FunctionDraft.lines, FunctionDraft.header] using htext
  | some bs =>
      have hne : bs ≠ [] := fun heq => hbody (congrArg some heq)
      have hending := EndingText.body (spaces_line _)
        (blocksText_lines bs ('}' :: '\n' :: rest) hblocks) hne
      have htext := FunctionText.function (hname _) (Spaces.none _) (Spaces.none _)
        (harguments _) (spaces_space true _) hending
      simpa [FunctionDraft.lines, FunctionDraft.header] using htext

theorem functionsText_lines (fs : List FunctionDraft) (h : forall f, f ∈ fs -> f.Spelled) :
    FunctionsText (textOf fs).toList fs := by
  induction fs with
  | nil => exact FunctionsText.nil
  | cons f fs ih =>
      rw [List.forall_mem_cons] at h
      have hfirst := h.1.functionText (textOf fs).toList
      have htext := FunctionsText.cons hfirst (spaces_line _) (ih h.2)
      simpa [textOf] using htext

/-- Functions whose words are identifiers and whose names are in order are read back from their
text. -/
theorem readDrafts_textOf (fs : List FunctionDraft) (hspelled : forall f, f ∈ fs -> f.Spelled)
    (hscoped : forall f, f ∈ fs -> f.Scoped) (hnames : (fs.map FunctionDraft.name).Nodup) :
    readDrafts (textOf fs) = .ok fs :=
  readDrafts_eq_ok.mpr ⟨⟨_, Spaces.none _, functionsText_lines fs hspelled⟩, hnames, hscoped⟩

end Tir
end LoopNest
