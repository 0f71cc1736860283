import LoopNest.Tir.Lexical

/-!
# The grammar of module texts

The grammar is given by rules and without a reader.  Each rule relates a text to what its
front is and to the rest behind it, so a rule can say where a word or a comment has to end.
The rules say nothing about which names are defined; that is left to `FunctionDraft.Scoped`.
-/

namespace LoopNest
namespace Tir

/-!
## Words and what stands between them
-/

/-- The text is empty or goes on with a line feed. -/
def EndsLine (cs : List Char) : Prop :=
  forall c, cs.head? = some c -> c = '\n'

/-- The text `cs` is a run of blanks and comments followed by `rest`.  A comment reaches from
a semicolon to just before the next line feed or to the end of the text.  Without `lines` no
line feed is in the run. -/
inductive Spaces (lines : Bool) : List Char -> List Char -> Prop where
  | none (cs : List Char) : Spaces lines cs cs
  | blank {c : Char} {cs rest : List Char} :
      Text.isBlank c = true -> (c = '\n' -> lines = true) -> Spaces lines cs rest ->
      Spaces lines (c :: cs) rest
  | comment {text cs rest : List Char} :
      '\n' ∉ text -> EndsLine cs -> Spaces lines cs rest ->
      Spaces lines (';' :: (text ++ cs)) rest

/-- The text `cs` is an identifier, in its full length, followed by `rest`. -/
inductive NameText : List Char -> String -> List Char -> Prop where
  | name {c : Char} {cs rest : List Char} :
      opensIdentifier c = true -> (forall d, d ∈ cs -> continuesIdentifier d = true) ->
      (forall d, rest.head? = some d -> continuesIdentifier d = false) ->
      NameText (c :: (cs ++ rest)) (String.ofList (c :: cs)) rest

/-- The word names the type. -/
inductive TypeName : String -> ValueType -> Prop where
  | scalar {name : String} : name ∈ ValueType.elementNames -> TypeName name .scalar
  | void : TypeName "void" .void
  | aggregate : TypeName "agg" .aggregate
  | vector {digits : List Char} {element : String} :
      digits ≠ [] -> (forall d, d ∈ digits -> d.isDigit = true) ->
      0 < Decimal.ofDigits digits -> Decimal.ofDigits digits < ValueType.laneBound ->
      element ∈ ValueType.elementNames ->
      TypeName (String.ofList ('v' :: (digits ++ element.toList)))
        (.vector (Decimal.ofDigits digits))

/-- The definition of a value, without blanks inside. -/
inductive DefinitionText : List Char -> Variable -> List Char -> Prop where
  | plain {cs rest : List Char} {name : String} :
      NameText cs name rest -> DefinitionText ('%' :: cs) ⟨name, .scalar⟩ rest
  | annotated {cs more rest : List Char} {name word : String} {type : ValueType} :
      NameText cs name (':' :: more) -> NameText more word rest -> TypeName word type ->
      DefinitionText ('%' :: cs) ⟨name, type⟩ rest

/-!
## Instructions and blocks
-/

/-- The operands of an instruction, in any arrangement of blanks, comments and commas.  They
end with a line feed, or before a closing brace. -/
inductive OperandsText : List Char -> List Operand -> List Char -> Prop where
  | spaces {cs more rest : List Char} {os : List Operand} :
      Spaces false cs more -> OperandsText more os rest -> OperandsText cs os rest
  | comma {cs rest : List Char} {os : List Operand} :
      OperandsText cs os rest -> OperandsText (',' :: cs) os rest
  | value {cs more rest : List Char} {name : String} {os : List Operand} :
      NameText cs name more -> OperandsText more os rest ->
      OperandsText ('%' :: cs) (.value name :: os) rest
  | block {cs more rest : List Char} {name : String} {os : List Operand} :
      NameText cs name more -> OperandsText more os rest ->
      OperandsText ('^' :: cs) (.block name :: os) rest
  | line (rest : List Char) : OperandsText ('\n' :: rest) [] rest
  | brace (rest : List Char) : OperandsText ('}' :: rest) [] ('}' :: rest)

/-- The result of an instruction, if it has one, up to the opcode. -/
inductive ResultText : List Char -> Option Variable -> List Char -> Prop where
  | none (cs : List Char) : ResultText cs none cs
  | some {cs before after rest : List Char} {v : Variable} :
      DefinitionText cs v before -> Spaces true before ('=' :: after) ->
      Spaces true after rest -> ResultText cs (some v) rest

/-- An instruction and the blanks behind it. -/
inductive InstructionText : List Char -> InstructionDraft -> List Char -> Prop where
  | instruction {cs code more front rest : List Char} {result : Option Variable}
      {opcode : String} {os : List Operand} :
      ResultText cs result code -> NameText code opcode more -> OperandsText more os front ->
      Spaces true front rest -> InstructionText cs ⟨result, opcode, os⟩ rest

inductive InstructionsText : List Char -> List InstructionDraft -> List Char -> Prop where
  | nil (cs : List Char) : InstructionsText cs [] cs
  | cons {cs more rest : List Char} {i : InstructionDraft} {is : List InstructionDraft} :
      InstructionText cs i more -> InstructionsText more is rest ->
      InstructionsText cs (i :: is) rest

/-- A label, which a colon follows at once, and its instructions. -/
inductive BlockText : List Char -> BlockDraft -> List Char -> Prop where
  | block {cs colon more rest : List Char} {label : String} {is : List InstructionDraft} :
      NameText cs label (':' :: colon) -> Spaces true colon more ->
      InstructionsText more is rest -> BlockText cs ⟨label, is⟩ rest

inductive BlocksText : List Char -> List BlockDraft -> List Char -> Prop where
  | nil (cs : List Char) : BlocksText cs [] cs
  | cons {cs more rest : List Char} {b : BlockDraft} {bs : List BlockDraft} :
      BlockText cs b more -> BlocksText more bs rest -> BlocksText cs (b :: bs) rest

/-!
## Functions and modules
-/

/-- Arguments between commas.  A comma may follow the last one. -/
inductive ArgumentsText : List Char -> List Variable -> List Char -> Prop where
  | none (cs : List Char) : ArgumentsText cs [] cs
  | last {cs more rest : List Char} {v : Variable} :
      DefinitionText cs v more -> Spaces true more rest -> ArgumentsText cs [v] rest
  | cons {cs before after more rest : List Char} {v : Variable} {vs : List Variable} :
      DefinitionText cs v before -> Spaces true before (',' :: after) ->
      Spaces true after more -> ArgumentsText more vs rest -> ArgumentsText cs (v :: vs) rest

/-- What follows the argument list: an exclamation mark, or at least one block between
braces. -/
inductive EndingText : List Char -> Option (List BlockDraft) -> List Char -> Prop where
  | declaration (rest : List Char) : EndingText ('!' :: rest) none rest
  | body {cs front rest : List Char} {bs : List BlockDraft} :
      Spaces true cs front -> BlocksText front bs ('}' :: rest) -> bs ≠ [] ->
      EndingText ('{' :: cs) (some bs) rest

inductive FunctionText : List Char -> FunctionDraft -> List Char -> Prop where
  | function {cs before after front more final rest : List Char} {name : String}
      {args : List Variable} {body : Option (List BlockDraft)} :
      NameText cs name before -> Spaces true before ('(' :: after) ->
      Spaces true after front -> ArgumentsText front args (')' :: more) ->
      Spaces true more final -> EndingText final body rest ->
      FunctionText cs ⟨name, args, body⟩ rest

/-- Functions up to the end of the text, each followed by blanks. -/
inductive FunctionsText : List Char -> List FunctionDraft -> Prop where
  | nil : FunctionsText [] []
  | cons {cs more rest : List Char} {f : FunctionDraft} {fs : List FunctionDraft} :
      FunctionText cs f more -> Spaces true more rest -> FunctionsText rest fs ->
      FunctionsText cs (f :: fs)

def ModuleText (cs : List Char) (fs : List FunctionDraft) : Prop :=
  exists front, Spaces true cs front ∧ FunctionsText front fs

/-!
## Names
-/

def FunctionDraft.definedNames (f : FunctionDraft) : List String :=
  f.arguments.map Variable.name ++ f.blocks.flatMap BlockDraft.defines

/-- No name of a function is defined twice, and its operands name values and blocks of it. -/
structure FunctionDraft.Scoped (f : FunctionDraft) : Prop where
  nodup_values : f.definedNames.Nodup
  nodup_labels : f.labels.Nodup
  values_defined : forall name, name ∈ f.instructions.flatMap InstructionDraft.values ->
    name ∈ f.definedNames
  targets_defined : forall name, name ∈ f.blocks.flatMap BlockDraft.targets ->
    name ∈ f.labels

end Tir
end LoopNest
