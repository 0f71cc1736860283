import LoopNest.Tir.Lexical
import LoopNest.Tir.Module

/-!
# Reading modules

Functions, blocks and instructions are read from left to right, and a module is made of them.
-/

namespace LoopNest
namespace Tir

/-!
## Reading functions

A module text is a list of functions.  Each function is read from left to right into a
draft, and a name that is written twice is refused where its second definition stands.
Once the body of a function is closed, every operand must name a value or a block of it.

Every repetition ends because a step that succeeds leaves a shorter text.
-/

/-!
### Instructions

The operands of an instruction end with the line or before a closing brace.  Commas may
stand anywhere between them.
-/

def operands (opcode : String) (cs : List Char) : Attempt (List Operand × List Char) :=
  match _hskip : skipInline cs with
  | [] => .ok ([], [])
  | c :: rest =>
      if c = '%' then
        match _hname : identifier rest with
        | .error e => .error e
        | .ok (name, rest) => consItem (.value name) (operands opcode rest)
      else if c = '^' then
        match _hname : identifier rest with
        | .error e => .error e
        | .ok (name, rest) => consItem (.block name) (operands opcode rest)
      else if c = ',' then
        operands opcode rest
      else if c = '\n' ∨ c = '}' then
        .ok ([], c :: rest)
      else
        .error (.unexpectedOperand c opcode, c :: rest)
termination_by cs.length
decreasing_by
  all_goals
    have hle := skipInline_length_le cs
    rw [_hskip, List.length_cons] at hle
    try have hlt := identifier_length_lt _hname
    omega

theorem operands_length_le {opcode : String} {cs rest : List Char} {os : List Operand}
    (h : operands opcode cs = .ok (os, rest)) : rest.length ≤ cs.length := by
  fun_induction operands opcode cs generalizing os rest with
  | case1 cs hskip =>
      simp only [Except.ok.injEq, Prod.mk.injEq] at h
      rw [← h.2]
      exact Nat.zero_le _
  | case2 cs front e hname hskip => simp at h
  | case3 cs front name afterName hname hskip ih =>
      obtain ⟨more, hmore, _⟩ := consItem_eq_ok.mp h
      have hle := skipInline_length_le cs
      rw [hskip, List.length_cons] at hle
      have hlt := identifier_length_lt hname
      have hrest := ih hmore
      omega
  | case4 cs front e hname hskip => simp at h
  | case5 cs front name afterName hname hskip hvalue ih =>
      obtain ⟨more, hmore, _⟩ := consItem_eq_ok.mp h
      have hle := skipInline_length_le cs
      rw [hskip, List.length_cons] at hle
      have hlt := identifier_length_lt hname
      have hrest := ih hmore
      omega
  | case6 cs front hskip hvalue hblock ih =>
      have hle := skipInline_length_le cs
      rw [hskip, List.length_cons] at hle
      have hrest := ih h
      omega
  | case7 cs c front hskip hvalue hblock hcomma hend =>
      simp only [Except.ok.injEq, Prod.mk.injEq] at h
      rw [← h.2, ← hskip]
      exact skipInline_length_le cs
  | case8 => simp at h

/-- The result of an instruction, if one is written in front of the opcode. -/
def result (cs : List Char) : Attempt (Option Variable × List Char) :=
  match cs with
  | '%' :: _ => do
      let (v, rest) <- definition cs
      let rest <- expect '=' rest
      return (some v, rest)
  | _ => .ok (none, cs)

theorem result_length_le {cs rest : List Char} {v : Option Variable}
    (h : result cs = .ok (v, rest)) : rest.length ≤ cs.length := by
  unfold result at h
  split at h
  · simp only [bind_eq_ok] at h
    obtain ⟨⟨w, afterDefinition⟩, hdefinition, afterMark, hmark, h⟩ := h
    have h1 := definition_length_lt hdefinition
    have h2 : afterMark.length < afterDefinition.length := expect_length_lt hmark
    cases h
    omega
  · cases h
    exact Nat.le_refl _

/-- The instruction with its parts, unless its result is one of the values `defined`
before it; `rest` is what follows it. -/
def accept (defined : List String) (i : InstructionDraft) (rest : List Char) :
    Attempt (InstructionDraft × List Char) :=
  match i.result with
  | none => .ok (i, rest)
  | some v =>
      if v.name ∈ defined then .error (.redefinition v.name, rest) else .ok (i, rest)

def instruction (defined : List String) (cs : List Char) :
    Attempt (InstructionDraft × List Char) := do
  let (result, rest) <- result cs
  let (opcode, rest) <- word rest
  let (operands, rest) <- operands opcode rest
  accept defined ⟨result, opcode, operands⟩ rest

theorem accept_eq_ok {defined : List String} {i j : InstructionDraft} {cs rest : List Char}
    (h : accept defined i cs = .ok (j, rest)) : j = i ∧ rest = cs := by
  unfold accept at h
  split at h
  · cases h
    exact ⟨rfl, rfl⟩
  · split at h
    · simp at h
    · cases h
      exact ⟨rfl, rfl⟩

theorem instruction_length_lt {defined : List String} {cs rest : List Char}
    {i : InstructionDraft} (h : instruction defined cs = .ok (i, rest)) :
    rest.length < cs.length := by
  simp only [instruction, bind_eq_ok] at h
  obtain ⟨⟨v, afterResult⟩, hresult, ⟨opcode, afterOpcode⟩, hopcode, ⟨os, afterOperands⟩,
    hoperands, h⟩ := h
  have h1 := result_length_le hresult
  have h2 : afterOpcode.length < afterResult.length := word_length_lt hopcode
  have h3 : afterOperands.length ≤ afterOpcode.length := operands_length_le hoperands
  have h4 : rest = afterOperands := (accept_eq_ok h).2
  rw [h4]
  omega

/-!
### Blocks
-/

/-- Does the instruction list end here?  It ends with the text, at a closing brace and
before the label of the next block. -/
def endsBlock (cs : List Char) : Bool :=
  match cs with
  | [] => true
  | c :: _ =>
      if c = '}' then true
      else if c = '%' then false
      else
        match identifier cs with
        | .ok (_, ':' :: _) => true
        | _ => false

def instructions (defined : List String) (cs : List Char) :
    Attempt (List InstructionDraft × List Char) :=
  if endsBlock (skip cs) then .ok ([], skip cs)
  else
    match _hstep : instruction defined (skip cs) with
    | .error e => .error e
    | .ok (i, rest) => consItem i (instructions (i.defines ++ defined) rest)
termination_by cs.length
decreasing_by
  have hle := skip_length_le cs
  have hlt := instruction_length_lt _hstep
  omega

theorem instructions_length_le {defined : List String} {cs rest : List Char}
    {is : List InstructionDraft} (h : instructions defined cs = .ok (is, rest)) :
    rest.length ≤ cs.length := by
  fun_induction instructions defined cs generalizing is rest with
  | case1 defined cs hend =>
      cases h
      exact skip_length_le cs
  | case2 => simp at h
  | case3 defined cs hend i afterFirst hfirst ih =>
      obtain ⟨more, hmore, _⟩ := consItem_eq_ok.mp h
      have hle := skip_length_le cs
      have hlt := instruction_length_lt hfirst
      have hrest := ih hmore
      omega

/-- One block: its label and its instructions.  The label must not be one of the
`labels` before it. -/
def block (labels defined : List String) (cs : List Char) :
    Attempt (BlockDraft × List Char) :=
  match word cs with
  | .error e => .error e
  | .ok (label, ':' :: rest) =>
      if label ∈ labels then .error (.duplicateBlock label, rest)
      else
        match instructions defined rest with
        | .error e => .error e
        | .ok (is, rest) => .ok (⟨label, is⟩, rest)
  | .ok (label, rest) => .error (.expectedLabel label, rest)

theorem block_length_lt {labels defined : List String} {cs rest : List Char}
    {b : BlockDraft} (h : block labels defined cs = .ok (b, rest)) :
    rest.length < cs.length := by
  unfold block at h
  split at h
  · simp at h
  · rename_i hlabel
    have h1 := word_length_lt hlabel
    rw [List.length_cons] at h1
    split at h
    · simp at h
    · split at h
      · simp at h
      · rename_i his
        have h2 := instructions_length_le his
        cases h
        omega
  · simp at h

/-- The blocks up to the closing brace of the body of `function`. -/
def blocks (function : String) (labels defined : List String) (cs : List Char) :
    Attempt (List BlockDraft × List Char) :=
  match _hskip : skip cs with
  | [] => .error (.unterminatedBody function, [])
  | c :: rest =>
      if c = '}' then .ok ([], rest)
      else
        match _hstep : block labels defined (c :: rest) with
        | .error e => .error e
        | .ok (b, rest) =>
            consItem b (blocks function (b.label :: labels) (b.defines ++ defined) rest)
termination_by cs.length
decreasing_by
  have hle := skip_length_le cs
  have hlt := block_length_lt _hstep
  rw [_hskip] at hle
  omega

theorem blocks_length_le {function : String} {labels defined : List String}
    {cs rest : List Char} {bs : List BlockDraft}
    (h : blocks function labels defined cs = .ok (bs, rest)) :
    rest.length ≤ cs.length := by
  fun_induction blocks function labels defined cs generalizing bs rest with
  | case1 => simp at h
  | case2 labels defined cs front hskip =>
      cases h
      have hle := skip_length_le cs
      rw [hskip, List.length_cons] at hle
      omega
  | case3 => simp at h
  | case4 labels defined cs c front hskip hc b afterFirst hfirst ih =>
      obtain ⟨more, hmore, _⟩ := consItem_eq_ok.mp h
      have hle := skip_length_le cs
      rw [hskip] at hle
      have hlt := block_length_lt hfirst
      have hrest := ih hmore
      omega

/-!
### Functions
-/

/-- The arguments up to the closing parenthesis.  A comma may follow the last one. -/
def arguments (seen : List String) (cs : List Char) : Attempt (List Variable × List Char) :=
  match skip cs with
  | ')' :: rest => .ok ([], rest)
  | _ =>
      match _hstep : definition cs with
      | .error e => .error e
      | .ok (v, rest) =>
          if v.name ∈ seen then .error (.duplicateArgument v.name, rest)
          else
            match _hskip : skip rest with
            | ',' :: more => consItem v (arguments (v.name :: seen) more)
            | ')' :: more => consItem v (arguments (v.name :: seen) (')' :: more))
            | other => .error (.openArguments, other)
termination_by cs.length
decreasing_by
  all_goals
    have hle := skip_length_le rest
    have hlt := definition_length_lt _hstep
    rw [_hskip, List.length_cons] at hle
    try rw [List.length_cons]
    omega

theorem arguments_length_le {seen : List String} {cs rest : List Char} {vs : List Variable}
    (h : arguments seen cs = .ok (vs, rest)) : rest.length ≤ cs.length := by
  fun_induction arguments seen cs generalizing vs rest with
  | case1 seen cs front hskip =>
      cases h
      have hle := skip_length_le cs
      rw [hskip, List.length_cons] at hle
      omega
  | case2 => simp at h
  | case3 => simp at h
  | case4 seen cs v afterFirst hfirst hnew more hskip hopen ih =>
      obtain ⟨vs', hmore, _⟩ := consItem_eq_ok.mp h
      have hle := skip_length_le afterFirst
      rw [hskip, List.length_cons] at hle
      have hlt := definition_length_lt hfirst
      have hrest := ih hmore
      omega
  | case5 seen cs v afterFirst hfirst hnew more hskip hopen ih =>
      obtain ⟨vs', hmore, _⟩ := consItem_eq_ok.mp h
      have hle := skip_length_le afterFirst
      rw [hskip] at hle
      have hlt := definition_length_lt hfirst
      have hrest := ih hmore
      omega
  | case6 => simp at h

/-- The body of `function` with the arguments `args`; `rest` follows the opening brace. -/
def body (function : String) (args : List Variable) (cs : List Char) :
    Attempt (List BlockDraft × List Char) :=
  match blocks function [] (args.map Variable.name) cs with
  | .error e => .error e
  | .ok ([], rest) => .error (.emptyBody function, rest)
  | .ok (bs, rest) => .ok (bs, rest)

/-- What follows the argument list: an exclamation mark for a declaration, or a body. -/
def ending (name : String) (args : List Variable) (cs : List Char) :
    Attempt (Option (List BlockDraft) × List Char) :=
  match skip cs with
  | '!' :: rest => .ok (none, rest)
  | _ => do
      let rest <- expect '{' cs
      let (bs, rest) <- body name args rest
      return (some bs, rest)

/-- The function, unless one of its operands names nothing; `rest` is what follows it.
Values are looked up before blocks. -/
def resolve (f : FunctionDraft) (rest : List Char) : Attempt (FunctionDraft × List Char) :=
  match f.undefinedValue? with
  | some name => .error (.undefinedValue name, rest)
  | none =>
      match f.undefinedBlock? with
      | some name => .error (.undefinedBlock name, rest)
      | none => .ok (f, rest)

/-- The name of a function, unless it is one of the names `known` before it. -/
def freshName (known : List String) (cs : List Char) : Attempt (String × List Char) :=
  match word cs with
  | .error e => .error e
  | .ok (name, rest) =>
      if name ∈ known then .error (.duplicateFunction name, rest) else .ok (name, rest)

/-- One function, named unlike the functions `known` before it. -/
def function (known : List String) (cs : List Char) :
    Attempt (FunctionDraft × List Char) := do
  let (name, rest) <- freshName known cs
  let rest <- expect '(' rest
  let (args, rest) <- arguments [] rest
  let (body, rest) <- ending name args rest
  resolve ⟨name, args, body⟩ rest

theorem body_length_le {name : String} {args : List Variable} {cs rest : List Char}
    {bs : List BlockDraft} (h : body name args cs = .ok (bs, rest)) :
    rest.length ≤ cs.length := by
  unfold body at h
  split at h
  · simp at h
  · simp at h
  · rename_i hblocks
    have hle := blocks_length_le hblocks
    cases h
    exact hle

theorem ending_length_lt {name : String} {args : List Variable} {cs rest : List Char}
    {b : Option (List BlockDraft)} (h : ending name args cs = .ok (b, rest)) :
    rest.length < cs.length := by
  unfold ending at h
  split at h
  · rename_i hskip
    have hle := skip_length_le cs
    rw [hskip, List.length_cons] at hle
    cases h
    omega
  · simp only [bind_eq_ok] at h
    obtain ⟨afterMark, hmark, ⟨bs, afterBody⟩, hbody, h⟩ := h
    have h1 := expect_length_lt hmark
    have h2 := body_length_le hbody
    cases h
    change afterBody.length < cs.length
    omega

theorem resolve_eq_ok {f g : FunctionDraft} {cs rest : List Char}
    (h : resolve f cs = .ok (g, rest)) : g = f ∧ rest = cs := by
  unfold resolve at h
  split at h
  · simp at h
  · split at h
    · simp at h
    · cases h
      exact ⟨rfl, rfl⟩

theorem freshName_length_lt {known : List String} {cs rest : List Char} {name : String}
    (h : freshName known cs = .ok (name, rest)) : rest.length < cs.length := by
  unfold freshName at h
  split at h
  · simp at h
  · rename_i hname
    split at h
    · simp at h
    · cases h
      exact word_length_lt hname

theorem function_length_lt {known : List String} {cs rest : List Char} {f : FunctionDraft}
    (h : function known cs = .ok (f, rest)) : rest.length < cs.length := by
  simp only [function, bind_eq_ok] at h
  obtain ⟨⟨name, afterName⟩, hname, afterMark, hmark, ⟨args, afterArguments⟩, harguments,
    ⟨b, afterBody⟩, hbody, h⟩ := h
  have h1 := freshName_length_lt hname
  have h2 : afterMark.length < afterName.length := expect_length_lt hmark
  have h3 := arguments_length_le harguments
  have h4 : afterBody.length < afterArguments.length := ending_length_lt hbody
  have h5 : rest = afterBody := (resolve_eq_ok h).2
  rw [h5]
  omega

/-!
### Texts
-/

/-- The functions up to the end of the text, named unlike the functions `known` before
them. -/
def functions (known : List String) (cs : List Char) : Attempt (List FunctionDraft) :=
  match _hskip : skip cs with
  | [] => .ok []
  | c :: front =>
      match _hstep : function known (c :: front) with
      | .error e => .error e
      | .ok (f, rest) => (functions (f.name :: known) rest).map (f :: ·)
termination_by cs.length
decreasing_by
  have hle := skip_length_le cs
  have hlt := function_length_lt _hstep
  rw [_hskip] at hle
  omega

/-- The functions of a module text in order, or the first fault in it. -/
def readDrafts (text : String) : Except ReadError (List FunctionDraft) :=
  match functions [] text.toList with
  | .ok fs => .ok fs
  | .error (fault, rest) => .error ⟨lineAt text.toList rest, fault⟩

/-!
## From text to tables

A text that reads as a list of functions stands for the module of these functions.
-/

def Module.parse (text : String) : Except ReadError Module :=
  (readDrafts text).map Module.ofDrafts

end Tir
end LoopNest
