import LoopNest.Proofs.Tir.Drafts

/-!
# Sizes of tables

Every entry of a table of a module comes from a word of its text.  So the tables together have
at most as many entries as the text has characters, and a position in a table is below the
length of the text.
-/

namespace LoopNest
namespace Tir

/-!
## Entries that a draft makes
-/

def InstructionDraft.entries (i : InstructionDraft) : Nat :=
  1 + i.operands.length

def BlockDraft.entries (b : BlockDraft) : Nat :=
  1 + (b.instructions.map InstructionDraft.entries).sum

def FunctionDraft.entries (f : FunctionDraft) : Nat :=
  1 + f.arguments.length + (f.blocks.map BlockDraft.entries).sum

/-!
## Entries that a text can hold
-/

variable {lines : Bool} {cs rest : List Char}

theorem Spaces.length_le (h : Spaces lines cs rest) : rest.length ≤ cs.length := by
  induction h with
  | none => exact Nat.le_refl _
  | blank _ _ _ ih => exact Nat.le_succ_of_le ih
  | comment _ _ _ ih =>
      rw [List.length_cons, List.length_append]
      omega

theorem NameText.length_lt {name : String} (h : NameText cs name rest) :
    rest.length < cs.length := by
  cases h with
  | name =>
      rw [List.length_cons, List.length_append]
      omega

theorem DefinitionText.length_lt {v : Variable} (h : DefinitionText cs v rest) :
    rest.length < cs.length := by
  cases h with
  | plain hname => exact Nat.lt_succ_of_lt hname.length_lt
  | annotated hname htype _ =>
      have hlt := hname.length_lt
      have hlt' := htype.length_lt
      rw [List.length_cons] at hlt ⊢
      omega

theorem OperandsText.length_le {os : List Operand} (h : OperandsText cs os rest) :
    rest.length + os.length ≤ cs.length := by
  induction h with
  | spaces hspaces _ ih => exact Nat.le_trans ih hspaces.length_le
  | comma _ ih => exact Nat.le_succ_of_le ih
  | value hname _ ih | block hname _ ih =>
      have hlt := hname.length_lt
      rw [List.length_cons, List.length_cons]
      omega
  | line => exact Nat.le_succ _
  | brace => exact Nat.le_refl _

theorem InstructionText.length_le {i : InstructionDraft} (h : InstructionText cs i rest) :
    rest.length + i.entries ≤ cs.length := by
  cases h with
  | instruction hresult hopcode hoperands hspaces =>
      rename_i code more front result opcode os
      have hcode : code.length ≤ cs.length := by
        cases hresult with
        | none => exact Nat.le_refl _
        | some hdefinition hbefore hafter =>
            have hlt := hdefinition.length_lt
            have hle := hbefore.length_le
            have hle' := hafter.length_le
            rw [List.length_cons] at hle
            omega
      have hlt := hopcode.length_lt
      have hle := hoperands.length_le
      have hle' := hspaces.length_le
      unfold InstructionDraft.entries
      change rest.length + (1 + os.length) ≤ cs.length
      omega

theorem InstructionsText.length_le {is : List InstructionDraft}
    (h : InstructionsText cs is rest) :
    rest.length + (is.map InstructionDraft.entries).sum ≤ cs.length := by
  induction h with
  | nil => exact Nat.le_refl _
  | cons hfirst _ ih =>
      have hle := hfirst.length_le
      rw [List.map_cons, List.sum_cons]
      omega

theorem BlockText.length_le {b : BlockDraft} (h : BlockText cs b rest) :
    rest.length + b.entries ≤ cs.length := by
  cases h with
  | block hlabel hspaces hinstructions =>
      have hlt := hlabel.length_lt
      have hle := hspaces.length_le
      have hle' := hinstructions.length_le
      rw [List.length_cons] at hlt
      unfold BlockDraft.entries
      dsimp only
      omega

theorem BlocksText.length_le {bs : List BlockDraft} (h : BlocksText cs bs rest) :
    rest.length + (bs.map BlockDraft.entries).sum ≤ cs.length := by
  induction h with
  | nil => exact Nat.le_refl _
  | cons hfirst _ ih =>
      have hle := hfirst.length_le
      rw [List.map_cons, List.sum_cons]
      omega

theorem ArgumentsText.length_le {vs : List Variable} (h : ArgumentsText cs vs rest) :
    rest.length + vs.length ≤ cs.length := by
  induction h with
  | none => exact Nat.le_refl _
  | last hdefinition hspaces =>
      have hlt := hdefinition.length_lt
      have hle := hspaces.length_le
      rw [List.length_singleton]
      omega
  | cons hdefinition hbefore hafter _ ih =>
      have hlt := hdefinition.length_lt
      have hle := hbefore.length_le
      have hle' := hafter.length_le
      rw [List.length_cons] at hle ⊢
      omega

theorem FunctionText.length_le {f : FunctionDraft} (h : FunctionText cs f rest) :
    rest.length + f.entries ≤ cs.length := by
  cases h with
  | function hname hopen hfront harguments hclose hending =>
      rename_i before after front more final name args body
      have hlt := hname.length_lt
      have h1 := hopen.length_le
      have h2 := hfront.length_le
      have h3 := harguments.length_le
      have h4 := hclose.length_le
      have h5 : rest.length + ((body.getD []).map BlockDraft.entries).sum ≤ final.length := by
        cases hending with
        | declaration => exact Nat.le_succ _
        | body hspaces hblocks _ =>
            have hle := hspaces.length_le
            have hle' := hblocks.length_le
            rw [List.length_cons] at hle' ⊢
            rw [Option.getD_some]
            omega
      rw [List.length_cons] at h1 h3
      unfold FunctionDraft.entries FunctionDraft.blocks
      dsimp only
      omega

theorem FunctionsText.length_le {fs : List FunctionDraft} (h : FunctionsText cs fs) :
    (fs.map FunctionDraft.entries).sum ≤ cs.length := by
  induction h with
  | nil => exact Nat.le_refl _
  | cons hfirst hspaces _ ih =>
      have hle := hfirst.length_le
      have hle' := hspaces.length_le
      rw [List.map_cons, List.sum_cons]
      omega

theorem ModuleText.length_le {fs : List FunctionDraft} (h : ModuleText cs fs) :
    (fs.map FunctionDraft.entries).sum ≤ cs.length := by
  rcases h with ⟨front, hspaces, hfunctions⟩
  exact Nat.le_trans hfunctions.length_le hspaces.length_le

/-!
## Entries of the tables
-/

theorem InstructionDraft.length_operands (i : InstructionDraft) :
    i.values.length + i.targets.length = i.operands.length := by
  unfold InstructionDraft.values InstructionDraft.targets
  induction i.operands with
  | nil => rfl
  | cons o os ih =>
      cases o with
      | value name | block name =>
          simp only [List.filterMap_cons, List.length_cons]
          omega

theorem sum_entries_instructions (is : List InstructionDraft) :
    (is.map InstructionDraft.entries).sum =
      is.length + (is.flatMap InstructionDraft.values).length +
        (is.flatMap InstructionDraft.targets).length := by
  induction is with
  | nil => rfl
  | cons i is ih =>
      have hoperands := i.length_operands
      rw [List.map_cons, List.sum_cons, ih, List.flatMap_cons, List.flatMap_cons,
        List.length_append, List.length_append, List.length_cons, InstructionDraft.entries]
      omega

theorem sum_entries_blocks (bs : List BlockDraft) :
    (bs.map BlockDraft.entries).sum =
      bs.length + (bs.flatMap BlockDraft.instructions).length +
        ((bs.flatMap BlockDraft.instructions).flatMap InstructionDraft.values).length +
        (bs.flatMap BlockDraft.targets).length := by
  induction bs with
  | nil => rfl
  | cons b bs ih =>
      rw [List.map_cons, List.sum_cons, ih, List.flatMap_cons, List.flatMap_cons,
        List.flatMap_append, List.length_append, List.length_append, List.length_append,
        List.length_cons, BlockDraft.entries, BlockDraft.targets, sum_entries_instructions]
      omega

namespace Module

def entries (m : Module) : Nat :=
  m.functions.length + m.blocks.length + m.values.length + m.valueOperands.length +
    m.blockSuccessors.length

theorem entries_append (m k : Module) : (m.append k).entries = m.entries + k.entries := by
  simp only [entries, append, List.length_append, List.length_map]
  omega

theorem entries_ofDraft (f : FunctionDraft) : (ofDraft f).entries = f.entries := by
  rw [entries, functions_ofDraft, length_blocks_ofDraft, length_values_ofDraft, ofDraft,
    List.length_map, List.length_map, FunctionDraft.entries, sum_entries_blocks,
    FunctionDraft.instructions, List.length_singleton]
  omega

theorem entries_ofDrafts (fs : List FunctionDraft) :
    (ofDrafts fs).entries = (fs.map FunctionDraft.entries).sum := by
  induction fs with
  | nil => rfl
  | cons f fs ih =>
      rw [ofDrafts, entries_append, entries_ofDraft, ih, List.map_cons, List.sum_cons]

end Module
end Tir
end LoopNest
