import LoopNest.Proofs.Tir.ReadFunctions

/-!
# What readers leave

A reader takes characters from the front of a text only.  So what it leaves is the end of the
text that it was given, also when it stops at a fault.
-/

namespace LoopNest
namespace Tir

variable {alpha beta : Type} {left : alpha -> List Char} {next : beta -> List Char}
  {cs ds rest : List Char} {name : String}

/-- What the attempt leaves is an end of `cs`.  Without a fault that is `left` of its answer. -/
def Keeps (left : alpha -> List Char) (cs : List Char) : Attempt alpha -> Prop
  | .ok x => left x <:+ cs
  | .error e => e.2 <:+ cs

theorem Keeps.of_suffix {a : Attempt alpha} (h : Keeps left cs a) (hcs : cs <:+ ds) :
    Keeps left ds a := by
  cases a with
  | ok x => exact List.IsSuffix.trans h hcs
  | error e => exact List.IsSuffix.trans h hcs

theorem Keeps.ok {a : Attempt alpha} {x : alpha} (h : Keeps left cs a) (ha : a = .ok x) :
    left x <:+ cs := by
  rwa [ha] at h

theorem Keeps.error {a : Attempt alpha} {e : Fault × List Char} (h : Keeps left cs a)
    (ha : a = .error e) : e.2 <:+ cs := by
  rwa [ha] at h

theorem Keeps.bind {a : Attempt alpha} {f : alpha -> Attempt beta} (h : Keeps left cs a)
    (hf : forall x, Keeps next (left x) (f x)) : Keeps next cs (a >>= f) := by
  cases a with
  | ok x => exact (hf x).of_suffix h
  | error e => exact h

theorem Keeps.consItem {x : alpha} {a : Attempt (List alpha × List Char)}
    (h : Keeps Prod.snd cs a) : Keeps Prod.snd cs (consItem x a) := by
  cases a with
  | ok p => exact h
  | error e => exact h

/-!
## Words
-/

theorem suffix_skipFrom (lines comment : Bool) (cs : List Char) :
    skipFrom lines comment cs <:+ cs := by
  induction cs generalizing comment with
  | nil => exact List.suffix_refl []
  | cons c cs ih =>
      have hfront : forall inside, skipFrom lines inside cs <:+ c :: cs := fun inside =>
        (ih inside).trans (List.suffix_cons c cs)
      unfold skipFrom
      repeat' split
      all_goals first | exact hfront _ | exact List.suffix_refl _

theorem suffix_skip (cs : List Char) : skip cs <:+ cs :=
  suffix_skipFrom true false cs

theorem suffix_skipInline (cs : List Char) : skipInline cs <:+ cs :=
  suffix_skipFrom false false cs

theorem keeps_identifier (cs : List Char) : Keeps Prod.snd cs (identifier cs) := by
  cases cs with
  | nil => exact List.suffix_refl []
  | cons c cs =>
      rw [identifier]
      split
      · exact (List.dropWhile_suffix _).trans (List.suffix_cons c cs)
      · exact List.suffix_refl _

theorem keeps_word (cs : List Char) : Keeps Prod.snd cs (word cs) :=
  (keeps_identifier _).of_suffix (suffix_skip cs)

theorem keeps_expect (mark : Char) (cs : List Char) : Keeps id cs (expect mark cs) := by
  have hskip := suffix_skip cs
  unfold expect
  split
  · exact List.nil_suffix
  · rename_i c front heq
    rw [heq] at hskip
    split
    · exact (List.suffix_cons c front).trans hskip
    · exact hskip

theorem keeps_typing (name : String) (cs : List Char) :
    Keeps Prod.snd cs (typing name cs) := by
  unfold typing
  split
  · rename_i front
    have hword := (keeps_identifier front).of_suffix (List.suffix_cons ':' front)
    split
    · rename_i htext
      exact hword.error htext
    · rename_i htext
      split
      · exact hword.ok htext
      · exact hword.ok htext
  · exact List.suffix_refl _

theorem keeps_definition (cs : List Char) : Keeps Prod.snd cs (definition cs) := by
  refine (keeps_expect '%' cs).bind fun afterMark => ?_
  exact (keeps_identifier afterMark).bind fun p => keeps_typing p.1 p.2

/-!
## Instructions
-/

theorem keeps_operands (opcode : String) (cs : List Char) :
    Keeps Prod.snd cs (operands opcode cs) := by
  have hfront : forall (cs front : List Char) (c : Char), skipInline cs = c :: front ->
      front <:+ cs := by
    intro cs front c hskip
    exact (List.suffix_cons c front).trans (hskip ▸ suffix_skipInline cs)
  fun_induction operands opcode cs with
  | case1 cs hskip => exact List.nil_suffix
  | case2 cs front e hname hskip =>
      exact ((keeps_identifier front).error hname).trans (hfront cs front _ hskip)
  | case3 cs front name afterName hname hskip ih =>
      have hafter : afterName <:+ front := (keeps_identifier front).ok hname
      exact (ih.of_suffix (hafter.trans (hfront cs front _ hskip))).consItem
  | case4 cs front e hname hskip =>
      exact ((keeps_identifier front).error hname).trans (hfront cs front _ hskip)
  | case5 cs front name afterName hname hskip hvalue ih =>
      have hafter : afterName <:+ front := (keeps_identifier front).ok hname
      exact (ih.of_suffix (hafter.trans (hfront cs front _ hskip))).consItem
  | case6 cs front hskip hvalue hblock ih => exact ih.of_suffix (hfront cs front _ hskip)
  | case7 cs c front hskip hvalue hblock hcomma hend => exact hskip ▸ suffix_skipInline cs
  | case8 cs c front hskip hvalue hblock hcomma hend => exact hskip ▸ suffix_skipInline cs

theorem keeps_result (cs : List Char) : Keeps Prod.snd cs (result cs) := by
  unfold result
  split
  · rename_i front
    refine (keeps_definition _).bind fun p => ?_
    exact (keeps_expect '=' p.2).bind fun afterMark => List.suffix_refl afterMark
  · exact List.suffix_refl _

theorem keeps_accept (defined : List String) (i : InstructionDraft) (cs : List Char) :
    Keeps Prod.snd cs (accept defined i cs) := by
  unfold accept
  repeat' split
  all_goals exact List.suffix_refl cs

theorem keeps_instruction (defined : List String) (cs : List Char) :
    Keeps Prod.snd cs (instruction defined cs) := by
  refine (keeps_result cs).bind fun p => ?_
  refine (keeps_word p.2).bind fun q => ?_
  refine (keeps_operands q.1 q.2).bind fun r => ?_
  exact keeps_accept defined ⟨p.1, q.1, r.1⟩ r.2

theorem keeps_instructions (defined : List String) (cs : List Char) :
    Keeps Prod.snd cs (instructions defined cs) := by
  fun_induction instructions defined cs with
  | case1 defined cs hend => exact suffix_skip cs
  | case2 defined cs hend e hfirst =>
      exact ((keeps_instruction defined _).error hfirst).trans (suffix_skip cs)
  | case3 defined cs hend i afterFirst hfirst ih =>
      have hafter : afterFirst <:+ skip cs := (keeps_instruction defined _).ok hfirst
      exact (ih.of_suffix (hafter.trans (suffix_skip cs))).consItem

/-!
## Functions
-/

theorem keeps_block (labels defined : List String) (cs : List Char) :
    Keeps Prod.snd cs (block labels defined cs) := by
  have hword := keeps_word cs
  unfold block
  split
  · rename_i hlabel
    exact hword.error hlabel
  · rename_i label front hlabel
    have hfront : front <:+ cs := (List.suffix_cons ':' front).trans (hword.ok hlabel)
    have hinstructions := (keeps_instructions defined front).of_suffix hfront
    split
    · exact hfront
    · split
      · rename_i his
        exact hinstructions.error his
      · rename_i his
        exact hinstructions.ok his
  · rename_i hlabel
    exact hword.ok hlabel

theorem keeps_blocks (function : String) (labels defined : List String) (cs : List Char) :
    Keeps Prod.snd cs (blocks function labels defined cs) := by
  fun_induction blocks function labels defined cs with
  | case1 labels defined cs hskip => exact List.nil_suffix
  | case2 labels defined cs front hskip =>
      exact (List.suffix_cons _ front).trans (hskip ▸ suffix_skip cs)
  | case3 labels defined cs c front hskip hc e hfirst =>
      exact ((keeps_block labels defined _).error hfirst).trans (hskip ▸ suffix_skip cs)
  | case4 labels defined cs c front hskip hc b afterFirst hfirst ih =>
      have hafter : afterFirst <:+ c :: front := (keeps_block labels defined _).ok hfirst
      exact (ih.of_suffix (hafter.trans (hskip ▸ suffix_skip cs))).consItem

theorem keeps_arguments (seen : List String) (cs : List Char) :
    Keeps Prod.snd cs (arguments seen cs) := by
  fun_induction arguments seen cs with
  | case1 seen cs front hskip =>
      exact (List.suffix_cons _ front).trans (hskip ▸ suffix_skip cs)
  | case2 seen cs e hfirst hclose => exact (keeps_definition cs).error hfirst
  | case3 seen cs v afterFirst hfirst hseen hclose => exact (keeps_definition cs).ok hfirst
  | case4 seen cs v afterFirst hfirst hnew more hskip hclose ih =>
      have hafter : afterFirst <:+ cs := (keeps_definition cs).ok hfirst
      have hmore := (List.suffix_cons ',' more).trans (hskip ▸ suffix_skip afterFirst)
      exact (ih.of_suffix (hmore.trans hafter)).consItem
  | case5 seen cs v afterFirst hfirst hnew more hskip hclose ih =>
      have hafter : afterFirst <:+ cs := (keeps_definition cs).ok hfirst
      have hmore : ')' :: more <:+ afterFirst := hskip ▸ suffix_skip afterFirst
      exact (ih.of_suffix (hmore.trans hafter)).consItem
  | case6 seen cs v afterFirst hfirst hnew hcomma hparenthesis hclose =>
      exact (suffix_skip afterFirst).trans ((keeps_definition cs).ok hfirst)

theorem keeps_body (function : String) (args : List Variable) (cs : List Char) :
    Keeps Prod.snd cs (body function args cs) := by
  have hblocks := keeps_blocks function [] (args.map Variable.name) cs
  unfold body
  split
  · rename_i heq
    exact hblocks.error heq
  · rename_i heq
    exact hblocks.ok heq
  · rename_i heq
    exact hblocks.ok heq

theorem keeps_ending (name : String) (args : List Variable) (cs : List Char) :
    Keeps Prod.snd cs (ending name args cs) := by
  unfold ending
  split
  · rename_i front hskip
    exact (List.suffix_cons _ front).trans (hskip ▸ suffix_skip cs)
  · refine (keeps_expect '{' cs).bind fun afterMark => ?_
    exact (keeps_body name args afterMark).bind fun p => List.suffix_refl p.2

theorem keeps_resolve (f : FunctionDraft) (cs : List Char) :
    Keeps Prod.snd cs (resolve f cs) := by
  unfold resolve
  repeat' split
  all_goals exact List.suffix_refl cs

theorem keeps_freshName (known : List String) (cs : List Char) :
    Keeps Prod.snd cs (freshName known cs) := by
  have hword := keeps_word cs
  unfold freshName
  split
  · rename_i hname
    exact hword.error hname
  · rename_i hname
    split
    · exact hword.ok hname
    · exact hword.ok hname

theorem keeps_function (known : List String) (cs : List Char) :
    Keeps Prod.snd cs (function known cs) := by
  refine (keeps_freshName known cs).bind fun p => ?_
  refine (keeps_expect '(' p.2).bind fun afterMark => ?_
  refine (keeps_arguments [] afterMark).bind fun q => ?_
  refine (keeps_ending p.1 q.1 q.2).bind fun r => ?_
  exact keeps_resolve ⟨p.1, q.1, r.1⟩ r.2

/-- What is left at the first fault of a text is an end of the text. -/
theorem suffix_of_functions_error {known : List String} {e : Fault × List Char}
    (h : functions known cs = .error e) : e.2 <:+ cs := by
  fun_induction functions known cs with
  | case1 => cases h
  | case2 known cs c front hskip e' hfirst =>
      cases h
      exact ((keeps_function known _).error hfirst).trans (hskip ▸ suffix_skip cs)
  | case3 known cs c front hskip f afterFirst hfirst ih =>
      have hafter : afterFirst <:+ c :: front := (keeps_function known _).ok hfirst
      cases hmore : functions (f.name :: known) afterFirst with
      | ok fs =>
          rw [hmore] at h
          cases h
      | error e' =>
          rw [hmore] at h
          cases h
          exact (ih hmore).trans (hafter.trans (hskip ▸ suffix_skip cs))

end Tir
end LoopNest
