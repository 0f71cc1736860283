import LoopNest.Proofs.Tir.PlainTexts
import LoopNest.Proofs.Tir.ReadFunctions
import LoopNest.Tir.Reader

/-!
# Layout

Comments, and blanks other than line feeds, only keep words apart.  A reader that runs on a text
and on its plain form does the same on both: it reads the same, and what it leaves of the plain
form is the plain form of what it leaves of the text.  So a text and its plain form stand for the
same module, or reading stops in the same line.
-/

namespace LoopNest
namespace Tir

variable {alpha beta : Type} {move : alpha -> alpha} {next : beta -> beta}
  {a b : Attempt alpha} {cs rest : List Char}

/-- The attempt `b` is what becomes of `a` in the plain form of the text: its answer is that of
`a`, changed by `move`, or both stop at faults, with the same text left. -/
def Mirrors (move : alpha -> alpha) : Attempt alpha -> Attempt alpha -> Prop
  | .ok x, .ok y => y = move x
  | .error e, .error e' => e'.2 = plain e.2
  | _, _ => False

/-- An answer with the plain form of what is left. -/
def withPlain (p : alpha × List Char) : alpha × List Char :=
  (p.1, plain p.2)

theorem Mirrors.of_ok {x : alpha} (h : Mirrors move a b) (ha : a = .ok x) : b = .ok (move x) := by
  subst ha
  cases b with
  | ok y => exact congrArg Except.ok h
  | error e => exact h.elim

theorem Mirrors.of_error {e : Fault × List Char} (h : Mirrors move a b) (ha : a = .error e) :
    exists fault, b = .error (fault, plain e.2) := by
  subst ha
  cases b with
  | ok y => exact h.elim
  | error e' =>
      have hrest : e'.2 = plain e.2 := h
      exact ⟨e'.1, by rw [← hrest]⟩

theorem Mirrors.bind {f g : alpha -> Attempt beta} (h : Mirrors move a b)
    (hfg : forall x, Mirrors next (f x) (g (move x))) : Mirrors next (a >>= f) (b >>= g) := by
  cases ha : a with
  | ok x =>
      rw [h.of_ok ha]
      exact hfg x
  | error e =>
      rcases h.of_error ha with ⟨fault, hb⟩
      rw [hb]
      exact rfl

theorem Mirrors.map {f : alpha -> beta} (h : Mirrors move a b)
    (hf : forall x, f (move x) = next (f x)) : Mirrors next (a.map f) (b.map f) := by
  cases ha : a with
  | ok x =>
      rw [h.of_ok ha]
      exact hf x
  | error e =>
      rcases h.of_error ha with ⟨fault, hb⟩
      rw [hb]
      exact rfl

theorem Mirrors.consItem {a b : Attempt (List alpha × List Char)} (x : alpha)
    (h : Mirrors withPlain a b) : Mirrors withPlain (consItem x a) (consItem x b) :=
  h.map fun _ => rfl

/-!
## Words
-/

theorem identifier_refused (h : forall c, cs.head? = some c -> opensIdentifier c = false) :
    exists fault, identifier cs = .error (fault, cs) := by
  cases cs with
  | nil => exact ⟨_, rfl⟩
  | cons c cs =>
      rw [identifier, h c rfl]
      exact ⟨_, rfl⟩

theorem mirrors_identifier (cs : List Char) :
    Mirrors withPlain (identifier cs) (identifier (plain cs)) := by
  by_cases hopens : exists c, cs.head? = some c ∧ opensIdentifier c = true
  · rcases hopens with ⟨c, hc, hopens⟩
    rcases List.head?_eq_some_iff.mp hc with ⟨front, rfl⟩
    rcases span_plain (p := continuesIdentifier) (fun d => solid_of_continues) front with
      ⟨htake, hdrop⟩
    rw [plain_cons (Or.inr (solid_of_opens hopens)), identifier, identifier, if_pos hopens,
      if_pos hopens, htake, hdrop]
    exact rfl
  · have hcs : forall c, cs.head? = some c -> opensIdentifier c = false := fun c hc =>
      Bool.eq_false_iff.mpr fun hopens' => hopens ⟨c, hc, hopens'⟩
    have hplain : forall c, (plain cs).head? = some c -> opensIdentifier c = false := by
      intro c hc
      rw [← Bool.not_eq_true]
      intro hopens'
      exact hopens ⟨c, (head?_plain (solid_of_opens hopens')).mp hc, hopens'⟩
    rcases identifier_refused hcs with ⟨fault, hread⟩
    rcases identifier_refused hplain with ⟨fault', hread'⟩
    rw [hread, hread']
    exact rfl

theorem mirrors_word (cs : List Char) : Mirrors withPlain (word cs) (word (plain cs)) := by
  unfold word
  rw [skip_plain]
  exact mirrors_identifier (skip cs)

theorem mirrors_expect (mark : Char) (cs : List Char) :
    Mirrors plain (expect mark cs) (expect mark (plain cs)) := by
  unfold expect
  cases hskip : skip cs with
  | nil =>
      rw [skip_plain, hskip]
      exact rfl
  | cons c front =>
      rw [skip_plain_cons hskip]
      by_cases hc : c = mark
      · simp only [if_pos hc]
        exact rfl
      · simp only [if_neg hc]
        exact (plain_cons (kept_of_skipFrom hskip)).symm

theorem mirrors_typing (name : String) (cs : List Char) :
    Mirrors withPlain (typing name cs) (typing name (plain cs)) := by
  by_cases hcolon : cs.head? = some ':'
  · rcases List.head?_eq_some_iff.mp hcolon with ⟨front, rfl⟩
    rw [plain_cons (Or.inr (by decide))]
    have hword := mirrors_identifier front
    cases hread : identifier front with
    | error e =>
        rcases hword.of_error hread with ⟨fault, hread'⟩
        simp only [typing, hread, hread']
        exact rfl
    | ok p =>
        simp only [typing, hread, hword.of_ok hread, withPlain]
        cases ValueType.ofAnnotation? p.1 with
        | none => exact rfl
        | some type => exact rfl
  · have hplain := (head?_plain_ne (by decide)).mpr hcolon
    rw [typing_of_head? hcolon, typing_of_head? hplain]
    exact rfl

theorem mirrors_definition (cs : List Char) :
    Mirrors withPlain (definition cs) (definition (plain cs)) := by
  refine (mirrors_expect '%' cs).bind fun afterMark => ?_
  exact (mirrors_identifier afterMark).bind fun p => mirrors_typing p.1 p.2

/-!
## Instructions
-/

theorem mirrors_operands (opcode : String) (cs : List Char) :
    Mirrors withPlain (operands opcode cs) (operands opcode (plain cs)) := by
  -- the cases are those of the run on the text itself; each tells where the other run stands
  fun_induction operands opcode cs with
  | case1 cs hskip =>
      rw [operands_eq opcode (plain cs), skipInline_plain, hskip]
      exact rfl
  | case2 cs front e hname hskip =>
      rcases (mirrors_identifier front).of_error hname with ⟨fault, hname'⟩
      rw [operands_eq opcode (plain cs), skipInline_plain_cons hskip]
      simp only [if_pos, hname']
      exact rfl
  | case3 cs front name afterName hname hskip ih =>
      have hname' := (mirrors_identifier front).of_ok hname
      rw [operands_eq opcode (plain cs), skipInline_plain_cons hskip]
      simp only [if_pos, hname']
      exact ih.consItem _
  | case4 cs front e hname hskip hvalue =>
      rcases (mirrors_identifier front).of_error hname with ⟨fault, hname'⟩
      rw [operands_eq opcode (plain cs), skipInline_plain_cons hskip]
      simp only [if_neg hvalue, if_pos, hname']
      exact rfl
  | case5 cs front name afterName hname hskip hvalue ih =>
      have hname' := (mirrors_identifier front).of_ok hname
      rw [operands_eq opcode (plain cs), skipInline_plain_cons hskip]
      simp only [if_neg hvalue, if_pos, hname']
      exact ih.consItem _
  | case6 cs front hskip hvalue hblock ih =>
      rw [operands_eq opcode (plain cs), skipInline_plain_cons hskip]
      simp only [if_neg hvalue, if_neg hblock, if_pos]
      exact ih
  | case7 cs c front hskip hvalue hblock hcomma hend =>
      rw [operands_eq opcode (plain cs), skipInline_plain_cons hskip]
      simp only [if_neg hvalue, if_neg hblock, if_neg hcomma, if_pos hend]
      rw [← plain_cons (kept_of_skipFrom hskip)]
      exact rfl
  | case8 cs c front hskip hvalue hblock hcomma hend =>
      rw [operands_eq opcode (plain cs), skipInline_plain_cons hskip]
      simp only [if_neg hvalue, if_neg hblock, if_neg hcomma, if_neg hend]
      exact (plain_cons (kept_of_skipFrom hskip)).symm

theorem result_of_head? (hcs : cs.head? ≠ some '%') : result cs = .ok (none, cs) := by
  unfold result
  split
  · exact absurd rfl hcs
  · rfl

theorem mirrors_result (cs : List Char) : Mirrors withPlain (result cs) (result (plain cs)) := by
  by_cases hmark : cs.head? = some '%'
  · have hread := mirrors_definition cs
    rcases List.head?_eq_some_iff.mp hmark with ⟨front, rfl⟩
    rw [plain_cons (Or.inr (by decide))] at hread ⊢
    refine hread.bind fun p => ?_
    exact (mirrors_expect '=' p.2).bind fun afterMark => rfl
  · have hplain := (head?_plain_ne (by decide)).mpr hmark
    rw [result_of_head? hmark, result_of_head? hplain]
    exact rfl

theorem mirrors_accept (defined : List String) (i : InstructionDraft) (cs : List Char) :
    Mirrors withPlain (accept defined i cs) (accept defined i (plain cs)) := by
  unfold accept
  repeat' split
  all_goals exact rfl

theorem mirrors_instruction (defined : List String) (cs : List Char) :
    Mirrors withPlain (instruction defined cs) (instruction defined (plain cs)) := by
  refine (mirrors_result cs).bind fun p => ?_
  refine (mirrors_word p.2).bind fun q => ?_
  refine (mirrors_operands q.1 q.2).bind fun r => ?_
  exact mirrors_accept defined ⟨p.1, q.1, r.1⟩ r.2

theorem endsBlock_of_identifier {name : String} (h : identifier cs = .ok (name, rest)) :
    endsBlock cs = (rest.head? == some ':') := by
  rcases (identifier_eq_ok.mp h).opens with ⟨c, front, rfl, hopens⟩
  have hne : forall mark, opensIdentifier mark = false -> c ≠ mark := by
    intro mark hmark heq
    rw [heq, hmark] at hopens
    cases hopens
  rw [endsBlock, if_neg (hne '}' (by decide)), if_neg (hne '%' (by decide)), h]
  split
  · rename_i heq
    cases heq
    rfl
  · rename_i hcolon
    apply Eq.symm
    rw [beq_eq_false_iff_ne]
    intro hhead
    rcases List.head?_eq_some_iff.mp hhead with ⟨more, rfl⟩
    exact hcolon _ _ rfl

/-- A block ends at the same places.  Comments have to be dropped first: a block ends where
nothing is left of a comment, but not at the comment itself. -/
theorem endsBlock_plain (cs : List Char) :
    endsBlock (skip (plain cs)) = endsBlock (skip cs) := by
  cases hskip : skip cs with
  | nil =>
      rw [skip_plain, hskip]
      rfl
  | cons c front =>
      have hword := mirrors_identifier (c :: front)
      rw [plain_cons (kept_of_skipFrom hskip)] at hword
      rw [skip_plain_cons hskip]
      cases hread : identifier (c :: front) with
      | ok p =>
          have hcolon : ((plain p.2).head? == some ':') = (p.2.head? == some ':') := by
            rw [Bool.eq_iff_iff, beq_iff_eq, beq_iff_eq, head?_plain (by decide)]
          rw [endsBlock_of_identifier hread, endsBlock_of_identifier (hword.of_ok hread), hcolon]
      | error e =>
          rcases hword.of_error hread with ⟨fault, hread'⟩
          unfold endsBlock
          simp only [hread, hread']

theorem mirrors_instructions (defined : List String) (cs : List Char) :
    Mirrors withPlain (instructions defined cs) (instructions defined (plain cs)) := by
  fun_induction instructions defined cs with
  | case1 defined cs hend =>
      rw [instructions_eq defined (plain cs), endsBlock_plain, if_pos hend, skip_plain]
      exact rfl
  | case2 defined cs hend e hfirst =>
      rcases (mirrors_instruction defined _).of_error hfirst with ⟨fault, hfirst'⟩
      rw [instructions_eq defined (plain cs), endsBlock_plain, if_neg hend, skip_plain, hfirst']
      exact rfl
  | case3 defined cs hend i afterFirst hfirst ih =>
      have hfirst' := (mirrors_instruction defined _).of_ok hfirst
      rw [instructions_eq defined (plain cs), endsBlock_plain, if_neg hend, skip_plain, hfirst']
      exact ih.consItem i

/-!
## Functions
-/

theorem block_of_head? {labels defined : List String} {label : String}
    (h : word cs = .ok (label, rest)) (hcolon : rest.head? ≠ some ':') :
    block labels defined cs = .error (.expectedLabel label, rest) := by
  unfold block
  rw [h]
  split
  · rename_i heq
    cases heq
  · rename_i heq
    cases heq
    exact absurd rfl hcolon
  · rename_i heq
    cases heq
    rfl

theorem mirrors_block (labels defined : List String) (cs : List Char) :
    Mirrors withPlain (block labels defined cs) (block labels defined (plain cs)) := by
  have hword := mirrors_word cs
  cases hlabel : word cs with
  | error e =>
      rcases hword.of_error hlabel with ⟨fault, hlabel'⟩
      unfold block
      rw [hlabel, hlabel']
      exact rfl
  | ok p =>
      rcases p with ⟨label, final⟩
      have hlabel' : word (plain cs) = .ok (label, plain final) := hword.of_ok hlabel
      by_cases hcolon : final.head? = some ':'
      · rcases List.head?_eq_some_iff.mp hcolon with ⟨front, rfl⟩
        have his := mirrors_instructions defined front
        rw [plain_cons (Or.inr (by decide))] at hlabel'
        unfold block
        rw [hlabel, hlabel']
        by_cases hfresh : label ∈ labels
        · simp only [if_pos hfresh]
          exact rfl
        · simp only [if_neg hfresh]
          cases hread : instructions defined front with
          | error e =>
              rcases his.of_error hread with ⟨fault, hread'⟩
              simp only [hread']
              exact rfl
          | ok p =>
              simp only [his.of_ok hread]
              exact rfl
      · have hplain := (head?_plain_ne (by decide)).mpr hcolon
        rw [block_of_head? hlabel hcolon, block_of_head? hlabel' hplain]
        exact rfl

theorem mirrors_blocks (function : String) (labels defined : List String) (cs : List Char) :
    Mirrors withPlain (blocks function labels defined cs)
      (blocks function labels defined (plain cs)) := by
  fun_induction blocks function labels defined cs with
  | case1 labels defined cs hskip =>
      rw [blocks_eq function labels defined (plain cs), skip_plain, hskip]
      exact rfl
  | case2 labels defined cs front hskip =>
      rw [blocks_eq function labels defined (plain cs), skip_plain_cons hskip]
      simp only [if_pos]
      exact rfl
  | case3 labels defined cs c front hskip hc e hfirst =>
      have hblock := mirrors_block labels defined (c :: front)
      rw [plain_cons (kept_of_skipFrom hskip)] at hblock
      rcases hblock.of_error hfirst with ⟨fault, hfirst'⟩
      rw [blocks_eq function labels defined (plain cs), skip_plain_cons hskip]
      simp only [if_neg hc, hfirst']
      exact rfl
  | case4 labels defined cs c front hskip hc b afterFirst hfirst ih =>
      have hblock := mirrors_block labels defined (c :: front)
      rw [plain_cons (kept_of_skipFrom hskip)] at hblock
      have hfirst' := hblock.of_ok hfirst
      rw [blocks_eq function labels defined (plain cs), skip_plain_cons hskip]
      simp only [if_neg hc, hfirst']
      exact ih.consItem b

theorem arguments_open (seen : List String) (hclose : (skip cs).head? ≠ some ')') :
    arguments seen cs =
      match definition cs with
      | .error e => .error e
      | .ok (v, rest) =>
          if v.name ∈ seen then .error (.duplicateArgument v.name, rest)
          else
            match skip rest with
            | ',' :: more => consItem v (arguments (v.name :: seen) more)
            | ')' :: more => consItem v (arguments (v.name :: seen) (')' :: more))
            | other => .error (.openArguments, other) := by
  rw [arguments_eq]
  split
  · rename_i heq
    rw [heq] at hclose
    exact absurd rfl hclose
  · rfl

theorem mirrors_arguments (seen : List String) (cs : List Char) :
    Mirrors withPlain (arguments seen cs) (arguments seen (plain cs)) := by
  have hopen : forall cs, (forall front, skip cs = ')' :: front -> False) ->
      (skip (plain cs)).head? ≠ some ')' := by
    intro cs hclose hhead
    rcases List.head?_eq_some_iff.mp hhead with ⟨more, hskip'⟩
    rcases exists_of_skip_plain (by decide) hskip' with ⟨front, hskip⟩
    exact hclose front hskip
  fun_induction arguments seen cs with
  | case1 seen cs front hskip =>
      rw [arguments_close seen (skip_plain_cons hskip)]
      exact rfl
  | case2 seen cs e hfirst hclose =>
      rcases (mirrors_definition cs).of_error hfirst with ⟨fault, hfirst'⟩
      rw [arguments_open seen (hopen cs hclose), hfirst']
      exact rfl
  | case3 seen cs v afterFirst hfirst hseen hclose =>
      have hfirst' : definition (plain cs) = .ok (v, plain afterFirst) :=
        (mirrors_definition cs).of_ok hfirst
      rw [arguments_open seen (hopen cs hclose), hfirst']
      simp only [if_pos hseen]
      exact rfl
  | case4 seen cs v afterFirst hfirst hnew more hskip hclose ih =>
      have hfirst' : definition (plain cs) = .ok (v, plain afterFirst) :=
        (mirrors_definition cs).of_ok hfirst
      rw [arguments_open seen (hopen cs hclose), hfirst']
      simp only [if_neg hnew, skip_plain_cons hskip]
      exact ih.consItem v
  | case5 seen cs v afterFirst hfirst hnew more hskip hclose ih =>
      have hfirst' : definition (plain cs) = .ok (v, plain afterFirst) :=
        (mirrors_definition cs).of_ok hfirst
      rw [plain_cons (Or.inr (by decide))] at ih
      rw [arguments_open seen (hopen cs hclose), hfirst']
      simp only [if_neg hnew, skip_plain_cons hskip]
      exact ih.consItem v
  | case6 seen cs v afterFirst hfirst hnew hclose hcomma hparenthesis =>
      have hfirst' : definition (plain cs) = .ok (v, plain afterFirst) :=
        (mirrors_definition cs).of_ok hfirst
      rw [arguments_open seen (hopen cs hclose), hfirst']
      simp only [if_neg hnew]
      split
      · rename_i hskip'
        rcases exists_of_skip_plain (by decide) hskip' with ⟨front, hskip⟩
        exact absurd hskip (hcomma front)
      · rename_i hskip'
        rcases exists_of_skip_plain (by decide) hskip' with ⟨front, hskip⟩
        exact absurd hskip (hparenthesis front)
      · exact skip_plain afterFirst

theorem mirrors_body (function : String) (args : List Variable) (cs : List Char) :
    Mirrors withPlain (body function args cs) (body function args (plain cs)) := by
  have hblocks := mirrors_blocks function [] (args.map Variable.name) cs
  unfold body
  cases hread : blocks function [] (args.map Variable.name) cs with
  | error e =>
      rcases hblocks.of_error hread with ⟨fault, hread'⟩
      rw [hread']
      exact rfl
  | ok p =>
      rcases p with ⟨bs, final⟩
      rw [hblocks.of_ok hread]
      cases bs with
      | nil => exact rfl
      | cons b bs => exact rfl

theorem ending_open (name : String) (args : List Variable)
    (hmark : (skip cs).head? ≠ some '!') :
    ending name args cs = do
      let rest <- expect '{' cs
      let (bs, rest) <- body name args rest
      return (some bs, rest) := by
  unfold ending
  split
  · rename_i heq
    rw [heq] at hmark
    exact absurd rfl hmark
  · rfl

theorem mirrors_ending (name : String) (args : List Variable) (cs : List Char) :
    Mirrors withPlain (ending name args cs) (ending name args (plain cs)) := by
  by_cases hmark : (skip cs).head? = some '!'
  · rcases List.head?_eq_some_iff.mp hmark with ⟨front, hskip⟩
    unfold ending
    rw [hskip, skip_plain_cons hskip]
    exact rfl
  · have hplain : (skip (plain cs)).head? ≠ some '!' := by
      rwa [skip_plain, head?_plain_ne (by decide)]
    rw [ending_open name args hmark, ending_open name args hplain]
    refine (mirrors_expect '{' cs).bind fun afterMark => ?_
    exact (mirrors_body name args afterMark).bind fun p => rfl

theorem mirrors_resolve (f : FunctionDraft) (cs : List Char) :
    Mirrors withPlain (resolve f cs) (resolve f (plain cs)) := by
  unfold resolve
  repeat' split
  all_goals exact rfl

theorem mirrors_freshName (known : List String) (cs : List Char) :
    Mirrors withPlain (freshName known cs) (freshName known (plain cs)) := by
  have hword := mirrors_word cs
  unfold freshName
  cases hname : word cs with
  | error e =>
      rcases hword.of_error hname with ⟨fault, hname'⟩
      rw [hname']
      exact rfl
  | ok p =>
      rcases p with ⟨name, final⟩
      have hname' : word (plain cs) = .ok (name, plain final) := hword.of_ok hname
      rw [hname']
      by_cases hknown : name ∈ known
      · simp only [if_pos hknown]
        exact rfl
      · simp only [if_neg hknown]
        exact rfl

theorem mirrors_function (known : List String) (cs : List Char) :
    Mirrors withPlain (function known cs) (function known (plain cs)) := by
  refine (mirrors_freshName known cs).bind fun p => ?_
  refine (mirrors_expect '(' p.2).bind fun afterMark => ?_
  refine (mirrors_arguments [] afterMark).bind fun q => ?_
  refine (mirrors_ending p.1 q.1 q.2).bind fun r => ?_
  exact mirrors_resolve ⟨p.1, q.1, r.1⟩ r.2

theorem mirrors_functions (known : List String) (cs : List Char) :
    Mirrors id (functions known cs) (functions known (plain cs)) := by
  fun_induction functions known cs with
  | case1 known cs hskip =>
      rw [functions_eq known (plain cs), skip_plain, hskip]
      exact rfl
  | case2 known cs c front hskip e hfirst =>
      have hfunction := mirrors_function known (c :: front)
      rw [plain_cons (kept_of_skipFrom hskip)] at hfunction
      rcases hfunction.of_error hfirst with ⟨fault, hfirst'⟩
      rw [functions_eq known (plain cs), skip_plain_cons hskip]
      simp only [hfirst']
      exact rfl
  | case3 known cs c front hskip f afterFirst hfirst ih =>
      have hfunction := mirrors_function known (c :: front)
      rw [plain_cons (kept_of_skipFrom hskip)] at hfunction
      have hfirst' : function known (c :: plain front) = .ok (f, plain afterFirst) :=
        hfunction.of_ok hfirst
      rw [functions_eq known (plain cs), skip_plain_cons hskip]
      simp only [hfirst']
      exact ih.map fun _ => rfl

/-!
## Modules
-/

/-- A text and its plain form, which has no comments and no blanks but line feeds and single
spaces, stand for the same module, or reading stops in the same line of both. -/
theorem Module.parse_normal (text : String) :
    IsPlain (normal text).toList ∧
    ((exists m, Module.parse text = .ok m ∧ Module.parse (normal text) = .ok m) ∨
      exists e e', Module.parse text = .error e ∧ Module.parse (normal text) = .error e' ∧
        e'.line = e.line) := by
  have hread := mirrors_functions [] text.toList
  have htext : (normal text).toList = plain text.toList := String.toList_ofList
  unfold Module.parse readDrafts
  rw [htext]
  refine ⟨isPlain_plain _, ?_⟩
  cases hfunctions : Tir.functions [] text.toList with
  | ok fs =>
      rw [hread.of_ok hfunctions]
      exact Or.inl ⟨_, rfl, rfl⟩
  | error e =>
      rcases hread.of_error hfunctions with ⟨fault, hfunctions'⟩
      rw [hfunctions']
      exact Or.inr ⟨_, _, rfl, rfl, lineAt_plain text.toList e.2⟩

example : normal "f(%a\t ) ; no body\r\n \t !;;" = "f(%a ) \n !" := by
  decide

end Tir
end LoopNest
