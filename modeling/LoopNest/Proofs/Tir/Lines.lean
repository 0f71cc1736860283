import LoopNest.Proofs.Tir.Writing

/-!
# Lines of listings

A line of a listing is a keyword and words behind it.  A word that is an identifier imitates
neither a keyword nor a mark, so a line whose words are identifiers is told from its text, and
the lines are told from the text that they make up.
-/

namespace LoopNest

/-!
## Runs
-/

namespace Tir

/-- A run ends at the first item without its property, so there is one place to cut. -/
theorem append_inj_of_run {alpha : Type} {p : alpha -> Bool} {xs ys us ws : List alpha}
    (hxs : forall x, x ∈ xs -> p x = true) (hys : forall y, y ∈ ys -> p y = true)
    (hus : forall u, us.head? = some u -> p u = false)
    (hws : forall w, ws.head? = some w -> p w = false) (h : xs ++ us = ys ++ ws) :
    xs = ys ∧ us = ws := by
  have hfirst := span_append hxs hus
  have hsecond := span_append hys hws
  rw [h] at hfirst
  exact ⟨hfirst.1.symm.trans hsecond.1, hfirst.2.symm.trans hsecond.2⟩

theorem append_cons_inj {p : Char -> Bool} {mark : Char} {xs ys us ws : List Char}
    (hmark : p mark = false) (hxs : forall x, x ∈ xs -> p x = true)
    (hys : forall y, y ∈ ys -> p y = true) (h : xs ++ mark :: us = ys ++ mark :: ws) :
    xs = ys ∧ us = ws := by
  have hhead : forall vs c, (mark :: vs).head? = some c -> p c = false := by
    intro vs c hc
    cases Option.some.inj hc
    exact hmark
  rcases append_inj_of_run hxs hys (hhead us) (hhead ws) h with ⟨hxys, huws⟩
  exact ⟨hxys, (List.cons.inj huws).2⟩

/-- A number is told from its digits and the mark behind them. -/
theorem toDigits_append_inj {m k : Nat} {us ws : List Char}
    (h : Nat.toDigits 10 m ++ ' ' :: us = Nat.toDigits 10 k ++ ' ' :: ws) : m = k := by
  have hdigits : forall n c, c ∈ Nat.toDigits 10 n -> c.isDigit = true := fun n c hc =>
    Nat.isDigit_of_mem_toDigits (by decide) (by decide) hc
  have hcut := append_cons_inj (by decide) (hdigits m) (hdigits k) h
  rw [← Decimal.ofDigits_toDigits m, hcut.1, Decimal.ofDigits_toDigits]

theorem IsName.continues {name : String} (h : IsName name) :
    forall c, c ∈ name.toList -> continuesIdentifier c = true := by
  rcases h with ⟨c, cs, rfl, hopens, hcontinues⟩
  rw [String.toList_ofList, List.forall_mem_cons]
  exact ⟨continues_of_opens hopens, hcontinues⟩

end Tir

/-- Lines without a line feed are told from their text. -/
theorem Text.ofLines_inj {xs ys : List String} (hxs : forall x, x ∈ xs -> '\n' ∉ x.toList)
    (hys : forall y, y ∈ ys -> '\n' ∉ y.toList) (h : ofLines xs = ofLines ys) : xs = ys := by
  have hrun : forall line : String, '\n' ∉ line.toList ->
      forall c, c ∈ line.toList -> (c != '\n') = true := by
    intro line hline c hc
    rw [bne_iff_ne]
    intro heq
    exact hline (heq ▸ hc)
  induction xs generalizing ys with
  | nil =>
      cases ys with
      | nil => rfl
      | cons y ys =>
          have hlists := congrArg String.toList h
          simp at hlists
  | cons x xs ih =>
      cases ys with
      | nil =>
          have hlists := congrArg String.toList h
          simp at hlists
      | cons y ys =>
          rw [List.forall_mem_cons] at hxs hys
          have hlists := congrArg String.toList h
          rw [toList_ofLines_cons, toList_ofLines_cons] at hlists
          rcases Tir.append_cons_inj (by decide) (hrun x hxs.1) (hrun y hys.1) hlists with
            ⟨hxy, hrest⟩
          rw [String.toList_inj.mp hxy, ih hxs.2 hys.2 (String.toList_inj.mp hrest)]

namespace ValueType

theorem toList_display_vector (lanes : Nat) :
    (vector lanes).display.toList =
      '<' :: (Nat.toDigits 10 lanes ++ ' ' :: "x scalar>".toList) := by
  simp [display, Nat.toList_repr]

theorem display_ne_vector {type : ValueType} (lanes : Nat) (h : type.isVector = false) :
    type.display ≠ (vector lanes).display := by
  intro heq
  have hlists := congrArg String.toList heq
  rw [toList_display_vector] at hlists
  cases type with
  | void | scalar | aggregate | label => simp [display] at hlists
  | vector other => cases h

theorem display_injective {s t : ValueType} (h : s.display = t.display) : s = t := by
  cases s with
  | vector lanes =>
      cases t with
      | vector other =>
          have hlists := congrArg String.toList h
          rw [toList_display_vector, toList_display_vector] at hlists
          rw [Tir.toDigits_append_inj (List.cons.inj hlists).2]
      | void | scalar | aggregate | label => exact absurd h.symm (display_ne_vector lanes rfl)
  | void | scalar | aggregate | label =>
      cases t with
      | vector other => exact absurd h (display_ne_vector other rfl)
      | void | scalar | aggregate | label =>
          revert h
          decide

theorem not_mem_display (type : ValueType) : '\n' ∉ type.display.toList := by
  cases type with
  | void | scalar | aggregate | label => decide
  | vector lanes =>
      have hdigits : '\n' ∉ Nat.toDigits 10 lanes := by
        intro hmem
        have hdigit := Nat.isDigit_of_mem_toDigits (by decide) (by decide) hmem
        exact absurd hdigit (by decide)
      simp [toList_display_vector, hdigits]

end ValueType

namespace Tir

/-!
## Lines
-/

/-- What a line of a listing says. -/
inductive Line where
  | declaration (name : String)
  | definition (name : String)
  | argument (name : String) (type : ValueType)
  | block (label : String)
  | successor (label : String)
  | instruction (name : String) (opcode : String) (type : ValueType)
  | operand (name : String)
  deriving DecidableEq, Repr

namespace Line

def keyword : Line -> String
  | declaration _ => "Extern"
  | definition _ => "Function"
  | argument _ _ => "Argument"
  | block _ => "Block"
  | successor _ => "Succ"
  | instruction _ _ _ => "Value"
  | operand _ => "Op"

/-- An instruction without a name shows no type. -/
def behindName (name opcode : String) (type : ValueType) : String :=
  if name.isEmpty then "(" ++ opcode ++ ")" else " (" ++ opcode ++ ") : " ++ type.display

def details : Line -> String
  | declaration name => "function " ++ name
  | definition name | block name | successor name | operand name => name
  | argument name type => name ++ " : " ++ type.display
  | instruction name opcode type => name ++ behindName name opcode type

def text (l : Line) : String :=
  l.keyword ++ " " ++ l.details

/-- The words of the line are identifiers.  An instruction without a name has no result. -/
def Spelled : Line -> Prop
  | declaration name | definition name | block name | successor name | operand name =>
      IsName name
  | argument name _ => IsName name
  | instruction name opcode type =>
      IsName opcode ∧ (name ≠ "" -> IsName name) ∧ (name = "" -> type = .void)

variable {l k : Line} {name other opcode opcode' : String} {type type' : ValueType}

theorem keyword_details (h : l.text = k.text) :
    l.keyword = k.keyword ∧ l.details = k.details := by
  have hwords : forall l : Line, forall c, c ∈ l.keyword.toList -> (c != ' ') = true := by
    intro l
    cases l with
    | declaration | definition | argument | block | successor | instruction | operand =>
        simp [keyword]
  have hlists := congrArg String.toList h
  simp only [text, String.toList_append, List.append_assoc] at hlists
  rcases append_cons_inj (by decide) (hwords l) (hwords k) hlists with ⟨hkeyword, hdetails⟩
  exact ⟨String.toList_inj.mp hkeyword, String.toList_inj.mp hdetails⟩

theorem argument_inj (hname : IsName name) (hother : IsName other)
    (h : (argument name type).details = (argument other type').details) :
    name = other ∧ type = type' := by
  have hlists := congrArg String.toList h
  simp only [details, String.toList_append, List.append_assoc] at hlists
  rcases append_cons_inj (by decide) hname.continues hother.continues hlists with
    ⟨hnames, htypes⟩
  have hdisplays := (List.append_right_inj [':', ' ']).mp htypes
  exact ⟨String.toList_inj.mp hnames, ValueType.display_injective (String.toList_inj.mp hdisplays)⟩

theorem toList_behindName_unnamed (opcode : String) (type : ValueType) (h : name = "") :
    (behindName name opcode type).toList = '(' :: (opcode.toList ++ ')' :: []) := by
  rw [behindName, if_pos (String.isEmpty_iff.mpr h)]
  simp

theorem toList_behindName_named (opcode : String) (type : ValueType) (h : name ≠ "") :
    (behindName name opcode type).toList =
      ' ' :: '(' :: (opcode.toList ++ ')' :: (' ' :: ':' :: ' ' :: type.display.toList)) := by
  rw [behindName, if_neg fun hempty => h (String.isEmpty_iff.mp hempty)]
  simp

theorem endsName_behindName (name opcode : String) (type : ValueType) :
    EndsName (behindName name opcode type).toList := by
  by_cases h : name = ""
  · rw [toList_behindName_unnamed opcode type h]
    exact endsName_cons (by decide) _
  · rw [toList_behindName_named opcode type h]
    exact endsName_cons (by decide) _

/-- A name that may be missing consists of the characters of names. -/
theorem continues_of_named (h : name ≠ "" -> IsName name) :
    forall c, c ∈ name.toList -> continuesIdentifier c = true := by
  intro c hc
  refine (h fun hempty => ?_).continues c hc
  rw [hempty] at hc
  cases hc

theorem instruction_inj (hl : (instruction name opcode type).Spelled)
    (hk : (instruction other opcode' type').Spelled)
    (h : (instruction name opcode type).details = (instruction other opcode' type').details) :
    name = other ∧ opcode = opcode' ∧ type = type' := by
  have hlists := congrArg String.toList h
  simp only [details, String.toList_append] at hlists
  rcases append_inj_of_run (continues_of_named hl.2.1) (continues_of_named hk.2.1)
    (endsName_behindName _ _ _) (endsName_behindName _ _ _) hlists with ⟨hnames, hbehind⟩
  cases String.toList_inj.mp hnames
  refine ⟨rfl, ?_⟩
  by_cases hname : name = ""
  · rw [toList_behindName_unnamed _ _ hname, toList_behindName_unnamed _ _ hname,
      List.cons.injEq] at hbehind
    have hcut := append_cons_inj (by decide) hl.1.continues hk.1.continues hbehind.2
    exact ⟨String.toList_inj.mp hcut.1, (hl.2.2 hname).trans (hk.2.2 hname).symm⟩
  · rw [toList_behindName_named _ _ hname, toList_behindName_named _ _ hname] at hbehind
    have hopen := (List.append_right_inj [' ', '(']).mp hbehind
    have hcut := append_cons_inj (by decide) hl.1.continues hk.1.continues hopen
    have hdisplays := (List.append_right_inj [' ', ':', ' ']).mp hcut.2
    exact ⟨String.toList_inj.mp hcut.1,
      ValueType.display_injective (String.toList_inj.mp hdisplays)⟩

theorem text_inj (hl : l.Spelled) (hk : k.Spelled) (h : l.text = k.text) : l = k := by
  rcases keyword_details h with ⟨hkeyword, hdetails⟩
  cases l with
  | declaration name =>
      cases k with
      | declaration other => rw [(String.append_right_inj _).mp hdetails]
      | _ => simp [keyword] at hkeyword
  | definition name =>
      cases k with
      | definition other => exact congrArg definition hdetails
      | _ => simp [keyword] at hkeyword
  | argument name type =>
      cases k with
      | argument other type' =>
          rcases argument_inj hl hk hdetails with ⟨rfl, rfl⟩
          rfl
      | _ => simp [keyword] at hkeyword
  | block label =>
      cases k with
      | block other => exact congrArg block hdetails
      | _ => simp [keyword] at hkeyword
  | successor label =>
      cases k with
      | successor other => exact congrArg successor hdetails
      | _ => simp [keyword] at hkeyword
  | instruction name opcode type =>
      cases k with
      | instruction other opcode' type' =>
          rcases instruction_inj hl hk hdetails with ⟨rfl, rfl, rfl⟩
          rfl
      | _ => simp [keyword] at hkeyword
  | operand name =>
      cases k with
      | operand other => exact congrArg operand hdetails
      | _ => simp [keyword] at hkeyword

theorem not_mem_word (h : name ≠ "" -> IsName name) : '\n' ∉ name.toList :=
  fun hmem => absurd (continues_of_named h _ hmem) (by decide)

theorem not_mem_behindName (name : String) (type : ValueType) (h : IsName opcode) :
    '\n' ∉ (behindName name opcode type).toList := by
  have hopcode := not_mem_word fun _ => h
  by_cases hname : name = ""
  · simp [toList_behindName_unnamed opcode type hname, hopcode]
  · simp [toList_behindName_named opcode type hname, hopcode, type.not_mem_display]

theorem not_mem_text (h : l.Spelled) : '\n' ∉ l.text.toList := by
  cases l with
  | declaration name | definition name | block name | successor name | operand name =>
      have hname := not_mem_word fun _ => h
      simp [text, keyword, details, hname]
  | argument name type =>
      have hname := not_mem_word fun _ => h
      simp [text, keyword, details, hname, type.not_mem_display]
  | instruction name opcode type =>
      have hname := not_mem_word h.2.1
      have hbehind := not_mem_behindName name type h.1
      simp [text, keyword, details, hname, hbehind]

end Line
end Tir
end LoopNest
