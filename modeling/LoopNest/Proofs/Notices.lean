import LoopNest.Notice
import Mathlib.Data.List.Basic

/-!
# Printed notices

What is printed of a text holds nothing that a terminal takes as a command, and a text without
commands is printed as it is.  So the level and the target always stand in front of an entry.
-/

namespace LoopNest
namespace Terminal

/-!
## Printed characters
-/

def Plain (c : Char) : Prop :=
  Phase.ground.shows c = true

theorem plain_of_all {text : String} (h : text.toList.all Phase.ground.shows = true) {c : Char}
    (hc : c ∈ text.toList) : Plain c :=
  List.all_eq_true.mp h c hc

theorem Phase.plain_of_shows {p : Phase} {c : Char} (h : p.shows c = true) : Plain c := by
  cases p with
  | ground => exact h
  | escape => exact Bool.or_eq_true_iff.mpr (Or.inl h)
  | escapeMarks => exact Bool.or_eq_true_iff.mpr (Or.inl h)
  | sequence => exact Bool.or_eq_true_iff.mpr (Or.inl h)
  | deviceStart => cases h
  | deviceNumbers => cases h
  | deviceMarks => cases h
  | string => cases h
  | systemCommand => cases h

theorem printedFrom_of_shows {r : Bool} {p : Phase} {c : Char} {cs : List Char}
    (h : (if r then Phase.ground else p).shows c = true) :
    printedFrom r p (c :: cs) = c :: printedFrom true (p.afterPrinting c) cs := by
  rw [printedFrom, if_pos h]

theorem printedFrom_of_not_shows {r : Bool} {p : Phase} {c : Char} {cs : List Char}
    (h : ¬ (if r then Phase.ground else p).shows c = true) :
    printedFrom r p (c :: cs) = printedFrom false (p.next c) cs := by
  rw [printedFrom, if_neg h]

theorem plain_of_mem_printedFrom {c : Char} : forall {cs : List Char} {running : Bool} {p : Phase},
    c ∈ printedFrom running p cs -> Plain c
  | [], _, _, h => by cases h
  | d :: cs, running, p, h => by
      by_cases hd : (if running then Phase.ground else p).shows d = true
      · rw [printedFrom_of_shows hd] at h
        rcases List.mem_cons.mp h with rfl | hcs
        · exact Phase.plain_of_shows hd
        · exact plain_of_mem_printedFrom hcs
      · rw [printedFrom_of_not_shows hd] at h
        exact plain_of_mem_printedFrom h

theorem printedFrom_sublist : forall (cs : List Char) (running : Bool) (p : Phase),
    (printedFrom running p cs).Sublist cs
  | [], _, _ => List.Sublist.refl []
  | c :: cs, running, p => by
      by_cases hc : (if running then Phase.ground else p).shows c = true
      · rw [printedFrom_of_shows hc]
        exact (printedFrom_sublist cs _ _).cons_cons c
      · rw [printedFrom_of_not_shows hc]
        exact (printedFrom_sublist cs _ _).cons c

theorem plain_of_mem_printed {c : Char} {text : String} (h : c ∈ (printed text).toList) :
    Plain c := by
  rw [printed, String.toList_ofList] at h
  exact plain_of_mem_printedFrom h

theorem printed_sublist (text : String) : (printed text).toList.Sublist text.toList := by
  rw [printed, String.toList_ofList]
  exact printedFrom_sublist _ _ _

/-!
## Texts without commands
-/

/-- While no sequence is open it does not matter what was printed last. -/
theorem printedFrom_ground (running : Bool) (cs : List Char) :
    printedFrom running .ground cs = printedFrom false .ground cs := by
  cases cs with
  | nil => rfl
  | cons c cs => rw [printedFrom, printedFrom, ite_self, ite_self]

theorem Phase.afterPrinting_ground (c : Char) : Phase.ground.afterPrinting c = .ground :=
  ite_self _

theorem printedFrom_append (back : List Char) : forall {front : List Char},
    (forall c, c ∈ front -> Plain c) ->
      printedFrom false .ground (front ++ back) = front ++ printedFrom false .ground back
  | [], _ => rfl
  | c :: front, h => by
      have hc : Phase.ground.shows c = true := h c List.mem_cons_self
      have hfront := printedFrom_append back fun d hd => h d (List.mem_cons_of_mem c hd)
      rw [List.cons_append, printedFrom_of_shows (r := false) (p := .ground) hc,
        Phase.afterPrinting_ground, printedFrom_ground, hfront, List.cons_append]

theorem printed_append {front : String} (h : forall c, c ∈ front.toList -> Plain c)
    (back : String) : printed (front ++ back) = front ++ printed back := by
  rw [printed, printed, String.toList_append, printedFrom_append _ h, String.ofList_append,
    String.ofList_toList]

theorem printed_eq_self {text : String} (h : forall c, c ∈ text.toList -> Plain c) :
    printed text = text := by
  have happend := printed_append h ""
  rwa [String.append_empty, show printed "" = "" from rfl, String.append_empty] at happend

theorem printed_printed (text : String) : printed (printed text) = printed text :=
  printed_eq_self fun _ hc => plain_of_mem_printed hc

/-!
## Sequences

A sequence of a terminal leads from one phase to another and shows nothing on its way.
-/

/-- The characters lead from one phase to the other, and none of them is shown. -/
def Phase.Hides (p q : Phase) : List Char -> Prop
  | [] => p = q
  | c :: cs => p.shows c = false ∧ Hides (p.next c) q cs

theorem Phase.Hides.append {p q r : Phase} : forall {cs ds : List Char},
    p.Hides q cs -> q.Hides r ds -> p.Hides r (cs ++ ds)
  | [], _, hcs, hds => by
      cases hcs
      exact hds
  | _ :: _, _, hcs, hds => ⟨hcs.1, Phase.Hides.append hcs.2 hds⟩

theorem printedFrom_of_hides {q : Phase} (back : List Char) : forall {cs : List Char} {p : Phase},
    p.Hides q cs -> printedFrom false p (cs ++ back) = printedFrom false q back
  | [], p, h => by
      cases h
      rfl
  | c :: cs, p, h => by
      have hc : ¬ p.shows c = true := Bool.not_eq_true _ ▸ h.1
      rw [List.cons_append, printedFrom_of_not_shows (r := false) (p := p) hc]
      exact printedFrom_of_hides back h.2

theorem hides_of_forall {p : Phase} : forall {cs : List Char},
    (forall c, c ∈ cs -> p.shows c = false ∧ p.next c = p) -> p.Hides p cs
  | [], _ => rfl
  | c :: cs, h => by
      have hc := h c List.mem_cons_self
      refine ⟨hc.1, ?_⟩
      rw [hc.2]
      exact hides_of_forall fun d hd => h d (List.mem_cons_of_mem c hd)

/-- The characters that belong to a sequence between its opening and its last character. -/
def IsParameter (c : Char) : Prop :=
  0x20 ≤ c.toNat ∧ c.toNat ≤ 0x3f

def IsFinal (c : Char) : Prop :=
  0x40 ≤ c.toNat ∧ c.toNat ≤ 0x7e

theorem within_iff {low high : Nat} {c : Char} :
    within low high c = true <-> low ≤ c.toNat ∧ c.toNat ≤ high := by
  rw [within, Bool.and_eq_true, decide_eq_true_iff, decide_eq_true_iff]

theorem isSpacing_of_le {c : Char} (h : 0x20 ≤ c.toNat) : isSpacing c = false := by
  rw [← Bool.not_eq_true]
  intro hc
  simp only [isSpacing, Bool.or_eq_true, beq_iff_eq] at hc
  rcases hc with ((rfl | rfl) | rfl) | rfl <;> exact absurd h (by decide)

theorem Phase.next_sequence {c : Char} (h : 0x20 ≤ c.toNat) :
    Phase.sequence.next c = if within 0x40 0x7e c then ground else sequence := by
  have hne : forall d : Char, d.toNat < 0x20 -> c ≠ d := by
    intro d hd h
    rcases h with rfl
    omega
  rw [next, if_neg (hne _ (by decide)),
    if_neg (not_or.mpr ⟨hne _ (by decide), hne _ (by decide)⟩)]

theorem hides_sequence {parameters : List Char} {final : Char}
    (hparameters : forall c, c ∈ parameters -> IsParameter c) (hfinal : IsFinal final) :
    Phase.ground.Hides .ground (['\x1b', '['] ++ (parameters ++ [final])) := by
  refine ⟨by decide, by decide, ?_⟩
  have hmiddle : Phase.sequence.Hides .sequence parameters := by
    refine hides_of_forall fun c hc => ?_
    rcases hparameters c hc with ⟨hlow, hhigh⟩
    refine ⟨isSpacing_of_le hlow, ?_⟩
    rw [Phase.next_sequence hlow, if_neg]
    rw [within_iff]
    omega
  refine hmiddle.append ⟨isSpacing_of_le (Nat.le_trans (by decide) hfinal.1), ?_⟩
  rw [Phase.next_sequence (Nat.le_trans (by decide) hfinal.1), if_pos (within_iff.mpr hfinal)]
  rfl

/-- A sequence that sets colours, say, leaves nothing. -/
theorem printed_sequence {front parameters back : List Char} {final : Char}
    (hfront : forall c, c ∈ front -> Plain c)
    (hparameters : forall c, c ∈ parameters -> IsParameter c) (hfinal : IsFinal final) :
    printed (String.ofList (front ++ (['\x1b', '['] ++ (parameters ++ [final]) ++ back))) =
      String.ofList front ++ printed (String.ofList back) := by
  rw [printed, printed, String.toList_ofList, String.toList_ofList, printedFrom_append _ hfront,
    printedFrom_of_hides back (hides_sequence hparameters hfinal), String.ofList_append]

end Terminal

/-!
## Levels and bounds
-/

namespace Level

theorem name_inj {level other : Level} (h : level.name = other.name) : level = other := by
  cases level with
  | error => cases other with
    | error => rfl
    | _ => exact absurd h (by decide)
  | warn => cases other with
    | warn => rfl
    | _ => exact absurd h (by decide)
  | info => cases other with
    | info => rfl
    | _ => exact absurd h (by decide)
  | debug => cases other with
    | debug => rfl
    | _ => exact absurd h (by decide)
  | trace => cases other with
    | trace => rfl
    | _ => exact absurd h (by decide)

theorem toUpper_of_ofWord? {word : String} {level : Level} (h : ofWord? word = some level) :
    word.toUpper = level.name := by
  rw [ofWord?] at h
  have hname := List.find?_some h
  exact (beq_iff_eq.mp hname).symm

theorem ofWord?_eq_some {word : String} {level : Level} :
    ofWord? word = some level <-> word.toUpper = level.name := by
  constructor
  · exact toUpper_of_ofWord?
  · intro h
    have hmem : level ∈ [error, warn, info, debug, trace] := by cases level <;> decide
    have hsome : (ofWord? word).isSome = true :=
      List.find?_isSome.mpr ⟨level, hmem, beq_iff_eq.mpr h.symm⟩
    rcases Option.isSome_iff_exists.mp hsome with ⟨other, hother⟩
    rw [hother, name_inj ((toUpper_of_ofWord? hother).symm.trans h)]

theorem boundOfWord?_eq_some {word : String} {bound : Option Level} :
    boundOfWord? word = some bound <-> word.toUpper = bound.elim "OFF" Level.name := by
  have hname : forall level : Level, level.name ≠ "OFF" := by
    intro level
    cases level <;> decide
  rw [boundOfWord?]
  split
  · rename_i hoff
    cases bound with
    | none => simp [hoff]
    | some level => simp [hoff, (hname level).symm]
  · rename_i hoff
    cases bound with
    | none => simp [hoff]
    | some level =>
        rw [Option.map_eq_some_iff]
        simp [ofWord?_eq_some]

/-- How much a bound lets through. -/
def reach (bound : Option Level) : Nat :=
  bound.elim 0 rank

end Level

namespace Notice

theorem isWithin_iff {bound : Option Level} {notice : Notice} :
    notice.isWithin bound = true <-> notice.level.rank ≤ Level.reach bound := by
  cases bound with
  | none =>
      have hpos : 0 < notice.level.rank := by cases notice.level <;> decide
      simp only [isWithin, Level.reach, Option.elim_none, Bool.false_eq_true, false_iff]
      omega
  | some level => simp [isWithin, Level.reach]

theorem upTo_sublist_upTo {bound wider : Option Level}
    (h : Level.reach bound ≤ Level.reach wider) (notices : List Notice) :
    (upTo bound notices).Sublist (upTo wider notices) :=
  List.monotone_filter_right notices fun _ hnotice =>
    isWithin_iff.mpr (Nat.le_trans (isWithin_iff.mp hnotice) h)

/-!
## Entries
-/

/-- What stands in front of the text in the entry for a notice. -/
def heading (notice : Notice) : String :=
  "[" ++ notice.level.paddedName ++ " " ++ notice.target ++ "] "

theorem plain_of_mem_paddedName {level : Level} {c : Char} (h : c ∈ level.paddedName.toList) :
    Terminal.Plain c := by
  refine Terminal.plain_of_all ?_ h
  cases level <;> decide +kernel

theorem plain_of_mem_target {notice : Notice} {c : Char} (h : c ∈ notice.target.toList) :
    Terminal.Plain c := by
  have htarget : notice.target ∈ ["loopsel", "loopsel::config", "loopsel::core::classifier",
      "loopsel::core::loops", "loopsel::core::selector"] := by
    cases notice <;> simp [target]
  have hall : ["loopsel", "loopsel::config", "loopsel::core::classifier",
      "loopsel::core::loops", "loopsel::core::selector"].all
      (fun target => target.toList.all Terminal.Phase.ground.shows) = true := by decide +kernel
  exact Terminal.plain_of_all (List.all_eq_true.mp hall _ htarget) h

theorem plain_of_mem_heading {notice : Notice} {c : Char} (h : c ∈ notice.heading.toList) :
    Terminal.Plain c := by
  simp only [heading, String.toList_append, List.mem_append] at h
  rcases h with (((hopen | hlevel) | hblank) | htarget) | hclose
  · exact Terminal.plain_of_all (by decide) hopen
  · exact plain_of_mem_paddedName hlevel
  · exact Terminal.plain_of_all (by decide) hblank
  · exact plain_of_mem_target htarget
  · exact Terminal.plain_of_all (by decide) hclose

/-- Whatever the text is, the level and the target are printed in front of it. -/
theorem entry_eq (notice : Notice) :
    notice.entry = notice.heading ++
      Terminal.printed (String.intercalate "\n    " (notice.text.splitOn "\n") ++ "\n") := by
  rw [entry, heading, String.append_assoc]
  exact Terminal.printed_append (fun c hc => plain_of_mem_heading hc) _

end Notice
end LoopNest
