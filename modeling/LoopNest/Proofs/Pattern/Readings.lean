import LoopNest.Pattern.Reader

/-!
# Readings of patterns

Every part of a pattern takes at least one character, and the position of the cursor is always
the one behind the characters that were taken.  So a reading ends whatever the pattern is, and
the fuel of the reader does not matter as long as there is enough of it.
-/

namespace LoopNest
namespace Pattern

/-!
## Cursors in the same text
-/

/-- The position behind a text. -/
def Position.behindAll (p : Position) (cs : List Char) : Position :=
  cs.foldl Position.behind p

namespace Cursor

/-- The second cursor stands in the same text, at or behind the first one. -/
def Reaches (k l : Cursor) : Prop :=
  exists front, k.rest = front ++ l.rest ∧ l.position = k.position.behindAll front

/-- There is a character between the cursors. -/
def Passes (k l : Cursor) : Prop :=
  k.Reaches l ∧ l.rest.length < k.rest.length

theorem Reaches.refl (k : Cursor) : k.Reaches k :=
  ⟨[], rfl, rfl⟩

theorem Reaches.trans {k l m : Cursor} (hkl : k.Reaches l) (hlm : l.Reaches m) : k.Reaches m := by
  rcases hkl with ⟨front, hrest, hposition⟩
  rcases hlm with ⟨middle, hrest', hposition'⟩
  refine ⟨front ++ middle, by rw [hrest, hrest', List.append_assoc], ?_⟩
  rw [hposition', hposition, Position.behindAll, Position.behindAll, Position.behindAll,
    List.foldl_append]

theorem Reaches.length_le {k l : Cursor} (h : k.Reaches l) : l.rest.length ≤ k.rest.length := by
  rcases h with ⟨front, hrest, _⟩
  rw [hrest, List.length_append]
  omega

theorem Passes.trans_reaches {k l m : Cursor} (hkl : k.Passes l) (hlm : l.Reaches m) : k.Passes m :=
  ⟨hkl.1.trans hlm, Nat.lt_of_le_of_lt hlm.length_le hkl.2⟩

theorem Passes.trans_passes {k l m : Cursor} (hkl : k.Passes l) (hlm : l.Passes m) : k.Passes m :=
  hkl.trans_reaches hlm.1

theorem Reaches.trans_passes {k l m : Cursor} (hkl : k.Reaches l) (hlm : l.Passes m) : k.Passes m :=
  ⟨hkl.trans hlm.1, Nat.lt_of_lt_of_le hlm.2 hkl.length_le⟩

/-!
## Moves of the cursor
-/

theorem reaches_next (k : Cursor) : k.Reaches k.next := by
  rcases k with ⟨rest, position, spaced⟩
  cases rest with
  | nil => exact Reaches.refl _
  | cons c cs => exact ⟨[c], rfl, rfl⟩

theorem passes_next {k : Cursor} {c : Char} {cs : List Char} (h : k.rest = c :: cs) :
    k.Passes k.next := by
  refine ⟨reaches_next k, ?_⟩
  rw [next, h]
  exact Nat.lt_succ_self _

theorem reaches_blanks (spaced : Bool) : forall (cs : List Char) (comment : Bool) (p : Position),
    Reaches ⟨cs, p, spaced⟩ ⟨(blanks comment cs p).1, (blanks comment cs p).2, spaced⟩
  | [], comment, p => Reaches.refl _
  | c :: cs, comment, p => by
      have hstep : Reaches ⟨c :: cs, p, spaced⟩ ⟨cs, p.behind c, spaced⟩ := ⟨[c], rfl, rfl⟩
      rw [blanks]
      split
      · exact hstep.trans (reaches_blanks spaced cs _ _)
      · split
        · exact hstep.trans (reaches_blanks spaced cs _ _)
        · split
          · exact hstep.trans (reaches_blanks spaced cs _ _)
          · exact Reaches.refl _

theorem reaches_skip (k : Cursor) : k.Reaches k.skip := by
  rw [skip]
  split
  · exact reaches_blanks k.spaced k.rest false k.position
  · exact Reaches.refl k

theorem reaches_advance (k : Cursor) : k.Reaches k.advance :=
  (reaches_next k).trans (reaches_skip k.next)

theorem passes_advance {k : Cursor} {c : Char} {cs : List Char} (h : k.rest = c :: cs) :
    k.Passes k.advance :=
  (passes_next h).trans_reaches (reaches_skip k.next)

theorem reaches_gatherFrom (keep : Char -> Bool) (mark spaced : Bool) :
    forall (cs : List Char) (passing comment : Bool) (p : Position),
      Reaches ⟨cs, p, mark⟩ ⟨(gatherFrom keep spaced passing comment cs p).2.1,
        (gatherFrom keep spaced passing comment cs p).2.2, mark⟩
  | [], passing, comment, p => Reaches.refl _
  | c :: cs, passing, comment, p => by
      have hstep : Reaches ⟨c :: cs, p, mark⟩ ⟨cs, p.behind c, mark⟩ := ⟨[c], rfl, rfl⟩
      rw [gatherFrom]
      split
      · exact hstep.trans (reaches_gatherFrom keep mark spaced cs _ _ _)
      · split
        · exact hstep.trans (reaches_gatherFrom keep mark spaced cs _ _ _)
        · split
          · exact hstep.trans (reaches_gatherFrom keep mark spaced cs _ _ _)
          · split
            · exact hstep.trans (reaches_gatherFrom keep mark spaced cs _ _ _)
            · exact Reaches.refl _

theorem reaches_gather (keep : Char -> Bool) (k : Cursor) : k.Reaches (k.gather keep).2 :=
  reaches_gatherFrom keep k.spaced k.spaced k.rest false false k.position

theorem reaches_gatherClose (keep : Char -> Bool) (k : Cursor) : k.Reaches (k.gatherClose keep).2 :=
  reaches_gatherFrom keep k.spaced false k.rest false false k.position

theorem reaches_foldl_next (cs : List Char) (k : Cursor) :
    k.Reaches (cs.foldl (fun k _ => k.next) k) := by
  induction cs generalizing k with
  | nil => exact Reaches.refl k
  | cons c cs ih => exact (reaches_next k).trans (ih k.next)

theorem passes_behindWord? {k l : Cursor} {word : String} (hword : word ≠ "")
    (h : k.behindWord? word = some l) : k.Passes l := by
  rw [behindWord?] at h
  split at h
  · rename_i hstart
    cases h
    cases hcs : word.toList with
    | nil => exact absurd (String.toList_eq_nil_iff.mp hcs) hword
    | cons c cs =>
        rw [hcs] at hstart
        rcases List.isPrefixOf_iff_prefix.mp hstart with ⟨back, hback⟩
        exact (passes_next hback.symm).trans_reaches (reaches_foldl_next cs k.next)
  · cases h

end Cursor

open Cursor

/-!
## Items
-/

theorem reaches_readHexDigits : forall {count : Nat} {k l : Cursor} {digits : List Char},
    readHexDigits count k = .ok (digits, l) -> k.Reaches l
  | 0, k, l, digits, h => by
      cases h
      exact Reaches.refl k
  | count + 1, k, l, digits, h => by
      rw [readHexDigits] at h
      split at h
      · cases h
      · split at h
        · rcases bind_eq_ok.mp h with ⟨⟨digits', rest⟩, hrest, hl⟩
          cases hl
          exact (reaches_advance k).trans (reaches_readHexDigits hrest)
        · cases h

theorem reaches_readHexBraces {start : Position} {k l : Cursor} {item : Item} {span : Stretch}
    (h : readHexBraces start k = .ok (item, span, l)) : k.Reaches l := by
  have hlast := (reaches_advance k).trans (reaches_gather isHexDigit k.advance)
  rw [readHexBraces] at h
  dsimp only at h
  split at h
  · cases h
  · split at h
    · cases h
    · split at h
      · cases h
      · split at h
        · cases h
        · cases h
          exact hlast.trans (reaches_advance _)

theorem reaches_readHex {start : Position} {count : Nat} {k l : Cursor} {item : Item}
    {span : Stretch} (h : readHex start count k = .ok (item, span, l)) : k.Reaches l := by
  rw [readHex] at h
  dsimp only at h
  split at h
  · cases h
  · split at h
    · exact (reaches_advance k).trans (reaches_readHexBraces h)
    · rcases bind_eq_ok.mp h with ⟨⟨digits, rest⟩, hrest, hl⟩
      dsimp only at hl
      split at hl
      · cases hl
      · cases hl
        exact (reaches_advance k).trans (reaches_readHexDigits hrest)

theorem reaches_readProperty {start : Position} {k l : Cursor} {item : Item} {span : Stretch}
    (h : readProperty start k = .ok (item, span, l)) : k.Reaches l := by
  have hfirst := reaches_advance k
  rw [readProperty] at h
  dsimp only at h
  split at h
  · cases h
  · split at h
    · split at h
      · cases h
      · cases h
        exact ((hfirst.trans (reaches_advance _)).trans (reaches_gather _ _)).trans (reaches_next _)
    · split at h
      · cases h
      · cases h
        exact hfirst.trans (reaches_advance _)

theorem reaches_readWordMark? {start : Position} {k l : Cursor} {mark : WordMark}
    (h : readWordMark? start k = .ok (some (mark, l))) : k.Reaches l := by
  rw [readWordMark?] at h
  dsimp only at h
  split at h
  · cases h
  · split at h
    · cases h
    · split at h
      · cases h
      · split at h
        · cases h
        · cases h
          exact ((reaches_advance k).trans (reaches_gather _ _)).trans (reaches_next _)

theorem reaches_readBoundary {start : Position} {k l : Cursor} {item : Item} {span : Stretch}
    (h : readBoundary start k = .ok (item, span, l)) : k.Reaches l := by
  rw [readBoundary] at h
  split at h
  · rcases bind_eq_ok.mp h with ⟨mark?, hmark, hl⟩
    split at hl
    · cases hl
      exact Reaches.refl k
    · cases hl
      exact reaches_readWordMark? hmark
  · cases h
    exact Reaches.refl k

theorem passes_readEscape {k l : Cursor} {item : Item} {span : Stretch} {c : Char}
    {cs : List Char} (hk : k.rest = c :: cs) (h : readEscape k = .ok (item, span, l)) :
    k.Passes l := by
  have hfirst := passes_next hk
  have hrest := hfirst.trans_reaches (reaches_next k.next)
  rw [readEscape] at h
  dsimp only at h
  split at h
  · cases h
  split at h
  · cases h
  split at h
  · exact hfirst.trans_reaches (reaches_readHex h)
  split at h
  · exact hfirst.trans_reaches (reaches_readHex h)
  split at h
  · exact hfirst.trans_reaches (reaches_readHex h)
  split at h
  · exact hfirst.trans_reaches (reaches_readProperty h)
  split at h
  · exact hrest.trans_reaches (reaches_readBoundary h)
  split at h
  · cases h
    exact hrest
  split at h
  · cases h
    exact hrest
  · cases h
    exact hrest
  · cases h
    exact hrest
  · cases h

theorem passes_readLetter {k l : Cursor} {item : Item} {span : Stretch} {c : Char}
    {cs : List Char} (hk : k.rest = c :: cs) (h : readLetter c k = .ok (item, span, l)) :
    k.Passes l := by
  rw [readLetter] at h
  split at h
  · exact passes_readEscape hk h
  · cases h
    exact passes_next hk

theorem passes_readItem {k l : Cursor} {item : Item} {span : Stretch} {c : Char}
    {cs : List Char} (hk : k.rest = c :: cs) (h : readItem c k = .ok (item, span, l)) :
    k.Passes l := by
  rw [readItem] at h
  split at h
  · cases h
    exact passes_next hk
  split at h
  · cases h
    exact passes_next hk
  split at h
  · cases h
    exact passes_next hk
  · exact passes_readLetter hk h

/-!
## Sets
-/

theorem reaches_openHyphens {start : Position} : forall {count : Nat} {s t : OpenSet}
    {k l : Cursor}, openHyphens start count s k = .ok (t, l) -> k.Reaches l
  | 0, s, t, k, l, h => by
      cases h
      exact Reaches.refl k
  | count + 1, s, t, k, l, h => by
      rw [openHyphens] at h
      split at h
      · dsimp only at h
        split at h
        · cases h
        · exact (reaches_advance k).trans (reaches_openHyphens h)
      · cases h
        exact Reaches.refl k

theorem passes_openSet {k l : Cursor} {s : OpenSet} {c : Char} {cs : List Char}
    (hk : k.rest = c :: cs) (h : openSet k = .ok (s, l)) : k.Passes l := by
  have hfirst := passes_advance hk
  have hinner : k.Passes (if k.advance.sees '^' then k.advance.advance else k.advance) := by
    split
    · exact hfirst.trans_reaches (reaches_advance _)
    · exact hfirst
  rw [openSet] at h
  dsimp only at h
  generalize (if k.advance.sees '^' then k.advance.advance else k.advance) = inner at h hinner
  split at h
  · cases h
  split at h
  · cases h
  rcases bind_eq_ok.mp h with ⟨⟨t, rest⟩, hrest, hl⟩
  have hpasses := hinner.trans_reaches (reaches_openHyphens hrest)
  dsimp only at hl
  split at hl
  · split at hl
    · cases hl
    · cases hl
      exact hpasses.trans_reaches (reaches_advance rest)
  · cases hl
    exact hpasses

theorem passes_namedSet? {k l : Cursor} {item : SetTree} (h : namedSet? k = some (item, l)) :
    k.Passes l := by
  rw [namedSet?] at h
  rcases Option.bind_eq_some_iff.mp h with ⟨first, hfirst, h⟩
  rcases Option.bind_eq_some_iff.mp h with ⟨rest, hrest, h⟩
  rcases Option.bind_eq_some_iff.mp h with ⟨name, _, hl⟩
  cases hl
  have hname : first.Reaches (untilColon (if first.sees '^' then first.next else first)).2 := by
    split
    · exact (reaches_next first).trans (reaches_gatherClose _ _)
    · exact reaches_gatherClose _ _
  exact ((passes_behindWord? (by decide) hfirst).trans_reaches hname).trans_passes
    (passes_behindWord? (by decide) hrest)

theorem passes_operator? {k l : Cursor} {operator : SetOperator}
    (h : operator? k = some (operator, l)) : k.Passes l := by
  rw [operator?] at h
  cases hand : k.behindWord? "&&" with
  | some rest =>
      rw [hand] at h
      cases h
      exact passes_behindWord? (by decide) hand
  | none =>
      cases hminus : k.behindWord? "--" with
      | some rest =>
          rw [hand, hminus] at h
          cases h
          exact passes_behindWord? (by decide) hminus
      | none =>
          rw [hand, hminus] at h
          rcases Option.map_eq_some_iff.mp h with ⟨rest, hrest, heq⟩
          cases heq
          exact passes_behindWord? (by decide) hrest

theorem passes_setRange {opening : Stretch} {k l : Cursor} {item : SetTree} {c : Char}
    {cs : List Char} (hk : k.rest = c :: cs) (h : setRange opening c k = .ok (item, l)) :
    k.Passes l := by
  rw [setRange] at h
  rcases bind_eq_ok.mp h with ⟨⟨low, lowSpan, rest⟩, hlow, h⟩
  have hrest := (passes_readLetter hk hlow).trans_reaches (reaches_skip rest)
  dsimp only at h
  split at h
  · cases h
  split at h
  · rcases bind_eq_ok.mp h with ⟨low', _, hl⟩
    cases hl
    exact hrest
  split at h
  · cases h
  · rename_i d ds hds
    rcases bind_eq_ok.mp h with ⟨⟨high, highSpan, last⟩, hhigh, h⟩
    rcases bind_eq_ok.mp h with ⟨low', _, h⟩
    rcases bind_eq_ok.mp h with ⟨high', _, h⟩
    dsimp only at h
    split at h
    · cases h
      exact (hrest.trans_reaches (reaches_advance _)).trans_passes (passes_readLetter hds hhigh)
    · cases h

def SetStep.cursor : SetStep -> Cursor
  | more _ _ rest => rest
  | done _ rest => rest

theorem passes_setStep {s : OpenSet} {outer : List OpenSet} {k : Cursor} {t : SetStep}
    (h : setStep s outer k = .ok t) : k.Passes t.cursor := by
  rw [setStep] at h
  split at h
  · cases h
  rename_i c cs hk
  split at h
  · split at h
    · rename_i item rest hnamed
      cases h
      exact passes_namedSet? hnamed
    · rcases bind_eq_ok.mp h with ⟨⟨inner, rest⟩, hrest, ht⟩
      cases ht
      exact passes_openSet hk hrest
  split at h
  · dsimp only at h
    split at h
    · cases h
      exact passes_next hk
    · cases h
      exact passes_next hk
  split at h
  · rename_i operator rest hoperator
    cases h
    exact passes_operator? hoperator
  · rcases bind_eq_ok.mp h with ⟨⟨item, rest⟩, hrest, ht⟩
    cases ht
    exact passes_setRange hk hrest

theorem reaches_restOfSet : forall {fuel : Nat} {s : OpenSet} {outer : List OpenSet}
    {k l : Cursor} {set : SetTree}, restOfSet fuel s outer k = .ok (set, l) -> k.Reaches l
  | 0, s, outer, k, l, set, h => by cases h
  | fuel + 1, s, outer, k, l, set, h => by
      rw [restOfSet] at h
      split at h
      · cases h
      · rename_i set' rest hstep
        cases h
        exact (reaches_skip k).trans (passes_setStep hstep).1
      · rename_i inner around rest hstep
        exact ((reaches_skip k).trans (passes_setStep hstep).1).trans (reaches_restOfSet h)

theorem passes_readSet {fuel : Nat} {k l : Cursor} {set : SetTree} {c : Char} {cs : List Char}
    (hk : k.rest = c :: cs) (h : readSet fuel k = .ok (set, l)) : k.Passes l := by
  rcases bind_eq_ok.mp h with ⟨⟨s, rest⟩, hrest, h⟩
  exact (passes_openSet hk hrest).trans_reaches (reaches_restOfSet h)

theorem setStep_at_end {s : OpenSet} {outer : List OpenSet} {k : Cursor} (hk : k.rest = []) :
    setStep s outer k.skip = refuse .setUnclosed s.opening := by
  have hskip : k.skip.rest = [] := by
    have hlength := (reaches_skip k).length_le
    rw [hk] at hlength
    exact List.eq_nil_of_length_eq_zero (Nat.le_zero.mp hlength)
  rw [setStep, hskip]

/-- As much fuel as there are characters suffices for a set. -/
theorem restOfSet_eq {fuel more : Nat} {s : OpenSet} {outer : List OpenSet} {k : Cursor}
    (hfuel : k.rest.length ≤ fuel) (hmore : k.rest.length ≤ more) :
    restOfSet fuel s outer k = restOfSet more s outer k := by
  induction fuel generalizing more s outer k with
  | zero =>
      have hk : k.rest = [] := List.eq_nil_of_length_eq_zero (Nat.le_zero.mp hfuel)
      cases more with
      | zero => rfl
      | succ more =>
          rw [restOfSet, restOfSet, setStep_at_end hk]
          rfl
  | succ fuel ih =>
      cases more with
      | zero =>
          have hk : k.rest = [] := List.eq_nil_of_length_eq_zero (Nat.le_zero.mp hmore)
          rw [restOfSet, restOfSet, setStep_at_end hk]
          rfl
      | succ more =>
          rw [restOfSet, restOfSet]
          split
          · rfl
          · rfl
          · rename_i inner around rest hstep
            have hlt := ((reaches_skip k).trans_passes (passes_setStep hstep)).2
            exact ih (Nat.le_of_lt_succ (Nat.lt_of_lt_of_le hlt hfuel))
              (Nat.le_of_lt_succ (Nat.lt_of_lt_of_le hlt hmore))

theorem readSet_eq {fuel more : Nat} {k : Cursor} {c : Char} {cs : List Char}
    (hk : k.rest = c :: cs) (hfuel : k.rest.length ≤ fuel) (hmore : k.rest.length ≤ more) :
    readSet fuel k = readSet more k := by
  rw [readSet, readSet]
  cases hopen : openSet k with
  | error e => rfl
  | ok opened =>
      rcases opened with ⟨s, rest⟩
      have hlt := Nat.le_of_lt (passes_openSet hk hopen).2
      exact restOfSet_eq (Nat.le_trans hlt hfuel) (Nat.le_trans hlt hmore)

/-!
## Repetitions
-/

theorem reaches_readCount (k : Cursor) : k.Reaches (readCount k).2.2 := by
  have hlast := (reaches_gatherClose Text.isBlank k).trans
    (reaches_gather Char.isDigit (k.gatherClose Text.isBlank).2)
  have hrest := hlast.trans (reaches_gather Text.isBlank _)
  rw [readCount]
  dsimp only
  split
  · exact hrest
  · split
    · exact hrest
    · exact hrest

theorem passes_readBounds {k l : Cursor} {bounds : Nat × Option Nat} {c : Char} {cs : List Char}
    (hk : k.rest = c :: cs) (h : readBounds k = .ok (bounds, l)) : k.Passes l := by
  have hfirst := (passes_advance hk).trans_reaches (reaches_readCount k.advance)
  rw [readBounds] at h
  dsimp only at h
  generalize readCount k.advance = count at h hfirst
  rcases count with ⟨least, leastSpan, rest⟩
  have hsecond := hfirst.trans_reaches (reaches_advance rest)
  have hlast := hsecond.trans_reaches (reaches_readCount rest.advance)
  generalize readCount rest.advance = count at h hlast
  rcases count with ⟨most, mostSpan, last⟩
  split at h
  · cases h
  split at h
  · cases h
  split at h
  · split at h
    · cases h
    split at h
    · rcases bind_eq_ok.mp h with ⟨least, _, h⟩
      cases h
      exact hsecond
    · rcases bind_eq_ok.mp h with ⟨least, _, h⟩
      rcases bind_eq_ok.mp h with ⟨most, _, h⟩
      split at h
      · cases h
        exact hlast
      · cases h
  · rcases bind_eq_ok.mp h with ⟨least, _, h⟩
    split at h
    · cases h
      exact hfirst
    · cases h

theorem reaches_readGreed (k : Cursor) : k.Reaches (readGreed k).2 := by
  rw [readGreed]
  split
  · exact reaches_next k
  · exact Reaches.refl k

theorem passes_readBraces {k l : Cursor} {times : Repetition} {c : Char} {cs : List Char}
    (hk : k.rest = c :: cs) (h : readBraces k = .ok (times, l)) : k.Passes l := by
  rcases bind_eq_ok.mp h with ⟨⟨⟨least, most⟩, last⟩, hlast, h⟩
  dsimp only at h
  split at h
  · cases h
    exact ((passes_readBounds hk hlast).trans_reaches (reaches_advance last)).trans_reaches
      (reaches_readGreed last.advance)
  · cases h

theorem passes_readSign {k : Cursor} {c : Char} {cs : List Char} (hk : k.rest = c :: cs)
    (times : Repetition) : k.Passes (readSign times k).2 :=
  (passes_next hk).trans_reaches (reaches_readGreed k.next)

/-!
## Groups
-/

theorem reaches_readFlags (spaced : Bool) : forall {cs rest : List Char}
    {marks behind : List FlagMark} {p last : Position},
    readFlags marks cs p = .ok (behind, rest, last) ->
      Reaches ⟨cs, p, spaced⟩ ⟨rest, last, spaced⟩
  | [], rest, marks, behind, p, last, h => by cases h
  | c :: cs, rest, marks, behind, p, last, h => by
      have hstep : Reaches ⟨c :: cs, p, spaced⟩ ⟨cs, p.behind c, spaced⟩ := ⟨[c], rfl, rfl⟩
      rw [readFlags] at h
      split at h
      · split at h
        · cases h
        · cases h
          exact Reaches.refl _
      · dsimp only at h
        split at h
        · cases h
        · split at h
          · cases h
          · exact hstep.trans (reaches_readFlags spaced h)

theorem passes_readName (spaced : Bool) : forall {first : Bool} {cs name rest : List Char}
    {p last : Position}, readName first cs p = .ok (name, rest, last) ->
      Passes ⟨cs, p, spaced⟩ ⟨rest, last.behind '>', spaced⟩
  | first, [], name, rest, p, last, h => by cases h
  | first, c :: cs, name, rest, p, last, h => by
      have hstep : Reaches ⟨c :: cs, p, spaced⟩ ⟨cs, p.behind c, spaced⟩ := ⟨[c], rfl, rfl⟩
      rw [readName] at h
      split at h
      · rename_i hclose
        cases h
        rw [hclose] at hstep
        exact ⟨hclose ▸ hstep, Nat.lt_succ_self _⟩
      · split at h
        · split at h
          · cases h
          · rename_i name' rest' last' hmore
            cases h
            exact hstep.trans_passes (passes_readName spaced hmore)
        · cases h

theorem reaches_readGroupName {names names' : Names} {k l : Cursor}
    (h : readGroupName names k = .ok (names', l)) : k.Reaches l := by
  rcases bind_eq_ok.mp h with ⟨⟨name, rest, last⟩, hname, h⟩
  dsimp only at h
  split at h
  · cases h
  · split at h
    · cases h
    · cases h
      exact (passes_readName k.spaced hname).1

theorem reaches_behindNameMark? {k l : Cursor} (h : behindNameMark? k = some l) : k.Reaches l := by
  rw [behindNameMark?] at h
  rcases List.exists_of_findSome?_eq_some h with ⟨word, hword, hl⟩
  have hne : word ≠ "" := by
    rcases List.mem_cons.mp hword with rfl | hword
    · decide
    · rw [List.mem_singleton.mp hword]
      decide
  exact (passes_behindWord? hne hl).1

theorem passes_readOpening {names names' : Names} {k l : Cursor} {opening : Opening} {c : Char}
    {cs : List Char} (hk : k.rest = c :: cs)
    (h : readOpening names k = .ok (opening, names', l)) : k.Passes l := by
  have hinner := passes_advance hk
  rw [readOpening] at h
  dsimp only at h
  split at h
  · cases h
  · rename_i name _ hmark
    rcases bind_eq_ok.mp h with ⟨⟨names'', rest⟩, hrest, hl⟩
    cases hl
    have hname := hinner.trans_reaches (reaches_behindNameMark? hmark)
    exact hname.trans_reaches (reaches_readGroupName hrest)
  · cases h
    exact hinner
  · rename_i first _ _ hfirst
    split at h
    · cases h
    · rcases bind_eq_ok.mp h with ⟨⟨marks, rest, last⟩, hflags, h⟩
      have hflags' := reaches_readFlags first.spaced hflags
      have hmark := hinner.trans_passes (passes_behindWord? (by decide) hfirst)
      have hpasses := (hmark.trans_reaches hflags').trans_reaches (reaches_next _)
      dsimp only at h
      split at h
      · split at h
        · cases h
        · cases h
          exact hpasses
      · cases h
        exact hpasses

/-!
## Whole patterns
-/

namespace Progress

theorem passes_repeatLast {s t : Progress}
    {times : Cursor -> Except Error (Repetition × Cursor)}
    (htimes : forall r l, times s.cursor = .ok (r, l) -> s.cursor.Passes l)
    (h : s.repeatLast times = .ok t) : s.cursor.Passes t.cursor := by
  rw [repeatLast] at h
  split at h
  · cases h
  · split at h
    · rcases bind_eq_ok.mp h with ⟨⟨r, rest⟩, hrest, ht⟩
      cases ht
      exact htimes r rest hrest
    · cases h

theorem passes_openGroup {s t : Progress} {c : Char} {cs : List Char}
    (hk : s.cursor.rest = c :: cs) (h : s.openGroup = .ok t) : s.cursor.Passes t.cursor := by
  rcases bind_eq_ok.mp h with ⟨⟨opening, names, rest⟩, hrest, ht⟩
  have hpasses := passes_readOpening hk hrest
  cases opening with
  | flags span marks =>
      cases ht
      exact hpasses
  | group span marks captures =>
      cases ht
      exact hpasses

theorem passes_close {s t : Progress} {c : Char} {cs : List Char}
    (hk : s.cursor.rest = c :: cs) (h : s.close = .ok t) : s.cursor.Passes t.cursor := by
  rw [close] at h
  split at h
  · cases h
  · cases h
    exact passes_next hk

/-- Every part of a pattern takes at least one character. -/
theorem passes_step {fuel : Nat} {s t : Progress} {c : Char} {cs : List Char}
    (hk : s.cursor.rest = c :: cs) (h : step fuel s c = .ok t) : s.cursor.Passes t.cursor := by
  rw [step] at h
  split at h
  · rename_i times _
    refine passes_repeatLast (fun r l hr => ?_) h
    cases hr
    exact passes_readSign hk times
  split at h
  · exact passes_openGroup hk h
  split at h
  · exact passes_close hk h
  split at h
  · cases h
    exact passes_next hk
  split at h
  · rcases bind_eq_ok.mp h with ⟨⟨set, rest⟩, hrest, ht⟩
    cases ht
    exact passes_readSet hk hrest
  split at h
  · exact passes_repeatLast (fun r l hr => passes_readBraces hk hr) h
  · rcases bind_eq_ok.mp h with ⟨⟨item, span, rest⟩, hrest, ht⟩
    cases ht
    exact passes_readItem hk hrest

theorem step_eq {fuel more : Nat} {s : Progress} {c : Char} {cs : List Char}
    (hk : s.cursor.rest = c :: cs) (hfuel : s.cursor.rest.length ≤ fuel)
    (hmore : s.cursor.rest.length ≤ more) : step fuel s c = step more s c := by
  rw [step, step, readSet_eq hk hfuel hmore]

/-- The parts of a pattern one after the other, as many as there are. -/
inductive Reads : Progress -> Except Error Tree -> Prop where
  | finished (s : Progress) (hend : s.cursor.skip.rest = []) :
      Reads s { s with cursor := s.cursor.skip }.finish
  | refused (s : Progress) (c : Char) (cs : List Char) (e : Error)
      (hc : s.cursor.skip.rest = c :: cs)
      (hstep : step s.cursor.rest.length { s with cursor := s.cursor.skip } c = .error e) :
      Reads s (.error e)
  | further (s t : Progress) (c : Char) (cs : List Char) (result : Except Error Tree)
      (hc : s.cursor.skip.rest = c :: cs)
      (hstep : step s.cursor.rest.length { s with cursor := s.cursor.skip } c = .ok t)
      (hrest : Reads t result) : Reads s result

theorem reads_run {fuel : Nat} {s : Progress} (hfuel : s.cursor.rest.length < fuel) :
    Reads s (run fuel s) := by
  induction fuel generalizing s with
  | zero => cases hfuel
  | succ fuel ih =>
      have hskip := (reaches_skip s.cursor).length_le
      rw [run]
      split
      · rename_i hend
        exact .finished s hend
      · rename_i c cs hc
        have hstep : step (fuel + 1) { s with cursor := s.cursor.skip } c =
            step s.cursor.rest.length { s with cursor := s.cursor.skip } c :=
          step_eq hc (Nat.le_trans hskip (Nat.le_of_lt hfuel)) hskip
        split
        · rename_i e he
          exact .refused s c cs e hc (hstep.symm.trans he)
        · rename_i t ht
          have hlt := ((reaches_skip s.cursor).trans_passes (passes_step hc ht)).2
          exact .further s t c cs _ hc (hstep.symm.trans ht)
            (ih (Nat.lt_of_lt_of_le hlt (Nat.le_of_lt_succ hfuel)))

theorem Reads.eq {s : Progress} {result other : Except Error Tree} (h : Reads s result)
    (hother : Reads s other) : result = other := by
  induction h with
  | finished s hend =>
      cases hother with
      | finished => rfl
      | refused _ _ _ _ hc => rw [hend] at hc; cases hc
      | further _ _ _ _ _ hc => rw [hend] at hc; cases hc
  | refused s c cs e hc hstep =>
      cases hother with
      | finished _ hend => rw [hend] at hc; cases hc
      | refused _ c' cs' e' hc' hstep' =>
          rw [hc] at hc'
          cases hc'
          rw [hstep] at hstep'
          cases hstep'
          rfl
      | further _ t' c' cs' _ hc' hstep' =>
          rw [hc] at hc'
          cases hc'
          rw [hstep] at hstep'
          cases hstep'
  | further s t c cs result hc hstep _ ih =>
      cases hother with
      | finished _ hend => rw [hend] at hc; cases hc
      | refused _ c' cs' e' hc' hstep' =>
          rw [hc] at hc'
          cases hc'
          rw [hstep] at hstep'
          cases hstep'
      | further _ t' c' cs' _ hc' hstep' hrest =>
          rw [hc] at hc'
          cases hc'
          rw [hstep] at hstep'
          cases hstep'
          exact ih hrest

/-- A reading with enough fuel is the reading part by part. -/
theorem reads_iff {fuel : Nat} {s : Progress} (hfuel : s.cursor.rest.length < fuel)
    {result : Except Error Tree} : Reads s result <-> run fuel s = result := by
  constructor
  · exact fun h => (reads_run hfuel).eq h
  · intro h
    rcases h with rfl
    exact reads_run hfuel

end Progress

def Progress.start (text : String) : Progress :=
  ⟨.empty .origin, [], [], Cursor.start text⟩

/-- A text writes a pattern if its parts can be read to the end and are not nested too deep. -/
theorem Tree.read_eq_ok {text : String} {tree : Tree} :
    Tree.read text = .ok tree <->
      (Progress.start text).Reads (.ok tree) ∧ tree.tooDeep? greatestDepth 0 = none := by
  have hfuel : (Progress.start text).cursor.rest.length < text.length + 1 := by
    rw [← String.length_toList]
    exact Nat.lt_succ_self _
  rw [Progress.reads_iff hfuel, Tree.read]
  constructor
  · intro h
    rcases bind_eq_ok.mp h with ⟨tree', hrun, h⟩
    split at h
    · cases h
    · rename_i hdeep
      cases h
      exact ⟨hrun, hdeep⟩
  · intro h
    rcases h with ⟨hrun, hdeep⟩
    refine bind_eq_ok.mpr ⟨tree, hrun, ?_⟩
    rw [hdeep]
    rfl

end Pattern
end LoopNest
