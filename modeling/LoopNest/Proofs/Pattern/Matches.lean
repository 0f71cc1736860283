import LoopNest.Pattern.Matching

/-!
# Matches

A pattern relates the places of a text where its matches start to those where they end.  The
search goes from sets of places to sets of places; it finds the ends of all matches and nothing
else.
-/

namespace LoopNest
namespace Pattern

/-!
## Steps in a row
-/

section Steps

variable {R : Nat -> Nat -> Prop} {i j k m n : Nat}

def Steps (R : Nat -> Nat -> Prop) : Nat -> Nat -> Nat -> Prop
  | 0, i, j => i = j
  | n + 1, i, j => exists k, R i k ∧ Steps R n k j

theorem Steps.one (h : R i j) : Steps R 1 i j :=
  ⟨j, h, rfl⟩

theorem steps_add : Steps R (m + n) i j <-> exists k, Steps R m i k ∧ Steps R n k j := by
  induction m generalizing i with
  | zero =>
      rw [Nat.zero_add]
      constructor
      · intro h
        exact ⟨i, rfl, h⟩
      · intro h
        rcases h with ⟨k, rfl, h⟩
        exact h
  | succ m ih =>
      rw [Nat.succ_add]
      constructor
      · intro h
        rcases h with ⟨l, hl, hrest⟩
        rcases ih.mp hrest with ⟨k, hk, hj⟩
        exact ⟨k, ⟨l, hl, hk⟩, hj⟩
      · intro h
        rcases h with ⟨k, ⟨l, hl, hk⟩, hj⟩
        exact ⟨l, hl, ih.mpr ⟨k, hk, hj⟩⟩

theorem Steps.snoc (h : Steps R n i k) (hk : R k j) : Steps R (n + 1) i j :=
  steps_add.mpr ⟨k, h, .one hk⟩

/-- The last of several steps. -/
theorem Steps.last (h : Steps R (n + 1) i j) : exists k, Steps R n i k ∧ R k j := by
  rcases steps_add.mp h with ⟨k, hk, l, hl, rfl⟩
  exact ⟨k, hk, hl⟩

theorem Steps.mono {S : Nat -> Nat -> Prop} (hRS : forall i j, R i j -> S i j)
    (h : Steps R n i j) : Steps S n i j := by
  induction n generalizing i with
  | zero => exact h
  | succ n ih =>
      rcases h with ⟨k, hk, hrest⟩
      exact ⟨k, hRS i k hk, ih hrest⟩

/-- What a step does not lead out of, steps do not lead out of either. -/
theorem Steps.stays {P : Nat -> Prop} (hP : forall i j, P i -> R i j -> P j) (hi : P i)
    (h : Steps R n i j) : P j := by
  induction n generalizing i with
  | zero => exact h ▸ hi
  | succ n ih =>
      rcases h with ⟨k, hk, hrest⟩
      exact ih (hP i k hi hk) hrest

/-- Steps that never lead back: those that stay where they are can be left out. -/
theorem Steps.shorten (hR : forall i j, i ≤ m -> R i j -> i ≤ j ∧ j ≤ m) (hi : i ≤ m)
    (h : Steps R n i j) : exists k, k ≤ j - i ∧ k ≤ n ∧ i ≤ j ∧ j ≤ m ∧ Steps R k i j := by
  induction n generalizing i with
  | zero =>
      cases h
      exact ⟨0, Nat.zero_le _, Nat.le_refl _, Nat.le_refl _, hi, rfl⟩
  | succ n ih =>
      rcases h with ⟨l, hl, hrest⟩
      have hil := hR i l hi hl
      rcases ih hil.2 hrest with ⟨k, hk, hkn, hlj, hjm, hsteps⟩
      by_cases heq : i = l
      · subst heq
        exact ⟨k, hk, Nat.le_succ_of_le hkn, hlj, hjm, hsteps⟩
      · exact ⟨k + 1, by omega, by omega, by omega, hjm, l, hl, hsteps⟩

end Steps

/-!
## Matches of patterns
-/

def Before (cs : List Char) (test : Char -> Bool) (i : Nat) : Prop :=
  exists c, cs[i]? = some c ∧ test c = true

def Behind (cs : List Char) (test : Char -> Bool) (i : Nat) : Prop :=
  exists k, i = k + 1 ∧ Before cs test k

/-- A side of a word, at a place that may lie behind a character of a word and in front of one. -/
def WordMark.Holds (behind before : Prop) : WordMark -> Prop
  | boundary => ¬ (behind <-> before)
  | noBoundary => behind <-> before
  | start => before ∧ ¬ behind
  | stop => behind ∧ ¬ before
  | startHalf => ¬ behind
  | stopHalf => ¬ before

def Look.Holds (cs : List Char) : Look -> Nat -> Prop
  | textStart, i => i = 0
  | textEnd, i => i = cs.length
  | lineStart false, i => i = 0 ∨ Behind cs (· == '\n') i
  | lineStart true, i =>
      i = 0 ∨ Behind cs (· == '\n') i ∨ (Behind cs (· == '\r') i ∧ ¬ Before cs (· == '\n') i)
  | lineEnd false, i => i = cs.length ∨ Before cs (· == '\n') i
  | lineEnd true, i =>
      i = cs.length ∨ Before cs (· == '\r') i ∨
        (Before cs (· == '\n') i ∧ ¬ Behind cs (· == '\r') i)
  | word mark _, i => mark.Holds (Behind cs isWordCharacter i) (Before cs isWordCharacter i)

def Repetition.Allows (times : Repetition) (n : Nat) : Prop :=
  times.least ≤ n ∧ forall m, times.most = some m -> n ≤ m

/-- A relation that is repeated. -/
def Repeats (times : Repetition) (R : Nat -> Nat -> Prop) (i j : Nat) : Prop :=
  exists n, times.Allows n ∧ Steps R n i j

mutual

/-- Where matches start and end. -/
def Matches (cs : List Char) : Pattern -> Nat -> Nat -> Prop
  | .empty, i, j => i = j
  | .text chars, i, j => chars <+: cs.drop i ∧ j = i + chars.length
  | .one _ set, i, j => Before cs set.holds i ∧ j = i + 1
  | .look condition, i, j => condition.Holds cs i ∧ i = j
  | .sequence items, i, j => MatchesAll cs items i j
  | .either items, i, j => MatchesAny cs items i j
  | .repeated times body, i, j => Repeats times (body.Matches cs) i j
  | .group body, i, j => body.Matches cs i j

def MatchesAll (cs : List Char) : List Pattern -> Nat -> Nat -> Prop
  | [], i, j => i = j
  | item :: items, i, j => exists k, item.Matches cs i k ∧ MatchesAll cs items k j

def MatchesAny (cs : List Char) : List Pattern -> Nat -> Nat -> Prop
  | [], _, _ => False
  | item :: items, i, j => item.Matches cs i j ∨ MatchesAny cs items i j

end

theorem matchesAny_iff {cs : List Char} {ps : List Pattern} {i j : Nat} :
    MatchesAny cs ps i j <-> exists p, p ∈ ps ∧ p.Matches cs i j := by
  induction ps with
  | nil => simp [MatchesAny]
  | cons p ps ih => simp [MatchesAny, ih]

/-!
### Bounds
-/

theorem Before.lt_length {cs : List Char} {test : Char -> Bool} {i : Nat} (h : Before cs test i) :
    i < cs.length := by
  rcases h with ⟨c, hc, _⟩
  exact (List.getElem?_eq_some_iff.mp hc).1

theorem cons_prefix_drop {cs chars : List Char} {c : Char} {i : Nat} :
    c :: chars <+: cs.drop i <-> Before cs (· == c) i ∧ chars <+: cs.drop (i + 1) := by
  rw [List.drop_eq_getElem?_toList_append, Before]
  cases h : cs[i]? with
  | none =>
      have hlen : cs.drop (i + 1) = [] :=
        List.drop_eq_nil_of_le (Nat.le_succ_of_le (List.getElem?_eq_none_iff.mp h))
      simp [hlen]
  | some d => simp [List.cons_prefix_cons, eq_comm (a := c)]

/-- A match does not end in front of its start. -/
def Onward (length : Nat) (R : Nat -> Nat -> Prop) : Prop :=
  forall i j, i ≤ length -> R i j -> i ≤ j ∧ j ≤ length

theorem Onward.steps {length n : Nat} {R : Nat -> Nat -> Prop} (hR : Onward length R) :
    Onward length (Steps R n) := by
  intro i j hi hsteps
  rcases hsteps.shorten hR hi with ⟨_, _, _, hij, hj, _⟩
  exact ⟨hij, hj⟩

theorem Onward.repeats {length : Nat} {times : Repetition} {R : Nat -> Nat -> Prop}
    (hR : Onward length R) : Onward length (Repeats times R) := by
  intro i j hi h
  rcases h with ⟨n, _, hsteps⟩
  exact hR.steps i j hi hsteps

mutual

theorem onward_matches (cs : List Char) : forall p : Pattern, Onward cs.length (p.Matches cs)
  | .empty, i, j, hi, h => by
      cases h
      exact ⟨Nat.le_refl _, hi⟩
  | .text chars, i, j, hi, ⟨hstart, hj⟩ => by
      have hlen := hstart.length_le
      rw [List.length_drop] at hlen
      omega
  | .one _ set, i, j, hi, ⟨hbefore, hj⟩ => by
      have hlt := hbefore.lt_length
      omega
  | .look condition, i, j, hi, ⟨_, hij⟩ => by
      cases hij
      exact ⟨Nat.le_refl _, hi⟩
  | .sequence items, i, j, hi, h => onward_matchesAll cs items i j hi h
  | .either items, i, j, hi, h => onward_matchesAny cs items i j hi h
  | .repeated _ body, i, j, hi, h => (onward_matches cs body).repeats i j hi h
  | .group body, i, j, hi, h => onward_matches cs body i j hi h

theorem onward_matchesAll (cs : List Char) :
    forall items : List Pattern, Onward cs.length (MatchesAll cs items)
  | [], i, j, hi, h => by
      cases h
      exact ⟨Nat.le_refl _, hi⟩
  | item :: items, i, j, hi, ⟨k, hk, hrest⟩ => by
      have hik := onward_matches cs item i k hi hk
      have hkj := onward_matchesAll cs items k j hik.2 hrest
      exact ⟨Nat.le_trans hik.1 hkj.1, hkj.2⟩

theorem onward_matchesAny (cs : List Char) :
    forall items : List Pattern, Onward cs.length (MatchesAny cs items)
  | [], _, _, _, h => h.elim
  | item :: _, i, j, hi, .inl h => onward_matches cs item i j hi h
  | _ :: items, i, j, hi, .inr h => onward_matchesAny cs items i j hi h

end

/-!
## Sets of places
-/

namespace Places

theorem testBit_without {first second : Places} {i : Nat} :
    (first.without second).testBit i <-> first.testBit i ∧ ¬ second.testBit i := by
  rw [without, Nat.testBit_xor, Nat.testBit_or]
  cases first.testBit i <;> cases second.testBit i <;> decide

theorem testBit_moved {places : Places} {j : Nat} :
    places.moved.testBit j <-> exists i, j = i + 1 ∧ places.testBit i := by
  rw [moved]
  cases j with
  | zero => simp
  | succ j => simp [Nat.testBit_add_one]

theorem testBit_before {test : Char -> Bool} {cs : List Char} {i : Nat} :
    (before test cs).testBit i <-> Before cs test i := by
  induction cs generalizing i with
  | nil => simp [before, Before]
  | cons c cs ih =>
      rw [before, moved]
      cases i with
      | zero => cases h : test c <;> simp [Before, h]
      | succ i =>
          have hhalf : (2 * before test cs + (test c).toNat) / 2 = before test cs := by
            rw [Nat.mul_add_div Nat.two_pos]
            cases test c <;> rfl
          rw [Nat.testBit_add_one, hhalf, ih, Before, Before, List.getElem?_cons_succ]

end Places

def Within (length : Nat) (places : Places) : Prop :=
  forall i, places.testBit i -> i ≤ length

namespace Haystack

variable {text : String} {test : Char -> Bool} {i j : Nat}

theorem testBit_foldl {found : Places} {marked : List (Char × Places)} :
    (marked.foldl (fun found p => if test p.1 then found ||| p.2 else found) found).testBit i <->
      found.testBit i ∨ exists p, p ∈ marked ∧ test p.1 ∧ p.2.testBit i := by
  induction marked generalizing found with
  | nil => simp
  | cons p marked ih =>
      rw [List.foldl_cons, ih]
      cases h : test p.1 <;> simp [h, or_assoc]

theorem testBit_before : ((ofText text).before test).testBit i <-> Before text.toList test i := by
  rw [before, testBit_foldl]
  simp only [ofText, List.mem_map, List.mem_eraseDups, Nat.zero_testBit, Bool.false_eq_true,
    false_or]
  constructor
  · intro h
    rcases h with ⟨_, ⟨c, _, rfl⟩, htest, hbit⟩
    rcases Places.testBit_before.mp hbit with ⟨d, hd, heq⟩
    exact ⟨d, hd, eq_of_beq heq ▸ htest⟩
  · intro h
    rcases h with ⟨c, hc, htest⟩
    exact ⟨_, ⟨c, List.mem_of_getElem? hc, rfl⟩, htest,
      Places.testBit_before.mpr ⟨c, hc, beq_self_eq_true c⟩⟩

theorem testBit_behind : ((ofText text).behind test).testBit i <-> Behind text.toList test i := by
  rw [behind, Places.testBit_moved, Behind]
  simp only [testBit_before]

theorem testBit_all : (ofText text).all.testBit i <-> i ≤ text.toList.length := by
  have hall : (ofText text).all = 2 ^ (text.toList.length + 1) - 1 := rfl
  rw [hall, Nat.testBit_two_pow_sub_one, decide_eq_true_eq, Nat.lt_succ_iff]

theorem testBit_stop : (ofText text).stop.testBit i <-> i = text.toList.length := by
  have hstop : (ofText text).stop = 2 ^ text.toList.length := rfl
  rw [hstop, Nat.testBit_two_pow, decide_eq_true_eq, eq_comm]

theorem testBit_behindRow {chars : List Char} {places : Places} :
    ((ofText text).behindRow chars places).testBit j <->
      exists i, places.testBit i ∧ chars <+: text.toList.drop i ∧ j = i + chars.length := by
  induction chars generalizing places with
  | nil => simp [behindRow]
  | cons c chars ih =>
      rw [behindRow]
      split
      · rename_i hnone
        simp [hnone]
      · simp only [ih, Places.testBit_moved, Nat.testBit_and, Bool.and_eq_true, testBit_before,
          cons_prefix_drop, List.length_cons]
        constructor
        · intro h
          rcases h with ⟨_, ⟨i, rfl, hi, hbefore⟩, hstart, hj⟩
          exact ⟨i, hi, ⟨hbefore, hstart⟩, by omega⟩
        · intro h
          rcases h with ⟨i, hi, ⟨hbefore, hstart⟩, hj⟩
          exact ⟨i + 1, ⟨i, rfl, hi, hbefore⟩, hstart, by omega⟩

end Haystack

theorem WordMark.testBit_places {all behind before : Places} {i : Nat} (hi : all.testBit i) :
    forall mark : WordMark, (mark.places all behind before).testBit i <->
      mark.Holds (behind.testBit i) (before.testBit i) := by
  intro mark
  cases mark <;> simp only [places, Holds, Places.testBit_without, Nat.testBit_xor, hi] <;>
    cases behind.testBit i <;> cases before.testBit i <;> decide

theorem Look.testBit_places {text : String} {i : Nat} (hi : i ≤ text.toList.length) :
    forall condition : Look, (condition.places (.ofText text)).testBit i <->
      condition.Holds text.toList i
  | textStart => by simp [places, Holds, Nat.testBit_one_eq_true_iff_self_eq_zero]
  | textEnd => Haystack.testBit_stop
  | lineStart false => by
      simp [places, Holds, Nat.testBit_one_eq_true_iff_self_eq_zero, Haystack.testBit_behind]
  | lineStart true => by
      simp [places, Holds, Nat.testBit_one_eq_true_iff_self_eq_zero, Haystack.testBit_behind,
        Haystack.testBit_before, Places.testBit_without, or_assoc]
  | lineEnd false => by simp [places, Holds, Haystack.testBit_stop, Haystack.testBit_before]
  | lineEnd true => by
      simp [places, Holds, Haystack.testBit_stop, Haystack.testBit_behind,
        Haystack.testBit_before, Places.testBit_without, or_assoc]
  | word mark _ => by
      rw [places, Holds, mark.testBit_places (Haystack.testBit_all.mpr hi),
        Haystack.testBit_behind, Haystack.testBit_before]

/-!
## The search

A step of the search goes from places to places.  Repeated steps reach the same places as the
relation does, although the search stops as soon as nothing new turns up: steps that stay where
they are can be left out, and the others go forward.
-/

/-- A step leads to the places that a relation tells. -/
def Leads (length : Nat) (step : Places -> Places) (R : Nat -> Nat -> Prop) : Prop :=
  forall places j, Within length places ->
    ((step places).testBit j <-> exists i, places.testBit i ∧ R i j)

section Search

variable {length : Nat} {step : Places -> Places} {R : Nat -> Nat -> Prop}
  {places found newest reached : Places} {i j n : Nat}

theorem Leads.within (hstep : Leads length step R) (hR : Onward length R)
    (hplaces : Within length places) : Within length (step places) := by
  intro j hj
  rcases (hstep places j hplaces).mp hj with ⟨i, hi, hij⟩
  exact (hR i j (hplaces i hi) hij).2

theorem within_or (hfound : Within length found) (hnewest : Within length newest) :
    Within length (found ||| newest) := by
  intro i hi
  rw [Nat.testBit_or, Bool.or_eq_true] at hi
  exact hi.elim (hfound i) (hnewest i)

theorem Within.without (hfound : Within length found) : Within length (found.without newest) :=
  fun i hi => hfound i (Places.testBit_without.mp hi).1

/-- A union that adds nothing. -/
theorem testBit_of_or_eq (h : found ||| newest = found) (hi : newest.testBit i) :
    found.testBit i := by
  rw [← h, Nat.testBit_or, hi, Bool.or_true]

theorem iterate_of_fixed (h : step places = places) : iterate step n places = places := by
  cases n with
  | zero => rfl
  | succ n => rw [iterate, if_pos h]

theorem iterate_succ : iterate step (n + 1) places = iterate step n (step places) := by
  rw [iterate]
  split
  · rename_i hfixed
    rw [hfixed, iterate_of_fixed hfixed]
  · rfl

theorem within_iterate (hstep : Leads length step R) (hR : Onward length R)
    (hplaces : Within length places) : Within length (iterate step n places) := by
  induction n generalizing places with
  | zero => exact hplaces
  | succ n ih =>
      rw [iterate_succ]
      exact ih (hstep.within hR hplaces)

theorem testBit_iterate (hstep : Leads length step R) (hR : Onward length R)
    (hplaces : Within length places) :
    (iterate step n places).testBit j <-> exists i, places.testBit i ∧ Steps R n i j := by
  induction n generalizing places with
  | zero =>
      constructor
      · intro h
        exact ⟨j, h, rfl⟩
      · intro h
        rcases h with ⟨i, hi, rfl⟩
        exact hi
  | succ n ih =>
      rw [iterate_succ, ih (hstep.within hR hplaces)]
      constructor
      · intro h
        rcases h with ⟨k, hk, hsteps⟩
        rcases (hstep places k hplaces).mp hk with ⟨i, hi, hik⟩
        exact ⟨i, hi, k, hik, hsteps⟩
      · intro h
        rcases h with ⟨i, hi, k, hik, hsteps⟩
        exact ⟨k, (hstep places k hplaces).mpr ⟨i, hi, hik⟩, hsteps⟩

/-- The older places lead only to places that have been reached. -/
structure Explored (R : Nat -> Nat -> Prop) (found newest reached : Places) : Prop where
  newest_found : forall i, newest.testBit i -> found.testBit i
  reached_found : forall i, reached.testBit i -> found.testBit i
  older_reached : forall i j, found.testBit i -> ¬ newest.testBit i -> R i j -> reached.testBit j

namespace Explored

theorem start (places : Places) : Explored R places places 0 where
  newest_found := fun _ hi => hi
  reached_found := fun i hi => absurd hi (by simp)
  older_reached := fun _ _ hi hnot _ => absurd hi hnot

theorem refl (places : Places) : Explored R places places places where
  newest_found := fun _ hi => hi
  reached_found := fun _ hi => hi
  older_reached := fun _ _ hi hnot _ => absurd hi hnot

variable (h : Explored R found newest reached) (hstep : Leads length step R)
  (hfound : Within length found)

include h hstep hfound

theorem testBit_step : (step newest).testBit j -> exists i, found.testBit i ∧ R i j := by
  intro hj
  rcases (hstep newest j fun i hi => hfound i (h.newest_found i hi)).mp hj with ⟨i, hi, hij⟩
  exact ⟨i, h.newest_found i hi, hij⟩

theorem onward (hi : found.testBit i) (hij : R i j) : (reached ||| step newest).testBit j := by
  rw [Nat.testBit_or, Bool.or_eq_true]
  by_cases hnewest : newest.testBit i
  · have hwithin : Within length newest := fun k hk => hfound k (h.newest_found k hk)
    exact Or.inr ((hstep newest j hwithin).mpr ⟨i, hnewest, hij⟩)
  · exact Or.inl (h.older_reached i j hi hnewest hij)

/-- The next round starts with the places that the last one added. -/
theorem next : Explored R (found ||| step newest) (Places.without (found ||| step newest) found)
    (reached ||| step newest) where
  newest_found := fun i hi => (Places.testBit_without.mp hi).1
  reached_found := by
    intro i hi
    rw [Nat.testBit_or, Bool.or_eq_true] at hi ⊢
    exact hi.imp_left (h.reached_found i)
  older_reached := by
    intro i j hi hnot hij
    rw [Places.testBit_without, Decidable.not_and_not_right] at hnot
    exact h.onward hstep hfound (hnot hi) hij

/-- Nothing leads out of the places found if the newest ones lead to nothing new. -/
theorem closed (hall : found ||| step newest = found) (hi : found.testBit i) (hij : R i j) :
    found.testBit j := by
  have hj := h.onward hstep hfound hi hij
  rw [Nat.testBit_or, Bool.or_eq_true] at hj
  exact hj.elim (h.reached_found j) (testBit_of_or_eq hall)

end Explored

theorem testBit_spread (hstep : Leads length step R) (hR : Onward length R)
    (hfound : Within length found) (h : Explored R found newest found) :
    (spread step n found newest).testBit j <->
      exists i, found.testBit i ∧ exists k, k ≤ n ∧ Steps R k i j := by
  induction n generalizing found newest with
  | zero =>
      constructor
      · intro hj
        exact ⟨j, hj, 0, Nat.le_refl 0, rfl⟩
      · intro hends
        rcases hends with ⟨i, hi, k, hk, hsteps⟩
        cases Nat.le_zero.mp hk
        exact hsteps ▸ hi
  | succ n ih =>
      simp only [spread]
      split
      · rename_i hall
        constructor
        · intro hj
          exact ⟨j, hj, 0, Nat.zero_le _, rfl⟩
        · intro hends
          rcases hends with ⟨i, hi, k, _, hsteps⟩
          exact hsteps.stays (P := fun i => found.testBit i)
            (fun _ _ => h.closed hstep hfound hall) hi
      · have hwithin : Within length newest := fun k hk => hfound k (h.newest_found k hk)
        rw [ih (within_or hfound (hstep.within hR hwithin)) (h.next hstep hfound)]
        constructor
        · intro hends
          rcases hends with ⟨i, hi, k, hk, hsteps⟩
          rw [Nat.testBit_or, Bool.or_eq_true] at hi
          rcases hi with hi | hi
          · exact ⟨i, hi, k, Nat.le_succ_of_le hk, hsteps⟩
          · rcases h.testBit_step hstep hfound hi with ⟨l, hl, hli⟩
            exact ⟨l, hl, k + 1, Nat.succ_le_succ hk, i, hli, hsteps⟩
        · intro hends
          rcases hends with ⟨i, hi, k, hk, hsteps⟩
          cases k with
          | zero =>
              refine ⟨i, ?_, 0, Nat.zero_le n, hsteps⟩
              rw [Nat.testBit_or, hi, Bool.true_or]
          | succ k =>
              rcases hsteps with ⟨l, hil, hrest⟩
              exact ⟨l, h.onward hstep hfound hi hil, k, Nat.le_of_succ_le_succ hk, hrest⟩

theorem testBit_arrive (hstep : Leads length step R) (hR : Onward length R)
    (hfound : Within length found) (h : Explored R found newest reached) :
    (arrive step n found newest reached).testBit j <->
      reached.testBit j ∨
        exists i, found.testBit i ∧ exists k, k < n ∧ Steps R (k + 1) i j := by
  induction n generalizing found newest reached with
  | zero => simp [arrive]
  | succ n ih =>
      have hround : (reached ||| step newest).testBit j -> reached.testBit j ∨
          exists i, found.testBit i ∧ exists k, k < n + 1 ∧ Steps R (k + 1) i j := by
        intro hj
        rw [Nat.testBit_or, Bool.or_eq_true] at hj
        refine hj.imp_right fun hj => ?_
        rcases h.testBit_step hstep hfound hj with ⟨i, hi, hij⟩
        exact ⟨i, hi, 0, Nat.succ_pos n, .one hij⟩
      simp only [arrive]
      split
      · rename_i hall
        refine ⟨hround, ?_⟩
        intro hends
        rcases hends with hj | ⟨i, hi, k, _, hsteps⟩
        · rw [Nat.testBit_or, hj, Bool.true_or]
        · rcases hsteps.last with ⟨l, hil, hlj⟩
          have hl := hil.stays (P := fun i => found.testBit i)
            (fun _ _ => h.closed hstep hfound hall) hi
          exact h.onward hstep hfound hl hlj
      · have hwithin : Within length newest := fun k hk => hfound k (h.newest_found k hk)
        rw [ih (within_or hfound (hstep.within hR hwithin)) (h.next hstep hfound)]
        constructor
        · intro hends
          rcases hends with hj | ⟨i, hi, k, hk, hsteps⟩
          · exact hround hj
          · rw [Nat.testBit_or, Bool.or_eq_true] at hi
            rcases hi with hi | hi
            · exact Or.inr ⟨i, hi, k, Nat.lt_succ_of_lt hk, hsteps⟩
            · rcases h.testBit_step hstep hfound hi with ⟨l, hl, hli⟩
              exact Or.inr ⟨l, hl, k + 1, Nat.succ_lt_succ hk, i, hli, hsteps⟩
        · intro hends
          rcases hends with hj | ⟨i, hi, k, hk, l, hil, hrest⟩
          · refine Or.inl ?_
            rw [Nat.testBit_or, hj, Bool.true_or]
          · have hl := h.onward hstep hfound hi hil
            cases k with
            | zero => exact Or.inl (hrest ▸ hl)
            | succ k =>
                exact Or.inr ⟨l, (h.next hstep hfound).reached_found l hl, k,
                  Nat.lt_of_succ_lt_succ hk, hrest⟩

/-- A round that finds nothing new is the last one, and there are not more rounds than places. -/
theorem leads_repeatedly (hstep : Leads length step R) (hR : Onward length R)
    (times : Repetition) : Leads length (repeatedly step length times) (Repeats times R) := by
  intro places j hplaces
  have hfirst : forall n, Within length (iterate step n places) := fun _ =>
    within_iterate hstep hR hplaces
  rw [repeatedly]
  split
  · rename_i hleast hmost
    rw [testBit_spread hstep hR hplaces (.refl places)]
    constructor
    · intro h
      rcases h with ⟨i, hi, k, _, hsteps⟩
      exact ⟨i, hi, k, ⟨by omega, by simp [hmost]⟩, hsteps⟩
    · intro h
      rcases h with ⟨i, hi, n, _, hsteps⟩
      rcases hsteps.shorten hR (hplaces i hi) with ⟨k, hk, _, _, hj, hshort⟩
      exact ⟨i, hi, k, by omega, hshort⟩
  · rename_i least hleast hmost
    rw [testBit_arrive hstep hR (hfirst least) (.start _)]
    simp only [Nat.zero_testBit, Bool.false_eq_true, false_or, testBit_iterate hstep hR hplaces]
    constructor
    · intro h
      rcases h with ⟨l, ⟨i, hi, hil⟩, k, _, hsteps⟩
      exact ⟨i, hi, least + (k + 1), ⟨by omega, by simp [hmost]⟩, steps_add.mpr ⟨l, hil, hsteps⟩⟩
    · intro h
      rcases h with ⟨i, hi, n, ⟨hn, _⟩, hsteps⟩
      have hn : n = least + ((n - least - 1) + 1) := by omega
      rw [hn] at hsteps
      rcases steps_add.mp hsteps with ⟨l, hil, k, hlk, hrest⟩
      have hl := hR.steps i l (hplaces i hi) hil
      have hk := hR l k hl.2 hlk
      rcases hrest.shorten hR hk.2 with ⟨m, hm, _, _, hj, hshort⟩
      exact ⟨l, ⟨i, hi, hil⟩, m, by omega, k, hlk, hshort⟩
  · rename_i most hmost
    rw [testBit_spread hstep hR (hfirst _) (.refl _)]
    simp only [testBit_iterate hstep hR hplaces]
    have hordered := times.ordered most hmost
    constructor
    · intro h
      rcases h with ⟨l, ⟨i, hi, hil⟩, k, hk, hsteps⟩
      refine ⟨i, hi, times.least + k, ⟨Nat.le_add_right _ _, ?_⟩, steps_add.mpr ⟨l, hil, hsteps⟩⟩
      intro m hm
      rw [hmost, Option.some.injEq] at hm
      omega
    · intro h
      rcases h with ⟨i, hi, n, ⟨hleast, hle⟩, hsteps⟩
      rw [← Nat.add_sub_of_le hleast] at hsteps
      rcases steps_add.mp hsteps with ⟨l, hil, hrest⟩
      exact ⟨l, ⟨i, hi, hil⟩, _, Nat.sub_le_sub_right (hle most hmost) _, hrest⟩

end Search

/-!
### Patterns
-/

variable {text : String}

mutual

/-- The search finds the ends of all matches that start at the given places. -/
theorem leads_reach : forall p : Pattern,
    Leads text.toList.length (p.reach (.ofText text)) (p.Matches text.toList)
  | .empty, places, j, _ => by
      simp [reach, Matches]
  | .text chars, places, j, _ => Haystack.testBit_behindRow
  | .one _ set, places, j, _ => by
      simp only [reach, Matches, Places.testBit_moved, Nat.testBit_and, Bool.and_eq_true,
        Haystack.testBit_before]
      constructor
      · intro h
        rcases h with ⟨i, hj, hi, hbefore⟩
        exact ⟨i, hi, hbefore, hj⟩
      · intro h
        rcases h with ⟨i, hi, hbefore, hj⟩
        exact ⟨i, hj, hi, hbefore⟩
  | .look condition, places, j, hplaces => by
      simp only [reach, Matches, Nat.testBit_and, Bool.and_eq_true]
      constructor
      · intro h
        rcases h with ⟨hj, hcondition⟩
        exact ⟨j, hj, (condition.testBit_places (hplaces j hj)).mp hcondition, rfl⟩
      · intro h
        rcases h with ⟨i, hi, hholds, rfl⟩
        exact ⟨hi, (condition.testBit_places (hplaces i hi)).mpr hholds⟩
  | .sequence items, places, j, hplaces => leads_reachAll items places j hplaces
  | .either items, places, j, hplaces => leads_reachAny items places j hplaces
  | .repeated times body, places, j, hplaces => by
      rw [reach]
      split
      · rename_i hnone
        simp [hnone]
      · exact leads_repeatedly (leads_reach body) (onward_matches _ body) times places j hplaces
  | .group body, places, j, hplaces => leads_reach body places j hplaces

theorem leads_reachAll : forall items : List Pattern,
    Leads text.toList.length (reachAll (.ofText text) items) (MatchesAll text.toList items)
  | [], places, j, _ => by
      simp [reachAll, MatchesAll]
  | item :: items, places, j, hplaces => by
      rw [reachAll]
      split
      · rename_i hnone
        simp [hnone]
      · have hitem := leads_reach item
        have hwithin := hitem.within (onward_matches _ item) hplaces
        rw [leads_reachAll items _ j hwithin]
        constructor
        · intro h
          rcases h with ⟨k, hk, hrest⟩
          rcases (hitem places k hplaces).mp hk with ⟨i, hi, hik⟩
          exact ⟨i, hi, k, hik, hrest⟩
        · intro h
          rcases h with ⟨i, hi, k, hik, hrest⟩
          exact ⟨k, (hitem places k hplaces).mpr ⟨i, hi, hik⟩, hrest⟩

theorem leads_reachAny : forall items : List Pattern,
    Leads text.toList.length (reachAny (.ofText text) items) (MatchesAny text.toList items)
  | [], places, j, _ => by
      simp [reachAny, MatchesAny]
  | item :: items, places, j, hplaces => by
      rw [reachAny, Nat.testBit_or, Bool.or_eq_true, leads_reach item places j hplaces,
        leads_reachAny items places j hplaces]
      constructor
      · intro h
        rcases h with ⟨i, hi, h⟩ | ⟨i, hi, h⟩
        · exact ⟨i, hi, Or.inl h⟩
        · exact ⟨i, hi, Or.inr h⟩
      · intro h
        rcases h with ⟨i, hi, h | h⟩
        · exact Or.inl ⟨i, hi, h⟩
        · exact Or.inr ⟨i, hi, h⟩

end

def Occurs (p : Pattern) (text : String) : Prop :=
  exists i j, i ≤ text.toList.length ∧ p.Matches text.toList i j

theorem occursIn_iff {p : Pattern} : p.occursIn text <-> p.Occurs text := by
  have hall : Within text.toList.length (Haystack.ofText text).all := fun _ =>
    Haystack.testBit_all.mp
  rw [occursIn, bne_iff_ne]
  constructor
  · intro hne
    rcases Nat.exists_testBit_of_ne_zero hne with ⟨j, hj⟩
    rcases (leads_reach p _ j hall).mp hj with ⟨i, hi, hij⟩
    exact ⟨i, j, hall i hi, hij⟩
  · intro h hzero
    rcases h with ⟨i, j, hi, hij⟩
    have hj := (leads_reach p _ j hall).mpr ⟨i, Haystack.testBit_all.mpr hi, hij⟩
    rw [hzero, Nat.zero_testBit] at hj
    cases hj

end Pattern
end LoopNest
