import LoopNest.Proofs.Json.Scalars

/-!
# Reading documents

A text has a value if and only if it is a document whose tree has this value.  The reader of a
depth reads exactly the trees of this depth, so both directions are inductions on the depth;
between two depths stand the lists and the objects, which are read item by item.
-/

namespace LoopNest
namespace JsonReader

open JsonTree

variable {cs rest front before text after : List Char} {c close : Char} {depth : Nat}
  {tree : JsonTree} {v : JsonValue}

/-!
## Blanks and words
-/

theorem skip_blanks (h : Blanks before) (cs : List Char) : skip (before ++ cs) = skip cs :=
  List.dropWhile_append_of_pos h

theorem skip_of_stops (h : Stops isBlank cs) : skip cs = cs := by
  cases cs with
  | nil => rfl
  | cons c cs => exact List.dropWhile_cons_of_neg (by simp [stops_cons.mp h])

theorem blanks_skip (cs : List Char) : exists before, Blanks before ∧ cs = before ++ skip cs :=
  ⟨cs.takeWhile isBlank, fun _ hc => List.mem_takeWhile_imp hc,
    (List.takeWhile_append_dropWhile (p := isBlank)).symm⟩

theorem skip_blanks_cons (h : Blanks before) (hc : isBlank c = false) (rest : List Char) :
    skip (before ++ c :: rest) = c :: rest := by
  rw [skip_blanks h, skip_of_stops (stops_cons.mpr hc)]

theorem readWord_eq_ok {letters : List Char} :
    readWord letters cs = .ok rest <-> cs = letters ++ rest := by
  induction letters generalizing cs with
  | nil => simp [readWord]
  | cons d letters ih =>
      cases cs with
      | nil => simp [readWord]
      | cons c cs =>
          rw [readWord, List.cons_append, List.cons.injEq, ← ih]
          split
          · rename_i hc
            simp [hc]
          · rename_i hc
            simp [hc]

/-- Can the character stand behind a value? -/
def closes (c : Char) : Bool :=
  isBlank c || c == ',' || c == ']' || c == '}'

theorem closes_iff :
    closes c = true <-> c ∈ [' ', '\n', '\t', '\r', ',', ']', '}'] := by
  simp [closes, isBlank, or_assoc]

/-- The text is empty or goes on with a character that can stand behind a value. -/
def Ends (cs : List Char) : Prop :=
  forall c, cs.head? = some c -> closes c = true

theorem ends_cons (hc : closes c = true) : Ends (c :: rest) := by
  intro d hd
  cases hd
  exact hc

theorem Ends.append (h : Blanks before) (hrest : Ends rest) : Ends (before ++ rest) := by
  cases before with
  | nil => exact hrest
  | cons c before =>
      have hc := h c List.mem_cons_self
      exact ends_cons (by simp [closes, hc])

theorem Ends.stops (h : Ends rest) : Stops Numeral.continues rest := by
  have hall :
      [' ', '\n', '\t', '\r', ',', ']', '}'].all (fun c => !Numeral.continues c) = true := by
    decide
  intro c hc
  have hnot := List.all_eq_true.mp hall c (closes_iff.mp (h c hc))
  rwa [Bool.not_eq_true'] at hnot

/-!
## Scalars
-/

theorem valueText_of_readNumber {negative : Bool} (h : readNumber negative cs = .ok (v, rest)) :
    exists text n, Numeral.UnsignedText text n ∧ n.negative = negative ∧ n.value? = some v ∧
      cs = text ++ rest := by
  simp only [readNumber, bind_eq_ok] at h
  rcases h with ⟨⟨n, afterNumeral⟩, hnumeral, h⟩
  rcases Numeral.unsignedText_of_read hnumeral with ⟨text, htext, hnegative, rfl⟩
  simp only at h
  split at h
  · rename_i hvalue
    cases h
    exact ⟨text, n, htext, hnegative, hvalue, rfl⟩
  · cases h

theorem readNumber_of_text {n : Numeral} (h : Numeral.UnsignedText cs n) (hv : n.value? = some v)
    (hrest : Ends rest) : readNumber n.negative (cs ++ rest) = .ok (v, rest) := by
  simp only [readNumber, h.read hrest.stops, bind, Except.bind, hv, pure, Except.pure]

theorem readWord_bind_eq_ok {letters : List Char} {value : JsonValue} :
    (readWord letters cs >>= fun more => pure (value, more)) = .ok (v, rest) <->
      v = value ∧ cs = letters ++ rest := by
  rw [bind_eq_ok]
  constructor
  · rintro ⟨more, hword, h⟩
    cases h
    exact ⟨rfl, readWord_eq_ok.mp hword⟩
  · rintro ⟨rfl, h⟩
    exact ⟨rest, readWord_eq_ok.mpr h, rfl⟩

theorem valueText_of_readScalar (h : readScalar cs = .ok (v, rest)) :
    exists text tree, ValueText text tree ∧ (forall depth, tree.value? depth = some v) ∧
      cs = text ++ rest := by
  unfold readScalar at h
  split at h
  · cases h
  rename_i c cs
  split at h
  · rename_i hc
    rcases readWord_bind_eq_ok.mp h with ⟨rfl, rfl⟩
    exact ⟨_, .null, ValueText.null, fun _ => by simp [value?], by rw [hc]; rfl⟩
  split at h
  · rename_i hc
    rcases readWord_bind_eq_ok.mp h with ⟨rfl, rfl⟩
    exact ⟨_, .bool true, ValueText.true, fun _ => by simp [value?], by rw [hc]; rfl⟩
  split at h
  · rename_i hc
    rcases readWord_bind_eq_ok.mp h with ⟨rfl, rfl⟩
    exact ⟨_, .bool false, ValueText.false, fun _ => by simp [value?], by rw [hc]; rfl⟩
  split at h
  · rename_i hc
    rcases valueText_of_readNumber h with ⟨text, n, htext, hnegative, hvalue, rfl⟩
    exact ⟨'-' :: text, .number n, ValueText.number (Numeral.NumeralText.negative hnegative htext),
      fun _ => by simp [value?, hvalue], by rw [hc]; rfl⟩
  split at h
  · rcases valueText_of_readNumber h with ⟨text, n, htext, hnegative, hvalue, heq⟩
    exact ⟨text, .number n, ValueText.number (Numeral.NumeralText.unsigned hnegative htext),
      fun _ => by simp [value?, hvalue], heq⟩
  split at h
  · rename_i hc
    rcases bind_eq_ok.mp h with ⟨⟨value, more⟩, hread, hvalue⟩
    rcases JsonText.read_eq_ok.mp hread with ⟨text, htext, rfl⟩
    cases hvalue
    exact ⟨_, .text value, ValueText.text htext, fun _ => by simp [value?], by rw [hc]; rfl⟩
  · cases h

/-- Can the character stand at the front of a value? -/
def opens (c : Char) : Bool :=
  c.isDigit || ['n', 't', 'f', '-', '"', '[', '{'].contains c

theorem not_blank_of_opens (h : opens c = true) : isBlank c = false := by
  rw [← Bool.not_eq_true]
  intro hblank
  simp only [isBlank, Bool.or_eq_true, beq_iff_eq] at hblank
  rcases hblank with ((rfl | rfl) | rfl) | rfl
  all_goals exact absurd h (by decide)

theorem unsignedText_head {n : Numeral} (h : Numeral.UnsignedText cs n) :
    exists c more, cs = c :: more ∧ c.isDigit = true := by
  cases h with
  | mk hwhole =>
      rename_i whole _ _ _ _ _ _
      rcases hwhole.1 with ⟨hne, hdigits⟩
      cases whole with
      | nil => exact absurd rfl hne
      | cons c whole => exact ⟨c, _, rfl, hdigits c List.mem_cons_self⟩

/-- A value opens with a character of its own, and a scalar with no bracket. -/
theorem valueText_head (h : ValueText text tree) :
    exists c more, text = c :: more ∧ opens c = true ∧
      ((tree.value? 0).isSome -> c ≠ '[' ∧ c ≠ '{') := by
  cases h with
  | null => exact ⟨_, _, rfl, by decide, fun _ => by decide⟩
  | true => exact ⟨_, _, rfl, by decide, fun _ => by decide⟩
  | false => exact ⟨_, _, rfl, by decide, fun _ => by decide⟩
  | number hnumeral =>
      cases hnumeral with
      | unsigned _ htext =>
          rcases unsignedText_head htext with ⟨c, more, rfl, hc⟩
          refine ⟨c, more, rfl, by simp [opens, hc], fun _ => ⟨?_, ?_⟩⟩
          · rintro rfl
            exact absurd hc (by decide)
          · rintro rfl
            exact absurd hc (by decide)
      | negative _ _ => exact ⟨_, _, rfl, by decide, fun _ => by decide⟩
  | text hstring =>
      cases hstring
      exact ⟨_, _, rfl, by decide, fun _ => by decide⟩
  | emptyList _ => exact ⟨_, _, rfl, by decide, fun hsome => by simp [value?] at hsome⟩
  | list _ => exact ⟨_, _, rfl, by decide, fun hsome => by simp [value?] at hsome⟩
  | emptyObject _ => exact ⟨_, _, rfl, by decide, fun hsome => by simp [value?] at hsome⟩
  | object _ => exact ⟨_, _, rfl, by decide, fun hsome => by simp [value?] at hsome⟩

theorem readScalar_of_text (h : ValueText text tree) (hv : tree.value? 0 = some v)
    (hrest : Ends rest) : readScalar (text ++ rest) = .ok (v, rest) := by
  cases h with
  | null =>
      simp only [value?, Option.some.injEq] at hv
      exact readWord_bind_eq_ok.mpr ⟨hv.symm, rfl⟩
  | true =>
      simp only [value?, Option.some.injEq] at hv
      exact readWord_bind_eq_ok.mpr ⟨hv.symm, rfl⟩
  | false =>
      simp only [value?, Option.some.injEq] at hv
      exact readWord_bind_eq_ok.mpr ⟨hv.symm, rfl⟩
  | number hnumeral =>
      rw [value?] at hv
      cases hnumeral with
      | unsigned hnegative htext =>
          have hread := readNumber_of_text htext hv hrest
          rcases unsignedText_head htext with ⟨c, more, rfl, hc⟩
          have hne {d : Char} (hd : d.isDigit = false) : c ≠ d := by
            rintro rfl
            rw [hc] at hd
            cases hd
          rw [hnegative] at hread
          rw [List.cons_append, readScalar, if_neg (hne (by decide)), if_neg (hne (by decide)),
            if_neg (hne (by decide)), if_neg (hne (by decide)), if_pos hc]
          exact hread
      | negative hnegative htext =>
          have hread := readNumber_of_text htext hv hrest
          rw [hnegative] at hread
          exact hread
  | text hstring =>
      simp only [value?, Option.some.injEq] at hv
      cases hv
      cases hstring with
      | mk hchars =>
          rename_i text cs
          have hread : JsonText.read ((text ++ ['"']) ++ rest) = .ok (String.ofList cs, rest) :=
            JsonText.read_eq_ok.mpr ⟨text ++ ['"'], JsonText.StringText.mk hchars, rfl⟩
          rw [List.cons_append, readScalar, if_neg (by decide), if_neg (by decide),
            if_neg (by decide), if_neg (by decide), if_neg (by decide), if_pos rfl, hread]
          rfl
  | emptyList _ => simp [value?] at hv
  | list _ => simp [value?] at hv
  | emptyObject _ => simp [value?] at hv
  | object _ => simp [value?] at hv

/-!
## Lists
-/

/-- What stands behind the first item: blanks, or more items behind a comma. -/
inductive Tail {alpha : Type} (Item : List Char -> alpha -> Prop) :
    List Char -> List alpha -> Prop where
  | close {after : List Char} : Blanks after -> Tail Item after []
  | comma {after text : List Char} {xs : List alpha} :
      Blanks after -> Separated Item text xs -> Tail Item (after ++ ',' :: text) xs

/-- Blanks behind the last part of an item belong to it. -/
theorem Tail.separated {alpha : Type} {Item : List Char -> alpha -> Prop} {x : alpha}
    {xs : List alpha} (h : Tail Item text xs)
    (hitem : forall after, Blanks after -> Item (front ++ after) x) :
    Separated Item (front ++ text) (x :: xs) := by
  cases h with
  | close hafter => exact Separated.one (hitem _ hafter)
  | comma hafter hmore =>
      rw [← List.append_assoc]
      exact Separated.more (hitem _ hafter) hmore

theorem elementText_front (hbefore : Blanks before) (htext : ValueText text tree)
    (hafter : Blanks after) : ElementText ValueText (before ++ text ++ after) tree := by
  rw [List.append_assoc]
  exact ElementText.mk hbefore htext hafter

/-- The reader takes what the trees of a depth are written as, with blanks in front of it. -/
structure Agrees (r : JsonReader) (depth : Nat) : Prop where
  sound {cs rest : List Char} {v : JsonValue} : r.read cs = .ok (v, rest) ->
    exists before text tree, Blanks before ∧ ValueText text tree ∧ tree.value? depth = some v ∧
      cs = before ++ (text ++ rest)
  complete {before text rest : List Char} {tree : JsonTree} {v : JsonValue} :
    Blanks before -> ValueText text tree -> tree.value? depth = some v -> Ends rest ->
    r.read (before ++ (text ++ rest)) = .ok (v, rest)

/-- An item and what follows it, up to the closing bracket. -/
def someItems (r : JsonReader) (cs : List Char) :
    Except JsonStop (List JsonValue × List Char) := do
  let (v, rest) <- r.read cs
  consItem v (items r rest)

theorem someItems_of_read {r : JsonReader} (h : r.read cs = .ok (v, rest)) :
    someItems r cs = consItem v (items r rest) := by
  rw [someItems, h]
  rfl

theorem items_close {r : JsonReader} (h : Blanks after) (rest : List Char) :
    items r (after ++ ']' :: rest) = .ok ([], rest) := by
  rw [items]
  split
  · rename_i hskip
    rw [skip_blanks_cons h (by decide)] at hskip
    cases hskip
  · rename_i hskip
    rw [skip_blanks_cons h (by decide)] at hskip
    cases hskip
    rfl

theorem items_comma {r : JsonReader} (h : Blanks after) (hskip : skip cs = c :: rest)
    (hc : c ≠ ']') : items r (after ++ ',' :: cs) = someItems r cs := by
  rw [items]
  split
  · rename_i hcomma
    rw [skip_blanks_cons h (by decide)] at hcomma
    cases hcomma
  · rename_i hcomma
    rw [skip_blanks_cons h (by decide)] at hcomma
    cases hcomma
    rw [if_neg (by decide), if_pos rfl, hskip]
    split
    · rename_i heq
      cases heq
    · rename_i heq
      cases heq
      exact absurd rfl hc
    · rw [someItems]
      split
      · rename_i hread
        rw [hread]
        rfl
      · rename_i hread
        rw [hread]
        rfl

theorem list_close {r : JsonReader} (h : Blanks after) (rest : List Char) :
    list r (after ++ ']' :: rest) = .ok ([], rest) := by
  rw [list, skip_blanks_cons h (by decide)]
  rfl

theorem list_of_opens {r : JsonReader} (hskip : skip cs = c :: rest) (hc : c ≠ ']') :
    list r cs = someItems r cs := by
  rw [list, hskip]
  split
  · rename_i heq
    cases heq
  · rename_i heq
    cases heq
    exact absurd rfl hc
  · rw [someItems]
    cases r.read cs with
    | error e => rfl
    | ok p => rfl

theorem tail_of_items {r : JsonReader} {vs : List JsonValue} (hr : Agrees r depth)
    (h : items r cs = .ok (vs, rest)) :
    exists tail trees, Tail (ElementText ValueText) tail trees ∧
      trees.mapM (value? depth) = some vs ∧ cs = tail ++ ']' :: rest := by
  fun_induction items r cs generalizing vs rest with
  | case1 => cases h
  | case2 cs front hskip =>
      cases h
      rcases blanks_skip cs with ⟨after, hafter, heq⟩
      exact ⟨after, [], Tail.close hafter, rfl, by rw [heq, hskip]⟩
  | case3 => cases h
  | case4 => cases h
  | case5 => cases h
  | case6 cs front v more hread _ _ hskip _ ih =>
      rcases consItem_eq_ok.mp h with ⟨ws, hws, rfl⟩
      rcases ih hws with ⟨tail, trees, htail, hvalues, rfl⟩
      rcases hr.sound hread with ⟨before, text, tree, hbefore, htext, hvalue, rfl⟩
      rcases blanks_skip cs with ⟨after, hafter, heq⟩
      have hmore := htail.separated fun _ => elementText_front hbefore htext
      refine ⟨_, _, Tail.comma hafter hmore, ?_, ?_⟩
      · simp [hvalue, hvalues]
      · rw [heq, hskip]
        simp only [List.append_assoc, List.cons_append]
  | case7 => cases h

theorem valueText_of_list {r : JsonReader} {vs : List JsonValue} (hr : Agrees r depth)
    (h : list r cs = .ok (vs, rest)) :
    exists text trees, ValueText ('[' :: (text ++ [']'])) (.list trees) ∧
      trees.mapM (value? depth) = some vs ∧ cs = text ++ ']' :: rest := by
  rcases blanks_skip cs with ⟨after, hafter, heq⟩
  unfold list at h
  split at h
  · cases h
  · rename_i hskip
    cases h
    exact ⟨after, [], ValueText.emptyList hafter, rfl, by rw [heq, hskip]⟩
  · split at h
    · cases h
    · rename_i v more hread
      rcases consItem_eq_ok.mp h with ⟨ws, hws, rfl⟩
      rcases tail_of_items hr hws with ⟨tail, trees, htail, hvalues, rfl⟩
      rcases hr.sound hread with ⟨before, text, tree, hbefore, htext, hvalue, rfl⟩
      have hmore := htail.separated fun _ => elementText_front hbefore htext
      refine ⟨_, _, ValueText.list hmore, ?_, ?_⟩
      · simp [hvalue, hvalues]
      · simp only [List.append_assoc]

theorem elementText_skip (h : ElementText ValueText text tree) (rest : List Char) :
    exists c more, skip (text ++ rest) = c :: more ∧ opens c = true := by
  cases h with
  | mk hbefore hvalue _ =>
      rcases valueText_head hvalue with ⟨c, more, rfl, hc, _⟩
      rw [List.append_assoc, List.cons_append, List.cons_append,
        skip_blanks_cons hbefore (not_blank_of_opens hc)]
      exact ⟨c, _, rfl, hc⟩

theorem separated_skip {trees : List JsonTree} (h : Separated (ElementText ValueText) text trees)
    (rest : List Char) : exists c more, skip (text ++ rest) = c :: more ∧ opens c = true := by
  cases h with
  | one hitem => exact elementText_skip hitem rest
  | more hitem _ =>
      rw [List.append_assoc]
      exact elementText_skip hitem _

theorem ne_of_opens {d : Char} (h : opens c = true) (hd : opens d = false) : c ≠ d := by
  rintro rfl
  rw [h] at hd
  cases hd

theorem someItems_of_separated {r : JsonReader} {trees : List JsonTree} {vs : List JsonValue}
    (hr : Agrees r depth) (h : Separated (ElementText ValueText) text trees)
    (hvs : trees.mapM (value? depth) = some vs) (rest : List Char) :
    someItems r (text ++ ']' :: rest) = .ok (vs, rest) := by
  induction h generalizing vs with
  | one hitem =>
      simp only [List.mapM_cons, List.mapM_nil, Option.pure_def, Option.bind_eq_bind,
        Option.bind_some, Option.bind_eq_some_iff, Option.some.injEq] at hvs
      rcases hvs with ⟨v, hv, rfl⟩
      cases hitem with
      | mk hbefore hvalue hafter =>
          have hends : Ends (']' :: rest) := ends_cons (by decide)
          have hread := hr.complete hbefore hvalue hv (Ends.append hafter hends)
          rw [List.append_assoc, List.append_assoc, someItems_of_read hread, items_close hafter]
          rfl
  | more hitem hmore ih =>
      simp only [List.mapM_cons, Option.pure_def, Option.bind_eq_bind, Option.bind_eq_some_iff,
        Option.some.injEq] at hvs
      rcases hvs with ⟨v, hv, ws, hws, rfl⟩
      cases hitem with
      | mk hbefore hvalue hafter =>
          rename_i text _ _ before item after
          rcases separated_skip hmore (']' :: rest) with ⟨c, more, hskip, hc⟩
          have hends : Ends (',' :: (text ++ ']' :: rest)) := ends_cons (by decide)
          have hread := hr.complete hbefore hvalue hv (Ends.append hafter hends)
          simp only [List.append_assoc, List.cons_append]
          rw [someItems_of_read hread, items_comma hafter hskip (ne_of_opens hc (by decide)),
            ih hws]
          rfl

theorem list_of_text {r : JsonReader} {trees : List JsonTree} {vs : List JsonValue}
    (hr : Agrees r depth) (h : ValueText text (.list trees))
    (hvs : trees.mapM (value? depth) = some vs) (rest : List Char) :
    exists inner, text ++ rest = '[' :: inner ∧ list r inner = .ok (vs, rest) := by
  cases h with
  | emptyList hblanks =>
      cases hvs
      exact ⟨_, by simp, list_close hblanks rest⟩
  | list hitems =>
      rename_i text
      rcases separated_skip hitems (']' :: rest) with ⟨c, more, hskip, hc⟩
      refine ⟨text ++ ']' :: rest, by simp, ?_⟩
      rw [list_of_opens hskip (ne_of_opens hc (by decide)), someItems_of_separated hr hitems hvs]

/-!
## Objects
-/

/-- A member and what follows it, up to the closing brace.  The text starts behind the opening
quote of the name. -/
def someMembers (r : JsonReader) (cs : List Char) :
    Except JsonStop (List (String × JsonValue) × List Char) := do
  let (m, rest) <- member r cs
  consItem m (members r rest)

theorem someMembers_of_member {r : JsonReader} {m : String × JsonValue}
    (h : member r cs = .ok (m, rest)) : someMembers r cs = consItem m (members r rest) := by
  rw [someMembers, h]
  rfl

theorem members_close {r : JsonReader} (h : Blanks after) (rest : List Char) :
    members r (after ++ '}' :: rest) = .ok ([], rest) := by
  rw [members]
  split
  · rename_i hskip
    rw [skip_blanks_cons h (by decide)] at hskip
    cases hskip
  · rename_i hskip
    rw [skip_blanks_cons h (by decide)] at hskip
    cases hskip
    rfl

theorem members_comma {r : JsonReader} (h : Blanks after) (hskip : skip cs = '"' :: rest) :
    members r (after ++ ',' :: cs) = someMembers r rest := by
  rw [members]
  split
  · rename_i hcomma
    rw [skip_blanks_cons h (by decide)] at hcomma
    cases hcomma
  · rename_i hcomma
    rw [skip_blanks_cons h (by decide)] at hcomma
    cases hcomma
    rw [if_neg (by decide), if_pos rfl]
    split
    · rename_i heq
      rw [hskip] at heq
      cases heq
    · rename_i heq
      rw [hskip] at heq
      cases heq
    · rename_i heq
      rw [hskip] at heq
      cases heq
      rw [someMembers]
      split
      · rename_i hread
        rw [hread]
        rfl
      · rename_i hread
        rw [hread]
        rfl
    · rename_i hquote
      exact absurd hskip (hquote rest)

theorem object_close {r : JsonReader} (h : Blanks after) (rest : List Char) :
    object r (after ++ '}' :: rest) = .ok ([], rest) := by
  rw [object, skip_blanks_cons h (by decide)]
  rfl

theorem object_of_quote {r : JsonReader} (hskip : skip cs = '"' :: rest) :
    object r cs = someMembers r rest := by
  rw [object, hskip, someMembers]
  cases hread : member r rest with
  | error e =>
      simp only [hread]
      rfl
  | ok p =>
      simp only [hread]
      rfl

theorem memberText_of_member {r : JsonReader} {m : String × JsonValue} (hr : Agrees r depth)
    (h : member r cs = .ok (m, rest)) :
    exists front tree, cs = front ++ rest ∧ memberValue? depth (m.1, tree) = some m ∧
      forall {before after : List Char}, Blanks before -> Blanks after ->
        MemberText ValueText (before ++ ('"' :: front) ++ after) (m.1, tree) := by
  simp only [member, bind_eq_ok] at h
  rcases h with ⟨⟨name, afterName⟩, hname, h⟩
  rcases JsonText.read_eq_ok.mp hname with ⟨front, hstring, rfl⟩
  rcases blanks_skip afterName with ⟨blanks, hblanks, heq⟩
  simp only at h
  split at h
  · cases h
  · rename_i more hskip
    rcases bind_eq_ok.mp h with ⟨⟨value, afterValue⟩, hvalue, h⟩
    cases h
    rcases hr.sound hvalue with ⟨before, text, tree, hbefore, htext, hv, rfl⟩
    refine ⟨front ++ (blanks ++ ':' :: (before ++ text)), tree, ?_,
      by simp [memberValue?, hv], ?_⟩
    · rw [heq, hskip]
      simp only [List.append_assoc, List.cons_append]
    · intro before' after hbefore' hafter
      have hmember := MemberText.mk hbefore' hstring hblanks
        (ElementText.mk hbefore htext hafter)
      simpa only [List.append_assoc, List.cons_append] using hmember
  · cases h

theorem tail_of_members {r : JsonReader} {ms : List (String × JsonValue)} (hr : Agrees r depth)
    (h : members r cs = .ok (ms, rest)) :
    exists tail trees, Tail (MemberText ValueText) tail trees ∧
      trees.mapM (memberValue? depth) = some ms ∧ cs = tail ++ '}' :: rest := by
  fun_induction members r cs generalizing ms rest with
  | case1 => cases h
  | case2 cs front hskip =>
      cases h
      rcases blanks_skip cs with ⟨after, hafter, heq⟩
      exact ⟨after, [], Tail.close hafter, rfl, by rw [heq, hskip]⟩
  | case3 => cases h
  | case4 => cases h
  | case5 => cases h
  | case6 cs front name hname m more hread hskip _ ih =>
      rcases consItem_eq_ok.mp h with ⟨ws, hws, rfl⟩
      rcases ih hws with ⟨tail, trees, htail, hvalues, rfl⟩
      rcases memberText_of_member hr hread with ⟨text, tree, rfl, hvalue, hmember⟩
      rcases blanks_skip cs with ⟨after, hafter, heq⟩
      rcases blanks_skip front with ⟨before, hbefore, heq'⟩
      refine ⟨_, _, Tail.comma hafter (htail.separated fun _ => hmember hbefore), ?_, ?_⟩
      · simp [hvalue, hvalues]
      · rw [heq, hskip, heq', hname]
        simp only [List.append_assoc, List.cons_append]
  | case7 => cases h
  | case8 => cases h

theorem valueText_of_object {r : JsonReader} {ms : List (String × JsonValue)}
    (hr : Agrees r depth) (h : object r cs = .ok (ms, rest)) :
    exists text trees, ValueText ('{' :: (text ++ ['}'])) (.object trees) ∧
      trees.mapM (memberValue? depth) = some ms ∧ cs = text ++ '}' :: rest := by
  rcases blanks_skip cs with ⟨before, hbefore, heq⟩
  unfold object at h
  split at h
  · cases h
  · rename_i hskip
    cases h
    exact ⟨before, [], ValueText.emptyObject hbefore, rfl, by rw [heq, hskip]⟩
  · rename_i name hskip
    split at h
    · cases h
    · rename_i m more hread
      rcases consItem_eq_ok.mp h with ⟨ws, hws, rfl⟩
      rcases tail_of_members hr hws with ⟨tail, trees, htail, hvalues, rfl⟩
      rcases memberText_of_member hr hread with ⟨text, tree, rfl, hvalue, hmember⟩
      refine ⟨_, _, ValueText.object (htail.separated fun _ => hmember hbefore), ?_, ?_⟩
      · simp [hvalue, hvalues]
      · rw [heq, hskip]
        simp only [List.append_assoc, List.cons_append]
  · cases h

/-- Behind the blanks in front of a member stands the opening quote of its name, and from there
the member is read. -/
theorem member_of_text {r : JsonReader} {m : String × JsonTree} {w : String × JsonValue}
    (hr : Agrees r depth) (h : MemberText ValueText text m) (hw : memberValue? depth m = some w)
    (hc : closes c = true) (rest : List Char) :
    exists name after, skip (text ++ c :: rest) = '"' :: name ∧ Blanks after ∧
      member r name = .ok (w, after ++ c :: rest) := by
  cases h with
  | mk hbefore hstring hblanks helement =>
      cases helement with
      | mk hbefore' hvalue hafter =>
          rename_i before string blanks name tree before' value after
          rcases Option.map_eq_some_iff.mp hw with ⟨v, hv, rfl⟩
          cases hstring with
          | mk hchars =>
              rename_i characters cs
              have hends : Ends (c :: rest) := ends_cons hc
              have hread := hr.complete hbefore' hvalue hv (Ends.append hafter hends)
              have hname (behind : List Char) :
                  JsonText.read (characters ++ '"' :: behind) = .ok (String.ofList cs, behind) :=
                JsonText.read_eq_ok.mpr
                  ⟨characters ++ ['"'], JsonText.StringText.mk hchars, by simp⟩
              refine ⟨characters ++ '"' :: (blanks ++ ':' :: (before' ++ (value ++
                (after ++ c :: rest)))), after, ?_, hafter, ?_⟩
              · simp only [List.append_assoc, List.cons_append, List.nil_append]
                exact skip_blanks_cons hbefore (by decide) _
              · have hcolon (behind : List Char) : skip (blanks ++ ':' :: behind) = ':' :: behind :=
                  skip_blanks_cons hblanks (by decide) behind
                rw [member, hname]
                simp only [bind, Except.bind, hcolon, hread]
                rfl

theorem someMembers_of_separated {r : JsonReader} {trees : List (String × JsonTree)}
    {ms : List (String × JsonValue)} (hr : Agrees r depth)
    (h : Separated (MemberText ValueText) text trees)
    (hms : trees.mapM (memberValue? depth) = some ms) (rest : List Char) :
    exists name, skip (text ++ '}' :: rest) = '"' :: name ∧
      someMembers r name = .ok (ms, rest) := by
  induction h generalizing ms with
  | one hitem =>
      simp only [List.mapM_cons, List.mapM_nil, Option.pure_def, Option.bind_eq_bind,
        Option.bind_some, Option.bind_eq_some_iff, Option.some.injEq] at hms
      rcases hms with ⟨m, hm, rfl⟩
      rcases member_of_text hr hitem hm (c := '}') (by decide) rest with
        ⟨name, after, hskip, hafter, hread⟩
      refine ⟨name, hskip, ?_⟩
      rw [someMembers_of_member hread, members_close hafter]
      rfl
  | more hitem hmore ih =>
      simp only [List.mapM_cons, Option.pure_def, Option.bind_eq_bind, Option.bind_eq_some_iff,
        Option.some.injEq] at hms
      rcases hms with ⟨m, hm, ws, hws, rfl⟩
      rename_i text _ _
      rcases member_of_text hr hitem hm (c := ',') (by decide) (text ++ '}' :: rest) with
        ⟨name, after, hskip, hafter, hread⟩
      rcases ih hws with ⟨next, hnext, hrest⟩
      refine ⟨name, ?_, ?_⟩
      · rw [List.append_assoc, List.cons_append, hskip]
      · rw [someMembers_of_member hread, members_comma hafter hnext, hrest]
        rfl

theorem object_of_text {r : JsonReader} {trees : List (String × JsonTree)}
    {ms : List (String × JsonValue)} (hr : Agrees r depth) (h : ValueText text (.object trees))
    (hms : trees.mapM (memberValue? depth) = some ms) (rest : List Char) :
    exists inner, text ++ rest = '{' :: inner ∧ object r inner = .ok (ms, rest) := by
  cases h with
  | emptyObject hblanks =>
      cases hms
      exact ⟨_, by simp, object_close hblanks rest⟩
  | object hmembers =>
      rename_i text
      rcases someMembers_of_separated hr hmembers hms rest with ⟨name, hskip, hread⟩
      refine ⟨text ++ '}' :: rest, by simp, ?_⟩
      rw [object_of_quote hskip, hread]

/-!
## Nesting
-/

theorem agrees_flat : Agrees (nested 0) 0 where
  sound := by
    intro cs rest v h
    rcases blanks_skip cs with ⟨before, hbefore, heq⟩
    change readFlat cs = .ok (v, rest) at h
    unfold readFlat at h
    split at h
    · cases h
    · cases h
    · rcases valueText_of_readScalar h with ⟨text, tree, htext, hvalue, hskip⟩
      exact ⟨before, text, tree, hbefore, htext, hvalue 0, by rw [heq, hskip]⟩
  complete := by
    intro before text rest tree v hbefore htext hvalue hrest
    rcases valueText_head htext with ⟨c, more, rfl, hc, hflat⟩
    rcases hflat (by rw [hvalue]; rfl) with ⟨hlist, hobject⟩
    show readFlat _ = _
    rw [readFlat, List.cons_append, skip_blanks_cons hbefore (not_blank_of_opens hc)]
    split
    · rename_i heq
      cases heq
      exact absurd rfl hlist
    · rename_i heq
      cases heq
      exact absurd rfl hobject
    · exact readScalar_of_text htext hvalue hrest

theorem agrees_succ (ih : Agrees (nested depth) depth) :
    Agrees (nested (depth + 1)) (depth + 1) where
  sound := by
    intro cs rest v h
    rcases blanks_skip cs with ⟨before, hbefore, heq⟩
    change readWith (nested depth) cs = .ok (v, rest) at h
    unfold readWith at h
    split at h
    · rename_i more hskip
      rcases bind_eq_ok.mp h with ⟨⟨vs, afterList⟩, hlist, h⟩
      cases h
      rcases valueText_of_list ih hlist with ⟨text, trees, htext, hvalues, rfl⟩
      refine ⟨before, _, _, hbefore, htext, by rw [value?, hvalues]; rfl, ?_⟩
      rw [heq, hskip]
      simp only [List.cons_append, List.append_assoc, List.nil_append]
    · rename_i more hskip
      rcases bind_eq_ok.mp h with ⟨⟨ms, afterObject⟩, hobject, h⟩
      cases h
      rcases valueText_of_object ih hobject with ⟨text, trees, htext, hvalues, rfl⟩
      refine ⟨before, _, _, hbefore, htext, ?_, ?_⟩
      · show (trees.mapM (memberValue? depth)).map _ = _
        rw [hvalues]
        rfl
      · rw [heq, hskip]
        simp only [List.cons_append, List.append_assoc, List.nil_append]
    · rcases valueText_of_readScalar h with ⟨text, tree, htext, hvalue, hskip⟩
      exact ⟨before, text, tree, hbefore, htext, hvalue _, by rw [heq, hskip]⟩
  complete := by
    intro before text rest tree v hbefore htext hvalue hrest
    have hscalar (hflat : tree.value? 0 = some v) :
        (nested (depth + 1)).read (before ++ (text ++ rest)) = .ok (v, rest) := by
      rcases valueText_head htext with ⟨c, more, rfl, hc, hbracket⟩
      rcases hbracket (by rw [hflat]; rfl) with ⟨hlist, hobject⟩
      show readWith _ _ = _
      rw [readWith, List.cons_append, skip_blanks_cons hbefore (not_blank_of_opens hc)]
      split
      · rename_i heq
        cases heq
        exact absurd rfl hlist
      · rename_i heq
        cases heq
        exact absurd rfl hobject
      · exact readScalar_of_text htext hflat hrest
    cases tree with
    | null => exact hscalar (by simpa only [value?] using hvalue)
    | bool value => exact hscalar (by simpa only [value?] using hvalue)
    | number numeral => exact hscalar (by simpa only [value?] using hvalue)
    | text value => exact hscalar (by simpa only [value?] using hvalue)
    | list trees =>
        rw [value?] at hvalue
        rcases Option.map_eq_some_iff.mp hvalue with ⟨vs, hvs, rfl⟩
        rcases list_of_text ih htext hvs rest with ⟨inner, heq, hread⟩
        show readWith _ _ = _
        rw [heq, readWith, skip_blanks_cons hbefore (by decide)]
        simp only [hread, bind, Except.bind, pure, Except.pure]
    | object trees =>
        rw [value?] at hvalue
        rcases Option.map_eq_some_iff.mp hvalue with ⟨ms, hms, rfl⟩
        rcases object_of_text ih htext hms rest with ⟨inner, heq, hread⟩
        show readWith _ _ = _
        rw [heq, readWith, skip_blanks_cons hbefore (by decide)]
        simp only [hread, bind, Except.bind, pure, Except.pure]

theorem agrees_nested : forall depth, Agrees (nested depth) depth
  | 0 => agrees_flat
  | depth + 1 => agrees_succ (agrees_nested depth)

/-!
## Documents
-/

theorem readAll_eq_ok :
    readAll cs = .ok v <->
      exists tree, DocumentText cs tree ∧ tree.value? greatestDepth = some v := by
  rw [readAll, bind_eq_ok]
  constructor
  · rintro ⟨⟨value, rest⟩, hread, h⟩
    simp only at h
    split at h
    · rename_i hskip
      cases h
      rcases (agrees_nested greatestDepth).sound hread with
        ⟨before, text, tree, hbefore, htext, hvalue, rfl⟩
      rcases blanks_skip rest with ⟨after, hafter, heq⟩
      rw [hskip, List.append_nil] at heq
      exact ⟨tree, ElementText.mk hbefore htext (heq ▸ hafter), hvalue⟩
    · cases h
  · rintro ⟨tree, hdocument, hvalue⟩
    cases hdocument with
    | mk hbefore htext hafter =>
        rename_i before text after
        have hnil : Ends [] := by
          intro c hc
          cases hc
        have hends := Ends.append hafter hnil
        rw [List.append_nil] at hends
        have hread := (agrees_nested greatestDepth).complete hbefore htext hvalue hends
        have hskip := skip_blanks hafter []
        rw [List.append_nil] at hskip
        refine ⟨(v, after), hread, ?_⟩
        simp only [hskip]
        rfl

end JsonReader

/-- A text has a value if and only if it is a document whose tree has this value. -/
theorem JsonValue.read_eq_ok {text : String} {v : JsonValue} :
    JsonValue.read text = .ok v <->
      exists tree, JsonTree.DocumentText text.toList tree ∧
        tree.value? JsonReader.greatestDepth = some v := by
  rw [← JsonReader.readAll_eq_ok, JsonValue.read]
  cases JsonReader.readAll text.toList with
  | error stop => simp [Except.mapError]
  | ok value => simp [Except.mapError]

end LoopNest
