import LoopNest.NoticeFilter
import LoopNest.Proofs.Pattern.Meanings
import Mathlib.Data.List.Induction

/-!
# Filtered notices

Of the directives for one target the last one counts, and of the directives that fit a target
the one that names most of it decides.  A notice passes a filter if its level is within the
bound that this directive sets and the pattern occurs in its text.
-/

namespace LoopNest

/-!
## Directives
-/

namespace NoticeFilter

/-- The directives in words that make sense, in the order of the words. -/
def directivesOf (words : List String) : List Directive :=
  ((words.map trim).filter (· ≠ "")).filterMap fun word => (readDirective word).toOption

/-- The complaints about the other words. -/
def complaintsOf (words : List String) : List String :=
  ((words.map trim).filter (· ≠ "")).filterMap fun word =>
    match readDirective word with
    | .ok _ => none
    | .error text => some text

def putAll (ds : List Directive) (es : List Directive) : List Directive :=
  es.foldl (fun ds d => putDirective d ds) ds

theorem foldl_addWord (words : List String) (f : NoticeFilter) :
    words.foldl addWord f =
      ⟨putAll f.directives (directivesOf words), f.pattern,
        f.complaints ++ complaintsOf words⟩ := by
  induction words generalizing f with
  | nil => simp [directivesOf, complaintsOf, putAll]
  | cons word words ih =>
      rw [List.foldl_cons, ih, addWord]
      by_cases hblank : trim word = ""
      · simp [directivesOf, complaintsOf, hblank]
      · cases hword : readDirective (trim word) with
        | ok d => simp [directivesOf, complaintsOf, putAll, hblank, hword, Except.toOption]
        | error text =>
            simp [directivesOf, complaintsOf, putAll, hblank, hword, Except.toOption]

/-- Every word that is not blank gives a directive or a complaint. -/
theorem length_directivesOf (words : List String) :
    (directivesOf words).length + (complaintsOf words).length =
      ((words.map trim).filter (· ≠ "")).length := by
  rw [directivesOf, complaintsOf]
  induction (words.map trim).filter (· ≠ "") with
  | nil => rfl
  | cons word words ih =>
      simp only [Except.toOption] at ih ⊢
      cases hword : readDirective word with
      | ok d =>
          simp only [List.filterMap_cons, hword, List.length_cons]
          omega
      | error text =>
          simp only [List.filterMap_cons, hword, List.length_cons]
          omega

theorem mem_putDirective {d e : Directive} {ds : List Directive} (h : e ∈ putDirective d ds) :
    e = d ∨ e ∈ ds := by
  induction ds with
  | nil => exact Or.inl (List.mem_singleton.mp h)
  | cons f ds ih =>
      rw [putDirective] at h
      split at h
      · exact (List.mem_cons.mp h).imp_right (List.mem_cons_of_mem f)
      · rcases List.mem_cons.mp h with rfl | hrest
        · exact Or.inr List.mem_cons_self
        · exact (ih hrest).imp_right (List.mem_cons_of_mem f)

/-- No target has two directives. -/
def Distinct (ds : List Directive) : Prop :=
  ds.Pairwise fun d e => d.target ≠ e.target

theorem distinct_putDirective {d : Directive} {ds : List Directive} (h : Distinct ds) :
    Distinct (putDirective d ds) := by
  induction ds with
  | nil => exact List.pairwise_singleton _ _
  | cons e ds ih =>
      rcases List.pairwise_cons.mp h with ⟨he, hds⟩
      rw [putDirective]
      split
      · rename_i htarget
        exact List.pairwise_cons.mpr ⟨fun f hf => htarget ▸ he f hf, hds⟩
      · rename_i htarget
        refine List.pairwise_cons.mpr ⟨fun f hf => ?_, ih hds⟩
        rcases mem_putDirective hf with rfl | hds
        · exact htarget
        · exact he f hds

/-- A directive is in the place of what was there for its target. -/
theorem mem_putDirective_iff {d e : Directive} {ds : List Directive} (h : Distinct ds) :
    e ∈ putDirective d ds <-> e = d ∨ e ∈ ds ∧ e.target ≠ d.target := by
  induction ds with
  | nil => simp [putDirective]
  | cons f ds ih =>
      rcases List.pairwise_cons.mp h with ⟨hf, hds⟩
      rw [putDirective]
      split
      · rename_i htarget
        rw [List.mem_cons, List.mem_cons]
        constructor
        · intro h
          rcases h with rfl | he
          · exact Or.inl rfl
          · exact Or.inr ⟨Or.inr he, fun heq => hf e he (htarget.trans heq.symm)⟩
        · intro h
          rcases h with rfl | ⟨rfl | he, hne⟩
          · exact Or.inl rfl
          · exact absurd htarget hne
          · exact Or.inr he
      · rename_i htarget
        rw [List.mem_cons, List.mem_cons, ih hds]
        constructor
        · intro h
          rcases h with rfl | rfl | ⟨he, hne⟩
          · exact Or.inr ⟨Or.inl rfl, htarget⟩
          · exact Or.inl rfl
          · exact Or.inr ⟨Or.inr he, hne⟩
        · intro h
          rcases h with rfl | ⟨rfl | he, hne⟩
          · exact Or.inr (Or.inl rfl)
          · exact Or.inl rfl
          · exact Or.inr (Or.inr ⟨he, hne⟩)

theorem distinct_putAll {es : List Directive} : forall {ds : List Directive},
    Distinct ds -> Distinct (putAll ds es) := by
  induction es with
  | nil => exact fun h => h
  | cons e es ih => exact fun h => ih (distinct_putDirective h)

theorem putDirective_ne_nil (d : Directive) (ds : List Directive) : putDirective d ds ≠ [] := by
  cases ds with
  | nil => exact List.cons_ne_nil d []
  | cons e ds =>
      rw [putDirective]
      split <;> exact List.cons_ne_nil _ _

theorem putAll_eq_nil {ds es : List Directive} : putAll ds es = [] <-> ds = [] ∧ es = [] := by
  induction es generalizing ds with
  | nil => simp [putAll]
  | cons e es ih =>
      rw [putAll, List.foldl_cons, ← putAll, ih]
      simp [putDirective_ne_nil]

/-- Of the directives for one target the last one counts. -/
theorem mem_putAll_iff {e : Directive} {es ds : List Directive} (h : Distinct ds) :
    e ∈ putAll ds es <->
      (exists front back, es = front ++ e :: back ∧ forall d, d ∈ back -> d.target ≠ e.target) ∨
        e ∈ ds ∧ forall d, d ∈ es -> d.target ≠ e.target := by
  induction es generalizing ds with
  | nil => simp [putAll]
  | cons d es ih =>
      rw [putAll, List.foldl_cons, ← putAll, ih (distinct_putDirective h), mem_putDirective_iff h]
      constructor
      · intro h
        rcases h with ⟨front, back, rfl, hback⟩ | ⟨rfl | ⟨he, hne⟩, hes⟩
        · exact Or.inl ⟨d :: front, back, rfl, hback⟩
        · exact Or.inl ⟨[], es, rfl, hes⟩
        · refine Or.inr ⟨he, fun f hf => ?_⟩
          rcases List.mem_cons.mp hf with rfl | hf
          · exact Ne.symm hne
          · exact hes f hf
      · intro h
        rcases h with ⟨front, back, heq, hback⟩ | ⟨he, hes⟩
        · rcases List.cons_eq_append_iff.mp heq with ⟨rfl, hcons⟩ | ⟨front, rfl, rfl⟩
          · rcases List.cons.inj hcons with ⟨rfl, rfl⟩
            exact Or.inr ⟨Or.inl rfl, hback⟩
          · exact Or.inl ⟨front, back, rfl, hback⟩
        · exact Or.inr ⟨Or.inr ⟨he, Ne.symm (hes d List.mem_cons_self)⟩,
            fun f hf => hes f (List.mem_cons_of_mem d hf)⟩

/-!
## Bounds
-/

/-- Of the directives that fit a target, this one names most of it; of equals it is the last. -/
def Decides (d : Directive) (target : String) (ds : List Directive) : Prop :=
  exists front back, ds = front ++ d :: back ∧ d.fits target = true ∧
    (forall e, e ∈ front -> e.fits target = true -> e.weight ≤ d.weight) ∧
    forall e, e ∈ back -> e.fits target = true -> e.weight < d.weight

theorem Decides.eq {d e : Directive} {target : String} {ds : List Directive}
    (hd : Decides d target ds) (he : Decides e target ds) : d = e := by
  rcases hd with ⟨front, back, rfl, hfits, hfront, hback⟩
  rcases he with ⟨front', back', heq, hfits', hfront', hback'⟩
  rcases List.append_eq_append_iff.mp heq with ⟨middle, rfl, hcons⟩ | ⟨middle, rfl, hcons⟩
  · rcases List.cons_eq_append_iff.mp hcons with ⟨_, hsame⟩ | ⟨middle, rfl, rfl⟩
    · exact (List.cons.inj hsame).1.symm
    · have hlt := hback e (List.mem_append_right _ List.mem_cons_self) hfits'
      have hle := hfront' d (List.mem_append_right _ List.mem_cons_self) hfits
      omega
  · rcases List.cons_eq_append_iff.mp hcons with ⟨_, hsame⟩ | ⟨middle, rfl, rfl⟩
    · exact (List.cons.inj hsame).1
    · have hlt := hback' d (List.mem_append_right _ List.mem_cons_self) hfits
      have hle := hfront e (List.mem_append_right _ List.mem_cons_self) hfits'
      omega

/-- The directive that decides about a target, if one fits. -/
def best? (target : String) (ds : List Directive) : Option Directive :=
  (ds.filter fun d => d.fits target).foldl prefer none

theorem best?_append (target : String) (ds : List Directive) (e : Directive) :
    best? target (ds ++ [e]) =
      if e.fits target then prefer (best? target ds) e else best? target ds := by
  rw [best?, List.filter_append, List.foldl_append, ← best?, List.filter_singleton]
  cases e.fits target with
  | true => rfl
  | false => rfl

theorem not_fits_of_best? {target : String} {ds : List Directive} (h : best? target ds = none)
    {d : Directive} (hd : d ∈ ds) : d.fits target = false := by
  rw [← Bool.not_eq_true]
  intro hfits
  induction ds using List.reverseRecOn with
  | nil => cases hd
  | append_singleton ds e ih =>
      rw [best?_append] at h
      split at h
      · cases hbest : best? target ds with
        | none => rw [hbest] at h; cases h
        | some f =>
            rw [hbest, prefer] at h
            split at h <;> cases h
      · rename_i he
        rcases List.mem_append.mp hd with hd | hd
        · exact ih h hd
        · rw [List.mem_singleton.mp hd] at hfits
          exact he hfits

theorem Decides.weight_le {d e : Directive} {target : String} {ds : List Directive}
    (h : Decides d target ds) (he : e ∈ ds) (hfits : e.fits target = true) :
    e.weight ≤ d.weight := by
  rcases h with ⟨front, back, rfl, _, hfront, hback⟩
  rcases List.mem_append.mp he with he | he
  · exact hfront e he hfits
  · rcases List.mem_cons.mp he with rfl | he
    · exact Nat.le_refl _
    · exact Nat.le_of_lt (hback e he hfits)

theorem Decides.append {d : Directive} {target : String} {ds : List Directive}
    (h : Decides d target ds) {e : Directive} (he : e.fits target = true -> e.weight < d.weight) :
    Decides d target (ds ++ [e]) := by
  rcases h with ⟨front, back, rfl, hfits, hfront, hback⟩
  refine ⟨front, back ++ [e], by rw [List.append_assoc, List.cons_append], hfits, hfront, ?_⟩
  intro f hf
  rcases List.mem_append.mp hf with hf | hf
  · exact hback f hf
  · rw [List.mem_singleton.mp hf]
    exact he

theorem decides_of_best? {target : String} {ds : List Directive} {d : Directive}
    (h : best? target ds = some d) : Decides d target ds := by
  induction ds using List.reverseRecOn generalizing d with
  | nil => cases h
  | append_singleton ds e ih =>
      rw [best?_append] at h
      split at h
      · rename_i hfits
        cases hbest : best? target ds with
        | none =>
            rw [hbest] at h
            cases h
            refine ⟨ds, [], rfl, hfits, fun f hf hfit => ?_, by simp⟩
            rw [not_fits_of_best? hbest hf] at hfit
            cases hfit
        | some f =>
            have hf := ih hbest
            rw [hbest, prefer] at h
            split at h
            · rename_i hle
              cases h
              exact ⟨ds, [], rfl, hfits,
                fun g hg hfit => Nat.le_trans (hf.weight_le hg hfit) hle, by simp⟩
            · rename_i hlt
              cases h
              exact hf.append fun _ => Nat.lt_of_not_le hlt
      · rename_i hfits
        exact (ih h).append fun he => absurd he hfits

theorem best?_eq_some {target : String} {ds : List Directive} {d : Directive} :
    best? target ds = some d <-> Decides d target ds := by
  constructor
  · exact decides_of_best?
  · intro h
    cases hbest : best? target ds with
    | some e => rw [(decides_of_best? hbest).eq h]
    | none =>
        rcases h with ⟨front, back, rfl, hfits, _⟩
        have hmem : d ∈ front ++ d :: back := List.mem_append_right _ List.mem_cons_self
        rw [not_fits_of_best? hbest hmem] at hfits
        cases hfits

/-- A target has the bound that the deciding directive sets, and none without one. -/
theorem bound_eq_some {f : NoticeFilter} {target : String} {level : Level} :
    f.bound target = some level <->
      exists d, Decides d target f.directives ∧ d.bound = some level := by
  rw [bound, ← best?]
  constructor
  · intro h
    split at h
    · cases h
    · rename_i d hd
      exact ⟨d, best?_eq_some.mp hd, h⟩
  · intro h
    rcases h with ⟨d, hd, hlevel⟩
    rw [best?_eq_some.mpr hd]
    exact hlevel

/-!
## Wanted notices
-/

theorem wants_iff {f : NoticeFilter} {notice : Notice} :
    f.wants notice = true <->
      (exists d level, Decides d notice.target f.directives ∧ d.bound = some level ∧
        notice.level.rank ≤ level.rank) ∧
      forall p, f.pattern = some p -> p.occursIn notice.text = true := by
  rw [wants, Bool.and_eq_true]
  refine and_congr ?_ ?_
  · cases hbound : f.bound notice.target with
    | none =>
        simp only [Notice.isWithin, Bool.false_eq_true, false_iff]
        intro h
        rcases h with ⟨d, level, hd, hlevel, _⟩
        rw [bound_eq_some.mpr ⟨d, hd, hlevel⟩] at hbound
        cases hbound
    | some level =>
        rcases bound_eq_some.mp hbound with ⟨d, hd, hlevel⟩
        simp only [Notice.isWithin, decide_eq_true_iff]
        constructor
        · exact fun hrank => ⟨d, level, hd, hlevel, hrank⟩
        · intro h
          rcases h with ⟨e, other, he, hother, hrank⟩
          rw [hd.eq he, hother] at hlevel
          cases hlevel
          exact hrank
  · cases f.pattern with
    | none => simp
    | some p => simp

/-!
## The filter of a text
-/

theorem directives_ofWords (words : String) :
    (ofWords words).directives =
      if directivesOf (words.splitOn ",") = [] then standard.directives
      else putAll [] (directivesOf (words.splitOn ",")) := by
  rw [ofWords, foldl_addWord]
  by_cases h : directivesOf (words.splitOn ",") = []
  · simp [h, putAll]
  · have hput : putAll [] (directivesOf (words.splitOn ",")) ≠ [] := fun heq =>
      h (putAll_eq_nil.mp heq).2
    simp [h, hput]

theorem pattern_ofWords (words : String) : (ofWords words).pattern = none := by
  rw [ofWords, foldl_addWord]
  dsimp only
  split <;> rfl

theorem complaints_ofWords (words : String) :
    (ofWords words).complaints = complaintsOf (words.splitOn ",") := by
  rw [ofWords, foldl_addWord]
  dsimp only
  split <;> rfl

theorem directives_addPattern (f : NoticeFilter) (pattern : String) :
    (f.addPattern pattern).directives = f.directives := by
  rw [addPattern]
  split <;> rfl

theorem distinct_ofWords (words : String) : Distinct (ofWords words).directives := by
  rw [directives_ofWords]
  split
  · exact List.pairwise_singleton _ _
  · exact distinct_putAll List.Pairwise.nil

theorem distinct_ofText (text : String) : Distinct (ofText text).directives := by
  rw [ofText]
  split
  · exact distinct_ofWords _
  · rw [directives_addPattern]
    exact distinct_ofWords _
  · exact List.pairwise_singleton _ _

/-- The directives are the last ones that the words give for their targets. -/
theorem mem_directives_ofWords {words : String} {d : Directive} :
    d ∈ (ofWords words).directives <->
      (directivesOf (words.splitOn ",") = [] ∧ d ∈ standard.directives) ∨
        exists front back, directivesOf (words.splitOn ",") = front ++ d :: back ∧
          forall e, e ∈ back -> e.target ≠ d.target := by
  rw [directives_ofWords]
  split
  · rename_i h
    simp [h]
  · rename_i h
    rw [mem_putAll_iff List.Pairwise.nil]
    simp [h]

theorem wants_ofWords {words : String} {notice : Notice} :
    (ofWords words).wants notice = true <->
      exists d level, Decides d notice.target (ofWords words).directives ∧
        d.bound = some level ∧ notice.level.rank ≤ level.rank := by
  rw [wants_iff, pattern_ofWords]
  simp

/-- With a pattern a notice has to pass the words, and the tree of the written pattern has to
occur in its text. -/
theorem wants_ofText {text words written : String} (h : text.splitOn "/" = [words, written])
    {p : Pattern} (hp : Pattern.ofText written = .ok p) :
    exists tree, Pattern.Tree.read written = .ok tree ∧
      forall notice, (ofText text).wants notice = true <->
        (ofWords words).wants notice = true ∧ tree.Occurs notice.text := by
  rcases Pattern.occursIn_ofText hp with ⟨tree, htree, hoccurs⟩
  refine ⟨tree, htree, fun notice => ?_⟩
  have hfilter : ofText text = { ofWords words with pattern := some p } := by
    rw [ofText, h]
    dsimp only
    rw [addPattern, hp]
  rw [wants_iff, wants_ofWords, hfilter, ← hoccurs]
  simp

/-- Without a pattern that makes sense only the levels count. -/
theorem wants_ofText_error {text words written : String}
    (h : text.splitOn "/" = [words, written]) {refusal : Pattern.Refusal}
    (hp : Pattern.ofText written = .error refusal) (notice : Notice) :
    (ofText text).wants notice = (ofWords words).wants notice := by
  have hfilter : ofText text = { ofWords words with
      complaints := (ofWords words).complaints ++ [patternComplaint written refusal] } := by
    rw [ofText, h]
    dsimp only
    rw [addPattern, hp]
  rw [hfilter]
  rfl

end NoticeFilter
end LoopNest
