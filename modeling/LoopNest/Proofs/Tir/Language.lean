import LoopNest.Proofs.Tir.ReadFunctions
import LoopNest.Proofs.Tir.Sizes
import LoopNest.Proofs.Tir.WellFormed
import LoopNest.Tir.Reader
import Mathlib.Data.List.Flatten

/-!
# The language of modules

Names are unique where they are looked up, and the reader accepts the texts of the grammar.
-/

namespace LoopNest
namespace Tir

/-!
## Modules with the same outline

Two well-formed modules with the same outline are the same module.  The outline fixes the
sizes of all spans, and spans that tile a table are fixed by their sizes.  It fixes the name
behind every operand and every successor, and only one position of the function has it.
-/

/-!
### Lists with the same images
-/

section

variable {alpha beta gamma : Type} {xs ys : List alpha}

theorem map_part {u w : alpha -> beta} (part : beta -> gamma) (h : xs.map u = ys.map w) :
    xs.map (fun x => part (u x)) = ys.map fun y => part (w y) := by
  have hparts := congrArg (List.map part) h
  rwa [List.map_map, List.map_map] at hparts

theorem eq_of_map_eq {p : alpha -> beta} {q : alpha -> gamma}
    (hinj : forall x y, p x = p y -> q x = q y -> x = y)
    (hp : xs.map p = ys.map p) (hq : xs.map q = ys.map q) : xs = ys := by
  have hpairs : xs.map (fun x => (p x, q x)) = ys.map fun x => (p x, q x) := by
    rw [← List.zip_map', ← List.zip_map', hp, hq]
  refine List.map_injective_iff.mpr (fun x y h => ?_) hpairs
  exact hinj x y (congrArg Prod.fst h) (congrArg Prod.snd h)

theorem eq_of_map_eq_on {p : alpha -> beta}
    (hinj : forall x, x ∈ xs -> forall y, y ∈ ys -> p x = p y -> x = y)
    (h : xs.map p = ys.map p) : xs = ys := by
  induction xs generalizing ys with
  | nil => exact (List.map_eq_nil_iff.mp h.symm).symm
  | cons x xs ih =>
      cases ys with
      | nil => cases h
      | cons y ys =>
          rw [List.map_cons, List.map_cons, List.cons.injEq] at h
          have hxy := hinj x List.mem_cons_self y List.mem_cons_self h.1
          rw [hxy, ih (fun x hx y hy =>
            hinj x (List.mem_cons_of_mem _ hx) y (List.mem_cons_of_mem _ hy)) h.2]

/-- An image that is the same for all rejected items is fixed by the accepted ones. -/
theorem map_eq_of_filter {p : alpha -> Bool} {q : alpha -> beta} {default : beta}
    (hp : xs.map p = ys.map p) (hq : (xs.filter p).map q = (ys.filter p).map q)
    (hxs : forall x, x ∈ xs -> p x = false -> q x = default)
    (hys : forall y, y ∈ ys -> p y = false -> q y = default) : xs.map q = ys.map q := by
  induction xs generalizing ys with
  | nil =>
      rw [List.map_eq_nil_iff.mp hp.symm]
  | cons x xs ih =>
      cases ys with
      | nil => cases hp
      | cons y ys =>
          rw [List.map_cons, List.map_cons, List.cons.injEq] at hp
          rw [List.forall_mem_cons] at hxs hys
          rw [List.map_cons, List.map_cons]
          by_cases hx : p x = true
          · have hy : p y = true := hp.1 ▸ hx
            rw [List.filter_cons_of_pos hx, List.filter_cons_of_pos hy, List.map_cons,
              List.map_cons, List.cons.injEq] at hq
            rw [hq.1, ih hp.2 hq.2 hxs.2 hys.2]
          · have hy : ¬p y = true := hp.1 ▸ hx
            rw [List.filter_cons_of_neg hx, List.filter_cons_of_neg hy] at hq
            rw [hxs.1 (eq_false_of_ne_true hx), hys.1 (eq_false_of_ne_true hy),
              ih hp.2 hq hxs.2 hys.2]

end

namespace Span

variable {alpha : Type} {s : Span} {i j : Nat} {table : List alpha}
  {name : alpha -> String}

def nameAt (name : alpha -> String) (table : List alpha) (i : Nat) : String :=
  ((table[i]?).map name).getD ""

theorem nameAt_ne (hdistinct : (s.slice table).Pairwise fun x y => name x ≠ "" -> name x ≠ name y)
    (hi : s.start ≤ i) (hij : i < j) (hj : j < s.stop) (hne : nameAt name table i ≠ "")
    (heq : nameAt name table i = nameAt name table j) : False := by
  have hget : forall l, s.start ≤ l -> l < s.stop -> nameAt name table l ≠ "" ->
      exists x, (s.slice table)[l - s.start]? = some x ∧ name x = nameAt name table l := by
    intro l hstart hstop hl
    rw [getElem?_slice_sub hstart hstop]
    unfold nameAt at hl ⊢
    cases htable : table[l]? with
    | none => simp [htable] at hl
    | some x => exact ⟨x, rfl, rfl⟩
  rcases hget i hi (by omega) hne with ⟨x, hx, hname⟩
  rcases hget j (by omega) hj (heq ▸ hne) with ⟨y, hy, hname'⟩
  rcases List.getElem?_eq_some_iff.mp hx with ⟨hxlt, rfl⟩
  rcases List.getElem?_eq_some_iff.mp hy with ⟨hylt, rfl⟩
  have hdiffer := List.pairwise_iff_getElem.mp hdistinct _ _ hxlt hylt (by omega)
  exact hdiffer (hname ▸ hne) (hname.trans (heq.trans hname'.symm))

/-- Where the names of a run differ, a name has one position in it. -/
theorem eq_of_nameAt_eq
    (hdistinct : (s.slice table).Pairwise fun x y => name x ≠ "" -> name x ≠ name y)
    (hi : s.start ≤ i ∧ i < s.stop) (hj : s.start ≤ j ∧ j < s.stop)
    (hne : nameAt name table i ≠ "") (heq : nameAt name table i = nameAt name table j) :
    i = j := by
  rcases Nat.lt_trichotomy i j with hlt | hij | hgt
  · exact (nameAt_ne hdistinct hi.1 hlt hj.2 hne heq).elim
  · exact hij
  · exact (nameAt_ne hdistinct hj.1 hgt hi.2 (heq ▸ hne) heq.symm).elim

end Span

namespace Module

variable {m k : Module} {f : Function} {b : Block} {v : Value} {i j : Nat}

/-!
### Tables as joins of what belongs to the functions
-/

theorem valuesOf_eq (m : Module) (f : Function) :
    m.valuesOf f = m.argumentsOf f ++ (m.bodyOf f).flatMap m.instructionsOf := by
  rw [valuesOf, valueSpans, List.flatMap_cons, List.flatMap_map]
  rfl

namespace WellFormed

theorem flatMap_bodyOf (h : m.WellFormed) : m.functions.flatMap m.bodyOf = m.blocks := by
  have hwhole := h.blocks_tiled.flatMap_slice_whole
  rwa [List.flatMap_map] at hwhole

theorem flatMap_valuesOf (h : m.WellFormed) : m.functions.flatMap m.valuesOf = m.values := by
  have hwhole := h.values_tiled.flatMap_slice_whole
  rwa [List.flatMap_assoc] at hwhole

theorem mem_blocks (h : m.WellFormed) (hb : b ∈ m.blocks) :
    exists f, f ∈ m.functions ∧ b ∈ m.bodyOf f := by
  rw [← h.flatMap_bodyOf] at hb
  exact List.mem_flatMap.mp hb

theorem mem_values (h : m.WellFormed) (hv : v ∈ m.values) :
    exists f, f ∈ m.functions ∧
      (v ∈ m.argumentsOf f ∨ exists b, b ∈ m.bodyOf f ∧ v ∈ m.instructionsOf b) := by
  rw [← h.flatMap_valuesOf] at hv
  rcases List.mem_flatMap.mp hv with ⟨f, hf, hv⟩
  rw [valuesOf_eq, List.mem_append, List.mem_flatMap] at hv
  exact ⟨f, hf, hv⟩

theorem operands_of_argument (h : m.WellFormed) (hv : v ∈ m.values)
    (hkind : v.isInstruction = false) : v.operands = ⟨0, 0⟩ := by
  rcases h.mem_values hv with ⟨f, hf, hv | ⟨b, hb, hv⟩⟩
  · exact ((h.sound f hf).arguments v hv).2.2.1
  · exact absurd ((h.sound f hf).instructions b hb v hv).1 (of_decide_eq_false hkind)

theorem mem_instructions (h : m.WellFormed) (hv : v ∈ m.values.filter Value.isInstruction) :
    exists f, f ∈ m.functions ∧ exists b, b ∈ m.bodyOf f ∧ v ∈ m.instructionsOf b := by
  rcases List.mem_filter.mp hv with ⟨hv, hkind⟩
  rcases h.mem_values hv with ⟨f, hf, hv | hv⟩
  · have hargument := ((h.sound f hf).arguments v hv).1
    rw [Value.isInstruction, hargument] at hkind
    cases hkind
  · exact ⟨f, hf, hv⟩

/-!
### One position for a name
-/

/-- The spans of the values of a function tile one run of the value table. -/
theorem valueSpans_tiled (h : m.WellFormed) (hf : f ∈ m.functions) :
    exists start stop, Span.Tiles start (m.valueSpans f) stop := by
  rcases List.append_of_mem hf with ⟨before, after, hsplit⟩
  have htiled := h.values_tiled
  rw [hsplit, List.flatMap_append, List.flatMap_cons] at htiled
  rcases Span.tiles_append.mp htiled with ⟨start, _, htiled⟩
  rcases Span.tiles_append.mp htiled with ⟨stop, hspans, _⟩
  exact ⟨start, stop, hspans⟩

theorem eq_of_valueName (h : m.WellFormed) (hf : f ∈ m.functions) (hi : m.Owns f i)
    (hj : m.Owns f j) (hne : m.valueName i ≠ "") (heq : m.valueName i = m.valueName j) :
    i = j := by
  rcases h.valueSpans_tiled hf with ⟨start, stop, htiled⟩
  have hdistinct := (h.sound f hf).distinct_values
  rw [valuesOf, htiled.flatMap_slice] at hdistinct
  have hbounds : forall l, m.Owns f l -> start ≤ l ∧ l < stop := by
    rintro l ⟨s, hs, hstart, hstop⟩
    rcases htiled.bounds hs with ⟨hle, _, hge⟩
    omega
  exact Span.eq_of_nameAt_eq hdistinct (hbounds i hi) (hbounds j hj) hne heq

theorem eq_of_blockName (h : m.WellFormed) (hf : f ∈ m.functions)
    (hi : f.blocks.start ≤ i ∧ i < f.blocks.stop) (hj : f.blocks.start ≤ j ∧ j < f.blocks.stop)
    (heq : m.blockName i = m.blockName j) : i = j := by
  have hnodup := (h.sound f hf).nodup_labels
  rw [List.Nodup, List.pairwise_map] at hnodup
  have hne : m.blockName i ≠ "" := by
    have hlt := Nat.lt_of_lt_of_le hi.2 (h.covers hf).blocks
    have hget := List.getElem?_eq_getElem hlt
    have hslice := (Span.getElem?_slice_sub hi.1 hi.2).trans hget
    rw [blockName, hget]
    exact ((h.sound f hf).labels _ (List.mem_of_getElem? hslice)).ne_empty
  have hdistinct : (m.bodyOf f).Pairwise fun b c => b.name ≠ "" -> b.name ≠ c.name := by
    refine hnodup.imp ?_
    exact fun hbc _ => hbc
  exact Span.eq_of_nameAt_eq hdistinct hi hj hne heq

/-!
### What the outline says
-/

theorem blocks_outline (h : m.WellFormed) :
    m.blocks.map m.blockOutline = m.outline.flatMap FunctionOutline.blocks := by
  rw [outline, List.flatMap_map, ← h.flatMap_bodyOf, List.map_flatMap]
  rfl

theorem values_outline (h : m.WellFormed) :
    m.values.map m.valueOutline = m.outline.flatMap FunctionOutline.values := by
  rw [outline, List.flatMap_map, ← h.flatMap_valuesOf, List.map_flatMap]
  apply List.flatMap_congr
  intro f _
  rw [valuesOf_eq, List.map_append, List.map_flatMap, FunctionOutline.values, functionOutline,
    List.flatMap_map]
  rfl

theorem sizes_blocks (h : m.WellFormed) :
    (m.functions.map Function.blocks).map Span.size = m.outline.map fun o => o.blocks.length := by
  rw [outline, List.map_map, List.map_map]
  apply List.map_congr_left
  intro f hf
  have hlength := Span.length_slice (h.covers hf).blocks
  rw [Function.comp_apply, ← hlength]
  exact (List.length_map _).symm

theorem sizes_valueSpans (h : m.WellFormed) :
    m.functions.map (fun f => (m.valueSpans f).map Span.size) =
      m.outline.map FunctionOutline.sizes := by
  rw [outline, List.map_map]
  apply List.map_congr_left
  intro f hf
  have hc := h.covers hf
  rw [valueSpans, List.map_cons, ← Span.length_slice hc.arguments, List.map_map,
    Function.comp_apply, FunctionOutline.sizes, functionOutline, List.map_map, List.length_map]
  congr 1
  apply List.map_congr_left
  intro b hb
  have hlength := Span.length_slice (hc.instructions hb)
  rw [Function.comp_apply, ← hlength]
  exact (List.length_map _).symm

theorem sizes_successors (h : m.WellFormed) :
    (m.blocks.map Block.successors).map Span.size =
      (m.outline.flatMap FunctionOutline.blocks).map fun o => o.successors.length := by
  rw [← h.blocks_outline, List.map_map, List.map_map]
  apply List.map_congr_left
  intro b hb
  have hbounds := h.successors_tiled.bounds (List.mem_map_of_mem hb)
  have hlength := Span.length_slice hbounds.2.2
  rw [Function.comp_apply, ← hlength]
  exact (List.length_map _).symm

theorem sizes_operands (h : m.WellFormed) :
    ((m.values.filter Value.isInstruction).map Value.operands).map Span.size =
      ((m.outline.flatMap FunctionOutline.values).filter
        fun o => decide (o.kind = .instruction)).map fun o => o.operands.length := by
  rw [← h.values_outline, List.filter_map, List.map_map, List.map_map]
  apply List.map_congr_left
  intro v hv
  have hbounds := h.operands_tiled.bounds (List.mem_map_of_mem hv)
  have hlength := Span.length_slice hbounds.2.2
  rw [Function.comp_apply, ← hlength]
  exact (List.length_map _).symm

end WellFormed

/-!
### Equal outlines
-/

section

variable (hm : m.WellFormed) (hk : k.WellFormed) (heq : m.outline = k.outline)
include hm hk heq

theorem valueOutlines_eq : m.values.map m.valueOutline = k.values.map k.valueOutline := by
  rw [hm.values_outline, hk.values_outline, heq]

theorem blockOutlines_eq : m.blocks.map m.blockOutline = k.blocks.map k.blockOutline := by
  rw [hm.blocks_outline, hk.blocks_outline, heq]

theorem functionBlocks_eq : m.functions.map Function.blocks = k.functions.map Function.blocks := by
  refine hm.blocks_tiled.eq_of_sizes hk.blocks_tiled ?_
  rw [hm.sizes_blocks, hk.sizes_blocks, heq]

theorem valueSpans_eq : m.functions.map m.valueSpans = k.functions.map k.valueSpans := by
  have hsizes : m.functions.map (fun f => (m.valueSpans f).map Span.size) =
      k.functions.map fun f => (k.valueSpans f).map Span.size := by
    rw [hm.sizes_valueSpans, hk.sizes_valueSpans, heq]
  refine List.eq_iff_flatten_eq.mpr ⟨?_, ?_⟩
  · rw [← List.flatMap_def, ← List.flatMap_def]
    refine hm.values_tiled.eq_of_sizes hk.values_tiled ?_
    rw [List.map_flatMap, List.map_flatMap, List.flatMap_def, List.flatMap_def, hsizes]
  · have hlengths := congrArg (List.map List.length) hsizes
    simpa only [List.map_map, Function.comp_def, List.length_map] using hlengths

theorem functions_eq : m.functions = k.functions := by
  have hnames : m.functions.map (fun f => (f.name, f.isDeclaration)) =
      k.functions.map fun f => (f.name, f.isDeclaration) := by
    have hfields := map_part (fun o => (o.name, o.isDeclaration)) heq
    exact hfields
  have harguments : m.functions.map Function.arguments = k.functions.map Function.arguments := by
    have hheads := map_part (fun spans => spans.headD ⟨0, 0⟩) (valueSpans_eq hm hk heq)
    exact hheads
  have hspans : m.functions.map (fun f => (f.blocks, f.arguments)) =
      k.functions.map fun f => (f.blocks, f.arguments) := by
    rw [← List.zip_map', ← List.zip_map', functionBlocks_eq hm hk heq, harguments]
  refine eq_of_map_eq (fun f g hfg hspans => ?_) hnames hspans
  cases f
  cases g
  simp_all

theorem blocks_eq : m.blocks = k.blocks := by
  have houtlines := blockOutlines_eq hm hk heq
  have hnames : m.blocks.map Block.name = k.blocks.map Block.name := by
    have hlabels := map_part BlockOutline.label houtlines
    exact hlabels
  have hsuccessors : m.blocks.map Block.successors = k.blocks.map Block.successors := by
    refine hm.successors_tiled.eq_of_sizes hk.successors_tiled ?_
    rw [hm.sizes_successors, hk.sizes_successors, heq]
  have hinstructions : m.blocks.map Block.instructions = k.blocks.map Block.instructions := by
    have htails := congrArg (List.flatMap List.tail) (valueSpans_eq hm hk heq)
    rw [List.flatMap_map, List.flatMap_map] at htails
    rw [← hm.flatMap_bodyOf, ← hk.flatMap_bodyOf, List.map_flatMap, List.map_flatMap]
    exact htails
  have hspans : m.blocks.map (fun b => (b.successors, b.instructions)) =
      k.blocks.map fun b => (b.successors, b.instructions) := by
    rw [← List.zip_map', ← List.zip_map', hsuccessors, hinstructions]
  refine eq_of_map_eq (fun b c hbc hspans => ?_) hnames hspans
  cases b
  cases c
  simp_all

theorem values_eq : m.values = k.values := by
  have houtlines := valueOutlines_eq hm hk heq
  have hparts : m.values.map (fun v => (v.name, v.kind, v.opcode, v.type)) =
      k.values.map fun v => (v.name, v.kind, v.opcode, v.type) := by
    have hfields := map_part (fun o => (o.name, o.kind, o.opcode, o.type)) houtlines
    exact hfields
  have hkinds : m.values.map Value.isInstruction = k.values.map Value.isInstruction := by
    have hfields := map_part (fun o => decide (o.kind = .instruction)) houtlines
    exact hfields
  have hspans : (m.values.filter Value.isInstruction).map Value.operands =
      (k.values.filter Value.isInstruction).map Value.operands := by
    refine hm.operands_tiled.eq_of_sizes hk.operands_tiled ?_
    rw [hm.sizes_operands, hk.sizes_operands, heq]
  have hoperands : m.values.map Value.operands = k.values.map Value.operands :=
    map_eq_of_filter hkinds hspans (fun _ => hm.operands_of_argument)
      (fun _ => hk.operands_of_argument)
  refine eq_of_map_eq (fun v w hvw hspans => ?_) hparts hoperands
  cases v
  cases w
  simp_all

end

section

variable {fs : List Function} {bs : List Block} {vs : List Value} {os ps ts us : List Nat}
  (hm : (Module.mk fs bs vs os ts).WellFormed) (hk : (Module.mk fs bs vs ps us).WellFormed)
  (heq : (Module.mk fs bs vs os ts).outline = (Module.mk fs bs vs ps us).outline)
include hm hk heq

theorem operands_eq : os = ps := by
  have hslices : forall v, v ∈ vs.filter Value.isInstruction ->
      v.operands.slice os = v.operands.slice ps := by
    intro v hv
    have houtlines : vs.map _ = vs.map _ := valueOutlines_eq hm hk heq
    have hvalue := List.map_eq_map_iff.mp houtlines v (List.mem_of_mem_filter hv)
    have hnames := congrArg ValueOutline.operands hvalue
    rcases hm.mem_instructions hv with ⟨f, hf, b, hb, hv⟩
    refine eq_of_map_eq_on (fun i hi j hj hij => ?_) hnames
    have hi' := (hm.sound f hf).operands b hb v hv i hi
    have hj' := (hk.sound f hf).operands b hb v hv j hj
    exact hm.eq_of_valueName hf hi'.1 hj'.1 hi'.2 hij
  have hos := hm.operands_tiled.flatMap_slice_whole
  have hps := hk.operands_tiled.flatMap_slice_whole
  rw [List.flatMap_map] at hos hps
  exact hos.symm.trans ((List.flatMap_congr hslices).trans hps)

theorem successors_eq : ts = us := by
  have hslices : forall b, b ∈ bs -> b.successors.slice ts = b.successors.slice us := by
    intro b hb
    have houtlines : bs.map _ = bs.map _ := blockOutlines_eq hm hk heq
    have hnames := congrArg BlockOutline.successors (List.map_eq_map_iff.mp houtlines b hb)
    rcases hm.mem_blocks hb with ⟨f, hf, hb⟩
    refine eq_of_map_eq_on (fun i hi j hj hij => ?_) hnames
    have hi' := (hm.sound f hf).successors b hb i hi
    have hj' := (hk.sound f hf).successors b hb j hj
    exact hm.eq_of_blockName hf hi' hj' hij
  have hts := hm.successors_tiled.flatMap_slice_whole
  have hus := hk.successors_tiled.flatMap_slice_whole
  rw [List.flatMap_map] at hts hus
  exact hts.symm.trans ((List.flatMap_congr hslices).trans hus)

end

/-- A well-formed module is determined by its outline. -/
theorem eq_of_outline_eq (hm : m.WellFormed) (hk : k.WellFormed) (heq : m.outline = k.outline) :
    m = k := by
  have hfunctions := functions_eq hm hk heq
  have hblocks := blocks_eq hm hk heq
  have hvalues := values_eq hm hk heq
  rcases m with ⟨fs, bs, vs, os, ts⟩
  rcases k with ⟨fs', bs', vs', ps, us⟩
  cases hfunctions
  cases hblocks
  cases hvalues
  rw [operands_eq hm hk heq, successors_eq hm hk heq]

end Module

namespace Module

/-!
## The language of module texts

A text stands for a module if and only if it derives from the grammar, its functions have
different names and the names inside each function are in order.  The module is well-formed
and says what the functions say, and no other module does both.
-/

variable {text : String} {m : Module} {fs : List FunctionDraft}

theorem parse_eq_ok :
    Module.parse text = .ok m <-> exists fs, readDrafts text = .ok fs ∧ ofDrafts fs = m := by
  rw [parse]
  cases readDrafts text with
  | error e => simp [Except.map]
  | ok fs => simp [Except.map]

theorem parse_eq_error {e : ReadError} :
    Module.parse text = .error e <-> readDrafts text = .error e := by
  rw [parse]
  cases readDrafts text with
  | ok fs => simp [Except.map]
  | error e' => simp [Except.map]

/-- The module of the functions that are read from a text. -/
theorem wellFormed_of_readDrafts (h : readDrafts text = .ok fs) :
    (ofDrafts fs).WellFormed ∧ (ofDrafts fs).outline = fs.map FunctionDraft.outline := by
  rcases readDrafts_eq_ok.mp h with ⟨⟨front, _, htext⟩, hnames, hscoped⟩
  exact wellFormed_ofDrafts htext.spelled hscoped hnames

theorem length_blocks_le (h : Module.parse text = .ok m) : m.blocks.length ≤ text.length := by
  rcases parse_eq_ok.mp h with ⟨fs, hread, rfl⟩
  rcases readDrafts_eq_ok.mp hread with ⟨htext, _, _⟩
  have hentries := htext.length_le
  rw [← entries_ofDrafts, String.length_toList] at hentries
  have hblocks : (ofDrafts fs).blocks.length ≤ (ofDrafts fs).entries := by
    unfold entries
    lia
  exact Nat.le_trans hblocks hentries

/-- A text stands for `m` if and only if the grammar derives functions from it whose names are
in order, and `m` is the well-formed module with the outline of these functions. -/
theorem parse_iff_derives (text : String) (m : Module) :
    Module.parse text = .ok m <->
      exists fs, ModuleText text.toList fs ∧
        (fs.map FunctionDraft.name).Nodup ∧ (forall f, f ∈ fs -> f.Scoped) ∧
        m.WellFormed ∧ m.outline = fs.map FunctionDraft.outline := by
  rw [parse_eq_ok]
  constructor
  · rintro ⟨fs, hread, rfl⟩
    rcases readDrafts_eq_ok.mp hread with ⟨htext, hnames, hscoped⟩
    exact ⟨fs, htext, hnames, hscoped, wellFormed_of_readDrafts hread⟩
  · rintro ⟨fs, htext, hnames, hscoped, hm, houtline⟩
    have hread := readDrafts_eq_ok.mpr ⟨htext, hnames, hscoped⟩
    rcases wellFormed_of_readDrafts hread with ⟨hfs, hfsOutline⟩
    exact ⟨fs, hread, eq_of_outline_eq hfs hm (hfsOutline.trans houtline.symm)⟩

/-- Every module that a text stands for is well-formed, and its tables together have at most
as many entries as the text has characters. -/
theorem parse_wellFormed (h : Module.parse text = .ok m) :
    m.WellFormed ∧ m.entries ≤ text.length := by
  rcases parse_eq_ok.mp h with ⟨fs, hread, rfl⟩
  rcases readDrafts_eq_ok.mp hread with ⟨htext, _, _⟩
  rw [entries_ofDrafts, ← String.length_toList]
  exact ⟨(wellFormed_of_readDrafts hread).1, htext.length_le⟩

def countText : String :=
  "g()! f(%n:i64) \x7bentry: br ^loop\nloop: store %x\n%x:v4f32 = add %x, %n\nbr ^loop\x7d"

def countModule : Module where
  functions := [⟨"g", true, ⟨0, 0⟩, ⟨0, 0⟩⟩, ⟨"f", false, ⟨0, 2⟩, ⟨0, 1⟩⟩]
  blocks := [⟨"entry", ⟨0, 1⟩, ⟨1, 2⟩⟩, ⟨"loop", ⟨1, 2⟩, ⟨2, 5⟩⟩]
  values :=
    [⟨"n", .argument, "", .scalar, ⟨0, 0⟩⟩, ⟨"", .instruction, "br", .void, ⟨0, 0⟩⟩,
      ⟨"", .instruction, "store", .void, ⟨0, 1⟩⟩,
      ⟨"x", .instruction, "add", .vector 4, ⟨1, 3⟩⟩, ⟨"", .instruction, "br", .void, ⟨3, 3⟩⟩]
  valueOperands := [3, 3, 0]
  blockSuccessors := [1, 1]

theorem countModule_wellFormed :
    Module.parse countText = .ok countModule ∧ countModule.WellFormed ∧
      countModule.entries ≤ countText.length := by
  have hparse : Module.parse countText = .ok countModule := by
    decide +kernel
  exact ⟨hparse, parse_wellFormed hparse⟩

end Module
end Tir
end LoopNest
