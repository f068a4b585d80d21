import Xbbg.Library.Words
import Xbbg.Model.Generic

/-! # Completeness of flattening

Flattening visits exactly the leaves of a tree that has no array of values, and none of choices with
leaves inside. The paths of the rows are then distinct unless children without a name, which leave
the empty path as it is, make two ways look alike. -/

namespace Xbbg.Generic

open List Library Columns

/-! ## Leaves and paths -/

inductive Step where
  | child (name : String)
  | index (i : ℕ)
  deriving DecidableEq, Repr

def Step.extend (path : String) : Step → String
  | child name => childPath path name
  | index i => itemPath path i

/-- The text of a path below another one. -/
def spell (path : String) : List Step → String
  | [] => path
  | step :: rest => spell (step.extend path) rest

/-- A leaf: the way to it and its value. -/
abbrev Leaf := List Step × Option Value

def Leaf.below (step : Step) (leaf : Leaf) : Leaf := (step :: leaf.1, leaf.2)

section Walk

variable (own : ScalarType → Bool → Bool → List Payload → List Leaf) (choices : Bool)

mutual

/-- The leaves below an element in their order: those given for an element with values, and those
inside an array of choices if it is entered. -/
def walk : Element → List Leaf
  | .scalar _ datatype isArray isNull values => own datatype isArray isNull values
  | .complex _ _ children => walkChildren children
  | .array _ .sequence items => walkItems 0 items
  | .array _ .choice items => if choices then walkItems 0 items else []

def walkChildren : List Element → List Leaf
  | [] => []
  | child :: rest => (walk child).map (Leaf.below (.child child.nameStr)) ++ walkChildren rest

def walkItems (i : ℕ) : List Element → List Leaf
  | [] => []
  | item :: rest => (walk item).map (Leaf.below (.index i)) ++ walkItems (i + 1) rest

end

end Walk

/-- The values of an array are addressed by their index. With `bare` the only value of an array has
the path of the array. -/
def indexed (bare isArray : Bool) (values : List Payload) : Bool :=
  isArray && !(bare && values.length == 1)

def ownLeaves (bare : Bool) (datatype : ScalarType) (isArray isNull : Bool)
    (values : List Payload) : List Leaf :=
  if indexed bare isArray values then
    (List.range values.length).map fun i => ([.index i], getValue datatype isNull values i)
  else [([], getValue datatype isNull values 0)]

/-- All leaves of an element; an array of values has one for each index. -/
def leaves (bare : Bool) : Element → List Leaf := walk (ownLeaves bare) true

/-- The value that flattening reads. -/
def ownVisited (datatype : ScalarType) (_ isNull : Bool) (values : List Payload) : List Leaf :=
  [([], getValueWithDatatype datatype isNull values)]

/-- The leaves that flattening comes to. -/
def visited : Element → List Leaf := walk ownVisited false

/-- The elements inside an element, with the steps to them. -/
def Element.branches : Element → List (Step × Element)
  | scalar _ _ _ _ _ => []
  | complex _ _ children => children.map fun child => (.child child.nameStr, child)
  | array _ _ items => items.zipIdx.map fun item => (.index item.2, item.1)

/-- The value that an element itself has. -/
def Element.ownValue (bare : Bool) : Element → Option (Option Value)
  | .scalar _ datatype isArray isNull values =>
    if indexed bare isArray values then none else some (getValue datatype isNull values 0)
  | _ => none

/-- The value at an index of an array of values. -/
def Element.indexedValue (bare : Bool) : Element → Step → Option (Option Value)
  | .scalar _ datatype isArray isNull values, .index i =>
    if indexed bare isArray values && i < values.length then
      some (getValue datatype isNull values i)
    else none
  | _, _ => none

def valueAt (bare : Bool) (e : Element) : List Step → Option (Option Value)
  | [] => e.ownValue bare
  | step :: rest =>
    match e.branches.find? fun branch => branch.1 == step with
    | some branch => valueAt bare branch.2 rest
    | none => if rest = [] then e.indexedValue bare step else none

/-! ## Trees -/

def isStop (c : Char) : Bool := c == '.' || c == '['

/-- The name has no separator of paths. -/
def Step.IsName : Step → Prop
  | child name => ∀ c ∈ name.toList, isStop c = false
  | index _ => True

/-- Names are distinct among siblings and have no separators. -/
inductive Named : Element → Prop where
  | intro {e : Element} (hnodup : (e.branches.map Prod.fst).Nodup)
      (hnames : ∀ branch ∈ e.branches, branch.1.IsName)
      (h : ∀ branch ∈ e.branches, Named branch.2) : Named e

/-- No value has an index, and no array of choices has leaves. -/
inductive Covered (bare : Bool) : Element → Prop where
  | scalar {name datatype isArray isNull values} (h : indexed bare isArray values = false) :
      Covered bare (.scalar name datatype isArray isNull values)
  | complex {name datatype children}
      (h : ∀ branch ∈ (Element.complex name datatype children).branches, Covered bare branch.2) :
      Covered bare (.complex name datatype children)
  | items {name items}
      (h : ∀ branch ∈ (Element.array name .sequence items).branches, Covered bare branch.2) :
      Covered bare (.array name .sequence items)
  | choices {name items} (h : leaves bare (.array name .choice items) = []) :
      Covered bare (.array name .choice items)

/-- The way without what does not show in its path. -/
def strip (way : List Step) : List Step := way.dropWhile fun step => step == .child ""

/-- The ways to the leaves are distinct in what shows of them. -/
def Unambiguous (bare : Bool) (root : Element) : Prop :=
  ((leaves bare root).map fun leaf => strip leaf.1).Nodup

/-! ## Leaves by branches -/

variable {own : ScalarType → Bool → Bool → List Payload → List Leaf} {choices bare : Bool}

/-- The leaves inside an element. -/
def Element.inside (f : Element → List Leaf) (e : Element) : List Leaf :=
  e.branches.flatMap fun branch => (f branch.2).map (Leaf.below branch.1)

theorem walkChildren_eq (name : String) (datatype : ComplexType) (chs : List Element) :
    walkChildren own choices chs =
      (Element.complex name datatype chs).inside (walk own choices) := by
  induction chs with
  | nil => rfl
  | cons ch rest ih =>
    rw [walkChildren, ih]
    rfl

theorem walkItems_eq (name : String) (datatype : ComplexType) (xs : List Element) :
    walkItems own choices 0 xs = (Element.array name datatype xs).inside (walk own choices) := by
  have h : ∀ i, walkItems own choices i xs = ((xs.zipIdx i).map fun item =>
      ((Step.index item.2 : Step), item.1)).flatMap fun branch =>
        (walk own choices branch.2).map (Leaf.below branch.1) := by
    induction xs with
    | nil => exact fun i => rfl
    | cons x rest ih =>
      intro i
      rw [walkItems, ih, zipIdx_cons]
      rfl
  exact h 0

theorem leaves_complex (name : String) (datatype : ComplexType) (chs : List Element) :
    leaves bare (.complex name datatype chs) =
      (Element.complex name datatype chs).inside (leaves bare) := by
  rw [leaves, walk, walkChildren_eq name datatype]

theorem leaves_array (name : String) (datatype : ComplexType) (xs : List Element) :
    leaves bare (.array name datatype xs) =
      (Element.array name datatype xs).inside (leaves bare) := by
  cases datatype <;> exact walkItems_eq name _ xs

theorem mem_inside {f : Element → List Leaf} {e : Element} {leaf : Leaf} :
    leaf ∈ e.inside f ↔ ∃ branch ∈ e.branches, ∃ inner ∈ f branch.2,
      Leaf.below branch.1 inner = leaf := by
  simp only [Element.inside, mem_flatMap, mem_map]

theorem below_mem_inside {f : Element → List Leaf} {e : Element}
    (hn : (e.branches.map Prod.fst).Nodup) {branch : Step × Element} (hb : branch ∈ e.branches)
    {leaf : Leaf} : Leaf.below branch.1 leaf ∈ e.inside f ↔ leaf ∈ f branch.2 := by
  rw [mem_inside]
  constructor
  · rintro ⟨other, ho, inner, hi, he⟩
    obtain ⟨hs, hv⟩ := Prod.mk.inj he
    obtain ⟨hs, hw⟩ := cons.inj hs
    cases inj_on_of_nodup_map hn ho hb hs
    cases Prod.ext hw hv
    exact hi
  · exact fun hl => ⟨branch, hb, leaf, hl, rfl⟩

/-! ## One row for each leaf -/

theorem getValueWithDatatype_eq (datatype : ScalarType) (isNull : Bool) (vs : List Payload) :
    getValueWithDatatype datatype isNull vs = getValue datatype isNull vs 0 := by
  unfold getValueWithDatatype getValue getValueFastWithDatatype
  cases datatype.hasScalarValue with
  | false => cases vs <;> cases isNull <;> simp
  | true =>
    cases isNull with
    | true => simp
    | false =>
      cases vs with
      | nil => simp
      | cons payload rest => cases hr : readPayload payload datatype <;> simp [hr]

theorem visited_eq_leaves {e : Element} (h : Covered bare e) : visited e = leaves bare e := by
  have hi : ∀ {e : Element}, (∀ branch ∈ e.branches, visited branch.2 = leaves bare branch.2) →
      e.inside visited = e.inside (leaves bare) := by
    intro e he
    exact flatMap_congr fun branch hb => by rw [he branch hb]
  induction h with
  | scalar h => simp [visited, leaves, walk, ownVisited, ownLeaves, h, getValueWithDatatype_eq]
  | complex _ ih =>
    rw [leaves_complex, ← hi ih, visited, walk, walkChildren_eq]
  | items _ ih =>
    rw [leaves_array, ← hi ih, visited, walk, walkItems_eq]
  | choices h => exact h.symm

theorem covered_of_mem_iff {e : Element} (hn : Named e)
    (h : ∀ leaf, leaf ∈ visited e ↔ leaf ∈ leaves bare e) : Covered bare e := by
  induction hn with
  | @intro e hnodup _ _ ih =>
    have hi : (∀ leaf, leaf ∈ e.inside visited ↔ leaf ∈ e.inside (leaves bare)) →
        ∀ branch ∈ e.branches, Covered bare branch.2 := by
      intro he branch hb
      refine ih branch hb fun leaf => ?_
      rw [← below_mem_inside hnodup hb, he, below_mem_inside hnodup hb]
    cases e with
    | scalar name datatype isArray isNull vs =>
      cases hx : indexed bare isArray vs with
      | false => exact .scalar hx
      | true =>
        have hm : ([], getValueWithDatatype datatype isNull vs) ∈ ownLeaves bare datatype isArray
            isNull vs := (h _).mp (mem_singleton_self _)
        simp [ownLeaves, hx] at hm
    | complex name datatype chs =>
      rw [leaves_complex, visited, walk, walkChildren_eq name datatype] at h
      exact .complex (hi h)
    | array name datatype xs =>
      cases datatype with
      | sequence =>
        rw [leaves_array, visited, walk, walkItems_eq name .sequence] at h
        exact .items (hi h)
      | choice =>
        refine .choices (eq_nil_iff_forall_not_mem.mpr fun leaf hl => ?_)
        cases (h leaf).mpr hl

variable (c : Conversions)

def Leaf.row (path : String) (leaf : Leaf) : Row := leafRow c (spell path leaf.1) leaf.2

mutual

theorem flattenElement_eq (path : String) :
    ∀ e, flattenElement c path e = (visited e).map (Leaf.row c path)
  | .scalar _ _ _ _ _ => rfl
  | .complex _ _ children => flattenChildren_eq path children
  | .array _ .sequence items => flattenItems_eq path 0 items
  | .array _ .choice _ => rfl

theorem flattenChildren_eq (path : String) : ∀ chs, flattenChildren c path chs =
      (walkChildren ownVisited false chs).map (Leaf.row c path)
  | [] => rfl
  | ch :: rest => by
    rw [flattenChildren, walkChildren, map_append, map_map, flattenElement_eq,
      flattenChildren_eq path rest]
    rfl

theorem flattenItems_eq (path : String) (i : ℕ) : ∀ xs, flattenItems c path i xs =
      (walkItems ownVisited false i xs).map (Leaf.row c path)
  | [] => rfl
  | x :: rest => by
    rw [flattenItems, walkItems, map_append, map_map, flattenElement_eq,
      flattenItems_eq path (i + 1) rest]
    rfl

end

/-! ## Values and names on ways -/

/-- The way to a leaf leads to its value, by names without separators. -/
theorem leaf_spec {e : Element} (h : Named e) {leaf : Leaf} (hl : leaf ∈ leaves bare e) :
    valueAt bare e leaf.1 = some leaf.2 ∧ ∀ step ∈ leaf.1, step.IsName := by
  induction h generalizing leaf with
  | @intro e hnodup hnames _ ih =>
    have hi : leaf ∈ e.inside (leaves bare) →
        valueAt bare e leaf.1 = some leaf.2 ∧ ∀ step ∈ leaf.1, step.IsName := by
      intro hm
      obtain ⟨branch, hb, inner, hi, rfl⟩ := mem_inside.mp hm
      obtain ⟨hv, hs⟩ := ih branch hb hi
      refine ⟨?_, forall_mem_cons.mpr ⟨hnames branch hb, hs⟩⟩
      rw [Leaf.below, valueAt, find?_eq_some_of_nodup hnodup hb]
      exact hv
    cases e with
    | scalar name datatype isArray isNull vs =>
      rw [leaves, walk, ownLeaves] at hl
      cases hx : indexed bare isArray vs with
      | false =>
        rw [hx] at hl
        obtain rfl := mem_singleton.mp hl
        simp [valueAt, Element.ownValue, hx]
      | true =>
        rw [hx, if_pos rfl] at hl
        obtain ⟨i, hr, rfl⟩ := mem_map.mp hl
        have hlt : i < vs.length := mem_range.mp hr
        simp [valueAt, Element.branches, Element.indexedValue, hx, hlt, Step.IsName]
    | complex name datatype chs => exact hi (leaves_complex name datatype chs ▸ hl)
    | array name datatype xs => exact hi (leaves_array name datatype xs ▸ hl)

/-! ## Distinct paths -/

/-- What a step adds to a path that is not empty. -/
def Step.text : Step → List Char
  | child name => '.' :: name.toList
  | index i => '[' :: (Nat.toDigits 10 i ++ [']'])

theorem toList_itemPath (path : String) (i : ℕ) :
    (itemPath path i).toList = path.toList ++ (Step.index i).text := by
  simp [itemPath, Step.text]

theorem toList_spell {path : String} (hp : path ≠ "") (way : List Step) :
    (spell path way).toList = path.toList ++ way.flatMap Step.text := by
  induction way generalizing path with
  | nil => simp [spell]
  | cons step rest ih =>
    have he : (step.extend path).toList = path.toList ++ step.text := by
      cases step with
      | child name => simp [Step.extend, childPath, Step.text, hp]
      | index i => exact toList_itemPath path i
    have hne : step.extend path ≠ "" := by
      intro hn
      rw [hn] at he
      cases step <;> simp [Step.text] at he
    rw [spell, ih hne, he, flatMap_cons, append_assoc]

/-- A step ends where the next separator stands. -/
theorem step_of_text_eq {step step' : Step} {rest rest' : List Char} (hs : step.IsName)
    (hs' : step'.IsName) (hr : ∀ c ∈ rest.head?, isStop c = true)
    (hr' : ∀ c ∈ rest'.head?, isStop c = true) (h : step.text ++ rest = step'.text ++ rest') :
    step = step' ∧ rest = rest' := by
  cases step with
  | child name =>
    cases step' with
    | child name' =>
      simp only [Step.IsName] at hs hs'
      obtain ⟨hn, hrest⟩ := append_inj_of_stop (p := fun c => !isStop c) (by simpa using hs)
        (by simpa using hs') (by simpa using hr) (by simpa using hr') (cons.inj h).2
      exact ⟨congrArg _ (String.toList_injective hn), hrest⟩
    | index j => exact absurd (cons.inj h).1 (by decide)
  | index i =>
    cases step' with
    | child name' => exact absurd (cons.inj h).1 (by decide)
    | index j =>
      have hd : ∀ n, ∀ c ∈ Nat.toDigits 10 n, c.isDigit = true :=
        fun n c => Nat.isDigit_of_mem_toDigits (by decide) (by decide)
      simp only [Step.text, cons_append, append_assoc, nil_append, cons.injEq, true_and] at h
      obtain ⟨hi, hrest⟩ := append_inj_of_stop (hd i) (hd j) (by simp) (by simp) h
      have hv := congrArg (fun digits => Nat.ofDigitChars 10 digits 0) hi
      exact ⟨congrArg _ (by simpa using hv), (cons.inj hrest).2⟩

theorem flatMap_text_inj {way way' : List Step} (hw : ∀ step ∈ way, step.IsName)
    (hw' : ∀ step ∈ way', step.IsName) (h : way.flatMap Step.text = way'.flatMap Step.text) :
    way = way' := by
  have hhead : ∀ (way : List Step), ∀ c ∈ (way.flatMap Step.text).head?, isStop c = true := by
    rintro (_ | ⟨_ | _, rest⟩) <;> simp [Step.text, isStop]
  induction way generalizing way' with
  | nil =>
    cases way' with
    | nil => rfl
    | cons step' rest' => cases step' <;> simp [Step.text] at h
  | cons step rest ih =>
    cases way' with
    | nil => cases step <;> simp [Step.text] at h
    | cons step' rest' =>
      obtain ⟨hs, hr⟩ := forall_mem_cons.mp hw
      obtain ⟨hs', hr'⟩ := forall_mem_cons.mp hw'
      obtain ⟨rfl, he⟩ := step_of_text_eq hs hs' (hhead rest) (hhead rest') h
      rw [ih hr hr' he]

theorem spell_strip (way : List Step) : spell "" (strip way) = spell "" way := by
  induction way with
  | nil => rfl
  | cons step rest ih =>
    rw [strip, dropWhile_cons]
    split
    · rename_i he
      rw [eq_of_beq he]
      exact ih
    · rfl

/-- The text of a way that starts with a name or an index, from its path. -/
def dotted : List Char → List Char
  | [] => []
  | c :: rest => if c = '[' then c :: rest else '.' :: c :: rest

theorem flatMap_text_strip {way : List Step} (hw : ∀ step ∈ way, step.IsName) :
    (strip way).flatMap Step.text = dotted (spell "" (strip way)).toList := by
  induction way with
  | nil => rfl
  | cons step rest ih =>
    rw [strip, dropWhile_cons]
    split
    · exact ih (forall_mem_cons.mp hw).2
    · rename_i hne
      cases step with
      | child name =>
        have hn : name ≠ "" := by
          rintro rfl
          exact hne rfl
        have hs := hw (.child name) mem_cons_self
        have hp : childPath "" name = name := rfl
        rw [spell, Step.extend, hp, toList_spell hn, flatMap_cons, Step.text]
        cases hl : name.toList with
        | nil => exact absurd (String.toList_eq_nil_iff.mp hl) hn
        | cons c cs =>
          have hc : c ≠ '[' := by
            rintro rfl
            exact absurd (hs '[' (by simp [hl])) (by decide)
          simp [dotted, hc]
      | index i =>
        have hi := toList_itemPath "" i
        have hne : itemPath "" i ≠ "" := by
          intro he
          rw [he] at hi
          simp [Step.text] at hi
        rw [spell, Step.extend, toList_spell hne, hi]
        simp [dotted, Step.text]

theorem spell_eq_iff {way way' : List Step} (hw : ∀ step ∈ way, step.IsName)
    (hw' : ∀ step ∈ way', step.IsName) :
    spell "" way = spell "" way' ↔ strip way = strip way' := by
  rw [← spell_strip way, ← spell_strip way']
  constructor
  · intro h
    have hs : ∀ way, strip way ⊆ way := fun way => (dropWhile_suffix _).subset
    refine flatMap_text_inj (fun step hm => hw step (hs way hm))
      (fun step hm => hw' step (hs way' hm)) ?_
    rw [flatMap_text_strip hw, flatMap_text_strip hw', h]
  · intro h
    rw [h]

theorem path_leafRow (path : String) (v : Option Value) : (leafRow c path v).path = path := by
  rcases v with _ | v
  · rfl
  · cases v <;> rfl

/-- Flattening visits the leaves, each once and in their order. Their rows have distinct paths, and
the ways that these spell lead to the values. -/
structure Complete (bare : Bool) (root : Element) : Prop where
  visits : visited root = leaves bare root
  rows : processMessage c root = (leaves bare root).map (Leaf.row c "")
  distinct : ((processMessage c root).map Row.path).Nodup
  values : ∀ leaf ∈ leaves bare root, valueAt bare root leaf.1 = some leaf.2

theorem distinct_iff {root : Element} (h : Named root) :
    (((leaves bare root).map (Leaf.row c "")).map Row.path).Nodup ↔ Unambiguous bare root := by
  rw [map_map, Unambiguous, Nodup, Nodup, pairwise_map, pairwise_map]
  refine Pairwise.iff_of_mem fun {leaf leaf'} hl hl' => not_congr ?_
  simp only [Function.comp_apply, Leaf.row, path_leafRow]
  exact spell_eq_iff (leaf_spec h hl).2 (leaf_spec h hl').2

theorem processMessage_complete_iff {root : Element} (h : Named root) :
    Complete c bare root ↔ Covered bare root ∧ Unambiguous bare root := by
  constructor
  · intro hcomplete
    refine ⟨covered_of_mem_iff h fun leaf => by rw [hcomplete.visits], (distinct_iff c h).mp ?_⟩
    rw [← hcomplete.rows]
    exact hcomplete.distinct
  · rintro ⟨hcovered, hunambiguous⟩
    have hvisits := visited_eq_leaves hcovered
    have hrows : processMessage c root = (leaves bare root).map (Leaf.row c "") := by
      rw [← hvisits]
      exact flattenElement_eq c "" root
    refine ⟨hvisits, hrows, ?_, fun leaf hleaf => (leaf_spec h hleaf).1⟩
    rw [hrows]
    exact (distinct_iff c h).mpr hunambiguous

/-! ## Arrays of values -/

/-- Conversions that print nothing, for trees of whole numbers. -/
def plainConversions : Conversions := default

def numbers : Element :=
  .complex "response" .sequence [.scalar "sizes" .int32 true false [.int32 1, .int32 2]]

/-- Only the first of two values has a row. -/
theorem processMessage_drops_values : (processMessage plainConversions numbers).length = 1 ∧
    ∀ bare, leaves bare numbers = [([.child "sizes", .index 0], some (.int32 1)),
        ([.child "sizes", .index 1], some (.int32 2))] ∧
      ¬Complete plainConversions bare numbers := by
  have hlength : (processMessage plainConversions numbers).length = 1 := by decide
  refine ⟨hlength, fun bare => ?_⟩
  have hleaves : leaves bare numbers = [([.child "sizes", .index 0], some (.int32 1)),
      ([.child "sizes", .index 1], some (.int32 2))] := by
    cases bare <;> decide
  refine ⟨hleaves, fun hcomplete => ?_⟩
  rw [hcomplete.rows, hleaves] at hlength
  cases hlength

/-- A child without a name in an array of sequences, and the only value of an array. -/
def nested : Element :=
  .complex "response" .sequence
    [.array "rows" .sequence [.complex "rows" .choice [.scalar "" .int32 false false [.int32 2]]],
      .scalar "size" .int32 true false [.int32 1]]

theorem named_nested : Named nested := by
  have hs : ∀ {name datatype isArray isNull vs},
      Named (.scalar name datatype isArray isNull vs) :=
    ⟨nodup_nil, by simp [Element.branches], by simp [Element.branches]⟩
  have hr : Named (.complex "rows" .choice [.scalar "" .int32 false false [.int32 2]]) :=
    ⟨nodup_singleton _, by simp [Element.branches, Element.nameStr, Step.IsName],
      by simpa [Element.branches] using hs⟩
  refine ⟨by decide, by simp [nested, Element.branches, Step.IsName, Element.nameStr, isStop], ?_⟩
  simp only [nested, Element.branches, map_cons, map_nil, forall_mem_cons]
  refine ⟨⟨by decide, by simp [Element.branches, Step.IsName], ?_⟩, hs, by simp⟩
  simpa [Element.branches] using hr

theorem processMessage_complete_nested : Complete plainConversions true nested ∧
    (processMessage plainConversions nested).map Row.path = ["rows[0].", "size"] := by
  have hunambiguous : Unambiguous true nested := by
    unfold Unambiguous
    decide
  have hvisits : visited nested = leaves true nested := by decide
  have hcovered : Covered true nested :=
    covered_of_mem_iff named_nested fun leaf => by rw [hvisits]
  exact ⟨(processMessage_complete_iff plainConversions named_nested).mpr
    ⟨hcovered, hunambiguous⟩, by decide⟩

end Xbbg.Generic
