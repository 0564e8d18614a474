/-
The order of values is coherent, as far as no floats are involved and the values end: which
pairs have an order does not depend on the comparison or on the side, a pair that has one is
less, equal or greater, and the order is transitive.

* `Heap.RowOrder`: how two rows of items compare, by the first items that differ;
* `Heap.Ordered`: how two values compare, by their kind;
* `Heap.compare?_eq_some_iff`: the order is what these say;
* `Heap.Ordered.swap`, `Heap.Ordered.eq_iff`, `Heap.Ordered.congr`, `Heap.Ordered.trans`: its
  laws;
* `Heap.Holds`, `Heap.Raises`: a comparison of the instruction set holds, or raises a type
  error;
* `ordering_is_coherent`: the laws in terms of comparisons.
-/
import StackVM.Comparison
import StackVM.Proofs.Equality
import StackVM.Proofs.Outcome

namespace StackVM

/-! ### Numbers -/

namespace Value

/-- The values are two texts, two tuples or two lists. -/
def alike : Value → Value → Bool
  | .str _ _, .str _ _ | .tuple _ _, .tuple _ _ | .list _, .list _ => true
  | _, _ => false

lemma compareWith_of_not_alike {eq : Value → Value → Bool}
    {lists : Ref .list → Ref .list → Option Ordering} {a b : Value} (hab : a.alike b = false) :
    compareWith eq lists a b = a.compareLeaf b := by
  cases a with
  | str _ _ =>
      cases b with
      | str _ _ => cases hab
      | _ => rfl
  | tuple _ _ =>
      cases b with
      | tuple _ _ => cases hab
      | _ => rfl
  | list _ =>
      cases b with
      | list _ => cases hab
      | _ => rfl
  | _ => rfl

lemma compareLeaf_eq_some_iff {a b : Value} {o : Ordering} (ha : a.isFloat = false)
    (hb : b.isFloat = false) :
    a.compareLeaf b = some o ↔
      ∃ x y, a.asInt? = some x ∧ b.asInt? = some y ∧ cmp x.toInt y.toInt = o := by
  rw [compareLeaf, ha, hb, Bool.or_false, if_neg Bool.false_ne_true]
  cases a.asInt? with
  | none => simp
  | some x =>
      cases b.asInt? with
      | none => simp
      | some y => simp [cmp_eq_compareOfLessAndEq]

/-- A row of items that are equal to themselves compares as equal to itself. -/
lemma compareItems_self {eq : Value → Value → Bool} {cmp : Value → Value → Option Ordering}
    {xs : List Value} (hxs : ∀ x ∈ xs, eq x x = true) : compareItems eq cmp xs xs = some .eq := by
  induction xs with
  | nil => rfl
  | cons x xs ih =>
      rw [List.forall_mem_cons] at hxs
      rw [compareItems, if_pos hxs.1, ih hxs.2]

lemma exists_of_alike_atom {a b : Value} (ha : a.isAtom = true) (hab : a.alike b = true) :
    ∃ i s j t, a = .str i s ∧ b = .str j t := by
  cases a with
  | str i s =>
      cases b with
      | str j t => exact ⟨i, s, j, t, rfl, rfl⟩
      | _ => cases hab
  | tuple _ _ => cases ha
  | list _ => cases ha
  | _ => cases hab

/-- Numbers are the scalars with the face of a number. -/
lemma asInt?_eq_some_iff {v : Value} {x : Int64} :
    v.asInt? = some x ↔ v.isScalar = true ∧ v.face = .int x := by
  cases v <;> simp [asInt?, isScalar, face]

/-- Texts are the scalars with the face of a text. -/
lemma exists_of_face_eq_str {v : Value} {s : String} (hv : v.face = .str default s) :
    ∃ i, v = .str i s := by
  cases v with
  | str i t =>
      cases hv
      exact ⟨i, rfl⟩
  | _ => cases hv

end Value

namespace Heap

variable {h : Heap}

/-! ### How values compare -/

mutual

/-- Values compare as texts, as numbers, or as rows of items. -/
inductive Ordered (h : Heap) : Value → Value → Ordering → Prop where
  | texts {i j : Ident} {s t : String} : Ordered h (.str i s) (.str j t) (cmp s t)
  | numbers {a b : Value} {x y : Int64} (left : a.asInt? = some x) (right : b.asInt? = some y) :
      Ordered h a b (cmp x.toInt y.toInt)
  | tuples {i j : Ident} {xs ys : List Value} {o : Ordering} (items : RowOrder h xs ys o) :
      Ordered h (.tuple i xs) (.tuple j ys) o
  | lists {r s : Ref .list} {o : Ordering}
      (items : RowOrder h (h.list r).toList (h.list s).toList o) : Ordered h (.list r) (.list s) o

/-- Rows of items compare as their first items that are not equal do; a row that ends before
is less. -/
inductive RowOrder (h : Heap) : List Value → List Value → Ordering → Prop where
  | nil : RowOrder h [] [] .eq
  | shorter {y : Value} {ys : List Value} : RowOrder h [] (y :: ys) .lt
  | longer {x : Value} {xs : List Value} : RowOrder h (x :: xs) [] .gt
  | equal {x y : Value} {xs ys : List Value} {o : Ordering} (equal : h.eq x y = true)
      (rest : RowOrder h xs ys o) : RowOrder h (x :: xs) (y :: ys) o
  | differ {x y : Value} {xs ys : List Value} {o : Ordering} (unequal : h.eq x y = false)
      (order : Ordered h x y o) : RowOrder h (x :: xs) (y :: ys) o

end

lemma rowOrder_cons_iff {x y : Value} {xs ys : List Value} {o : Ordering} :
    h.RowOrder (x :: xs) (y :: ys) o ↔
      if h.eq x y then h.RowOrder xs ys o else h.Ordered x y o := by
  constructor
  · intro hxy
    cases hxy with
    | equal equal rest => rwa [if_pos equal]
    | differ unequal order => rwa [if_neg (Bool.eq_false_iff.mp unequal)]
  · intro hxy
    split at hxy
    next equal => exact .equal equal hxy
    next unequal => exact .differ (Bool.eq_false_iff.mpr unequal) hxy

/-- Rows are compared by going through them, if their items compare as they should. -/
lemma compareItems_eq_some_iff {xs ys : List Value} {o : Ordering}
    (hitems : ∀ x ∈ xs, ∀ y ∈ ys, ∀ o, h.compare? x y = some o ↔ h.Ordered x y o) :
    Value.compareItems h.eq h.compare? xs ys = some o ↔ h.RowOrder xs ys o := by
  induction xs generalizing ys with
  | nil =>
      cases ys with
      | nil => exact ⟨by rintro ⟨⟩; exact .nil, by rintro ⟨⟩; rfl⟩
      | cons y ys => exact ⟨by rintro ⟨⟩; exact .shorter, by rintro ⟨⟩; rfl⟩
  | cons x xs ih =>
      cases ys with
      | nil => exact ⟨by rintro ⟨⟩; exact .longer, by rintro ⟨⟩; rfl⟩
      | cons y ys =>
          rw [Value.compareItems, rowOrder_cons_iff]
          split
          · exact ih fun x hx y hy =>
              hitems x (List.mem_cons_of_mem _ hx) y (List.mem_cons_of_mem _ hy)
          · exact hitems x List.mem_cons_self y List.mem_cons_self o

/-- Lists are ordered by their items, and a list that is compared with itself too. -/
lemma compare?_list_items {r : Ref .list} (hr : h.Grounded (.list r)) (s : Ref .list) :
    h.compare? (.list r) (.list s) =
      Value.compareItems h.eq h.compare? (h.list r).toList (h.list s).toList := by
  rw [compare?_list hr]
  split
  next hrs =>
    rw [← eq_of_beq hrs]
    exact (Value.compareItems_self fun x hx => eq_refl (hr.list_items x hx)).symm
  next => rfl

lemma compareWithin?_str (h : Heap) (k : Nat) (i j : Ident) (s t : String) :
    h.compareWithin? k (.str i s) (.str j t) = some (cmp s t) := by
  rw [compareWithin?_leaf rfl, Value.compareWith, cmp_eq_compareOfLessAndEq]

lemma compare?_str (h : Heap) (i j : Ident) (s t : String) :
    h.compare? (.str i s) (.str j t) = some (cmp s t) :=
  h.compareWithin?_str h.nesting i j s t

/-- Values that are not both texts, tuples or lists compare as numbers. -/
lemma compareWithin?_of_not_alike {a b : Value} (hab : a.alike b = false) (k : Nat) :
    h.compareWithin? k a b = a.compareLeaf b := by
  cases k <;> exact Value.compareWith_of_not_alike hab

/-- Values compare as numbers if they are numbers, and not both texts, tuples or lists. -/
lemma compare?_eq_some_iff_of_not_alike {a b : Value} {o : Ordering} (ha : h.Grounded a)
    (hb : h.Grounded b) (hab : a.alike b = false) :
    h.compare? a b = some o ↔ h.Ordered a b o := by
  rw [compare?, compareWithin?_of_not_alike hab,
    Value.compareLeaf_eq_some_iff ha.isFloat_eq_false hb.isFloat_eq_false]
  constructor
  · rintro ⟨x, y, hx, hy, rfl⟩
    exact .numbers hx hy
  · intro hord
    cases hord with
    | numbers left right => exact ⟨_, _, left, right, rfl⟩
    | texts => cases hab
    | tuples _ => cases hab
    | lists _ => cases hab

/-- **The order of values** that end: two of them have one if they are texts, numbers, or
sequences of a kind whose first items that differ have one. -/
theorem compare?_eq_some_iff {a b : Value} {o : Ordering} (ha : h.Grounded a)
    (hb : h.Grounded b) : h.compare? a b = some o ↔ h.Ordered a b o := by
  induction ha using Grounded.ind generalizing b o with
  | atom v hv =>
      cases halike : v.alike b with
      | false => exact compare?_eq_some_iff_of_not_alike ⟨0, .atom hv⟩ hb halike
      | true =>
          obtain ⟨i, s, j, t, rfl, rfl⟩ := Value.exists_of_alike_atom hv halike
          rw [compare?_str]
          constructor
          · rintro ⟨⟩
            exact .texts
          · intro hord
            cases hord with
            | texts => rfl
            | numbers left _ => cases left
  | tuple i xs ha ih =>
      cases b with
      | tuple j ys =>
          rw [compare?_tuple, compareItems_eq_some_iff fun x hx y hy o => ih x hx (hb.items y hy)]
          constructor
          · exact .tuples
          · intro hord
            cases hord with
            | tuples items => exact items
            | numbers left _ => cases left
      | _ => exact compare?_eq_some_iff_of_not_alike ha hb rfl
  | list r ha ih =>
      cases b with
      | list s =>
          rw [compare?_list_items ha,
            compareItems_eq_some_iff fun x hx y hy o => ih x hx (hb.list_items y hy)]
          constructor
          · exact .lists
          · intro hord
            cases hord with
            | lists items => exact items
            | numbers left _ => cases left
      | _ => exact compare?_eq_some_iff_of_not_alike ha hb rfl
  | dict r ha _ => exact compare?_eq_some_iff_of_not_alike ha hb rfl

/-! ### The laws -/

mutual

/-- Values the other way round compare the other way round. -/
lemma Ordered.swap {a b : Value} {o : Ordering} (ha : h.Plain a) (hb : h.Plain b) :
    h.Ordered a b o → h.Ordered b a o.swap
  | .texts => by
    rw [cmp_swap]
    exact .texts
  | .numbers left right => by
    rw [cmp_swap]
    exact .numbers right left
  | .tuples items => .tuples (items.swap ha.items hb.items)
  | .lists items => .lists (items.swap ha.list_items hb.list_items)

/-- Rows the other way round compare the other way round. -/
lemma RowOrder.swap {xs ys : List Value} {o : Ordering} (hx : ∀ x ∈ xs, h.Plain x)
    (hy : ∀ y ∈ ys, h.Plain y) : h.RowOrder xs ys o → h.RowOrder ys xs o.swap
  | .nil => .nil
  | .shorter => .longer
  | .longer => .shorter
  | .equal equal rest => by
    rw [List.forall_mem_cons] at hx hy
    exact .equal (eq_symm hx.1 hy.1 equal) (rest.swap hx.2 hy.2)
  | .differ unequal order => by
    rw [List.forall_mem_cons] at hx hy
    exact .differ (eq_swap hx.1 hy.1 ▸ unequal) (order.swap hx.1 hy.1)

end

mutual

/-- Values compare as equal exactly if they are equal. -/
lemma Ordered.eq_iff {a b : Value} {o : Ordering} (ha : h.Plain a) (hb : h.Plain b) :
    h.Ordered a b o → (o = .eq ↔ h.eq a b = true)
  | .texts => by
    rw [cmp_eq_eq_iff, eq_scalar_iff rfl rfl]
    simp [Value.face]
  | .numbers left right => by
    rw [Value.asInt?_eq_some_iff] at left right
    rw [cmp_eq_eq_iff, eq_scalar_iff left.1 hb.isFloat_eq_false, left.2, right.2, Value.int.injEq,
      Int64.toInt_inj]
  | .tuples items => by
    rw [items.eq_iff ha.items hb.items, eq_tuple, Value.eqItems_iff]
  | .lists items => by
    rw [items.eq_iff ha.list_items hb.list_items, ha.eq_list_iff hb]

/-- Rows compare as equal exactly if their items are equal. -/
lemma RowOrder.eq_iff {xs ys : List Value} {o : Ordering} (hx : ∀ x ∈ xs, h.Plain x)
    (hy : ∀ y ∈ ys, h.Plain y) : h.RowOrder xs ys o →
      (o = .eq ↔ List.Forall₂ (fun x y => h.eq x y = true) xs ys)
  | .nil => by simp
  | .shorter => by simp
  | .longer => by simp
  | .equal equal rest => by
    rw [List.forall_mem_cons] at hx hy
    rw [rest.eq_iff hx.2 hy.2, List.forall₂_cons, and_iff_right equal]
  | .differ unequal order => by
    rw [List.forall_mem_cons] at hx hy
    rw [order.eq_iff hx.1 hy.1, List.forall₂_cons]
    simp [unequal]

end

mutual

/-- A value compares as the values that are equal to it do. -/
lemma Ordered.congr {a a' b : Value} {o : Ordering} (ha : h.Plain a) (ha' : h.Plain a')
    (hb : h.Plain b) (haa' : h.eq a a' = true) : h.Ordered a b o → h.Ordered a' b o
  | .texts => by
    obtain ⟨i, rfl⟩ := Value.exists_of_face_eq_str
      ((eq_scalar_iff rfl ha'.isFloat_eq_false).mp haa').symm
    exact .texts
  | .numbers left right => by
    rw [Value.asInt?_eq_some_iff] at left
    have hface := (eq_scalar_iff left.1 ha'.isFloat_eq_false).mp haa'
    have hscalar : a'.isScalar = true := by
      rw [← a'.isScalar_face, ← hface, a.isScalar_face, left.1]
    exact .numbers (Value.asInt?_eq_some_iff.mpr ⟨hscalar, hface.symm.trans left.2⟩) right
  | .tuples items => by
    obtain ⟨j, xs', rfl, hitems⟩ := eq_tuple_iff.mp haa'
    exact .tuples (items.congr ha.items ha'.items hb.items hitems)
  | .lists items => by
    obtain ⟨s, rfl, -⟩ := eqWithin_list_iff.mp haa'
    have hitems := (ha.eq_list_iff ha').mp haa'
    exact .lists (items.congr ha.list_items ha'.list_items hb.list_items hitems)

/-- A row compares as the rows with equal items do. -/
lemma RowOrder.congr {xs xs' ys : List Value} {o : Ordering} (hx : ∀ x ∈ xs, h.Plain x)
    (hx' : ∀ x ∈ xs', h.Plain x) (hy : ∀ y ∈ ys, h.Plain y)
    (hxx' : List.Forall₂ (fun x x' => h.eq x x' = true) xs xs') :
    h.RowOrder xs ys o → h.RowOrder xs' ys o
  | .nil => by
    cases hxx'
    exact .nil
  | .shorter => by
    cases hxx'
    exact .shorter
  | .longer => by
    cases hxx'
    exact .longer
  | .equal equal rest => by
    cases hxx' with
    | cons hhead htail =>
      rw [List.forall_mem_cons] at hx hx' hy
      exact .equal (eq_trans hx'.1 hx.1 hy.1 (eq_symm hx.1 hx'.1 hhead) equal)
        (rest.congr hx.2 hx'.2 hy.2 htail)
  | .differ unequal order => by
    cases hxx' with
    | cons hhead _ =>
      rw [List.forall_mem_cons] at hx hx' hy
      rw [eq_congr hx.1 hx'.1 hy.1 hy.1 hhead (eq_refl hy.1)] at unequal
      exact .differ unequal (order.congr hx.1 hx'.1 hy.1 hhead)

end

/-- The same on the other side. -/
lemma Ordered.congr_right {a b b' : Value} {o : Ordering} (ha : h.Plain a) (hb : h.Plain b)
    (hb' : h.Plain b') (hbb' : h.eq b b' = true) (hab : h.Ordered a b o) :
    h.Ordered a b' o := by
  have hswap := ((hab.swap ha hb).congr hb hb' ha hbb').swap hb' ha
  rwa [Ordering.swap_swap] at hswap

/-- Values of which one is less than the other are not equal. -/
lemma Ordered.eq_false_of_lt {a b : Value} (ha : h.Plain a) (hb : h.Plain b)
    (hab : h.Ordered a b .lt) : h.eq a b = false := by
  rw [Bool.eq_false_iff]
  exact fun heq => by cases (hab.eq_iff ha hb).mpr heq

mutual

/-- The order is transitive. -/
lemma Ordered.trans {a b c : Value} {o p : Ordering} (ha : h.Plain a) (hb : h.Plain b)
    (hc : h.Plain c) :
    h.Ordered a b o → o = .lt → h.Ordered b c p → p = .lt → h.Ordered a c .lt
  | .texts, ho, hbc, hp => by
    cases hbc with
    | texts =>
      rw [cmp_eq_lt_iff] at ho hp
      exact (cmp_eq_lt_iff ..).mpr (ho.trans hp) ▸ .texts
    | numbers left _ => cases left
  | .numbers left right, ho, hbc, hp => by
    cases hbc with
    | numbers left' right' =>
      rw [right] at left'
      cases left'
      rw [cmp_eq_lt_iff] at ho hp
      exact (cmp_eq_lt_iff ..).mpr (ho.trans hp) ▸ .numbers left right'
    | texts => cases right
    | tuples _ => cases right
    | lists _ => cases right
  | .tuples items, ho, hbc, hp => by
    cases hbc with
    | tuples items' => exact .tuples (items.trans ha.items hb.items hc.items ho items' hp)
    | numbers left _ => cases left
  | .lists items, ho, hbc, hp => by
    cases hbc with
    | lists items' =>
      exact .lists (items.trans ha.list_items hb.list_items hc.list_items ho items' hp)
    | numbers left _ => cases left

/-- The order of rows is transitive: the first items that differ between the outer two are
those where one of the others differs from the middle. -/
lemma RowOrder.trans {xs ys zs : List Value} {o p : Ordering} (hx : ∀ x ∈ xs, h.Plain x)
    (hy : ∀ y ∈ ys, h.Plain y) (hz : ∀ z ∈ zs, h.Plain z) :
    h.RowOrder xs ys o → o = .lt → h.RowOrder ys zs p → p = .lt → h.RowOrder xs zs .lt
  | .nil, ho, _, _ => by cases ho
  | .longer, ho, _, _ => by cases ho
  | .shorter, _, hyz, hp => by
    cases hyz with
    | longer => cases hp
    | equal _ _ => exact .shorter
    | differ _ _ => exact .shorter
  | .equal equal rest, ho, hyz, hp => by
    cases hyz with
    | longer => cases hp
    | equal equal' rest' =>
      rw [List.forall_mem_cons] at hx hy hz
      exact .equal (eq_trans hx.1 hy.1 hz.1 equal equal') (rest.trans hx.2 hy.2 hz.2 ho rest' hp)
    | differ unequal order =>
      rw [List.forall_mem_cons] at hx hy hz
      have hyx := eq_symm hx.1 hy.1 equal
      rw [eq_congr hy.1 hx.1 hz.1 hz.1 hyx (eq_refl hz.1)] at unequal
      exact .differ unequal (hp ▸ order.congr hy.1 hx.1 hz.1 hyx)
  | .differ unequal order, ho, hyz, hp => by
    cases hyz with
    | longer => cases hp
    | equal equal _ =>
      rw [List.forall_mem_cons] at hx hy hz
      rw [eq_congr hx.1 hx.1 hy.1 hz.1 (eq_refl hx.1) equal] at unequal
      exact .differ unequal (ho ▸ order.congr_right hx.1 hy.1 hz.1 equal)
    | differ _ order' =>
      rw [List.forall_mem_cons] at hx hy hz
      have hless := order.trans hx.1 hy.1 hz.1 ho order' hp
      exact .differ (hless.eq_false_of_lt hx.1 hz.1) hless

end

mutual

/-- Two values compare in one way. -/
lemma Ordered.unique {a b : Value} {o p : Ordering} : h.Ordered a b o → h.Ordered a b p → o = p
  | .texts, hp => by
    cases hp with
    | texts => rfl
    | numbers left _ => cases left
  | .numbers left right, hp => by
    cases hp with
    | numbers left' right' =>
      cases left.symm.trans left'
      cases right.symm.trans right'
      rfl
    | texts => cases left
    | tuples _ => cases left
    | lists _ => cases left
  | .tuples items, hp => by
    cases hp with
    | tuples items' => exact items.unique items'
    | numbers left _ => cases left
  | .lists items, hp => by
    cases hp with
    | lists items' => exact items.unique items'
    | numbers left _ => cases left

/-- Two rows compare in one way. -/
lemma RowOrder.unique {xs ys : List Value} {o p : Ordering} :
    h.RowOrder xs ys o → h.RowOrder xs ys p → o = p
  | .nil, hp => by
    cases hp
    rfl
  | .shorter, hp => by
    cases hp
    rfl
  | .longer, hp => by
    cases hp
    rfl
  | .equal equal rest, hp => by
    rw [rowOrder_cons_iff, if_pos equal] at hp
    exact rest.unique hp
  | .differ unequal order, hp => by
    rw [rowOrder_cons_iff, if_neg (Bool.eq_false_iff.mp unequal)] at hp
    exact order.unique hp

end

end Heap

/-! ### The comparisons of the instruction set -/

/-- The comparisons that ask for an order: `<`, `<=`, `>` and `>=`. -/
def CompareOp.orderings : List CompareOp :=
  [.lt, .le, .gt, .ge]

lemma Eval.get_run (h : Heap) : (get : Eval Heap) h = .ok h h :=
  rfl

namespace Value

variable {h : Heap} {op : CompareOp} {a b : Value}

lemma compareOp_of_mem_orderings (hop : op ∈ CompareOp.orderings) :
    compareOp op a b = ordered op a b := by
  simp only [CompareOp.orderings, List.mem_cons, List.not_mem_nil, or_false] at hop
  rcases hop with rfl | rfl | rfl | rfl <;> rfl

lemma floats?_eq_none (ha : a.isFloat = false) (hb : b.isFloat = false) :
    floats? a b = Option.none := by
  rw [floats?, ha, hb]
  rfl

lemma ordered_of_some {o : Ordering} (ha : a.isFloat = false) (hb : b.isFloat = false)
    (hab : h.compare? a b = some o) : ordered op a b h = .ok (orderingHolds op o) h := by
  simp only [ordered, floats?_eq_none ha hb]
  rw [bind_of_ok (Eval.get_run h), hab]
  rfl

lemma ordered_of_none (ha : a.isFloat = false) (hb : b.isFloat = false)
    (hab : h.compare? a b = Option.none) :
    ordered op a b h = .error (.unordered op.symbol a.typeTag b.typeTag) h := by
  simp only [ordered, floats?_eq_none ha hb]
  rw [bind_of_ok (Eval.get_run h), hab]
  rfl

end Value

namespace Heap

variable {h : Heap} {op : CompareOp} {a b : Value}

/-- The comparison holds. -/
def Holds (h : Heap) (op : CompareOp) (a b : Value) : Prop :=
  Value.compareOp op a b h = .ok true h

/-- The comparison raises a type error. -/
def Raises (h : Heap) (op : CompareOp) (a b : Value) : Prop :=
  ∃ c, Value.compareOp op a b h = .error c h ∧ c.cls = .typeError

lemma holds_eq_iff : h.Holds .eq a b ↔ h.eq a b = true := by
  rw [Holds, Value.compareOp, bind_of_ok (Eval.get_run h)]
  exact ⟨fun hab => EStateM.Result.ok.inj hab |>.1, fun hab => hab ▸ rfl⟩

lemma compareOp_of_ordered {o : Ordering} (hop : op ∈ CompareOp.orderings) (ha : h.Grounded a)
    (hb : h.Grounded b) (hab : h.Ordered a b o) :
    Value.compareOp op a b h = .ok (Value.orderingHolds op o) h := by
  rw [Value.compareOp_of_mem_orderings hop]
  exact Value.ordered_of_some ha.isFloat_eq_false hb.isFloat_eq_false
    ((compare?_eq_some_iff ha hb).mpr hab)

/-- A comparison raises a type error exactly if the values have no order. -/
lemma raises_iff (hop : op ∈ CompareOp.orderings) (ha : h.Grounded a) (hb : h.Grounded b) :
    h.Raises op a b ↔ ∀ o, ¬ h.Ordered a b o := by
  constructor
  · rintro ⟨c, hraised, -⟩ o hab
    rw [compareOp_of_ordered hop ha hb hab] at hraised
    cases hraised
  · intro hnone
    have hcompare : h.compare? a b = none :=
      Option.eq_none_iff_forall_ne_some.mpr fun o ho =>
        hnone o ((compare?_eq_some_iff ha hb).mp ho)
    refine ⟨.unordered op.symbol a.typeTag b.typeTag, ?_, rfl⟩
    rw [Value.compareOp_of_mem_orderings hop]
    exact Value.ordered_of_none ha.isFloat_eq_false hb.isFloat_eq_false hcompare

/-- A comparison holds exactly if the values have an order that it asks for. -/
lemma holds_iff (hop : op ∈ CompareOp.orderings) (ha : h.Grounded a) (hb : h.Grounded b) :
    h.Holds op a b ↔ ∃ o, h.Ordered a b o ∧ Value.orderingHolds op o = true := by
  constructor
  · intro hholds
    by_contra hnone
    have hraises : h.Raises op a b := (raises_iff hop ha hb).mpr fun o hab => hnone ⟨o, hab, by
      rw [Holds, compareOp_of_ordered hop ha hb hab] at hholds
      exact (EStateM.Result.ok.inj hholds).1⟩
    obtain ⟨c, hraised, -⟩ := hraises
    rw [Holds, hraised] at hholds
    cases hholds
  · rintro ⟨o, hab, ho⟩
    rw [Holds, compareOp_of_ordered hop ha hb hab, ho]

/-- A comparison of values whose order is known. -/
lemma Ordered.holds_iff {o : Ordering} (hop : op ∈ CompareOp.orderings) (ha : h.Grounded a)
    (hb : h.Grounded b) (hab : h.Ordered a b o) :
    h.Holds op a b ↔ Value.orderingHolds op o = true := by
  rw [Heap.holds_iff hop ha hb]
  constructor
  · rintro ⟨p, hp, hholds⟩
    rwa [hab.unique hp]
  · exact fun hholds => ⟨o, hab, hholds⟩

lemma holds_lt_iff (ha : h.Grounded a) (hb : h.Grounded b) :
    h.Holds .lt a b ↔ h.Ordered a b .lt := by
  rw [Heap.holds_iff (by decide) ha hb]
  constructor
  · rintro ⟨o, hab, ho⟩
    rwa [eq_of_beq ho] at hab
  · exact fun hab => ⟨.lt, hab, rfl⟩

/-- Values have an order if they have one the other way round. -/
lemma exists_ordered_swap (ha : h.Plain a) (hb : h.Plain b) :
    (∀ o, ¬ h.Ordered a b o) ↔ ∀ o, ¬ h.Ordered b a o :=
  ⟨fun hnone _ hba => hnone _ (hba.swap hb ha), fun hnone _ hab => hnone _ (hab.swap ha hb)⟩

/-- Values have the order that values equal to them have. -/
lemma ordered_congr {a' b' : Value} {o : Ordering} (ha : h.Plain a) (ha' : h.Plain a')
    (hb : h.Plain b) (hb' : h.Plain b') (haa' : h.eq a a' = true) (hbb' : h.eq b b' = true) :
    h.Ordered a b o ↔ h.Ordered a' b' o :=
  ⟨fun hab => (hab.congr ha ha' hb haa').congr_right ha' hb hb' hbb',
    fun hab => (hab.congr ha' ha hb' (eq_symm ha ha' haa')).congr_right ha hb' hb
      (eq_symm hb hb' hbb')⟩

/-- Values that have an order are less, equal or greater, and the comparisons say which. -/
lemma Ordered.trichotomy {o : Ordering} (ha : h.Grounded a) (hb : h.Grounded b)
    (hab : h.Ordered a b o) :
    (h.Holds .lt a b ↔ o = .lt) ∧ (h.Holds .eq a b ↔ o = .eq) ∧ (h.Holds .lt b a ↔ o = .gt) ∧
      (h.Holds .le a b ↔ o ≠ .gt) ∧ (h.Holds .gt a b ↔ o = .gt) ∧ (h.Holds .ge a b ↔ o ≠ .lt) := by
  have holds (op : CompareOp) (hop : op ∈ CompareOp.orderings) := hab.holds_iff hop ha hb
  rw [holds_eq_iff, ← hab.eq_iff ha hb, holds .lt (by decide), holds .le (by decide),
    holds .gt (by decide), holds .ge (by decide), (hab.swap ha hb).holds_iff (by decide) hb ha]
  cases o <;> decide

end Heap

/-- **The order of values is coherent** on values that end and hold no float. A comparison of
two of them has a result or raises a type error, and `<`, `<=`, `>` and `>=` raise one on the
same pairs, whichever value stands on the left. On the others exactly one of `a < b`, `a == b`
and `b < a` holds, and the other comparisons are made of these. The order is transitive, and
equal values compare alike. -/
theorem ordering_is_coherent (h : Heap) :
    (∀ a b, h.Grounded a → h.Grounded b →
      (∀ op ∈ CompareOp.orderings,
        h.Raises op a b ∨ ∃ t, Value.compareOp op a b h = .ok t h) ∧
      (∀ op ∈ CompareOp.orderings, ∀ op' ∈ CompareOp.orderings,
        (h.Raises op a b ↔ h.Raises op' a b) ∧ (h.Raises op a b ↔ h.Raises op' b a)) ∧
      (¬ h.Raises .lt a b →
        (h.Holds .lt a b ∧ ¬ h.Holds .eq a b ∧ ¬ h.Holds .lt b a ∨
          ¬ h.Holds .lt a b ∧ h.Holds .eq a b ∧ ¬ h.Holds .lt b a ∨
          ¬ h.Holds .lt a b ∧ ¬ h.Holds .eq a b ∧ h.Holds .lt b a) ∧
        (h.Holds .le a b ↔ h.Holds .lt a b ∨ h.Holds .eq a b) ∧
        (h.Holds .gt a b ↔ h.Holds .lt b a) ∧
        (h.Holds .ge a b ↔ h.Holds .lt b a ∨ h.Holds .eq a b))) ∧
    (∀ a b c, h.Grounded a → h.Grounded b → h.Grounded c →
      h.Holds .lt a b → h.Holds .lt b c → h.Holds .lt a c) ∧
    (∀ a a' b b', h.Grounded a → h.Grounded a' → h.Grounded b → h.Grounded b' →
      h.Holds .eq a a' → h.Holds .eq b b' → ∀ op ∈ CompareOp.orderings,
        (h.Raises op a b ↔ h.Raises op a' b') ∧ (h.Holds op a b ↔ h.Holds op a' b')) := by
  refine ⟨fun a b ha hb => ⟨?_, ?_, ?_⟩, ?_, ?_⟩
  · intro op hop
    rw [Heap.raises_iff hop ha hb, ← not_exists, or_iff_not_imp_left, not_not]
    rintro ⟨o, hab⟩
    exact ⟨_, Heap.compareOp_of_ordered hop ha hb hab⟩
  · intro op hop op' hop'
    rw [Heap.raises_iff hop ha hb, Heap.raises_iff hop' ha hb, Heap.raises_iff hop' hb ha]
    exact ⟨Iff.rfl, Heap.exists_ordered_swap ha hb⟩
  · intro hraises
    rw [Heap.raises_iff (by decide) ha hb, not_forall_not] at hraises
    obtain ⟨o, hab⟩ := hraises
    obtain ⟨hlt, heq, hgt', hle, hgt, hge⟩ := hab.trichotomy ha hb
    rw [hlt, heq, hgt', hle, hgt, hge]
    cases o <;> decide
  · intro a b c ha hb hc hab hbc
    rw [Heap.holds_lt_iff ha hb] at hab
    rw [Heap.holds_lt_iff hb hc] at hbc
    exact (Heap.holds_lt_iff ha hc).mpr (hab.trans ha hb hc rfl hbc rfl)
  · intro a a' b b' ha ha' hb hb' haa' hbb' op hop
    rw [Heap.holds_eq_iff] at haa' hbb'
    rw [Heap.raises_iff hop ha hb, Heap.raises_iff hop ha' hb', Heap.holds_iff hop ha hb,
      Heap.holds_iff hop ha' hb']
    simp only [Heap.ordered_congr ha ha' hb hb' haa' hbb', and_self]

/-- Three lists of tuples in ascending order, the second with a truth value where the others
have a number, and a tuple that has no order with any of these. -/
theorem lists_of_tuples_are_ordered :
    let x : Value := .str (.made 0) "x"
    let y : Value := .str (.made 1) "y"
    let h : Heap :=
      { lists := ⟨#[#[.tuple (.made 2) [.int 1, x]], #[.tuple (.made 3) [.bool true, y]],
          #[.tuple (.made 4) [.int 1, y], .none]]⟩ }
    let t : Value := .tuple (.made 5) [.list ⟨0⟩]
    (h.Grounded (.list ⟨0⟩) ∧ h.Grounded (.list ⟨1⟩) ∧ h.Grounded (.list ⟨2⟩) ∧ h.Grounded t ∧
        h.Holds .lt (.list ⟨0⟩) (.list ⟨1⟩) ∧ h.Holds .lt (.list ⟨1⟩) (.list ⟨2⟩) ∧
        h.Raises .lt t (.list ⟨2⟩)) ∧
      h.Holds .lt (.list ⟨0⟩) (.list ⟨2⟩) ∧ ¬ h.Holds .eq (.list ⟨0⟩) (.list ⟨1⟩) ∧
        h.Raises .ge (.list ⟨2⟩) t := by
  intro x y h t
  have hpair (i : Ident) (v w : Value) (hv : v.isAtom = true) (hw : w.isAtom = true) :
      h.Nested 1 (.tuple i [v, w]) := by
    refine .tuple fun u hu => ?_
    rcases List.mem_pair.mp hu with rfl | rfl
    · exact .atom hv
    · exact .atom hw
  have h₀ : h.Nested 2 (.list ⟨0⟩) :=
    .list rfl fun v hv => List.mem_singleton.mp hv ▸ hpair _ _ _ rfl rfl
  have h₁ : h.Nested 2 (.list ⟨1⟩) :=
    .list rfl fun v hv => List.mem_singleton.mp hv ▸ hpair _ _ _ rfl rfl
  have h₂ : h.Nested 2 (.list ⟨2⟩) := by
    refine .list rfl fun v hv => ?_
    rcases List.mem_pair.mp hv with rfl | rfl
    · exact hpair _ _ _ rfl rfl
    · exact .atom rfl
  have ht : h.Nested 2 t := .tuple fun v hv => List.mem_singleton.mp hv ▸ h₀
  have hlt₁ : h.Holds .lt (.list ⟨0⟩) (.list ⟨1⟩) := by rw [Heap.Holds]; rfl
  have hlt₂ : h.Holds .lt (.list ⟨1⟩) (.list ⟨2⟩) := by rw [Heap.Holds]; rfl
  have hraises : h.Raises .lt t (.list ⟨2⟩) := ⟨_, rfl, rfl⟩
  obtain ⟨pairs, trans, -⟩ := ordering_is_coherent h
  obtain ⟨-, -, one⟩ := pairs _ _ ⟨2, h₀⟩ ⟨2, h₁⟩
  obtain ⟨-, raises, -⟩ := pairs _ _ ⟨2, ht⟩ ⟨2, h₂⟩
  have hdefined : ¬ h.Raises .lt (.list ⟨0⟩) (.list ⟨1⟩) := by
    rintro ⟨c, hraised, -⟩
    rw [hlt₁] at hraised
    cases hraised
  have hne : ¬ h.Holds .eq (.list ⟨0⟩) (.list ⟨1⟩) := by
    rcases (one hdefined).1 with ⟨-, hne, -⟩ | ⟨hnlt, -⟩ | ⟨hnlt, -⟩
    · exact hne
    · exact absurd hlt₁ hnlt
    · exact absurd hlt₁ hnlt
  exact ⟨⟨⟨2, h₀⟩, ⟨2, h₁⟩, ⟨2, h₂⟩, ⟨2, ht⟩, hlt₁, hlt₂, hraises⟩,
    trans _ _ _ ⟨2, h₀⟩ ⟨2, h₁⟩ ⟨2, h₂⟩ hlt₁ hlt₂, hne,
    (raises .lt (by decide) .ge (by decide)).2.mp hraises⟩

end StackVM
