/-
The evaluation of values leaves the heap intact: reading items, comparisons,
operators, builtin functions, the binding of arguments and the loading of constants.
The three operations that change an object make all their checks first, so that they
leave the heap intact where they fail.

* `getItem_intact`, `compareOp_intact`, `binary_intact`, `unary_intact`: what
  instructions evaluate;
* `setItem_failures`, `deleteItem_failures`, `inplace_failures`: the operations that
  change an object;
* `Builtin.call_intact`, `ExcClass.call_intact`, `Signature.bind_intact`: calls;
* `Const.load_intact`: constants.
-/
import StackVM.Proofs.Intact

namespace StackVM

/-! ### Reading and comparing -/

namespace Value

lemma hashKey_intact (v : Value) : Outcomes Heap.Intact v.hashKey := by
  rw [hashKey]
  split
  · exact .pure _
  · exact .throw _

lemma position_intact (t : TypeTag) (key : Value) (size : Nat) :
    Outcomes Heap.Intact (position t key size) := by
  rw [position]
  split
  · exact .throw _
  · split
    · exact .pure _
    · exact .throw _

lemma itemAt_intact (t : TypeTag) (item : Option Value) :
    Outcomes Heap.Intact (itemAt t item) := by
  cases item with
  | none => exact .throw _
  | some v => exact .pure v

lemma contains_intact (v item : Value) : Outcomes Heap.Intact (v.contains item) := by
  rw [contains.eq_def]
  split
  · exact .pure _
  · exact .throw _
  · exact Outcomes.get.bind fun h => .pure _
  · exact Outcomes.get.bind fun h => Outcomes.get.bind fun h' => .pure _
  · exact Outcomes.get.bind fun h => (hashKey_intact item).bind fun k => .pure _
  · exact .pure _
  · exact .throw _

lemma getItem_intact (v key : Value) : Outcomes Heap.Intact (v.getItem key) := by
  rw [getItem.eq_def]
  split
  · refine Outcomes.get.bind fun h => ?_
    refine (hashKey_intact key).bind fun k => ?_
    split
    · exact .pure _
    · exact Outcomes.get.bind fun h' => .throw _
  · refine Outcomes.get.bind fun h => ?_
    exact (position_intact _ key _).bind fun i => itemAt_intact _ _
  · exact (position_intact _ key _).bind fun i => itemAt_intact _ _
  · refine (position_intact _ key _).bind fun i => ?_
    split
    · exact Eval.newStr_intact _
    · exact .throw _
  · split
    · exact .throw _
    · exact itemAt_intact _ _
  · exact .throw _

lemma ordered_intact (op : CompareOp) (l r : Value) :
    Outcomes Heap.Intact (ordered op l r) := by
  rw [ordered.eq_def]
  split
  · exact .pure _
  · refine Outcomes.get.bind fun h => ?_
    split
    · exact .pure _
    · exact .throw _

lemma isCaughtBy_intact (exc handler : Value) :
    Outcomes Heap.Intact (exc.isCaughtBy handler) := by
  rw [isCaughtBy.eq_def]
  dsimp only
  split
  · exact .pure _
  · exact .throw _

lemma compareOp_intact (op : CompareOp) (l r : Value) :
    Outcomes Heap.Intact (compareOp op l r) := by
  cases op with
  | eq => exact Outcomes.get.bind fun h => .pure _
  | ne => exact Outcomes.get.bind fun h => .pure _
  | lt => exact ordered_intact .lt l r
  | le => exact ordered_intact .le l r
  | gt => exact ordered_intact .gt l r
  | ge => exact ordered_intact .ge l r
  | isIn => exact contains_intact r l
  | notIn => exact (contains_intact r l).bind fun b => .pure _
  | is => exact .pure _
  | isNot => exact .pure _
  | exceptionMatch => exact isCaughtBy_intact l r

/-! ### Operators -/

lemma repeated_intact (seq : Value) (count : Int64) :
    Outcomes Heap.Intact (seq.repeated count) := by
  cases seq with
  | str ident s =>
      refine (Eval.ofLimit_intact _).bind fun _ => ?_
      exact (Eval.newStr_intact _).bind fun v => .pure _
  | list r =>
      refine Outcomes.get.bind fun h => ?_
      refine (Eval.ofLimit_intact _).bind fun _ => ?_
      exact (Eval.newList_intact _).bind fun v => .pure _
  | tuple ident items =>
      refine (Eval.ofLimit_intact _).bind fun _ => ?_
      exact (Eval.newTuple_intact _).bind fun v => .pure _
  | _ => exact .pure _

lemma joined_intact (l r : Value) : Outcomes Heap.Intact (l.joined r) := by
  rw [joined.eq_def]
  split
  · exact (Eval.newStr_intact _).bind fun v => .pure _
  · refine Outcomes.get.bind fun h => Outcomes.get.bind fun h' => ?_
    exact (Eval.newList_intact _).bind fun v => .pure _
  · exact (Eval.newTuple_intact _).bind fun v => .pure _
  · exact .pure _

lemma onSequences_intact (op : ArithOp) (l r : Value) :
    Outcomes Heap.Intact (onSequences op l r) := by
  rw [onSequences.eq_def]
  split
  · exact joined_intact l r
  · split
    · exact repeated_intact l _
    · exact repeated_intact r _
    · exact .pure _
  · exact .pure _

lemma arith?_intact (op : ArithOp) (l r : Value) : Outcomes Heap.Intact (arith? op l r) := by
  rw [arith?.eq_def]
  split
  · exact .pure _
  · exact .throw _
  · exact onSequences_intact op l r

lemma arith_intact (op : ArithOp) (symbol : String) (l r : Value) :
    Outcomes Heap.Intact (arith op symbol l r) := by
  refine (arith?_intact op l r).bind fun v => ?_
  cases v with
  | some v => exact .pure v
  | none => exact .throw _

lemma binary_intact (op : ArithOp) (l r : Value) : Outcomes Heap.Intact (l.binary op r) :=
  arith_intact op op.symbol l r

lemma unary_intact (op : UnaryOp) (v : Value) : Outcomes Heap.Intact (v.unary op) := by
  rw [unary.eq_def]
  split
  · exact Outcomes.get.bind fun h => .pure _
  · exact .pure _
  · exact .pure _
  · split
    · exact .throw _
    · split
      · split
        · exact .pure _
        · exact .throw _
      · exact .pure _
      · exact .pure _

/-! ### Operations that change an object -/

/-- An item that cannot be stored is not stored. -/
lemma setItem_failures (v key value : Value) :
    Failures Heap.Intact (v.setItem key value) := by
  cases v with
  | dict r => exact Failures.bind (hashKey_intact key) fun k => .modifyGet _
  | list r =>
      rw [setItem.eq_def]
      dsimp only
      split
      · exact (Outcomes.throw _).failures
      · refine Failures.bind .get fun h => ?_
        split
        · exact .modifyGet _
        · exact (Outcomes.throw _).failures
  | _ => exact (Outcomes.throw _).failures

/-- An item that cannot be deleted stays. -/
lemma deleteItem_failures (v key : Value) : Failures Heap.Intact (v.deleteItem key) := by
  cases v with
  | dict r =>
      refine Failures.bind (hashKey_intact key) fun k => ?_
      refine Failures.bind .get fun h => ?_
      split
      · exact .modifyGet _
      · exact Failures.bind .get fun h' => (Outcomes.throw _).failures
  | list r =>
      refine Failures.bind .get fun h => ?_
      exact Failures.bind (position_intact _ key _) fun i => .modifyGet _
  | _ => exact (Outcomes.throw _).failures

/-- A list to which no items can be added is as it was: the items are collected and
counted first. -/
lemma extend_failures (dest : Ref .list) (r : Value) :
    Failures Heap.Intact (extend dest r) := by
  refine Failures.bind (collect_intact r) fun items => ?_
  refine Failures.bind .get fun h => ?_
  exact Failures.bind (Eval.ofLimit_intact _) fun _ => .modifyGet _

/-- An operator in place that fails has changed nothing. -/
lemma inplace_failures (op : ArithOp) (l r : Value) :
    Failures Heap.Intact (l.inplace op r) := by
  rw [inplace.eq_def]
  split
  · exact (extend_failures _ r).bind_of_never fun a h e h' hf => by cases hf
  · exact (arith_intact op _ l r).failures

end Value

/-! ### Calls -/

namespace Args

lemma checkNoKeywords_intact (a : Args) (function : String) :
    Outcomes Heap.Intact (a.checkNoKeywords function) := by
  rw [checkNoKeywords]
  split
  · exact .pure _
  · exact .throw _

lemma one_intact (a : Args) (function : String) : Outcomes Heap.Intact (a.one function) := by
  refine (checkNoKeywords_intact a function).bind fun _ => ?_
  split
  · exact .pure _
  · exact .throw _

lemma atMostOne_intact (a : Args) (function : String) :
    Outcomes Heap.Intact (a.atMostOne function) := by
  refine (checkNoKeywords_intact a function).bind fun _ => ?_
  split
  · exact .pure _
  · exact .pure _
  · exact .throw _

lemma oneOrTwo_intact (a : Args) (function : String) :
    Outcomes Heap.Intact (a.oneOrTwo function) := by
  refine (checkNoKeywords_intact a function).bind fun _ => ?_
  split
  · exact .throw _
  · exact .pure _
  · exact .pure _
  · exact .throw _

end Args

namespace Builtin

lemma extreme_intact (e : Extreme) (args : Args) : Outcomes Heap.Intact (extreme e args) := by
  rw [extreme.eq_def]
  extract_lets pick
  have hpick : ∀ items, Outcomes Heap.Intact (pick items) := by
    intro items
    cases items with
    | nil => exact .throw _
    | cons v vs =>
        refine Outcomes.get.bind fun h => ?_
        split
        · exact .pure _
        · exact .throw _
  refine (Args.checkNoKeywords_intact args _).bind fun _ => ?_
  split
  · exact (Outcomes.throw _).bind hpick
  · refine (Value.items_intact _).bind fun items => ?_
    exact (Outcomes.pure _).bind hpick
  · exact (Outcomes.pure _).bind hpick

lemma addItems_intact (n : Nat) (it : Iter) (acc : Value) :
    Outcomes Heap.Intact (addItems n it acc) := by
  induction n generalizing it acc with
  | zero => exact .pure acc
  | succ n ih =>
      refine (Iter.next_intact it).bind fun step => ?_
      cases step with
      | none => exact .pure acc
      | some step => exact (Value.binary_intact .add acc step.1).bind fun w => ih step.2 w

lemma total_intact (args : Args) : Outcomes Heap.Intact (total args) := by
  refine (Args.oneOrTwo_intact args _).bind fun given => ?_
  obtain ⟨v, start⟩ := given
  have hsum : ∀ acc, Outcomes Heap.Intact
      (v.iterator >>= fun it => get >>= fun h => addItems (it.sizeHint h + 1) it acc) := by
    intro acc
    refine (Value.iterator_intact v).bind fun it => ?_
    exact Outcomes.get.bind fun h => addItems_intact _ it acc
  dsimp only
  split
  · exact (Outcomes.throw _).bind hsum
  · exact (Outcomes.pure _).bind hsum
  · exact (Outcomes.pure _).bind hsum

lemma evaluate_intact (b : Builtin) (args : Args) :
    Outcomes Heap.Intact (b.evaluate args) := by
  cases b with
  | print => exact .pure _
  | len =>
      refine Outcomes.get.bind fun h => ?_
      exact (Args.one_intact args _).bind fun v => Eval.ofExcept_intact _
  | range => exact (Args.checkNoKeywords_intact args _).bind fun _ => Eval.ofExcept_intact _
  | abs => exact (Args.one_intact args _).bind fun v => Eval.ofExcept_intact _
  | str =>
      refine (Args.atMostOne_intact args _).bind fun v => ?_
      cases v with
      | some v => exact Outcomes.get.bind fun h => Eval.newStr_intact _
      | none => exact Eval.newStr_intact _
  | repr =>
      refine (Args.one_intact args _).bind fun v => ?_
      exact Outcomes.get.bind fun h => Eval.newStr_intact _
  | int =>
      refine (Args.atMostOne_intact args _).bind fun v => ?_
      cases v with
      | some v => exact Eval.ofExcept_intact _
      | none => exact .pure _
  | float =>
      refine (Args.atMostOne_intact args _).bind fun v => ?_
      cases v with
      | some v => exact Eval.ofExcept_intact _
      | none => exact .pure _
  | bool =>
      refine (Args.atMostOne_intact args _).bind fun v => ?_
      cases v with
      | some v => exact Outcomes.get.bind fun h => .pure _
      | none => exact .pure _
  | list =>
      refine (Args.atMostOne_intact args _).bind fun v => ?_
      cases v with
      | some v => exact (Value.collect_intact v).bind fun items => Eval.newList_intact _
      | none => exact Eval.newList_intact _
  | tuple =>
      refine (Args.atMostOne_intact args _).bind fun v => ?_
      cases v with
      | some v => exact (Value.collect_intact v).bind fun items => Eval.newTuple_intact _
      | none => exact Eval.newTuple_intact _
  | min => exact extreme_intact .least args
  | max => exact extreme_intact .greatest args
  | sum => exact total_intact args

/-- A builtin function leaves the heap intact; what it puts out is for the caller to
put out. -/
lemma call_intact (b : Builtin) (args : Args) : Outcomes Heap.Intact (b.call args) := by
  rw [call.eq_def]
  split
  · refine Outcomes.get.bind fun h => ?_
    exact (Eval.ofExcept_intact _).bind fun os => .pure _
  · exact (evaluate_intact _ args).bind fun v => .pure _

end Builtin

lemma ExcClass.call_intact (c : ExcClass) (args : Args) :
    Outcomes Heap.Intact (c.call args) := by
  refine (Args.atMostOne_intact args _).bind fun v => ?_
  cases v with
  | none => exact (Eval.newException_intact c none).bind fun e => .pure _
  | some v =>
      refine Outcomes.get.bind fun h => ?_
      exact (Eval.newException_intact c _).bind fun e => .pure _

lemma Signature.bind_intact (s : Signature) (function : String) (defaults : List Value)
    (kwdefaults : List (String × Value)) (args : Args) :
    Outcomes Heap.Intact (s.bind function defaults kwdefaults args) := by
  rw [Signature.bind.eq_def]
  split
  · exact .throw _
  · extract_lets last
    have hlast : ∀ rest, Outcomes Heap.Intact (last rest) := by
      intro rest
      cases h : s.varkeywords with
      | some name =>
          simp only [last, h]
          refine (Eval.newDict_intact _).bind fun d => ?_
          exact (Outcomes.pure _).bind fun keywords => .pure _
      | none =>
          simp only [last, h]
          exact (Outcomes.pure _).bind fun keywords => .pure _
    split
    · refine (Eval.newTuple_intact _).bind fun t => ?_
      exact (Outcomes.pure _).bind hlast
    · exact (Outcomes.pure _).bind hlast

/-! ### Constants -/

mutual

/-- A constant is loaded with at most new tuples. -/
lemma Const.load_intact (owner : Ident) (path : List Nat) :
    ∀ c : Const, Outcomes Heap.Intact (c.load owner path)
  | .none | .bool _ | .int _ | .float _ | .str _ | .code _ => .pure _
  | .tuple items =>
      (Const.loadAll_intact owner path 0 items).bind fun vs => Eval.newTuple_intact vs

/-- Constants are loaded with at most new tuples. -/
lemma Const.loadAll_intact (owner : Ident) (path : List Nat) (i : Nat) :
    ∀ cs : List Const, Outcomes Heap.Intact (Const.loadAll owner path i cs)
  | [] => .pure _
  | c :: cs =>
      (Const.load_intact owner (i :: path) c).bind fun _ =>
        (Const.loadAll_intact owner path (i + 1) cs).bind fun _ => .pure _

end

end StackVM
