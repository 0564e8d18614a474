/-
What operations on values fail for. The depth of calls is none of it: no operator, no access to an
item, no builtin function and no binding of arguments depends on the number of active frames.

* `Throws`, `Fails`: every failure of a computation has a property;
* `Cause.Flat`: a cause other than the depth of calls;
* `Value.getItem_flat`, `Value.compareOp_flat`, `Value.binary_flat`, ...: **operations on values**
  fail for such causes only;
* `Builtin.call_flat`, `Signature.bind_flat`, `Frame.make_flat`: so do the parts of calls;
* `Const.load_flat`: and so do constants.
-/
import StackVM.Machine.Execute
import StackVM.Proofs.Outcome

namespace StackVM

/-! ### Failures of computations -/

section Rules

variable {ε σ α β : Type} {P : ε → Prop}

/-- Every failure of `x` has the property `P`. -/
def Throws (P : ε → Prop) (x : EStateM ε σ α) : Prop :=
  ∀ s e s', x s = .error e s' → P e

/-- Every failure of a result has the property `P`. -/
def Fails (P : ε → Prop) (x : Except ε α) : Prop :=
  ∀ e, x = .error e → P e

namespace Throws

lemma bind {x : EStateM ε σ α} {f : α → EStateM ε σ β} (hx : Throws P x)
    (hf : ∀ a, Throws P (f a)) : Throws P (x >>= f) := by
  intro s e s'' h
  rcases bind_error_iff.mp h with h₁ | ⟨a, s', -, h₂⟩
  · exact hx s e s'' h₁
  · exact hf a s' e s'' h₂

lemma throw {e : ε} (he : P e) : Throws P (throw e : EStateM ε σ α) := by
  intro s e' s' h
  cases h
  exact he

lemma pure (a : α) : Throws P (Pure.pure a : EStateM ε σ α) := by
  intro s e s' h
  cases h

lemma get : Throws P (get : EStateM ε σ σ) := by
  intro s e s' h
  cases h

lemma modifyGet (g : σ → α × σ) : Throws P (MonadState.modifyGet g : EStateM ε σ α) := by
  intro s e s' h
  cases h

lemma map {x : EStateM ε σ α} (hx : Throws P x) (g : α → β) : Throws P (g <$> x) := by
  rw [map_eq_pure_bind]
  exact hx.bind fun a => .pure (g a)

lemma mono {Q : ε → Prop} {x : EStateM ε σ α} (hx : Throws P x) (h : ∀ e, P e → Q e) :
    Throws Q x :=
  fun s e s' hrun => h e (hx s e s' hrun)

end Throws

namespace Fails

lemma ok (a : α) : Fails P (.ok a : Except ε α) := by
  intro e h
  cases h

lemma error {e : ε} (he : P e) : Fails P (.error e : Except ε α) := by
  intro e' h
  cases h
  exact he

lemma bind {x : Except ε α} {f : α → Except ε β} (hx : Fails P x)
    (hf : ∀ a, Fails P (f a)) : Fails P (x >>= f) := by
  cases x with
  | ok a => exact hf a
  | error e => exact .error (hx e rfl)

lemma map {x : Except ε α} (hx : Fails P x) (g : α → β) : Fails P (x.map g) := by
  cases x with
  | ok a => exact .ok _
  | error e => exact .error (hx e rfl)

end Fails

end Rules

/-- The cause of a failure is not the depth of calls. -/
@[grind] def Cause.Flat : Cause → Prop
  | .recursionLimit => False
  | _ => True

namespace Eval

variable {α : Type}

lemma ofExcept_flat {x : Except Cause α} (hx : Fails Cause.Flat x) :
    Throws Cause.Flat (Eval.ofExcept x) := by
  cases x with
  | ok a => exact .pure a
  | error c => exact .throw (hx c rfl)

/-- The limit of the size of a sequence has nothing to do with the depth of calls. -/
lemma checkSequence_flat (items itemBytes : Nat) :
    Throws Cause.Flat (ofLimit (checkSequence items itemBytes)) := by
  rw [checkSequence]
  split
  · exact .pure _
  · exact .throw trivial

lemma checkRepeated_flat (size count itemBytes : Nat) :
    Throws Cause.Flat (ofLimit (checkRepeated size count itemBytes)) := by
  rw [checkRepeated]
  split
  · exact checkSequence_flat _ _
  · exact .throw trivial

lemma freshIdent_flat : Throws Cause.Flat freshIdent :=
  .modifyGet _

lemma newStr_flat (s : String) : Throws Cause.Flat (newStr s) :=
  freshIdent_flat.bind fun _ => .pure _

lemma newTuple_flat (items : List Value) : Throws Cause.Flat (newTuple items) :=
  freshIdent_flat.bind fun _ => .pure _

lemma newException_flat (cls : ExcClass) (arg : Option String) :
    Throws Cause.Flat (newException cls arg) :=
  freshIdent_flat.bind fun _ => .pure _

end Eval

/-! ### Items -/

lemma Value.iterator_flat (v : Value) : Throws Cause.Flat v.iterator := by
  cases v with
  | dict r => exact Throws.get.bind fun _ => .pure _
  | range | list | tuple | str => exact .pure _
  | _ => exact .throw trivial

namespace Iter

lemma next_flat (it : Iter) : Throws Cause.Flat it.next := by
  cases it with
  | range r index =>
      rw [next]
      split <;> exact .pure _
  | list r index => exact Throws.get.bind fun _ => .pure _
  | tuple items index => exact .pure _
  | dict r size index =>
      refine Throws.get.bind fun h => ?_
      dsimp only
      split
      · exact .pure _
      · exact .throw trivial
  | str text offset =>
      rw [next]
      split
      · exact (Eval.newStr_flat _).bind fun _ => .pure _
      · exact .pure _

lemma takeOnto_flat (n : Nat) (it : Iter) (taken : Array Value) :
    Throws Cause.Flat (it.takeOnto n taken) := by
  induction n generalizing it taken with
  | zero => exact .pure _
  | succ n ih =>
      refine (next_flat it).bind fun step => ?_
      cases step with
      | none => exact .pure _
      | some step => exact ih step.2 (taken.push step.1)

lemma drain_flat (it : Iter) : Throws Cause.Flat it.drain :=
  Throws.get.bind fun _ => (Eval.checkSequence_flat _ _).bind fun _ => takeOnto_flat _ it #[]

end Iter

namespace Value

lemma items_flat (v : Value) : Throws Cause.Flat v.items :=
  (iterator_flat v).bind fun it => (Iter.drain_flat it).bind fun _ => .pure _

lemma collect_flat (v : Value) : Throws Cause.Flat v.collect := by
  cases v with
  | iter r =>
      refine Throws.get.bind fun h => (Iter.drain_flat _).bind fun drained => ?_
      exact Throws.bind (.modifyGet _) fun _ => .pure _
  | _ => exact items_flat _

/-! ### Reading and comparing -/

lemma hashKey_flat (v : Value) : Throws Cause.Flat v.hashKey := by
  rw [hashKey]
  split
  · exact .pure _
  · exact .throw trivial

lemma position_flat (t : TypeTag) (key : Value) (size : Nat) :
    Throws Cause.Flat (position t key size) := by
  rw [position]
  split
  · exact .throw trivial
  · split
    · exact .pure _
    · exact .throw trivial

lemma itemAt_flat (t : TypeTag) (item : Option Value) : Throws Cause.Flat (itemAt t item) := by
  cases item with
  | none => exact .throw trivial
  | some v => exact .pure v

lemma contains_flat (v item : Value) : Throws Cause.Flat (v.contains item) := by
  rw [contains.eq_def]
  split
  · exact .pure _
  · exact .throw trivial
  · exact Throws.get.bind fun h => .pure _
  · exact Throws.get.bind fun h => Throws.get.bind fun h' => .pure _
  · exact Throws.get.bind fun h => (hashKey_flat item).bind fun k => .pure _
  · exact .pure _
  · exact .throw trivial

lemma getItem_flat (v key : Value) : Throws Cause.Flat (v.getItem key) := by
  rw [getItem.eq_def]
  split
  · refine Throws.get.bind fun h => (hashKey_flat key).bind fun k => ?_
    split
    · exact .pure _
    · exact Throws.get.bind fun h' => .throw trivial
  · exact Throws.get.bind fun h => (position_flat _ key _).bind fun i => itemAt_flat _ _
  · exact (position_flat _ key _).bind fun i => itemAt_flat _ _
  · refine (position_flat _ key _).bind fun i => ?_
    split
    · exact Eval.newStr_flat _
    · exact .throw trivial
  · split
    · exact .throw trivial
    · exact itemAt_flat _ _
  · exact .throw trivial

lemma setItem_flat (v key value : Value) : Throws Cause.Flat (v.setItem key value) := by
  cases v with
  | dict r => exact (hashKey_flat key).bind fun k => .modifyGet _
  | list r =>
      rw [setItem.eq_def]
      dsimp only
      split
      · exact .throw trivial
      · refine Throws.get.bind fun h => ?_
        split
        · exact .modifyGet _
        · exact .throw trivial
  | _ => exact .throw trivial

lemma deleteItem_flat (v key : Value) : Throws Cause.Flat (v.deleteItem key) := by
  cases v with
  | dict r =>
      refine (hashKey_flat key).bind fun k => Throws.get.bind fun h => ?_
      split
      · exact .modifyGet _
      · exact Throws.get.bind fun h' => .throw trivial
  | list r => exact Throws.get.bind fun h => (position_flat _ key _).bind fun i => .modifyGet _
  | _ => exact .throw trivial

lemma ordered_flat (op : CompareOp) (l r : Value) : Throws Cause.Flat (ordered op l r) := by
  rw [ordered.eq_def]
  split
  · exact .pure _
  · refine Throws.get.bind fun h => ?_
    split
    · exact .pure _
    · exact .throw trivial

lemma isCaughtBy_flat (exc handler : Value) : Throws Cause.Flat (exc.isCaughtBy handler) := by
  rw [isCaughtBy.eq_def]
  dsimp only
  split
  · exact .pure _
  · exact .throw trivial

lemma compareOp_flat (op : CompareOp) (l r : Value) : Throws Cause.Flat (compareOp op l r) := by
  cases op with
  | eq | ne => exact Throws.get.bind fun h => .pure _
  | lt => exact ordered_flat .lt l r
  | le => exact ordered_flat .le l r
  | gt => exact ordered_flat .gt l r
  | ge => exact ordered_flat .ge l r
  | isIn => exact contains_flat r l
  | notIn => exact (contains_flat r l).bind fun b => .pure _
  | is | isNot => exact .pure _
  | exceptionMatch => exact isCaughtBy_flat l r

end Value

/-! ### Operators -/

lemma checked_flat (i : Option Int64) : Fails Cause.Flat (checked i) := by
  cases i <;> grind [Fails, checked]

lemma checkedInt_flat (i : Int) : Fails Cause.Flat (checkedInt i) :=
  checked_flat (Word.ofInt? i)

lemma trueQuotient_flat (a b : Double) : Fails Cause.Flat (trueQuotient a b) := by
  grind [Fails, trueQuotient]

namespace ArithOp

lemma onInts_flat (op : ArithOp) (a b : Int64) : Fails Cause.Flat (op.onInts a b) := by
  cases op <;> grind [Fails, onInts, checked_flat, checkedInt_flat, trueQuotient_flat]

lemma onFloats_flat (op : ArithOp) (a b : Double) :
    ∀ x ∈ op.onFloats a b, Fails Cause.Flat x := by
  cases op <;> grind [Fails, onFloats, trueQuotient_flat]

lemma onNumbers_flat (op : ArithOp) (l r : Value) :
    ∀ x ∈ op.onNumbers l r, Fails Cause.Flat x := by
  intro x hx
  rw [onNumbers] at hx
  split at hx
  · cases hx
    exact onInts_flat op _ _
  · split at hx
    · exact onFloats_flat op _ _ x hx
    · cases hx

lemma onScalars_flat (op : ArithOp) (l r : Value) :
    ∀ x ∈ op.onScalars l r, Fails Cause.Flat x := by
  intro x hx
  rw [onScalars.eq_def] at hx
  split at hx
  · split at hx
    · cases hx
      exact .ok _
    · exact onNumbers_flat op _ _ x hx
  · exact onNumbers_flat op _ _ x hx

end ArithOp

namespace Value

lemma repeated_flat (seq : Value) (count : Int64) : Throws Cause.Flat (seq.repeated count) := by
  cases seq with
  | str ident s =>
      exact (Eval.checkRepeated_flat _ _ _).bind fun _ => (Eval.newStr_flat _).bind fun v => .pure _
  | list r =>
      refine Throws.get.bind fun h => (Eval.checkRepeated_flat _ _ _).bind fun _ => ?_
      exact Throws.bind (.modifyGet _) fun v => .pure _
  | tuple ident items =>
      exact (Eval.checkRepeated_flat _ _ _).bind fun _ =>
        (Eval.newTuple_flat _).bind fun v => .pure _
  | _ => exact .pure _

lemma joined_flat (l r : Value) : Throws Cause.Flat (l.joined r) := by
  rw [joined.eq_def]
  split
  · exact (Eval.newStr_flat _).bind fun v => .pure _
  · refine Throws.get.bind fun h => Throws.get.bind fun h' => ?_
    exact Throws.bind (.modifyGet _) fun v => .pure _
  · exact (Eval.newTuple_flat _).bind fun v => .pure _
  · exact .pure _

lemma onSequences_flat (op : ArithOp) (l r : Value) : Throws Cause.Flat (onSequences op l r) := by
  rw [onSequences.eq_def]
  split
  · exact joined_flat l r
  · split
    · exact repeated_flat l _
    · exact repeated_flat r _
    · exact .pure _
  · exact .pure _

lemma arith_flat (op : ArithOp) (symbol : String) (l r : Value) :
    Throws Cause.Flat (arith op symbol l r) := by
  have hscalars := ArithOp.onScalars_flat op l r
  have harith : Throws Cause.Flat (arith? op l r) := by
    rw [arith?.eq_def]
    split
    · exact .pure _
    next c hc => exact .throw (hscalars _ hc c rfl)
    · exact onSequences_flat op l r
  refine harith.bind fun v => ?_
  cases v with
  | some v => exact .pure v
  | none => exact .throw trivial

lemma binary_flat (op : ArithOp) (l r : Value) : Throws Cause.Flat (l.binary op r) :=
  arith_flat op op.symbol l r

lemma inplace_flat (op : ArithOp) (l r : Value) : Throws Cause.Flat (l.inplace op r) := by
  rw [inplace.eq_def]
  split
  · have hextend : ∀ dest, Throws Cause.Flat (extend dest r) := fun dest =>
      (collect_flat r).bind fun items => Throws.get.bind fun h =>
        (Eval.checkSequence_flat _ _).bind fun _ => .modifyGet _
    exact (hextend _).bind fun _ => .pure _
  · exact arith_flat op _ l r

lemma unary_flat (op : UnaryOp) (v : Value) : Throws Cause.Flat (v.unary op) := by
  rw [unary.eq_def]
  split
  · exact Throws.get.bind fun h => .pure _
  · exact .pure _
  · exact .pure _
  · split
    · exact .throw trivial
    · split
      · split
        · exact .pure _
        next c hc => exact .throw (checkedInt_flat _ c hc)
      · exact .pure _
      · exact .pure _

end Value

/-! ### Calls -/

namespace Args

lemma checkNoKeywords_flat (a : Args) (function : String) :
    Throws Cause.Flat (a.checkNoKeywords function) := by
  rw [checkNoKeywords]
  split
  · exact .pure _
  · exact .throw trivial

lemma one_flat (a : Args) (function : String) : Throws Cause.Flat (a.one function) := by
  refine (checkNoKeywords_flat a function).bind fun _ => ?_
  split
  · exact .pure _
  · exact .throw trivial

lemma atMostOne_flat (a : Args) (function : String) :
    Throws Cause.Flat (a.atMostOne function) := by
  refine (checkNoKeywords_flat a function).bind fun _ => ?_
  split
  · exact .pure _
  · exact .pure _
  · exact .throw trivial

lemma oneOrTwo_flat (a : Args) (function : String) :
    Throws Cause.Flat (a.oneOrTwo function) := by
  refine (checkNoKeywords_flat a function).bind fun _ => ?_
  split
  · exact .throw trivial
  · exact .pure _
  · exact .pure _
  · exact .throw trivial

end Args

lemma Keyword.ofPairs_flat : ∀ vs : List Value, Fails Cause.Flat (Keyword.ofPairs vs)
  | [] => .ok _
  | [v] => by cases v <;> exact .ok _
  | v :: w :: vs => by
      cases v with
      | str ident name => exact (Keyword.ofPairs_flat vs).map _
      | _ => exact .error trivial

namespace Builtin

lemma toInt_flat (v : Value) : Fails Cause.Flat (toInt v) := by
  cases v <;> grind [Fails, toInt, truncated]

lemma toFloat_flat (v : Value) : Fails Cause.Flat (toFloat v) := by
  cases v <;> grind [Fails, toFloat]

lemma absolute_flat (v : Value) : Fails Cause.Flat (absolute v) := by
  cases v <;> grind [Fails, absolute]

lemma length_flat (h : Heap) (v : Value) : Fails Cause.Flat (length h v) := by
  grind [Fails, length]

lemma toRange_flat (vs : List Value) : Fails Cause.Flat (toRange vs) := by
  have hintegers : Fails Cause.Flat (integers vs) := by
    induction vs with
    | nil => exact .ok _
    | cons v vs ih =>
        rw [integers]
        split
        · exact .error trivial
        · exact ih.map _
  refine hintegers.bind fun is => ?_
  split
  · exact .error trivial
  · exact .ok _
  · exact .ok _
  · split
    · exact .ok _
    · exact .error trivial
  · exact .error trivial

lemma best_flat (e : Extreme) (h : Heap) (v : Value) (ws : List Value) :
    Fails Cause.Flat (best e h v ws) := by
  induction ws generalizing v with
  | nil => exact .ok v
  | cons w ws ih =>
      rw [best]
      split
      · exact .error trivial
      · exact ih _

lemma extreme_flat (e : Extreme) (args : Args) : Throws Cause.Flat (extreme e args) := by
  rw [extreme.eq_def]
  extract_lets pick
  have hpick : ∀ items, Throws Cause.Flat (pick items) := by
    intro items
    cases items with
    | nil => exact .throw trivial
    | cons v vs =>
        refine Throws.get.bind fun h => ?_
        split
        · exact .pure _
        next c hc => exact .throw (best_flat e h v vs c hc)
  refine (Args.checkNoKeywords_flat args _).bind fun _ => ?_
  split
  · exact Throws.bind (.throw trivial) hpick
  · exact (Value.items_flat _).bind fun items => Throws.bind (.pure _) hpick
  · exact Throws.bind (.pure _) hpick

lemma addItems_flat (n : Nat) (it : Iter) (acc : Value) :
    Throws Cause.Flat (addItems n it acc) := by
  induction n generalizing it acc with
  | zero => exact .pure acc
  | succ n ih =>
      refine (Iter.next_flat it).bind fun step => ?_
      cases step with
      | none => exact .pure acc
      | some step => exact (Value.binary_flat .add acc step.1).bind fun w => ih step.2 w

lemma total_flat (args : Args) : Throws Cause.Flat (total args) := by
  refine (Args.oneOrTwo_flat args _).bind fun given => ?_
  obtain ⟨v, start⟩ := given
  have hsum : ∀ acc, Throws Cause.Flat
      (v.iterator >>= fun it => get >>= fun h => addItems (it.sizeHint h + 1) it acc) := by
    intro acc
    exact (Value.iterator_flat v).bind fun it => Throws.get.bind fun h => addItems_flat _ it acc
  dsimp only
  split
  · exact Throws.bind (.throw trivial) hsum
  · exact Throws.bind (.pure _) hsum
  · exact Throws.bind (.pure _) hsum

lemma evaluate_flat (b : Builtin) (args : Args) : Throws Cause.Flat (b.evaluate args) := by
  cases b with
  | print => exact .pure _
  | len =>
      refine Throws.get.bind fun h => (Args.one_flat args _).bind fun v => ?_
      exact Eval.ofExcept_flat (length_flat h v)
  | range =>
      refine (Args.checkNoKeywords_flat args _).bind fun _ => ?_
      exact Eval.ofExcept_flat (toRange_flat _)
  | abs => exact (Args.one_flat args _).bind fun v => Eval.ofExcept_flat (absolute_flat v)
  | str =>
      refine (Args.atMostOne_flat args _).bind fun v => ?_
      cases v with
      | some v => exact Throws.get.bind fun h => Eval.newStr_flat _
      | none => exact Eval.newStr_flat _
  | repr =>
      exact (Args.one_flat args _).bind fun v => Throws.get.bind fun h => Eval.newStr_flat _
  | int =>
      refine (Args.atMostOne_flat args _).bind fun v => ?_
      cases v with
      | some v => exact Eval.ofExcept_flat (toInt_flat v)
      | none => exact .pure _
  | float =>
      refine (Args.atMostOne_flat args _).bind fun v => ?_
      cases v with
      | some v => exact Eval.ofExcept_flat (toFloat_flat v)
      | none => exact .pure _
  | bool =>
      refine (Args.atMostOne_flat args _).bind fun v => ?_
      cases v with
      | some v => exact Throws.get.bind fun h => .pure _
      | none => exact .pure _
  | list =>
      refine (Args.atMostOne_flat args _).bind fun v => ?_
      cases v with
      | some v => exact (Value.collect_flat v).bind fun items => .modifyGet _
      | none => exact .modifyGet _
  | tuple =>
      refine (Args.atMostOne_flat args _).bind fun v => ?_
      cases v with
      | some v => exact (Value.collect_flat v).bind fun items => Eval.newTuple_flat _
      | none => exact Eval.newTuple_flat _
  | min => exact extreme_flat .least args
  | max => exact extreme_flat .greatest args
  | sum => exact total_flat args

lemma ofKeywords_flat (h : Heap) (o : PrintOptions) (ks : List Keyword) :
    Fails Cause.Flat (PrintOptions.ofKeywords h o ks) := by
  have htext : ∀ option preset v, Fails Cause.Flat (optionText option preset v) := by
    intro option preset v
    cases v <;> grind [Fails, optionText]
  induction ks generalizing o with
  | nil => exact .ok o
  | cons k ks ih =>
      have hset : Fails Cause.Flat (o.set h k) := by
        rw [PrintOptions.set]
        split
        · exact (htext _ _ _).map _
        · split
          · exact (htext _ _ _).map _
          · split
            · exact .ok _
            · exact .error trivial
      rw [PrintOptions.ofKeywords]
      split
      · exact ih _
      next c hc => exact .error (hset c hc)

lemma printed_flat (h : Heap) (args : Args) : Fails Cause.Flat (printed h args) := by
  rw [printed]
  split
  next c hc => exact .error (ofKeywords_flat h _ _ c hc)
  · exact .ok _

lemma call_flat (b : Builtin) (args : Args) : Throws Cause.Flat (b.call args) := by
  rw [call.eq_def]
  split
  · refine Throws.get.bind fun h => ?_
    exact (Eval.ofExcept_flat (printed_flat h args)).bind fun os => .pure _
  · exact (evaluate_flat _ args).bind fun v => .pure _

end Builtin

lemma ExcClass.call_flat (c : ExcClass) (args : Args) : Throws Cause.Flat (c.call args) := by
  refine (Args.atMostOne_flat args _).bind fun v => ?_
  cases v with
  | none => exact (Eval.newException_flat c none).bind fun e => .pure _
  | some v => exact Throws.get.bind fun h => (Eval.newException_flat c _).bind fun e => .pure _

namespace Signature

lemma fillKeywords_flat (s : Signature) (function : String) (slots : Slots) (ks : List Keyword) :
    Fails Cause.Flat (s.fillKeywords function slots ks) := by
  induction ks generalizing slots with
  | nil => exact .ok slots
  | cons k ks ih =>
      have hone : Fails Cause.Flat (s.fillKeyword function slots k) := by
        grind [Fails, fillKeyword]
      rw [fillKeywords]
      split
      · exact ih _
      next c hc => exact .error (hone c hc)

lemma bindParams_flat (s : Signature) (function : String) (defaults : List Value)
    (kwdefaults : List (String × Value)) (args : Args) :
    Fails Cause.Flat (s.bindParams function defaults kwdefaults args) := by
  rw [bindParams]
  split
  · exact .error trivial
  · refine (fillKeywords_flat s function _ _).bind fun slots => ?_
    dsimp only
    split
    · exact .error trivial
    · split
      · exact .error trivial
      · exact .ok _

lemma bind_flat (s : Signature) (function : String) (defaults : List Value)
    (kwdefaults : List (String × Value)) (args : Args) :
    Throws Cause.Flat (s.bind function defaults kwdefaults args) := by
  rw [Signature.bind.eq_def]
  split
  next c hc => exact .throw (bindParams_flat s function defaults kwdefaults args c hc)
  · extract_lets last
    have hlast : ∀ rest, Throws Cause.Flat (last rest) := by
      intro rest
      cases h : s.varkeywords with
      | some name =>
          simp only [last, h]
          exact Throws.bind (.modifyGet _) fun d => Throws.bind (.pure _) fun keywords => .pure _
      | none =>
          simp only [last, h]
          exact Throws.bind (.pure _) fun keywords => .pure _
    split
    · exact (Eval.newTuple_flat _).bind fun t => Throws.bind (.pure _) hlast
    · exact Throws.bind (.pure _) hlast

end Signature

/-! ### New frames and constants -/

lemma Eval.newCells_flat (contents : List (Option Value)) :
    Throws Cause.Flat (Eval.newCells contents) := by
  induction contents with
  | nil => exact .pure _
  | cons c cs ih => exact Throws.bind (.modifyGet _) fun cell => ih.bind fun _ => .pure _

lemma Frame.make_flat (code : CodeObject) (globals locals : Option (Ref .namespace))
    (builtins : Ref .namespace) (closure : List (Ref .cell)) :
    Throws Cause.Flat (Frame.make code globals locals builtins closure) := by
  rw [Frame.make.eq_def]
  extract_lets free rest
  have hrest : ∀ g, Throws Cause.Flat (rest g) := fun g =>
    Throws.get.bind fun h => (Eval.newCells_flat _).bind fun own =>
      (Eval.newCells_flat _).bind fun lacking => .pure _
  cases globals with
  | some g => exact Throws.bind (.pure g) hrest
  | none =>
      have hmain : Throws Cause.Flat Eval.newMain :=
        (Eval.newStr_flat _).bind fun _ => .modifyGet _
      exact hmain.bind hrest

mutual

lemma Const.load_flat (owner : Ident) (path : List Nat) :
    ∀ c : Const, Throws Cause.Flat (c.load owner path)
  | .none | .bool _ | .int _ | .float _ | .str _ | .code _ => .pure _
  | .tuple items =>
      (Const.loadAll_flat owner path 0 items).bind fun vs => Eval.newTuple_flat vs

lemma Const.loadAll_flat (owner : Ident) (path : List Nat) (i : Nat) :
    ∀ cs : List Const, Throws Cause.Flat (Const.loadAll owner path i cs)
  | [] => .pure _
  | c :: cs =>
      (Const.load_flat owner (i :: path) c).bind fun _ =>
        (Const.loadAll_flat owner path (i + 1) cs).bind fun _ => .pure _

end

end StackVM
