/-
Written forms are unambiguous. The written form of a value that is built of plain data, strings,
ranges, tuples and lists can be read back: its first character tells the type, a string ends at the
first quote that is not escaped, a number at the first character that is no digit, and what follows
an item tells whether there is another one. So two values with the same written form are the same,
but for the identity of their objects.

* `Shape`: a value without the identity of its objects; `Shape.IsOf`: the shape of a value;
* `Shape.text_eq`: the written form of a value is that of its shape;
* `toString_append_inj`, `Text.quoteList_append_inj`, `Range.text_append_inj`: numbers, strings and
  ranges, with whatever follows them;
* `Text.initial?`, `Shape.exists_initial`: the type that the first character tells;
* `Shape.body_append_inj`: the items of a tuple or list;
* `Shape.tells`: **a written form determines the shape and the rest of the text**;
* `written_forms_are_unambiguous`.
-/
import Mathlib
import StackVM.Proofs.Nesting
import StackVM.Value.Text

namespace StackVM

/-! ### Shapes -/

/-- A value without the identity of its objects. -/
inductive Shape where
  | none
  | bool (b : Bool)
  | int (i : Int64)
  | str (s : String)
  | range (r : Range)
  | tuple (items : List Shape)
  | list (items : List Shape)

namespace Shape

mutual

/-- The shape of a value in a heap. -/
def IsOf (h : Heap) : Shape → Value → Prop
  | .none, v => v = .none
  | .bool b, v => v = .bool b
  | .int i, v => v = .int i
  | .str s, v => ∃ ident, v = .str ident s
  | .range r, v => v = .range r
  | .tuple ts, v => ∃ ident items, v = .tuple ident items ∧ AreOf h ts items
  | .list ts, v => ∃ r items, v = .list r ∧ h.lists.get? r = some items ∧ AreOf h ts items.toList
termination_by structural s => s

/-- The shapes of values, one after the other. -/
def AreOf (h : Heap) : List Shape → List Value → Prop
  | [], vs => vs = []
  | t :: ts, vs => ∃ w ws, vs = w :: ws ∧ IsOf h t w ∧ AreOf h ts ws
termination_by structural ts => ts

end

mutual

/-- The written form of a shape. -/
def text : Shape → String
  | .none => "None"
  | .bool b => Text.bool b
  | .int i => toString i.toInt
  | .str s => Text.quote s
  | .range r => r.text
  | .tuple ts => Text.tuple (texts ts)
  | .list ts => Text.list (texts ts)
termination_by structural s => s

/-- The written forms of shapes. -/
def texts : List Shape → List String
  | [] => []
  | t :: ts => text t :: texts ts
termination_by structural ts => ts

end

end Shape

/-! ### The written form of a value -/

namespace Value

variable (h : Heap) (lists : Ref .list → String) (dicts : Ref .dict → String)

lemma textWith_tuple (i : Ident) (xs : List Value) :
    textWith h lists dicts (.tuple i xs) = Text.tuple (textsWith h lists dicts xs) :=
  rfl

lemma textWith_list (r : Ref .list) : textWith h lists dicts (.list r) = lists r :=
  rfl

lemma textsWith_eq_map (vs : List Value) :
    textsWith h lists dicts vs = vs.map (textWith h lists dicts) := by
  induction vs with
  | nil => rfl
  | cons v vs ih => rw [textsWith, ih, List.map_cons]

end Value

namespace Heap

lemma textWithin_tuple (h : Heap) (n : ℕ) (i : Ident) (xs : List Value) :
    h.textWithin n (.tuple i xs) = Text.tuple (xs.map (h.textWithin n)) := by
  cases n with
  | zero => rw [textWithin, Value.textWith_tuple, Value.textsWith_eq_map]
  | succ n => rw [textWithin, Value.textWith_tuple, Value.textsWith_eq_map]

lemma textWithin_list (h : Heap) (n : ℕ) (r : Ref .list) :
    h.textWithin (n + 1) (.list r) = Text.list ((h.list r).toList.map (h.textWithin n)) := by
  rw [textWithin, Value.textWith_list]

end Heap

namespace Shape

variable {h : Heap}

mutual

/-- A value that has a shape ends. -/
theorem exists_nested : ∀ (s : Shape) (v : Value), s.IsOf h v → ∃ n, h.Nested n v
  | .none, v, hv => ⟨0, .atom (by rw [IsOf] at hv; rw [hv]; rfl)⟩
  | .bool b, v, hv => ⟨0, .atom (by rw [IsOf] at hv; rw [hv]; rfl)⟩
  | .int i, v, hv => ⟨0, .atom (by rw [IsOf] at hv; rw [hv]; rfl)⟩
  | .str s, v, hv => ⟨0, .atom (by rw [IsOf] at hv; obtain ⟨i, rfl⟩ := hv; rfl)⟩
  | .range r, v, hv => ⟨0, .atom (by rw [IsOf] at hv; rw [hv]; rfl)⟩
  | .tuple ts, v, hv => by
      rw [IsOf] at hv
      obtain ⟨i, items, rfl, hitems⟩ := hv
      obtain ⟨n, hn⟩ := exists_nested_all ts items hitems
      exact ⟨n, .tuple hn⟩
  | .list ts, v, hv => by
      rw [IsOf] at hv
      obtain ⟨r, items, rfl, found, hitems⟩ := hv
      obtain ⟨n, hn⟩ := exists_nested_all ts items.toList hitems
      exact ⟨n + 1, .list found hn⟩

theorem exists_nested_all : ∀ (ts : List Shape) (vs : List Value), AreOf h ts vs →
    ∃ n, ∀ v ∈ vs, h.Nested n v
  | [], vs, hvs => by
      rw [AreOf] at hvs
      subst hvs
      exact ⟨0, List.forall_mem_nil _⟩
  | t :: ts, vs, hvs => by
      rw [AreOf] at hvs
      obtain ⟨w, ws, rfl, hw, hws⟩ := hvs
      obtain ⟨n, hn⟩ := exists_nested t w hw
      obtain ⟨m, hm⟩ := exists_nested_all ts ws hws
      refine ⟨max n m, List.forall_mem_cons.mpr ⟨hn.mono (le_max_left n m), fun v hv => ?_⟩⟩
      exact (hm v hv).mono (le_max_right n m)

end

mutual

/-- The written form of a value is that of its shape, if it is looked at deep enough. -/
theorem textWithin_eq : ∀ (s : Shape) (v : Value) (n : ℕ), s.IsOf h v → h.Nested n v →
    h.textWithin n v = s.text
  | .none, v, n, hv, _ => by rw [IsOf] at hv; subst hv; cases n <;> rfl
  | .bool b, v, n, hv, _ => by rw [IsOf] at hv; subst hv; cases n <;> rfl
  | .int i, v, n, hv, _ => by rw [IsOf] at hv; subst hv; cases n <;> rfl
  | .str s, v, n, hv, _ => by rw [IsOf] at hv; obtain ⟨i, rfl⟩ := hv; cases n <;> rfl
  | .range r, v, n, hv, _ => by rw [IsOf] at hv; subst hv; cases n <;> rfl
  | .tuple ts, v, n, hv, hn => by
      rw [IsOf] at hv
      obtain ⟨i, items, rfl, hitems⟩ := hv
      rw [Heap.textWithin_tuple, textsWithin_eq ts items n hitems hn.items, text]
  | .list ts, v, n, hv, hn => by
      rw [IsOf] at hv
      obtain ⟨r, items, rfl, found, hitems⟩ := hv
      obtain ⟨m, rfl, hm⟩ := hn.list_items
      have hlist : h.list r = items := Heap.list_of_get? found
      rw [hlist] at hm
      rw [Heap.textWithin_list, hlist, textsWithin_eq ts items.toList m hitems hm, text]

theorem textsWithin_eq : ∀ (ts : List Shape) (vs : List Value) (n : ℕ), AreOf h ts vs →
    (∀ v ∈ vs, h.Nested n v) → vs.map (h.textWithin n) = texts ts
  | [], vs, n, hvs, _ => by
      rw [AreOf] at hvs
      subst hvs
      rfl
  | t :: ts, vs, n, hvs, hn => by
      rw [AreOf] at hvs
      obtain ⟨w, ws, rfl, hw, hws⟩ := hvs
      obtain ⟨hnw, hnws⟩ := List.forall_mem_cons.mp hn
      rw [List.map_cons, textWithin_eq t w n hw hnw, textsWithin_eq ts ws n hws hnws, texts]

end

/-- **The written form of a value** is that of its shape. -/
lemma text_eq {s : Shape} {v : Value} (hv : s.IsOf h v) : h.text v = s.text :=
  textWithin_eq s v h.nesting hv (Heap.Grounded.nested (exists_nested s v hv))

end Shape

/-! ### Numbers -/

/-- The text does not go on with a digit. -/
def Text.NoDigit (u : List Char) : Prop :=
  ∀ c ∈ u.head?, c.isDigit = false

lemma Text.noDigit_cons {c : Char} (hc : c.isDigit = false) (u : List Char) :
    Text.NoDigit (c :: u) := by
  intro d hd
  cases hd
  exact hc

open Text

/-- The digits of a number end where the text goes on with something else. -/
lemma takeWhile_toDigits_append (n : ℕ) {u : List Char} (hu : NoDigit u) :
    (Nat.toDigits 10 n ++ u).takeWhile Char.isDigit = Nat.toDigits 10 n := by
  have hdigits : ∀ c ∈ Nat.toDigits 10 n, c.isDigit = true := fun c hc =>
    Nat.isDigit_of_mem_toDigits (by decide) (by decide) hc
  rw [List.takeWhile_append_of_pos hdigits]
  cases u with
  | nil => simp
  | cons c u => simp [hu c rfl]

lemma toDigits_append_inj {m n : ℕ} {u v : List Char} (hu : NoDigit u) (hv : NoDigit v)
    (h : Nat.toDigits 10 m ++ u = Nat.toDigits 10 n ++ v) : m = n ∧ u = v := by
  have hdigits : Nat.toDigits 10 m = Nat.toDigits 10 n := by
    calc Nat.toDigits 10 m
        = (Nat.toDigits 10 m ++ u).takeWhile Char.isDigit := (takeWhile_toDigits_append m hu).symm
      _ = (Nat.toDigits 10 n ++ v).takeWhile Char.isDigit := by rw [h]
      _ = Nat.toDigits 10 n := takeWhile_toDigits_append n hv
  rw [hdigits] at h
  refine ⟨?_, List.append_cancel_left h⟩
  rw [← Nat.ofDigitChars_toDigits (b := 10) (n := m) (by decide) (by decide), hdigits,
    Nat.ofDigitChars_toDigits (by decide) (by decide)]

lemma toList_toString_ofNat (n : ℕ) : (toString (Int.ofNat n)).toList = Nat.toDigits 10 n :=
  String.toList_ofList

lemma toList_toString_negSucc (n : ℕ) :
    (toString (Int.negSucc n)).toList = '-' :: Nat.toDigits 10 (n + 1) := by
  rw [Int.toString_eq_repr, Int.repr, String.toList_append]
  exact congrArg ('-' :: ·) String.toList_ofList

/-- A natural number begins with a digit. -/
lemma exists_toDigits_eq_cons (n : ℕ) :
    ∃ c cs, Nat.toDigits 10 n = c :: cs ∧ c.isDigit = true := by
  obtain ⟨c, cs, hcs⟩ := List.exists_cons_of_ne_nil (Nat.toDigits_ne_nil (n := n) (b := 10))
  refine ⟨c, cs, hcs, Nat.isDigit_of_mem_toDigits (b := 10) (n := n) (by decide) (by decide) ?_⟩
  rw [hcs]
  exact List.mem_cons_self

lemma toDigits_append_ne_minus (n : ℕ) (u v : List Char) :
    Nat.toDigits 10 n ++ u ≠ '-' :: v := by
  obtain ⟨c, cs, hcs, hc⟩ := exists_toDigits_eq_cons n
  rw [hcs]
  intro h
  obtain rfl : c = '-' := (List.cons.inj h).1
  cases hc

/-- **A number is determined** by a text that begins with it and does not go on with a digit. -/
lemma toString_append_inj {i j : ℤ} {u v : List Char} (hu : NoDigit u) (hv : NoDigit v)
    (h : (toString i).toList ++ u = (toString j).toList ++ v) : i = j ∧ u = v := by
  cases i with
  | ofNat m =>
      rw [toList_toString_ofNat] at h
      cases j with
      | ofNat n =>
          rw [toList_toString_ofNat] at h
          obtain ⟨rfl, rfl⟩ := toDigits_append_inj hu hv h
          exact ⟨rfl, rfl⟩
      | negSucc n =>
          rw [toList_toString_negSucc] at h
          exact absurd h (toDigits_append_ne_minus m u _)
  | negSucc m =>
      rw [toList_toString_negSucc] at h
      cases j with
      | ofNat n =>
          rw [toList_toString_ofNat] at h
          exact absurd h.symm (toDigits_append_ne_minus n v _)
      | negSucc n =>
          rw [toList_toString_negSucc] at h
          obtain ⟨heq, rfl⟩ := toDigits_append_inj hu hv (List.cons.inj h).2
          cases heq
          exact ⟨rfl, rfl⟩

/-! ### Strings -/

namespace Text

/-- The first character that is written in a text, and the rest of it. -/
def readChar? : List Char → Option (Char × List Char)
  | '\\' :: 'n' :: rest => some ('\n', rest)
  | '\\' :: 't' :: rest => some ('\t', rest)
  | '\\' :: 'r' :: rest => some ('\r', rest)
  | '\\' :: c :: rest => some (c, rest)
  | c :: rest => some (c, rest)
  | [] => none

variable {q : Char}

/-- A character is read back as it was written. -/
lemma readChar?_escapeChar (hq : q = '\'' ∨ q = '"') (c : Char) (rest : List Char) :
    readChar? (escapeChar q c ++ rest) = some (c, rest) := by
  rw [escapeChar]
  split_ifs with hbackslash hfeed htab hreturn hquote
  · subst hbackslash; rfl
  · subst hfeed; rfl
  · subst htab; rfl
  · subst hreturn; rfl
  · subst hquote
    rcases hq with rfl | rfl <;> rfl
  · rw [List.cons_append, List.nil_append, readChar?]
    all_goals simp [hbackslash]

/-- No character is written so that it begins with the quote. -/
lemma escapeChar_append_ne (hq : q = '\'' ∨ q = '"') (c : Char) (u v : List Char) :
    escapeChar q c ++ u ≠ q :: v := by
  have hbackslash : '\\' ≠ q := by rcases hq with rfl | rfl <;> decide
  rw [escapeChar]
  split_ifs with _ _ _ _ hquote <;> simp [hbackslash]
  exact fun h => absurd h hquote

lemma escape_cons (q c : Char) (cs : List Char) :
    escape q (c :: cs) = escapeChar q c ++ escape q cs :=
  List.flatMap_cons

/-- The characters between two quotes are determined by their written form. -/
lemma escape_append_inj (hq : q = '\'' ∨ q = '"') {cs ds u v : List Char}
    (h : escape q cs ++ q :: u = escape q ds ++ q :: v) : cs = ds ∧ u = v := by
  induction cs generalizing ds with
  | nil =>
      cases ds with
      | nil => exact ⟨rfl, (List.cons.inj h).2⟩
      | cons d ds =>
          rw [escape_cons, List.append_assoc] at h
          exact absurd h.symm (escapeChar_append_ne hq d _ _)
  | cons c cs ih =>
      rw [escape_cons, List.append_assoc] at h
      cases ds with
      | nil => exact absurd h (escapeChar_append_ne hq c _ _)
      | cons d ds =>
          rw [escape_cons, List.append_assoc] at h
          have hread := congrArg readChar? h
          rw [readChar?_escapeChar hq, readChar?_escapeChar hq] at hread
          obtain ⟨rfl, hrest⟩ := Prod.mk.inj (Option.some.inj hread)
          obtain ⟨rfl, rfl⟩ := ih hrest
          exact ⟨rfl, rfl⟩

lemma quoteChar_eq (cs : List Char) : quoteChar cs = '\'' ∨ quoteChar cs = '"' := by
  rw [quoteChar]
  split
  · exact .inr rfl
  · exact .inl rfl

/-- **A quoted text is determined**, and ends where the quotes do: the quote that it begins with
tells how it is read. -/
lemma quoteList_append_inj {cs ds u v : List Char}
    (h : quoteList cs ++ u = quoteList ds ++ v) : cs = ds ∧ u = v := by
  rw [quoteList, quoteList] at h
  simp only [List.cons_append, List.append_assoc, List.nil_append, List.cons.injEq] at h
  obtain ⟨hquote, h⟩ := h
  rw [← hquote] at h
  exact escape_append_inj (quoteChar_eq cs) h

end Text

/-! ### Ranges -/

namespace Range

/-- What stands after the two bounds. -/
def closing (r : Range) : List Char :=
  if r.step = 1 then [')'] else ',' :: ' ' :: ((toString r.step.toInt).toList ++ [')'])

lemma toList_text (r : Range) :
    r.text.toList = "range(".toList ++ ((toString r.start.toInt).toList ++
      (',' :: ' ' :: ((toString r.stop.toInt).toList ++ r.closing))) := by
  rw [text, closing]
  split
  · simp [toString]
  · simp [toString]

lemma noDigit_closing (r : Range) (u : List Char) : Text.NoDigit (r.closing ++ u) := by
  rw [closing]
  split
  · exact Text.noDigit_cons rfl _
  · exact Text.noDigit_cons rfl _

lemma closing_append_inj {r s : Range} {u v : List Char}
    (h : r.closing ++ u = s.closing ++ v) : r.step = s.step ∧ u = v := by
  rw [closing, closing] at h
  split_ifs at h with hr hs hs
  · exact ⟨hr.trans hs.symm, (List.cons.inj h).2⟩
  · cases (List.cons.inj h).1
  · cases (List.cons.inj h).1
  · simp only [List.cons_append, List.append_assoc, List.nil_append, List.cons.injEq, true_and] at h
    obtain ⟨hstep, h⟩ := toString_append_inj (Text.noDigit_cons rfl u) (Text.noDigit_cons rfl v) h
    exact ⟨Int64.toInt_inj.mp hstep, (List.cons.inj h).2⟩

/-- **A range is determined** by a text that begins with it. -/
lemma text_append_inj {r s : Range} {u v : List Char}
    (h : r.text.toList ++ u = s.text.toList ++ v) : r = s ∧ u = v := by
  rw [toList_text, toList_text] at h
  simp only [List.append_assoc, List.cons_append, List.append_cancel_left_eq] at h
  obtain ⟨hstart, h⟩ := toString_append_inj (Text.noDigit_cons rfl _) (Text.noDigit_cons rfl _) h
  simp only [List.cons.injEq, true_and] at h
  obtain ⟨hstop, h⟩ := toString_append_inj (r.noDigit_closing u) (s.noDigit_closing v) h
  obtain ⟨hstep, rfl⟩ := closing_append_inj h
  refine ⟨?_, rfl⟩
  cases r
  cases s
  simp_all [Int64.toInt_inj]

end Range

/-! ### Tuples and lists -/

namespace Text

/-- What stands after the first item of a list, or of a tuple with others. -/
def row (close : Char) : List String → List Char
  | [] => [close]
  | x :: xs => ',' :: ' ' :: (x.toList ++ row close xs)

/-- What stands after the first item of a tuple. -/
def tupleRow : List String → List Char
  | [] => [',', ')']
  | x :: xs => row ')' (x :: xs)

lemma intercalate_append_close (close : Char) (x : String) (xs : List String) :
    (", ".intercalate (x :: xs)).toList ++ [close] = x.toList ++ row close xs := by
  induction xs generalizing x with
  | nil => simp [row]
  | cons y ys ih =>
      rw [String.intercalate_cons_cons, String.toList_append, String.toList_append,
        List.append_assoc, ih, row]
      simp

/-- What stands after the opening bracket, where `after` stands after the first item. -/
def body (close : Char) (after : List String → List Char) : List String → List Char
  | [] => [close]
  | x :: xs => x.toList ++ after xs

lemma toList_list (xs : List String) : (Text.list xs).toList = '[' :: body ']' (row ']') xs := by
  cases xs with
  | nil => rfl
  | cons x xs =>
      rw [body, ← intercalate_append_close, Text.list, String.toList_append, String.toList_append]
      rfl

lemma toList_tuple (xs : List String) : (Text.tuple xs).toList = '(' :: body ')' tupleRow xs := by
  cases xs with
  | nil => rfl
  | cons x xs =>
      cases xs with
      | nil =>
          rw [Text.tuple, String.toList_append, String.toList_append]
          rfl
      | cons y ys =>
          rw [body, tupleRow, ← intercalate_append_close, Text.tuple, String.toList_append,
            String.toList_append]
          · rfl
          · simp

lemma noDigit_row {close : Char} (hclose : close.isDigit = false) (xs : List String)
    (u : List Char) : NoDigit (row close xs ++ u) := by
  cases xs with
  | nil => exact noDigit_cons hclose _
  | cons x xs => exact noDigit_cons rfl _

lemma noDigit_tupleRow (xs : List String) (u : List Char) : NoDigit (tupleRow xs ++ u) := by
  cases xs with
  | nil => exact noDigit_cons rfl _
  | cons x xs => exact noDigit_cons rfl _

/-- The type of a value whose written form begins with a character. -/
def initial? (c : Char) : Option TypeTag :=
  if c = 'N' then some .noneType
  else if c = 'T' ∨ c = 'F' then some .bool
  else if c = '\'' ∨ c = '"' then some .str
  else if c = 'r' then some .range
  else if c = '(' then some .tuple
  else if c = '[' then some .list
  else if c = '-' ∨ c.isDigit then some .int
  else none

lemma initial?_of_isDigit {c : Char} (hc : c.isDigit = true) : initial? c = some .int := by
  have hne : ∀ d : Char, d.isDigit = false → c ≠ d := by
    rintro d hd rfl
    rw [hc] at hd
    cases hd
  simp [initial?, hc, hne 'N' rfl, hne 'T' rfl, hne 'F' rfl, hne '\'' rfl, hne '"' rfl, hne 'r' rfl,
    hne '(' rfl, hne '[' rfl]

end Text

namespace Shape

/-- The type of the values of a shape. -/
def typeTag : Shape → TypeTag
  | .none => .noneType
  | .bool _ => .bool
  | .int _ => .int
  | .str _ => .str
  | .range _ => .range
  | .tuple _ => .tuple
  | .list _ => .list

/-- **The first character tells the type.** -/
lemma exists_initial (s : Shape) :
    ∃ c cs, s.text.toList = c :: cs ∧ initial? c = some s.typeTag := by
  cases s with
  | none => exact ⟨'N', _, rfl, rfl⟩
  | bool b => cases b <;> exact ⟨_, _, rfl, rfl⟩
  | int i =>
      rw [text]
      cases i.toInt with
      | ofNat n =>
          obtain ⟨c, cs, hcs, hc⟩ := exists_toDigits_eq_cons n
          exact ⟨c, cs, by rw [toList_toString_ofNat, hcs], initial?_of_isDigit hc⟩
      | negSucc n => exact ⟨'-', _, toList_toString_negSucc n, rfl⟩
  | str s =>
      rw [text, Text.quote, String.toList_ofList, Text.quoteList]
      refine ⟨_, _, rfl, ?_⟩
      rcases Text.quoteChar_eq s.toList with hq | hq <;> rw [hq] <;> rfl
  | range r =>
      rw [text, Range.toList_text]
      exact ⟨'r', _, rfl, rfl⟩
  | tuple ts =>
      rw [text, toList_tuple]
      exact ⟨'(', _, rfl, rfl⟩
  | list ts =>
      rw [text, toList_list]
      exact ⟨'[', _, rfl, rfl⟩

variable {s t : Shape} {u v : List Char}

lemma typeTag_eq (h : s.text.toList ++ u = t.text.toList ++ v) : s.typeTag = t.typeTag := by
  obtain ⟨c, cs, hcs, hc⟩ := s.exists_initial
  obtain ⟨d, ds, hds, hd⟩ := t.exists_initial
  rw [hcs, hds, List.cons_append, List.cons_append] at h
  rw [(List.cons.inj h).1, hd] at hc
  exact (Option.some.inj hc).symm

/-- No written form begins with a character that tells no type. -/
lemma text_append_ne {c : Char} (hc : initial? c = Option.none) (s : Shape) (u v : List Char) :
    s.text.toList ++ u ≠ c :: v := by
  obtain ⟨d, ds, hds, hd⟩ := s.exists_initial
  rw [hds]
  intro h
  rw [(List.cons.inj h).1, hc] at hd
  cases hd

/-! ### Reading back -/

/-- The shape is determined by a text that begins with its written form and does not go on with a
digit, and so is the rest of the text. -/
def Tells (s : Shape) : Prop :=
  ∀ t u v, NoDigit u → NoDigit v → s.text.toList ++ u = t.text.toList ++ v → s = t ∧ u = v

/-- The items after the first are determined by what is written of them. -/
lemma row_append_inj (close : Char) (hdigit : close.isDigit = false) (hcomma : close ≠ ',')
    {ss ts : List Shape} (hss : ∀ s ∈ ss, s.Tells)
    (h : row close (texts ss) ++ u = row close (texts ts) ++ v) : ss = ts ∧ u = v := by
  induction ss generalizing ts with
  | nil =>
      cases ts with
      | nil => exact ⟨rfl, (List.cons.inj h).2⟩
      | cons t ts => exact absurd (List.cons.inj h).1 hcomma
  | cons s ss ih =>
      cases ts with
      | nil => exact absurd (List.cons.inj h).1.symm hcomma
      | cons t ts =>
          obtain ⟨hs, hss⟩ := List.forall_mem_cons.mp hss
          simp only [texts, row, List.cons_append, List.append_assoc, List.cons.injEq,
            true_and] at h
          obtain ⟨rfl, hrow⟩ := hs t _ _ (noDigit_row hdigit _ u) (noDigit_row hdigit _ v) h
          obtain ⟨rfl, rfl⟩ := ih hss hrow
          exact ⟨rfl, rfl⟩

lemma tupleRow_append_inj {ss ts : List Shape} (hss : ∀ s ∈ ss, s.Tells)
    (h : tupleRow (texts ss) ++ u = tupleRow (texts ts) ++ v) : ss = ts ∧ u = v := by
  cases ss with
  | nil =>
      cases ts with
      | nil => exact ⟨rfl, (List.cons.inj (List.cons.inj h).2).2⟩
      | cons t ts => cases (List.cons.inj (List.cons.inj h).2).1
  | cons s ss =>
      cases ts with
      | nil => cases (List.cons.inj (List.cons.inj h).2).1
      | cons t ts => exact row_append_inj ')' rfl (by decide) hss h

/-- All items are determined by what is written of them, if those after the first are. -/
lemma body_append_inj {close : Char} {after : List String → List Char}
    (hclose : initial? close = Option.none) (hdigit : ∀ xs u, NoDigit (after xs ++ u))
    (hafter : ∀ ss ts, (∀ s ∈ ss, s.Tells) → after (texts ss) ++ u = after (texts ts) ++ v →
      ss = ts ∧ u = v)
    {ss ts : List Shape} (hss : ∀ s ∈ ss, s.Tells)
    (h : body close after (texts ss) ++ u = body close after (texts ts) ++ v) :
    ss = ts ∧ u = v := by
  cases ss with
  | nil =>
      cases ts with
      | nil => exact ⟨rfl, (List.cons.inj h).2⟩
      | cons t ts =>
          rw [texts, texts, body, body, List.append_assoc] at h
          exact absurd h.symm (text_append_ne hclose t _ _)
  | cons s ss =>
      rw [texts, body, List.append_assoc] at h
      cases ts with
      | nil => exact absurd h (text_append_ne hclose s _ _)
      | cons t ts =>
          rw [texts, body, List.append_assoc] at h
          obtain ⟨hs, hss⟩ := List.forall_mem_cons.mp hss
          obtain ⟨rfl, hrow⟩ := hs t _ _ (hdigit _ u) (hdigit _ v) h
          obtain ⟨rfl, rfl⟩ := hafter ss ts hss hrow
          exact ⟨rfl, rfl⟩

lemma tells_none : Shape.none.Tells := by
  intro t u v _ _ h
  have htag := typeTag_eq h
  cases t with
  | none => exact ⟨rfl, List.append_cancel_left h⟩
  | _ => cases htag

lemma tells_bool (b : Bool) : (Shape.bool b).Tells := by
  intro t u v _ _ h
  have htag := typeTag_eq h
  cases t with
  | bool b' =>
      cases b <;> cases b'
      · exact ⟨rfl, List.append_cancel_left h⟩
      · cases (List.cons.inj h).1
      · cases (List.cons.inj h).1
      · exact ⟨rfl, List.append_cancel_left h⟩
  | _ => cases htag

lemma tells_int (i : Int64) : (Shape.int i).Tells := by
  intro t u v hu hv h
  have htag := typeTag_eq h
  cases t with
  | int j =>
      obtain ⟨hij, rfl⟩ := toString_append_inj hu hv h
      exact ⟨congrArg _ (Int64.toInt_inj.mp hij), rfl⟩
  | _ => cases htag

lemma tells_str (s : String) : (Shape.str s).Tells := by
  intro t u v _ _ h
  have htag := typeTag_eq h
  cases t with
  | str s' =>
      rw [text, text, Text.quote, Text.quote, String.toList_ofList, String.toList_ofList] at h
      obtain ⟨hs, rfl⟩ := Text.quoteList_append_inj h
      exact ⟨congrArg _ (String.toList_inj.mp hs), rfl⟩
  | _ => cases htag

lemma tells_range (r : Range) : (Shape.range r).Tells := by
  intro t u v _ _ h
  have htag := typeTag_eq h
  cases t with
  | range r' =>
      obtain ⟨rfl, rfl⟩ := Range.text_append_inj h
      exact ⟨rfl, rfl⟩
  | _ => cases htag

lemma tells_tuple {ss : List Shape} (hss : ∀ s ∈ ss, s.Tells) : (Shape.tuple ss).Tells := by
  intro t u v _ _ h
  have htag := typeTag_eq h
  cases t with
  | tuple ts =>
      rw [text, text, toList_tuple, toList_tuple] at h
      obtain ⟨rfl, rfl⟩ := body_append_inj rfl noDigit_tupleRow
        (fun _ _ => tupleRow_append_inj) hss (List.cons.inj h).2
      exact ⟨rfl, rfl⟩
  | _ => cases htag

lemma tells_list {ss : List Shape} (hss : ∀ s ∈ ss, s.Tells) : (Shape.list ss).Tells := by
  intro t u v _ _ h
  have htag := typeTag_eq h
  cases t with
  | list ts =>
      rw [text, text, toList_list, toList_list] at h
      obtain ⟨rfl, rfl⟩ := body_append_inj rfl (noDigit_row rfl)
        (fun _ _ => row_append_inj ']' rfl (by decide)) hss (List.cons.inj h).2
      exact ⟨rfl, rfl⟩
  | _ => cases htag

mutual

/-- **A written form determines the shape and the rest of the text.** -/
theorem tells : ∀ s : Shape, s.Tells
  | .none => tells_none
  | .bool b => tells_bool b
  | .int i => tells_int i
  | .str s => tells_str s
  | .range r => tells_range r
  | .tuple ss => tells_tuple (tells_all ss)
  | .list ss => tells_list (tells_all ss)

theorem tells_all : ∀ ss : List Shape, ∀ s ∈ ss, s.Tells
  | [] => List.forall_mem_nil _
  | s :: ss => List.forall_mem_cons.mpr ⟨tells s, tells_all ss⟩

end

lemma text_injective {s t : Shape} (h : s.text = t.text) : s = t := by
  have hnil : NoDigit [] := fun c hc => by cases hc
  have hchars : s.text.toList ++ [] = t.text.toList ++ [] := by rw [h]
  exact (s.tells t [] [] hnil hnil hchars).1

end Shape

/-- **Written forms are unambiguous.** Values that are built of the none value, truth values,
integers, strings and ranges by tuples and lists, nested to any depth and in whatever heaps, have
the same written form exactly if they have the same shape. -/
theorem written_forms_are_unambiguous {g h : Heap} {a b : Value} {s t : Shape}
    (ha : s.IsOf g a) (hb : t.IsOf h b) : g.text a = h.text b ↔ s = t := by
  rw [Shape.text_eq ha, Shape.text_eq hb]
  exact ⟨Shape.text_injective, congrArg Shape.text⟩

/-- A list with the text that stands between two strings, and a list with two empty strings, each
in a tuple: they are told apart, although only the quotes do so. -/
theorem separator_in_string_is_told_apart :
    let g : Heap := { lists := ⟨#[#[.str (.made 0) "', '"]]⟩ }
    let h : Heap := { lists := ⟨#[#[.str (.made 0) "", .str (.made 1) ""]]⟩ }
    let a : Value := .tuple (.made 2) [.list ⟨0⟩]
    (Shape.tuple [.list [.str "', '"]]).IsOf g a ∧
      (Shape.tuple [.list [.str "", .str ""]]).IsOf h a ∧ g.text a ≠ h.text a := by
  intro g h a
  have hg : (Shape.tuple [.list [.str "', '"]]).IsOf g a :=
    ⟨_, _, rfl, _, _, rfl, ⟨_, _, rfl, rfl, _, _, rfl, ⟨_, rfl⟩, rfl⟩, rfl⟩
  have hh : (Shape.tuple [.list [.str "", .str ""]]).IsOf h a :=
    ⟨_, _, rfl, _, _, rfl, ⟨_, _, rfl, rfl, _, _, rfl, ⟨_, rfl⟩, _, _, rfl, ⟨_, rfl⟩, rfl⟩, rfl⟩
  refine ⟨hg, hh, fun htext => ?_⟩
  have hshape := (written_forms_are_unambiguous hg hh).mp htext
  simp at hshape

end StackVM
