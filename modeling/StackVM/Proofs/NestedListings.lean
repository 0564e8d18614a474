/-
The listings of nested code objects. A code object holds others in its constant pool, and these
hold others in turn. After its own lines, a listing has the lines of each of them under a heading,
an outer one before those nested in it. It looks for them in pools only: a code object that stands
in a tuple is passed over, with all that is nested in it.

* `Code.nested`: the code objects nested in another, with or without those in tuples;
* `Code.untupled`: no code object stands in a tuple;
* `Code.listing_eq_headedLines`: **a listing** as the lines of code objects;
* `Code.nested_sublist`, `Code.nested_eq_iff`: what is passed over;
* `listing_shows_nested_code`, `tuple_hides_code_from_listing`.
-/
import StackVM.Proofs.StreamTiling

namespace StackVM

/-! ### Nested code objects -/

mutual

/-- The code objects in a constant, each before those nested in it; those in tuples are found if
`tuples` says so. -/
def Const.codes (tuples : Bool) : Const → List Code
  | .tuple ks => if tuples then Const.codesAll tuples ks else []
  | .code c => c :: Code.nested tuples c
  | _ => []
termination_by structural k => k

/-- The code objects in a list of constants. -/
def Const.codesAll (tuples : Bool) : List Const → List Code
  | [] => []
  | k :: ks => Const.codes tuples k ++ Const.codesAll tuples ks
termination_by structural ks => ks

/-- The code objects in a constant pool. -/
def Const.codesPool (tuples : Bool) : Array Const → List Code
  | ⟨ks⟩ => Const.codesAll tuples ks
termination_by structural ks => ks

/-- The code objects nested in a code object. -/
def Code.nested (tuples : Bool) : Code → List Code
  | ⟨_, _, ks, _, _, _, _, _, _, _, _⟩ => Const.codesPool tuples ks
termination_by structural c => c

end

mutual

/-- No code object in the constant stands in a tuple. -/
def Const.untupled : Const → Bool
  | .tuple ks => (Const.codesAll true ks).isEmpty
  | .code c => Code.untupled c
  | _ => true
termination_by structural k => k

/-- No code object in the constants stands in a tuple. -/
def Const.untupledAll : List Const → Bool
  | [] => true
  | k :: ks => Const.untupled k && Const.untupledAll ks
termination_by structural ks => ks

/-- No code object in the constant pool stands in a tuple. -/
def Const.untupledPool : Array Const → Bool
  | ⟨ks⟩ => Const.untupledAll ks
termination_by structural ks => ks

/-- No code object nested in the code object stands in a tuple. -/
def Code.untupled : Code → Bool
  | ⟨_, _, ks, _, _, _, _, _, _, _, _⟩ => Const.untupledPool ks
termination_by structural c => c

end

/-! ### Listings -/

/-- The lines of a code object under its heading. -/
def Code.headedLines (c : Code) : String :=
  "\nDisassembly of " ++ c.name ++ ":\n" ++ c.ownLines

lemma Code.headedLines_eq (c : Code) : c.headedLines = c.heading ++ c.ownLines :=
  rfl

mutual

/-- The section of a constant has the lines of each code object in it. -/
lemma Const.nestedSection_eq : ∀ k : Const,
    k.nestedSection = String.join ((k.codes false).map Code.headedLines)
  | .none | .bool _ | .int _ | .float _ | .str _ | .tuple _ => rfl
  | .code c => by
      rw [Const.nestedSection, Const.codes, List.map_cons, String.join_cons, Code.headedLines_eq,
        Code.listing_eq_headedLines c, String.append_assoc]

/-- So has that of several constants. -/
lemma Code.nestedListing_eq : ∀ ks : List Const,
    Code.nestedListing ks = String.join ((Const.codesAll false ks).map Code.headedLines)
  | [] => rfl
  | k :: ks => by
      rw [Code.nestedListing, Const.codesAll, List.map_append, String.join_append,
        Const.nestedSection_eq k, Code.nestedListing_eq ks]

/-- **A listing** has the lines of the code object, then those of each nested one that is found
without a look into tuples. -/
lemma Code.listing_eq_headedLines : ∀ c : Code,
    c.listing = c.ownLines ++ String.join ((c.nested false).map Code.headedLines)
  | ⟨_, _, ⟨ks⟩, _, _, _, _, _, _, _, _⟩ => by
      rw [Code.listing, Code.poolListing, Code.nested, Const.codesPool, Code.nestedListing_eq ks]

end

/-! ### What a listing passes over -/

mutual

/-- The code objects that are found without a look into tuples are some of all, in their order. -/
lemma Const.codes_sublist : ∀ k : Const, (k.codes false).Sublist (k.codes true)
  | .none | .bool _ | .int _ | .float _ | .str _ => .slnil
  | .tuple _ => List.nil_sublist _
  | .code c => (Code.nested_sublist c).cons_cons c

lemma Const.codesAll_sublist : ∀ ks : List Const,
    (Const.codesAll false ks).Sublist (Const.codesAll true ks)
  | [] => .slnil
  | k :: ks => (Const.codes_sublist k).append (Const.codesAll_sublist ks)

lemma Code.nested_sublist : ∀ c : Code, (c.nested false).Sublist (c.nested true)
  | ⟨_, _, ⟨ks⟩, _, _, _, _, _, _, _, _⟩ => Const.codesAll_sublist ks

end

/-- Two lists with some of the items of two others make up all of these only if each has all. -/
lemma append_eq_iff_of_sublist {α : Type} {xs xs' ys ys' : List α} (hx : xs.Sublist xs')
    (hy : ys.Sublist ys') : xs ++ ys = xs' ++ ys' ↔ xs = xs' ∧ ys = ys' := by
  refine ⟨fun h => ?_, fun ⟨hx, hy⟩ => hx ▸ hy ▸ rfl⟩
  have hlength := congrArg List.length h
  have hxle := hx.length_le
  have hyle := hy.length_le
  rw [List.length_append, List.length_append] at hlength
  exact ⟨hx.eq_of_length (by omega), hy.eq_of_length (by omega)⟩

mutual

/-- They are all code objects if none of these stands in a tuple. -/
lemma Const.codes_eq_iff : ∀ k : Const, k.codes false = k.codes true ↔ k.untupled = true
  | .none | .bool _ | .int _ | .float _ | .str _ => by simp [Const.codes, Const.untupled]
  | .tuple ks => by
      rw [Const.codes, Const.codes, Const.untupled, List.isEmpty_iff]
      exact eq_comm
  | .code c => by
      rw [Const.codes, Const.codes, Const.untupled, List.cons.injEq, Code.nested_eq_iff c]
      exact and_iff_right rfl

lemma Const.codesAll_eq_iff : ∀ ks : List Const,
    Const.codesAll false ks = Const.codesAll true ks ↔ Const.untupledAll ks = true
  | [] => by simp [Const.codesAll, Const.untupledAll]
  | k :: ks => by
      rw [Const.codesAll, Const.codesAll, Const.untupledAll, Bool.and_eq_true,
        append_eq_iff_of_sublist k.codes_sublist (Const.codesAll_sublist ks),
        Const.codes_eq_iff k, Const.codesAll_eq_iff ks]

lemma Code.nested_eq_iff : ∀ c : Code, c.nested false = c.nested true ↔ c.untupled = true
  | ⟨_, _, ⟨ks⟩, _, _, _, _, _, _, _, _⟩ => by
      rw [Code.nested, Code.nested, Code.untupled, Const.codesPool, Const.codesPool,
        Const.untupledPool, Const.codesAll_eq_iff ks]

end

/-- **A listing shows nested code.** After the lines of the code object itself it has, in pre-order,
one section for each code object nested in it, wherever that is nested, if none of them stands in a
tuple. In general it has the sections of those that can be found without a look into tuples; these
are some of all in the same order, and they are all only if none stands in a tuple. -/
theorem listing_shows_nested_code (c : Code) :
    (c.untupled = true →
      c.listing = c.ownLines ++ String.join ((c.nested true).map fun d =>
        "\nDisassembly of " ++ d.name ++ ":\n" ++ d.ownLines)) ∧
    c.listing = c.ownLines ++ String.join ((c.nested false).map fun d =>
      "\nDisassembly of " ++ d.name ++ ":\n" ++ d.ownLines) ∧
    (c.nested false).Sublist (c.nested true) ∧
    (c.nested false = c.nested true ↔ c.untupled = true) := by
  have hlisting := c.listing_eq_headedLines
  refine ⟨fun huntupled => ?_, hlisting, c.nested_sublist, c.nested_eq_iff⟩
  rw [c.nested_eq_iff.mpr huntupled] at hlisting
  exact hlisting

/-- Code that returns its only constant. -/
def Code.returning (name : String) (k : Const) : Code :=
  { Code.empty name with bytecode := #[100, 0, 0, 83], consts := #[k] }

/-- A module whose only constant is a tuple with the code of a function in it. -/
def Code.tupledModule : Code :=
  .returning "<module>" (.tuple [.code (.returning "f" .none)])

/-- A code object in a tuple of constants has no section. -/
theorem tuple_hides_code_from_listing :
    Code.tupledModule.nested true = [.returning "f" .none] ∧
    Code.tupledModule.listing ≠ Code.tupledModule.ownLines ++
      String.join ((Code.tupledModule.nested true).map fun d =>
        "\nDisassembly of " ++ d.name ++ ":\n" ++ d.ownLines) := by
  refine ⟨rfl, fun hlisting => ?_⟩
  rw [Code.listing_eq_headedLines] at hlisting
  have hlength := congrArg String.length hlisting
  simp [Code.nested, Code.tupledModule, Code.returning, Const.codesPool, Const.codesAll,
    Const.codes] at hlength

end StackVM
