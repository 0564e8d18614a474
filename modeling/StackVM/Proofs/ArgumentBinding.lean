/-
Argument binding is exact. Positional arguments fill the positional parameters from the left, a
keyword fills the first parameter of its name, and defaults fill what is left; the invariant of the
filling says which argument each slot holds after some of the keywords.

* `Signature.given?`: the value that arguments give to a parameter;
* `Signature.Accepts`: the calls that bind;
* `Signature.Binds`: what such a call binds;
* `Signature.Slots.Hold`: the slots after the positional arguments and some of the keywords;
* `fillKeyword_of_admits`, `fillKeywords_of_admits`: one more keyword, and all of them;
* `bindParams_of_accepts`, `accepts_of_bindParams`: the parameters;
* `binding_is_exact`: **exactly the accepted calls bind**, and what they bind.
-/
import Mathlib
import StackVM.Call.Signature

namespace StackVM

/-- The entry that a keyword makes in the dict of further keywords. -/
def Keyword.entry (k : Keyword) : Dict.Entry :=
  ⟨.str k.name, .str k.ident k.name, k.value⟩

namespace Signature

/-! ### Accepted calls -/

/-- The value of the first of the keywords for which a parameter is the first one of that name. -/
def named? (s : Signature) (keywords : List Keyword) (i : Nat) : Option Value :=
  (keywords.find? fun k => s.params.idxOf? k.name == some i).map Keyword.value

/-- The value that arguments give to a parameter: the positional argument in its place, or else
the value of a keyword. -/
def given? (s : Signature) (positional : List Value) (keywords : List Keyword) (i : Nat) :
    Option Value :=
  (positional.take s.positional.length)[i]?.or (s.named? keywords i)

/-- The keywords that name no parameter. -/
def surplus (s : Signature) (keywords : List Keyword) : List Keyword :=
  keywords.filter fun k => decide (k.name ∉ s.params)

/-- A keyword can follow others. -/
structure Admits (s : Signature) (positional : List Value) (earlier : List Keyword) (k : Keyword) :
    Prop where
  /-- The first parameter of its name has no value yet. -/
  free : ∀ i, s.params.idxOf? k.name = some i → s.given? positional earlier i = none
  /-- If there is no such parameter, then there is a name that collects further keywords, and no
  earlier keyword is the same. -/
  extra : k.name ∉ s.params →
    s.varkeywords.isSome = true ∧ ∀ k' ∈ earlier, k'.name ≠ k.name

/-- **The calls that bind.** -/
structure Accepts (s : Signature) (defaults : List Value) (kwdefaults : List (String × Value))
    (args : Args) : Prop where
  /-- There is a place for every positional argument. -/
  positional : args.positional.length ≤ s.positional.length ∨ s.varargs.isSome = true
  /-- There is a place for every keyword. -/
  keywords : ∀ earlier k later, args.keywords = earlier ++ k :: later →
    s.Admits args.positional earlier k
  /-- A positional parameter without a value is among the last ones, which have defaults. -/
  defaults : ∀ i < s.positional.length, s.given? args.positional args.keywords i = none →
    s.positional.length ≤ i + defaults.length
  /-- A keyword-only parameter without a value has a default. -/
  kwdefaults : ∀ j name, s.kwonly[j]? = some name →
    s.given? args.positional args.keywords (s.positional.length + j) = none →
      ∃ v, (name, v) ∈ kwdefaults

/-- **What a call binds**, in the heap that it leaves. -/
structure Binds (s : Signature) (defaults : List Value) (kwdefaults : List (String × Value))
    (args : Args) (h : Heap) (bound : List (String × Value)) : Prop where
  names : bound.map Prod.fst = s.params ++ s.varargs.toList ++ s.varkeywords.toList
  positional : ∀ i < s.positional.length, ∀ v, args.positional[i]? = some v →
    bound[i]?.map Prod.snd = some v
  keyword : ∀ k ∈ args.keywords, ∀ i, s.params.idxOf? k.name = some i →
    bound[i]?.map Prod.snd = some k.value
  default : ∀ i < s.positional.length, s.given? args.positional args.keywords i = none →
    ∃ v, bound[i]?.map Prod.snd = some v ∧
      defaults[i + defaults.length - s.positional.length]? = some v
  kwdefault : ∀ j name, s.kwonly[j]? = some name →
    s.given? args.positional args.keywords (s.positional.length + j) = none →
      ∃ v, bound[s.positional.length + j]?.map Prod.snd = some v ∧
        kwdefaults.find? (·.1 == name) = some (name, v)
  /-- The tuple of the positional arguments beyond the parameters. -/
  varargs : ∀ name, s.varargs = some name → ∃ ident, bound[s.params.length]? =
    some (name, .tuple ident (args.positional.drop s.positional.length))
  /-- The dict of the keywords that name no parameter, in the order of the call. -/
  varkeywords : ∀ name, s.varkeywords = some name → ∃ r, bound.getLast? = some (name, .dict r) ∧
    (h.dict r).entries.toList = (s.surplus args.keywords).map Keyword.entry

section Given

variable {s : Signature} {args : List Value} {ks ks' : List Keyword} {k : Keyword}

lemma named?_append (i : Nat) :
    s.named? (ks ++ ks') i = (s.named? ks i).or (s.named? ks' i) := by
  simp only [named?, List.find?_append, Option.map_or]

lemma named?_cons_self {i : Nat} (hi : s.params.idxOf? k.name = some i) :
    s.named? (k :: ks) i = some k.value := by
  simp [named?, hi]

lemma given?_nil (i : Nat) : s.given? args [] i = (args.take s.positional.length)[i]? := by
  simp [given?, named?]

/-- Later keywords give values only where earlier arguments have not. -/
lemma given?_append (i : Nat) :
    s.given? args (ks ++ ks') i = (s.given? args ks i).or (s.named? ks' i) := by
  simp only [given?, named?_append, Option.or_assoc]

/-- A keyword changes the value of no parameter but its own. -/
lemma given?_concat_of_ne {i : Nat} (hi : s.params.idxOf? k.name ≠ some i) :
    s.given? args (ks ++ [k]) i = s.given? args ks i := by
  simp [given?_append, named?, hi]

lemma surplus_append : s.surplus (ks ++ ks') = s.surplus ks ++ s.surplus ks' :=
  List.filter_append ..

lemma idxOf?_eq_none_iff {name : String} : s.params.idxOf? name = none ↔ name ∉ s.params := by
  simp

lemma lt_of_idxOf? {name : String} {i : Nat} (hi : s.params.idxOf? name = some i) :
    i < s.params.length :=
  (List.findIdx?_eq_some_iff_findIdx_eq.mp hi).1

lemma mem_of_idxOf? {name : String} {i : Nat} (hi : s.params.idxOf? name = some i) :
    name ∈ s.params := by
  by_contra hmem
  rw [idxOf?_eq_none_iff.mpr hmem] at hi
  cases hi

end Given

/-! ### Filling slots -/

/-- **The slots after the positional arguments and some of the keywords.** -/
structure Slots.Hold (slots : Slots) (s : Signature) (args : List Value) (ks : List Keyword) :
    Prop where
  values : slots.values = (List.range s.params.length).map (s.given? args ks)
  extra : slots.extra.entries.toList = (s.surplus ks).map Keyword.entry

section Filling

variable {s : Signature} {args : List Value} {ks ks' : List Keyword} {k : Keyword} {slots : Slots}

/-- Values with empty slots after them, by position. -/
lemma pad_eq_map_range {vs : List Value} {n : Nat} (hn : vs.length ≤ n) :
    vs.map some ++ List.replicate (n - vs.length) none = (List.range n).map (vs[·]?) := by
  refine List.ext_getElem (by simp; omega) fun i hi hi' => ?_
  rw [List.getElem_map, List.getElem_range, List.getElem_append]
  split
  next hlt =>
    rw [List.length_map] at hlt
    simp [hlt]
  next hge =>
    rw [List.length_map, not_lt] at hge
    simp [hge]

lemma fillPositional_hold (s : Signature) (args : List Value) :
    (s.fillPositional args).Hold s args [] := by
  have hlength : (args.take s.positional.length).length ≤ s.params.length := by
    simp only [params, List.length_take, List.length_append]
    omega
  refine ⟨?_, rfl⟩
  simp only [fillPositional, List.length_map, pad_eq_map_range hlength]
  exact List.map_congr_left fun i _ => (given?_nil i).symm

lemma Slots.Hold.getElem? (h : slots.Hold s args ks) {i : Nat} (hi : i < s.params.length) :
    slots.values[i]? = some (s.given? args ks i) := by
  rw [h.values, List.getElem?_map, List.getElem?_range hi, Option.map_some]

/-- The surplus keywords so far are the keys of the dict. -/
lemma Slots.Hold.contains_iff (h : slots.Hold s args ks) {name : String} :
    slots.extra.contains (.str name) = true ↔ ∃ k ∈ ks, k.name ∉ s.params ∧ k.name = name := by
  rw [Dict.contains_eq_isSome, Dict.get?_eq_find?, Option.isSome_map, Array.find?_isSome]
  simp [← Array.mem_toList_iff, h.extra, surplus, Keyword.entry, and_assoc]

/-- One slot is filled, and the others stay. -/
lemma set_map_range {f g : Nat → Option Value} {n i : Nat} (hother : ∀ j ≠ i, g j = f j) :
    ((List.range n).map f).set i (g i) = (List.range n).map g := by
  refine List.ext_getElem (by simp) fun j hj hj' => ?_
  rw [List.getElem_set, List.getElem_map, List.getElem_map, List.getElem_range]
  split
  next hij => rw [hij]
  next hij => exact (hother j (Ne.symm hij)).symm

/-- **A keyword that can follow** goes to its parameter, or among the surplus. -/
lemma fillKeyword_of_admits (function : String) (h : slots.Hold s args ks)
    (hk : s.Admits args ks k) :
    ∃ slots', s.fillKeyword function slots k = .ok slots' ∧ slots'.Hold s args (ks ++ [k]) := by
  cases hi : s.params.idxOf? k.name with
  | some i =>
      have hfree := hk.free i hi
      have hslot : slots.values[i]? = some none := by rw [h.getElem? (lt_of_idxOf? hi), hfree]
      have hself : s.given? args (ks ++ [k]) i = some k.value := by
        simp [given?_append, hfree, named?_cons_self hi]
      have hother : ∀ j ≠ i, s.given? args (ks ++ [k]) j = s.given? args ks j := by
        intro j hj
        exact given?_concat_of_ne (by simpa [hi] using hj.symm)
      refine ⟨{ slots with values := slots.values.set i (some k.value) }, ?_, ?_, ?_⟩
      · simp only [fillKeyword, hi, hslot]
      · rw [h.values, ← hself, set_map_range hother]
      · rw [surplus_append, h.extra]
        simp [surplus, mem_of_idxOf? hi]
  | none =>
      have hmem : k.name ∉ s.params := idxOf?_eq_none_iff.mp hi
      obtain ⟨hcollects, hnew⟩ := hk.extra hmem
      have hcontains : slots.extra.contains (.str k.name) = false := by
        rw [Bool.eq_false_iff, ne_eq, h.contains_iff]
        rintro ⟨k', hk', -, hname⟩
        exact hnew k' hk' hname
      refine ⟨{ slots with extra := slots.extra.set (.str k.name) (.str k.ident k.name) k.value },
        ?_, ?_, ?_⟩
      · simp [fillKeyword, hi, Option.isNone_eq_false_iff.mpr hcollects, hcontains]
      · rw [h.values]
        exact List.map_congr_left fun j _ => (given?_concat_of_ne (by simp [hi])).symm
      · rw [Dict.entries_set, if_neg (by simp [hcontains]), Array.toList_push, h.extra,
          surplus_append]
        simp [surplus, hmem, Keyword.entry]

/-- A keyword that cannot follow is refused. -/
lemma fillKeyword_of_not_admits (function : String) (h : slots.Hold s args ks)
    (hk : ¬ s.Admits args ks k) : ∃ c, s.fillKeyword function slots k = .error c := by
  cases hi : s.params.idxOf? k.name with
  | some i =>
      cases hgiven : s.given? args ks i with
      | some v =>
          have hslot : slots.values[i]? = some (some v) := by
            rw [h.getElem? (lt_of_idxOf? hi), hgiven]
          exact ⟨.duplicateArgument function k.name, by simp only [fillKeyword, hi, hslot]⟩
      | none =>
          refine absurd ⟨?_, fun hmem => absurd (mem_of_idxOf? hi) hmem⟩ hk
          intro j hj
          rw [hi] at hj
          cases hj
          exact hgiven
  | none =>
      by_cases hcollects : s.varkeywords.isSome = true
      · -- what is left to refuse it is an earlier keyword of the same name
        have hcontains : slots.extra.contains (.str k.name) = true := by
          by_contra hcontains
          refine hk ⟨by simp [hi], fun hmem => ⟨hcollects, ?_⟩⟩
          intro k' hk' hname
          exact hcontains (h.contains_iff.mpr ⟨k', hk', hname ▸ hmem, hname⟩)
        exact ⟨.duplicateArgument function k.name, by
          simp [fillKeyword, hi, Option.isNone_eq_false_iff.mpr hcollects, hcontains]⟩
      · exact ⟨.unexpectedKeyword function k.name, by
          simp [fillKeyword, hi, Option.not_isSome_iff_eq_none.mp hcollects]⟩

/-- **Keywords that can follow one another** fill their parameters. -/
lemma fillKeywords_of_admits (function : String) (h : slots.Hold s args ks)
    (hall : ∀ earlier k later, ks' = earlier ++ k :: later → s.Admits args (ks ++ earlier) k) :
    ∃ slots', s.fillKeywords function slots ks' = .ok slots' ∧
      slots'.Hold s args (ks ++ ks') := by
  -- on the keywords to come; the slots hold the ones before them
  induction ks' generalizing ks slots with
  | nil => exact ⟨slots, rfl, by rwa [List.append_nil]⟩
  | cons k ks' ih =>
      have hk : s.Admits args ks k := by simpa using hall [] k ks' rfl
      obtain ⟨slots₁, hfill, h₁⟩ := fillKeyword_of_admits function h hk
      obtain ⟨slots', hrest, h'⟩ := ih h₁ fun earlier k' later hsplit => by
        simpa using hall (k :: earlier) k' later (by rw [hsplit, List.cons_append])
      refine ⟨slots', ?_, by simpa using h'⟩
      simp only [fillKeywords, hfill, hrest]

/-- Keywords that fill their parameters can follow one another. -/
lemma admits_of_fillKeywords {function : String} {slots' : Slots} (h : slots.Hold s args ks)
    (hok : s.fillKeywords function slots ks' = .ok slots') :
    ∀ earlier k later, ks' = earlier ++ k :: later → s.Admits args (ks ++ earlier) k := by
  induction ks' generalizing ks slots with
  | nil => simp
  | cons k ks' ih =>
      rw [fillKeywords] at hok
      by_cases hk : s.Admits args ks k
      · obtain ⟨slots₁, hfill, h₁⟩ := fillKeyword_of_admits function h hk
        rw [hfill] at hok
        have hrest := ih h₁ hok
        intro earlier k' later hsplit
        cases earlier with
        | nil =>
            cases hsplit
            simpa using hk
        | cons k₀ earlier =>
            cases hsplit
            simpa using hrest earlier k' later rfl
      · obtain ⟨c, hfill⟩ := fillKeyword_of_not_admits function h hk
        rw [hfill] at hok
        cases hok

end Filling

/-! ### Defaults -/

/-- The default of a parameter. -/
def defaultOf? (s : Signature) (defaults : List Value) (kwdefaults : List (String × Value))
    (i : Nat) : Option Value :=
  if i < s.positional.length then default? defaults s.positional.length i
  else s.kwonly[i - s.positional.length]?.bind fun name =>
    (kwdefaults.find? fun d => d.1 == name).map Prod.snd

/-- The value that a parameter gets in the end. -/
def settled? (s : Signature) (defaults : List Value) (kwdefaults : List (String × Value))
    (args : Args) (i : Nat) : Option Value :=
  (s.given? args.positional args.keywords i).or (s.defaultOf? defaults kwdefaults i)

/-- The values of the parameters, if all of them have one. -/
def settledValues (s : Signature) (defaults : List Value) (kwdefaults : List (String × Value))
    (args : Args) : List Value :=
  (List.range s.params.length).map fun i => (s.settled? defaults kwdefaults args i).getD .none

section Defaults

variable {s : Signature} {defaults : List Value} {kwdefaults : List (String × Value)} {args : Args}
  {function : String}

/-- **Defaults are those of the last parameters**: the two are aligned at their ends, whichever of
them are more. -/
lemma default?_of_le {n i : Nat} (h : n ≤ i + defaults.length) :
    default? defaults n i = defaults[i + defaults.length - n]? := by
  have hposition : i - (n - defaults.length) + (defaults.length - n) =
      i + defaults.length - n := by omega
  rw [default?, if_pos (by omega), hposition]

/-- The parameters before the last ones have none. -/
lemma default?_of_lt {n i : Nat} (h : i + defaults.length < n) : default? defaults n i = none :=
  if_neg (by omega)

lemma length_params (s : Signature) : s.params.length = s.positional.length + s.kwonly.length :=
  List.length_append

/-- The positional parameters after their defaults. -/
lemma withDefaults_eq (kwdefaults : List (String × Value)) :
    withDefaults defaults
        (((List.range s.params.length).map (s.given? args.positional args.keywords)).take
          s.positional.length) =
      (List.range s.positional.length).map (s.settled? defaults kwdefaults args) := by
  have hlength := s.length_params
  refine List.ext_getElem (by simp [withDefaults]; omega) fun i hi hi' => ?_
  have hlt : i < s.positional.length := by simpa using hi'
  have hmin : min s.positional.length s.params.length = s.positional.length := by omega
  simp [withDefaults, settled?, defaultOf?, hlt, hmin]

/-- The keyword-only parameters after their defaults. -/
lemma withKeywordDefaults_eq (defaults : List Value) :
    withKeywordDefaults s.kwonly kwdefaults
        (((List.range s.params.length).map (s.given? args.positional args.keywords)).drop
          s.positional.length) =
      (List.range s.kwonly.length).map fun j =>
        s.settled? defaults kwdefaults args (s.positional.length + j) := by
  have hlength := s.length_params
  refine List.ext_getElem (by simp [withKeywordDefaults]; omega) fun i hi hi' => ?_
  have hlt : i < s.kwonly.length := by simpa using hi'
  simp [withKeywordDefaults, settled?, defaultOf?, hlt]

/-- No name is missing if every slot has a value. -/
lemma missing_eq_nil_iff {names : List String} {f : Nat → Option Value} :
    missing names ((List.range names.length).map f) = [] ↔
      ∀ i < names.length, (f i).isSome = true := by
  simp only [missing, List.map_eq_nil_iff, List.filter_eq_nil_iff, List.forall_mem_iff_getElem]
  simp [Option.isSome_iff_ne_none]

lemma map_getD_eq {f : Nat → Option Value} {n : Nat} (hf : ∀ i < n, (f i).isSome = true) :
    (List.range n).map f = ((List.range n).map fun i => (f i).getD .none).map some := by
  rw [List.map_map]
  refine List.map_congr_left fun i hi => ?_
  obtain ⟨v, hv⟩ := Option.isSome_iff_exists.mp (hf i (List.mem_range.mp hi))
  simp [hv]

/-- Names whose slots all have values. -/
lemma bound_map_some (names : List String) (vs : List Value) :
    bound names (vs.map some) = names.zip vs := by
  rw [bound, List.filterMap_map, Function.id_comp, List.filterMap_some]

/-- A positional parameter gets a value if it is given one or is among the last. -/
lemma settled?_isSome_iff_of_lt {i : Nat} (hi : i < s.positional.length) :
    (s.settled? defaults kwdefaults args i).isSome = true ↔
      (s.given? args.positional args.keywords i = none →
        s.positional.length ≤ i + defaults.length) := by
  cases hgiven : s.given? args.positional args.keywords i with
  | some v => simp [settled?, hgiven]
  | none =>
      rw [settled?, hgiven, defaultOf?, if_pos hi, Option.none_or]
      by_cases hle : s.positional.length ≤ i + defaults.length
      · rw [default?_of_le hle, List.getElem?_eq_getElem (by omega)]
        simp [hle]
      · rw [default?_of_lt (not_le.mp hle)]
        simp [hle]

/-- A keyword-only parameter gets a value if it is given one or has a default. -/
lemma settled?_isSome_iff_of_getElem? {j : Nat} {name : String}
    (hj : s.kwonly[j]? = some name) :
    (s.settled? defaults kwdefaults args (s.positional.length + j)).isSome = true ↔
      (s.given? args.positional args.keywords (s.positional.length + j) = none →
        ∃ v, (name, v) ∈ kwdefaults) := by
  cases hgiven : s.given? args.positional args.keywords (s.positional.length + j) with
  | some v => simp [settled?, hgiven]
  | none => simp [settled?, hgiven, defaultOf?, hj]

/-- The course of a binding that succeeds. -/
lemma bindParams_eq_ok_iff {p : List (String × Value) × Dict} :
    s.bindParams function defaults kwdefaults args = .ok p ↔
      (args.positional.length ≤ s.positional.length ∨ s.varargs.isSome = true) ∧
        ∃ slots, s.fillKeywords function (s.fillPositional args.positional) args.keywords =
            .ok slots ∧
          missing s.positional
            (withDefaults defaults (slots.values.take s.positional.length)) = [] ∧
          missing s.kwonly
            (withKeywordDefaults s.kwonly kwdefaults (slots.values.drop s.positional.length)) = [] ∧
          p = (bound s.params
            (withDefaults defaults (slots.values.take s.positional.length) ++
              withKeywordDefaults s.kwonly kwdefaults (slots.values.drop s.positional.length)),
            slots.extra) := by
  have hpositional : ¬ (s.positional.length < args.positional.length ∧ s.varargs.isNone = true) ↔
      args.positional.length ≤ s.positional.length ∨ s.varargs.isSome = true := by
    rw [not_and_or, not_lt, Option.isNone_iff_eq_none, Option.isSome_iff_ne_none]
  simp only [bindParams, Bind.bind, Except.bind, Pure.pure, Except.pure]
  constructor
  · intro h
    split at h
    · cases h
    next hmany =>
      split at h
      · cases h
      next slots hfill =>
        split at h
        · cases h
        next hpresent =>
          split at h
          · cases h
          next hpresent' =>
            cases h
            simp only [Bool.not_eq_true', Bool.not_eq_false, List.isEmpty_iff] at hpresent hpresent'
            exact ⟨hpositional.mp hmany, slots, hfill, hpresent, hpresent', rfl⟩
  · rintro ⟨hfew, slots, hfill, hpresent, hpresent', rfl⟩
    rw [if_neg (hpositional.mpr hfew), hfill]
    simp only [hpresent, hpresent', List.isEmpty_nil, Bool.not_true, Bool.false_eq_true, if_false]

end Defaults

/-! ### Parameters -/

section Parameters

variable {s : Signature} {defaults : List Value} {kwdefaults : List (String × Value)} {args : Args}
  {function : String}

/-- **A call that binds** is accepted. -/
lemma accepts_of_bindParams {p : List (String × Value) × Dict}
    (h : s.bindParams function defaults kwdefaults args = .ok p) :
    s.Accepts defaults kwdefaults args := by
  obtain ⟨hfew, slots, hfill, hpresent, hpresent', -⟩ := bindParams_eq_ok_iff.mp h
  have hstart := s.fillPositional_hold args.positional
  have hadmits := admits_of_fillKeywords hstart hfill
  obtain ⟨slots', hfill', hold⟩ := fillKeywords_of_admits function hstart hadmits
  rw [hfill] at hfill'
  cases hfill'
  -- no name is missing, so every slot that is empty has a default
  rw [hold.values, List.nil_append] at hpresent hpresent'
  rw [withDefaults_eq kwdefaults, missing_eq_nil_iff] at hpresent
  rw [withKeywordDefaults_eq defaults, missing_eq_nil_iff] at hpresent'
  refine ⟨hfew, by simpa using hadmits, ?_, ?_⟩
  · intro i hi
    exact (settled?_isSome_iff_of_lt hi).mp (hpresent i hi)
  · intro j name hj
    have hlt := (List.getElem?_eq_some_iff.mp hj).1
    exact (settled?_isSome_iff_of_getElem? hj).mp (hpresent' j hlt)

/-- In a call that is accepted a keyword is the only argument that gives its parameter a value. -/
lemma Accepts.given?_of_mem (h : s.Accepts defaults kwdefaults args) {k : Keyword}
    (hk : k ∈ args.keywords) {i : Nat} (hi : s.params.idxOf? k.name = some i) :
    s.given? args.positional args.keywords i = some k.value := by
  obtain ⟨earlier, later, hsplit⟩ := List.append_of_mem hk
  have hfree := (h.keywords earlier k later hsplit).free i hi
  rw [hsplit, given?_append, hfree, named?_cons_self hi, Option.none_or]

/-- In a call that is accepted every parameter gets a value. -/
lemma Accepts.settled?_isSome (h : s.Accepts defaults kwdefaults args) {i : Nat}
    (hi : i < s.params.length) : (s.settled? defaults kwdefaults args i).isSome = true := by
  by_cases hlt : i < s.positional.length
  · exact (settled?_isSome_iff_of_lt hlt).mpr (h.defaults i hlt)
  · have hlength := s.length_params
    obtain ⟨j, rfl⟩ := Nat.exists_eq_add_of_le (not_lt.mp hlt)
    have hname := List.getElem?_eq_getElem (by omega : j < s.kwonly.length)
    exact (settled?_isSome_iff_of_getElem? hname).mpr (h.kwdefaults j _ hname)

/-- **An accepted call** binds every parameter to its value. -/
lemma bindParams_of_accepts (function : String) (h : s.Accepts defaults kwdefaults args) :
    ∃ extra, s.bindParams function defaults kwdefaults args =
        .ok (s.params.zip (s.settledValues defaults kwdefaults args), extra) ∧
      extra.entries.toList = (s.surplus args.keywords).map Keyword.entry := by
  have hlength := s.length_params
  obtain ⟨slots, hfill, hold⟩ := fillKeywords_of_admits function
    (s.fillPositional_hold args.positional) (by simpa using h.keywords)
  have hpositional : ∀ i < s.positional.length,
      (s.settled? defaults kwdefaults args i).isSome = true :=
    fun i hi => h.settled?_isSome (by omega)
  have hkwonly : ∀ j < s.kwonly.length,
      (s.settled? defaults kwdefaults args (s.positional.length + j)).isSome = true :=
    fun j hj => h.settled?_isSome (by omega)
  refine ⟨slots.extra, bindParams_eq_ok_iff.mpr ⟨h.positional, slots, hfill, ?_⟩, hold.extra⟩
  rw [hold.values, List.nil_append, withDefaults_eq kwdefaults, withKeywordDefaults_eq defaults]
  refine ⟨missing_eq_nil_iff.mpr hpositional, missing_eq_nil_iff.mpr hkwonly, ?_⟩
  -- every slot has a value, so that none falls out between the names and the values
  rw [map_getD_eq hpositional, map_getD_eq hkwonly, ← List.map_append, bound_map_some]
  simp only [settledValues, hlength, List.range_add, List.map_append, List.map_map]
  rfl

/-- The value of a parameter among what is bound. -/
lemma Accepts.getElem?_bound (h : s.Accepts defaults kwdefaults args) {i : Nat}
    (hi : i < s.params.length) (rest : List (String × Value)) :
    (s.params.zip (s.settledValues defaults kwdefaults args) ++ rest)[i]?.map Prod.snd =
      s.settled? defaults kwdefaults args i := by
  obtain ⟨v, hv⟩ := Option.isSome_iff_exists.mp (h.settled?_isSome hi)
  rw [List.getElem?_append_left (by simpa [settledValues] using hi)]
  simp [settledValues, hi, hv]

/-- A parameter that no argument gives a value has its default. -/
lemma Accepts.settled?_of_not_given (h : s.Accepts defaults kwdefaults args) {i : Nat}
    (hi : i < s.params.length) (hgiven : s.given? args.positional args.keywords i = none) :
    ∃ v, s.settled? defaults kwdefaults args i = some v ∧
      s.defaultOf? defaults kwdefaults i = some v := by
  obtain ⟨v, hv⟩ := Option.isSome_iff_exists.mp (h.settled?_isSome hi)
  refine ⟨v, hv, ?_⟩
  simpa [settled?, hgiven] using hv

end Parameters

/-! ### Collected arguments -/

section Collecting

variable {s : Signature} {defaults : List Value} {kwdefaults : List (String × Value)} {args : Args}
  {function : String}

lemma bindParams_of_bind_ok {h h' : Heap} {bound : List (String × Value)}
    (hok : s.bind function defaults kwdefaults args h = .ok bound h') :
    ∃ p, s.bindParams function defaults kwdefaults args = .ok p := by
  cases hparams : s.bindParams function defaults kwdefaults args with
  | ok p => exact ⟨p, rfl⟩
  | error c =>
      rw [Signature.bind, hparams] at hok
      cases hok

/-- After the parameters come the tuple of further positional arguments and the dict of further
keywords. -/
lemma bind_of_bindParams {params : List (String × Value)} {extra : Dict} (h : Heap)
    (hparams : s.bindParams function defaults kwdefaults args = .ok (params, extra)) :
    ∃ h', s.bind function defaults kwdefaults args h =
        .ok (params ++
          s.varargs.toList.map (fun name =>
            (name, .tuple (.made h.idents) (args.positional.drop s.positional.length))) ++
          s.varkeywords.toList.map fun name => (name, .dict h.dicts.next)) h' ∧
      (s.varkeywords.isSome = true → h'.dict h.dicts.next = extra) := by
  have hdict : ∀ h' : Heap, h'.dicts = h.dicts.alloc extra → h'.dict h.dicts.next = extra := by
    intro h' hdicts
    rw [Heap.dict, hdicts, Store.get?_alloc_self, Option.getD_some]
  rw [Signature.bind, hparams]
  cases s.varargs with
  | none =>
      cases s.varkeywords with
      | none => exact ⟨h, rfl, by simp⟩
      | some name => exact ⟨_, rfl, fun _ => hdict _ rfl⟩
  | some rest =>
      cases s.varkeywords with
      | none => exact ⟨_, rfl, by simp⟩
      | some name => exact ⟨_, rfl, fun _ => hdict _ rfl⟩

/-- **What an accepted call binds.** -/
lemma Accepts.binds (h : s.Accepts defaults kwdefaults args) {h₀ h' : Heap} {extra : Dict}
    (hextra : extra.entries.toList = (s.surplus args.keywords).map Keyword.entry)
    (hdict : s.varkeywords.isSome = true → h'.dict h₀.dicts.next = extra) :
    s.Binds defaults kwdefaults args h'
      (s.params.zip (s.settledValues defaults kwdefaults args) ++
        s.varargs.toList.map (fun name =>
          (name, .tuple (.made h₀.idents) (args.positional.drop s.positional.length))) ++
        s.varkeywords.toList.map fun name => (name, .dict h₀.dicts.next)) := by
  have hlength := s.length_params
  have hvalues : (s.settledValues defaults kwdefaults args).length = s.params.length := by
    simp [settledValues]
  have hgiven : ∀ i v, s.given? args.positional args.keywords i = some v →
      s.settled? defaults kwdefaults args i = some v := by
    intro i v hv
    simp [settled?, hv]
  rw [List.append_assoc]
  constructor
  case names => simp [List.map_fst_zip, hvalues, Function.comp_def]
  case positional =>
    intro i hi v hv
    rw [h.getElem?_bound (by omega)]
    exact hgiven i v (by simp [given?, hi, hv])
  case keyword =>
    intro k hk i hi
    rw [h.getElem?_bound (lt_of_idxOf? hi)]
    exact hgiven i _ (h.given?_of_mem hk hi)
  case default =>
    intro i hi hnone
    obtain ⟨v, hv, hdefault⟩ := h.settled?_of_not_given (by omega) hnone
    rw [h.getElem?_bound (by omega)]
    refine ⟨v, hv, ?_⟩
    rwa [defaultOf?, if_pos hi, default?_of_le (h.defaults i hi hnone)] at hdefault
  case kwdefault =>
    intro j name hj hnone
    have hlt := (List.getElem?_eq_some_iff.mp hj).1
    obtain ⟨v, hv, hdefault⟩ := h.settled?_of_not_given (by omega) hnone
    rw [h.getElem?_bound (by omega)]
    refine ⟨v, hv, ?_⟩
    rw [defaultOf?, if_neg (by omega), Nat.add_sub_cancel_left, hj, Option.bind_some,
      Option.map_eq_some_iff] at hdefault
    obtain ⟨⟨name', v'⟩, hfind, rfl⟩ := hdefault
    have hname := List.find?_some hfind
    simp only [beq_iff_eq] at hname
    rw [hfind, hname]
  case varargs =>
    intro name hname
    refine ⟨.made h₀.idents, ?_⟩
    rw [List.getElem?_append_right (by simp [hvalues]), hname]
    simp [hvalues]
  case varkeywords =>
    intro name hname
    refine ⟨h₀.dicts.next, ?_, ?_⟩
    · simp [hname]
    · rw [hdict (by simp [hname]), hextra]

end Collecting

end Signature

/-- **Argument binding is exact.** A call binds if and only if it is accepted: there is a place
for every positional argument and, one after the other, for every keyword, and the parameters that
are left have defaults. What it binds are the parameters in order and then the collecting names.
Each has the positional argument in its place, or the value of its keyword, or its default; the
collecting names have the further positional arguments and the keywords that name no parameter. -/
theorem binding_is_exact (s : Signature) (function : String) (defaults : List Value)
    (kwdefaults : List (String × Value)) (args : Args) (h : Heap) :
    ((∃ bound h', s.bind function defaults kwdefaults args h = .ok bound h') ↔
      s.Accepts defaults kwdefaults args) ∧
    ∀ bound h', s.bind function defaults kwdefaults args h = .ok bound h' →
      s.Binds defaults kwdefaults args h' bound := by
  have haccepts : ∀ bound h', s.bind function defaults kwdefaults args h = .ok bound h' →
      s.Accepts defaults kwdefaults args := by
    intro bound h' hok
    obtain ⟨p, hp⟩ := Signature.bindParams_of_bind_ok hok
    exact Signature.accepts_of_bindParams hp
  have hbinds : s.Accepts defaults kwdefaults args →
      ∃ bound h', s.bind function defaults kwdefaults args h = .ok bound h' ∧
        s.Binds defaults kwdefaults args h' bound := by
    intro hacc
    obtain ⟨extra, hparams, hextra⟩ := Signature.bindParams_of_accepts function hacc
    obtain ⟨h', hok, hdict⟩ := Signature.bind_of_bindParams h hparams
    exact ⟨_, h', hok, hacc.binds hextra hdict⟩
  refine ⟨⟨?_, ?_⟩, ?_⟩
  · rintro ⟨bound, h', hok⟩
    exact haccepts bound h' hok
  · intro hacc
    obtain ⟨bound, h', hok, -⟩ := hbinds hacc
    exact ⟨bound, h', hok⟩
  · intro bound h' hok
    obtain ⟨bound', h'', hok', hb⟩ := hbinds (haccepts bound h' hok)
    rw [hok] at hok'
    cases hok'
    exact hb

/-- A call of a function with every kind of parameter: the first is given by position and the third
by name, the second and the fourth have their defaults, and one keyword is left over. -/
theorem call_with_every_kind_of_parameter_binds :
    let s : Signature := ⟨["a", "b"], ["k", "m"], some "rest", some "more"⟩
    let args : Args := ⟨[.int 1], [⟨.made 0, "z", .int 7⟩, ⟨.made 1, "k", .int 5⟩]⟩
    s.Accepts [.int 10] [("m", .int 20)] args ∧
    ∃ bound h', s.bind "f" [.int 10] [("m", .int 20)] args .empty = .ok bound h' ∧
      bound.map Prod.fst = ["a", "b", "k", "m", "rest", "more"] ∧
      bound[0]?.map Prod.snd = some (.int 1) ∧ bound[1]?.map Prod.snd = some (.int 10) ∧
      bound[2]?.map Prod.snd = some (.int 5) ∧ bound[3]?.map Prod.snd = some (.int 20) ∧
      ∃ r, bound.getLast? = some ("more", .dict r) ∧
        (h'.dict r).entries.toList = [⟨.str "z", .str (.made 0) "z", .int 7⟩] := by
  intro s args
  obtain ⟨hiff, hbinds⟩ := binding_is_exact s "f" [.int 10] [("m", .int 20)] args .empty
  have hz : s.Admits [.int 1] [] ⟨.made 0, "z", .int 7⟩ :=
    ⟨fun i hi => (by cases hi), fun _ => ⟨rfl, by simp⟩⟩
  have hk : s.Admits [.int 1] [⟨.made 0, "z", .int 7⟩] ⟨.made 1, "k", .int 5⟩ :=
    ⟨fun i hi => (by cases hi; rfl), fun hmem => absurd (by decide) hmem⟩
  have haccepts : s.Accepts [.int 10] [("m", .int 20)] args := by
    refine ⟨.inl (by decide), ?_, ?_, ?_⟩
    · intro earlier k later hsplit
      rcases earlier with _ | ⟨k₀, _ | ⟨k₁, earlier⟩⟩
      · cases hsplit
        exact hz
      · cases hsplit
        exact hk
      · simp [args] at hsplit
    · intro i hi hnone
      rcases i with _ | i
      · cases hnone
      · simp only [s, List.length_cons, List.length_nil] at hi ⊢
        omega
    · intro j name hj hnone
      rcases j with _ | _ | j
      · cases hnone
      · cases hj
        exact ⟨.int 20, by simp⟩
      · cases hj
  obtain ⟨bound, h', hok⟩ := hiff.mpr haccepts
  have hb := hbinds bound h' hok
  refine ⟨haccepts, bound, h', hok, hb.names, hb.positional 0 (by decide) _ rfl, ?_, ?_, ?_, ?_⟩
  · obtain ⟨v, hv, hdefault⟩ := hb.default 1 (by decide) rfl
    cases hdefault
    exact hv
  · exact hb.keyword ⟨.made 1, "k", .int 5⟩ (by simp [args]) 2 rfl
  · obtain ⟨v, hv, hdefault⟩ := hb.kwdefault 1 "m" rfl rfl
    cases hdefault
    exact hv
  · exact hb.varkeywords "more" rfl

end StackVM
