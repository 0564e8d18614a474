/-
Decoding gives back what was assembled. The two halves meet at `Emission.Tiles`: directives
leave a stream that the written instructions fill, and decoding such a stream gives these
instructions.

* `Code.decodeFrom_plain`, `Code.decodeFrom_withArg`, `Code.decodeFrom_extended`: decoding of an
  instruction without an argument, of one with an argument, and of a prefix;
* `Emission.Stored.decodeFrom`: the instruction at the offset of one that was written;
* `Emission.Matches`: a decoded instruction is the one that was written;
* `Emission.Tiles.instructionsFrom`: the instructions of a stream;
* `stored_of_assemble`: the instruction of one directive among others;
* `decoding_inverts_assembling`: **the round trip**.
-/
import Mathlib.Data.List.Forall2
import StackVM.Proofs.Assembly
import StackVM.Proofs.Decoding

namespace StackVM

/-! ### Bytes -/

namespace Code

variable {c : Code} {start pos extended : Nat} {op : Opcode}

lemma entry_map_error {α : Type} {table : String} {xs : Array α} {index : Nat} {g : α → Operand}
    {kind : DecodeError.Kind} (h : (entry table xs index).map g = .error kind) :
    kind = .indexOutOfRange table index xs.size := by
  rw [entry] at h
  split at h
  · cases h
  · cases h
    rfl

lemma jumpTarget_error {target : Nat} {kind : DecodeError.Kind}
    (h : c.jumpTarget target = .error kind) : kind = .jumpOutOfRange target := by
  rw [jumpTarget] at h
  split at h
  · cases h
  · cases h
    rfl

/-- Resolving never runs out of bytes, and finds no argument too great. -/
lemma resolve_error {arg next : Nat} {kind : DecodeError.Kind}
    (h : c.resolve op arg next = .error kind) :
    kind ≠ .unexpectedEnd ∧ kind ≠ .argumentOverflow := by
  suffices hkind : (∃ table size, kind = .indexOutOfRange table arg size) ∨
      (∃ target, kind = .jumpOutOfRange target) ∨ kind = .badCompare arg by
    rcases hkind with ⟨table, size, rfl⟩ | ⟨target, rfl⟩ | rfl <;> simp
  rw [resolve] at h
  generalize op.operandKind = operandKind at h
  cases operandKind with
  | none => cases h
  | int => cases h
  | const => exact .inl ⟨_, _, entry_map_error h⟩
  | name => exact .inl ⟨_, _, entry_map_error h⟩
  | «local» => exact .inl ⟨_, _, entry_map_error h⟩
  | free =>
      dsimp only at h
      split at h
      · cases h
      · cases h
        exact .inl ⟨_, _, rfl⟩
  | jumpRel => exact .inr (.inl ⟨_, jumpTarget_error h⟩)
  | jumpAbs => exact .inr (.inl ⟨_, jumpTarget_error h⟩)
  | compare =>
      dsimp only at h
      split at h
      · cases h
      · cases h
        exact .inr (.inr rfl)

/-- An opcode without an argument. -/
lemma decodeFrom_plain (hbyte : c.bytecode[pos]? = some op.toByte) (hop : op.hasArg = false) :
    c.decodeFrom start pos extended = (c.resolve op 0 (pos + 1)).map fun operand =>
      { offset := start, next := pos + 1, byte := op.toByte, opcode := some op, operand
        arg := 0 } := by
  obtain ⟨hlt, hget⟩ := Array.getElem?_eq_some_iff.mp hbyte
  have hsmall : op.toByte < haveArgument := UInt8.not_le.mp (decide_eq_false_iff_not.mp hop)
  rw [decodeFrom, dif_pos hlt]
  simp only [hget, hsmall, if_true, operandOf, Opcode.ofByte?_toByte]

/-- The two argument bytes at a position. -/
lemma argumentAt?_eq {lo hi : UInt8} (hlo : c.bytecode[pos + 1]? = some lo)
    (hhi : c.bytecode[pos + 2]? = some hi) :
    c.argumentAt? (pos + 1) = some (lo.toNat + 256 * hi.toNat) := by
  rw [argumentAt?, hlo, hhi]

/-- An opcode with an argument. -/
lemma decodeFrom_withArg {lo hi : UInt8} (hbyte : c.bytecode[pos]? = some op.toByte)
    (hlo : c.bytecode[pos + 1]? = some lo) (hhi : c.bytecode[pos + 2]? = some hi)
    (hop : op.hasArg = true) (hne : op ≠ .extendedArg) {arg : Nat}
    (harg : arg = extended + (lo.toNat + 256 * hi.toNat)) :
    c.decodeFrom start pos extended = (c.resolve op arg (pos + 3)).map fun operand =>
      { offset := start, next := pos + 3, byte := op.toByte, opcode := some op, operand, arg } := by
  obtain ⟨hlt, hget⟩ := Array.getElem?_eq_some_iff.mp hbyte
  have hlarge : ¬ op.toByte < haveArgument := UInt8.not_lt.mpr (of_decide_eq_true hop)
  have hplain : op.toByte ≠ Opcode.extendedArg.toByte := by
    intro h
    have := congrArg Opcode.ofByte? h
    rw [Opcode.ofByte?_toByte, Opcode.ofByte?_toByte] at this
    exact hne (Option.some.inj this)
  rw [decodeFrom, dif_pos hlt]
  simp only [hget, hlarge, if_false, argumentAt?_eq hlo hhi, hplain, operandOf,
    Opcode.ofByte?_toByte, harg]

/-- A prefix at the start of an instruction. -/
lemma decodeFrom_extended {lo hi : UInt8}
    (hbyte : c.bytecode[pos]? = some Opcode.extendedArg.toByte)
    (hlo : c.bytecode[pos + 1]? = some lo) (hhi : c.bytecode[pos + 2]? = some hi) :
    c.decodeFrom start pos 0 =
      c.decodeFrom start (pos + 3) ((lo.toNat + 256 * hi.toNat) * 65536) := by
  obtain ⟨hlt, hget⟩ := Array.getElem?_eq_some_iff.mp hbyte
  have hlarge : ¬ Opcode.extendedArg.toByte < haveArgument := by decide
  have hfits : ¬ 65535 < lo.toNat + 256 * hi.toNat := by
    have := lo.toNat_lt
    have := hi.toNat_lt
    omega
  rw [decodeFrom, dif_pos hlt]
  simp only [hget, hlarge, if_false, argumentAt?_eq hlo hhi, if_true, Nat.zero_add, hfits]

end Code

/-! ### Instructions -/

namespace Emission

variable {c : Code} {e : Emission}

/-- A decoded instruction is the one that was written: it has the opcode, the two offsets, and
the argument if that was known when it was written. -/
structure Matches (e : Emission) (i : Instruction) : Prop where
  opcode : i.opcode = some e.op
  offset : i.offset = e.offset
  next : i.next = e.next
  arg : ∀ n, e.arg? = some n → i.arg = n.toNat

/-- **What is decoded at the offset of an instruction that was written**: its argument is
resolved, and nothing else can fail. -/
lemma Stored.decodeFrom (h : e.Stored c) :
    ∃ arg, (∀ n, e.arg? = some n → arg = n.toNat) ∧
      c.decodeFrom e.offset e.offset 0 = (c.resolve e.op arg e.next).map fun operand =>
        { offset := e.offset, next := e.next, byte := e.op.toByte, opcode := some e.op, operand
          arg } := by
  cases h with
  | plain hasArg arg next bytes =>
      refine ⟨0, ?_, ?_⟩
      · intro n hn
        rw [arg] at hn
        cases hn
        rfl
      · rw [next]
        exact Code.decodeFrom_plain (bytes 0 _ rfl) hasArg
  | @withArg n hasArg ne_extended arg next bytes =>
      refine ⟨n.toNat, fun m hm => by rw [arg m hm], ?_⟩
      have hn := n.toNat_lt
      rw [Assembler.argBytes] at next bytes
      by_cases hlong : 65535 < n.toNat
      · -- a prefix with the upper half of the argument
        rw [if_pos hlong] at next bytes
        have hextended : c.decodeFrom e.offset e.offset 0 = _ :=
          Code.decodeFrom_extended (bytes 0 _ rfl) (bytes 1 _ rfl) (bytes 2 _ rfl)
        rw [next, hextended]
        refine Code.decodeFrom_withArg (bytes 3 _ rfl) (bytes 4 _ rfl) (bytes 5 _ rfl) hasArg
          ne_extended ?_
        simp only [UInt8.toNat_ofNat']
        omega
      · rw [if_neg hlong] at next bytes
        rw [next]
        refine Code.decodeFrom_withArg (bytes 0 _ rfl) (bytes 1 _ rfl) (bytes 2 _ rfl) hasArg
          ne_extended ?_
        simp only [UInt8.toNat_ofNat']
        omega

/-- Decoding at the offset of an instruction that was written fails on its operand only. -/
lemma Stored.decode_error (h : e.Stored c) {err : DecodeError}
    (hd : c.decode e.offset = .error err) :
    err.kind ≠ .unexpectedEnd ∧ err.kind ≠ .argumentOverflow := by
  obtain ⟨arg, -, hfrom⟩ := h.decodeFrom
  rw [Code.decode, hfrom] at hd
  cases hresolve : c.resolve e.op arg e.next with
  | error kind =>
      rw [hresolve] at hd
      cases hd
      exact Code.resolve_error hresolve
  | ok operand =>
      rw [hresolve] at hd
      cases hd

/-- Decoding at the offset of an instruction that was written gives that instruction. -/
lemma Stored.decode_ok (h : e.Stored c) {i : Instruction} (hd : c.decode e.offset = .ok i) :
    e.Matches i := by
  obtain ⟨arg, harg, hfrom⟩ := h.decodeFrom
  rw [Code.decode, hfrom] at hd
  cases hresolve : c.resolve e.op arg e.next with
  | error kind =>
      rw [hresolve] at hd
      cases hd
  | ok operand =>
      rw [hresolve] at hd
      cases hd
      exact ⟨rfl, rfl, rfl, harg⟩

/-- An instruction whose argument resolves is decoded. -/
lemma Stored.decode_of_resolve (h : e.Stored c) {n : UInt32} {operand : Operand}
    (harg : e.arg? = some n) (hresolve : c.resolve e.op n.toNat e.next = .ok operand) :
    ∃ i, c.decode e.offset = .ok i ∧ i.opcode = some e.op ∧ i.operand = operand := by
  obtain ⟨arg, hwritten, hfrom⟩ := h.decodeFrom
  rw [hwritten n harg, hresolve] at hfrom
  exact ⟨_, by rw [Code.decode, hfrom]; rfl, rfl, rfl⟩

/-! ### Names -/

/-- A table index that 32 bits do not hold becomes the greatest that they do. -/
lemma toNat_indexArg (index : Nat) :
    (Assembler.indexArg index).toNat = min index (UInt32.size - 1) :=
  UInt32.toNat_ofNat_of_lt' (Nat.lt_of_le_of_lt (Nat.min_le_right _ _) (by decide))

/-- An instruction whose argument is the index of a name in a table is resolved to an entry of
the table. It is the name, if 32 bits hold the index. -/
lemma Stored.decode_entry (h : e.Stored c) {table : String} {xs : Array String}
    {g : String → Operand} {s : String}
    (hresolve : ∀ arg, c.resolve e.op arg e.next = (Code.entry table xs arg).map g)
    (hmem : s ∈ xs.toList) (harg : e.arg? = some (Assembler.indexArg (xs.toList.idxOf s))) :
    ∃ i t, c.decode e.offset = .ok i ∧ i.operand = g t ∧
      xs[min (xs.toList.idxOf s) (UInt32.size - 1)]? = some t ∧
      (xs.toList.idxOf s < UInt32.size → t = s) := by
  obtain ⟨arg, hwritten, hfrom⟩ := h.decodeFrom
  have hargument := (hwritten _ harg).trans (toNat_indexArg _)
  have hidxOf := List.idxOf_lt_length_iff.mpr hmem
  have hlt : arg < xs.size := by
    rw [hargument]
    exact Nat.lt_of_le_of_lt (Nat.min_le_left _ _) hidxOf
  have hentry : xs[arg]? = some xs[arg] := Array.getElem?_eq_getElem hlt
  rw [hresolve, Code.entry, hentry] at hfrom
  refine ⟨_, xs[arg], by rw [Code.decode, hfrom]; rfl, rfl, by rw [← hargument, hentry], ?_⟩
  intro hfits
  have hsame : arg = xs.toList.idxOf s := by omega
  subst hsame
  exact List.getElem_idxOf hidxOf

/-! ### Streams -/

lemma Stored.offset_lt_next (h : e.Stored c) : e.offset < e.next := by
  cases h with
  | plain _ _ next _ => omega
  | withArg _ _ _ next _ =>
      rw [Assembler.argBytes] at next
      split at next <;> rw [next] <;> exact Nat.lt_add_of_pos_right (Nat.succ_pos _)

variable {es : List Emission} {offset : Nat}

lemma Tiles.stored (h : Tiles c offset es) : ∀ e ∈ es, e.Stored c := by
  induction h with
  | nil => exact List.forall_mem_nil _
  | cons stored _ ih => exact List.forall_mem_cons.mpr ⟨stored, ih⟩

/-- **The instructions of a stream** that instructions fill are these, if all of them can be
decoded. -/
lemma Tiles.instructionsFrom (h : Tiles c offset es)
    (hall : ∀ e ∈ es, ∃ i, c.decode e.offset = .ok i) {fuel : Nat}
    (hfuel : c.bytecode.size ≤ offset + fuel) :
    c.instructionsFrom fuel offset = es.map fun e => c.decode e.offset := by
  induction h generalizing fuel with
  | nil =>
      cases fuel with
      | zero => rfl
      | succ fuel => rw [Code.instructionsFrom, if_pos (Nat.le_refl _), List.map_nil]
  | @cons e es stored _ ih =>
      obtain ⟨⟨i, hi⟩, hrest⟩ := List.forall_mem_cons.mp hall
      have hnext := (stored.decode_ok hi).next
      have hlt := stored.offset_lt_next
      have hle := (Code.decode_decoded hi).next_le
      cases fuel with
      | zero => omega
      | succ fuel =>
          rw [Code.instructionsFrom, if_neg (by omega), List.map_cons, hi]
          dsimp only
          rw [hnext, ih hrest (by omega)]

end Emission

lemma Assembler.emissions_append (a : Assembler) (ds ds' : List Directive) :
    a.emissions (ds ++ ds') = a.emissions ds ++ (a.run ds).emissions ds' := by
  induction ds generalizing a with
  | nil => rfl
  | cons d ds ih =>
      rw [List.cons_append, emissions, emissions, ih (a.apply d), List.append_assoc]
      rfl

/-- The instruction that a directive writes among others is in the stream. -/
lemma stored_of_assemble {name : String} {before after : List Directive} {d : Directive}
    {e : Emission} {c : Code} (h : assemble name (before ++ d :: after) = .ok c)
    (he : (Assembler.run { name } before).emission? d = some e) : e.Stored c := by
  refine (Assembler.tiles_emissions (Assembler.tidy_start name) h).stored e ?_
  rw [Assembler.emissions_append, Assembler.emissions, he]
  exact List.mem_append_right _ List.mem_cons_self

/-- **Decoding inverts assembling.** Let directives give the code object `c`. At the offset of
each instruction that they wrote, decoding never runs out of bytes and never finds an argument
too great; what it gives is the instruction that was written, from the offset before the
directive to the one after it. If all of them can be decoded, then they are the instructions of
the code object, in order.

An instruction on a name is decoded to that name, and one on a fast local to that local. An
argument has 32 bits: the index of an entry beyond those becomes the last one that it can
hold. -/
theorem decoding_inverts_assembling {name : String} {ds : List Directive} {c : Code}
    (h : assemble name ds = .ok c) :
    (∀ e ∈ Assembler.emissions { name } ds,
      (∀ err, c.decode e.offset = .error err →
        err.kind ≠ .unexpectedEnd ∧ err.kind ≠ .argumentOverflow) ∧
      (∀ i, c.decode e.offset = .ok i → e.Matches i) ∧
      (∀ op s, e.directive = .name op s → op.operandKind = .name →
        ∃ i t, c.decode e.offset = .ok i ∧ i.operand = .name t ∧
          c.names[min (c.names.toList.idxOf s) (UInt32.size - 1)]? = some t ∧
          (c.names.toList.idxOf s < UInt32.size → t = s)) ∧
      ∀ op s, e.directive = .local op s → op.operandKind = .local →
        ∃ i t, c.decode e.offset = .ok i ∧ i.operand = .local t ∧
          c.varnames[min (c.varnames.toList.idxOf s) (UInt32.size - 1)]? = some t ∧
          (c.varnames.toList.idxOf s < UInt32.size → t = s)) ∧
    ((∀ e ∈ Assembler.emissions { name } ds, ∃ i, c.decode e.offset = .ok i) →
      List.Forall₂ (fun x e => ∃ i, x = .ok i ∧ c.decode e.offset = .ok i ∧ e.Matches i)
        c.instructions (Assembler.emissions { name } ds)) := by
  have htiles : Emission.Tiles c 0 (Assembler.emissions { name } ds) :=
    Assembler.tiles_emissions (Assembler.tidy_start name) h
  have htables := (Assembler.build_ok h).2.2
  have hnames : c.names = (Assembler.run { name } ds).names := congrArg Code.names htables
  have hvarnames : c.varnames = (Assembler.run { name } ds).varnames :=
    congrArg Code.varnames htables
  refine ⟨?_, ?_⟩
  · intro e he
    have hstored := htiles.stored e he
    refine ⟨fun err => hstored.decode_error, fun i => hstored.decode_ok, ?_, ?_⟩
    · intro op s hd hop
      obtain ⟨rfl, hmem, harg⟩ := Assembler.named_of_mem_emissions he hd
      rw [← hnames] at hmem harg
      exact hstored.decode_entry (fun arg => by rw [Code.resolve, hop]) hmem harg
    · intro op s hd hop
      obtain ⟨rfl, hmem, harg⟩ := Assembler.local_of_mem_emissions he hd
      rw [← hvarnames] at hmem harg
      exact hstored.decode_entry (fun arg => by rw [Code.resolve, hop]) hmem harg
  · intro hall
    rw [Code.instructions, htiles.instructionsFrom hall (by omega), List.forall₂_map_left_iff,
      List.forall₂_same]
    intro e he
    obtain ⟨i, hi⟩ := hall e he
    exact ⟨i, hi, hi, (htiles.stored e he).decode_ok hi⟩

/-- A program of one instruction of each form: an argument beyond two bytes, a name, a local, a
jump forward and an opcode without an argument. -/
theorem decoding_inverts_assembling_of_each_form :
    let ds : List Directive :=
      [.newLabel, .arg .buildTuple 65536, .name (.load .name) "x", .local (.store .fast) "y",
        .jump .jumpForward 0, .bind 0, .op .nop]
    let es := Assembler.emissions { name := "f" } ds
    es.map (fun e => (e.op, e.arg?, e.offset, e.next)) =
      [(.buildTuple, some 65536, 0, 6), (.load .name, some 0, 6, 9), (.store .fast, some 0, 9, 12),
        (.jumpForward, none, 12, 15), (.nop, some 0, 15, 16)] ∧
    ∃ c, assemble "f" ds = .ok c ∧ (∀ e ∈ es, ∃ i, c.decode e.offset = .ok i) ∧
      List.Forall₂ (fun x e => ∃ i, x = .ok i ∧ c.decode e.offset = .ok i ∧ e.Matches i)
        c.instructions es ∧
      (∃ i, c.decode 6 = .ok i ∧ i.operand = .name "x") ∧
      ∃ i, c.decode 9 = .ok i ∧ i.operand = .local "y" := by
  intro ds es
  have hassembled : es.map (fun e => (e.op, e.arg?, e.offset, e.next)) =
        [(.buildTuple, some 65536, 0, 6), (.load .name, some 0, 6, 9),
          (.store .fast, some 0, 9, 12), (.jumpForward, none, 12, 15), (.nop, some 0, 15, 16)] ∧
      ∃ c ∈ (assemble "f" ds).toOption, c.names = #["x"] ∧ c.varnames = #["y"] ∧
        ∀ e ∈ es, (c.decode e.offset).isOk := by
    decide +kernel +revert
  obtain ⟨hes, c, hc, hnames, hvarnames, hdecoded⟩ := hassembled
  have hassemble : assemble "f" ds = .ok c := by
    cases hresult : assemble "f" ds with
    | error e =>
        rw [hresult] at hc
        cases hc
    | ok c' =>
        rw [hresult] at hc
        cases hc
        rfl
  have hall : ∀ e ∈ es, ∃ i, c.decode e.offset = .ok i := by
    intro e he
    have hok := hdecoded e he
    cases hd : c.decode e.offset with
    | error err =>
        rw [hd] at hok
        cases hok
    | ok i => exact ⟨i, rfl⟩
  obtain ⟨heach, hstream⟩ := decoding_inverts_assembling hassemble
  refine ⟨hes, c, hassemble, hall, hstream hall, ?_, ?_⟩
  · have hloads : es[1]? = some ⟨.name (.load .name) "x", .load .name, some 0, 6, 9⟩ := by cbv
    obtain ⟨-, -, hname, -⟩ := heach _ (List.mem_of_getElem? hloads)
    obtain ⟨i, t, hi, hoperand, -, ht⟩ := hname _ "x" rfl rfl
    rw [ht (by rw [hnames]; decide)] at hoperand
    exact ⟨i, hi, hoperand⟩
  · have hstores : es[2]? = some ⟨.local (.store .fast) "y", .store .fast, some 0, 9, 12⟩ := by
      cbv
    obtain ⟨-, -, -, hlocal⟩ := heach _ (List.mem_of_getElem? hstores)
    obtain ⟨i, t, hi, hoperand, -, ht⟩ := hlocal _ "y" rfl rfl
    rw [ht (by rw [hvarnames]; decide)] at hoperand
    exact ⟨i, hi, hoperand⟩

end StackVM
