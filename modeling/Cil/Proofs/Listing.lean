import Std.Data.String.ToInt
import Cil.Proofs.HexNumeral
import Cil.Proofs.Layout
import Cil.Proofs.TopType

/-!
# Listings can be read back

A listing has one line for each instruction, and a line can be taken apart again: the
offset ends at the first colon, since a numeral has none, and the mnemonic ends at the
first blank, since no mnemonic has one. What follows the blank is the text of the operand,
whatever characters it consists of, as long as no newline is among them. A line without a
blank shows an instruction without an operand, which is not the same as an operand whose
text is empty.

The text does not tell of what kind an operand is. Over the code of a builder the opcode
does, so that numbers and slots can be recovered as well as their texts.
-/

namespace Cil

/-- The text of an operand that is there. -/
def Operand.text? (o : Operand) : Option String :=
  if o.isNone then .none else some o.text

theorem Operand.getD_text? (o : Operand) : o.text?.getD "" = o.text := by
  cases o <;> rfl

theorem Operand.isNone_text? (o : Operand) : o.text?.isNone = o.isNone := by
  cases o <;> rfl

/-- What a line shows of an instruction. -/
def Instruction.shown (i : Instruction) : Opcode × Option String :=
  (i.opcode, i.operand.text?)

namespace Listing

/-- The part of a text before the first `c`, and the rest from there on. -/
def cutAt (c : Char) (cs : List Char) : List Char × List Char :=
  (cs.takeWhile (· ≠ c), cs.dropWhile (· ≠ c))

/-- The lines of a text in which every line is ended. -/
def lines (s : String) : List (List Char) :=
  (s.toList.splitOn '\n').dropLast

/-- The numeral of a line, which stands between `IL_` and a colon with a blank, and the
instruction behind it. -/
def parts? : List Char → Option (List Char × List Char)
  | 'I' :: 'L' :: '_' :: cs =>
    match cutAt ':' cs with
    | (numeral, ':' :: ' ' :: instruction) => some (numeral, instruction)
    | _ => none
  | _ => none

/-- The offset in a line. -/
def offset? (line : List Char) : Option Nat :=
  (parts? line).bind fun parts => Hex.value? parts.1

/-- The opcode in a line, and the text of the operand if there is one. -/
def instruction? (line : List Char) : Option (Opcode × Option String) :=
  (parts? line).bind fun parts =>
    match cutAt ' ' parts.2 with
    | (name, []) => (Opcode.ofName? (String.ofList name)).map fun op => (op, none)
    | (name, _ :: text) =>
      (Opcode.ofName? (String.ofList name)).map fun op => (op, some (String.ofList text))

/-- A part without `c` is cut off where the rest begins with `c` or where nothing is left. -/
theorem cutAt_append {c : Char} {xs ys : List Char} (h : c ∉ xs)
    (hys : ∀ y, ys.head? = some y → y = c) : cutAt c (xs ++ ys) = (xs, ys) := by
  have hxs : ∀ x ∈ xs, decide (x ≠ c) = true := by
    intro x hx
    exact decide_eq_true fun hxc => h (hxc ▸ hx)
  rw [cutAt, List.takeWhile_append_of_pos hxs, List.dropWhile_append_of_pos hxs]
  cases ys with
  | nil => simp
  | cons y ys =>
    obtain rfl := hys y rfl
    simp

/-- A line without the newline at its end. -/
def lineChars (offset : Nat) (i : Instruction) : List Char :=
  'I' :: 'L' :: '_' :: (Hex.digits 4 offset ++ ':' :: ' ' :: i.text.toList)

theorem toList_line (offset : Nat) (i : Instruction) :
    (Code.line offset i).toList = lineChars offset i ++ ['\n'] := by
  simp [Code.line, lineChars]

theorem parts?_lineChars (offset : Nat) (i : Instruction) :
    parts? (lineChars offset i) = some (Hex.digits 4 offset, i.text.toList) := by
  have hcolon : ':' ∉ Hex.digits 4 offset := Hex.not_mem_digits (by decide) 4 offset
  have hcut : cutAt ':' (Hex.digits 4 offset ++ ':' :: ' ' :: i.text.toList) =
      (Hex.digits 4 offset, ':' :: ' ' :: i.text.toList) :=
    cutAt_append hcolon (by simp [eq_comm])
  simp only [parts?, lineChars, hcut]

theorem offset?_lineChars (offset : Nat) (i : Instruction) :
    offset? (lineChars offset i) = some offset := by
  rw [offset?, parts?_lineChars]
  exact Hex.value?_digits 4 offset

/-- What an operand adds to the mnemonic. -/
def tail (o : Operand) : List Char :=
  if o.isNone then [] else ' ' :: o.text.toList

theorem head?_tail (o : Operand) (c : Char) (h : (tail o).head? = some c) : c = ' ' := by
  rw [tail] at h
  split at h
  · cases h
  · exact (Option.some.inj h).symm

theorem toList_text (i : Instruction) :
    i.text.toList = i.opcode.name.toList ++ tail i.operand := by
  rw [Instruction.text, tail]
  split
  · simp
  · simp

theorem instruction?_lineChars (offset : Nat) (i : Instruction) :
    instruction? (lineChars offset i) = some i.shown := by
  have hcut : cutAt ' ' i.text.toList = (i.opcode.name.toList, tail i.operand) := by
    rw [toList_text]
    exact cutAt_append (i.opcode.not_mem_name (by decide)) (head?_tail i.operand)
  rw [instruction?, parts?_lineChars, Option.bind_some, hcut, Instruction.shown, Operand.text?,
    tail]
  by_cases hnone : i.operand.isNone = true
  · simp [hnone, Opcode.ofName?_name]
  · simp [hnone, Opcode.ofName?_name]

end Listing

/-- The text of the operand stays on the line. -/
def Instruction.OnOneLine (i : Instruction) : Prop :=
  '\n' ∉ i.operand.text.toList

namespace Listing

theorem newline_not_mem_lineChars {i : Instruction} (h : i.OnOneLine) (offset : Nat) :
    '\n' ∉ lineChars offset i := by
  have hdigits : '\n' ∉ Hex.digits 4 offset := Hex.not_mem_digits (by decide) 4 offset
  have hname : '\n' ∉ i.opcode.name.toList := i.opcode.not_mem_name (by decide)
  have htail : '\n' ∉ tail i.operand := by
    rw [tail]
    split
    · exact List.not_mem_nil
    · intro hmem
      obtain hblank | htext := List.mem_cons.mp hmem
      · cases hblank
      · exact h htext
  simp [lineChars, toList_text, hdigits, hname, htail]

theorem lines_listingFrom_cons {i : Instruction} (h : i.OnOneLine) (origin : Nat)
    (is : List Instruction) :
    lines (Code.listingFrom origin (i :: is)) =
      lineChars origin i :: lines (Code.listingFrom (origin + i.byteSize) is) := by
  rw [lines, Code.listingFrom_cons, String.toList_append, toList_line, List.append_assoc,
    List.singleton_append,
    List.splitOn_append_cons_self_of_not_mem (newline_not_mem_lineChars h origin),
    List.dropLast_cons_of_ne_nil (List.splitOn_ne_nil _ _)]
  rfl

variable {is : List Instruction} (h : ∀ i ∈ is, i.OnOneLine) (origin : Nat)

include h

/-- The numerals of a listing are the offsets. -/
theorem map_offset?_lines :
    (lines (Code.listingFrom origin is)).map offset? =
      (Code.offsetsFrom origin is).map some := by
  induction is generalizing origin with
  | nil => rfl
  | cons i is ih =>
    rw [List.forall_mem_cons] at h
    rw [lines_listingFrom_cons h.1, Code.offsetsFrom_cons, List.map_cons, List.map_cons,
      offset?_lineChars, ih h.2]

/-- The rest of a listing shows the instructions. -/
theorem map_instruction?_lines :
    (lines (Code.listingFrom origin is)).map instruction? =
      (is.map Instruction.shown).map some := by
  induction is generalizing origin with
  | nil => rfl
  | cons i is ih =>
    rw [List.forall_mem_cons] at h
    rw [lines_listingFrom_cons h.1, List.map_cons, List.map_cons, List.map_cons,
      instruction?_lineChars, ih h.2]

end Listing

namespace Code

/-- Equal listings show the same instructions. -/
theorem map_shown_eq_of_listing_eq {c d : Code} (hc : ∀ i ∈ c.toList, i.OnOneLine)
    (hd : ∀ i ∈ d.toList, i.OnOneLine) (h : c.listing = d.listing) :
    c.toList.map Instruction.shown = d.toList.map Instruction.shown := by
  have hread := Listing.map_instruction?_lines hc 0
  rw [← listing_eq_listingFrom, h, listing_eq_listingFrom,
    Listing.map_instruction?_lines hd 0] at hread
  exact (List.map_inj_right fun _ _ => Option.some.inj).mp hread.symm

end Code

namespace Operand

/-- The operand is absent, a number or a slot. -/
def isPlain : Operand → Bool
  | .none | .int8 _ | .int32 _ | .slot _ => true
  | .method _ | .type _ | .ctor _ => false

/-- Among operands of one kind, a number or a slot is known by its text. -/
theorem eq_of_text_eq {o p : Operand} (hplain : o.isPlain = true) (hkind : o.kind = p.kind)
    (htext : o.text = p.text) : o = p := by
  have hshape := p.shape_kind
  rw [← hkind] at hshape
  cases o with
  | none => exact hshape.symm
  | int8 value =>
    obtain ⟨value', rfl⟩ := hshape
    have hvalue : value.toInt = value'.toInt := Int.repr_inj.mp htext
    rw [Int8.toInt_inj.mp hvalue]
  | int32 value =>
    obtain ⟨value', rfl⟩ := hshape
    have hvalue : value.toInt = value'.toInt := Int.repr_inj.mp htext
    rw [Int32.toInt_inj.mp hvalue]
  | slot place =>
    cases place with
    | arg index =>
      obtain ⟨index', rfl⟩ := hshape
      have hindex : index.toNat = index'.toNat := Nat.repr_inj.mp htext
      rw [UInt32.toNat_inj.mp hindex]
    | loc index =>
      obtain ⟨index', rfl⟩ := hshape
      have hindex : index.toNat = index'.toNat := Nat.repr_inj.mp htext
      rw [UInt32.toNat_inj.mp hindex]
  | method member => cases hplain
  | type ty => cases hplain
  | ctor member => cases hplain

theorem newline_not_mem_repr (n : Nat) : '\n' ∉ n.repr.toList := by
  intro h
  rw [Nat.repr_eq_ofList_toDigits, String.toList_ofList] at h
  have hdigit := Nat.isDigit_of_mem_toDigits (by decide) (by decide) h
  revert hdigit
  decide

theorem newline_not_mem_repr_int (n : Int) : '\n' ∉ n.repr.toList := by
  rw [Int.repr_eq_if]
  split
  · exact newline_not_mem_repr _
  · rw [String.toList_append, List.mem_append, not_or]
    exact ⟨by decide, newline_not_mem_repr _⟩

theorem newline_not_mem_text {o : Operand} (h : o.isPlain = true) : '\n' ∉ o.text.toList := by
  cases o with
  | none => exact List.not_mem_nil
  | int8 value => exact newline_not_mem_repr_int _
  | int32 value => exact newline_not_mem_repr_int _
  | slot place => exact newline_not_mem_repr _
  | method member => cases h
  | type ty => cases h
  | ctor member => cases h

end Operand

namespace Instruction

/-- A line shows all of a well-formed instruction, if its operand is a number or a slot. -/
theorem eq_of_shown_eq {i j : Instruction} {f g : Frame} (hi : i.WellFormed f)
    (hj : j.WellFormed g) (hplain : i.operand.isPlain = true) (h : i.shown = j.shown) : i = j := by
  obtain ⟨op, o⟩ := i
  obtain ⟨op', p⟩ := j
  obtain ⟨rfl, htext⟩ := Prod.mk.inj h
  -- The opcode is the same, and it takes operands of one kind only.
  have hkind : o.kind = p.kind := Option.some.inj (hi.kind.symm.trans hj.kind)
  have hsame : o.text = p.text := by
    rw [← o.getD_text?, htext, p.getD_text?]
  obtain rfl : o = p := Operand.eq_of_text_eq hplain hkind hsame
  rfl

theorem eq_of_map_shown_eq {is js : List Instruction} {f g : Frame}
    (his : ∀ i ∈ is, i.WellFormed f ∧ i.operand.isPlain = true) (hjs : ∀ j ∈ js, j.WellFormed g)
    (h : is.map shown = js.map shown) : is = js := by
  induction is generalizing js with
  | nil => exact (List.map_eq_nil_iff.mp h.symm).symm
  | cons i is ih =>
    obtain ⟨j, js, rfl, hfirst, hrest⟩ := List.map_eq_cons_iff.mp h.symm
    rw [List.forall_mem_cons] at his hjs
    rw [eq_of_shown_eq his.1.1 hjs.1 his.1.2 hfirst.symm, ih his.2 hjs.2 hrest.symm]

end Instruction

namespace Command

open Builder

/-- Code whose operands stay on their lines is known by its listing up to what operands of
one text have in common: how many instructions there are, their opcodes, which of them have
an operand, and the texts of the operands. The numeral between `IL_` and the colon on a line
is the offset of its instruction. Code of two builders with no operands but numbers and
slots is known by its listing altogether. -/
theorem listing_read_back :
    (∀ c d : Code, (∀ i ∈ c.toList, '\n' ∉ i.operand.text.toList) →
      (∀ i ∈ d.toList, '\n' ∉ i.operand.text.toList) → c.listing = d.listing →
      c.length = d.length ∧ c.opcodes = d.opcodes ∧
        c.toList.map (·.operand.text) = d.toList.map (·.operand.text) ∧
        c.toList.map (·.operand.isNone) = d.toList.map (·.operand.isNone)) ∧
    (∀ c : Code, (∀ i ∈ c.toList, '\n' ∉ i.operand.text.toList) →
      (Listing.lines c.listing).map Listing.offset? = c.offsets.map some) ∧
    ∀ (args args' : Array Ty) (cs cs' : List Command),
      let c := (run cs (start args)).2.code
      let d := (run cs' (start args')).2.code
      (∀ i ∈ c.toList, i.operand.isPlain = true) → (∀ i ∈ d.toList, i.operand.isPlain = true) →
        c.listing = d.listing → c = d := by
  refine ⟨?_, ?_, ?_⟩
  · intro c d hc hd h
    have hshown := Code.map_shown_eq_of_listing_eq hc hd h
    -- All four are computed from what the lines show.
    have hlength := congrArg List.length hshown
    have hopcodes := congrArg (List.map Prod.fst) hshown
    have htexts := congrArg (List.map fun s => s.2.getD "") hshown
    have habsent := congrArg (List.map fun s => s.2.isNone) hshown
    simp only [List.length_map, Code.length_toList] at hlength
    simp only [List.map_map, Function.comp_def, Instruction.shown, Operand.getD_text?,
      Operand.isNone_text?] at hopcodes htexts habsent
    exact ⟨hlength, hopcodes, htexts, habsent⟩
  · intro c hc
    exact Listing.map_offset?_lines hc 0
  · intro args args' cs cs' c d hc hd h
    have hshown : c.toList.map Instruction.shown = d.toList.map Instruction.shown :=
      Code.map_shown_eq_of_listing_eq (fun i hi => Operand.newline_not_mem_text (hc i hi))
        (fun i hi => Operand.newline_not_mem_text (hd i hi)) h
    have hwell := wellFormed_run cs args
    have hwell' := wellFormed_run cs' args'
    apply Code.ext_toList
    exact Instruction.eq_of_map_shown_eq (fun i hi => ⟨hwell i hi, hc i hi⟩) hwell' hshown

/-- A type and a class of the same name give different code with one listing, in which an
operand of empty text is not taken for none. Two ways of pushing 9 give the same code. -/
theorem listing_read_back_of_same_text :
    let c := Code.ofList [⟨.castclass, .type .int32⟩, ⟨.box, .type (.ofValue "")⟩, .simple .ret]
    let d := Code.ofList
      [⟨.castclass, .type (.ofClass "int")⟩, ⟨.box, .type (.ofClass "")⟩, .simple .ret]
    (c ≠ d ∧ c.opcodes = d.opcodes ∧
      c.toList.map (·.operand.isNone) = d.toList.map (·.operand.isNone)) ∧
    (Listing.lines c.listing).map Listing.offset? = [some 0, some 5, some 10] ∧
    (run [.pushInt 9] (start #[])).2.code =
      (run [.emit ⟨.ldcByte, .int8 9⟩, .loadArg 0] (start #[])).2.code := by
  intro c d
  have hc : ∀ i ∈ c.toList, '\n' ∉ i.operand.text.toList := by decide
  have hd : ∀ i ∈ d.toList, '\n' ∉ i.operand.text.toList := by decide
  have hlisting : c.listing = d.listing := by decide
  obtain ⟨hequal, hoffsets, hbuilt⟩ := listing_read_back
  obtain ⟨-, hopcodes, -, habsent⟩ := hequal c d hc hd hlisting
  exact ⟨⟨by decide, hopcodes, habsent⟩, (hoffsets c hc).trans (by decide),
    hbuilt _ _ _ _ (by decide) (by decide) (by decide)⟩

end Command
end Cil
