import Cil.Operand

/-!
# Opcodes and instructions

The instruction set. Families of opcodes that differ only in a number or in the
width of their operand are one constructor each. A dedicated form such as `ldarg.2`
carries the number it stands for and needs no operand; a form that takes a slot as
its operand carries the width in which that slot is encoded.

Ten opcodes have a mnemonic and a size but no place in the grammar of instructions
that a method body may hold. `Opcode.operandKind?` is that grammar.

An instruction is an opcode with an operand. The type does not insist that the two
fit together: what a body may hold is decided when the instruction is appended.
-/

namespace Cil

/-- How many bytes a slot operand takes. -/
inductive Width where
  | short
  | long
  deriving DecidableEq, Hashable, Repr

namespace Width

def bytes : Width → Nat
  | .short => 1
  | .long => 2

/-- The largest slot number that can be encoded. -/
def maxIndex : Width → Nat
  | .short => 255
  | .long => 65535

/-- What a width adds to the mnemonic of its family. -/
def mark : Width → String
  | .short => ".s"
  | .long => ""

end Width

/-- First the opcodes outside the grammar, then integer constants, arguments, locals,
stack and arithmetic, arrays, and last objects and calls. -/
inductive Opcode where
  | nop
  | brk
  | br
  | brfalse
  | brtrue
  | leave
  | throw
  | xor
  | neg
  | not
  | ldcSmall (value : Fin 9)
  | ldcByte
  | ldcWord
  | ldargAt (slot : Fin 4)
  | ldarg (width : Width)
  | ldarga (width : Width)
  | starg (width : Width)
  | ldlocAt (slot : Fin 4)
  | stlocAt (slot : Fin 4)
  | ldloc (width : Width)
  | ldloca (width : Width)
  | stloc (width : Width)
  | ldnull
  | dup
  | pop
  | add
  | sub
  | mul
  | ceq
  | cgt
  | clt
  | convI4
  | newarr
  | ldlen
  | ldelemRef
  | stelemRef
  | ldelem
  | stelem
  | call
  | callvirt
  | ldftn
  | newobj
  | castclass
  | isinst
  | box
  | unboxAny
  | initobj
  | ret
  deriving DecidableEq, Hashable, Repr

namespace Opcode

/-- The dedicated constant loads, in the order of the constants. -/
def smallIntLoads : List Opcode := (List.finRange 9).map .ldcSmall

/-- The dedicated argument loads, in the order of the slots. -/
def argLoads : List Opcode := (List.finRange 4).map .ldargAt

/-- The dedicated local loads, in the order of the slots. -/
def localLoads : List Opcode := (List.finRange 4).map .ldlocAt

/-- The dedicated local stores, in the order of the slots. -/
def localStores : List Opcode := (List.finRange 4).map .stlocAt

/-- The members of a family of slot opcodes. -/
def bothWidths (family : Width → Opcode) : List Opcode := [family .short, family .long]

/-- Every opcode once. -/
def all : List Opcode :=
  [nop, brk, br, brfalse, brtrue, leave, throw, xor, neg, not]
    ++ smallIntLoads ++ [ldcByte, ldcWord]
    ++ argLoads ++ bothWidths ldarg ++ bothWidths ldarga ++ bothWidths starg
    ++ localLoads ++ localStores
    ++ bothWidths ldloc ++ bothWidths ldloca ++ bothWidths stloc
    ++ [ldnull, dup, pop, add, sub, mul, ceq, cgt, clt, convI4]
    ++ [newarr, ldlen, ldelemRef, stelemRef, ldelem, stelem]
    ++ [call, callvirt, ldftn, newobj, castclass, isinst, box, unboxAny, initobj, ret]

/-- The mnemonic. -/
def name : Opcode → String
  | .nop => "nop"
  | .brk => "break"
  | .br => "br"
  | .brfalse => "brfalse"
  | .brtrue => "brtrue"
  | .leave => "leave"
  | .throw => "throw"
  | .xor => "xor"
  | .neg => "neg"
  | .not => "not"
  | .ldcSmall value => "ldc.i4." ++ toString value.val
  | .ldcByte => "ldc.i4.s"
  | .ldcWord => "ldc.i4"
  | .ldargAt slot => "ldarg." ++ toString slot.val
  | .ldarg width => "ldarg" ++ width.mark
  | .ldarga width => "ldarga" ++ width.mark
  | .starg width => "starg" ++ width.mark
  | .ldlocAt slot => "ldloc." ++ toString slot.val
  | .stlocAt slot => "stloc." ++ toString slot.val
  | .ldloc width => "ldloc" ++ width.mark
  | .ldloca width => "ldloca" ++ width.mark
  | .stloc width => "stloc" ++ width.mark
  | .ldnull => "ldnull"
  | .dup => "dup"
  | .pop => "pop"
  | .add => "add"
  | .sub => "sub"
  | .mul => "mul"
  | .ceq => "ceq"
  | .cgt => "cgt"
  | .clt => "clt"
  | .convI4 => "conv.i4"
  | .newarr => "newarr"
  | .ldlen => "ldlen"
  | .ldelemRef => "ldelem.ref"
  | .stelemRef => "stelem.ref"
  | .ldelem => "ldelem"
  | .stelem => "stelem"
  | .call => "call"
  | .callvirt => "callvirt"
  | .ldftn => "ldftn"
  | .newobj => "newobj"
  | .castclass => "castclass"
  | .isinst => "isinst"
  | .box => "box"
  | .unboxAny => "unbox.any"
  | .initobj => "initobj"
  | .ret => "ret"

/-- The opcode with a given mnemonic. -/
def ofName? (s : String) : Option Opcode :=
  all.find? fun op => op.name == s

/-- The one kind of operand that an opcode takes, or nothing for an opcode outside
the grammar. -/
def operandKind? : Opcode → Option Operand.Kind
  | .nop | .brk | .br | .brfalse | .brtrue | .leave | .throw | .xor | .neg | .not => none
  | .ldcSmall _ | .ldargAt _ | .ldlocAt _ | .stlocAt _
  | .ldnull | .dup | .pop | .add | .sub | .mul | .ceq | .cgt | .clt | .convI4
  | .ldlen | .ldelemRef | .stelemRef | .ret => some .none
  | .ldcByte => some .int8
  | .ldcWord => some .int32
  | .ldarg _ | .ldarga _ | .starg _ => some .arg
  | .ldloc _ | .ldloca _ | .stloc _ => some .loc
  | .call | .callvirt | .ldftn => some .method
  | .newarr | .castclass | .isinst | .box | .unboxAny | .initobj | .ldelem | .stelem =>
    some .type
  | .newobj => some .ctor

/-- Whether some operand makes a legal instruction of this opcode. -/
def isRecognized (op : Opcode) : Bool := op.operandKind?.isSome

/-- The width of the slot operand, for the opcodes that take one. -/
def slotWidth? : Opcode → Option Width
  | .ldarg width | .ldarga width | .starg width => some width
  | .ldloc width | .ldloca width | .stloc width => some width
  | _ => none

/-- The opcodes with a slot operand of one byte. -/
def shortForms : List Opcode :=
  [ldarg .short, ldarga .short, starg .short, ldloc .short, ldloca .short, stloc .short]

/-- The opcodes with a slot operand of two bytes. -/
def longForms : List Opcode :=
  [ldarg .long, ldarga .long, starg .long, ldloc .long, ldloca .long, stloc .long]

/-- The largest slot number that the operand of this opcode can hold. -/
def maxSlotIndex? (op : Opcode) : Option Nat :=
  op.slotWidth?.map Width.maxIndex

/-- The slot that a dedicated form addresses without naming it in an operand. -/
def impliedSlot? : Opcode → Option Slot
  | .ldargAt slot => some (.arg slot.val.toUInt32)
  | .ldlocAt slot | .stlocAt slot => some (.loc slot.val.toUInt32)
  | _ => none

/-- The bytes of the opcode itself. Forms behind the escape byte take two. -/
def opcodeBytes : Opcode → Nat
  | .ceq | .cgt | .clt | .ldftn | .initobj => 2
  | .ldarg .long | .ldarga .long | .starg .long => 2
  | .ldloc .long | .ldloca .long | .stloc .long => 2
  | _ => 1

/-- The bytes of the operand. Branches carry a distance, although the grammar has no
operand for them; references to types and members are encoded as 32-bit numbers. -/
def operandBytes (op : Opcode) : Nat :=
  match op with
  | .br | .brfalse | .brtrue | .leave => 4
  | _ =>
    match op.operandKind? with
    | none | some .none => 0
    | some .int8 => 1
    | some .int32 => 4
    | some .arg | some .loc => (op.slotWidth?.map Width.bytes).getD 0
    | some .method | some .type | some .ctor => 4

theorem mem_all (op : Opcode) : op ∈ all := by
  cases op with
  | ldcSmall value => revert value; decide
  | ldargAt slot => revert slot; decide
  | ldlocAt slot => revert slot; decide
  | stlocAt slot => revert slot; decide
  | ldarg width | ldarga width | starg width | ldloc width | ldloca width | stloc width =>
    cases width <;> decide
  | _ => decide

theorem ofName?_name (op : Opcode) : ofName? op.name = some op := by
  have hall : ∀ op ∈ all, ofName? op.name = some op := by decide +kernel
  exact hall op op.mem_all

theorem eq_of_name_eq {op op' : Opcode} (h : op.name = op'.name) : op = op' := by
  have hread : ofName? op.name = some op' := h ▸ op'.ofName?_name
  exact Option.some.inj (op.ofName?_name.symm.trans hread)

/-- The characters that occur in mnemonics. -/
def isNameChar (c : Char) : Bool := c.isLower || c.isDigit || c == '.'

theorem isNameChar_of_mem_name {op : Opcode} {c : Char} (h : c ∈ op.name.toList) :
    isNameChar c = true := by
  have hall : ∀ op ∈ all, op.name.toList.all isNameChar = true := by decide +kernel
  exact List.all_eq_true.mp (hall op op.mem_all) c h

theorem not_mem_name (op : Opcode) {c : Char} (h : isNameChar c = false) :
    c ∉ op.name.toList := by
  intro hmem
  rw [isNameChar_of_mem_name hmem] at h
  cases h

theorem slotWidth?_eq_short_iff {op : Opcode} :
    op.slotWidth? = some .short ↔ op ∈ shortForms := by
  cases op <;> simp [slotWidth?, shortForms]

theorem slotWidth?_eq_long_iff {op : Opcode} :
    op.slotWidth? = some .long ↔ op ∈ longForms := by
  cases op <;> simp [slotWidth?, longForms]

end Opcode

structure Instruction where
  opcode : Opcode
  operand : Operand
  deriving DecidableEq, Hashable, Repr

namespace Instruction

/-- An instruction without an operand. -/
def simple (opcode : Opcode) : Instruction := ⟨opcode, .none⟩

/-- The number of bytes that the encoded instruction takes. -/
def byteSize (i : Instruction) : Nat :=
  i.opcode.opcodeBytes + i.opcode.operandBytes

/-- The mnemonic, followed by the operand if there is one. -/
def text (i : Instruction) : String :=
  if i.operand.isNone then i.opcode.name
  else i.opcode.name ++ " " ++ i.operand.text

/-- The slot that an instruction addresses: the one in its operand, or else the one
that its opcode implies. -/
def slot? (i : Instruction) : Option Slot :=
  match i.operand with
  | .slot place => some place
  | _ => i.opcode.impliedSlot?

@[simp] theorem opcode_simple (op : Opcode) : (simple op).opcode = op := rfl
@[simp] theorem operand_simple (op : Opcode) : (simple op).operand = .none := rfl

@[simp] theorem slot?_simple (op : Opcode) : (simple op).slot? = op.impliedSlot? := rfl

@[simp] theorem slot?_slot (op : Opcode) (place : Slot) :
    (Instruction.mk op (.slot place)).slot? = some place := rfl

theorem byteSize_pos (i : Instruction) : 0 < i.byteSize := by
  have h : 0 < i.opcode.opcodeBytes := by
    unfold Opcode.opcodeBytes
    split <;> decide
  exact Nat.lt_of_lt_of_le h (Nat.le_add_right _ _)

end Instruction
end Cil
