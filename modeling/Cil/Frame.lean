import Cil.Instruction

/-!
# Frames and what they admit

A frame is what a method body may address: the arguments, fixed by the signature,
and the locals, declared one after the other. Slots are numbered in the order of
declaration and are never given back, so a slot keeps its type. Slot numbers are
32-bit words. The number of a new local is the count of earlier ones in that width.

Three questions are asked of an instruction before it may enter a body, and the
first that fails is reported. Does the opcode belong to the grammar, and is its
operand of the kind it takes? Is the slot that it addresses declared? Does the
number of that slot fit the operand? The check of the slot also finds the slot's
type, which is what the instruction needs to say what it leaves on the stack.

A fault is about the shape of an instruction or about a slot that was never
declared. `Fault.message` is the one place that words them.
-/

namespace Cil

inductive Fault where
  /-- The opcode has no place in a method body. -/
  | notInGrammar (opcode : Opcode)
  /-- The opcode takes another kind of operand. -/
  | operandMismatch (opcode : Opcode) (expected found : Operand.Kind)
  /-- The slot number needs more bytes than the operand has. -/
  | slotTooWide (opcode : Opcode) (index : UInt32)
  /-- The method has fewer arguments. -/
  | undeclaredArg (index : UInt32) (count : Nat)
  /-- Fewer locals have been declared. -/
  | undeclaredLocal (index : UInt32) (count : Nat)
  deriving DecidableEq, Repr

namespace Fault

def message : Fault → String
  | .notInGrammar opcode => "opcode '" ++ opcode.name ++ "' is not supported"
  | .operandMismatch opcode expected found =>
    "opcode '" ++ opcode.name ++ "' expects " ++ expected.text ++ ", got " ++ found.text
  | .slotTooWide opcode index =>
    "slot " ++ toString index.toNat ++ " does not fit the operand of '" ++ opcode.name ++ "'"
  | .undeclaredArg index count =>
    "argument " ++ toString index.toNat ++ " is out of range (" ++ toString count ++ " declared)"
  | .undeclaredLocal index count =>
    "local " ++ toString index.toNat ++ " is out of range (" ++ toString count ++ " declared)"

/-- The shape of the instruction is at fault. -/
def isUnsupported : Fault → Bool
  | .notInGrammar _ | .operandMismatch _ _ _ | .slotTooWide _ _ => true
  | .undeclaredArg _ _ | .undeclaredLocal _ _ => false

/-- A slot was addressed that does not exist. -/
def isOutOfRange : Fault → Bool
  | .undeclaredArg _ _ | .undeclaredLocal _ _ => true
  | .notInGrammar _ | .operandMismatch _ _ _ | .slotTooWide _ _ => false

/-- The opcode of a fault in the shape of an instruction. -/
def opcode? : Fault → Option Opcode
  | .notInGrammar opcode | .operandMismatch opcode _ _ | .slotTooWide opcode _ => some opcode
  | .undeclaredArg _ _ | .undeclaredLocal _ _ => none

end Fault

/-- The locals declared so far. -/
structure Locals where
  types : Array Ty := #[]
  deriving DecidableEq, Repr

namespace Locals

def empty : Locals := {}

def count (l : Locals) : Nat := l.types.size

def isEmpty (l : Locals) : Bool := l.types.isEmpty

/-- Declare one more local and return its number. -/
def declare (l : Locals) (t : Ty) : UInt32 × Locals :=
  (l.types.size.toUInt32, ⟨l.types.push t⟩)

/-- The type of a declared local. -/
def typeOf (l : Locals) (index : UInt32) : Except Fault Ty :=
  match l.types[index.toNat]? with
  | some t => .ok t
  | none => .error (.undeclaredLocal index l.count)

@[simp] theorem count_declare (l : Locals) (t : Ty) : (l.declare t).2.count = l.count + 1 := by
  simp [declare, count]

@[simp] theorem types_declare (l : Locals) (t : Ty) :
    (l.declare t).2.types.toList = l.types.toList ++ [t] := by
  simp [declare]

end Locals

/-- The arguments and locals of a method. -/
structure Frame where
  args : Array Ty
  locals : Locals := .empty
  deriving DecidableEq, Repr

namespace Frame

/-- Declare one more local and return its number. -/
def declareLocal (f : Frame) (t : Ty) : UInt32 × Frame :=
  let (index, locals) := f.locals.declare t
  (index, ⟨f.args, locals⟩)

/-- The type of an argument of the method. -/
def argType (f : Frame) (index : UInt32) : Except Fault Ty :=
  match f.args[index.toNat]? with
  | some t => .ok t
  | none => .error (.undeclaredArg index f.args.size)

/-- The declared type of a slot. -/
def typeOf (f : Frame) : Slot → Except Fault Ty
  | .arg index => f.argType index
  | .loc index => f.locals.typeOf index

@[simp] theorem args_declareLocal (f : Frame) (t : Ty) : (f.declareLocal t).2.args = f.args := rfl

@[simp] theorem locals_declareLocal (f : Frame) (t : Ty) :
    (f.declareLocal t).2.locals = (f.locals.declare t).2 := rfl

end Frame

namespace Instruction

/-- The opcode and the kind of the operand belong together. -/
def checkShape (i : Instruction) : Except Fault Unit :=
  match i.opcode.operandKind? with
  | none => .error (.notInGrammar i.opcode)
  | some expected =>
    if expected = i.operand.kind then .ok ()
    else .error (.operandMismatch i.opcode expected i.operand.kind)

/-- A slot operand can be encoded in the bytes that the opcode has for it. -/
def checkWidth (i : Instruction) : Except Fault Unit :=
  match i.operand, i.opcode.maxSlotIndex? with
  | .slot place, some limit =>
    if place.index.toNat ≤ limit then .ok ()
    else .error (.slotTooWide i.opcode place.index)
  | _, _ => .ok ()

/-- The declared type of the addressed slot, if the instruction addresses one. An
undeclared slot is reported before one that does not fit. -/
def resolve (i : Instruction) (f : Frame) : Except Fault (Option Ty) :=
  match i.slot? with
  | none => .ok none
  | some place =>
    match f.typeOf place, i.checkWidth with
    | .error e, _ => .error e
    | .ok _, .error e => .error e
    | .ok t, .ok () => .ok (some t)

/-- The whole check, with the type of the addressed slot as its result. -/
def check (i : Instruction) (f : Frame) : Except Fault (Option Ty) :=
  match i.checkShape with
  | .error e => .error e
  | .ok () => i.resolve f

/-- The shape is right exactly when the grammar gives the opcode the kind of operand
that is there. -/
theorem checkShape_eq_ok_iff {i : Instruction} :
    i.checkShape = .ok () ↔ i.opcode.operandKind? = some i.operand.kind := by
  unfold checkShape
  cases h : i.opcode.operandKind? with
  | none => simp
  | some expected => by_cases he : expected = i.operand.kind <;> simp [he]

/-- An instruction that addresses no slot has nothing to resolve. -/
theorem resolve_of_slot?_eq_none {i : Instruction} (h : i.slot? = none) (f : Frame) :
    i.resolve f = .ok none := by
  simp [resolve, h]

end Instruction
end Cil
