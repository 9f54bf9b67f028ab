import Cil.Instruction

/-!
# Instruction sequences

`Code` is the sequence of instructions of a method body. Instructions are laid out
without gaps, so an instruction starts where the sizes of its predecessors add up
to. `Code.boundaries` lists these places together with the end of the code; offsets
and the listing are read off it.

`Code.unmatched` looks for opcodes that have to occur in a given order but not next
to each other. It takes each expected opcode at its first chance, which finds all
that can be found.
-/

namespace Cil

structure Code where
  instructions : Array Instruction := #[]
  deriving DecidableEq, Repr

namespace Code

def empty : Code := {}

/-- The code that consists of these instructions. -/
def ofList (is : List Instruction) : Code := ⟨is.toArray⟩

/-- The instructions in order. -/
def toList (c : Code) : List Instruction := c.instructions.toList

/-- The number of instructions. -/
def length (c : Code) : Nat := c.instructions.size

def isEmpty (c : Code) : Bool := c.instructions.isEmpty

def push (c : Code) (i : Instruction) : Code := ⟨c.instructions.push i⟩

def get? (c : Code) (n : Nat) : Option Instruction := c.instructions[n]?

def last? (c : Code) : Option Instruction := c.instructions.back?

def opcodes (c : Code) : List Opcode := c.toList.map Instruction.opcode

/-- The number of bytes of the encoded code. -/
def byteSize (c : Code) : Nat :=
  c.instructions.foldl (fun n i => n + i.byteSize) 0

/-- Where each instruction starts, and where the last one ends. -/
def boundaries (is : List Instruction) : List Nat :=
  is.scanl (fun offset i => offset + i.byteSize) 0

/-- Where each instruction starts. -/
def offsets (c : Code) : List Nat :=
  (boundaries c.toList).dropLast

/-- One line of a listing: the offset in at least four hexadecimal digits, then the
instruction. -/
def line (offset : Nat) (i : Instruction) : String :=
  "IL_" ++ Hex.padded 4 offset ++ ": " ++ i.text ++ "\n"

/-- The code as text, one instruction a line. -/
def listing (c : Code) : String :=
  String.join (List.zipWith line (boundaries c.toList) c.toList)

/-- The expected opcodes that are left when each has been taken at its first
occurrence behind the one before it. -/
def unmatched : (expected actual : List Opcode) → List Opcode
  | expected, [] => expected
  | [], _ :: _ => []
  | e :: es, a :: as => if e = a then unmatched es as else unmatched (e :: es) as

/-- Mnemonics in quotes, separated by commas, in brackets. -/
def quotedNames (ops : List Opcode) : String :=
  "[" ++ ", ".intercalate (ops.map fun op => "\"" ++ op.name ++ "\"") ++ "]"

/-- Whether the code consists of exactly these opcodes. -/
def hasOpcodes (c : Code) (expected : List Opcode) : Bool :=
  c.opcodes == expected

/-- The complaint about expected opcodes that do not occur in order, or nothing if
all of them do. -/
def missingOpcodes? (c : Code) (expected : List Opcode) : Option String :=
  match unmatched expected c.opcodes with
  | [] => none
  | left =>
    some ("Missing opcodes in sequence.\nExpected to find: " ++ quotedNames left
      ++ "\nActual stream:    " ++ quotedNames c.opcodes)

@[simp] theorem toList_empty : empty.toList = [] := rfl

@[simp] theorem toList_ofList (is : List Instruction) : (ofList is).toList = is := rfl

@[simp] theorem ofList_toList (c : Code) : ofList c.toList = c := by
  simp [ofList, toList]

@[simp] theorem toList_push (c : Code) (i : Instruction) : (c.push i).toList = c.toList ++ [i] := by
  simp [toList, push]

@[simp] theorem length_push (c : Code) (i : Instruction) : (c.push i).length = c.length + 1 := by
  simp [length, push]

@[simp] theorem byteSize_push (c : Code) (i : Instruction) :
    (c.push i).byteSize = c.byteSize + i.byteSize := by
  simp [byteSize, push]

theorem length_toList (c : Code) : c.toList.length = c.length := by
  simp [toList, length]

/-- Two pieces of code are the same when their instructions are. -/
theorem ext_toList {c d : Code} (h : c.toList = d.toList) : c = d := by
  cases c
  cases d
  simpa [toList] using h

end Code
end Cil
