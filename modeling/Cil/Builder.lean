import Cil.Action
import Cil.Body

/-!
# Building a method body

A builder is a body under construction together with the type that was pushed last.
Of the operand stack only that type is followed, and only through instructions that
push a value of a known type. Every other instruction leaves the note as it is, also
those that pop.

Operations run in `BuildM`, which keeps the builder also when an operation fails, so
that what a failed operation leaves behind is part of what can be said about it. They
reach the builder through the three functions of `BuildState` only, and can be run on any
other state that has them.

There are three ways for an instruction to get in. `Builder.emit` checks all of it.
`Builder.access` takes a form that was chosen to fit a slot and checks only the slot.
`Builder.append` checks nothing and is used for instructions that are right by the
way they are put together. All of them end in `append`, which is the only place
where code grows and where the type on top is noted.
-/

namespace Cil

namespace Operand

def type? : Operand → Option Ty
  | .type ty => some ty
  | _ => .none

def method? : Operand → Option Method
  | .method member => some member
  | _ => .none

def ctor? : Operand → Option Ctor
  | .ctor member => some member
  | _ => .none

end Operand

/-- The type of the value that a call leaves, if it leaves one. -/
def Method.result? (m : Method) : Option Ty :=
  if m.returns.isVoid then none else some m.returns

namespace Instruction

/-- The type of the value that an instruction pushes. `slotType` is the declared type
of the slot that it addresses. Of the constant loads only the one with a byte operand
leaves a byte. -/
def pushed? (i : Instruction) (slotType : Option Ty) : Option Ty :=
  match i.opcode with
  | .ldcSmall _ | .ldcWord | .ceq | .cgt | .clt | .ldlen | .convI4 => some .int32
  | .ldcByte => some .int8
  | .ldargAt _ | .ldarg _ | .ldlocAt _ | .ldloc _ => slotType
  | .ldarga _ | .ldloca _ => slotType.map .byRef
  | .ldnull | .box | .ldelemRef => some .object
  | .ldftn => some .int64
  | .ldelem | .castclass | .isinst | .unboxAny => i.operand.type?
  | .newarr => i.operand.type?.map .array
  | .newobj => i.operand.ctor?.map Ctor.owner
  | .call | .callvirt => i.operand.method?.bind Method.result?
  | _ => .none

/-- The type on top after the instruction, given the one before it. -/
def topAfter (i : Instruction) (slotType top : Option Ty) : Option Ty :=
  (i.pushed? slotType).or top

end Instruction

/-- A body under construction. -/
structure Builder extends Body where
  /-- The type of the value that was pushed last. -/
  top : Option Ty := none
  deriving DecidableEq, Repr

/-- The states that operations can work on. An operation looks at the slots that exist,
declares locals and appends instructions, and has no other way to see or to change the
state. `slotType` is the type of the slot that an instruction addresses. -/
class BuildState (σ : Type) where
  frame : σ → Frame
  declareLocal (t : Ty) : σ → UInt32 × σ
  append (i : Instruction) (slotType : Option Ty) : σ → σ
  frame_append (i : Instruction) (slotType : Option Ty) (s : σ) :
    frame (append i slotType s) = frame s

/-- A builder adds the instruction and notes what it pushes. -/
instance : BuildState Builder where
  frame b := b.frame
  declareLocal t b :=
    let (index, frame) := b.frame.declareLocal t
    (index, { b with frame := frame })
  append i slotType b := { b with code := b.code.push i, top := i.topAfter slotType b.top }
  frame_append _ _ _ := rfl

/-- Operations that may fail. -/
abbrev BuildOn (σ : Type) := EStateM Fault σ

/-- Operations on a builder. -/
abbrev BuildM := BuildOn Builder

namespace Builder

/-- An empty body for a method with these arguments. -/
def start (args : Array Ty) : Builder :=
  { frame := { args := args } }

/-- The body built so far. -/
def finish (b : Builder) : Body := b.toBody

variable {σ : Type} [BuildState σ]

/-- Declare a local and return its slot number. -/
def declareLocal (t : Ty) : BuildOn σ UInt32 := fun s =>
  let (index, s) := BuildState.declareLocal t s
  .ok index s

/-- Add an instruction as it is. -/
def append (i : Instruction) (slotType : Option Ty) : BuildOn σ Unit := fun s =>
  .ok () (BuildState.append i slotType s)

/-- Look at the slot that an instruction addresses. The state stays as it is. -/
def resolve (i : Instruction) : BuildOn σ (Option Ty) := fun s =>
  match i.resolve (BuildState.frame s) with
  | .ok slotType => .ok slotType s
  | .error e => .error e s

/-- Add an instruction whose shape is right, if its slot is. -/
def access (i : Instruction) : BuildOn σ Unit := do
  let slotType ← resolve i
  append i slotType

/-- Add any instruction, if it is right in every respect. -/
def emit (i : Instruction) : BuildOn σ Unit := fun s =>
  match i.check (BuildState.frame s) with
  | .ok slotType => append i slotType s
  | .error e => .error e s

/-- Add an opcode without an operand, if that is right in every respect. -/
def emitSimple (op : Opcode) : BuildOn σ Unit :=
  emit (.simple op)

/-- Push an integer constant. -/
def pushInt (value : Int32) : BuildOn σ Unit :=
  append (Action.pushInt value).shortest none

/-- Push an argument. -/
def loadArg (index : UInt32) : BuildOn σ Unit :=
  access (Action.loadArg index).shortest

/-- Push a local. -/
def loadLocal (index : UInt32) : BuildOn σ Unit :=
  access (Action.loadLocal index).shortest

/-- Pop into a local. -/
def storeLocal (index : UInt32) : BuildOn σ Unit :=
  access (Action.storeLocal index).shortest

/-- Push `count` arguments from `first` on. -/
def loadArgsFrom (first : UInt32) : (count : Nat) → BuildOn σ Unit
  | 0 => pure ()
  | n + 1 => do
    loadArg first
    loadArgsFrom (first + 1) n

/-- Push the arguments from `first` up to but without `stop`. The last of them is
looked at before any is pushed, because if it can be addressed all of them can. -/
def loadArgs (first stop : UInt32) : BuildOn σ Unit :=
  if first < stop then do
    discard (resolve (Action.loadArg (stop - 1)).shortest)
    loadArgsFrom first (stop.toNat - first.toNat)
  else pure ()

def ret : BuildOn σ Unit :=
  append (.simple .ret) none

def loadNull : BuildOn σ Unit :=
  append (.simple .ldnull) none

/-- The call of a method, through the run-time type of the receiver if it is virtual. -/
def calling (m : Method) : Instruction :=
  ⟨if m.isVirtual then .callvirt else .call, .method m⟩

def call (m : Method) : BuildOn σ Unit :=
  append (calling m) none

def newObject (c : Ctor) : BuildOn σ Unit :=
  append ⟨.newobj, .ctor c⟩ none

/-- Make an array of elements of this type. Its length is taken from the stack. -/
def newArray (element : Ty) : BuildOn σ Unit :=
  append ⟨.newarr, .type element⟩ none

def castTo (t : Ty) : BuildOn σ Unit :=
  append ⟨.castclass, .type t⟩ none

/-- What turns an object into a `t`: unboxing for a value type, a cast for any other. -/
def unboxing (t : Ty) : Instruction :=
  ⟨if t.isValueType then .unboxAny else .castclass, .type t⟩

def unboxTo (t : Ty) : BuildOn σ Unit :=
  append (unboxing t) none

/-- Turn a `t` into an object. Only a value type needs an instruction for that. -/
def boxFrom (t : Ty) : BuildOn σ Unit :=
  if t.isValueType then append ⟨.box, .type t⟩ none else pure ()

/-- The largest number that an integer constant can be. -/
def maxConstantIndex : Nat := 2147483647

/-- Push an entry of the array of constants, which is argument 0, as a `t`. The index
has to fit the operand of a constant load. -/
def loadConstant (index : UInt32) (t : Ty) : BuildOn σ Unit :=
  if index.toNat ≤ maxConstantIndex then do
    loadArg 0
    pushInt index.toInt32
    append (.simple .ldelemRef) none
    unboxTo t
  else
    throw (.slotTooWide .ldcWord index)

/-- Rebuild what is handed over: declare each local and check each instruction. -/
def sink : Sink Fault Builder
  | .declare _ t => discard (declareLocal t)
  | .instruction i => emit i

@[simp] theorem finish_start (args : Array Ty) :
    (start args).finish = ⟨⟨args, .empty⟩, .empty⟩ := rfl

@[simp] theorem top_start (args : Array Ty) : (start args).top = none := rfl

theorem declareLocal_apply (t : Ty) (b : Builder) :
    declareLocal t b =
      .ok (b.frame.declareLocal t).1 { b with frame := (b.frame.declareLocal t).2 } := rfl

theorem append_apply (i : Instruction) (slotType : Option Ty) (b : Builder) :
    append i slotType b =
      .ok () { b with code := b.code.push i, top := i.topAfter slotType b.top } := rfl

/-- Looking at a slot never changes the state. -/
theorem resolve_apply (i : Instruction) (s : σ) :
    resolve i s =
      match i.resolve (BuildState.frame s) with
      | .ok slotType => .ok slotType s
      | .error e => .error e s := rfl

theorem access_apply (i : Instruction) (s : σ) :
    access i s =
      match i.resolve (BuildState.frame s) with
      | .ok slotType => append i slotType s
      | .error e => .error e s := by
  show EStateM.bind (resolve i) (append i) s = _
  rw [EStateM.bind, resolve_apply]
  cases i.resolve (BuildState.frame s) <;> rfl

/-- The checked entry and the one for slots agree on every instruction of the right
shape. -/
theorem emit_eq_access {i : Instruction} (h : i.checkShape = .ok ()) :
    (emit i : BuildOn σ Unit) = access i := by
  funext s
  rw [access_apply, emit, Instruction.check, h]

/-- A shortest form gets in through the entry for slots exactly as it would through the
checked one. -/
theorem access_shortest (a : Action) : (access a.shortest : BuildOn σ Unit) = emit a.shortest :=
  (emit_eq_access (Instruction.checkShape_eq_ok_iff.mpr a.operandKind?_shortest)).symm

end Builder
end Cil
