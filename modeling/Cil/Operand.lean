import Cil.Ty

/-!
# Members and operands

A member is referred to by its owner, its name and its parameters. A method also
says what it returns and how it is called. The token of a member leaves out the
return type and the way of calling, so that overloads differ by parameters alone.

An instruction carries at most one operand: a number, a slot, or a reference to a
type or a member. Slots are the places of a method that code can address: its
arguments and its locals, each numbered from zero. Both are one type here, because
whatever looks at a slot has to look at both kinds.
-/

namespace Cil

/-- A reference to a method. -/
structure Method where
  owner : Ty
  name : String
  params : List Ty := []
  returns : Ty := .void
  isVirtual : Bool := false
  isStatic : Bool := false
  deriving DecidableEq, Hashable, Repr

namespace Method

/-- Give the parameters, without the receiver. -/
def takes (m : Method) (params : List Ty) : Method := { m with params := params }

/-- Give the type of the result. -/
def yields (m : Method) (t : Ty) : Method := { m with returns := t }

/-- Make calls go through the run-time type of the receiver. Whether the method takes
a receiver is not looked at. -/
def makeVirtual (m : Method) : Method := { m with isVirtual := true }

/-- Make the method take no receiver. Without one there is no run-time type to
dispatch on, so an earlier `makeVirtual` is undone. -/
def makeStatic (m : Method) : Method := { m with isStatic := true, isVirtual := false }

def text (m : Method) : String :=
  m.owner.text ++ "::" ++ m.name

def token (m : Method) : Token :=
  .ofMethod m.owner.token m.name (m.params.map Ty.token)

end Method

/-- One step of describing a method after its owner and name. -/
inductive Modifier where
  | takes (params : List Ty)
  | yields (ty : Ty)
  | makeVirtual
  | makeStatic
  deriving DecidableEq, Repr

namespace Modifier

def apply : Modifier → Method → Method
  | .takes params, m => m.takes params
  | .yields ty, m => m.yields ty
  | .makeVirtual, m => m.makeVirtual
  | .makeStatic, m => m.makeStatic

/-- Apply modifiers in order. -/
def applyAll (cs : List Modifier) (m : Method) : Method :=
  cs.foldl (fun m c => c.apply m) m

@[simp] theorem applyAll_nil (m : Method) : applyAll [] m = m := rfl

@[simp] theorem applyAll_cons (c : Modifier) (cs : List Modifier) (m : Method) :
    applyAll (c :: cs) m = applyAll cs (c.apply m) := rfl

end Modifier

/-- A reference to a constructor. -/
structure Ctor where
  owner : Ty
  params : List Ty := []
  deriving DecidableEq, Hashable, Repr

namespace Ctor

def text (c : Ctor) : String :=
  c.owner.text ++ "::.ctor"

def token (c : Ctor) : Token :=
  .ofCtor c.owner.token (c.params.map Ty.token)

end Ctor

/-- An addressable place of a method. -/
inductive Slot where
  | arg (index : UInt32)
  | loc (index : UInt32)
  deriving DecidableEq, Hashable, Repr

namespace Slot

/-- The number of a slot among those of its kind. -/
def index : Slot → UInt32
  | .arg i | .loc i => i

@[simp] theorem index_arg (i : UInt32) : (arg i).index = i := rfl
@[simp] theorem index_loc (i : UInt32) : (loc i).index = i := rfl

end Slot

/-- What an instruction carries besides its opcode. -/
inductive Operand where
  | none
  | int8 (value : Int8)
  | int32 (value : Int32)
  | slot (place : Slot)
  | method (member : Method)
  | type (ty : Ty)
  | ctor (member : Ctor)
  deriving DecidableEq, Hashable, Repr

namespace Operand

/-- The kinds of operand that the grammar of opcodes distinguishes. -/
inductive Kind where
  | none
  | int8
  | int32
  | arg
  | loc
  | method
  | type
  | ctor
  deriving DecidableEq, Hashable, Repr

namespace Kind

def all : List Kind :=
  [.none, .int8, .int32, .arg, .loc, .method, .type, .ctor]

/-- The words for a kind in messages. -/
def text : Kind → String
  | .none => "no operand"
  | .int8 => "int8 operand"
  | .int32 => "int32 operand"
  | .arg => "argument slot"
  | .loc => "local slot"
  | .method => "method reference"
  | .type => "type reference"
  | .ctor => "constructor reference"

/-- The kind with a given wording. -/
def ofText? (s : String) : Option Kind :=
  all.find? fun k => k.text == s

theorem ofText?_text (k : Kind) : ofText? k.text = some k := by
  cases k <;> rfl

end Kind

def kind : Operand → Kind
  | .none => .none
  | .int8 _ => .int8
  | .int32 _ => .int32
  | .slot (.arg _) => .arg
  | .slot (.loc _) => .loc
  | .method _ => .method
  | .type _ => .type
  | .ctor _ => .ctor

def isNone : Operand → Bool
  | .none => true
  | _ => false

/-- Integers and slot numbers in decimal, references by their own text. -/
def text : Operand → String
  | .none => ""
  | .int8 value => toString value.toInt
  | .int32 value => toString value.toInt
  | .slot place => toString place.index.toNat
  | .method member => member.text
  | .type ty => ty.text
  | .ctor member => member.text

end Operand
end Cil
