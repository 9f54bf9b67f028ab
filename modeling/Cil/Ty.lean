import Cil.Token

/-!
# Types

A type is a base, which is a primitive, `object`, `string` or a named type, under
any number of wrappers: array of, and reference to. The inductive type `Ty` nests
the wrappers. `Ty.base` and `Ty.wraps` take a type apart into its base and the list
of its wrappers from the inside out, and `Ty.wrapAll` puts it together again.

The primitive types have no declaration of their own. Each is known by one keyword,
and its token is that of the keyword. A named type carries whether it is a value
type, because boxing and unboxing ask for that. Neither the text nor the token of a
type shows it.
-/

namespace Cil

inductive Primitive where
  | void
  | bool
  | int8
  | int16
  | int32
  | int64
  | uint8
  | uint16
  | uint32
  | uint64
  | float
  | double
  deriving DecidableEq, Hashable, Repr

namespace Primitive

/-- Every primitive type, in the order of the table above. -/
def all : List Primitive :=
  [.void, .bool, .int8, .int16, .int32, .int64, .uint8, .uint16, .uint32, .uint64,
   .float, .double]

/-- The keyword. The 32-bit integers carry no width in theirs. -/
def name : Primitive → String
  | .void => "void"
  | .bool => "bool"
  | .int8 => "int8"
  | .int16 => "int16"
  | .int32 => "int"
  | .int64 => "int64"
  | .uint8 => "uint8"
  | .uint16 => "uint16"
  | .uint32 => "uint"
  | .uint64 => "uint64"
  | .float => "float"
  | .double => "double"

/-- The primitive type with a given keyword. -/
def ofName? (s : String) : Option Primitive :=
  all.find? fun p => p.name == s

def isVoid (p : Primitive) : Bool := p == .void

def token : Primitive → Token
  | .void => Token.Known.void
  | .bool => Token.Known.bool
  | .int8 => Token.Known.int8
  | .int16 => Token.Known.int16
  | .int32 => Token.Known.int32
  | .int64 => Token.Known.int64
  | .uint8 => Token.Known.uint8
  | .uint16 => Token.Known.uint16
  | .uint32 => Token.Known.uint32
  | .uint64 => Token.Known.uint64
  | .float => Token.Known.float
  | .double => Token.Known.double

theorem ofName?_name (p : Primitive) : ofName? p.name = some p := by
  cases p <;> rfl

/-- The table of keywords and the table of tokens agree. -/
theorem token_eq_ofName (p : Primitive) : p.token = .ofName p.name := by
  cases p <;> rfl

end Primitive

inductive Ty where
  | prim (kind : Primitive)
  | object
  | string
  | named (name : String) (valueType : Bool)
  | array (element : Ty)
  | byRef (target : Ty)
  deriving DecidableEq, Hashable, Repr

/-- One step of building a compound type. -/
inductive Wrap where
  | array
  | byRef
  deriving DecidableEq, Hashable, Repr

namespace Wrap

def apply : Wrap → Ty → Ty
  | .array, t => .array t
  | .byRef, t => .byRef t

/-- What a wrapper adds behind the text of a type. -/
def text : Wrap → String
  | .array => "[]"
  | .byRef => "&"

/-- The text of several wrappers, the innermost first. -/
def textAll (ws : List Wrap) : String :=
  String.join (ws.map text)

/-- Read a sequence of wrappers, the innermost first. -/
def read? : List Char → Option (List Wrap)
  | [] => some []
  | '&' :: cs => (read? cs).map (.byRef :: ·)
  | '[' :: ']' :: cs => (read? cs).map (.array :: ·)
  | _ => none

end Wrap

namespace Ty

/-- The two integer types and the absence of a value, which instructions mention. -/
def void : Ty := .prim .void
def int8 : Ty := .prim .int8
def int32 : Ty := .prim .int32
def int64 : Ty := .prim .int64

/-- A named reference type. -/
def ofClass (name : String) : Ty := .named name false

/-- A named value type. -/
def ofValue (name : String) : Ty := .named name true

/-- Values of these types are stored in place and must be boxed to become objects.
`void` has no values. -/
def isValueType : Ty → Bool
  | .prim kind => !kind.isVoid
  | .named _ valueType => valueType
  | .object | .string | .array _ | .byRef _ => false

def isVoid (t : Ty) : Bool := t == void

/-- The type directly under the outermost wrapper. -/
def element? : Ty → Option Ty
  | .array t | .byRef t => some t
  | .prim _ | .object | .string | .named _ _ => none

/-- The base under all wrappers. -/
def base : Ty → Ty
  | .array t | .byRef t => t.base
  | .prim kind => .prim kind
  | .object => .object
  | .string => .string
  | .named name valueType => .named name valueType

/-- The wrappers of a type in front of `outer`, the innermost first. -/
def wrapsOnto : Ty → List Wrap → List Wrap
  | .array t, outer => t.wrapsOnto (.array :: outer)
  | .byRef t, outer => t.wrapsOnto (.byRef :: outer)
  | .prim _, outer | .object, outer | .string, outer | .named _ _, outer => outer

/-- All wrappers, the innermost first. -/
def wraps (t : Ty) : List Wrap := t.wrapsOnto []

/-- Apply wrappers, the first of them innermost. -/
def wrapAll (t : Ty) (ws : List Wrap) : Ty :=
  ws.foldl (fun t w => w.apply t) t

def text : Ty → String
  | .prim kind => kind.name
  | .object => "object"
  | .string => "string"
  | .named name _ => name
  | .array t => t.text ++ "[]"
  | .byRef t => t.text ++ "&"

def token : Ty → Token
  | .prim kind => kind.token
  | .object => Token.Known.object
  | .string => Token.Known.string
  | .named name _ => .ofName name
  | .array t => .arrayOf t.token
  | .byRef t => .byRef t.token

@[simp] theorem wrapAll_nil (t : Ty) : t.wrapAll [] = t := rfl

@[simp] theorem wrapAll_cons (t : Ty) (w : Wrap) (ws : List Wrap) :
    t.wrapAll (w :: ws) = (w.apply t).wrapAll ws := rfl

theorem base_wrapAll_wrapsOnto (t : Ty) (outer : List Wrap) :
    t.base.wrapAll (t.wrapsOnto outer) = t.wrapAll outer := by
  induction t generalizing outer with
  | array t ih => simp [base, wrapsOnto, ih, Wrap.apply]
  | byRef t ih => simp [base, wrapsOnto, ih, Wrap.apply]
  | _ => simp [base, wrapsOnto]

/-- Nothing is lost by taking a type apart. -/
theorem base_wrapAll_wraps (t : Ty) : t.base.wrapAll t.wraps = t :=
  t.base_wrapAll_wrapsOnto []

end Ty
end Cil
