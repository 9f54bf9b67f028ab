import Cil.Xxh64

/-!
# Tokens

A token is the 64-bit identity of a type, a method or a constructor. It depends
only on spelled names, on the owner and on the order of the parameters, so that
two modules that never meet compute the same token for the same member.

Each kind of entity starts from a seed of its own. Parameters are then mixed in
one by one: `Token.mix` multiplies the value so far by an odd constant and adds the
parameter, disguised by a marker of its position. Equal parameters in different
positions therefore contribute differently.

Tokens, like offsets in a listing, are shown in lower-case hexadecimal, padded on
the left with zeros to a least width. The width is never a limit: a number that
needs more digits gets them. `Hex.value?` reads a numeral back; it is more liberal
than the printer and takes either case and any number of leading zeros.
-/

namespace Cil.Hex

/-- The lower-case digits of `n`, padded with zeros to at least `width` of them. -/
def digits (width n : Nat) : List Char :=
  (Nat.toDigits 16 n).leftpad width '0'

/-- The numeral of `n` as text. -/
def padded (width n : Nat) : String :=
  String.ofList (digits width n)

/-- The value of one digit of either case. -/
def digitValue? (c : Char) : Option Nat :=
  if '0' ≤ c ∧ c ≤ '9' then some (c.toNat - '0'.toNat)
  else if 'a' ≤ c ∧ c ≤ 'f' then some (c.toNat - 'a'.toNat + 10)
  else if 'A' ≤ c ∧ c ≤ 'F' then some (c.toNat - 'A'.toNat + 10)
  else none

/-- Continue a numeral whose digits so far denote `acc`. -/
def valueFrom? (acc : Nat) : List Char → Option Nat
  | [] => some acc
  | c :: cs =>
    match digitValue? c with
    | some d => valueFrom? (16 * acc + d) cs
    | none => none

/-- The number that a numeral denotes. A numeral has at least one digit. -/
def value? (cs : List Char) : Option Nat :=
  if cs.isEmpty then none else valueFrom? 0 cs

theorem length_digits (width n : Nat) :
    (digits width n).length = max width (Nat.toDigits 16 n).length := by
  simp [digits, Nat.sub_add_eq_max]

@[simp] theorem toList_padded (width n : Nat) : (padded width n).toList = digits width n := by
  simp [padded]

@[simp] theorem valueFrom?_nil (acc : Nat) : valueFrom? acc [] = some acc := rfl

end Cil.Hex

namespace Cil

/-- The 64-bit identity of a type or of a member. -/
structure Token where
  bits : UInt64
  deriving DecidableEq, Hashable, Repr

namespace Token

namespace Seed

/-- The multiplier between two parameters. -/
def separator : UInt64 := 0x4bc94d6bd06053ad
def type : UInt64 := 0x2fac10b63a6cc57c
def method : UInt64 := 0x7d3c8b4a92e15f6d
def ctor : UInt64 := 0x9a7f3d5e2b8c4601
def array : UInt64 := 0x5ea77ffbcdf5f302
def byRef : UInt64 := 0x3e9f5d2a8c7b1403

end Seed

/-- The marker of the first parameter position. -/
def firstMarker : UInt64 := 0x9e3779b97f4a7c15

/-- The markers of the first sixteen parameter positions. -/
def markers : List UInt64 :=
  [firstMarker, 0xbf58476d1ce4e5b9, 0x94d049bb133111eb, 0xd6e8feb86659fd93,
   0xe7037ed1a0b428db, 0xc6a4a7935bd1e995, 0x8648dbbc94d49b8d, 0xa2b48b2c69e0d657,
   0x7c3e9f2a5b8d1403, 0x5d8c7b4a3e9f2106, 0x3f1e9d8c7b5a4203, 0x1a2b3c4d5e6f7089,
   0x9f8e7d6c5b4a3210, 0x2468ace013579bdf, 0xfdb97531eca86420, 0x123456789abcdef0]

/-- The marker of any position. Positions past the table count on from its first
entry, modulo `2 ^ 64`. -/
def marker (position : Nat) : UInt64 :=
  markers[position]?.getD (firstMarker + position.toUInt64)

theorem getElem?_markers_of_lt {position : Nat} (h : position < 16) :
    markers[position]? = some (marker position) := by
  rw [marker, List.getElem?_eq_getElem h]
  rfl

theorem marker_of_le {position : Nat} (h : 16 ≤ position) :
    marker position = firstMarker + position.toUInt64 := by
  rw [marker, List.getElem?_eq_none h]
  rfl

/-- Mix parameters into `h`, the first of them standing at `position`. -/
def mixFrom (position : Nat) (h : UInt64) : List Token → UInt64
  | [] => h
  | p :: ps => mixFrom (position + 1) (h * Seed.separator + (marker position ^^^ p.bits)) ps

/-- Mix a whole parameter list into a seed. -/
def mix (seed : UInt64) (params : List Token) : Token :=
  ⟨mixFrom 0 seed params⟩

@[simp] theorem mixFrom_nil (position : Nat) (h : UInt64) : mixFrom position h [] = h := rfl

@[simp] theorem mixFrom_cons (position : Nat) (h : UInt64) (p : Token) (ps : List Token) :
    mixFrom position h (p :: ps) =
      mixFrom (position + 1) (h * Seed.separator + (marker position ^^^ p.bits)) ps := rfl

theorem mixFrom_append (position : Nat) (h : UInt64) (ps qs : List Token) :
    mixFrom position h (ps ++ qs) =
      mixFrom (position + ps.length) (mixFrom position h ps) qs := by
  induction ps generalizing position h with
  | nil => rfl
  | cons p ps ih => simp [ih, Nat.add_assoc, Nat.add_comm 1]

/-- The token that no entity is meant to have. -/
def empty : Token := ⟨0⟩

def isEmpty (t : Token) : Bool := t.bits == 0

/-- A type that is known by its name. -/
def ofName (name : String) : Token :=
  ⟨Seed.type ^^^ Xxh64.ofString name⟩

-- The tokens of the built-in types are known in advance.
namespace Known

def void : Token := .ofName "void"
def bool : Token := .ofName "bool"
def int8 : Token := .ofName "int8"
def int16 : Token := .ofName "int16"
def int32 : Token := .ofName "int"
def int64 : Token := .ofName "int64"
def uint8 : Token := .ofName "uint8"
def uint16 : Token := .ofName "uint16"
def uint32 : Token := .ofName "uint"
def uint64 : Token := .ofName "uint64"
def float : Token := .ofName "float"
def double : Token := .ofName "double"
def object : Token := .ofName "object"
def string : Token := .ofName "string"

end Known

/-- The method `name` of `owner` with these parameters. -/
def ofMethod (owner : Token) (name : String) (params : List Token) : Token :=
  mix (Seed.method ^^^ owner.bits ^^^ Xxh64.ofString name) params

/-- The constructor of `owner` with these parameters. -/
def ofCtor (owner : Token) (params : List Token) : Token :=
  mix (Seed.ctor ^^^ owner.bits) params

/-- An array of elements. -/
def arrayOf (element : Token) : Token :=
  mix Seed.array [element]

/-- A reference to a place that holds a `target`. -/
def byRef (target : Token) : Token :=
  mix Seed.byRef [target]

/-- The text of a token is `0x` and sixteen lower-case digits. -/
def text (t : Token) : String :=
  "0x" ++ Hex.padded 16 t.bits.toNat

/-- The text used in diagnostics, which names the kind of value shown. -/
def debugText (t : Token) : String :=
  "TypeHash(" ++ t.text ++ ")"

/-- Read a token from `0x` and one or more hexadecimal digits that denote a number
below `2 ^ 64`. -/
def ofText? (s : String) : Option Token :=
  match s.toList with
  | '0' :: 'x' :: cs =>
    match Hex.value? cs with
    | some n => if n < UInt64.size then some ⟨n.toUInt64⟩ else none
    | none => none
  | _ => none

instance : LE Token where
  le a b := a.bits ≤ b.bits

instance : LT Token where
  lt a b := a.bits < b.bits

instance (a b : Token) : Decidable (a ≤ b) :=
  inferInstanceAs (Decidable (a.bits ≤ b.bits))

instance (a b : Token) : Decidable (a < b) :=
  inferInstanceAs (Decidable (a.bits < b.bits))

/-- Tokens in ascending order. -/
def sort (ts : List Token) : List Token :=
  ts.mergeSort fun a b => decide (a ≤ b)

end Token
end Cil
