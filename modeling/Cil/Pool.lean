import Std.Data.HashMap

/-!
# Constant pools

A pool numbers constants in the order in which they are first added. Adding one that
is already there changes nothing and returns the number it has. The array holds the
constants by number, and the index answers the opposite question. Nothing is ever taken
out: a number keeps its constant, and a constant keeps its number.
-/

namespace Cil

/-- Distinct constants, each with a number. -/
structure Pool (α : Type) [BEq α] [Hashable α] where
  constants : Array α := #[]
  index : Std.HashMap α UInt32 := {}

namespace Pool

variable {α : Type} [BEq α] [Hashable α]

def empty : Pool α := {}

def size (p : Pool α) : Nat := p.constants.size

def isEmpty (p : Pool α) : Bool := p.constants.isEmpty

/-- The number of a constant that is in the pool. -/
def indexOf? (p : Pool α) (a : α) : Option UInt32 := p.index[a]?

/-- The constant with a given number. -/
def get? (p : Pool α) (n : UInt32) : Option α := p.constants[n.toNat]?

/-- Put a constant into the pool, unless it is there, and return its number. -/
def add (p : Pool α) (a : α) : UInt32 × Pool α :=
  match p.indexOf? a with
  | some n => (n, p)
  | none =>
    let n := p.constants.size.toUInt32
    (n, { constants := p.constants.push a, index := p.index.insert a n })

/-- Add constants in order. -/
def addAll (p : Pool α) (as : List α) : Pool α :=
  as.foldl (fun p a => (p.add a).2) p

theorem add_of_indexOf? {p : Pool α} {a : α} {n : UInt32} (h : p.indexOf? a = some n) :
    p.add a = (n, p) := by
  simp [add, h]

theorem constants_add_of_new {p : Pool α} {a : α} (h : p.indexOf? a = none) :
    (p.add a).2.constants = p.constants.push a := by
  simp [add, h]

@[simp] theorem addAll_nil (p : Pool α) : p.addAll [] = p := rfl

@[simp] theorem addAll_cons (p : Pool α) (a : α) (as : List α) :
    p.addAll (a :: as) = (p.add a).2.addAll as := rfl

theorem addAll_append (p : Pool α) (as bs : List α) :
    p.addAll (as ++ bs) = (p.addAll as).addAll bs := by
  simp [addAll]

/-- A number that is in use keeps its constant. -/
theorem get?_add {p : Pool α} {a b : α} {n : UInt32} (h : p.get? n = some b) :
    (p.add a).2.get? n = some b := by
  cases hindex : p.indexOf? a with
  | some m => rw [add_of_indexOf? hindex, h]
  | none =>
    rw [get?] at h ⊢
    have hbound : n.toNat < p.constants.size := (Array.getElem?_eq_some_iff.mp h).1
    rw [constants_add_of_new hindex, Array.getElem?_push_lt hbound, ← h,
      Array.getElem?_eq_getElem hbound]

variable [EquivBEq α] [LawfulHashable α]

theorem indexOf?_add_of_new {p : Pool α} {a : α} (h : p.indexOf? a = none) (b : α) :
    (p.add a).2.indexOf? b =
      if a == b then some p.constants.size.toUInt32 else p.indexOf? b := by
  rw [add, h, indexOf?, Std.HashMap.getElem?_insert]
  rfl

/-- A constant can be found under the number that adding it returned. -/
theorem indexOf?_add_self (p : Pool α) (a : α) : (p.add a).2.indexOf? a = some (p.add a).1 := by
  cases hindex : p.indexOf? a with
  | some n => rw [add_of_indexOf? hindex, hindex]
  | none =>
    rw [indexOf?_add_of_new hindex, if_pos (BEq.refl a), add, hindex]

/-- A constant keeps its number. -/
theorem indexOf?_add {p : Pool α} {b : α} {n : UInt32} (h : p.indexOf? b = some n) (a : α) :
    (p.add a).2.indexOf? b = some n := by
  cases hindex : p.indexOf? a with
  | some m => rw [add_of_indexOf? hindex, h]
  | none =>
    -- Equal constants have the same number, and `a` has none.
    have hne : ¬ (a == b) = true := by
      intro hab
      have hsame : p.indexOf? a = p.indexOf? b := Std.HashMap.getElem?_congr hab
      rw [hindex, h] at hsame
      cases hsame
    rw [indexOf?_add_of_new hindex, if_neg hne, h]

theorem indexOf?_addAll {p : Pool α} {b : α} {n : UInt32} (h : p.indexOf? b = some n)
    (as : List α) : (p.addAll as).indexOf? b = some n := by
  induction as generalizing p with
  | nil => exact h
  | cons a as ih => exact ih (indexOf?_add h a)

end Pool
end Cil
