import Mathlib.Data.UInt
import Mathlib.Tactic.LinearCombination
import Mathlib.Tactic.Ring
import Cil.Proofs.Mixing

/-!
# Parameters that can trade places

Mixing is meant to depend on the order of the parameters, and two exchanged parameters do
make two differences: one where the first of them stood and one where the second did. The
rounds in between multiply the first difference, and it may come to meet the second and
cancel it. The rounds behind both keep apart what is apart, as everywhere.

How far apart two values are is changed by a round in one way only, whatever the round takes
in. So neither the seed nor any other parameter has a say in whether the two differences
cancel, which leaves an equation between the two parameters and their positions. It has
solutions at any two positions: the highest bit passes through a marker, a multiplication by
an odd number and a sum unchanged, so parameters that differ in nothing else can always be
exchanged.
-/

namespace Cil.Token

open scoped UInt64.CommRing

/-- The parameters `qs` are `ps` with `a` at position `i` and `b` at the later position `j`
exchanged. -/
structure Exchange (i j : Nat) (a b : Token) (ps qs : List Token) : Prop where
  lt : i < j
  first : ps[i]? = some a
  second : ps[j]? = some b
  exchanged : qs = (ps.set i b).set j a

/-- The difference that `a` instead of `b` makes in round `i`, carried forward to round `j`, is
the difference that it makes there. -/
def Interchangeable (i j : Nat) (a b : Token) : Prop :=
  Seed.separator ^ (j - i) * ((marker i ^^^ a.bits) - (marker i ^^^ b.bits)) =
    (marker j ^^^ a.bits) - (marker j ^^^ b.bits)

instance (i j : Nat) (a b : Token) : Decidable (Interchangeable i j a b) :=
  inferInstanceAs (Decidable (_ = _))

/-- The same parameters carry two values forward, and their distance is multiplied once for
each. -/
theorem mixFrom_sub (position : Nat) (params : List Token) (h h' : UInt64) :
    mixFrom position h params - mixFrom position h' params =
      Seed.separator ^ params.length * (h - h') := by
  induction params generalizing position h h' with
  | nil => simp
  | cons p ps ih =>
    -- The parameter is added on both sides and is gone from the difference.
    rw [mixFrom_cons, mixFrom_cons, ih, List.length_cons, pow_succ]
    ring

theorem mixFrom_exchange_iff (i : Nat) (h : UInt64) (middle back : List Token) (a b : Token) :
    mixFrom i h (b :: (middle ++ a :: back)) = mixFrom i h (a :: (middle ++ b :: back)) ↔
      Interchangeable i (i + 1 + middle.length) a b := by
  have hcarried := mixFrom_sub (i + 1) middle
    (h * Seed.separator + (marker i ^^^ a.bits)) (h * Seed.separator + (marker i ^^^ b.bits))
  rw [add_sub_add_left_eq_sub] at hcarried
  have hdistance : i + 1 + middle.length - i = middle.length + 1 := by omega
  rw [mixFrom_cons, mixFrom_cons, mixFrom_append, mixFrom_append, mixFrom_cons, mixFrom_cons,
    mixFrom_inj, Interchangeable, hdistance, pow_succ', mul_assoc, ← hcarried]
  -- The later round adds the other parameter to each of the two values that reach it.
  constructor
  · intro hsums
    linear_combination -hsums
  · intro hdifferences
    linear_combination -hdifferences

theorem mix_exchange_iff (seed : UInt64) (front middle back : List Token) (a b : Token) :
    mix seed (front ++ b :: (middle ++ a :: back)) =
        mix seed (front ++ a :: (middle ++ b :: back)) ↔
      Interchangeable front.length (front.length + 1 + middle.length) a b := by
  rw [mix, mix, Token.mk.injEq, mixFrom_append, mixFrom_append, mixFrom_exchange_iff, Nat.zero_add]

theorem exists_cut_of_getElem? {ps : List Token} {i : Nat} {a : Token} (h : ps[i]? = some a) :
    ∃ front back, ps = front ++ a :: back ∧ front.length = i := by
  obtain ⟨hi, rfl⟩ := List.getElem?_eq_some_iff.mp h
  refine ⟨ps.take i, ps.drop (i + 1), ?_, List.length_take_of_le (Nat.le_of_lt hi)⟩
  rw [List.getElem_cons_drop, List.take_append_drop]

namespace Exchange

variable {i j : Nat} {a b : Token} {ps qs : List Token}

/-- The two positions cut the parameters into what is in front of them, between them and
behind them. -/
theorem exists_cut (h : Exchange i j a b ps qs) :
    ∃ front middle back, ps = front ++ a :: (middle ++ b :: back) ∧
      qs = front ++ b :: (middle ++ a :: back) ∧
      front.length = i ∧ front.length + 1 + middle.length = j := by
  obtain ⟨hij, ha, hb, rfl⟩ := h
  obtain ⟨front, rest, rfl, rfl⟩ := exists_cut_of_getElem? ha
  obtain ⟨k, rfl⟩ := Nat.exists_eq_add_of_lt hij
  have hrest : rest[k]? = some b := by
    rw [Nat.add_assoc, List.getElem?_append_right (Nat.le_add_right _ _), Nat.add_sub_cancel_left,
      List.getElem?_cons_succ] at hb
    exact hb
  obtain ⟨middle, back, rfl, rfl⟩ := exists_cut_of_getElem? hrest
  refine ⟨front, middle, back, rfl, ?_, rfl, by omega⟩
  simp [Nat.add_assoc]

theorem mix_eq_iff (h : Exchange i j a b ps qs) (seed : UInt64) :
    mix seed qs = mix seed ps ↔ Interchangeable i j a b := by
  obtain ⟨front, middle, back, rfl, rfl, rfl, rfl⟩ := h.exists_cut
  exact mix_exchange_iff seed front middle back a b

end Exchange

/-- To flip the highest bit is to add it, as the sum has no bit to carry into. -/
theorem xor_highest (x : UInt64) : x ^^^ (1 <<< 63) = x + (1 <<< 63) := by
  have hhighest : (1 <<< 63 : UInt64).toBitVec = BitVec.twoPow 64 63 := by decide
  apply UInt64.toBitVec_inj.mp
  rw [UInt64.toBitVec_xor, UInt64.toBitVec_add, hhighest]
  ext k hk
  -- One summand has nothing below bit `k`, so nothing is carried into it.
  have hempty : (BitVec.twoPow 64 63).toNat % 2 ^ k = 0 := by
    rw [BitVec.toNat_twoPow_of_lt (by decide)]
    exact Nat.mod_eq_zero_of_dvd (Nat.pow_dvd_pow 2 (by omega))
  have hcarry : BitVec.carry k x.toBitVec (BitVec.twoPow 64 63) false = false := by
    simp [BitVec.carry, hempty, Nat.mod_lt, -BitVec.toNat_twoPow]
  rw [BitVec.getElem_add, hcarry, BitVec.getElem_xor, Bool.xor_false]

theorem separator_pow_mul_highest (n : Nat) : Seed.separator ^ n * (1 <<< 63) = 1 <<< 63 := by
  have hodd : Seed.separator * (1 <<< 63) = 1 <<< 63 := by decide
  induction n with
  | zero => simp
  | succ n ih => rw [pow_succ, mul_assoc, hodd, ih]

theorem interchangeable_of_highest {a b : Token} (h : a.bits ^^^ b.bits = 1 <<< 63) (i j : Nat) :
    Interchangeable i j a b := by
  have hround (k : Nat) : (marker k ^^^ a.bits) - (marker k ^^^ b.bits) = 1 <<< 63 := by
    have hneg : -(1 <<< 63 : UInt64) = 1 <<< 63 := by decide
    have hflip : marker k ^^^ b.bits = (marker k ^^^ a.bits) + (1 <<< 63) := by
      rw [xor_eq_iff_eq_xor.mp h, ← UInt64.xor_assoc, xor_highest]
    rw [hflip, sub_add_cancel_left, hneg]
  rw [Interchangeable, hround, hround, separator_pow_mul_highest]

/-- An exchange of two parameters goes unnoticed exactly if the parameters are interchangeable
at their positions. So if it does for one member, it does for all members that have the two
parameters there, whatever their owners, names and other parameters are. Parameters that
differ in the highest bit only are interchangeable at any two positions. -/
theorem exchange_decided_by_places (i j : Nat) (a b : Token) :
    (∀ (seed : UInt64) (ps qs : List Token), Exchange i j a b ps qs →
      (mix seed qs = mix seed ps ↔
        Seed.separator ^ (j - i) * ((marker i ^^^ a.bits) - (marker i ^^^ b.bits)) =
          (marker j ^^^ a.bits) - (marker j ^^^ b.bits))) ∧
    (∀ (owner owner' : Token) (name name' : String) (ps qs ps' qs' : List Token),
      Exchange i j a b ps qs → Exchange i j a b ps' qs' →
      (ofMethod owner name qs = ofMethod owner name ps ↔
        ofMethod owner' name' qs' = ofMethod owner' name' ps') ∧
      (ofCtor owner qs = ofCtor owner ps ↔ ofCtor owner' qs' = ofCtor owner' ps')) ∧
    (a.bits ^^^ b.bits = 1 <<< 63 → ∀ (seed : UInt64) (ps qs : List Token),
      Exchange i j a b ps qs → mix seed qs = mix seed ps) := by
  refine ⟨?_, ?_, ?_⟩
  · intro seed ps qs h
    exact h.mix_eq_iff seed
  · intro owner owner' name name' ps qs ps' qs' h h'
    exact ⟨(h.mix_eq_iff _).trans (h'.mix_eq_iff _).symm,
      (h.mix_eq_iff _).trans (h'.mix_eq_iff _).symm⟩
  · intro hbits seed ps qs h
    exact (h.mix_eq_iff seed).mpr (interchangeable_of_highest hbits i j)

/-- The fourth and the seventeenth of eighteen parameters, one with a marker in the table and
one without, differ in the highest bit and can be exchanged. An integer and an object cannot,
and neither can they in front of a third parameter. -/
theorem exchange_decided_by_places_of_fourth_and_seventeenth :
    let low : Token := ⟨1⟩
    let high : Token := ⟨0x8000000000000001⟩
    let ps := ((List.replicate 18 (⟨7⟩ : Token)).set 3 low).set 16 high
    let qs := ((List.replicate 18 (⟨7⟩ : Token)).set 3 high).set 16 low
    let int := ofName "int"
    let object := ofName "object"
    (Exchange 3 16 low high ps qs ∧ low.bits ^^^ high.bits = 1 <<< 63 ∧ mix 5 qs = mix 5 ps) ∧
    Exchange 0 1 int object [int, object] [object, int] ∧
      Exchange 0 1 int object [int, object, int] [object, int, int] ∧
      ofMethod (ofName "Factory") "Create" [object, int] ≠
        ofMethod (ofName "Factory") "Create" [int, object] ∧
      ofMethod ⟨3⟩ "Load" [object, int, int] ≠ ofMethod ⟨3⟩ "Load" [int, object, int] := by
  intro low high ps qs int object
  have hfar : Exchange 3 16 low high ps qs := ⟨by decide, by decide, by decide, by decide⟩
  have hbits : low.bits ^^^ high.bits = 1 <<< 63 := by decide
  have hpair : Exchange 0 1 int object [int, object] [object, int] := ⟨by decide, rfl, rfl, rfl⟩
  have htriple : Exchange 0 1 int object [int, object, int] [object, int, int] :=
    ⟨by decide, rfl, rfl, rfl⟩
  have hne : ¬ Interchangeable 0 1 int object := by decide +kernel
  obtain ⟨hiff, hmembers, -⟩ := exchange_decided_by_places 0 1 int object
  have hfirst : ofMethod (ofName "Factory") "Create" [object, int] ≠
      ofMethod (ofName "Factory") "Create" [int, object] :=
    mt (hiff _ _ _ hpair).mp hne
  refine ⟨⟨hfar, hbits, (exchange_decided_by_places 3 16 low high).2.2 hbits 5 ps qs hfar⟩,
    hpair, htriple, hfirst, ?_⟩
  exact mt (hmembers _ _ _ _ _ _ _ _ hpair htriple).1.mpr hfirst

end Cil.Token
