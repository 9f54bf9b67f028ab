import Cil.Token

/-!
# Mixing loses nothing

A round of mixing multiplies the value so far by an odd number and adds a parameter that is
disguised by a marker. Modulo `2 ^ 64` both can be undone: as long as the parameter is known,
a round tells what value it started from, and as long as that value is known, it tells the
parameter. Nothing depends on what the marker is, so positions past the table of markers
are no different.

Later rounds keep apart what an earlier round has kept apart. This is why a difference in
the seed, or in a single parameter however far in front, is still there in the token.
-/

namespace Cil.Token

theorem bits_inj {p q : Token} : p.bits = q.bits ↔ p = q := by
  constructor
  · intro h
    cases p
    exact congrArg Token.mk h
  · rintro rfl
    rfl

/-- A mask can be moved to the other side. -/
theorem xor_eq_iff_eq_xor {a b c : UInt64} : a ^^^ b = c ↔ b = a ^^^ c := by
  have hundo (x : UInt64) : a ^^^ (a ^^^ x) = x := by
    rw [← UInt64.xor_assoc, UInt64.xor_self, UInt64.zero_xor]
  constructor
  · rintro rfl
    exact (hundo b).symm
  · rintro rfl
    exact hundo c

/-- The inverse of the multiplier modulo `2 ^ 64`. -/
theorem separator_mul_inverse : Seed.separator * 0xd3f20f0a40208825 = 1 := by decide

theorem mul_separator_inj {a b : UInt64} : a * Seed.separator = b * Seed.separator ↔ a = b := by
  constructor
  · intro h
    have hback := congrArg (· * 0xd3f20f0a40208825) h
    simpa only [UInt64.mul_assoc, separator_mul_inverse, UInt64.mul_one] using hback
  · rintro rfl
    rfl

/-- Equal parameters bring two seeds together only if these were equal. -/
theorem mixFrom_inj (position : Nat) (params : List Token) {h h' : UInt64} :
    mixFrom position h params = mixFrom position h' params ↔ h = h' := by
  induction params generalizing position h h' with
  | nil => rfl
  | cons p ps ih => rw [mixFrom_cons, mixFrom_cons, ih, UInt64.add_left_inj, mul_separator_inj]

theorem mix_inj {seed seed' : UInt64} {params : List Token} :
    mix seed params = mix seed' params ↔ seed = seed' := by
  rw [mix, mix, Token.mk.injEq, mixFrom_inj]

/-- A parameter is known by the result, wherever it stands, once all else is. -/
theorem mix_replace_inj (seed : UInt64) (front back : List Token) {p q : Token} :
    mix seed (front ++ p :: back) = mix seed (front ++ q :: back) ↔ p = q := by
  -- Both sides have the same value in front of the parameter and differ right behind it.
  have hround (h : UInt64) (position : Nat) :
      mixFrom position h (p :: back) = mixFrom position h (q :: back) ↔ p = q := by
    rw [mixFrom_cons, mixFrom_cons, mixFrom_inj, UInt64.add_right_inj, UInt64.xor_right_inj,
      bits_inj]
  rw [mix, mix, Token.mk.injEq, mixFrom_append, mixFrom_append, hround]

/-- With the parameters fixed, a method is known by the exclusive or of its owner and the
digest of its name, and by nothing else. -/
theorem ofMethod_eq_iff {owner owner' : Token} {name name' : String} {params : List Token} :
    ofMethod owner name params = ofMethod owner' name' params ↔
      owner.bits ^^^ Xxh64.ofString name = owner'.bits ^^^ Xxh64.ofString name' := by
  rw [ofMethod, ofMethod, mix_inj, UInt64.xor_assoc, UInt64.xor_assoc, UInt64.xor_right_inj]

/-- With the parameters fixed, a constructor is known by its owner. -/
theorem ofCtor_eq_iff {owner owner' : Token} {params : List Token} :
    ofCtor owner params = ofCtor owner' params ↔ owner = owner' := by
  rw [ofCtor, ofCtor, mix_inj, UInt64.xor_right_inj, bits_inj]

end Cil.Token
