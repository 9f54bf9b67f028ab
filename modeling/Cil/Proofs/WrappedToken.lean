import Cil.Proofs.Mixing
import Cil.Ty

/-!
# Tokens of wrapped types

The token of a wrapped type is that of the type, mixed into the seed of the wrapper. Mixing
loses nothing, so under the same wrappers two types are told apart as well as without.

Under different wrappers the lowest bits help. Sums, products and exclusive ors never carry
anything downwards, so the three lowest bits of a mixed token depend on the three lowest
bits that went in and on nothing else. There are only eight cases, and in each of them the
type, its array and its reference come out different. The lowest bit alone is flipped by an
array and kept by a reference, so it counts the arrays modulo two.
-/

namespace Cil

namespace Wrap

/-- What the token of a wrapped type starts from. -/
def seed : Wrap → UInt64
  | .array => Token.Seed.array
  | .byRef => Token.Seed.byRef

theorem token_apply (w : Wrap) (t : Ty) : (w.apply t).token = .mix w.seed [t.token] := by
  cases w <;> rfl

end Wrap

/-- Wrappers keep the tokens of two types as equal or as different as they were. -/
theorem Ty.token_wrapAll_inj (ws : List Wrap) {a b : Ty} :
    (a.wrapAll ws).token = (b.wrapAll ws).token ↔ a.token = b.token := by
  induction ws generalizing a b with
  | nil => rfl
  | cons w ws ih =>
    rw [wrapAll_cons, wrapAll_cons, ih, w.token_apply, w.token_apply]
    exact Token.mix_replace_inj w.seed [] []

namespace Token

/-- The three lowest bits of a token. -/
def lowBits (t : Token) : BitVec 3 := t.bits.toBitVec.setWidth 3

/-- Both the multiplier and the first marker end in `101`. -/
theorem lowBits_mix_singleton (seed : UInt64) (t : Token) :
    (mix seed [t]).lowBits = lowBits ⟨seed⟩ * 5 + (5 ^^^ t.lowBits) := by
  have hseparator : Seed.separator.toBitVec.setWidth 3 = 5 := by decide
  have hmarker : (marker 0).toBitVec.setWidth 3 = 5 := by decide
  show (seed * Seed.separator + (marker 0 ^^^ t.bits)).toBitVec.setWidth 3 = _
  rw [UInt64.toBitVec_add, UInt64.toBitVec_mul, UInt64.toBitVec_xor,
    BitVec.setWidth_add _ _ (by decide), BitVec.setWidth_mul _ _ (by decide), BitVec.setWidth_xor,
    hseparator, hmarker]
  rfl

theorem lowBits_arrayOf (t : Token) : (arrayOf t).lowBits = 2 + (5 ^^^ t.lowBits) :=
  lowBits_mix_singleton Seed.array t

theorem lowBits_byRef (t : Token) : (byRef t).lowBits = 7 + (5 ^^^ t.lowBits) :=
  lowBits_mix_singleton Seed.byRef t

/-- The three lowest bits are enough to tell a type from its array and its reference, and
these from each other. The lowest bit alone would not tell a type from its reference. -/
theorem lowBits_wrapped_ne (t : Token) :
    t.lowBits ≠ (arrayOf t).lowBits ∧ t.lowBits ≠ (byRef t).lowBits ∧
      (arrayOf t).lowBits ≠ (byRef t).lowBits := by
  have hcases : ∀ x : BitVec 3,
      x ≠ 2 + (5 ^^^ x) ∧ x ≠ 7 + (5 ^^^ x) ∧ 2 + (5 ^^^ x) ≠ 7 + (5 ^^^ x) := by decide
  rw [lowBits_arrayOf, lowBits_byRef]
  exact hcases t.lowBits

/-- The lowest bit of a token. -/
def lowestBit (t : Token) : Nat := t.lowBits.toNat % 2

theorem lowestBit_arrayOf (t : Token) : (arrayOf t).lowestBit = (t.lowestBit + 1) % 2 := by
  have hcases : ∀ x : BitVec 3, (2 + (5 ^^^ x)).toNat % 2 = (x.toNat % 2 + 1) % 2 := by decide
  rw [lowestBit, lowBits_arrayOf]
  exact hcases t.lowBits

theorem lowestBit_byRef (t : Token) : (byRef t).lowestBit = t.lowestBit := by
  have hcases : ∀ x : BitVec 3, (7 + (5 ^^^ x)).toNat % 2 = x.toNat % 2 := by decide
  rw [lowestBit, lowBits_byRef]
  exact hcases t.lowBits

end Token

namespace Ty

/-- The lowest bit counts the arrays among the wrappers modulo two. -/
theorem lowestBit_wrapAll (t : Ty) (ws : List Wrap) :
    (t.wrapAll ws).token.lowestBit = (t.token.lowestBit + ws.count .array) % 2 := by
  induction ws generalizing t with
  | nil =>
    show t.token.lowBits.toNat % 2 = (t.token.lowBits.toNat % 2 + 0) % 2
    omega
  | cons w ws ih =>
    rw [wrapAll_cons, ih]
    cases w with
    | array =>
      have hstep : (Wrap.array.apply t).token.lowestBit = (t.token.lowestBit + 1) % 2 :=
        t.token.lowestBit_arrayOf
      rw [hstep, List.count_cons_self]
      omega
    | byRef =>
      have hstep : (Wrap.byRef.apply t).token.lowestBit = t.token.lowestBit :=
        t.token.lowestBit_byRef
      rw [hstep, List.count_cons_of_ne (by decide)]

/-- Two types have the same token under some wrappers exactly if they have the same token
without them. A type, its array and its reference have three different tokens. Wrappers
that differ in whether the number of arrays is even give a type different tokens. -/
theorem token_wrapAll_keeps_apart :
    (∀ (ws : List Wrap) (a b : Ty),
      (a.wrapAll ws).token = (b.wrapAll ws).token ↔ a.token = b.token) ∧
    (∀ t : Ty, t.token ≠ (array t).token ∧ t.token ≠ (byRef t).token ∧
      (array t).token ≠ (byRef t).token) ∧
    ∀ (t : Ty) (ws vs : List Wrap), ws.count .array % 2 ≠ vs.count .array % 2 →
      (t.wrapAll ws).token ≠ (t.wrapAll vs).token := by
  refine ⟨?_, ?_, ?_⟩
  · intro ws a b
    exact token_wrapAll_inj ws
  · intro t
    obtain ⟨harray, hbyRef, hboth⟩ := t.token.lowBits_wrapped_ne
    exact ⟨mt (congrArg Token.lowBits) harray, mt (congrArg Token.lowBits) hbyRef,
      mt (congrArg Token.lowBits) hboth⟩
  · intro t ws vs hparity h
    have hlowest := congrArg Token.lowestBit h
    rw [lowestBit_wrapAll, lowestBit_wrapAll] at hlowest
    omega

/-- An array of references to arrays of integers is no array of integers. -/
theorem token_wrapAll_keeps_apart_of_two_arrays :
    [Wrap.array, .byRef, .array].count .array % 2 ≠ [Wrap.array].count .array % 2 ∧
      (int32.wrapAll [.array, .byRef, .array]).token ≠ (int32.wrapAll [.array]).token := by
  have hparity : [Wrap.array, .byRef, .array].count .array % 2 ≠ [Wrap.array].count .array % 2 := by
    decide
  exact ⟨hparity, token_wrapAll_keeps_apart.2.2 int32 _ _ hparity⟩

end Ty
end Cil
