import Mathlib.Data.List.Nodup
import Cil.Operand
import Cil.Proofs.Mixing

/-!
# What the token of a method tells about it

Mixing in parameters loses nothing about the seed, because the multiplier is odd. So two
methods with the same parameters share a token exactly when they share a seed. The seed
of a method is the exclusive or of a constant, the token of the owner and the digest of
the name, and that is symmetric: a method's own name and the name of its class can trade
places, and where the two are equal they cancel.

`Method.token_ofNames_eq_iff` lists all ways in which two methods of classes can share a
token while the digest tells their names apart. Besides being the same method there are
two that hold by construction, and one that takes an accident among four digests.
-/

namespace Cil

/-- No two of these names have the same digest. -/
def Xxh64.Distinguishes (names : List String) : Prop :=
  ∀ s ∈ names, ∀ t ∈ names, ofString s = ofString t → s = t

instance (names : List String) : Decidable (Xxh64.Distinguishes names) :=
  inferInstanceAs (Decidable (∀ s ∈ names, ∀ t ∈ names, _ → s = t))

namespace Method

/-- A method of a class. -/
def ofNames (owner name : String) (params : List Ty) : Method :=
  { owner := .ofClass owner, name := name, params := params }

theorem token_ofNames_eq_iff_digests {A B m n : String} {params : List Ty} :
    (ofNames A m params).token = (ofNames B n params).token ↔
      Xxh64.ofString A ^^^ Xxh64.ofString m = Xxh64.ofString B ^^^ Xxh64.ofString n := by
  have howner (name : String) :
      (Ty.ofClass name).token.bits = Token.Seed.type ^^^ Xxh64.ofString name := rfl
  simp only [token, ofNames]
  rw [Token.ofMethod_eq_iff, howner, howner, UInt64.xor_assoc, UInt64.xor_assoc,
    UInt64.xor_right_inj]

/-- Two methods of classes with the same parameters share a token if they are the same,
if each is named like the class of the other, or if both are named like their own class.
Otherwise they do so only if all four names are different and their digests happen to
cancel. -/
theorem token_ofNames_eq_iff {A B m n : String} (h : Xxh64.Distinguishes [A, B, m, n])
    (params : List Ty) :
    (ofNames A m params).token = (ofNames B n params).token ↔
      (A = B ∧ m = n) ∨ (A = n ∧ m = B) ∨ (A = m ∧ B = n) ∨
        ([A, B, m, n].Nodup ∧
          Xxh64.ofString A ^^^ Xxh64.ofString m = Xxh64.ofString B ^^^ Xxh64.ofString n) := by
  rw [token_ofNames_eq_iff_digests]
  constructor
  · intro hxor
    -- Two equal names take their digests out of the equation, and the other two are equal.
    by_cases hAB : A = B
    · subst hAB
      have hdigest := (UInt64.xor_right_inj _).mp hxor
      exact .inl ⟨rfl, h m (by simp) n (by simp) hdigest⟩
    by_cases hAn : A = n
    · subst hAn
      rw [UInt64.xor_comm, UInt64.xor_left_inj] at hxor
      exact .inr (.inl ⟨rfl, h m (by simp) B (by simp) hxor⟩)
    by_cases hAm : A = m
    · subst hAm
      rw [UInt64.xor_self, eq_comm, UInt64.xor_eq_zero_iff] at hxor
      exact .inr (.inr (.inl ⟨rfl, h B (by simp) n (by simp) hxor⟩))
    -- In the remaining cases that would be one of the three pairs again.
    have hBm : B ≠ m := by
      rintro rfl
      rw [UInt64.xor_comm, UInt64.xor_right_inj] at hxor
      exact hAn (h A (by simp) n (by simp) hxor)
    have hBn : B ≠ n := by
      rintro rfl
      rw [UInt64.xor_self, UInt64.xor_eq_zero_iff] at hxor
      exact hAm (h A (by simp) m (by simp) hxor)
    have hmn : m ≠ n := by
      rintro rfl
      exact hAB (h A (by simp) B (by simp) ((UInt64.xor_left_inj _).mp hxor))
    exact .inr (.inr (.inr ⟨by simp [hAB, hAm, hAn, hBm, hBn, hmn], hxor⟩))
  · rintro (⟨rfl, rfl⟩ | ⟨rfl, rfl⟩ | ⟨rfl, rfl⟩ | ⟨-, hxor⟩)
    · rfl
    · exact UInt64.xor_comm _ _
    · rw [UInt64.xor_self, UInt64.xor_self]
    · exact hxor

/-- Methods of one name in two classes have different tokens. -/
theorem token_ofNames_eq_iff_of_one_name :
    Xxh64.Distinguishes ["Node", "Parent", "Load", "Load"] ∧
      (ofNames "Node" "Load" [.int32]).token ≠ (ofNames "Parent" "Load" [.int32]).token := by
  have h : Xxh64.Distinguishes ["Node", "Parent", "Load", "Load"] := by decide +kernel
  refine ⟨h, ?_⟩
  rw [ne_eq, token_ofNames_eq_iff h]
  decide

/-- The method `Parent` of the class `Node` and the method `Node` of the class `Parent`
are different and share a token, although the digest tells the two names apart. -/
theorem token_ofNames_eq_of_swapped_names :
    Xxh64.Distinguishes ["Node", "Parent", "Parent", "Node"] ∧
      (ofNames "Node" "Parent" []).token = (ofNames "Parent" "Node" []).token ∧
      ¬ ("Node" = "Parent" ∧ "Parent" = "Node") := by
  refine ⟨by decide +kernel, ?_, by decide⟩
  rw [token_ofNames_eq_iff_digests]
  exact UInt64.xor_comm _ _

end Method
end Cil
