import Mathlib.Logic.ExistsUnique
import Cil.Proofs.Mixing

/-!
# Overloads that differ in one place

Members that agree in everything but one parameter, or in everything but the owner, have
different tokens, whatever the other parameters are and however many there are. Of the name
of a method only the digest counts. Nothing is said here of members that differ in two
places: two differences may cancel.
-/

namespace Cil.Token

/-- Parameter lists that differ in exactly one position have the same parameters in front of
it and behind it. -/
theorem exists_split_of_differ_once {ps qs : List Token} (hlength : ps.length = qs.length)
    (honce : ∃! i : Nat, ps[i]? ≠ qs[i]?) :
    ∃ front p q back, ps = front ++ p :: back ∧ qs = front ++ q :: back ∧ p ≠ q := by
  induction ps generalizing qs with
  | nil =>
    obtain ⟨i, hi, -⟩ := honce
    obtain rfl : qs = [] := List.eq_nil_of_length_eq_zero hlength.symm
    exact absurd rfl hi
  | cons p ps ih =>
    obtain ⟨q, qs, rfl⟩ := List.exists_cons_of_length_eq_add_one hlength.symm
    obtain ⟨i, hi, honly⟩ := honce
    by_cases hpq : p = q
    · -- The heads agree, so the one position is in the tails.
      subst hpq
      cases i with
      | zero => exact absurd rfl hi
      | succ i =>
        have honly' : ∀ j : Nat, ps[j]? ≠ qs[j]? → j = i := by
          intro j hj
          exact Nat.succ.inj (honly (j + 1) hj)
        obtain ⟨front, p', q', back, rfl, rfl, hne⟩ :=
          ih (Nat.succ.inj hlength) ⟨i, hi, honly'⟩
        exact ⟨p :: front, p', q', back, rfl, rfl, hne⟩
    · -- The heads differ, so the tails agree everywhere.
      have hfirst : 0 = i := honly 0 (fun h => hpq (Option.some.inj h))
      have htails : ps = qs := by
        apply List.ext_getElem?
        intro j
        apply Decidable.byContradiction
        intro hj
        have hlater : j + 1 = i := honly (j + 1) hj
        omega
      exact ⟨[], p, q, ps, rfl, by rw [htails]; rfl, hpq⟩

/-- A single parameter makes a difference to a method and to a constructor, and so does the
owner. A name makes the difference that its digest makes. -/
theorem overloads_differ :
    (∀ (owner : Token) (name : String) (ps qs : List Token), ps.length = qs.length →
      (∃! i : Nat, ps[i]? ≠ qs[i]?) →
      ofMethod owner name ps ≠ ofMethod owner name qs ∧ ofCtor owner ps ≠ ofCtor owner qs) ∧
    (∀ (owner owner' : Token) (name : String) (ps : List Token), owner ≠ owner' →
      ofMethod owner name ps ≠ ofMethod owner' name ps ∧ ofCtor owner ps ≠ ofCtor owner' ps) ∧
    ∀ (owner : Token) (name name' : String) (ps : List Token),
      ofMethod owner name ps = ofMethod owner name' ps ↔
        Xxh64.ofString name = Xxh64.ofString name' := by
  refine ⟨?_, ?_, ?_⟩
  · intro owner name ps qs hlength honce
    obtain ⟨front, p, q, back, rfl, rfl, hne⟩ := exists_split_of_differ_once hlength honce
    constructor
    · intro h
      exact hne ((mix_replace_inj _ front back).mp h)
    · intro h
      exact hne ((mix_replace_inj _ front back).mp h)
  · intro owner owner' name ps hne
    constructor
    · intro h
      have hbits := ofMethod_eq_iff.mp h
      exact hne (bits_inj.mp ((UInt64.xor_left_inj _).mp hbits))
    · intro h
      exact hne (ofCtor_eq_iff.mp h)
  · intro owner name name' ps
    rw [ofMethod_eq_iff, UInt64.xor_right_inj]

/-- The seventeenth of eighteen parameters is the first without a marker in the table. -/
theorem overloads_differ_of_seventeenth :
    let ps := List.replicate 18 (⟨1⟩ : Token)
    let qs := ps.set 16 ⟨2⟩
    (ps.length = qs.length ∧ (∃! i : Nat, ps[i]? ≠ qs[i]?) ∧
      ofMethod ⟨3⟩ "Load" ps ≠ ofMethod ⟨3⟩ "Load" qs ∧ ofCtor ⟨3⟩ ps ≠ ofCtor ⟨3⟩ qs) ∧
    (⟨3⟩ : Token) ≠ ⟨4⟩ ∧
      ofMethod ⟨3⟩ "Load" ps ≠ ofMethod ⟨4⟩ "Load" ps ∧ ofCtor ⟨3⟩ ps ≠ ofCtor ⟨4⟩ ps := by
  intro ps qs
  have hlength : ps.length = qs.length := by decide
  have honce : ∃! i : Nat, ps[i]? ≠ qs[i]? := by
    refine ⟨16, by decide, ?_⟩
    intro i hi
    apply Decidable.byContradiction
    intro hother
    exact hi (List.getElem?_set_ne (Ne.symm hother)).symm
  have howner : (⟨3⟩ : Token) ≠ ⟨4⟩ := by decide
  obtain ⟨hparams, howners, -⟩ := overloads_differ
  exact ⟨⟨hlength, honce, hparams ⟨3⟩ "Load" ps qs hlength honce⟩, howner,
    howners ⟨3⟩ ⟨4⟩ "Load" ps howner⟩

end Cil.Token
