import Cil.Proofs.Mixing

/-!
# Tokens of entities of different kinds

A kind of entity starts from a constant of its own, so that entities with the same spelling
and of different kinds have different tokens. The constants are not kept apart from what they
are combined with: an exclusive or with the token of the owner, or with the digest of a name,
can turn the constant of one kind into that of another.

Over the same parameters two tokens agree exactly if they were mixed from the same seed, and
a seed that is masked with an owner reaches every value once. So each pair of kinds meets at
exactly one owner, or at the names of exactly one digest, whatever the parameters are. The
theorem at the end lists these places. No entity meets its own constructor without
parameters.
-/

namespace Cil.Token

/-- Whatever a token is mixed from, the constructor of one owner has the same token, and no
other constructor with these parameters has. -/
theorem mix_eq_ofCtor_iff {seed : UInt64} {owner : Token} {params : List Token} :
    mix seed params = ofCtor owner params ↔ owner = ⟨Seed.ctor ^^^ seed⟩ :=
  calc mix seed params = ofCtor owner params
    _ ↔ seed = Seed.ctor ^^^ owner.bits := mix_inj
    _ ↔ Seed.ctor ^^^ owner.bits = seed := eq_comm
    _ ↔ owner.bits = Seed.ctor ^^^ seed := xor_eq_iff_eq_xor
    _ ↔ owner = ⟨Seed.ctor ^^^ seed⟩ := bits_inj (q := ⟨Seed.ctor ^^^ seed⟩)

/-- The owner is in both seeds and cancels. -/
theorem ofMethod_eq_ofCtor_iff {owner : Token} {name : String} {params : List Token} :
    ofMethod owner name params = ofCtor owner params ↔
      Xxh64.ofString name = Seed.method ^^^ Seed.ctor :=
  calc ofMethod owner name params = ofCtor owner params
    _ ↔ Seed.method ^^^ owner.bits ^^^ Xxh64.ofString name = Seed.ctor ^^^ owner.bits := mix_inj
    _ ↔ Seed.method ^^^ Xxh64.ofString name ^^^ owner.bits = Seed.ctor ^^^ owner.bits := by
      rw [UInt64.xor_assoc, UInt64.xor_comm owner.bits, ← UInt64.xor_assoc]
    _ ↔ Seed.method ^^^ Xxh64.ofString name = Seed.ctor := UInt64.xor_left_inj _
    _ ↔ Xxh64.ofString name = Seed.method ^^^ Seed.ctor := xor_eq_iff_eq_xor

/-- The digest of the name is in both seeds and cancels. -/
theorem ofName_eq_ofMethod_iff {owner : Token} {name : String} :
    ofName name = ofMethod owner name [] ↔ owner = ⟨Seed.type ^^^ Seed.method⟩ :=
  calc ofName name = ofMethod owner name []
    -- The token of a type is mixed from its seed and no parameters.
    _ ↔ mix (Seed.type ^^^ Xxh64.ofString name) [] = ofMethod owner name [] := Iff.rfl
    _ ↔ Seed.type ^^^ Xxh64.ofString name = Seed.method ^^^ owner.bits ^^^ Xxh64.ofString name :=
      mix_inj
    _ ↔ Seed.type = Seed.method ^^^ owner.bits := UInt64.xor_left_inj _
    _ ↔ Seed.method ^^^ owner.bits = Seed.type := eq_comm
    _ ↔ owner.bits = Seed.method ^^^ Seed.type := xor_eq_iff_eq_xor
    _ ↔ owner = ⟨Seed.method ^^^ Seed.type⟩ := bits_inj (q := ⟨Seed.method ^^^ Seed.type⟩)
    _ ↔ owner = ⟨Seed.type ^^^ Seed.method⟩ := by rw [UInt64.xor_comm]

/-- Without parameters the constructor's constant is all that is added to the owner, and it
is not zero. -/
theorem ne_ofCtor_nil (owner : Token) : owner ≠ ofCtor owner [] := by
  intro h
  have hmask : Seed.ctor ^^^ owner.bits = owner.bits := (congrArg Token.bits h).symm
  have hzero : Seed.ctor = 0 := by
    rw [UInt64.xor_comm, xor_eq_iff_eq_xor, UInt64.xor_self] at hmask
    exact hmask
  exact absurd hzero (by decide)

/-- A method and a constructor of one owner with the same parameters share a token exactly if
the name has one particular digest. A type and a method of that name without parameters do so
exactly at one owner, and a type and its own constructor without parameters never do. An
array and a reference share the token of a constructor that takes their element exactly if
that has one particular owner. -/
theorem kinds_meet_exactly :
    (∀ (owner : Token) (name : String) (params : List Token),
      ofMethod owner name params = ofCtor owner params ↔
        Xxh64.ofString name = Seed.method ^^^ Seed.ctor) ∧
    (∀ (owner : Token) (name : String),
      ofName name = ofMethod owner name [] ↔ owner = ⟨Seed.type ^^^ Seed.method⟩) ∧
    (∀ name : String, ofName name ≠ ofCtor (ofName name) []) ∧
    (∀ owner p : Token, arrayOf p = ofCtor owner [p] ↔ owner = ⟨Seed.ctor ^^^ Seed.array⟩) ∧
    ∀ owner p : Token, byRef p = ofCtor owner [p] ↔ owner = ⟨Seed.ctor ^^^ Seed.byRef⟩ := by
  refine ⟨?_, ?_, ?_, ?_, ?_⟩
  · intro owner name params
    exact ofMethod_eq_ofCtor_iff
  · intro owner name
    exact ofName_eq_ofMethod_iff
  · intro name
    exact ne_ofCtor_nil (ofName name)
  · intro owner p
    exact mix_eq_ofCtor_iff
  · intro owner p
    exact mix_eq_ofCtor_iff

end Cil.Token
