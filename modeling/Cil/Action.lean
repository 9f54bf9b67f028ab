import Cil.Instruction

/-!
# Shortest forms

Some things can be said by more than one instruction: a small constant fits a
dedicated opcode, a one-byte operand and a four-byte operand alike. An `Action` is
what is to be done, and `Action.shortest` is the instruction that does it in the
fewest bytes. `Instruction.action?` goes the other way and says what an instruction
does, whichever form it uses.
-/

namespace Cil

/-- A request that several instructions can meet. -/
inductive Action where
  | pushInt (value : Int32)
  | loadArg (index : UInt32)
  | loadLocal (index : UInt32)
  | storeLocal (index : UInt32)
  deriving DecidableEq, Repr

namespace Action

/-- The shortest form in a family of slot instructions: dedicated up to slot 3, short
up to slot 255, long beyond. A slot above 65535 still gets the long form; that it
does not fit is found when the instruction is checked. -/
def slotForm (dedicated : Fin 4 → Opcode) (general : Width → Opcode)
    (place : UInt32 → Slot) (index : UInt32) : Instruction :=
  if h : index.toNat < 4 then .simple (dedicated ⟨index.toNat, h⟩)
  else if index.toNat ≤ 255 then ⟨general .short, .slot (place index)⟩
  else ⟨general .long, .slot (place index)⟩

/-- The shortest push of a constant: dedicated from 0 to 8, one byte where a signed
byte suffices, four bytes otherwise. -/
def intForm (value : Int32) : Instruction :=
  if h : 0 ≤ value.toInt ∧ value.toInt ≤ 8 then
    .simple (.ldcSmall ⟨value.toInt.toNat, by omega⟩)
  else if -128 ≤ value.toInt ∧ value.toInt ≤ 127 then ⟨.ldcByte, .int8 value.toInt8⟩
  else ⟨.ldcWord, .int32 value⟩

/-- The instruction that carries out an action in the fewest bytes. -/
def shortest : Action → Instruction
  | .pushInt value => intForm value
  | .loadArg index => slotForm .ldargAt .ldarg .arg index
  | .loadLocal index => slotForm .ldlocAt .ldloc .loc index
  | .storeLocal index => slotForm .stlocAt .stloc .loc index

end Action

/-- What an instruction does, if it is one of those an action can ask for. -/
def Instruction.action? (i : Instruction) : Option Action :=
  match i.opcode, i.operand with
  | .ldcSmall value, .none => some (.pushInt (Int32.ofNat value.val))
  | .ldcByte, .int8 value => some (.pushInt value.toInt32)
  | .ldcWord, .int32 value => some (.pushInt value)
  | .ldargAt slot, .none => some (.loadArg slot.val.toUInt32)
  | .ldarg _, .slot (.arg index) => some (.loadArg index)
  | .ldlocAt slot, .none => some (.loadLocal slot.val.toUInt32)
  | .ldloc _, .slot (.loc index) => some (.loadLocal index)
  | .stlocAt slot, .none => some (.storeLocal slot.val.toUInt32)
  | .stloc _, .slot (.loc index) => some (.storeLocal index)
  | _, _ => none

namespace Action

/-- A slot form is legal if all members of its family are. -/
theorem operandKind?_slotForm {dedicated : Fin 4 → Opcode} {general : Width → Opcode}
    {place : UInt32 → Slot} {kind : Operand.Kind}
    (hdedicated : ∀ n, (dedicated n).operandKind? = some .none)
    (hgeneral : ∀ w, (general w).operandKind? = some kind)
    (hplace : ∀ i, (Operand.slot (place i)).kind = kind) (index : UInt32) :
    (slotForm dedicated general place index).opcode.operandKind? =
      some (slotForm dedicated general place index).operand.kind := by
  unfold slotForm
  split
  · exact hdedicated _
  · split
    · rw [hgeneral, hplace]
    · rw [hgeneral, hplace]

/-- Every shortest form has an operand of the kind that its opcode takes. -/
theorem operandKind?_shortest (a : Action) :
    a.shortest.opcode.operandKind? = some a.shortest.operand.kind := by
  cases a with
  | pushInt value =>
    simp only [shortest, intForm]
    split
    · rfl
    · split <;> rfl
  | loadArg index =>
    exact operandKind?_slotForm (fun _ => rfl) (fun _ => rfl) (fun _ => rfl) index
  | loadLocal index =>
    exact operandKind?_slotForm (fun _ => rfl) (fun _ => rfl) (fun _ => rfl) index
  | storeLocal index =>
    exact operandKind?_slotForm (fun _ => rfl) (fun _ => rfl) (fun _ => rfl) index

theorem action?_intForm (value : Int32) : (intForm value).action? = some (.pushInt value) := by
  unfold intForm
  split
  · rename_i small
    have h : (Int32.ofNat value.toInt.toNat).toInt = value.toInt := by
      rw [Int32.toInt_ofNat_of_lt (by omega)]
      omega
    have h' : Int32.ofNat value.toInt.toNat = value := Int32.toInt_inj.mp h
    simp only [Instruction.simple, Instruction.action?, h']
  · split
    · rename_i byte
      have h : value.toInt8.toInt32.toInt = value.toInt := by
        rw [Int8.toInt_toInt32, Int32.toInt_toInt8]
        exact Int.bmod_eq_of_le (by omega) (by omega)
      have h' : value.toInt8.toInt32 = value := Int32.toInt_inj.mp h
      simp only [Instruction.action?, h']
    · rfl

/-- The chosen instruction does what was asked for. -/
theorem action?_shortest (a : Action) : a.shortest.action? = some a := by
  cases a with
  | pushInt value => exact action?_intForm value
  | loadArg index | loadLocal index | storeLocal index =>
    simp only [shortest, slotForm]
    split
    · simp [Instruction.simple, Instruction.action?]
    · split <;> rfl

end Action
end Cil
