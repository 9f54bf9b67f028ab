import Cil.Action
import Cil.Proofs.WellFormed

/-!
# Shortest forms over a frame

The dedicated, short and long members of a family differ in size only. Whichever of them
is chosen, it addresses the slot that was asked for, and the frame admits it exactly when
the slot is declared and two bytes can hold its number. In particular an argument that
can be loaded leaves no doubt about the ones before it.

The chosen form is the shortest in a strict sense: every other instruction that does the
same and whose operand fits takes more bytes.
-/

namespace Cil

namespace Action

/-- The slot that an action is about. -/
def slot? : Action → Option Slot
  | .pushInt _ => none
  | .loadArg index => some (.arg index)
  | .loadLocal index | .storeLocal index => some (.loc index)

/-- A slot form addresses the slot it was chosen for, provided that the dedicated forms
imply their own number. -/
theorem slot?_slotForm {dedicated : Fin 4 → Opcode} {general : Width → Opcode}
    {place : UInt32 → Slot}
    (hdedicated : ∀ n : Fin 4, (dedicated n).impliedSlot? = some (place n.val.toUInt32))
    (index : UInt32) : (slotForm dedicated general place index).slot? = some (place index) := by
  rw [slotForm]
  split
  · simp [hdedicated]
  · split <;> rfl

theorem slot?_shortest (a : Action) : a.shortest.slot? = a.slot? := by
  cases a with
  | pushInt value =>
    simp only [shortest, intForm]
    split
    · rfl
    · split <;> rfl
  | loadArg index => exact slot?_slotForm (fun _ => rfl) index
  | loadLocal index => exact slot?_slotForm (fun _ => rfl) index
  | storeLocal index => exact slot?_slotForm (fun _ => rfl) index

/-- The three forms together cover the slots that two bytes can hold. -/
theorem checkWidth_slotForm {dedicated : Fin 4 → Opcode} {general : Width → Opcode}
    {place : UInt32 → Slot} (hgeneral : ∀ w, (general w).slotWidth? = some w)
    (hplace : ∀ i, (place i).index = i) (index : UInt32) :
    (slotForm dedicated general place index).checkWidth = .ok () ↔ index.toNat ≤ 65535 := by
  rw [slotForm]
  split
  · simp only [Instruction.checkWidth, Instruction.operand_simple, true_iff]
    omega
  · split
    · rw [Instruction.checkWidth_slot (hgeneral .short), hplace, Width.maxIndex]
      omega
    · rw [Instruction.checkWidth_slot (hgeneral .long), hplace, Width.maxIndex]

theorem checkWidth_shortest (a : Action) :
    a.shortest.checkWidth = .ok () ↔
      ∀ place, a.slot? = some place → place.index.toNat ≤ 65535 := by
  cases a with
  | pushInt value =>
    simp only [shortest, intForm, slot?, reduceCtorEq, false_implies, implies_true, iff_true]
    split
    · rfl
    · split <;> rfl
  | loadArg index =>
    simpa [shortest, slot?] using checkWidth_slotForm (fun _ => rfl) Slot.index_arg index
  | loadLocal index =>
    simpa [shortest, slot?] using checkWidth_slotForm (fun _ => rfl) Slot.index_loc index
  | storeLocal index =>
    simpa [shortest, slot?] using checkWidth_slotForm (fun _ => rfl) Slot.index_loc index

/-- Which form is chosen makes no difference to whether a request can be met. -/
theorem wellFormed_shortest_iff {a : Action} {f : Frame} :
    a.shortest.WellFormed f ↔
      ∀ place, a.slot? = some place → f.Declares place ∧ place.index.toNat ≤ 65535 := by
  rw [Instruction.wellFormed_iff, slot?_shortest, checkWidth_shortest]
  constructor
  · rintro ⟨-, hdeclared, hwidth⟩ place hplace
    exact ⟨hdeclared place hplace, hwidth place hplace⟩
  · intro h
    exact ⟨a.operandKind?_shortest, fun place hplace => (h place hplace).1,
      fun place hplace => (h place hplace).2⟩

theorem wellFormed_loadArg_iff {index : UInt32} {f : Frame} :
    (loadArg index).shortest.WellFormed f ↔
      index.toNat < f.args.size ∧ index.toNat ≤ 65535 := by
  rw [wellFormed_shortest_iff]
  constructor
  · intro h
    exact h _ rfl
  · intro h place hplace
    cases hplace
    exact h

/-- If an argument can be loaded, so can every earlier one. -/
theorem wellFormed_loadArg_of_le {first last : UInt32} {f : Frame}
    (h : (loadArg last).shortest.WellFormed f) (hle : first.toNat ≤ last.toNat) :
    (loadArg first).shortest.WellFormed f := by
  rw [wellFormed_loadArg_iff] at h ⊢
  exact ⟨Nat.lt_of_le_of_lt hle h.1, Nat.le_trans hle h.2⟩

section Families

variable {dedicated : Fin 4 → Opcode} {general : Width → Opcode} {place : UInt32 → Slot}

theorem slotForm_dedicated (n : Fin 4) :
    slotForm dedicated general place n.val.toUInt32 = .simple (dedicated n) := by
  simp only [slotForm, Opcode.toNat_toUInt32_slot, n.isLt, dite_true]

/-- A form with an operand is the chosen one or longer than it, provided that the three
members of its family have the usual sizes. -/
theorem slotForm_general (hdedicated : ∀ n, (Instruction.simple (dedicated n)).byteSize = 1)
    (hshort : ∀ o, (Instruction.mk (general .short) o).byteSize = 2)
    (hlong : ∀ o, (Instruction.mk (general .long) o).byteSize = 4)
    {width : Width} {index : UInt32} (hfits : index.toNat ≤ width.maxIndex) :
    ⟨general width, .slot (place index)⟩ = slotForm dedicated general place index ∨
      (slotForm dedicated general place index).byteSize <
        (Instruction.mk (general width) (.slot (place index))).byteSize := by
  rw [slotForm]
  split
  · rw [hdedicated]
    cases width with
    | short => exact .inr (by rw [hshort]; decide)
    | long => exact .inr (by rw [hlong]; decide)
  · split
    · cases width with
      | short => exact .inl rfl
      | long => exact .inr (by rw [hshort, hlong]; decide)
    · cases width with
      | short => exact absurd hfits (by assumption)
      | long => exact .inl rfl

end Families

theorem intForm_small (n : Fin 9) : intForm (Int32.ofNat n.val) = .simple (.ldcSmall n) := by
  revert n
  decide

theorem intForm_byte (value : Int8) :
    ⟨.ldcByte, .int8 value⟩ = intForm value.toInt32 ∨ (intForm value.toInt32).byteSize < 2 := by
  have hlower := value.le_toInt
  have hupper := value.toInt_lt
  rw [intForm]
  split
  · exact .inr (show 1 < 2 by decide)
  · rw [if_pos (by rw [Int8.toInt_toInt32]; omega), Int8.toInt8_toInt32]
    exact .inl rfl

theorem intForm_word (value : Int32) :
    ⟨.ldcWord, .int32 value⟩ = intForm value ∨ (intForm value).byteSize < 5 := by
  rw [intForm]
  split
  · exact .inr (show 1 < 5 by decide)
  · split
    · exact .inr (show 2 < 5 by decide)
    · exact .inl rfl

/-- An instruction that carries out an action and whose operand fits is the shortest form
of that action or longer. The cases are those of `Instruction.action?`: three forms of a
constant load, then the two of each family of slot instructions. -/
theorem eq_shortest_or_lt {i : Instruction} {a : Action} (haction : i.action? = some a)
    (hwidth : i.checkWidth = .ok ()) : i = a.shortest ∨ a.shortest.byteSize < i.byteSize := by
  obtain ⟨op, operand⟩ := i
  simp only [Instruction.action?] at haction
  split at haction
  · cases haction
    exact .inl (intForm_small _).symm
  · cases haction
    exact intForm_byte _
  · cases haction
    exact intForm_word _
  · cases haction
    exact .inl (slotForm_dedicated _).symm
  · cases haction
    exact slotForm_general (fun _ => rfl) (fun _ => rfl) (fun _ => rfl)
      ((Instruction.checkWidth_slot rfl).mp hwidth)
  · cases haction
    exact .inl (slotForm_dedicated _).symm
  · cases haction
    exact slotForm_general (fun _ => rfl) (fun _ => rfl) (fun _ => rfl)
      ((Instruction.checkWidth_slot rfl).mp hwidth)
  · cases haction
    exact .inl (slotForm_dedicated _).symm
  · cases haction
    exact slotForm_general (fun _ => rfl) (fun _ => rfl) (fun _ => rfl)
      ((Instruction.checkWidth_slot rfl).mp hwidth)
  · cases haction

end Action
end Cil
