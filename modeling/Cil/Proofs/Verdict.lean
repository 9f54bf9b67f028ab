import Cil.Proofs.Refusal

/-!
# The verdict on an instruction

`Instruction.Faulty` lists what can be wrong with an instruction over a frame, each fault
with all the conditions under which it is the one that is reported. No order of checks is
left in it: a fault of the slot asks for the right shape, and a number that is too large
asks for a slot that exists. `Instruction.fault?_eq_some_iff` says that the check reports
just these faults, and an instruction that has none of them is appended as it is.
-/

namespace Cil

/-- An opcode that implies a slot takes none in an operand. -/
theorem Opcode.slotWidth?_of_impliedSlot {op : Opcode} {place : Slot}
    (h : op.impliedSlot? = some place) : op.slotWidth? = none := by
  cases op with
  | ldargAt slot | ldlocAt slot | stlocAt slot => rfl
  | _ => cases h

namespace Instruction

/-- The instruction names the slot in its operand, or its opcode stands for the slot. -/
def Addresses (i : Instruction) (place : Slot) : Prop :=
  i.operand = .slot place ∨ i.opcode.impliedSlot? = some place

/-- The number of the slot is beyond what the opcode can encode. -/
def TooWide (i : Instruction) (place : Slot) : Prop :=
  (i.opcode ∈ Opcode.shortForms ∧ 255 < place.index.toNat) ∨
    (i.opcode ∈ Opcode.longForms ∧ 65535 < place.index.toNat)

/-- What is wrong with an instruction over a frame. -/
def Faulty (i : Instruction) (f : Frame) : Fault → Prop
  | .notInGrammar op => i.opcode.operandKind? = none ∧ op = i.opcode
  | .operandMismatch op expected found =>
    i.opcode.operandKind? = some expected ∧ expected ≠ i.operand.kind ∧
      op = i.opcode ∧ found = i.operand.kind
  | .undeclaredArg index count =>
    i.opcode.operandKind? = some i.operand.kind ∧ i.Addresses (.arg index) ∧
      ¬ index.toNat < f.args.size ∧ count = f.args.size
  | .undeclaredLocal index count =>
    i.opcode.operandKind? = some i.operand.kind ∧ i.Addresses (.loc index) ∧
      ¬ index.toNat < f.locals.count ∧ count = f.locals.count
  | .slotTooWide op index =>
    i.opcode.operandKind? = some i.operand.kind ∧ op = i.opcode ∧
      ∃ place, i.Addresses place ∧ f.Declares place ∧ i.TooWide place ∧ index = place.index

variable {i : Instruction} {f : Frame}

theorem tooWide_iff {width : Width} (hwidth : i.opcode.slotWidth? = some width) {place : Slot} :
    i.TooWide place ↔ width.maxIndex < place.index.toNat := by
  rw [TooWide, ← Opcode.slotWidth?_eq_short_iff, ← Opcode.slotWidth?_eq_long_iff, hwidth]
  cases width <;> simp [Width.maxIndex]

theorem not_tooWide (hwidth : i.opcode.slotWidth? = none) (place : Slot) : ¬ i.TooWide place := by
  rw [TooWide, ← Opcode.slotWidth?_eq_short_iff, ← Opcode.slotWidth?_eq_long_iff, hwidth]
  simp

/-- The check of the width finds the slots that are too wide. A dedicated form has no operand
that could be too small for its slot. -/
theorem checkWidth_of_addresses (hkind : i.opcode.operandKind? = some i.operand.kind)
    {place : Slot} (hplace : i.Addresses place) :
    (i.TooWide place ∧ i.checkWidth = .error (.slotTooWide i.opcode place.index)) ∨
      (¬ i.TooWide place ∧ i.checkWidth = .ok ()) := by
  obtain ⟨op, operand⟩ := i
  obtain rfl | himplied := hplace
  · obtain ⟨width, hwidth⟩ := Opcode.exists_slotWidth_of_operandKind hkind
    rw [tooWide_iff hwidth]
    simp only [checkWidth, Opcode.maxSlotIndex?, hwidth, Option.map_some]
    by_cases hfits : place.index.toNat ≤ width.maxIndex
    · exact .inr ⟨Nat.not_lt.mpr hfits, if_pos hfits⟩
    · exact .inl ⟨Nat.lt_of_not_le hfits, if_neg hfits⟩
  · have hnone : op.slotWidth? = none := Opcode.slotWidth?_of_impliedSlot himplied
    refine .inr ⟨not_tooWide hnone place, ?_⟩
    simp [checkWidth, Opcode.maxSlotIndex?, hnone]

/-- Nothing is wrong with an instruction of the right shape if the slot that it addresses is
there and fits. -/
theorem wellFormed_iff_addresses :
    i.WellFormed f ↔ i.opcode.operandKind? = some i.operand.kind ∧
      ∀ place, i.Addresses place → f.Declares place ∧ ¬ i.TooWide place := by
  constructor
  · intro h
    obtain ⟨hkind, hdeclared, hcheck⟩ := wellFormed_iff.mp h
    refine ⟨hkind, ?_⟩
    intro place hplace
    refine ⟨hdeclared place ((slot?_eq_some_iff hkind).mpr hplace), ?_⟩
    obtain ⟨-, herror⟩ | ⟨hfits, -⟩ := checkWidth_of_addresses hkind hplace
    · rw [herror] at hcheck
      cases hcheck
    · exact hfits
  · rintro ⟨hkind, hslots⟩
    cases hslot : i.slot? with
    | none => exact wellFormed_of_slot?_eq_none hkind hslot f
    | some place =>
      have hplace : i.Addresses place := (slot?_eq_some_iff hkind).mp hslot
      obtain ⟨hwide, -⟩ | ⟨-, hcheck⟩ := checkWidth_of_addresses hkind hplace
      · exact absurd hwide (hslots place hplace).2
      · refine wellFormed_iff.mpr ⟨hkind, ?_, hcheck⟩
        intro place' hplace'
        exact (hslots place' ((slot?_eq_some_iff hkind).mp hplace')).1

theorem fault?_of_checkShape_error {e : Fault} (h : i.checkShape = .error e) :
    i.fault? f = some e := by
  rw [fault?, check, h]

theorem Faulty.fault?_eq {e : Fault} (h : i.Faulty f e) : i.fault? f = some e := by
  cases e with
  | notInGrammar op =>
    obtain ⟨hkind, rfl⟩ := h
    apply fault?_of_checkShape_error
    rw [checkShape, hkind]
  | operandMismatch op expected found =>
    obtain ⟨hkind, hne, rfl, rfl⟩ := h
    apply fault?_of_checkShape_error
    simp only [checkShape, hkind, if_neg hne]
  | undeclaredArg index count =>
    obtain ⟨hkind, hplace, hmissing, rfl⟩ := h
    exact fault?_of_not_declares hkind ((slot?_eq_some_iff hkind).mpr hplace) hmissing
  | undeclaredLocal index count =>
    obtain ⟨hkind, hplace, hmissing, rfl⟩ := h
    exact fault?_of_not_declares hkind ((slot?_eq_some_iff hkind).mpr hplace) hmissing
  | slotTooWide op index =>
    obtain ⟨hkind, rfl, place, hplace, hdeclared, hwide, rfl⟩ := h
    rw [fault?_of_declares hkind ((slot?_eq_some_iff hkind).mpr hplace) hdeclared]
    obtain ⟨-, hcheck⟩ | ⟨hfits, -⟩ := checkWidth_of_addresses hkind hplace
    · rw [hcheck]
    · exact absurd hwide hfits

theorem faulty_missing (hkind : i.opcode.operandKind? = some i.operand.kind) {place : Slot}
    (hplace : i.Addresses place) (hmissing : ¬ f.Declares place) :
    i.Faulty f (f.missing place) := by
  cases place with
  | arg index => exact ⟨hkind, hplace, hmissing, rfl⟩
  | loc index => exact ⟨hkind, hplace, hmissing, rfl⟩

/-- Whatever is not well formed has a fault. -/
theorem exists_faulty_of_not_wellFormed (h : ¬ i.WellFormed f) : ∃ e, i.Faulty f e := by
  cases hkind : i.opcode.operandKind? with
  | none => exact ⟨.notInGrammar _, hkind, rfl⟩
  | some expected =>
    by_cases hshape : expected = i.operand.kind
    · subst hshape
      -- The shape is right, so it is an addressed slot that is missing or too wide.
      rw [wellFormed_iff_addresses, not_and] at h
      obtain ⟨place, hbad⟩ := Classical.not_forall.mp (h hkind)
      obtain ⟨hplace, hbad⟩ := Classical.not_imp.mp hbad
      by_cases hdeclared : f.Declares place
      · have hwide : i.TooWide place := by
          apply Classical.byContradiction
          intro hfits
          exact hbad ⟨hdeclared, hfits⟩
        exact ⟨.slotTooWide _ _, hkind, rfl, place, hplace, hdeclared, hwide, rfl⟩
      · exact ⟨_, faulty_missing hkind hplace hdeclared⟩
    · exact ⟨.operandMismatch _ expected _, hkind, hshape, rfl, rfl⟩

/-- The check reports what is wrong and nothing else. -/
theorem fault?_eq_some_iff {e : Fault} : i.fault? f = some e ↔ i.Faulty f e := by
  constructor
  · intro h
    have hnot : ¬ i.WellFormed f := by
      intro hwell
      rw [fault?_eq_none_iff.mpr hwell] at h
      cases h
    obtain ⟨e', he'⟩ := exists_faulty_of_not_wellFormed hnot
    rw [he'.fault?_eq, Option.some.injEq] at h
    exact h ▸ he'
  · exact Faulty.fault?_eq

end Instruction

namespace Builder

variable {i : Instruction} {b after : Builder}

theorem emit_eq_error_iff {e : Fault} :
    emit i b = .error e after ↔ i.Faulty b.frame e ∧ after = b := by
  rw [← Instruction.fault?_eq_some_iff, emit_apply]
  cases i.fault? b.frame with
  | some e' => simp [eq_comm]
  | none => simp

theorem emit_eq_ok_iff : emit i b = .ok () after ↔ i.WellFormed b.frame ∧ after = b.enter i := by
  rw [← Instruction.fault?_eq_none_iff, emit_apply]
  cases i.fault? b.frame with
  | some e => simp
  | none => simp [eq_comm]

/-- When each answer is given. An opcode outside the grammar is reported whatever the
operand is, another kind of operand whatever the slot is, and a slot that does not exist
whatever its number is; a number that does not fit is reported last. Without any of these
the instruction itself is appended, and arguments and locals stay. -/
theorem emit_verdict (b : Builder) (op : Opcode) (o : Operand) :
    let i : Instruction := ⟨op, o⟩
    (∀ op' after, emit i b = .error (.notInGrammar op') after ↔
      (op.operandKind? = none ∧ op' = op) ∧ after = b) ∧
    (∀ op' expected found after, emit i b = .error (.operandMismatch op' expected found) after ↔
      (op.operandKind? = some expected ∧ expected ≠ o.kind ∧ op' = op ∧ found = o.kind) ∧
        after = b) ∧
    (∀ index count after, emit i b = .error (.undeclaredArg index count) after ↔
      (op.operandKind? = some o.kind ∧ i.Addresses (.arg index) ∧
        ¬ index.toNat < b.frame.args.size ∧ count = b.frame.args.size) ∧ after = b) ∧
    (∀ index count after, emit i b = .error (.undeclaredLocal index count) after ↔
      (op.operandKind? = some o.kind ∧ i.Addresses (.loc index) ∧
        ¬ index.toNat < b.frame.locals.count ∧ count = b.frame.locals.count) ∧ after = b) ∧
    (∀ op' index after, emit i b = .error (.slotTooWide op' index) after ↔
      (op.operandKind? = some o.kind ∧ op' = op ∧
        ∃ place, i.Addresses place ∧ b.frame.Declares place ∧ i.TooWide place ∧
          index = place.index) ∧ after = b) ∧
    ((∃ after, emit i b = .ok () after) ↔
      op.operandKind? = some o.kind ∧
        ∀ place, i.Addresses place → b.frame.Declares place ∧ ¬ i.TooWide place) ∧
    (∀ after, emit i b = .ok () after →
      after.code.toList = b.code.toList ++ [i] ∧ after.frame.args = b.frame.args ∧
        after.frame.locals = b.frame.locals) := by
  intro i
  refine ⟨fun _ _ => emit_eq_error_iff, fun _ _ _ _ => emit_eq_error_iff,
    fun _ _ _ => emit_eq_error_iff, fun _ _ _ => emit_eq_error_iff,
    fun _ _ _ => emit_eq_error_iff, ?_, ?_⟩
  · simp only [emit_eq_ok_iff, exists_and_left, exists_eq, and_true]
    exact Instruction.wellFormed_iff_addresses
  · intro after h
    obtain ⟨-, rfl⟩ := emit_eq_ok_iff.mp h
    exact ⟨Code.toList_push b.code i, rfl, rfl⟩

/-- With 300 arguments, number 300 is missing and too wide for one byte, number 299 is only
too wide, and number 0 is accepted in its dedicated form. -/
theorem emit_verdict_of_wide_slots :
    let b := start (Array.replicate 300 .object)
    emit ⟨.ldarg .short, .slot (.arg 300)⟩ b = .error (.undeclaredArg 300 300) b ∧
      emit ⟨.ldarg .short, .slot (.arg 299)⟩ b = .error (.slotTooWide (.ldarg .short) 299) b ∧
      ∃ after, emit (.simple (.ldargAt 0)) b = .ok () after ∧
        after.code.toList = [.simple (.ldargAt 0)] ∧ after.frame.args = b.frame.args := by
  intro b
  have hsize : b.frame.args.size = 300 := Array.size_replicate
  have hdeclared (index : UInt32) (h : index.toNat < 300) : b.frame.Declares (.arg index) := by
    change index.toNat < b.frame.args.size
    rw [hsize]
    exact h
  obtain ⟨-, -, hmissing, -⟩ := emit_verdict b (.ldarg .short) (.slot (.arg 300))
  obtain ⟨-, -, -, -, hwide, -⟩ := emit_verdict b (.ldarg .short) (.slot (.arg 299))
  obtain ⟨-, -, -, -, -, haccepted, hafter⟩ := emit_verdict b (.ldargAt 0) .none
  refine ⟨(hmissing 300 300 b).mpr ⟨⟨rfl, .inl rfl, ?_, hsize.symm⟩, rfl⟩, ?_, ?_⟩
  · rw [hsize]
    decide
  · have h299 := hdeclared 299 (by decide)
    exact (hwide _ 299 b).mpr
      ⟨⟨rfl, rfl, .arg 299, .inl rfl, h299, .inl ⟨by decide, by decide⟩, rfl⟩, rfl⟩
  · obtain ⟨after, hok⟩ := haccepted.mpr ⟨rfl, by
      rintro place (h | h)
      · cases h
      · cases h
        exact ⟨hdeclared 0 (by decide), Instruction.not_tooWide rfl _⟩⟩
    exact ⟨after, hok, (hafter after hok).1, (hafter after hok).2.1⟩

end Builder
end Cil
