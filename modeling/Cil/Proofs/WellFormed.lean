import Mathlib.Algebra.Group.Nat.Defs
import Cil.Frame

/-!
# Well-formed instructions

An instruction is well formed over a frame when its opcode takes the kind of operand
that is there, the slot in its operand is declared and fits the bytes of the operand,
and the slot that its opcode implies is declared. `Instruction.WellFormed` says this
without the order in which the checks are made or what they report;
`Instruction.check_eq_ok_iff` is the connection: the check accepts the well-formed
instructions and no others, and what it returns is the declared type of the slot.

A frame only ever grows. Nothing that was well formed stops being so, and no slot
changes its type, when more locals are declared.
-/

namespace Cil

namespace Frame

/-- How many slots of the same kind are declared. -/
def count (f : Frame) : Slot → Nat
  | .arg _ => f.args.size
  | .loc _ => f.locals.count

/-- The slot exists. -/
def Declares (f : Frame) (place : Slot) : Prop :=
  place.index.toNat < f.count place

/-- The declared type of a slot that exists. -/
def typeOf? (f : Frame) : Slot → Option Ty
  | .arg index => f.args[index.toNat]?
  | .loc index => f.locals.types[index.toNat]?

/-- `g` has the arguments of `f` and all its locals, perhaps followed by others. -/
structure GrowsTo (f g : Frame) : Prop where
  args : g.args = f.args
  locals : f.locals.types.toList <+: g.locals.types.toList

instance (f : Frame) (place : Slot) : Decidable (f.Declares place) :=
  inferInstanceAs (Decidable (place.index.toNat < f.count place))

theorem isSome_typeOf? {f : Frame} {place : Slot} :
    (f.typeOf? place).isSome ↔ f.Declares place := by
  cases place <;> simp [typeOf?, Declares, count, Locals.count]

/-- An undeclared slot is the only reason for not having a type. -/
theorem typeOf_eq_ok_iff {f : Frame} {place : Slot} {t : Ty} :
    f.typeOf place = .ok t ↔ f.typeOf? place = some t := by
  cases place with
  | arg index =>
    simp only [typeOf, typeOf?, argType]
    cases f.args[index.toNat]? <;> simp
  | loc index =>
    simp only [typeOf, typeOf?, Locals.typeOf]
    cases f.locals.types[index.toNat]? <;> simp

theorem GrowsTo.refl (f : Frame) : f.GrowsTo f :=
  ⟨rfl, List.prefix_rfl⟩

theorem GrowsTo.trans {f g h : Frame} (hfg : f.GrowsTo g) (hgh : g.GrowsTo h) : f.GrowsTo h :=
  ⟨hgh.args.trans hfg.args, hfg.locals.trans hgh.locals⟩

theorem growsTo_declareLocal (f : Frame) (t : Ty) : f.GrowsTo (f.declareLocal t).2 :=
  ⟨rfl, by simp⟩

/-- A slot keeps its type. -/
theorem GrowsTo.typeOf? {f g : Frame} (h : f.GrowsTo g) {place : Slot} {t : Ty}
    (hplace : f.typeOf? place = some t) : g.typeOf? place = some t := by
  cases place with
  | arg index =>
    simp only [Frame.typeOf?] at hplace ⊢
    rw [h.args, hplace]
  | loc index =>
    obtain ⟨rest, hrest⟩ := h.locals
    simp only [Frame.typeOf?, ← Array.getElem?_toList] at hplace ⊢
    have bound := (List.getElem?_eq_some_iff.mp hplace).1
    rw [← hrest, List.getElem?_append_left bound, hplace]

theorem GrowsTo.declares {f g : Frame} (h : f.GrowsTo g) {place : Slot}
    (hplace : f.Declares place) : g.Declares place := by
  obtain ⟨t, ht⟩ := Option.isSome_iff_exists.mp (isSome_typeOf?.mpr hplace)
  rw [← isSome_typeOf?, h.typeOf? ht]
  rfl

end Frame

namespace Opcode

/-- The tables agree on slot operands: an opcode that takes one has a width for it. -/
theorem exists_slotWidth_of_operandKind {op : Opcode} {place : Slot}
    (h : op.operandKind? = some (Operand.slot place).kind) :
    ∃ width, op.slotWidth? = some width := by
  cases place <;> cases op <;> simp_all [operandKind?, Operand.kind, slotWidth?]

/-- The operand of a short form tells 256 slots apart. -/
theorem pow_operandBytes_of_mem_shortForms {op : Opcode} (h : op ∈ shortForms) :
    256 ^ op.operandBytes = 256 := by
  revert op
  decide

/-- The operand of a long form tells 65536 slots apart. -/
theorem pow_operandBytes_of_mem_longForms {op : Opcode} (h : op ∈ longForms) :
    256 ^ op.operandBytes = 65536 := by
  revert op
  decide

/-- The number that a dedicated form carries fits a slot number. -/
@[simp] theorem toNat_toUInt32_slot (slot : Fin 4) : slot.val.toUInt32.toNat = slot.val := by
  rw [Nat.toUInt32_eq]
  exact UInt32.toNat_ofNat_of_lt' (Nat.lt_trans slot.isLt (by decide))

/-- Only opcodes without an operand imply a slot. -/
theorem operandKind?_of_impliedSlot {op : Opcode} {place : Slot}
    (h : op.impliedSlot? = some place) : op.operandKind? = some .none := by
  cases op <;> simp_all [impliedSlot?, operandKind?]

end Opcode

namespace Instruction

/-- The declared type of the slot that an instruction addresses. -/
def slotType? (i : Instruction) (f : Frame) : Option Ty :=
  i.slot?.bind f.typeOf?

/-- What an instruction has to be like to stand in a body over a frame. -/
structure WellFormed (f : Frame) (i : Instruction) : Prop where
  kind : i.opcode.operandKind? = some i.operand.kind
  operand : ∀ place, i.operand = .slot place →
    f.Declares place ∧ place.index.toNat < 256 ^ i.opcode.operandBytes
  implied : ∀ place, i.opcode.impliedSlot? = some place → f.Declares place

variable {i : Instruction} {f g : Frame}

theorem WellFormed.mono (h : i.WellFormed f) (hgrow : f.GrowsTo g) : i.WellFormed g where
  kind := h.kind
  operand place hplace :=
    ⟨hgrow.declares (h.operand place hplace).1, (h.operand place hplace).2⟩
  implied place hplace := hgrow.declares (h.implied place hplace)

/-- An instruction of the right shape addresses the slot in its operand or the one that
its opcode implies; it never has both. -/
theorem slot?_eq_some_iff (hkind : i.opcode.operandKind? = some i.operand.kind) {place : Slot} :
    i.slot? = some place ↔
      i.operand = .slot place ∨ i.opcode.impliedSlot? = some place := by
  obtain ⟨op, operand⟩ := i
  cases operand with
  | slot carried =>
    have noImplied : op.impliedSlot? ≠ some place := by
      intro himplied
      rw [Opcode.operandKind?_of_impliedSlot himplied] at hkind
      cases carried <;> cases hkind
    simp [noImplied]
  | _ => simp [slot?]

theorem checkWidth_slot {op : Opcode} {width : Width} (hwidth : op.slotWidth? = some width)
    {place : Slot} :
    (mk op (.slot place)).checkWidth = .ok () ↔ place.index.toNat ≤ width.maxIndex := by
  simp [checkWidth, Opcode.maxSlotIndex?, hwidth]

/-- The limit of the width check is what the bytes of the operand can hold. -/
theorem checkWidth_eq_ok_iff (hkind : i.opcode.operandKind? = some i.operand.kind) :
    i.checkWidth = .ok () ↔
      ∀ place, i.operand = .slot place → place.index.toNat < 256 ^ i.opcode.operandBytes := by
  obtain ⟨op, operand⟩ := i
  cases operand with
  | slot carried =>
    obtain ⟨width, hwidth⟩ := Opcode.exists_slotWidth_of_operandKind hkind
    have hlimit : 256 ^ op.operandBytes = width.maxIndex + 1 := by
      cases width with
      | short =>
        exact Opcode.pow_operandBytes_of_mem_shortForms (Opcode.slotWidth?_eq_short_iff.mp hwidth)
      | long =>
        exact Opcode.pow_operandBytes_of_mem_longForms (Opcode.slotWidth?_eq_long_iff.mp hwidth)
    simp only [checkWidth_slot hwidth, hlimit, Operand.slot.injEq, forall_eq', Nat.lt_succ_iff]
  | _ => simp [checkWidth]

/-- The two conditions on slots are one condition on the addressed slot. -/
theorem wellFormed_iff :
    i.WellFormed f ↔ i.opcode.operandKind? = some i.operand.kind ∧
      (∀ place, i.slot? = some place → f.Declares place) ∧ i.checkWidth = .ok () := by
  constructor
  · intro h
    refine ⟨h.kind, ?_, (checkWidth_eq_ok_iff h.kind).mpr fun place hp => (h.operand place hp).2⟩
    intro place hplace
    obtain hcarried | himplied := (slot?_eq_some_iff h.kind).mp hplace
    · exact (h.operand place hcarried).1
    · exact h.implied place himplied
  · rintro ⟨hkind, hslot, hwidth⟩
    refine ⟨hkind, ?_, ?_⟩
    · intro place hplace
      exact ⟨hslot place ((slot?_eq_some_iff hkind).mpr (.inl hplace)),
        (checkWidth_eq_ok_iff hkind).mp hwidth place hplace⟩
    · intro place hplace
      exact hslot place ((slot?_eq_some_iff hkind).mpr (.inr hplace))

/-- An instruction of the right shape that addresses no slot is at home in every frame. -/
theorem wellFormed_of_slot?_eq_none (hkind : i.opcode.operandKind? = some i.operand.kind)
    (hslot : i.slot? = none) (f : Frame) : i.WellFormed f := by
  refine ⟨hkind, ?_, ?_⟩
  · intro place hplace
    rw [(slot?_eq_some_iff hkind).mpr (.inl hplace)] at hslot
    cases hslot
  · intro place hplace
    rw [(slot?_eq_some_iff hkind).mpr (.inr hplace)] at hslot
    cases hslot

/-- A well-formed instruction finds the same type in every later frame. -/
theorem WellFormed.slotType?_eq (h : i.WellFormed f) (hgrow : f.GrowsTo g) :
    i.slotType? g = i.slotType? f := by
  rw [slotType?, slotType?]
  cases hslot : i.slot? with
  | none => rfl
  | some place =>
    have hdeclared := (wellFormed_iff.mp h).2.1 place hslot
    obtain ⟨t, ht⟩ := Option.isSome_iff_exists.mp (Frame.isSome_typeOf?.mpr hdeclared)
    simp only [Option.bind_some]
    rw [ht, hgrow.typeOf? ht]

/-- Past the check of the shape, resolving the slot decides the rest. -/
theorem resolve_eq_ok_iff (hkind : i.opcode.operandKind? = some i.operand.kind)
    {slotType : Option Ty} :
    i.resolve f = .ok slotType ↔ i.WellFormed f ∧ slotType = i.slotType? f := by
  rw [wellFormed_iff]
  cases hslot : i.slot? with
  | none =>
    have hwidth := (wellFormed_iff.mp (wellFormed_of_slot?_eq_none hkind hslot f)).2.2
    simp [resolve, slotType?, hslot, hkind, hwidth, eq_comm]
  | some place =>
    have hdeclared : (f.typeOf? place).isSome ↔ f.Declares place := Frame.isSome_typeOf?
    cases htype : f.typeOf place with
    | error e =>
      have hnone : f.typeOf? place = none := by
        rw [Option.eq_none_iff_forall_ne_some]
        intro t ht
        rw [Frame.typeOf_eq_ok_iff.mpr ht] at htype
        cases htype
      rw [hnone] at hdeclared
      simp [resolve, hslot, htype, ← hdeclared]
    | ok t =>
      have hsome := Frame.typeOf_eq_ok_iff.mp htype
      rw [hsome] at hdeclared
      cases hwidth : i.checkWidth with
      | error e => simp [resolve, hslot, htype, hwidth]
      | ok _ => simp [resolve, slotType?, hslot, htype, hwidth, hkind, hsome, ← hdeclared, eq_comm]

/-- The check accepts exactly the well-formed instructions and returns the declared type
of the slot. -/
theorem check_eq_ok_iff {slotType : Option Ty} :
    i.check f = .ok slotType ↔ i.WellFormed f ∧ slotType = i.slotType? f := by
  cases hshape : i.checkShape with
  | error e =>
    have hkind : ¬ i.opcode.operandKind? = some i.operand.kind := by
      rw [← checkShape_eq_ok_iff, hshape]
      simp
    simp only [check, hshape, reduceCtorEq, false_iff]
    exact fun h => hkind h.1.kind
  | ok _ =>
    rw [check, hshape]
    exact resolve_eq_ok_iff (checkShape_eq_ok_iff.mp hshape)

theorem check_isOk_iff : (i.check f).isOk = true ↔ i.WellFormed f := by
  cases hcheck : i.check f with
  | error e =>
    simp only [Except.isOk, Except.toBool, Bool.false_eq_true, false_iff]
    intro h
    rw [check_eq_ok_iff.mpr ⟨h, rfl⟩] at hcheck
    cases hcheck
  | ok slotType =>
    simp only [Except.isOk, Except.toBool, true_iff]
    exact (check_eq_ok_iff.mp hcheck).1

instance (f : Frame) (i : Instruction) : Decidable (i.WellFormed f) :=
  decidable_of_iff _ check_isOk_iff

end Instruction
end Cil
