import Cil.Builder
import Cil.Proofs.ShortestForm

/-!
# Every operation is an emission

`Builder.emit` makes all checks. The other operations choose an instruction themselves
and leave out checks that it passes anyway: some look at the slot only, and some look at
nothing. `Builder.Selected` and `Builder.Unchecked` list these two groups, each operation
with the instruction that it chooses. The omissions cannot be observed. An operation of
either group does to every builder what `emit` does with its instruction, and those that
have no way to report a fault never meet one.

A constant load is four emissions in a row, of which the first refusal ends it.
-/

namespace Cil

/-- An index that passes the check is the same number as a signed integer. -/
theorem toInt_toInt32_of_le {index : UInt32} (h : index.toNat ≤ 2147483647) :
    index.toInt32.toInt = index.toNat := by
  rw [← Int32.toInt_toBitVec, UInt32.toBitVec_toInt32, BitVec.toInt_eq_toNat_of_lt]
  · rfl
  · rw [UInt32.toNat_toBitVec]
    omega

namespace Builder

variable {σ : Type} [BuildState σ]

/-- An instruction of the right shape that addresses no slot needs no check: the entry
without one and the one with all of them do the same. -/
theorem append_eq_emit {i : Instruction} (hkind : i.opcode.operandKind? = some i.operand.kind)
    (hslot : i.slot? = none) : (append i none : BuildOn σ Unit) = emit i := by
  funext s
  rw [emit_eq_access (Instruction.checkShape_eq_ok_iff.mpr hkind), access_apply,
    Instruction.resolve_of_slot?_eq_none hslot]

/-- The operations that append one instruction without looking at it. The last of them is
no operation of its own: it is what a constant load does with the array and the index. -/
inductive Unchecked : BuildOn σ Unit → Instruction → Prop where
  | pushInt (value : Int32) : Unchecked (pushInt value) (Action.pushInt value).shortest
  | ret : Unchecked ret (.simple .ret)
  | loadNull : Unchecked loadNull (.simple .ldnull)
  | call (m : Method) : Unchecked (call m) (calling m)
  | newObject (c : Ctor) : Unchecked (newObject c) ⟨.newobj, .ctor c⟩
  | newArray (element : Ty) : Unchecked (newArray element) ⟨.newarr, .type element⟩
  | castTo (t : Ty) : Unchecked (castTo t) ⟨.castclass, .type t⟩
  | unboxTo (t : Ty) : Unchecked (unboxTo t) (unboxing t)
  | boxFrom (t : Ty) (h : t.isValueType = true) : Unchecked (boxFrom t) ⟨.box, .type t⟩
  | element : Unchecked (append (.simple .ldelemRef) none) (.simple .ldelemRef)

/-- The operations that choose a form for a slot and then look at the slot only. -/
inductive Selected : BuildOn σ Unit → Instruction → Prop where
  | loadArg (index : UInt32) : Selected (loadArg index) (Action.loadArg index).shortest
  | loadLocal (index : UInt32) : Selected (loadLocal index) (Action.loadLocal index).shortest
  | storeLocal (index : UInt32) : Selected (storeLocal index) (Action.storeLocal index).shortest

variable {x : BuildOn σ Unit} {i : Instruction}

namespace Unchecked

theorem eq_append (h : Unchecked x i) : x = append i none := by
  cases h with
  | boxFrom t ht => rw [Builder.boxFrom, if_pos ht]
  | _ => rfl

theorem kind (h : Unchecked x i) : i.opcode.operandKind? = some i.operand.kind := by
  cases h with
  | pushInt value => exact Action.operandKind?_shortest _
  | call m =>
    rw [calling]
    cases m.isVirtual <;> rfl
  | unboxTo t =>
    rw [unboxing]
    cases t.isValueType <;> rfl
  | _ => rfl

theorem slot?_eq_none (h : Unchecked x i) : i.slot? = none := by
  cases h with
  | pushInt value => exact Action.slot?_shortest _
  | call m =>
    rw [calling]
    cases m.isVirtual <;> rfl
  | unboxTo t =>
    rw [unboxing]
    cases t.isValueType <;> rfl
  | _ => rfl

theorem eq_emit (h : Unchecked x i) : x = emit i :=
  h.eq_append.trans (append_eq_emit h.kind h.slot?_eq_none)

theorem wellFormed (h : Unchecked x i) (f : Frame) : i.WellFormed f :=
  Instruction.wellFormed_of_slot?_eq_none h.kind h.slot?_eq_none f

/-- Nothing that these operations append would ever be refused. -/
theorem exists_emit_ok (h : Unchecked x i) (s : σ) : ∃ s', emit i s = .ok () s' := by
  rw [← h.eq_emit, h.eq_append]
  exact ⟨_, rfl⟩

end Unchecked

namespace Selected

theorem eq_access (h : Selected x i) : x = access i := by
  cases h <;> rfl

theorem kind (h : Selected x i) : i.opcode.operandKind? = some i.operand.kind := by
  cases h <;> exact Action.operandKind?_shortest _

theorem eq_emit (h : Selected x i) : x = emit i :=
  h.eq_access.trans (emit_eq_access (Instruction.checkShape_eq_ok_iff.mpr h.kind)).symm

end Selected

/-- A constant load goes on from one emission to the next until one is refused. -/
theorem loadConstant_eq_forM_emit {index : UInt32} (hindex : index.toNat ≤ maxConstantIndex)
    (t : Ty) :
    (loadConstant index t : BuildOn σ Unit) =
      [.simple (.ldargAt 0), (Action.pushInt index.toInt32).shortest, .simple .ldelemRef,
        unboxing t].forM emit := by
  have harray : (loadArg 0 : BuildOn σ Unit) = emit (.simple (.ldargAt 0)) :=
    (Selected.loadArg 0).eq_emit
  rw [loadConstant, if_pos hindex, harray, (Unchecked.pushInt index.toInt32).eq_emit,
    Unchecked.element.eq_emit, (Unchecked.unboxTo t).eq_emit]
  simp [List.forM_eq_forM]

/-- The operations that check less than `emit` agree with it on all builders. Where nothing
is checked, `emit` would accept the instruction in every builder, whose shape and width are
therefore right; where only the slot is looked at, the shape is right. A constant load with
an index that fits is a sequence of emissions. -/
theorem convenience_eq_emit :
    (∀ (x : BuildM Unit) i, Unchecked x i →
      x = emit i ∧ (∀ b : Builder, ∃ b', emit i b = .ok () b') ∧
        x = append i none ∧ i.checkShape = .ok () ∧ i.checkWidth = .ok ()) ∧
    (∀ (x : BuildM Unit) i, Selected x i → x = emit i ∧ x = access i ∧ i.checkShape = .ok ()) ∧
    ∀ (index : UInt32) (t : Ty), index.toNat ≤ 2147483647 →
      index.toInt32.toInt = index.toNat ∧
      (loadConstant index t : BuildM Unit) =
        [.simple (.ldargAt 0), (Action.pushInt index.toInt32).shortest, .simple .ldelemRef,
          unboxing t].forM emit := by
  refine ⟨?_, ?_, ?_⟩
  · intro x i h
    have hwidth : i.checkWidth = .ok () :=
      (Instruction.wellFormed_iff.mp (h.wellFormed ⟨#[], .empty⟩)).2.2
    exact ⟨h.eq_emit, h.exists_emit_ok, h.eq_append,
      Instruction.checkShape_eq_ok_iff.mpr h.kind, hwidth⟩
  · intro x i h
    exact ⟨h.eq_emit, h.eq_access, Instruction.checkShape_eq_ok_iff.mpr h.kind⟩
  · intro index t hindex
    exact ⟨toInt_toInt32_of_le hindex, loadConstant_eq_forM_emit hindex t⟩

/-- A virtual call, a load that both entries refuse with the same fault, and a constant load
that stops at its first emission because there is no argument. -/
theorem convenience_eq_emit_of_refusals :
    let m : Method := { owner := .ofClass "Log", name := "Flush", isVirtual := true }
    let b := start #[]
    (call m b = emit ⟨.callvirt, .method m⟩ b ∧ ∃ b', emit ⟨.callvirt, .method m⟩ b = .ok () b') ∧
    (loadArg 300 b = emit ⟨.ldarg .long, .slot (.arg 300)⟩ b ∧
      loadArg 300 b = .error (.undeclaredArg 300 0) b) ∧
    loadConstant 9 .int32 b =
        [.simple (.ldargAt 0), ⟨.ldcByte, .int8 9⟩, .simple .ldelemRef,
          ⟨.unboxAny, .type .int32⟩].forM emit b ∧
      loadConstant 9 .int32 b = .error (.undeclaredArg 0 0) b := by
  intro m b
  obtain ⟨hcall, hok, -⟩ := convenience_eq_emit.1 _ _ (.call m)
  have hload := (convenience_eq_emit.2.1 _ _ (.loadArg 300)).1
  have hconstant := (convenience_eq_emit.2.2 9 .int32 (by decide)).2
  exact ⟨⟨congrFun hcall b, hok b⟩, ⟨congrFun hload b, rfl⟩, congrFun hconstant b, rfl⟩

end Builder
end Cil
