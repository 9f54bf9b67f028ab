import Mathlib.Data.List.Basic
import Cil.Proofs.Grammar
import Cil.Proofs.Refusal

/-!
# The type on top follows from the body

A builder notes the type on top with every instruction, in the frame that it has at that
moment. The note can be recovered from the finished body: go over its code once with the
table `Instruction.leaves?`, looking slots up in the final frame. The two agree because
slots keep their types and because every instruction that gets in has what its row of the
table needs. For the same reason the arms of `Instruction.pushed?` that have nothing to
go by are never used.

To speak of the calls of `append` that a run makes, the builder is given a log (`Logged`).
Operations go the same way on it as they do without, and the log has one call for each
instruction of the body.
-/

namespace Cil

namespace Operand

/-- What the operands of a kind are made of. -/
def Kind.Shape (o : Operand) : Kind → Prop
  | .none => o = .none
  | .int8 => ∃ value, o = .int8 value
  | .int32 => ∃ value, o = .int32 value
  | .arg => ∃ index, o = .slot (.arg index)
  | .loc => ∃ index, o = .slot (.loc index)
  | .method => ∃ member, o = .method member
  | .type => ∃ ty, o = .type ty
  | .ctor => ∃ member, o = .ctor member

theorem shape_kind (o : Operand) : o.kind.Shape o := by
  cases o with
  | none => rfl
  | slot place => cases place <;> exact ⟨_, rfl⟩
  | _ => exact ⟨_, rfl⟩

end Operand

namespace Instruction

/-- The table: the type that an instruction leaves on top, or nothing if it leaves the
type on top as it was. -/
def leaves? (f : Frame) (i : Instruction) : Option Ty :=
  match i.opcode, i.operand with
  | .ldcSmall _, _ | .ldcWord, _ | .ceq, _ | .cgt, _ | .clt, _ | .ldlen, _ | .convI4, _ =>
    some .int32
  | .ldcByte, _ => some .int8
  | .ldargAt slot, _ => f.args[slot.val]?
  | .ldarg _, .slot (.arg index) => f.args[index.toNat]?
  | .ldarga _, .slot (.arg index) => f.args[index.toNat]?.map .byRef
  | .ldlocAt slot, _ => f.locals.types[slot.val]?
  | .ldloc _, .slot (.loc index) => f.locals.types[index.toNat]?
  | .ldloca _, .slot (.loc index) => f.locals.types[index.toNat]?.map .byRef
  | .ldnull, _ | .box, _ | .ldelemRef, _ => some .object
  | .ldelem, .type ty | .castclass, .type ty | .isinst, .type ty | .unboxAny, .type ty =>
    some ty
  | .newarr, .type ty => some (.array ty)
  | .newobj, .ctor member => some member.owner
  | .call, .method member | .callvirt, .method member =>
    if member.returns = .void then none else some member.returns
  | .ldftn, _ => some .int64
  | _, _ => none

/-- The arms of `pushed?` that push nothing for want of a slot or of the right operand. -/
def FallsBack (i : Instruction) (slotType : Option Ty) : Prop :=
  match i.opcode with
  | .ldargAt _ | .ldarg _ | .ldarga _ | .ldlocAt _ | .ldloc _ | .ldloca _ => slotType = none
  | .ldelem | .castclass | .isinst | .unboxAny | .newarr => i.operand.type? = none
  | .newobj => i.operand.ctor? = none
  | .call | .callvirt => i.operand.method? = none
  | _ => False

variable {i : Instruction} {f g : Frame}

theorem slotType?_ldargAt (slot : Fin 4) (f : Frame) :
    (simple (.ldargAt slot)).slotType? f = f.args[slot.val]? := by
  simp only [slotType?, slot?_simple, Opcode.impliedSlot?, Option.bind_some, Frame.typeOf?,
    Opcode.toNat_toUInt32_slot]

theorem slotType?_ldlocAt (slot : Fin 4) (f : Frame) :
    (simple (.ldlocAt slot)).slotType? f = f.locals.types[slot.val]? := by
  simp only [slotType?, slot?_simple, Opcode.impliedSlot?, Option.bind_some, Frame.typeOf?,
    Opcode.toNat_toUInt32_slot]

/-- The operand of a well-formed instruction is what the opcode asks for. -/
theorem WellFormed.shape (h : i.WellFormed f) {k : Operand.Kind}
    (hk : i.opcode.operandKind? = some k) : k.Shape i.operand := by
  rw [h.kind, Option.some.injEq] at hk
  exact hk ▸ i.operand.shape_kind

/-- For a well-formed instruction the computed type is the one in the table. -/
theorem WellFormed.pushed?_eq (h : i.WellFormed f) :
    i.pushed? (i.slotType? f) = i.leaves? f := by
  obtain ⟨op, operand⟩ := i
  cases op with
  | ldargAt slot =>
    obtain rfl := h.shape rfl
    exact slotType?_ldargAt slot f
  | ldlocAt slot =>
    obtain rfl := h.shape rfl
    exact slotType?_ldlocAt slot f
  | ldarg width | ldarga width | ldloc width | ldloca width =>
    obtain ⟨index, rfl⟩ := h.shape rfl
    rfl
  | ldelem | castclass | isinst | unboxAny | newarr =>
    obtain ⟨ty, rfl⟩ := h.shape rfl
    rfl
  | newobj =>
    obtain ⟨member, rfl⟩ := h.shape rfl
    rfl
  | call | callvirt =>
    obtain ⟨member, rfl⟩ := h.shape rfl
    simp [pushed?, leaves?, Operand.method?, Method.result?, Ty.isVoid]
  | _ => rfl

/-- The table gives the same answer in every later frame. -/
theorem WellFormed.leaves?_eq (h : i.WellFormed f) (hgrow : f.GrowsTo g) :
    i.leaves? g = i.leaves? f := by
  rw [← (h.mono hgrow).pushed?_eq, ← h.pushed?_eq, h.slotType?_eq hgrow]

theorem WellFormed.isSome_slotType? (h : i.WellFormed f) :
    (i.slotType? f).isSome = i.slot?.isSome := by
  rw [slotType?]
  cases hslot : i.slot? with
  | none => rfl
  | some place => exact Frame.isSome_typeOf?.mpr ((wellFormed_iff.mp h).2.1 place hslot)

/-- An instruction that addresses a slot finds it, and one that needs a reference in its
operand has it. -/
theorem WellFormed.not_fallsBack (h : i.WellFormed f) : ¬ i.FallsBack (i.slotType? f) := by
  have hslot := h.isSome_slotType?
  obtain ⟨op, operand⟩ := i
  intro hfalls
  cases op with
  | ldargAt slot | ldlocAt slot =>
    obtain rfl := h.shape rfl
    rw [hfalls] at hslot
    cases hslot
  | ldarg width | ldarga width | ldloc width | ldloca width =>
    obtain ⟨index, rfl⟩ := h.shape rfl
    rw [hfalls] at hslot
    cases hslot
  | ldelem | castclass | isinst | unboxAny | newarr | newobj | call | callvirt =>
    obtain ⟨reference, rfl⟩ := h.shape rfl
    cases hfalls
  | _ => exact hfalls

end Instruction

namespace Body

/-- The type on top at the end of a body, by going over its code once. -/
def lastType (body : Body) : Option Ty :=
  body.code.toList.foldl (fun top i => (i.leaves? body.frame).or top) none

/-- The instructions of a body, each with the declared type of its slot. -/
def entries (body : Body) : List (Instruction × Option Ty) :=
  body.code.toList.map fun i => (i, i.slotType? body.frame)

end Body

namespace Builder

/-- What holds of a builder at every moment of a run: its body is well formed and its note is
the one that the body gives. -/
structure Faithful (b : Builder) : Prop where
  wellFormed : b.finish.WellFormed
  top : b.top = b.finish.lastType

theorem faithful_start (args : Array Ty) : Faithful (start args) where
  wellFormed := wellFormed_start args
  top := rfl

/-- A declaration changes the frame under the whole code, but nothing that is looked up
in it. -/
theorem faithful_declare (b : Builder) (t : Ty) (h : Faithful b) : Faithful (b.declare t) := by
  have hgrow : b.finish.frame.GrowsTo (b.declare t).finish.frame :=
    b.frame.growsTo_declareLocal t
  have htop : (b.declare t).finish.lastType = b.finish.lastType :=
    List.foldl_ext _ _ _ fun top i hi => by
      rw [(h.wellFormed i hi).leaves?_eq hgrow]
  refine ⟨wellFormed_declare b t h.wellFormed, ?_⟩
  rw [htop, top_declare, h.top]

theorem faithful_enter (b : Builder) (i : Instruction) (hi : i.WellFormed b.frame)
    (h : Faithful b) : Faithful (b.enter i) := by
  have hcode : (b.enter i).finish.code.toList = b.finish.code.toList ++ [i] :=
    Code.toList_push b.code i
  have htop : (b.enter i).finish.lastType = (i.leaves? b.frame).or b.finish.lastType := by
    rw [Body.lastType, hcode, List.foldl_append]
    rfl
  refine ⟨wellFormed_enter b i hi h.wellFormed, ?_⟩
  rw [htop, ← hi.pushed?_eq, ← h.top]
  rfl

end Builder

/-- A builder with a log of the calls of `append`, in order. -/
@[ext]
structure Logged where
  builder : Builder
  calls : List (Instruction × Option Ty)

namespace Logged

instance : BuildState Logged where
  frame s := s.builder.frame
  declareLocal t s :=
    let (index, b) := BuildState.declareLocal t s.builder
    (index, { s with builder := b })
  append i slotType s :=
    ⟨BuildState.append i slotType s.builder, s.calls ++ [(i, slotType)]⟩
  frame_append _ _ _ := rfl

@[simp] theorem frame_eq (s : Logged) : BuildState.frame s = s.builder.frame := rfl

theorem builder_enterAll (s : Logged) (is : List Instruction) :
    (BuildState.enterAll s is).builder = s.builder.enterAll is := by
  induction is generalizing s with
  | nil => rfl
  | cons i is ih => exact ih (BuildState.enter s i)

/-- The log has the instructions of the body, each with the type that its slot has in it. -/
structure Complete (s : Logged) : Prop where
  wellFormed : s.builder.finish.WellFormed
  calls : s.calls = s.builder.finish.entries

theorem complete_declare (s : Logged) (t : Ty) (h : s.Complete) :
    (BuildState.declareLocal t s).2.Complete := by
  have hgrow : s.builder.finish.frame.GrowsTo (s.builder.declare t).finish.frame :=
    s.builder.frame.growsTo_declareLocal t
  have hentries : (s.builder.declare t).finish.entries = s.builder.finish.entries :=
    List.map_congr_left fun i hi => by
      rw [(h.wellFormed i hi).slotType?_eq hgrow]
  exact ⟨Builder.wellFormed_declare s.builder t h.wellFormed, h.calls.trans hentries.symm⟩

theorem complete_enter (s : Logged) (i : Instruction) (hi : i.WellFormed s.builder.frame)
    (h : s.Complete) : (BuildState.enter s i).Complete := by
  have hentries : (s.builder.enter i).finish.entries =
      s.builder.finish.entries ++ [(i, i.slotType? s.builder.frame)] := by
    rw [Body.entries, Builder.finish, Builder.code_enter, Code.toList_push, List.map_append]
    rfl
  have hcalls : s.calls ++ [(i, i.slotType? s.builder.frame)] =
      (s.builder.enter i).finish.entries := by
    rw [hentries, h.calls]
  exact ⟨Builder.wellFormed_enter s.builder i hi h.wellFormed, hcalls⟩

end Logged

namespace Command

open Builder

/-- The log makes no difference to a command. -/
theorem exec_logged (c : Command) (s : Logged) :
    (c.exec s).1 = (c.exec s.builder).1 ∧ (c.exec s).2.builder = (c.exec s.builder).2 := by
  obtain ⟨t, rfl⟩ | hc := c.eq_declareLocal_or_ne
  · exact ⟨rfl, rfl⟩
  rw [exec_eq_on hc, exec_eq hc, Logged.frame_eq]
  cases hfault : c.fault? s.builder.frame with
  | some e => exact ⟨rfl, rfl⟩
  | none => exact ⟨rfl, s.builder_enterAll c.instructions⟩

/-- A run with a log goes as it does without. -/
theorem run_logged (cs : List Command) (s : Logged) :
    (run cs s).1 = (run cs s.builder).1 ∧ (run cs s).2.builder = (run cs s.builder).2 := by
  induction cs generalizing s with
  | nil => exact ⟨rfl, rfl⟩
  | cons c cs ih =>
    obtain ⟨houtcome, hnext⟩ := c.exec_logged s
    obtain ⟨houtcomes, hfinal⟩ := ih (c.exec s).2
    rw [hnext] at houtcomes hfinal
    rw [run_cons, run_cons, houtcome, houtcomes]
    exact ⟨rfl, hfinal⟩

theorem complete_run (cs : List Command) (args : Array Ty) :
    (run cs (Logged.mk (start args) [])).2.Complete :=
  run_invariant Logged.complete_declare Logged.complete_enter cs ⟨wellFormed_start args, rfl⟩

theorem faithful_run (cs : List Command) (args : Array Ty) :
    Faithful (run cs (start args)).2 :=
  run_invariant faithful_declare faithful_enter cs (faithful_start args)

/-- At the end of every run the note is the one that the finished body gives, so runs to
the same body end with the same note. With a log the run has the same outcomes and ends with
the same builder, and the calls of `append` that it has made are the instructions of the
body, each with the type of its slot. None of them lacked the slot or the operand that its
effect depends on. -/
theorem top_run (cs : List Command) (args : Array Ty) :
    let b := (run cs (start args)).2
    b.top = b.finish.lastType ∧
      (∀ (ds : List Command) (params : Array Ty),
        (run ds (start params)).2.finish = b.finish → (run ds (start params)).2.top = b.top) ∧
      run cs (Logged.mk (start args) []) = ((run cs (start args)).1, ⟨b, b.finish.entries⟩) ∧
      ∀ e ∈ b.finish.entries, ¬ e.1.FallsBack e.2 := by
  intro b
  have h : Faithful b := faithful_run cs args
  refine ⟨h.top, ?_, ?_, ?_⟩
  · intro ds params hbody
    rw [h.top, (faithful_run ds params).top, hbody]
  · obtain ⟨houtcomes, hbuilder⟩ := run_logged cs ⟨start args, []⟩
    have hcalls := (complete_run cs args).calls
    rw [hbuilder] at hcalls
    exact Prod.ext houtcomes (Logged.ext hbuilder hcalls)
  · intro e he
    obtain ⟨i, hi, rfl⟩ := List.mem_map.mp he
    exact (h.wellFormed i hi).not_fallsBack

/-- A local declared after the code that does not use it, and a refused command in
between, make no difference. -/
theorem top_run_of_late_declaration :
    let early := (run [.declareLocal .object, .declareLocal .int8, .loadLocal 0, .storeLocal 1]
      (start #[])).2
    let late := (run [.declareLocal .object, .loadLocal 0, .loadArg 7, .declareLocal .int8,
      .storeLocal 1] (start #[])).2
    late.finish = early.finish ∧ late.top = early.top :=
  ⟨by decide, (top_run _ _).2.1 _ _ (by decide)⟩

end Command
end Cil
