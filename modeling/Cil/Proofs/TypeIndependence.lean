import Mathlib.Data.List.Forall2
import Cil.Proofs.Refusal

/-!
# Declared types do not reach the code

A builder looks up the type of a slot with every access, but only in order to note the
type on top, and it never reads that note. So two runs of the same commands that start
with equally many arguments, and declare locals of whatever types, cannot be told apart
by their outcomes or by their code.

The relation between the two runs is `Builder.Alike`: the same slots and the same code.
Faults are alike because they mention the numbers of slots and never their types.
-/

namespace Cil

namespace Frame

/-- Equally many arguments and equally many locals, of whatever types. -/
structure SameSlots (f g : Frame) : Prop where
  args : f.args.size = g.args.size
  locals : f.locals.count = g.locals.count

variable {f g : Frame}

theorem SameSlots.declareLocal (h : f.SameSlots g) (t u : Ty) :
    (f.declareLocal t).2.SameSlots (g.declareLocal u).2 := by
  refine ⟨h.args, ?_⟩
  rw [locals_declareLocal, locals_declareLocal, Locals.count_declare, Locals.count_declare,
    h.locals]

theorem SameSlots.declares_iff (h : f.SameSlots g) (place : Slot) :
    f.Declares place ↔ g.Declares place := by
  cases place with
  | arg index => rw [Declares, Declares, count, count, h.args]
  | loc index => rw [Declares, Declares, count, count, h.locals]

theorem SameSlots.missing_eq (h : f.SameSlots g) (place : Slot) :
    f.missing place = g.missing place := by
  cases place with
  | arg index => rw [missing, missing, h.args]
  | loc index => rw [missing, missing, h.locals]

end Frame

/-- What is wrong with an instruction does not depend on the types of the slots. -/
theorem Instruction.fault?_congr (i : Instruction) {f g : Frame} (h : f.SameSlots g) :
    i.fault? f = i.fault? g := by
  cases hshape : i.checkShape with
  | error e => rw [fault?, fault?, check, check, hshape]
  | ok _ =>
    have hkind := checkShape_eq_ok_iff.mp hshape
    cases hslot : i.slot? with
    | none =>
      rw [fault?_eq_none_iff.mpr (wellFormed_of_slot?_eq_none hkind hslot f),
        fault?_eq_none_iff.mpr (wellFormed_of_slot?_eq_none hkind hslot g)]
    | some place =>
      by_cases hdeclared : f.Declares place
      · have hdeclared' : g.Declares place := (h.declares_iff place).mp hdeclared
        rw [fault?_of_declares hkind hslot hdeclared, fault?_of_declares hkind hslot hdeclared']
      · have hmissing : ¬ g.Declares place := mt (h.declares_iff place).mpr hdeclared
        rw [fault?_of_not_declares hkind hslot hdeclared,
          fault?_of_not_declares hkind hslot hmissing, h.missing_eq place]

namespace Builder

/-- The same slots and the same code. The types of the slots and the note of the type on
top are left open. -/
structure Alike (b c : Builder) : Prop where
  slots : b.frame.SameSlots c.frame
  code : b.code = c.code

variable {b c : Builder}

theorem alike_start {args params : Array Ty} (h : args.size = params.size) :
    (start args).Alike (start params) :=
  ⟨⟨h, rfl⟩, rfl⟩

theorem Alike.declare (h : b.Alike c) (t u : Ty) : (b.declare t).Alike (c.declare u) :=
  ⟨h.slots.declareLocal t u, h.code⟩

theorem Alike.enterAll (h : b.Alike c) (is : List Instruction) :
    (b.enterAll is).Alike (c.enterAll is) := by
  refine ⟨?_, ?_⟩
  · rw [frame_enterAll, frame_enterAll]
    exact h.slots
  · apply Code.ext_toList
    rw [toList_code_enterAll, toList_code_enterAll, h.code]

end Builder

namespace Command

open Builder

/-- The same command, except that a declaration may be of another type. -/
inductive SameButType : Command → Command → Prop where
  | same (c : Command) : SameButType c c
  | declareLocal (t u : Ty) : SameButType (declareLocal t) (declareLocal u)

theorem fault?_congr (c : Command) {f g : Frame} (h : f.SameSlots g) : c.fault? f = c.fault? g := by
  cases c <;> simp only [fault?, Instruction.fault?_congr _ h]

/-- One step of two runs that are alike: the outcome is the same and they stay alike. -/
theorem exec_alike {c d : Command} {b b' : Builder} (hcd : SameButType c d) (h : b.Alike b') :
    (c.exec b).1 = (d.exec b').1 ∧ (c.exec b).2.Alike (d.exec b').2 := by
  cases hcd with
  | declareLocal t u =>
    rw [exec_declareLocal, exec_declareLocal, h.slots.locals]
    exact ⟨rfl, h.declare t u⟩
  | same =>
    obtain ⟨t, rfl⟩ | hc := c.eq_declareLocal_or_ne
    · rw [exec_declareLocal, exec_declareLocal, h.slots.locals]
      exact ⟨rfl, h.declare t t⟩
    · rw [exec_eq hc, exec_eq hc, c.fault?_congr h.slots]
      cases c.fault? b'.frame with
      | some e => exact ⟨rfl, h⟩
      | none => exact ⟨rfl, h.enterAll c.instructions⟩

theorem run_alike {cs ds : List Command} (hcs : List.Forall₂ SameButType cs ds) {b b' : Builder}
    (h : b.Alike b') : (run cs b).1 = (run ds b').1 ∧ (run cs b).2.Alike (run ds b').2 := by
  induction hcs generalizing b b' with
  | nil => exact ⟨rfl, h⟩
  | cons hcd _ ih =>
    obtain ⟨houtcome, hnext⟩ := exec_alike hcd h
    obtain ⟨hrest, hfinal⟩ := ih hnext
    rw [run_cons, run_cons, houtcome, hrest]
    exact ⟨rfl, hfinal⟩

/-- The types of the arguments and of the locals decide neither the outcome of any command
nor a single instruction. -/
theorem outcomes_and_code_independent_of_types {args params : Array Ty} {cs ds : List Command}
    (hargs : args.size = params.size) (hcs : List.Forall₂ SameButType cs ds) :
    (run cs (start args)).1 = (run ds (start params)).1 ∧
      (run cs (start args)).2.code = (run ds (start params)).2.code := by
  obtain ⟨houtcomes, halike⟩ := run_alike hcs (alike_start hargs)
  exact ⟨houtcomes, halike.code⟩

/-- The two runs part in the type on top and in nothing that is reported or emitted. The
load of argument 7 is refused in both. -/
theorem outcomes_and_code_independent_of_types_of_load :
    let cs := [declareLocal .int8, loadLocal 0, loadArg 7, unboxTo .int64, loadArg 0]
    let ds := [declareLocal .string, loadLocal 0, loadArg 7, unboxTo .int64, loadArg 0]
    let first := run cs (start #[.object])
    let second := run ds (start #[.int32])
    (first.1 = second.1 ∧ first.2.code = second.2.code) ∧
      first.2.top = some .object ∧ second.2.top = some .int32 :=
  ⟨outcomes_and_code_independent_of_types rfl
      (.cons (.declareLocal _ _) (List.forall₂_same.mpr fun c _ => .same c)),
    by decide, by decide⟩

end Command
end Cil
