import Cil.Proofs.Effect

/-!
# Which fault a refused command reports

`Command.exec_cases` says when a command is refused, but not with which fault.
`Command.fault?` gives the fault as a function of the frame alone, and
`Command.exec_eq` makes it the whole truth about a command that is not a declaration:
the fault, or else the instructions of the command.

Nearly every command is the emission of one instruction under another name
(`Command.perform_of_emission?`) and reports what the check of that instruction finds.
Two commands are not. A range of arguments reports what is wrong with its last member,
whichever member is the first that is missing. A constant load looks at the size of the
index before it looks at the frame.
-/

namespace Cil

namespace Frame

/-- The fault of addressing a slot that is not there. -/
def missing (f : Frame) : Slot → Fault
  | .arg index => .undeclaredArg index f.args.size
  | .loc index => .undeclaredLocal index f.locals.count

variable {f : Frame} {place : Slot}

theorem typeOf_of_not_declares (h : ¬ f.Declares place) :
    f.typeOf place = .error (f.missing place) := by
  rw [← isSome_typeOf?, Option.not_isSome_iff_eq_none] at h
  cases place with
  | arg index =>
    simp only [typeOf?] at h
    simp only [typeOf, argType, h, missing]
  | loc index =>
    simp only [typeOf?] at h
    simp only [typeOf, Locals.typeOf, h, missing]

theorem exists_typeOf_of_declares (h : f.Declares place) : ∃ t, f.typeOf place = .ok t := by
  obtain ⟨t, ht⟩ := Option.isSome_iff_exists.mp (isSome_typeOf?.mpr h)
  exact ⟨t, typeOf_eq_ok_iff.mpr ht⟩

end Frame

namespace Instruction

/-- The fault that the check finds, if it finds one. -/
def fault? (i : Instruction) (f : Frame) : Option Fault :=
  match i.check f with
  | .ok _ => none
  | .error e => some e

theorem fault?_eq_none_iff {i : Instruction} {f : Frame} : i.fault? f = none ↔ i.WellFormed f := by
  rw [← check_isOk_iff, fault?]
  cases i.check f <;> simp [Except.isOk, Except.toBool]

section Slot

variable {i : Instruction} {f : Frame} (hkind : i.opcode.operandKind? = some i.operand.kind)

include hkind

/-- Past the check of the shape, only the slot can be at fault. -/
theorem resolve_of_fault? {e : Fault} (h : i.fault? f = some e) : i.resolve f = .error e := by
  rw [fault?, check, checkShape_eq_ok_iff.mpr hkind] at h
  cases hresolve : i.resolve f with
  | ok slotType => simp [hresolve] at h
  | error e' => simpa [hresolve] using h

/-- A slot that is not there is reported as such, also if its number is too large for the
operand. -/
theorem fault?_of_not_declares {place : Slot} (hslot : i.slot? = some place)
    (h : ¬ f.Declares place) : i.fault? f = some (f.missing place) := by
  simp only [fault?, check, checkShape_eq_ok_iff.mpr hkind, resolve, hslot,
    Frame.typeOf_of_not_declares h]

/-- For a slot that is there, only its number is left to check. -/
theorem fault?_of_declares {place : Slot} (hslot : i.slot? = some place) (h : f.Declares place) :
    i.fault? f =
      match i.checkWidth with
      | .ok _ => none
      | .error e => some e := by
  obtain ⟨t, ht⟩ := Frame.exists_typeOf_of_declares h
  simp only [fault?, check, checkShape_eq_ok_iff.mpr hkind, resolve, hslot, ht]
  cases i.checkWidth <;> rfl

end Slot

end Instruction

namespace Builder

section State

variable {σ : Type} [BuildState σ] {s : σ} {e : Fault}

theorem emit_of_fault? {i : Instruction} (h : i.fault? (BuildState.frame s) = some e) :
    emit i s = .error e s := by
  rw [Instruction.fault?] at h
  cases hcheck : i.check (BuildState.frame s) with
  | ok slotType => simp [hcheck] at h
  | error e' =>
    rw [hcheck, Option.some.injEq] at h
    rw [emit, hcheck, h]

theorem resolve_shortest_of_fault? {a : Action}
    (h : a.shortest.fault? (BuildState.frame s) = some e) : resolve a.shortest s = .error e s := by
  rw [resolve_apply, Instruction.resolve_of_fault? a.operandKind?_shortest h]

/-- A range of arguments has the fault of its last member. -/
theorem loadArgs_of_fault? {first stop : UInt32} (hlt : first < stop)
    (h : (Action.loadArg (stop - 1)).shortest.fault? (BuildState.frame s) = some e) :
    loadArgs first stop s = .error e s := by
  rw [loadArgs, if_pos hlt]
  exact bind_of_error (discard_of_error (resolve_shortest_of_fault? h))

end State

/-- All that an emission does. -/
theorem emit_apply (i : Instruction) (b : Builder) :
    emit i b =
      match i.fault? b.frame with
      | some e => .error e b
      | none => .ok () (b.enter i) := by
  cases hfault : i.fault? b.frame with
  | some e => exact emit_of_fault? hfault
  | none => exact emit_of_wellFormed (Instruction.fault?_eq_none_iff.mp hfault)

end Builder

namespace Command

open Builder

/-- The fault with which a command is refused over a frame, or nothing if it is not. -/
def fault? (f : Frame) : Command → Option Fault
  | .loadArgs first stop =>
    if first < stop then (Action.loadArg (stop - 1)).shortest.fault? f else none
  | .loadConstant index _ =>
    if index.toNat ≤ maxConstantIndex then (Action.loadArg 0).shortest.fault? f
    else some (.slotTooWide .ldcWord index)
  | c => c.emission?.bind fun i => i.fault? f

section State

variable {σ : Type} [BuildState σ]

theorem exec_of_perform_error {c : Command} {x : BuildOn σ Unit} {s : σ} {e : Fault}
    (hperform : c.perform = perform.quiet x) (h : x s = .error e s) :
    c.exec s = (.error e, s) := by
  rw [exec, hperform, perform.quiet, bind_of_error h]

/-- A command with a fault reports it and leaves the state alone. -/
theorem exec_of_fault? {c : Command} {s : σ} {e : Fault}
    (h : c.fault? (BuildState.frame s) = some e) : c.exec s = (.error e, s) := by
  -- All commands but two are refused by the checked entry.
  have emitted {i : Instruction} (hi : c.emission? = some i)
      (he : c.emission?.bind (fun i => i.fault? (BuildState.frame s)) = some e) :
      c.exec s = (.error e, s) := by
    rw [hi, Option.bind_some] at he
    exact exec_of_perform_error (perform_of_emission? hi) (emit_of_fault? he)
  cases c with
  | declareLocal t => cases h
  | loadArgs first stop =>
    rw [fault?] at h
    by_cases hlt : first < stop
    · rw [if_pos hlt] at h
      exact exec_of_perform_error rfl (loadArgs_of_fault? hlt h)
    · rw [if_neg hlt] at h
      cases h
  | loadConstant index ty =>
    rw [fault?] at h
    refine exec_of_perform_error rfl ?_
    rw [Builder.loadConstant]
    by_cases hindex : index.toNat ≤ maxConstantIndex
    · rw [if_pos hindex] at h ⊢
      refine bind_of_error ?_
      rw [Builder.loadArg, access_shortest]
      exact emit_of_fault? h
    · rw [if_neg hindex, Option.some.injEq] at h
      rw [if_neg hindex, ← h]
      rfl
  | boxFrom ty =>
    obtain ⟨i, hi, -⟩ := Option.bind_eq_some_iff.mp h
    exact emitted hi h
  | _ => exact emitted rfl h

/-- Without a fault the frame has everything that the command needs. -/
theorem admissible_of_fault?_eq_none {c : Command} {f : Frame} (h : c.fault? f = none) :
    c.Admissible f := by
  have emitted {i : Instruction} (hi : c.emission? = some i) (hindex : c.IndexFits)
      (hnone : c.emission?.bind (fun i => i.fault? f) = none) : c.Admissible f := by
    rw [hi, Option.bind_some, Instruction.fault?_eq_none_iff] at hnone
    refine ⟨hindex, ?_⟩
    rw [instructions_of_emission? hi]
    simpa using hnone
  cases c with
  | declareLocal t => exact ⟨trivial, by simp [instructions]⟩
  | loadArgs first stop =>
    refine ⟨trivial, ?_⟩
    rw [fault?] at h
    by_cases hlt : first < stop
    · rw [if_pos hlt] at h
      exact (wellFormed_argLoads_iff hlt).mpr (Instruction.fault?_eq_none_iff.mp h)
    · have hnone : stop.toNat - first.toNat = 0 := by
        rw [UInt32.lt_iff_toNat_lt] at hlt
        omega
      simp [instructions, hnone, argLoads]
  | loadConstant index ty =>
    rw [fault?] at h
    by_cases hindex : index.toNat ≤ maxConstantIndex
    · rw [if_pos hindex] at h
      refine ⟨hindex, List.forall_mem_cons.mpr ⟨Instruction.fault?_eq_none_iff.mp h, ?_⟩⟩
      exact wellFormed_constant_tail index.toInt32 ty f
    · rw [if_neg hindex] at h
      cases h
  | boxFrom ty =>
    cases hemission : (boxFrom ty).emission? with
    | some i => exact emitted hemission trivial h
    | none =>
      have hempty : (boxFrom ty).instructions = [] := List.head?_eq_none_iff.mp hemission
      exact ⟨trivial, by simp [hempty]⟩
  | _ => exact emitted rfl trivial h

/-- All that a command other than a declaration does to a state. -/
theorem exec_eq_on {c : Command} (hc : ∀ t, c ≠ .declareLocal t) (s : σ) :
    c.exec s =
      match c.fault? (BuildState.frame s) with
      | some e => (.error e, s)
      | none => (.ok none, BuildState.enterAll s c.instructions) := by
  cases hfault : c.fault? (BuildState.frame s) with
  | some e => exact exec_of_fault? hfault
  | none => exact exec_of_admissible_on hc (admissible_of_fault?_eq_none hfault)

end State

/-- All that a command other than a declaration does. -/
theorem exec_eq {c : Command} (hc : ∀ t, c ≠ .declareLocal t) (b : Builder) :
    c.exec b =
      match c.fault? b.frame with
      | some e => (.error e, b)
      | none => (.ok none, b.enterAll c.instructions) :=
  exec_eq_on hc b

end Command
end Cil
