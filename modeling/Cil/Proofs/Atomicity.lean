import Cil.Proofs.Effect

/-!
# Refused commands leave no trace

A refused command gives the builder back as it got it: frame, code and the type on top.
Commands of several instructions are no exception. The last of a range of arguments is
looked at before any is pushed, and in a constant load nothing can fail behind the first
instruction. A run therefore goes the same way when its refused commands are taken out.
-/

namespace Cil.Command

/-- The members of a list that had success, given one outcome for each of them. -/
def accepted {α : Type} (xs : List α) (outcomes : Array Outcome) : List α :=
  ((xs.zip outcomes.toList).filter fun p => p.2.isOk).map Prod.fst

theorem accepted_cons_ok {α : Type} (x : α) (xs : List α) (index : Option UInt32)
    (outcomes : Array Outcome) :
    accepted (x :: xs) (#[.ok index] ++ outcomes) = x :: accepted xs outcomes := by
  simp [accepted, Except.isOk, Except.toBool]

theorem accepted_cons_error {α : Type} (x : α) (xs : List α) (e : Fault)
    (outcomes : Array Outcome) :
    accepted (x :: xs) (#[.error e] ++ outcomes) = accepted xs outcomes := by
  simp [accepted, Except.isOk, Except.toBool]

theorem eq_of_exec_error {c : Command} {b b' : Builder} {e : Fault}
    (h : c.exec b = (.error e, b')) : b' = b := by
  obtain ⟨t, -, hexec⟩ | ⟨-, hexec⟩ | ⟨-, e', hexec⟩ := c.exec_cases b
  · rw [hexec] at h
    cases h
  · rw [hexec] at h
    cases h
  · rw [hexec] at h
    cases h
    rfl

/-- Without its refused commands a run ends in the same builder, and the commands that
are left have the outcomes that they had. -/
theorem run_accepted (cs : List Command) (b : Builder) :
    run (accepted cs (run cs b).1) b = ((run cs b).1.filter (·.isOk), (run cs b).2) := by
  induction cs generalizing b with
  | nil => rfl
  | cons c cs ih =>
    rcases hexec : c.exec b with ⟨outcome, b'⟩
    rw [run_cons, hexec]
    cases outcome with
    | error e =>
      obtain rfl := eq_of_exec_error hexec
      rw [accepted_cons_error, ih]
      simp [Except.isOk, Except.toBool]
    | ok index =>
      rw [accepted_cons_ok, run_cons, hexec, ih]
      simp [Except.isOk, Except.toBool]

/-- A refused command changes nothing, and a run is the same without the commands that
were refused in it. -/
theorem refusal_atomic :
    (∀ (c : Command) (b b' : Builder) (e : Fault), c.exec b = (.error e, b') → b' = b) ∧
      ∀ (cs : List Command) (b : Builder),
        run (accepted cs (run cs b).1) b = ((run cs b).1.filter (·.isOk), (run cs b).2) :=
  ⟨fun _ _ _ _ h => eq_of_exec_error h, run_accepted⟩

/-- The first two of these three arguments exist. -/
theorem refusal_atomic_of_loadArgs :
    let b := (run [.declareLocal .int32, .pushInt 9] (Builder.start #[.object, .string])).2
    let after := (loadArgs 0 3).exec b
    after.1 = .error (.undeclaredArg 2 2) ∧ after.2 = b :=
  ⟨rfl, refusal_atomic.1 (loadArgs 0 3) _ _ (.undeclaredArg 2 2) rfl⟩

end Cil.Command
