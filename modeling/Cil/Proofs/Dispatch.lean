import Cil.Builder

/-!
# When a static method is dispatched virtually

A method without a receiver has no run-time type to dispatch on. `Method.makeStatic` sees to
that and takes back an earlier `makeVirtual`, but `Method.makeVirtual` does not look at what
came before it. So of the two the later one decides about dispatch, while `makeStatic` is
never taken back: a description that ends up static is also virtual exactly if some
`makeVirtual` has no `makeStatic` behind it, and then `Builder.call` enters a `callvirt`.
-/

namespace Cil

namespace Modifier

/-- Some `makeVirtual` has no `makeStatic` behind it. -/
def LastVirtual (cs : List Modifier) : Prop :=
  ∃ front back, cs = front ++ .makeVirtual :: back ∧ .makeStatic ∉ back

theorem not_lastVirtual_nil : ¬ LastVirtual [] := by
  rintro ⟨front, back, h, -⟩
  simp at h

theorem lastVirtual_cons {c : Modifier} {cs : List Modifier} :
    LastVirtual (c :: cs) ↔ (c = .makeVirtual ∧ .makeStatic ∉ cs) ∨ LastVirtual cs := by
  constructor
  · rintro ⟨front, back, h, hback⟩
    cases front with
    | nil =>
      obtain ⟨rfl, rfl⟩ := List.cons.inj h
      exact .inl ⟨rfl, hback⟩
    | cons d front =>
      obtain ⟨rfl, rfl⟩ := List.cons.inj h
      exact .inr ⟨front, back, rfl, hback⟩
  · rintro (⟨rfl, hcs⟩ | ⟨front, back, rfl, hback⟩)
    · exact ⟨[], cs, rfl, hcs⟩
    · exact ⟨c :: front, back, rfl, hback⟩

instance decidableLastVirtual : (cs : List Modifier) → Decidable (LastVirtual cs)
  | [] => isFalse not_lastVirtual_nil
  | _ :: cs =>
    letI := decidableLastVirtual cs
    decidable_of_iff _ lastVirtual_cons.symm

example : ¬ LastVirtual [.makeVirtual, .makeStatic, .yields .object] := by decide

example : LastVirtual [.makeVirtual, .makeStatic, .makeVirtual, .yields .object] := by decide

theorem isStatic_apply (c : Modifier) (m : Method) :
    (c.apply m).isStatic = true ↔ c = .makeStatic ∨ m.isStatic = true := by
  cases c <;> simp [apply, Method.takes, Method.yields, Method.makeVirtual, Method.makeStatic]

theorem isVirtual_apply (c : Modifier) (m : Method) :
    (c.apply m).isVirtual = true ↔
      c = .makeVirtual ∨ (c ≠ .makeStatic ∧ m.isVirtual = true) := by
  cases c <;> simp [apply, Method.takes, Method.yields, Method.makeVirtual, Method.makeStatic]

theorem isStatic_applyAll (cs : List Modifier) (m : Method) :
    (applyAll cs m).isStatic = true ↔ .makeStatic ∈ cs ∨ m.isStatic = true := by
  induction cs generalizing m with
  | nil => simp
  | cons c cs ih =>
    rw [applyAll_cons, ih, isStatic_apply, List.mem_cons, eq_comm (a := c)]
    exact or_left_comm.trans or_assoc.symm

/-- What the method was before counts only if nothing makes it static. -/
theorem isVirtual_applyAll (cs : List Modifier) (m : Method) :
    (applyAll cs m).isVirtual = true ↔
      LastVirtual cs ∨ (.makeStatic ∉ cs ∧ m.isVirtual = true) := by
  induction cs generalizing m with
  | nil => simp [not_lastVirtual_nil]
  | cons c cs ih =>
    rw [applyAll_cons, ih, isVirtual_apply, lastVirtual_cons, List.mem_cons]
    grind

end Modifier

namespace Method

open Modifier

/-- The code that a call leaves behind. -/
theorem code_call (m : Method) (b : Builder) :
    ∃ b', Builder.call m b = .ok () b' ∧
      b'.code.toList = b.code.toList ++ [Builder.calling m] :=
  ⟨_, Builder.append_apply _ _ b, Code.toList_push _ _⟩

/-- A described method is static and virtual at once exactly if `makeStatic` occurs and the
last of the two modifiers is `makeVirtual`. The second condition alone decides which call is
entered, whether the method is static or not. -/
theorem static_and_virtual_iff (owner : Ty) (name : String) (cs : List Modifier) :
    let m := applyAll cs { owner := owner, name := name }
    (m.isStatic = true ∧ m.isVirtual = true ↔ .makeStatic ∈ cs ∧ LastVirtual cs) ∧
    ∀ b : Builder, ∃ b', Builder.call m b = .ok () b' ∧
      b'.code.toList =
        b.code.toList ++ [⟨if LastVirtual cs then .callvirt else .call, .method m⟩] := by
  intro m
  have hstatic : m.isStatic = true ↔ .makeStatic ∈ cs := by
    simp [m, isStatic_applyAll]
  have hvirtual : m.isVirtual = true ↔ LastVirtual cs := by
    simp [m, isVirtual_applyAll]
  refine ⟨and_congr hstatic hvirtual, ?_⟩
  intro b
  obtain ⟨b', hcall, hcode⟩ := code_call m b
  refine ⟨b', hcall, ?_⟩
  simp only [hcode, Builder.calling, hvirtual]

/-- A `makeVirtual` behind the `makeStatic` is not taken back, and the static method is called
through a receiver that it does not have. -/
theorem static_and_virtual_of_late_virtual :
    let cs : List Modifier := [.makeStatic, .makeVirtual]
    let m := applyAll cs { owner := .ofClass "Foo", name := "Run" }
    .makeStatic ∈ cs ∧ m.isStatic = true ∧ m.isVirtual = true ∧
      ∃ b', Builder.call m (Builder.start #[]) = .ok () b' ∧
        b'.code.toList = [⟨.callvirt, .method m⟩] := by
  intro cs m
  exact ⟨by decide, rfl, rfl, code_call m (.start #[])⟩

end Method
end Cil
