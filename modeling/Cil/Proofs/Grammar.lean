import Cil.Proofs.Effect

/-!
# The bodies that can be built

Runs end in well-formed bodies, whatever commands they consist of and however many of
them are refused. Conversely, a well-formed body is rebuilt by declaring its locals and
then emitting its instructions. So the checks keep nothing out that a body may hold, and
the operations that skip them let nothing in that it may not.
-/

namespace Cil

/-- The frame after several more declarations. -/
def Frame.declareAll (f : Frame) (ts : List Ty) : Frame :=
  ⟨f.args, ⟨f.locals.types ++ ts⟩⟩

theorem Frame.declareAll_cons (f : Frame) (t : Ty) (ts : List Ty) :
    f.declareAll (t :: ts) = (f.declareLocal t).2.declareAll ts := by
  simp [declareAll, declareLocal, Locals.declare]

/-- Every instruction is well formed over the frame of the body. -/
def Body.WellFormed (body : Body) : Prop :=
  ∀ i ∈ body.code.toList, i.WellFormed body.frame

/-- Commands that build a body: its locals first, then its instructions. -/
def Body.commands (body : Body) : List Command :=
  body.frame.locals.types.toList.map .declareLocal ++ body.code.toList.map .emit

namespace Builder

/-- The same code over another frame. -/
def onFrame (b : Builder) (g : Frame) : Builder := { b with frame := g }

theorem wellFormed_start (args : Array Ty) : (start args).finish.WellFormed := by
  intro i hi
  simp at hi

theorem wellFormed_declare (b : Builder) (t : Ty) (h : b.finish.WellFormed) :
    (b.declare t).finish.WellFormed := by
  intro i hi
  exact (h i hi).mono (b.frame.growsTo_declareLocal t)

theorem wellFormed_enter (b : Builder) (i : Instruction) (hi : i.WellFormed b.frame)
    (h : b.finish.WellFormed) : (b.enter i).finish.WellFormed := by
  intro j hj
  change j ∈ (b.code.push i).toList at hj
  rw [Code.toList_push, List.mem_append, List.mem_singleton] at hj
  obtain hold | rfl := hj
  · exact h j hold
  · exact hi

end Builder

namespace Command

open Builder

theorem wellFormed_run (cs : List Command) (args : Array Ty) :
    (run cs (start args)).2.finish.WellFormed :=
  run_invariant wellFormed_declare wellFormed_enter cs (wellFormed_start args)

/-- A run of declarations adds its types to the locals. -/
theorem run_declareLocal (ts : List Ty) (b : Builder) :
    (run (ts.map .declareLocal) b).2 = b.onFrame (b.frame.declareAll ts) := by
  induction ts generalizing b with
  | nil => simp [onFrame, Frame.declareAll]
  | cons t ts ih =>
    rw [List.map_cons, run_cons, ih, Frame.declareAll_cons]
    rfl

/-- A run of emissions that the frame admits enters all of them. -/
theorem run_emit {is : List Instruction} {b : Builder} (h : ∀ i ∈ is, i.WellFormed b.frame) :
    (run (is.map .emit) b).2 = b.enterAll is := by
  induction is generalizing b with
  | nil => rfl
  | cons i is ih =>
    rw [List.forall_mem_cons] at h
    have hexec : (Command.emit i).exec b = (.ok none, b.enter i) :=
      exec_of_admissible (by simp) ⟨trivial, by simpa [instructions] using h.1⟩
    rw [List.map_cons, run_cons, hexec, enterAll_cons]
    exact ih h.2

/-- The declarations of a body make its frame. -/
theorem run_declareLocal_start (body : Body) :
    (run (body.frame.locals.types.toList.map .declareLocal) (start body.frame.args)).2 =
      { frame := body.frame } := by
  rw [run_declareLocal]
  simp [start, onFrame, Frame.declareAll, Locals.empty]

/-- A well-formed body is what its commands build. -/
theorem finish_run_commands {body : Body} (h : body.WellFormed) :
    (run body.commands (start body.frame.args)).2.finish = body := by
  have hemitted : (run (body.code.toList.map .emit) { frame := body.frame }).2 =
      enterAll { frame := body.frame } body.code.toList := run_emit h
  rw [Body.commands, run_append, run_declareLocal_start, hemitted, finish_enterAll]
  simp

/-- The bodies that runs can end in are the well-formed ones. -/
theorem exists_run_finish_iff (args locals : Array Ty) (is : List Instruction) :
    (∃ cs : List Command,
        (run cs (start args)).2.finish = ⟨⟨args, ⟨locals⟩⟩, .ofList is⟩) ↔
      ∀ i ∈ is, i.WellFormed ⟨args, ⟨locals⟩⟩ := by
  constructor
  · rintro ⟨cs, hcs⟩ i hi
    have h := wellFormed_run cs args
    rw [hcs] at h
    exact h i hi
  · intro h
    have hbody : Body.WellFormed ⟨⟨args, ⟨locals⟩⟩, .ofList is⟩ := h
    exact ⟨_, finish_run_commands hbody⟩

end Command
end Cil
