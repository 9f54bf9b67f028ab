import Cil.Proofs.TopType

/-!
# Handing a body over to a fresh builder

A finished body can be handed over to a builder that declares the locals it is told and
emits the instructions it is told (`Builder.sink`). Nothing is refused: whichever way an
instruction got into the body, it passes all checks again, and the locals that it needs
have been declared by then, since locals come first. The receiver ends with the same body
and the same type on top, although the two may have been built in different orders.

Each local is announced with the number that the receiver gives it. Numbers are taken
modulo `2 ^ 32` on both sides, so this holds for any number of locals.
-/

namespace Cil

namespace Builder

open Event (announcements)

/-- Announced locals are declared. -/
theorem forM_sink_announcements (ts : List Ty) (first : Nat) (b : Builder) :
    (announcements ts first).forM sink b = .ok () (Command.run (ts.map .declareLocal) b).2 := by
  induction ts generalizing first b with
  | nil => rfl
  | cons t ts ih =>
    have hdeclare : sink (.declare first.toUInt32 t) b = .ok () (b.declare t) :=
      discard_of_ok (declareLocal_apply t b)
    rw [List.map_cons, Command.run_cons, Command.exec_declareLocal]
    exact (bind_of_ok hdeclare).trans (ih (first + 1) (b.declare t))

/-- Instructions that the frame admits are emitted. -/
theorem forM_sink_instructions {is : List Instruction} {b : Builder}
    (h : ∀ i ∈ is, i.WellFormed b.frame) :
    (is.map Event.instruction).forM sink b = .ok () (b.enterAll is) := by
  induction is generalizing b with
  | nil => rfl
  | cons i is ih =>
    rw [List.forall_mem_cons] at h
    have hemit : sink (.instruction i) b = .ok () (b.enter i) := emit_of_wellFormed h.1
    exact (bind_of_ok hemit).trans (ih h.2)

end Builder

namespace Body

open Builder
open Event (announcements)

/-- A well-formed body is rebuilt by the hand-over exactly as by its own commands. -/
theorem replay_sink {body : Body} (h : body.WellFormed) :
    body.replay sink (start body.frame.args) =
      .ok () (Command.run body.commands (start body.frame.args)).2 := by
  have hdeclared : body.declarations.forM sink (start body.frame.args) =
      .ok () { frame := body.frame } := by
    rw [← Command.run_declareLocal_start]
    exact forM_sink_announcements _ 0 _
  have hentered : (body.code.toList.map Event.instruction).forM sink { frame := body.frame } =
      .ok () (enterAll { frame := body.frame } body.code.toList) :=
    forM_sink_instructions h
  have hsplit : body.replay sink = body.declarations.forM sink >>= fun _ =>
      (body.code.toList.map Event.instruction).forM sink :=
    (body.replay_eq_forM_events sink).trans List.forM_append
  have hemitted : (Command.run (body.code.toList.map .emit) { frame := body.frame }).2 =
      enterAll { frame := body.frame } body.code.toList := Command.run_emit h
  rw [hsplit, bind_of_ok hdeclared, hentered, commands, Command.run_append,
    Command.run_declareLocal_start, hemitted]

/-- An announcement among the events stands behind the announcements of the locals before
it and of nothing else. -/
theorem exists_of_events_eq {body : Body} {before after : List Event} {index : UInt32} {t : Ty}
    (h : body.events = before ++ .declare index t :: after) :
    ∃ ts us, body.frame.locals.types.toList = ts ++ t :: us ∧
      before = announcements ts 0 ∧ index = ts.length.toUInt32 := by
  -- No instruction is an announcement, so the announcement is in the first part.
  have hnot (xs ys : List Event)
      (hcode : body.code.toList.map Event.instruction = xs ++ .declare index t :: ys) : False := by
    have hmem : Event.declare index t ∈ body.code.toList.map Event.instruction := by
      rw [hcode]
      exact List.mem_append_right xs List.mem_cons_self
    obtain ⟨i, -, hi⟩ := List.mem_map.mp hmem
    cases hi
  obtain ⟨rest, -, hcode⟩ | ⟨rest, hdeclarations, htail⟩ := List.append_eq_append_iff.mp h
  · exact (hnot _ _ hcode).elim
  cases rest with
  | nil => exact (hnot [] _ htail.symm).elim
  | cons event rest =>
    obtain ⟨rfl, -⟩ := List.cons.inj htail
    obtain ⟨left, right, hsplit, hleft, hright⟩ := List.map_eq_append_iff.mp hdeclarations
    obtain ⟨ts, us, htypes, rfl, rfl⟩ := List.zipIdx_eq_append_iff.mp hsplit
    cases us with
    | nil => cases hright
    | cons u us =>
      simp only [List.zipIdx_cons, List.map_cons, List.cons.injEq, Event.declare.injEq,
        Nat.zero_add] at hright
      obtain ⟨⟨hindex, rfl⟩, -⟩ := hright
      exact ⟨ts, us, htypes, hleft.symm, hindex.symm⟩

/-- A local is announced with the number that it is then given. -/
theorem declareLocal_announced {body : Body} {before after : List Event} {index : UInt32} {t : Ty}
    (h : body.events = before ++ .declare index t :: after) :
    ∃ b, before.forM sink (start body.frame.args) = .ok () b ∧
      Builder.declareLocal t b = .ok index (b.declare t) := by
  obtain ⟨ts, us, -, rfl, rfl⟩ := Body.exists_of_events_eq h
  refine ⟨_, forM_sink_announcements ts 0 _, ?_⟩
  let b := (Command.run (ts.map .declareLocal) (start body.frame.args)).2
  have hcount : b.frame.locals.types.size = ts.length := by
    simp only [b, Command.run_declareLocal]
    simp [start, onFrame, Frame.declareAll, Locals.empty]
  rw [declareLocal_apply, Frame.declareLocal, Locals.declare, hcount]
  rfl

end Body

namespace Command

open Builder

/-- Handing over the body of any run to a fresh builder succeeds and gives the same body
and the same type on top. Every local is announced with the number that the builder gives
it when it is told. -/
theorem replay_run (cs : List Command) (args : Array Ty) :
    let b := (run cs (start args)).2
    let body := b.finish
    let fresh := start body.frame.args
    (∃ copy, body.replay sink fresh = .ok () copy ∧ copy.finish = body ∧ copy.top = b.top) ∧
      ∀ before index t after, body.events = before ++ .declare index t :: after →
        ∃ c, before.forM sink fresh = .ok () c ∧
          Builder.declareLocal t c = .ok index (c.declare t) := by
  intro b body fresh
  have hbody : body.WellFormed := wellFormed_run cs args
  have hfinish : (run body.commands fresh).2.finish = body := finish_run_commands hbody
  refine ⟨⟨_, Body.replay_sink hbody, hfinish, ?_⟩, ?_⟩
  · rw [(faithful_run body.commands _).top, hfinish, (faithful_run cs args).top]
  · intro before index t after hevents
    exact Body.declareLocal_announced hevents

/-- The second local was declared after the first was used, and is announced before. -/
theorem replay_run_of_late_declaration :
    let b := (run [.declareLocal .object, .loadLocal 0, .loadArg 7, .declareLocal .int8,
      .pushInt 9, .storeLocal 1] (start #[.string])).2
    let fresh := start #[.string]
    (∃ copy, b.finish.replay sink fresh = .ok () copy ∧ copy.finish = b.finish ∧
        copy.top = b.top) ∧
      ∃ c, [Event.declare 0 .object].forM sink fresh = .ok () c ∧
        Builder.declareLocal .int8 c = .ok 1 (c.declare .int8) :=
  ⟨(replay_run _ _).1,
    (replay_run [.declareLocal .object, .loadLocal 0, .loadArg 7, .declareLocal .int8,
      .pushInt 9, .storeLocal 1] #[.string]).2 [.declare 0 .object] 1 .int8
      [.instruction (.simple (.ldlocAt 0)), .instruction ⟨.ldcByte, .int8 9⟩,
        .instruction (.simple (.stlocAt 1))] (by decide)⟩

end Command
end Cil
