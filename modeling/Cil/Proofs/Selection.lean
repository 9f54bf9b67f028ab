import Cil.Proofs.Atomicity
import Cil.Proofs.Layout

/-!
# Runs of requests are met in the fewest bytes

A run of requests for constants and slots appends one instruction for each request that
was met, and these instructions say what was requested. There is no shorter way to say
it: any code that can be emitted and does the same takes more bytes, unless it is that
very code. The comparison is made instruction by instruction, since an instruction that
carries out an action carries out just one.
-/

namespace Cil

namespace Action

/-- The command that makes a request. -/
def command : Action → Command
  | .pushInt value => .pushInt value
  | .loadArg index => .loadArg index
  | .loadLocal index => .loadLocal index
  | .storeLocal index => .storeLocal index

/-- A request is met by its shortest form or refused. -/
theorem exec_command (a : Action) (b : Builder) :
    a.command.exec b = (.ok none, b.enter a.shortest) ∨
      ∃ e, a.command.exec b = (.error e, b) := by
  have hinstructions : a.command.instructions = [a.shortest] := by cases a <;> rfl
  obtain ⟨t, ht, -⟩ | ⟨-, hexec⟩ | ⟨-, hexec⟩ := a.command.exec_cases b
  · cases a <;> cases ht
  · rw [hinstructions] at hexec
    exact .inl hexec
  · exact .inr hexec

/-- Instructions that carry out a list of actions are the shortest forms of these actions
or take more bytes than they do. -/
theorem eq_map_shortest_or_lt {as : List Action} {is : List Instruction}
    (hactions : is.map Instruction.action? = as.map some)
    (hwidths : ∀ i ∈ is, i.checkWidth = .ok ()) :
    is = as.map shortest ∨
      (Code.ofList (as.map shortest)).byteSize < (Code.ofList is).byteSize := by
  induction as generalizing is with
  | nil => exact .inl (List.map_eq_nil_iff.mp hactions)
  | cons a as ih =>
    obtain ⟨i, is, rfl, haction, hrest⟩ := List.map_eq_cons_iff.mp hactions
    rw [List.forall_mem_cons] at hwidths
    simp only [List.map_cons, Code.byteSize_ofList_cons]
    have hfirst := eq_shortest_or_lt haction hwidths.1
    have htail := ih hrest hwidths.2
    obtain rfl | hlt := hfirst
    · obtain rfl | hlt := htail
      · exact .inl rfl
      · exact .inr (Nat.add_lt_add_left hlt _)
    · obtain rfl | hlt' := htail
      · exact .inr (Nat.add_lt_add_right hlt _)
      · exact .inr (Nat.add_lt_add hlt hlt')

end Action

namespace Command

open Builder

/-- A run of requests appends the shortest forms of those that are met. -/
theorem toList_code_run_requests (as : List Action) (b : Builder) :
    (run (as.map Action.command) b).2.code.toList =
      b.code.toList ++ (accepted as (run (as.map Action.command) b).1).map Action.shortest := by
  induction as generalizing b with
  | nil => simp [accepted]
  | cons a as ih =>
    rw [List.map_cons, run_cons]
    obtain hexec | ⟨e, hexec⟩ := a.exec_command b
    · rw [hexec, accepted_cons_ok, ih, code_enter, Code.toList_push, List.map_cons,
        List.append_assoc]
      rfl
    · rw [hexec, accepted_cons_error, ih]

/-- Instructions that are emitted one after the other without a refusal are well formed
over the frame, which no emission changes. -/
theorem wellFormed_of_run_emit {is : List Instruction} {b : Builder}
    (h : ∀ o ∈ (run (is.map .emit) b).1, o.isOk) : ∀ i ∈ is, i.WellFormed b.frame := by
  induction is generalizing b with
  | nil => simp
  | cons i is ih =>
    rw [List.map_cons, run_cons] at h
    obtain ⟨t, ht, -⟩ | ⟨hadmissible, hexec⟩ | ⟨-, e, hexec⟩ := (Command.emit i).exec_cases b
    · cases ht
    · rw [hexec] at h
      have hrest := ih fun o ho => h o (Array.mem_append.mpr (.inr ho))
      rw [List.forall_mem_cons]
      exact ⟨hadmissible.2 i (List.mem_singleton.mpr rfl), hrest⟩
    · rw [hexec] at h
      have hrefused := h (.error e) (Array.mem_append.mpr (.inl (by simp)))
      cases hrefused

/-- The code of a run of requests does what the requests that were met ask for. All other
code that does so takes more bytes, over whatever frame it can be emitted. -/
theorem requests_in_fewest_bytes (b : Builder) (hb : b.code = .empty) (requests : List Action) :
    let after := run (requests.map Action.command) b
    let met := accepted requests after.1
    after.2.code.toList.map Instruction.action? = met.map some ∧
      ∀ (other : Builder) (is : List Instruction),
        (∀ o ∈ (run (is.map .emit) other).1, o.isOk) →
        is.map Instruction.action? = met.map some →
        after.2.code.byteSize ≤ (Code.ofList is).byteSize ∧
          ((Code.ofList is).byteSize = after.2.code.byteSize ↔ is = after.2.code.toList) := by
  intro after met
  have hlist : after.2.code.toList = met.map Action.shortest := by
    rw [toList_code_run_requests, hb]
    rfl
  have hcode : after.2.code = .ofList (met.map Action.shortest) :=
    Code.ext_toList hlist
  refine ⟨?_, ?_⟩
  · rw [hlist, List.map_map]
    exact List.map_congr_left fun a _ => a.action?_shortest
  · intro other is hemitted hactions
    have hwidths : ∀ i ∈ is, i.checkWidth = .ok () := fun i hi =>
      (Instruction.wellFormed_iff.mp (wellFormed_of_run_emit hemitted i hi)).2.2
    rw [hcode, Code.toList_ofList]
    obtain rfl | hlt := Action.eq_map_shortest_or_lt hactions hwidths
    · exact ⟨Nat.le_refl _, iff_of_true rfl rfl⟩
    · refine ⟨Nat.le_of_lt hlt, iff_of_false (Nat.ne_of_gt hlt) ?_⟩
      rintro rfl
      exact Nat.lt_irrefl _ hlt

/-- Four of these five requests are met, and each has a longer form. -/
theorem requests_in_fewest_bytes_of_longer_forms :
    let b := (run [.declareLocal .int32] (start #[.object])).2
    let requests : List Action :=
      [.pushInt 8, .pushInt (-128), .loadArg 0, .loadLocal 5, .storeLocal 0]
    let is : List Instruction :=
      [⟨.ldcByte, .int8 8⟩, ⟨.ldcWord, .int32 (-128)⟩, ⟨.ldarg .short, .slot (.arg 0)⟩,
        ⟨.stloc .long, .slot (.loc 0)⟩]
    let after := run (requests.map Action.command) b
    after.2.code.toList.map Instruction.action? =
        [.pushInt 8, .pushInt (-128), .loadArg 0, .storeLocal 0].map some ∧
      after.2.code.byteSize ≤ (Code.ofList is).byteSize :=
  ⟨(requests_in_fewest_bytes _ (by decide) _).1.trans (by decide),
    ((requests_in_fewest_bytes _ (by decide) _).2 (run [.declareLocal .int32] (start #[.object])).2
      _ (by decide) (by decide)).1⟩

end Command
end Cil
