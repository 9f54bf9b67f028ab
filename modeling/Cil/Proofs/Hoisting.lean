import Cil.Proofs.Grammar
import Cil.Proofs.Growth

/-!
# Declarations can come first

A run in which nothing is refused can have all its declarations moved to the front. The
exchange that makes this possible is `Builder.enter_onFrame`: an instruction that the frame
admits finds the same slot in every larger frame, so it makes no difference whether locals
are declared before or after it. The declarations in turn see nothing but how many of them
there were before.

What is compared is all that can be seen of a command at its place in a run, its outcome
and the instructions that it appends (`Command.records`). A run with refusals has no such
law: a load that was refused may succeed once its local is declared before it.
-/

namespace Cil

theorem Frame.growsTo_declareAll (f : Frame) (ts : List Ty) : f.GrowsTo (f.declareAll ts) :=
  ⟨rfl, by simp [declareAll]⟩

namespace Builder

variable {b : Builder} {g : Frame}

/-- To enlarge the frame before or after an instruction is the same. -/
theorem enter_onFrame {i : Instruction} (hi : i.WellFormed b.frame) (hgrow : b.frame.GrowsTo g) :
    (b.onFrame g).enter i = (b.enter i).onFrame g := by
  have hslot : i.slotType? (b.onFrame g).frame = i.slotType? b.frame := hi.slotType?_eq hgrow
  rw [enter, enter, hslot]
  rfl

theorem enterAll_onFrame {is : List Instruction} (his : ∀ i ∈ is, i.WellFormed b.frame)
    (hgrow : b.frame.GrowsTo g) : (b.onFrame g).enterAll is = (b.enterAll is).onFrame g := by
  induction is generalizing b with
  | nil => rfl
  | cons i is ih =>
    rw [List.forall_mem_cons] at his
    rw [enterAll_cons, enterAll_cons, enter_onFrame his.1 hgrow]
    exact ih his.2 hgrow

end Builder

namespace Command

open Builder

/-- A command at its place in a run: how it went and what it appended. -/
structure Record where
  command : Command
  outcome : Outcome
  appended : List Instruction

/-- The record of carrying out a command. -/
def record (c : Command) (b : Builder) : Record :=
  ⟨c, (c.exec b).1, (c.exec b).2.code.toList.drop b.code.length⟩

@[simp] theorem command_record (c : Command) (b : Builder) : (c.record b).command = c := rfl

/-- The records of a run, in order. -/
def records : List Command → Builder → List Record
  | [], _ => []
  | c :: cs, b => c.record b :: records cs (c.exec b).2

theorem records_append (cs ds : List Command) (b : Builder) :
    records (cs ++ ds) b = records cs b ++ records ds (run cs b).2 := by
  induction cs generalizing b with
  | nil => rfl
  | cons c cs ih => simp [records, ih]

/-- The outcomes in the records are those of the run. -/
theorem outcomes_records (cs : List Command) (b : Builder) :
    (records cs b).map Record.outcome = (run cs b).1.toList := by
  induction cs generalizing b with
  | nil => rfl
  | cons c cs ih => simp [records, record, ih]

theorem forall_outcomes_iff {P : Outcome → Prop} {cs : List Command} {b : Builder} :
    (∀ o ∈ (run cs b).1, P o) ↔ ∀ r ∈ records cs b, P r.outcome := by
  simp only [← Array.mem_toList_iff, ← outcomes_records, List.forall_mem_map]

theorem record_declareLocal (t : Ty) (b : Builder) :
    (declareLocal t).record b =
      ⟨declareLocal t, .ok (some b.frame.locals.count.toUInt32), []⟩ := by
  simp [record, ← Code.length_toList]

theorem record_of_admissible {c : Command} {b : Builder} (hc : ∀ t, c ≠ declareLocal t)
    (h : c.Admissible b.frame) : c.record b = ⟨c, .ok none, c.instructions⟩ := by
  rw [record, exec_of_admissible hc h, toList_code_enterAll, ← Code.length_toList]
  simp

def isDeclaration (c : Command) : Bool := c.declared?.isSome

/-- The declarations first and then the rest, both in the order that they had. -/
def hoisted (cs : List Command) : List Command :=
  cs.filter (·.isDeclaration) ++ cs.filter (!·.isDeclaration)

theorem isDeclaration_of_ne {c : Command} (hc : ∀ t, c ≠ declareLocal t) :
    c.isDeclaration = false := by
  rw [isDeclaration, declared?_eq_none hc]
  rfl

theorem declaredTypes_cons_of_ne {c : Command} (hc : ∀ t, c ≠ declareLocal t)
    (cs : List Command) : declaredTypes (c :: cs) = declaredTypes cs := by
  rw [declaredTypes, List.filterMap_cons_none (declared?_eq_none hc)]
  rfl

theorem filter_isDeclaration (cs : List Command) :
    cs.filter (·.isDeclaration) = (declaredTypes cs).map declareLocal := by
  induction cs with
  | nil => rfl
  | cons c cs ih =>
    cases c with
    | declareLocal t => exact congrArg (List.cons (declareLocal t)) ih
    | _ => exact ih

/-- Declarations look at nothing but the number of locals. -/
theorem records_declarations_congr {b c : Builder}
    (h : b.frame.locals.count = c.frame.locals.count) (ts : List Ty) :
    records (ts.map declareLocal) b = records (ts.map declareLocal) c := by
  induction ts generalizing b c with
  | nil => rfl
  | cons t ts ih =>
    have hnext : (b.declare t).frame.locals.count = (c.declare t).frame.locals.count := by
      change (b.frame.locals.declare t).2.count = (c.frame.locals.declare t).2.count
      rw [Locals.count_declare, Locals.count_declare, h]
    rw [List.map_cons, records, records, record_declareLocal, record_declareLocal, h]
    exact congrArg _ (ih hnext)

/-- Whatever stands between them, and whether or not it is refused, the declarations of a run
go as they do on their own. -/
theorem records_declarations (cs : List Command) (b : Builder) :
    records ((declaredTypes cs).map declareLocal) b =
      (records cs b).filter (·.command.isDeclaration) := by
  induction cs generalizing b with
  | nil => rfl
  | cons c cs ih =>
    obtain ⟨t, rfl⟩ | hc := c.eq_declareLocal_or_ne
    · exact congrArg (List.cons _) (ih (b.declare t))
    · rw [declaredTypes_cons_of_ne hc, records,
        List.filter_cons_of_neg (by simp [isDeclaration_of_ne hc]), ← ih]
      apply records_declarations_congr
      rw [frame_exec hc]

/-- A command that succeeds does the same when locals have been declared in advance. -/
theorem exec_onFrame {c : Command} {b : Builder} {g : Frame} (hc : ∀ t, c ≠ declareLocal t)
    (h : c.Admissible b.frame) (hgrow : b.frame.GrowsTo g) :
    c.record (b.onFrame g) = c.record b ∧ (c.exec (b.onFrame g)).2 = (c.exec b).2.onFrame g := by
  have hlater : c.Admissible (b.onFrame g).frame := ⟨h.1, fun i hi => (h.2 i hi).mono hgrow⟩
  refine ⟨?_, ?_⟩
  · rw [record_of_admissible hc hlater, record_of_admissible hc h]
  · rw [exec_of_admissible hc hlater, exec_of_admissible hc h]
    exact enterAll_onFrame h.2 hgrow

theorem admissible_of_isOk {c : Command} {b : Builder} (hc : ∀ t, c ≠ declareLocal t)
    (h : (c.exec b).1.isOk) : c.Admissible b.frame := by
  obtain ⟨t, ht, -⟩ | ⟨hadmissible, -⟩ | ⟨-, e, hexec⟩ := c.exec_cases b
  · exact absurd ht (hc t)
  · exact hadmissible
  · rw [hexec] at h
    cases h

/-- If nothing is refused, the commands other than declarations go the same way when all
locals of the run are there from the beginning. The induction is on the run: its first
command is a declaration, which is in front already, or lets all declarations behind it
pass. -/
theorem run_onFrame_declareAll {cs : List Command} {b : Builder}
    (h : ∀ r ∈ records cs b, r.outcome.isOk) :
    let declared := b.onFrame (b.frame.declareAll (declaredTypes cs))
    records (cs.filter (!·.isDeclaration)) declared =
        (records cs b).filter (!·.command.isDeclaration) ∧
      (run (cs.filter (!·.isDeclaration)) declared).2 = (run cs b).2 := by
  induction cs generalizing b with
  | nil =>
    refine ⟨rfl, ?_⟩
    simp [declaredTypes, onFrame, Frame.declareAll]
  | cons c cs ih =>
    obtain ⟨hok, hrest⟩ := List.forall_mem_cons.mp h
    obtain ⟨t, rfl⟩ | hc := c.eq_declareLocal_or_ne
    · have hframe : b.frame.declareAll (declaredTypes (declareLocal t :: cs)) =
          (b.declare t).frame.declareAll (declaredTypes cs) := b.frame.declareAll_cons t _
      rw [run_cons, hframe]
      exact ih hrest
    · have hgrow := b.frame.growsTo_declareAll (declaredTypes cs)
      obtain ⟨hrecord, hexec⟩ := exec_onFrame hc (admissible_of_isOk hc hok) hgrow
      obtain ⟨hrecords, hfinal⟩ := ih hrest
      rw [frame_exec hc, ← hexec] at hrecords hfinal
      rw [declaredTypes_cons_of_ne hc, List.filter_cons_of_pos (by simp [isDeclaration_of_ne hc])]
      refine ⟨?_, ?_⟩
      · rw [records, records, List.filter_cons_of_pos (by simp [isDeclaration_of_ne hc]), hrecord,
          hrecords]
      · rw [run_cons, run_cons, hfinal]

/-- A run in which nothing is refused stays free of refusals when its declarations are moved
to the front. Each command has the outcome that it had, so that each local gets the same
number, and appends the same instructions. The body at the end and the type on top are the
same. -/
theorem run_hoisted (args : Array Ty) (cs : List Command)
    (h : ∀ o ∈ (run cs (start args)).1, o.isOk) :
    (∀ o ∈ (run (hoisted cs) (start args)).1, o.isOk) ∧
      records (hoisted cs) (start args) =
        (records cs (start args)).filter (·.command.isDeclaration) ++
          (records cs (start args)).filter (!·.command.isDeclaration) ∧
      (run (hoisted cs) (start args)).2.finish = (run cs (start args)).2.finish ∧
      (run (hoisted cs) (start args)).2.top = (run cs (start args)).2.top := by
  rw [forall_outcomes_iff] at h ⊢
  have hfirst := records_declarations cs (start args)
  obtain ⟨hrest, hfinal⟩ := run_onFrame_declareAll h
  have hrecords : records (hoisted cs) (start args) =
      (records cs (start args)).filter (·.command.isDeclaration) ++
        (records cs (start args)).filter (!·.command.isDeclaration) := by
    rw [hoisted, filter_isDeclaration, records_append, run_declareLocal, hfirst, hrest]
  have hend : (run (hoisted cs) (start args)).2 = (run cs (start args)).2 := by
    rw [hoisted, filter_isDeclaration, run_append, run_declareLocal, hfinal]
  refine ⟨?_, hrecords, by rw [hend], by rw [hend]⟩
  rw [hrecords]
  intro r hr
  obtain hr | hr := List.mem_append.mp hr
  · exact h r (List.mem_filter.mp hr).1
  · exact h r (List.mem_filter.mp hr).1

/-- The load of the first local and the push between the declarations stay in their order and
the second local keeps its number. -/
theorem run_hoisted_of_late_declaration :
    let cs := [declareLocal .object, loadLocal 0, pushInt 9, declareLocal .int8, storeLocal 1]
    let hoisted := [declareLocal .object, declareLocal .int8, loadLocal 0, pushInt 9, storeLocal 1]
    (∀ o ∈ (run hoisted (start #[])).1, o.isOk) ∧
      (run hoisted (start #[])).1[1]? = some (.ok (some 1)) ∧
      (run hoisted (start #[])).2.finish = (run cs (start #[])).2.finish ∧
      (run hoisted (start #[])).2.top = (run cs (start #[])).2.top := by
  intro cs hoisted
  obtain ⟨hok, -, hfinish, htop⟩ := run_hoisted #[] cs (by decide)
  exact ⟨hok, rfl, hfinish, htop⟩

end Command
end Cil
