import Cil.Command
import Cil.Proofs.Emission

/-!
# What a command does to a builder

A command stands for a fixed list of instructions, `Command.instructions`, which does
not depend on the builder. Either the frame admits all of them, and then they are
entered one after the other, or the command is refused and nothing happens.
`Command.exec_cases` says so for every command. Nothing behind it looks into the operations
again: whatever is preserved by a declaration and by entering one well-formed instruction
is preserved by every run (`Command.run_invariant`). Most commands come down to emitting
one instruction, which is what `Command.emission?` gives.

`Builder.enter` is a plain function on builders, not a second way to append. That it is
what the operations do is part of the statements below. They are proved for every state that
operations can work on, and then read for builders.
-/

namespace Cil

namespace BuildState

variable {σ : Type} [BuildState σ]

/-- The state after one more instruction. The slot is looked up in the frame as it is. -/
def enter (s : σ) (i : Instruction) : σ :=
  append i (i.slotType? (frame s)) s

/-- The state after several more instructions. -/
def enterAll (s : σ) (is : List Instruction) : σ :=
  is.foldl enter s

@[simp] theorem frame_enter (s : σ) (i : Instruction) : frame (enter s i) = frame s :=
  frame_append i _ s

@[simp] theorem enterAll_nil (s : σ) : enterAll s [] = s := rfl

@[simp] theorem enterAll_cons (s : σ) (i : Instruction) (is : List Instruction) :
    enterAll s (i :: is) = enterAll (enter s i) is := rfl

theorem enterAll_append (s : σ) (is js : List Instruction) :
    enterAll s (is ++ js) = enterAll (enterAll s is) js := by
  simp [enterAll]

@[simp] theorem frame_enterAll (s : σ) (is : List Instruction) :
    frame (enterAll s is) = frame s := by
  induction is generalizing s with
  | nil => rfl
  | cons i is ih => rw [enterAll_cons, ih, frame_enter]

end BuildState

namespace Builder

/-- The builder after one more instruction. The slot is looked up in the frame as it is. -/
def enter (b : Builder) (i : Instruction) : Builder :=
  { b with code := b.code.push i, top := i.topAfter (i.slotType? b.frame) b.top }

/-- The builder after several more instructions. -/
def enterAll (b : Builder) (is : List Instruction) : Builder :=
  is.foldl enter b

/-- The builder after one more declaration. -/
def declare (b : Builder) (t : Ty) : Builder :=
  { b with frame := (b.frame.declareLocal t).2 }

@[simp] theorem frame_enter (b : Builder) (i : Instruction) : (b.enter i).frame = b.frame := rfl

@[simp] theorem code_enter (b : Builder) (i : Instruction) :
    (b.enter i).code = b.code.push i := rfl

@[simp] theorem code_declare (b : Builder) (t : Ty) : (b.declare t).code = b.code := rfl

@[simp] theorem top_declare (b : Builder) (t : Ty) : (b.declare t).top = b.top := rfl

@[simp] theorem enterAll_nil (b : Builder) : b.enterAll [] = b := rfl

@[simp] theorem enterAll_cons (b : Builder) (i : Instruction) (is : List Instruction) :
    b.enterAll (i :: is) = (b.enter i).enterAll is := rfl

theorem enterAll_append (b : Builder) (is js : List Instruction) :
    b.enterAll (is ++ js) = (b.enterAll is).enterAll js :=
  BuildState.enterAll_append b is js

@[simp] theorem frame_enterAll (b : Builder) (is : List Instruction) :
    (b.enterAll is).frame = b.frame :=
  BuildState.frame_enterAll b is

theorem toList_code_enterAll (b : Builder) (is : List Instruction) :
    (b.enterAll is).code.toList = b.code.toList ++ is := by
  induction is generalizing b with
  | nil => simp
  | cons i is ih => simp [ih]

theorem finish_enterAll (b : Builder) (is : List Instruction) :
    (b.enterAll is).finish = ⟨b.frame, .ofList (b.code.toList ++ is)⟩ := by
  have hcode : (b.enterAll is).code = .ofList (b.code.toList ++ is) :=
    Code.ext_toList (toList_code_enterAll b is)
  rw [← frame_enterAll b is, ← hcode]
  rfl

section Sequence

variable {σ α β : Type} {x : BuildOn σ α} {k : α → BuildOn σ β} {s s' : σ}

/-- A sequence goes on where its first part has succeeded. -/
theorem bind_of_ok {a : α} (h : x s = .ok a s') : (x >>= k) s = k a s' := by
  change EStateM.bind x k s = _
  rw [EStateM.bind, h]

/-- A sequence ends where its first part is refused. -/
theorem bind_of_error {e : Fault} (h : x s = .error e s') : (x >>= k) s = .error e s' := by
  change EStateM.bind x k s = _
  rw [EStateM.bind, h]

theorem discard_of_ok {a : α} (h : x s = .ok a s') :
    (discard x : BuildOn σ Unit) s = .ok () s' := by
  change EStateM.map _ x s = _
  rw [EStateM.map, h]

theorem discard_of_error {e : Fault} (h : x s = .error e s') :
    (discard x : BuildOn σ Unit) s = .error e s' := by
  change EStateM.map _ x s = _
  rw [EStateM.map, h]

end Sequence

/-- The loads of `count` arguments from `first` on. -/
def argLoads (first count : Nat) : List Instruction :=
  (List.range' first count).map fun index => (Action.loadArg index.toUInt32).shortest

theorem toNat_sub_one_of_lt {first stop : UInt32} (hlt : first < stop) :
    (stop - 1).toNat = stop.toNat - 1 := by
  have hlt' : first.toNat < stop.toNat := UInt32.lt_iff_toNat_lt.mp hlt
  rw [UInt32.toNat_sub_of_le _ _ (UInt32.le_iff_toNat_le.mpr (by simp; omega))]
  rfl

/-- The last of several arguments decides about all of them. -/
theorem wellFormed_argLoads_iff {first stop : UInt32} {f : Frame} (hlt : first < stop) :
    (∀ i ∈ argLoads first.toNat (stop.toNat - first.toNat), i.WellFormed f) ↔
      (Action.loadArg (stop - 1)).shortest.WellFormed f := by
  have hlt' : first.toNat < stop.toNat := UInt32.lt_iff_toNat_lt.mp hlt
  have hsize : stop.toNat < UInt32.size := stop.toNat_lt_size
  have hlast := toNat_sub_one_of_lt hlt
  constructor
  · intro h
    refine h _ (List.mem_map.mpr ⟨stop.toNat - 1, ?_, ?_⟩)
    · rw [List.mem_range'_1]
      omega
    · rw [← hlast]
      simp
  · intro h i hi
    obtain ⟨index, hindex, rfl⟩ := List.mem_map.mp hi
    have hrange := List.mem_range'_1.mp hindex
    refine Action.wellFormed_loadArg_of_le h ?_
    rw [hlast, Nat.toUInt32_eq, UInt32.toNat_ofNat_of_lt' (by omega)]
    omega

/-- What follows the load of the array of constants is at home in every frame. -/
theorem wellFormed_constant_tail (value : Int32) (t : Ty) (f : Frame) :
    ∀ i ∈ [(Action.pushInt value).shortest, .simple .ldelemRef, unboxing t], i.WellFormed f := by
  have hpush := Unchecked.wellFormed (σ := Builder) (.pushInt value) f
  have hldelem := Unchecked.wellFormed (σ := Builder) .element f
  have hunboxing := Unchecked.wellFormed (σ := Builder) (.unboxTo t) f
  simpa using ⟨hpush, hldelem, hunboxing⟩

end Builder

namespace BuildState

open Builder

variable {σ : Type} [BuildState σ]

theorem emit_of_wellFormed {i : Instruction} {s : σ} (h : i.WellFormed (frame s)) :
    emit i s = .ok () (enter s i) := by
  rw [emit, Instruction.check_eq_ok_iff.mpr ⟨h, rfl⟩]
  rfl

theorem emit_of_not_wellFormed {i : Instruction} {s : σ} (h : ¬ i.WellFormed (frame s)) :
    ∃ e, emit i s = .error e s := by
  cases hcheck : i.check (frame s) with
  | error e => exact ⟨e, by rw [emit, hcheck]⟩
  | ok slotType => exact absurd (Instruction.check_eq_ok_iff.mp hcheck).1 h

/-- Resolving a slot is a check that leaves the state alone. -/
theorem resolve_shortest_cases (a : Action) (s : σ) :
    (a.shortest.WellFormed (frame s) ∧ ∃ slotType, resolve a.shortest s = .ok slotType s) ∨
      (¬ a.shortest.WellFormed (frame s) ∧ ∃ e, resolve a.shortest s = .error e s) := by
  rw [resolve_apply]
  cases hresolve : a.shortest.resolve (frame s) with
  | error e =>
    refine .inr ⟨?_, e, rfl⟩
    intro h
    rw [(Instruction.resolve_eq_ok_iff a.operandKind?_shortest).mpr ⟨h, rfl⟩] at hresolve
    cases hresolve
  | ok slotType =>
    have h := (Instruction.resolve_eq_ok_iff a.operandKind?_shortest).mp hresolve
    exact .inl ⟨h.1, slotType, rfl⟩

/-- An operation enters these instructions where the frame admits all of them. Anywhere
else it is refused and leaves no trace. -/
def Enters (x : BuildOn σ Unit) (is : List Instruction) : Prop :=
  ∀ s, ((∀ i ∈ is, i.WellFormed (frame s)) ∧ x s = .ok () (enterAll s is)) ∨
    ((¬ ∀ i ∈ is, i.WellFormed (frame s)) ∧ ∃ e, x s = .error e s)

theorem enters_pure : Enters (pure () : BuildOn σ Unit) [] :=
  fun _ => .inl ⟨by simp, rfl⟩

theorem enters_emit (i : Instruction) : Enters (emit i : BuildOn σ Unit) [i] := by
  intro s
  by_cases h : i.WellFormed (frame s)
  · exact .inl ⟨by simpa using h, emit_of_wellFormed h⟩
  · exact .inr ⟨by simpa using h, emit_of_not_wellFormed h⟩

/-- The second of two operations must not fail once the first has succeeded, or the
instructions of the first would stay behind. -/
theorem Enters.seq {x y : BuildOn σ Unit} {is js : List Instruction} (hx : Enters x is)
    (hy : Enters y js) (hjs : ∀ f, ∀ j ∈ js, j.WellFormed f) :
    Enters (do x; y) (is ++ js) := by
  intro s
  obtain ⟨his, hok⟩ | ⟨his, e, herror⟩ := hx s
  · obtain ⟨-, hrest⟩ | ⟨hnot, -⟩ := hy (enterAll s is)
    · refine .inl ⟨?_, ?_⟩
      · intro i hi
        exact (List.mem_append.mp hi).elim (his i) (hjs (frame s) i)
      · rw [bind_of_ok hok, hrest, enterAll_append]
    · exact absurd (hjs _) hnot
  · refine .inr ⟨?_, e, bind_of_error herror⟩
    intro h
    exact his fun i hi => h i (List.mem_append_left js hi)

theorem loadArgsFrom_of_wellFormed {first : UInt32} {count : Nat} {s : σ}
    (hbound : first.toNat + count < UInt32.size)
    (h : ∀ i ∈ argLoads first.toNat count, i.WellFormed (frame s)) :
    loadArgsFrom first count s = .ok () (enterAll s (argLoads first.toNat count)) := by
  induction count generalizing first s with
  | zero => rfl
  | succ count ih =>
    have hnext : (first + 1).toNat = first.toNat + 1 := by
      rw [UInt32.toNat_add]
      exact Nat.mod_eq_of_lt (by simp only [UInt32.size] at hbound; simp; omega)
    have hloads : argLoads first.toNat (count + 1) =
        (Action.loadArg first).shortest :: argLoads (first + 1).toNat count := by
      simp [argLoads, List.range'_succ, hnext]
    rw [hloads, List.forall_mem_cons] at h
    have hfirst : loadArg first s = .ok () (enter s (Action.loadArg first).shortest) := by
      rw [loadArg, access_shortest, emit_of_wellFormed h.1]
    rw [hloads, enterAll_cons, loadArgsFrom, bind_of_ok hfirst]
    refine ih (by omega) ?_
    rw [frame_enter]
    exact h.2

theorem enters_loadArgs (first stop : UInt32) :
    Enters (loadArgs first stop : BuildOn σ Unit)
      (argLoads first.toNat (stop.toNat - first.toNat)) := by
  intro s
  by_cases hlt : first < stop
  · have hall := wellFormed_argLoads_iff hlt (f := frame s)
    have hbound : first.toNat + (stop.toNat - first.toNat) < UInt32.size := by
      rw [Nat.add_sub_of_le (Nat.le_of_lt (UInt32.lt_iff_toNat_lt.mp hlt))]
      exact stop.toNat_lt_size
    rw [loadArgs, if_pos hlt]
    obtain ⟨hlast, slotType, hok⟩ | ⟨hlast, e, herror⟩ :=
      resolve_shortest_cases (.loadArg (stop - 1)) s
    · have hrest := loadArgsFrom_of_wellFormed hbound (hall.mpr hlast)
      exact .inl ⟨hall.mpr hlast, (bind_of_ok (discard_of_ok hok)).trans hrest⟩
    · exact .inr ⟨mt hall.mp hlast, e, bind_of_error (discard_of_error herror)⟩
  · have hnone : stop.toNat - first.toNat = 0 := by
      rw [UInt32.lt_iff_toNat_lt] at hlt
      omega
    rw [loadArgs, if_neg hlt, hnone]
    exact enters_pure s

theorem enters_unchecked {x : BuildOn σ Unit} {i : Instruction} (h : Unchecked x i) :
    Enters x [i] := by
  rw [h.eq_emit]
  exact enters_emit i

theorem enters_selected {x : BuildOn σ Unit} {i : Instruction} (h : Selected x i) :
    Enters x [i] := by
  rw [h.eq_emit]
  exact enters_emit i

/-- Only the load of the array of constants can be refused, and it comes first. -/
theorem enters_loadConstant {index : UInt32} (hindex : index.toNat ≤ maxConstantIndex) (t : Ty) :
    Enters (loadConstant index t : BuildOn σ Unit)
      [(Action.loadArg 0).shortest, (Action.pushInt index.toInt32).shortest,
        .simple .ldelemRef, unboxing t] := by
  have hunbox := enters_unchecked (σ := σ) (.unboxTo t)
  have htail := wellFormed_constant_tail index.toInt32 t
  rw [loadConstant, if_pos hindex]
  refine (enters_selected (.loadArg 0)).seq ((enters_unchecked (.pushInt index.toInt32)).seq
    ((enters_unchecked .element).seq hunbox ?_) ?_) ?_
  · exact fun f i hi => htail f i (List.mem_cons_of_mem _ (List.mem_cons_of_mem _ hi))
  · exact fun f i hi => htail f i (List.mem_cons_of_mem _ hi)
  · exact htail

end BuildState

theorem Builder.emit_of_wellFormed {i : Instruction} {b : Builder} (h : i.WellFormed b.frame) :
    emit i b = .ok () (b.enter i) :=
  BuildState.emit_of_wellFormed h

namespace Command

open Builder BuildState

/-- What a command appends when it succeeds. -/
def instructions : Command → List Instruction
  | .declareLocal _ => []
  | .pushInt value => [(Action.pushInt value).shortest]
  | .loadArg index => [(Action.loadArg index).shortest]
  | .loadArgs first stop => argLoads first.toNat (stop.toNat - first.toNat)
  | .loadLocal index => [(Action.loadLocal index).shortest]
  | .storeLocal index => [(Action.storeLocal index).shortest]
  | .ret => [.simple .ret]
  | .emit i => [i]
  | .emitSimple opcode => [.simple opcode]
  | .loadNull => [.simple .ldnull]
  | .call member => [calling member]
  | .newObject member => [⟨.newobj, .ctor member⟩]
  | .newArray element => [⟨.newarr, .type element⟩]
  | .castTo ty => [⟨.castclass, .type ty⟩]
  | .unboxTo ty => [unboxing ty]
  | .boxFrom ty => if ty.isValueType then [⟨.box, .type ty⟩] else []
  | .loadConstant index ty =>
    [(Action.loadArg 0).shortest, (Action.pushInt index.toInt32).shortest,
      .simple .ldelemRef, unboxing ty]

/-- The one condition on a command that is not about its instructions. -/
def IndexFits : Command → Prop
  | .loadConstant index _ => index.toNat ≤ maxConstantIndex
  | _ => True

/-- The frame has everything that the command needs. -/
def Admissible (f : Frame) (c : Command) : Prop :=
  c.IndexFits ∧ ∀ i ∈ c.instructions, i.WellFormed f

/-- The instruction that a command emits, for the commands that come down to emitting
one. -/
def emission? : Command → Option Instruction
  | .declareLocal _ | .loadArgs _ _ | .loadConstant _ _ => none
  | c => c.instructions.head?

theorem instructions_of_emission? {c : Command} {i : Instruction} (h : c.emission? = some i) :
    c.instructions = [i] := by
  cases c with
  | declareLocal t => cases h
  | loadArgs first stop => cases h
  | loadConstant index ty => cases h
  | boxFrom ty =>
    simp only [emission?, instructions] at h ⊢
    split at h <;> simp_all
  | _ => cases h; rfl

section State

variable {σ : Type} [BuildState σ]

/-- These commands do what the checked entry does with their instruction, also those that
skip some of the checks. -/
theorem perform_of_emission? {c : Command} {i : Instruction} (h : c.emission? = some i) :
    c.perform (σ := σ) = perform.quiet (Builder.emit i) := by
  cases c with
  | declareLocal t => cases h
  | loadArgs first stop => cases h
  | loadConstant index ty => cases h
  | emit j => cases h; rfl
  | emitSimple opcode => cases h; rfl
  | boxFrom ty =>
    simp only [emission?, instructions] at h
    by_cases hvalue : ty.isValueType = true
    · rw [if_pos hvalue] at h
      cases h
      exact congrArg perform.quiet (Unchecked.boxFrom ty hvalue).eq_emit
    · rw [if_neg hvalue] at h
      cases h
  | loadArg index => cases h; exact congrArg perform.quiet (Selected.loadArg index).eq_emit
  | loadLocal index => cases h; exact congrArg perform.quiet (Selected.loadLocal index).eq_emit
  | storeLocal index => cases h; exact congrArg perform.quiet (Selected.storeLocal index).eq_emit
  | pushInt value => cases h; exact congrArg perform.quiet (Unchecked.pushInt value).eq_emit
  | ret => cases h; exact congrArg perform.quiet Unchecked.ret.eq_emit
  | loadNull => cases h; exact congrArg perform.quiet Unchecked.loadNull.eq_emit
  | call member => cases h; exact congrArg perform.quiet (Unchecked.call member).eq_emit
  | newObject member => cases h; exact congrArg perform.quiet (Unchecked.newObject member).eq_emit
  | newArray element => cases h; exact congrArg perform.quiet (Unchecked.newArray element).eq_emit
  | castTo ty => cases h; exact congrArg perform.quiet (Unchecked.castTo ty).eq_emit
  | unboxTo ty => cases h; exact congrArg perform.quiet (Unchecked.unboxTo ty).eq_emit

/-- Every command other than a declaration enters its instructions. -/
theorem perform_enters {c : Command} (hc : ∀ t, c ≠ .declareLocal t) (hindex : c.IndexFits) :
    ∃ x : BuildOn σ Unit, c.perform = perform.quiet x ∧ Enters x c.instructions := by
  cases hemission : c.emission? with
  | some i =>
    refine ⟨Builder.emit i, perform_of_emission? hemission, ?_⟩
    rw [instructions_of_emission? hemission]
    exact enters_emit i
  | none =>
    cases c with
    | declareLocal t => exact absurd rfl (hc t)
    | loadArgs first stop => exact ⟨_, rfl, enters_loadArgs first stop⟩
    | loadConstant index ty => exact ⟨_, rfl, enters_loadConstant hindex ty⟩
    | boxFrom ty =>
      have hempty : (boxFrom ty).instructions = [] := List.head?_eq_none_iff.mp hemission
      have hvalue : ¬ ty.isValueType = true := by
        intro h
        simp [instructions, h] at hempty
      refine ⟨_, rfl, ?_⟩
      rw [hempty, Builder.boxFrom, if_neg hvalue]
      exact enters_pure
    | _ => cases hemission

theorem exec_of_not_indexFits {c : Command} (hindex : ¬ c.IndexFits) (s : σ) :
    ∃ e, c.exec s = (.error e, s) := by
  cases c with
  | loadConstant index ty =>
    have hlarge : ¬ index.toNat ≤ maxConstantIndex := hindex
    have hthrow : Builder.loadConstant index ty s = .error (.slotTooWide .ldcWord index) s := by
      rw [Builder.loadConstant, if_neg hlarge]
      rfl
    exact ⟨_, by rw [exec, perform, perform.quiet, bind_of_error hthrow]⟩
  | _ => exact absurd trivial hindex

theorem eq_declareLocal_or_ne (c : Command) :
    (∃ t, c = .declareLocal t) ∨ ∀ t, c ≠ .declareLocal t := by
  cases c <;> simp

/-- Everything that a command can do: declare a local, enter its instructions because the
frame admits them, or be refused and leave the state as it was. -/
theorem exec_cases_on (c : Command) (s : σ) :
    (∃ t, c = .declareLocal t ∧
      c.exec s = (.ok (some (BuildState.declareLocal t s).1), (BuildState.declareLocal t s).2)) ∨
    (c.Admissible (frame s) ∧ c.exec s = (.ok none, enterAll s c.instructions)) ∨
    (¬ c.Admissible (frame s) ∧ ∃ e, c.exec s = (.error e, s)) := by
  obtain ⟨t, rfl⟩ | hc := c.eq_declareLocal_or_ne
  · exact .inl ⟨t, rfl, rfl⟩
  refine .inr ?_
  by_cases hindex : c.IndexFits
  · obtain ⟨x, hperform, hx⟩ := perform_enters (σ := σ) hc hindex
    obtain ⟨hall, hok⟩ | ⟨hall, e, herror⟩ := hx s
    · refine .inl ⟨⟨hindex, hall⟩, ?_⟩
      rw [exec, hperform, perform.quiet, bind_of_ok hok]
      rfl
    · refine .inr ⟨fun h => hall h.2, e, ?_⟩
      rw [exec, hperform, perform.quiet, bind_of_error herror]
  · exact .inr ⟨fun h => hindex h.1, exec_of_not_indexFits hindex s⟩

theorem exec_of_admissible_on {c : Command} {s : σ} (hc : ∀ t, c ≠ .declareLocal t)
    (h : c.Admissible (frame s)) : c.exec s = (.ok none, enterAll s c.instructions) := by
  obtain ⟨t, ht, -⟩ | ⟨-, hexec⟩ | ⟨hnot, -⟩ := c.exec_cases_on s
  · exact absurd ht (hc t)
  · exact hexec
  · exact absurd h hnot

end State

/-- Everything that a command can do to a builder. -/
theorem exec_cases (c : Command) (b : Builder) :
    (∃ t, c = .declareLocal t ∧
      c.exec b = (.ok (some b.frame.locals.count.toUInt32), b.declare t)) ∨
    (c.Admissible b.frame ∧ c.exec b = (.ok none, b.enterAll c.instructions)) ∨
    (¬ c.Admissible b.frame ∧ ∃ e, c.exec b = (.error e, b)) :=
  c.exec_cases_on b

@[simp] theorem exec_declareLocal (t : Ty) (b : Builder) :
    (declareLocal t).exec b = (.ok (some b.frame.locals.count.toUInt32), b.declare t) := rfl

theorem exec_of_admissible {c : Command} {b : Builder} (hc : ∀ t, c ≠ .declareLocal t)
    (h : c.Admissible b.frame) : c.exec b = (.ok none, b.enterAll c.instructions) :=
  exec_of_admissible_on hc h

section Invariant

variable {σ : Type} [BuildState σ] {P : σ → Prop}
  (declare : ∀ s t, P s → P (BuildState.declareLocal t s).2)
  (enter : ∀ s i, i.WellFormed (frame s) → P s → P (BuildState.enter s i))

include enter in
theorem enterAll_invariant {is : List Instruction} {s : σ}
    (his : ∀ i ∈ is, i.WellFormed (frame s)) (h : P s) : P (enterAll s is) := by
  induction is generalizing s with
  | nil => exact h
  | cons i is ih =>
    rw [List.forall_mem_cons] at his
    refine ih ?_ (enter s i his.1 h)
    rw [BuildState.frame_enter]
    exact his.2

include declare enter in
theorem exec_invariant (c : Command) {s : σ} (h : P s) : P (c.exec s).2 := by
  obtain ⟨t, -, hexec⟩ | ⟨hadmissible, hexec⟩ | ⟨-, e, hexec⟩ := c.exec_cases_on s
  · rw [hexec]
    exact declare s t h
  · rw [hexec]
    exact enterAll_invariant enter hadmissible.2 h
  · rw [hexec]
    exact h

include declare enter in
/-- What a declaration and the entry of a well-formed instruction preserve holds at the
end of every run. -/
theorem run_invariant (cs : List Command) {s : σ} (h : P s) : P (run cs s).2 := by
  induction cs generalizing s with
  | nil => exact h
  | cons c cs ih =>
    rw [run_cons]
    exact ih (exec_invariant declare enter c h)

end Invariant

end Command
end Cil
