import Cil.Proofs.Effect
import Cil.Proofs.Layout

/-!
# Builders only grow

Nothing that a command does is ever taken back. Between two moments of a run the frame
keeps its arguments and its locals, the code is continued, and a type on top is never
forgotten (`Builder.Extends`). What is computed from the code afresh each time, its
offsets, its listing and its size, is continued with it.

The locals of a run are the types of its declarations in order (`Command.locals_run`).
So a declaration returns the number of declarations before it, as long as that number
fits 32 bits, and the slot that it returns has the declared type ever after.
-/

namespace Cil

namespace Builder

/-- `c` is what `b` can become. -/
structure Extends (b c : Builder) : Prop where
  frame : b.frame.GrowsTo c.frame
  code : b.code.toList <+: c.code.toList
  top : b.top.isSome → c.top.isSome

variable {b c : Builder}

theorem Extends.refl (b : Builder) : b.Extends b :=
  ⟨.refl b.frame, List.prefix_rfl, id⟩

theorem Extends.declare (h : b.Extends c) (t : Ty) : b.Extends (c.declare t) where
  frame := h.frame.trans (c.frame.growsTo_declareLocal t)
  code := h.code
  top := h.top

theorem Extends.enter (h : b.Extends c) (i : Instruction) : b.Extends (c.enter i) where
  frame := h.frame
  code := by
    rw [code_enter, Code.toList_push]
    exact h.code.trans (List.prefix_append _ _)
  top := by
    -- An instruction that pushes nothing known leaves the note as it was.
    intro hb
    change ((i.pushed? (i.slotType? c.frame)).or c.top).isSome
    rw [Option.isSome_or, h.top hb, Bool.or_true]

end Builder

namespace Command

open Builder

/-- A run extends the builder that it starts with. -/
theorem extends_run (cs : List Command) (b : Builder) : b.Extends (run cs b).2 :=
  run_invariant (fun _ t h => h.declare t) (fun _ i _ h => h.enter i) cs (.refl b)

/-- The type that a command declares a local of. -/
def declared? : Command → Option Ty
  | .declareLocal t => some t
  | _ => none

/-- The types that the declarations among some commands declare, in order. -/
def declaredTypes (cs : List Command) : List Ty :=
  cs.filterMap declared?

theorem declared?_eq_none {c : Command} (hc : ∀ t, c ≠ .declareLocal t) : c.declared? = none := by
  cases c with
  | declareLocal t => exact absurd rfl (hc t)
  | _ => rfl

/-- Only a declaration changes the frame. -/
theorem frame_exec {c : Command} (hc : ∀ t, c ≠ .declareLocal t) (b : Builder) :
    (c.exec b).2.frame = b.frame := by
  obtain ⟨t, ht, -⟩ | ⟨-, hexec⟩ | ⟨-, e, hexec⟩ := c.exec_cases b
  · exact absurd ht (hc t)
  · rw [hexec, frame_enterAll]
  · rw [hexec]

theorem locals_exec (c : Command) (b : Builder) :
    (c.exec b).2.frame.locals.types.toList =
      b.frame.locals.types.toList ++ c.declared?.toList := by
  obtain ⟨t, rfl⟩ | hc := c.eq_declareLocal_or_ne
  · exact Locals.types_declare b.frame.locals t
  · rw [frame_exec hc, declared?_eq_none hc]
    simp

theorem locals_run (cs : List Command) (b : Builder) :
    (run cs b).2.frame.locals.types.toList =
      b.frame.locals.types.toList ++ declaredTypes cs := by
  induction cs generalizing b with
  | nil => simp [declaredTypes]
  | cons c cs ih =>
    rw [run_cons, ih, locals_exec, List.append_assoc, declaredTypes, declaredTypes]
    cases hdeclared : c.declared? <;> simp [hdeclared]

theorem count_run_start (cs : List Command) (args : Array Ty) :
    (run cs (start args)).2.frame.locals.count = (declaredTypes cs).length := by
  have h := congrArg List.length (locals_run cs (start args))
  simpa [start, Locals.empty, Locals.count] using h

/-- Where a declaration stands in a run, its outcome is the number of locals at that
moment. -/
theorem outcome_declareLocal (before after : List Command) (t : Ty) (b : Builder) :
    (run (before ++ .declareLocal t :: after) b).1[before.length]? =
      some (.ok (some (run before b).2.frame.locals.count.toUInt32)) := by
  rw [run_append, run_cons, exec_declareLocal, ← size_run before b,
    Array.getElem?_append_right (Nat.le_refl _), Nat.sub_self]
  exact Array.getElem?_append_left Nat.zero_lt_one

/-- A declaration has returned how many declarations came before it, and at any later moment
the local of that number has the declared type. -/
theorem slot_declareLocal {args : Array Ty} {before after later : List Command} {t : Ty}
    (hbound : (declaredTypes (before ++ .declareLocal t :: after ++ later)).length ≤ UInt32.size) :
    ∃ slot, (run (before ++ .declareLocal t :: after) (start args)).1[before.length]? =
        some (.ok (some slot)) ∧
      slot.toNat = (declaredTypes before).length ∧
      (run (before ++ .declareLocal t :: after ++ later) (start args)).2.frame.locals.typeOf slot =
        .ok t := by
  have htypes := locals_run (before ++ .declareLocal t :: after ++ later) (start args)
  have hdeclared : declaredTypes (before ++ .declareLocal t :: after ++ later) =
      declaredTypes before ++ t :: (declaredTypes after ++ declaredTypes later) := by
    simp [declaredTypes, declared?]
  rw [hdeclared] at htypes hbound
  have hfits : (declaredTypes before).length < UInt32.size := by
    simp only [List.length_append, List.length_cons] at hbound
    omega
  have hslot : (declaredTypes before).length.toUInt32.toNat = (declaredTypes before).length :=
    UInt32.toNat_ofNat_of_lt' hfits
  refine ⟨(declaredTypes before).length.toUInt32, ?_, hslot, ?_⟩
  · rw [outcome_declareLocal, count_run_start]
  · rw [Locals.typeOf, hslot, ← Array.getElem?_toList, htypes]
    simp [start, Locals.empty]

/-- Take two moments of a run from a fresh builder, with the commands `before` behind the
first and `before ++ between` behind the second. Arguments stay the same; locals, code,
offsets and listing at the first moment are what they begin with at the second; the size
does not shrink and a type on top is not forgotten. Each declaration before the first moment
has returned the number of declarations before it, which is the number of a local of that
type at the second. -/
theorem run_append_only (args : Array Ty) (before between : List Command)
    (hbound : (run (before ++ between) (start args)).2.frame.locals.count ≤ UInt32.size) :
    let p := (run before (start args)).2
    let q := (run (before ++ between) (start args)).2
    (p.frame.args = args ∧ q.frame.args = args) ∧
    p.frame.locals.types.toList <+: q.frame.locals.types.toList ∧
    p.code.toList <+: q.code.toList ∧
    p.code.offsets <+: q.code.offsets ∧
    (∃ rest, q.code.listing = p.code.listing ++ rest) ∧
    p.code.byteSize ≤ q.code.byteSize ∧
    (p.top.isSome → q.top.isSome) ∧
    ∀ xs t ys, before = xs ++ .declareLocal t :: ys →
      ∃ slot, (run before (start args)).1[xs.length]? = some (.ok (some slot)) ∧
        slot.toNat = (declaredTypes xs).length ∧ q.frame.locals.typeOf slot = .ok t := by
  intro p q
  have hp : (start args).Extends p := extends_run before _
  have hq : p.Extends q := by
    simp only [q, run_append]
    exact extends_run between p
  refine ⟨⟨hp.frame.args, hq.frame.args.trans hp.frame.args⟩, hq.frame.locals, hq.code,
    Code.offsets_prefix hq.code, Code.exists_listing_eq_append hq.code,
    Code.byteSize_le_of_prefix hq.code, hq.top, ?_⟩
  rintro xs t ys rfl
  apply slot_declareLocal
  rw [← count_run_start]
  exact hbound

/-- The second local is declared after code that uses the first, and between the two moments
a load is refused. -/
theorem run_append_only_of_two_locals :
    let before : List Command := [.declareLocal .object, .loadLocal 0, .declareLocal .int8]
    let between : List Command := [.loadArg 7, .pushInt 200, .storeLocal 1, .declareLocal .string]
    let p := (run before (start #[])).2
    let q := (run (before ++ between) (start #[])).2
    (p.code.offsets <+: q.code.offsets ∧ q.code.offsets = [0, 1, 6]) ∧
      (∃ rest, q.code.listing = p.code.listing ++ rest) ∧
      (p.top.isSome → q.top.isSome) ∧
      ∃ slot, (run before (start #[])).1[2]? = some (.ok (some slot)) ∧ slot.toNat = 1 ∧
        q.frame.locals.typeOf slot = .ok .int8 := by
  intro before between p q
  obtain ⟨-, -, -, hoffsets, hlisting, -, htop, hslots⟩ :=
    run_append_only #[] before between (by decide)
  exact ⟨⟨hoffsets, by decide⟩, hlisting, htop,
    hslots [.declareLocal .object, .loadLocal 0] .int8 [] rfl⟩

end Command
end Cil
