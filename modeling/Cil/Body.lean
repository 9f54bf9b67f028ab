import Cil.Code
import Cil.Frame

/-!
# Method bodies and their receivers

A finished body is a frame and the code over it. It is handed over as a sequence of
events: first every local in the order of the slots, then every instruction. A sink
receives the events one at a time. It keeps a state of its own and may refuse an
event, and the first refusal ends the hand-over.

The recorder is a sink that keeps the locals and the text of the instructions that
it has accepted. It can be told to refuse the local or the instruction that comes
after a given number of accepted ones, which is how the behaviour of a hand-over
under refusal is observed.
-/

namespace Cil

/-- A finished method body. -/
structure Body where
  frame : Frame
  code : Code := .empty
  deriving DecidableEq, Repr

/-- One step of handing a body over. -/
inductive Event where
  | declare (index : UInt32) (ty : Ty)
  | instruction (i : Instruction)
  deriving DecidableEq, Repr

/-- The announcements of locals of these types, of which the first is to have this number. -/
def Event.announcements (ts : List Ty) (first : Nat) : List Event :=
  (ts.zipIdx first).map fun (t, n) => .declare n.toUInt32 t

/-- A receiver of bodies with state `σ` that refuses with an `ε`. The state that it
had when it refused remains visible. -/
abbrev Sink (ε σ : Type) := Event → EStateM ε σ Unit

namespace Body

/-- The declarations of the locals, in the order of the slots. -/
def declarations (b : Body) : List Event :=
  Event.announcements b.frame.locals.types.toList 0

/-- Everything a sink is told about a body, in order. -/
def events (b : Body) : List Event :=
  b.declarations ++ b.code.toList.map .instruction

/-- Hand a body over, first the locals and then the code, up to the first event that the
sink refuses. -/
def replay {ε σ : Type} (b : Body) (sink : Sink ε σ) : EStateM ε σ Unit := do
  b.frame.locals.types.toList.zipIdx.forM fun (t, n) => sink (.declare n.toUInt32 t)
  b.code.toList.forM fun i => sink (.instruction i)

/-- The two passes are one over all events. -/
theorem replay_eq_forM_events {ε σ : Type} (b : Body) (sink : Sink ε σ) :
    b.replay sink = b.events.forM sink := by
  simp only [replay, events, declarations, Event.announcements, List.forM_eq_forM,
    List.forM_append, List.forM_map]

theorem length_declarations (b : Body) : b.declarations.length = b.frame.locals.count := by
  simp [declarations, Event.announcements, Locals.count]

theorem length_events (b : Body) :
    b.events.length = b.frame.locals.count + b.code.length := by
  simp [events, length_declarations, Code.length_toList]

end Body

/-- What has been accepted so far. -/
structure Recorder where
  locals : Array (UInt32 × Ty) := #[]
  lines : Array String := #[]
  deriving DecidableEq, Repr

namespace Recorder

/-- How many locals and how many instructions are accepted before one is refused;
without a number, all of them. -/
structure Limits where
  locals : Option Nat := none
  lines : Option Nat := none
  deriving DecidableEq, Repr

/-- The event that was refused. -/
inductive Refusal where
  | declare (index : UInt32)
  | instruction (i : Instruction)
  deriving DecidableEq, Repr

def Refusal.message : Refusal → String
  | .declare index => "rejected local " ++ toString index.toNat
  | .instruction i => "rejected " ++ i.text

def empty : Recorder := {}

/-- Accept events within the limits. -/
def sink (limits : Limits) : Sink Refusal Recorder
  | .declare index ty => fun r =>
    if limits.locals = some r.locals.size then .error (.declare index) r
    else .ok () { r with locals := r.locals.push (index, ty) }
  | .instruction i => fun r =>
    if limits.lines = some r.lines.size then .error (.instruction i) r
    else .ok () { r with lines := r.lines.push i.text }

end Recorder
end Cil
