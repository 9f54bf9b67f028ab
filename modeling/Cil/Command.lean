import Cil.Builder

/-!
# Commands to a builder

Every operation of a builder as a value. A run is a list of commands; a command that
fails does not end it, and each command has an outcome of its own.
-/

namespace Cil

inductive Command where
  | declareLocal (ty : Ty)
  | pushInt (value : Int32)
  | loadArg (index : UInt32)
  | loadArgs (first stop : UInt32)
  | loadLocal (index : UInt32)
  | storeLocal (index : UInt32)
  | ret
  | emit (i : Instruction)
  | emitSimple (opcode : Opcode)
  | loadNull
  | call (member : Method)
  | newObject (member : Ctor)
  | newArray (element : Ty)
  | castTo (ty : Ty)
  | unboxTo (ty : Ty)
  | boxFrom (ty : Ty)
  | loadConstant (index : UInt32) (ty : Ty)
  deriving DecidableEq, Repr

/-- The slot number that a declaration gives, and nothing for any other command; or
why the command was refused. -/
abbrev Outcome := Except Fault (Option UInt32)

namespace Command

variable {σ : Type} [BuildState σ]

/-- The operation that a command stands for. -/
def perform : Command → BuildOn σ (Option UInt32)
  | .declareLocal ty => some <$> Builder.declareLocal ty
  | .pushInt value => quiet (Builder.pushInt value)
  | .loadArg index => quiet (Builder.loadArg index)
  | .loadArgs first stop => quiet (Builder.loadArgs first stop)
  | .loadLocal index => quiet (Builder.loadLocal index)
  | .storeLocal index => quiet (Builder.storeLocal index)
  | .ret => quiet Builder.ret
  | .emit i => quiet (Builder.emit i)
  | .emitSimple opcode => quiet (Builder.emitSimple opcode)
  | .loadNull => quiet Builder.loadNull
  | .call member => quiet (Builder.call member)
  | .newObject member => quiet (Builder.newObject member)
  | .newArray element => quiet (Builder.newArray element)
  | .castTo ty => quiet (Builder.castTo ty)
  | .unboxTo ty => quiet (Builder.unboxTo ty)
  | .boxFrom ty => quiet (Builder.boxFrom ty)
  | .loadConstant index ty => quiet (Builder.loadConstant index ty)
where
  /-- An operation without a result. -/
  quiet (x : BuildOn σ Unit) : BuildOn σ (Option UInt32) := do
    x
    return none

/-- Carry out one command, whatever its outcome. -/
def exec (c : Command) (s : σ) : Outcome × σ :=
  match c.perform s with
  | .ok index s => (.ok index, s)
  | .error e s => (.error e, s)

/-- Carry out commands in order, adding to the outcomes of earlier ones. -/
def runOnto (outcomes : Array Outcome) (s : σ) : List Command → Array Outcome × σ
  | [] => (outcomes, s)
  | c :: cs =>
    let (outcome, s) := c.exec s
    runOnto (outcomes.push outcome) s cs

/-- Carry out commands in order. -/
def run (cs : List Command) (s : σ) : Array Outcome × σ :=
  runOnto #[] s cs

theorem runOnto_cons (outcomes : Array Outcome) (s : σ) (c : Command) (cs : List Command) :
    runOnto outcomes s (c :: cs) = runOnto (outcomes.push (c.exec s).1) (c.exec s).2 cs := rfl

/-- Earlier outcomes stay in front and decide nothing. -/
theorem runOnto_eq (outcomes : Array Outcome) (s : σ) (cs : List Command) :
    runOnto outcomes s cs = (outcomes ++ (run cs s).1, (run cs s).2) := by
  induction cs generalizing outcomes s with
  | nil => simp [run, runOnto]
  | cons c cs ih =>
    rw [run, runOnto_cons, runOnto_cons, ih, ih (#[].push (c.exec s).1)]
    simp

@[simp] theorem run_nil (s : σ) : run [] s = (#[], s) := rfl

@[simp] theorem run_cons (c : Command) (cs : List Command) (s : σ) :
    run (c :: cs) s = (#[(c.exec s).1] ++ (run cs (c.exec s).2).1, (run cs (c.exec s).2).2) := by
  rw [run, runOnto_cons, runOnto_eq]
  rfl

theorem run_append (cs ds : List Command) (s : σ) :
    run (cs ++ ds) s =
      ((run cs s).1 ++ (run ds (run cs s).2).1, (run ds (run cs s).2).2) := by
  induction cs generalizing s with
  | nil => simp
  | cons c cs ih => simp [ih]

theorem size_run (cs : List Command) (s : σ) : (run cs s).1.size = cs.length := by
  induction cs generalizing s with
  | nil => rfl
  | cons c cs ih => simp [ih, Nat.add_comm]

end Command
end Cil
