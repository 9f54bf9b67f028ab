import Cil.Body

/-!
# What a sink is told

Whether a sink accepts an event depends on the event and on the state that earlier events
have left it in. `Sink.Accepts` follows the states along a list of accepted events, and
`Sink.Refuses` says that the event behind such a list is refused. Neither mentions the
hand-over. Of any list of events either all are accepted or exactly one is refused in this
sense, because nothing is accepted behind a refused event.

To speak of the events that a sink is told, and not only of what it makes of them, the sink
is given a log (`Sink.logged`). It acts on its own state as it did before. With that, a
hand-over is known completely: it tells the sink the events of the body up to the first that
is refused, this one included, and none behind it.
-/

namespace Cil

variable {ε σ : Type}

namespace Sink

/-- The sink accepts the events one after the other and is led from one state to another. -/
inductive Accepts (sink : Sink ε σ) : σ → List Event → σ → Prop where
  | nil (s : σ) : Accepts sink s [] s
  | cons {event : Event} {es : List Event} {s t u : σ} (first : sink event s = .ok () t)
      (rest : Accepts sink t es u) : Accepts sink s (event :: es) u

/-- The sink accepts what is in front of the event and then refuses the event. -/
def Refuses (sink : Sink ε σ) (s : σ) (front : List Event) (event : Event) (err : ε) (u : σ) :
    Prop :=
  ∃ t, sink.Accepts s front t ∧ sink event t = .error err u

/-- Either everything is accepted or the acceptance ends at some event. -/
theorem accepts_or_refuses (sink : Sink ε σ) (s : σ) (es : List Event) :
    (∃ t, sink.Accepts s es t) ∨
      ∃ front event back err u, es = front ++ event :: back ∧
        sink.Refuses s front event err u := by
  induction es generalizing s with
  | nil => exact .inl ⟨s, .nil s⟩
  | cons event es ih =>
    cases hfirst : sink event s with
    | error err u => exact .inr ⟨[], event, es, err, u, rfl, s, .nil s, hfirst⟩
    | ok value t =>
      obtain ⟨u, hrest⟩ | ⟨front, later, back, err, u, rfl, v, hfront, hlater⟩ := ih t
      · exact .inl ⟨u, .cons hfirst hrest⟩
      · exact .inr ⟨event :: front, later, back, err, u, rfl, v, .cons hfirst hfront, hlater⟩

variable {sink : Sink ε σ} {s t u : σ} {front back : List Event} {event : Event} {err : ε}

theorem forM_cons_of_ok (h : sink event s = .ok () t) (back : List Event) :
    (event :: back).forM sink s = back.forM sink t := by
  change EStateM.bind (sink event) (fun _ => back.forM sink) s = _
  rw [EStateM.bind, h]

theorem forM_cons_of_error (h : sink event s = .error err u) (back : List Event) :
    (event :: back).forM sink s = .error err u := by
  change EStateM.bind (sink event) (fun _ => back.forM sink) s = _
  rw [EStateM.bind, h]

/-- Behind accepted events the hand-over goes on from the state they lead to. -/
theorem Accepts.forM_append (h : sink.Accepts s front t) (back : List Event) :
    (front ++ back).forM sink s = back.forM sink t := by
  induction h with
  | nil s => rfl
  | @cons event es s t u first _ ih => exact (forM_cons_of_ok first (es ++ back)).trans ih

theorem Accepts.forM_eq (h : sink.Accepts s front t) : front.forM sink s = .ok () t := by
  have hforM := h.forM_append []
  rw [List.append_nil] at hforM
  exact hforM

/-- Behind a refused event the hand-over does not go on. -/
theorem Refuses.forM_eq (h : sink.Refuses s front event err u) (back : List Event) :
    (front ++ event :: back).forM sink s = .error err u := by
  obtain ⟨t, hfront, hevent⟩ := h
  exact (hfront.forM_append (event :: back)).trans (forM_cons_of_error hevent back)

/-- The same sink with a log of everything that it is told, be it accepted or refused. -/
def logged (sink : Sink ε σ) : Sink ε (σ × List Event) := fun event (s, log) =>
  match sink event s with
  | .ok () t => .ok () (t, log ++ [event])
  | .error err u => .error err (u, log ++ [event])

theorem logged_of_ok (h : sink event s = .ok () t) (log : List Event) :
    sink.logged event (s, log) = .ok () (t, log ++ [event]) := by
  rw [logged, h]

theorem logged_of_error (h : sink event s = .error err u) (log : List Event) :
    sink.logged event (s, log) = .error err (u, log ++ [event]) := by
  rw [logged, h]

theorem Accepts.logged (h : sink.Accepts s front t) (log : List Event) :
    sink.logged.Accepts (s, log) front (t, log ++ front) := by
  induction h generalizing log with
  | nil s => simpa using Accepts.nil (s, log)
  | @cons event es s t u first _ ih =>
    have hrest := ih (log ++ [event])
    rw [List.append_assoc] at hrest
    exact .cons (logged_of_ok first log) hrest

theorem Refuses.logged (h : sink.Refuses s front event err u) :
    sink.logged.Refuses (s, []) front event err (u, front ++ [event]) := by
  obtain ⟨t, hfront, hevent⟩ := h
  exact ⟨(t, front), hfront.logged [], logged_of_error hevent front⟩

end Sink

namespace Body

/-- A local is declared with its own number, as long as that fits into 32 bits. -/
theorem getElem?_events_declare {b : Body} (hcount : b.frame.locals.count ≤ UInt32.size) {k : Nat}
    {t : Ty} (h : b.frame.locals.types[k]? = some t) :
    ∃ index : UInt32, index.toNat = k ∧ b.events[k]? = some (.declare index t) := by
  have hk : k < b.frame.locals.types.size := (Array.getElem?_eq_some_iff.mp h).1
  have hlength : k < b.declarations.length := by rwa [length_declarations]
  refine ⟨k.toUInt32, UInt32.toNat_ofNat_of_lt' (Nat.lt_of_lt_of_le hk hcount), ?_⟩
  rw [events, List.getElem?_append_left hlength]
  simp [declarations, Event.announcements, List.getElem?_zipIdx, h]

theorem getElem?_events_instruction {b : Body} {k : Nat} {i : Instruction}
    (h : b.code.toList[k]? = some i) :
    b.events[b.frame.locals.count + k]? = some (.instruction i) := by
  have hlength : b.declarations.length = b.frame.locals.count := b.length_declarations
  rw [events, List.getElem?_append_right (by omega), hlength]
  simp [h]

/-- The events that the sink is told when the body is handed over to it. -/
def told (b : Body) (sink : Sink ε σ) (s : σ) : List Event :=
  match b.replay sink.logged (s, []) with
  | .ok _ (_, log) => log
  | .error _ (_, log) => log

variable {b : Body} {sink : Sink ε σ} {s t u : σ} {front back : List Event} {event : Event}
  {err : ε}

theorem replay_of_accepts (h : sink.Accepts s b.events t) : b.replay sink s = .ok () t := by
  rw [replay_eq_forM_events]
  exact h.forM_eq

theorem told_of_accepts (h : sink.Accepts s b.events t) : b.told sink s = b.events := by
  rw [told, replay_of_accepts (h.logged [])]
  rfl

theorem replay_of_refuses (hevents : b.events = front ++ event :: back)
    (h : sink.Refuses s front event err u) : b.replay sink s = .error err u := by
  rw [replay_eq_forM_events, hevents]
  exact h.forM_eq back

theorem told_of_refuses (hevents : b.events = front ++ event :: back)
    (h : sink.Refuses s front event err u) : b.told sink s = front ++ [event] := by
  rw [told, replay_of_refuses hevents h.logged]

theorem told_prefix_events (b : Body) (sink : Sink ε σ) (s : σ) : b.told sink s <+: b.events := by
  obtain ⟨t, haccepts⟩ | ⟨front, event, back, err, u, hevents, hrefuses⟩ :=
    sink.accepts_or_refuses s b.events
  · exact ⟨[], by rw [told_of_accepts haccepts, List.append_nil]⟩
  · exact ⟨back, by simp [told_of_refuses hevents hrefuses, hevents]⟩

/-- The hand-over is complete exactly if there is nothing to refuse. -/
theorem replay_complete_iff (b : Body) (sink : Sink ε σ) (s : σ) :
    (b.told sink s = b.events ∧ ∃ t, b.replay sink s = .ok () t) ↔
      ¬ ∃ front event back err u, b.events = front ++ event :: back ∧
        sink.Refuses s front event err u := by
  constructor
  · rintro ⟨-, t, hok⟩ ⟨front, event, back, err, u, hevents, hrefuses⟩
    rw [replay_of_refuses hevents hrefuses] at hok
    cases hok
  · intro hnone
    obtain ⟨t, haccepts⟩ := (sink.accepts_or_refuses s b.events).resolve_right hnone
    exact ⟨told_of_accepts haccepts, t, replay_of_accepts haccepts⟩

end Body
end Cil
