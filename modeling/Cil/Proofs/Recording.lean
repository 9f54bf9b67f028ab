import Cil.Proofs.Delivery
import Cil.Proofs.Replay
import Cil.Body

/-!
# What a recorder has kept

A recorder writes an event down if the limit for events of its sort has not been reached, and
otherwise refuses it (`Recorder.sink_of_full`, `Recorder.sink_of_not_full`). Events that were
all accepted have been written down in order and within the limits, which is the invariant
`Recorder.Kept`.

Handing a body over to a recorder can therefore end in three ways: with everything kept, at a
local, or at an instruction, and then all locals have been kept. `Body.recorded_cases` says so
and gives the limit that was reached. The numbers of kept locals and instructions follow from
it. A limit that equals what there is to keep is never noticed, because nothing comes behind.
-/

namespace Cil

open Event (announcements)

namespace Event

/-- The local that an event declares. -/
def announced? : Event → Option (UInt32 × Ty)
  | .declare index t => some (index, t)
  | .instruction _ => none

/-- The line of an event that is an instruction. -/
def line? : Event → Option String
  | .declare _ _ => none
  | .instruction i => some i.text

theorem filterMap_announced?_announcements (ts : List Ty) (first : Nat) :
    (announcements ts first).filterMap announced? =
      (ts.zipIdx first).map fun (t, n) => (n.toUInt32, t) := by
  simp [announcements, List.filterMap_map, Function.comp_def, announced?]

theorem filterMap_line?_announcements (ts : List Ty) (first : Nat) :
    (announcements ts first).filterMap line? = [] := by
  simp [announcements, List.filterMap_map, Function.comp_def, line?]

theorem filterMap_announced?_instructions (is : List Instruction) :
    (is.map instruction).filterMap announced? = [] := by
  simp [List.filterMap_map, Function.comp_def, announced?]

theorem filterMap_line?_instructions (is : List Instruction) :
    (is.map instruction).filterMap line? = is.map Instruction.text := by
  simp [List.filterMap_map, Function.comp_def, line?]

end Event

namespace Recorder

section Limit

variable {limit : Option Nat} {n k : Nat}

/-- A limit allows every number up to itself. Without a limit every number is allowed. -/
def Allows (limit : Option Nat) (n : Nat) : Prop :=
  ∀ k, limit = some k → n ≤ k

/-- The smaller of a limit and a number. Without a limit it is the number. -/
def capped (limit : Option Nat) (n : Nat) : Nat :=
  match limit with
  | none => n
  | some k => min k n

theorem allows_zero (limit : Option Nat) : Allows limit 0 :=
  fun k _ => Nat.zero_le k

theorem Allows.succ (h : Allows limit n) (hroom : limit ≠ some n) : Allows limit (n + 1) := by
  intro k hk
  have hle := h k hk
  have hne : n ≠ k := by
    rintro rfl
    exact hroom hk
  omega

theorem Allows.capped_eq (h : Allows limit n) : capped limit n = n := by
  cases limit with
  | none => rfl
  | some k => exact Nat.min_eq_right (h k rfl)

theorem capped_eq_of_lt (hlimit : limit = some k) (h : k < n) : capped limit n = k := by
  rw [hlimit]
  exact Nat.min_eq_left (Nat.le_of_lt h)

end Limit

/-- The limit that the event falls under has been reached. -/
def Full (limits : Limits) (r : Recorder) : Event → Prop
  | .declare _ _ => limits.locals = some r.locals.size
  | .instruction _ => limits.lines = some r.lines.size

/-- What the recorder answers to an event for which there is no room. -/
def refusal : Event → Refusal
  | .declare index _ => .declare index
  | .instruction i => .instruction i

/-- The recorder with one more event written down. -/
def keep (r : Recorder) : Event → Recorder
  | .declare index t => { r with locals := r.locals.push (index, t) }
  | .instruction i => { r with lines := r.lines.push i.text }

variable {limits : Limits} {r t u : Recorder} {event : Event} {err : Refusal}

theorem sink_of_full (h : Full limits r event) :
    sink limits event r = .error (refusal event) r := by
  cases event <;> exact if_pos h

theorem sink_of_not_full (h : ¬ Full limits r event) :
    sink limits event r = .ok () (r.keep event) := by
  cases event <;> exact if_neg h

theorem not_full_of_ok (h : sink limits event r = .ok () t) :
    ¬ Full limits r event ∧ t = r.keep event := by
  by_cases hfull : Full limits r event
  · rw [sink_of_full hfull] at h
    cases h
  · rw [sink_of_not_full hfull] at h
    cases h
    exact ⟨hfull, rfl⟩

theorem full_of_error (h : sink limits event r = .error err u) :
    Full limits r event ∧ err = refusal event ∧ u = r := by
  by_cases hfull : Full limits r event
  · rw [sink_of_full hfull] at h
    cases h
    exact ⟨hfull, rfl, rfl⟩
  · rw [sink_of_not_full hfull] at h
    cases h

/-- These events have been written down, and there was room for each of them. -/
structure Kept (limits : Limits) (es : List Event) (r : Recorder) : Prop where
  locals : r.locals.toList = es.filterMap Event.announced?
  lines : r.lines.toList = es.filterMap Event.line?
  allowsLocals : Allows limits.locals r.locals.size
  allowsLines : Allows limits.lines r.lines.size

theorem kept_empty (limits : Limits) : Kept limits [] empty :=
  ⟨rfl, rfl, allows_zero _, allows_zero _⟩

theorem Kept.keep {es : List Event} (h : Kept limits es r) (hroom : ¬ Full limits r event) :
    Kept limits (es ++ [event]) (r.keep event) := by
  cases event with
  | declare index ty =>
    refine ⟨?_, ?_, ?_, h.allowsLines⟩
    · simp [Recorder.keep, h.locals, Event.announced?]
    · simp [Recorder.keep, h.lines, Event.line?]
    · simpa [Recorder.keep] using h.allowsLocals.succ hroom
  | instruction i =>
    refine ⟨?_, ?_, h.allowsLocals, ?_⟩
    · simp [Recorder.keep, h.locals, Event.announced?]
    · simp [Recorder.keep, h.lines, Event.line?]
    · simpa [Recorder.keep] using h.allowsLines.succ hroom

/-- The induction follows the accepted events. What was kept before stays in front. -/
theorem Kept.accepts {done es : List Event} (h : Kept limits done r)
    (hes : (sink limits).Accepts r es t) : Kept limits (done ++ es) t := by
  induction hes generalizing done with
  | nil r =>
    rw [List.append_nil]
    exact h
  | @cons event es r t u first _ ih =>
    obtain ⟨hroom, rfl⟩ := not_full_of_ok first
    rw [List.append_cons]
    exact ih (h.keep hroom)

/-- The recorder has kept locals of these types, numbered in order, and these instructions. -/
structure Holds (r : Recorder) (ts : List Ty) (is : List Instruction) : Prop where
  locals : r.locals.toList = ts.zipIdx.map fun (t, n) => (n.toUInt32, t)
  lines : r.lines.toList = is.map Instruction.text

section Holds

variable {ts : List Ty} {is : List Instruction}

theorem Kept.holds (h : Kept limits (announcements ts 0 ++ is.map .instruction) r) :
    Holds r ts is := by
  constructor
  · rw [h.locals, List.filterMap_append, Event.filterMap_announced?_announcements,
      Event.filterMap_announced?_instructions, List.append_nil]
  · rw [h.lines, List.filterMap_append, Event.filterMap_line?_announcements,
      Event.filterMap_line?_instructions, List.nil_append]

theorem Holds.size_locals (h : Holds r ts is) : r.locals.size = ts.length := by
  simpa using congrArg List.length h.locals

theorem Holds.size_lines (h : Holds r ts is) : r.lines.size = is.length := by
  simpa using congrArg List.length h.lines

theorem Holds.types (h : Holds r ts is) : r.locals.toList.map Prod.snd = ts := by
  rw [h.locals, List.map_map]
  exact List.zipIdx_map_fst 0 ts

/-- The kept locals are numbered from zero on, as long as the numbers fit into 32 bits. -/
theorem Holds.numbers (h : Holds r ts is) (hts : ts.length ≤ UInt32.size) :
    r.locals.toList.map (fun l => l.1.toNat) = List.range r.locals.size := by
  have hnumber : ∀ p ∈ ts.zipIdx, p.2.toUInt32.toNat = p.2 := by
    intro p hp
    have hlt := List.snd_lt_of_mem_zipIdx hp
    exact UInt32.toNat_ofNat_of_lt' (by omega)
  calc r.locals.toList.map (fun l => l.1.toNat)
    _ = ts.zipIdx.map (fun p => p.2.toUInt32.toNat) := by rw [h.locals, List.map_map]; rfl
    _ = ts.zipIdx.map Prod.snd := List.map_congr_left hnumber
    _ = List.range r.locals.size := by
      rw [List.zipIdx_map_snd, h.size_locals, List.range_eq_range']

end Holds
end Recorder

namespace Body

open Recorder

/-- An instruction among the events stands behind all declarations. -/
theorem exists_of_events_eq_instruction {b : Body} {before after : List Event} {i : Instruction}
    (h : b.events = before ++ .instruction i :: after) :
    ∃ is js, b.code.toList = is ++ i :: js ∧
      before = announcements b.frame.locals.types.toList 0 ++ is.map .instruction := by
  have hnot : Event.instruction i ∉ b.declarations := by
    simp [declarations, announcements]
  obtain ⟨rest, rfl, hcode⟩ | ⟨rest, hdeclarations, htail⟩ := List.append_eq_append_iff.mp h
  · obtain ⟨is, js', hsplit, rfl, hjs⟩ := List.map_eq_append_iff.mp hcode
    obtain ⟨j, js, rfl, hj, -⟩ := List.map_eq_cons_iff.mp hjs
    cases hj
    exact ⟨is, js, hsplit, rfl⟩
  · cases rest with
    | nil =>
      -- The instruction is the first.
      obtain ⟨j, js, hsplit, hj, -⟩ := List.map_eq_cons_iff.mp htail.symm
      cases hj
      have hbefore : before = b.declarations := by simpa using hdeclarations.symm
      exact ⟨[], js, hsplit, hbefore.trans (List.append_nil _).symm⟩
    | cons event rest =>
      obtain ⟨rfl, -⟩ := List.cons.inj htail
      have hmem : Event.instruction i ∈ b.declarations := by
        rw [hdeclarations]
        exact List.mem_append_right before List.mem_cons_self
      exact absurd hmem hnot

/-- What a recorder with these limits has kept after the body was handed over to it. -/
def recorded (b : Body) (limits : Limits) : Recorder :=
  match b.replay (Recorder.sink limits) .empty with
  | .ok _ r => r
  | .error _ r => r

/-- A recorder is told everything, or stops at a local for which there is no room, or at an
instruction behind all locals. In any case it has kept a beginning of the locals and a
beginning of the instructions. -/
theorem recorded_cases (b : Body) (limits : Limits) :
    let types := b.frame.locals.types.toList
    ∃ ts is, Kept limits (announcements ts 0 ++ is.map .instruction) (b.recorded limits) ∧
      ((ts = types ∧ is = b.code.toList ∧ ∃ r, b.replay (sink limits) .empty = .ok () r) ∨
      (∃ t us index r, types = ts ++ t :: us ∧ is = [] ∧ limits.locals = some ts.length ∧
        b.replay (sink limits) .empty = .error (.declare index) r) ∨
      (∃ i js r, ts = types ∧ b.code.toList = is ++ i :: js ∧ limits.lines = some is.length ∧
        b.replay (sink limits) .empty = .error (.instruction i) r)) := by
  intro types
  obtain ⟨r, haccepts⟩ | ⟨front, event, back, err, u, hevents, hrefuses⟩ :=
    (sink limits).accepts_or_refuses .empty b.events
  · have hreplay := replay_of_accepts haccepts
    have hkept : Kept limits b.events r := (kept_empty limits).accepts haccepts
    refine ⟨types, b.code.toList, ?_, .inl ⟨rfl, rfl, r, hreplay⟩⟩
    rw [recorded, hreplay]
    exact hkept
  · have hreplay := replay_of_refuses hevents hrefuses
    obtain ⟨r, hfront, hevent⟩ := hrefuses
    obtain ⟨hfull, rfl, rfl⟩ := full_of_error hevent
    have hkept : Kept limits front u := (kept_empty limits).accepts hfront
    have hrecorded : b.recorded limits = u := by rw [recorded, hreplay]
    rw [hrecorded]
    cases event with
    | declare index t =>
      obtain ⟨ts, us, htypes, rfl, -⟩ := exists_of_events_eq hevents
      have hkept' : Kept limits (announcements ts 0 ++ [].map .instruction) u := by
        simpa using hkept
      refine ⟨ts, [], hkept', .inr (.inl ⟨t, us, index, u, htypes, rfl, ?_, hreplay⟩)⟩
      rw [← hkept'.holds.size_locals]
      exact hfull
    | instruction i =>
      obtain ⟨is, js, hcode, rfl⟩ := exists_of_events_eq_instruction hevents
      refine ⟨types, is, hkept, .inr (.inr ⟨i, js, u, rfl, hcode, ?_, hreplay⟩)⟩
      rw [← hkept.holds.size_lines]
      exact hfull

/-- How much of the locals and of the instructions a recorder has kept. -/
theorem exists_holds_recorded (b : Body) (limits : Limits) :
    let types := b.frame.locals.types.toList
    ∃ ts is, (b.recorded limits).Holds ts is ∧ ts <+: types ∧ is <+: b.code.toList ∧
      (is ≠ [] → ts = types) ∧ ts.length = capped limits.locals types.length ∧
      ((∀ index r, b.replay (sink limits) .empty ≠ .error (.declare index) r) →
        is.length = capped limits.lines b.code.toList.length) := by
  intro types
  obtain ⟨ts, is, hkept, hcases⟩ := b.recorded_cases limits
  have hholds := hkept.holds
  have hlocals : Allows limits.locals ts.length := hholds.size_locals ▸ hkept.allowsLocals
  have hlines : Allows limits.lines is.length := hholds.size_lines ▸ hkept.allowsLines
  refine ⟨ts, is, hholds, ?_⟩
  obtain ⟨rfl, rfl, -⟩ | ⟨t, us, index, r, htypes, rfl, hfull, herror⟩ |
    ⟨i, js, r, rfl, hcode, hfull, -⟩ := hcases
  · exact ⟨List.prefix_rfl, List.prefix_rfl, fun _ => rfl, hlocals.capped_eq.symm,
      fun _ => hlines.capped_eq.symm⟩
  · have hlt : ts.length < types.length := by simp [types, htypes]
    exact ⟨⟨t :: us, htypes.symm⟩, List.nil_prefix, fun h => absurd rfl h,
      (capped_eq_of_lt hfull hlt).symm, fun h => absurd herror (h index r)⟩
  · have hlt : is.length < b.code.toList.length := by simp [hcode]
    exact ⟨List.prefix_rfl, ⟨i :: js, hcode.symm⟩, fun _ => rfl, hlocals.capped_eq.symm,
      fun _ => (capped_eq_of_lt hfull hlt).symm⟩

/-- A body is handed over as the declarations of its locals, each with its number, and then
its instructions. Any sink is told a beginning of that: up to the first event that it refuses,
whose error is the result, or all of it and with success if it refuses none. A recorder that
refuses behind a number of locals or of instructions has kept as many of each as its limits
and the body allow, and has kept instructions only behind all locals. -/
theorem replay_delivers_prefix (b : Body) (hcount : b.frame.locals.count ≤ UInt32.size) :
    (b.events.length = b.frame.locals.count + b.code.length ∧
      (∀ k t, b.frame.locals.types[k]? = some t →
        ∃ index : UInt32, index.toNat = k ∧ b.events[k]? = some (.declare index t)) ∧
      ∀ k i, b.code.toList[k]? = some i →
        b.events[b.frame.locals.count + k]? = some (.instruction i)) ∧
    (∀ (ε σ : Type) (sink : Sink ε σ) (s : σ),
      b.told sink s <+: b.events ∧
      (∀ front event back err u, b.events = front ++ event :: back →
        sink.Refuses s front event err u →
        b.told sink s = front ++ [event] ∧ b.replay sink s = .error err u) ∧
      ((b.told sink s = b.events ∧ ∃ t, b.replay sink s = .ok () t) ↔
        ¬ ∃ front event back err u, b.events = front ++ event :: back ∧
          sink.Refuses s front event err u)) ∧
    ∀ limits : Limits,
      let r := b.recorded limits
      (r.lines.size ≠ 0 → r.locals.size = b.frame.locals.count) ∧
      r.locals.toList.map (fun l => l.1.toNat) = List.range r.locals.size ∧
      r.locals.toList.map Prod.snd = b.frame.locals.types.toList.take r.locals.size ∧
      r.lines.toList = (b.code.toList.map Instruction.text).take r.lines.size ∧
      r.locals.size = capped limits.locals b.frame.locals.count ∧
      ((∀ index u, b.replay (sink limits) .empty ≠ .error (.declare index) u) →
        r.lines.size = capped limits.lines b.code.length) := by
  refine ⟨⟨b.length_events, ?_, ?_⟩, ?_, ?_⟩
  · intro k t ht
    exact getElem?_events_declare hcount ht
  · intro k i hi
    exact getElem?_events_instruction hi
  · intro ε σ sink s
    refine ⟨b.told_prefix_events sink s, ?_, b.replay_complete_iff sink s⟩
    intro front event back err u hevents hrefuses
    exact ⟨told_of_refuses hevents hrefuses, replay_of_refuses hevents hrefuses⟩
  · intro limits r
    obtain ⟨ts, is, hholds, hts, his, hall, hlocals, hlines⟩ := b.exists_holds_recorded limits
    have hlength : b.code.toList.length = b.code.length := b.code.length_toList
    have hfits : ts.length ≤ UInt32.size := Nat.le_trans hts.length_le hcount
    refine ⟨?_, hholds.numbers hfits, ?_, ?_, ?_, ?_⟩
    · intro hsome
      have hne : is ≠ [] := by
        rintro rfl
        exact hsome hholds.size_lines
      rw [hholds.size_locals, hall hne]
      rfl
    · rw [hholds.types, hholds.size_locals]
      exact List.prefix_iff_eq_take.mp hts
    · rw [hholds.lines, hholds.size_lines, ← List.map_take, ← List.prefix_iff_eq_take.mp his]
    · rw [hholds.size_locals, hlocals]
      rfl
    · intro hnone
      rw [hholds.size_lines, hlines hnone, hlength]

/-- A recorder with room for two lines refuses the third instruction. It has been told that
one, and not the last. -/
theorem replay_delivers_prefix_of_third_line :
    let told : List Event := [.declare 0 .int8, .instruction ⟨.ldcByte, .int8 9⟩,
      .instruction (.simple (.stlocAt 0))]
    let third : Instruction := .simple (.ldlocAt 0)
    let code : Code := .ofList [⟨.ldcByte, .int8 9⟩, .simple (.stlocAt 0), third, .simple .ret]
    let b : Body := ⟨⟨#[.object], ⟨#[.int8]⟩⟩, code⟩
    let limits : Limits := { lines := some 2 }
    b.frame.locals.count ≤ UInt32.size ∧
      b.events = told ++ .instruction third :: [.instruction (.simple .ret)] ∧
      b.told (sink limits) .empty = told ++ [.instruction third] ∧
      b.replay (sink limits) .empty = .error (.instruction third) (b.recorded limits) ∧
      (b.recorded limits).locals.size = 1 ∧ (b.recorded limits).lines.size = 2 := by
  intro told third code b limits
  have hcount : b.frame.locals.count ≤ UInt32.size := by decide
  have hevents : b.events = told ++ .instruction third :: [.instruction (.simple .ret)] := by decide
  have hrefuses : (sink limits).Refuses .empty told (.instruction third) (.instruction third)
      (b.recorded limits) :=
    ⟨_, .cons rfl (.cons rfl (.cons rfl (.nil _))), rfl⟩
  obtain ⟨-, hsink, hrecorder⟩ := b.replay_delivers_prefix hcount
  obtain ⟨-, hstop, -⟩ := hsink _ _ (sink limits) .empty
  obtain ⟨htold, hreplay⟩ := hstop _ _ _ _ _ hevents hrefuses
  obtain ⟨-, -, -, -, hlocals, hlines⟩ := hrecorder limits
  have hnone : ∀ index u, b.replay (sink limits) .empty ≠ .error (.declare index) u := by
    intro index u herror
    rw [hreplay] at herror
    cases herror
  exact ⟨hcount, hevents, htold, hreplay, hlocals, hlines hnone⟩

end Body
end Cil
