import Cil.Proofs.Refusal

/-!
# Ranges of arguments

A range of arguments is loaded by a loop, but not before its last member has been looked
at. That one check decides: arguments are numbered from zero and smaller numbers need no
more bytes, so behind it the loop cannot be refused half-way. A range that is refused is
refused because of its last member, also where an earlier one is missing too.
-/

namespace Cil

namespace Action

/-- A load of an argument leaves the type of the argument on top, whatever its form. -/
theorem pushed?_loadArg (index : UInt32) (slotType : Option Ty) :
    (loadArg index).shortest.pushed? slotType = slotType := by
  simp only [shortest, slotForm]
  split
  · rfl
  · split <;> rfl

end Action

namespace Builder

/-- The numbers from `first` up to but without `stop`. -/
def indices (first stop : UInt32) : List UInt32 :=
  (List.range' first.toNat (stop.toNat - first.toNat)).map Nat.toUInt32

/-- The loop is the loads of its members one after the other. -/
theorem loadArgsFrom_eq_forM (first count : Nat) :
    (loadArgsFrom first.toUInt32 count : BuildM Unit) =
      ((List.range' first count).map Nat.toUInt32).forM loadArg := by
  induction count generalizing first with
  | zero => rfl
  | succ count ih =>
    have hnext : first.toUInt32 + 1 = (first + 1).toUInt32 := by simp
    rw [loadArgsFrom, hnext, ih, List.range'_succ, List.map_cons]
    rfl

theorem forM_indices (first stop : UInt32) :
    (indices first stop).forM loadArg =
      (loadArgsFrom first (stop.toNat - first.toNat) : BuildM Unit) := by
  rw [indices, ← loadArgsFrom_eq_forM]
  simp

theorem argLoads_eq_map_indices (first stop : UInt32) :
    argLoads first.toNat (stop.toNat - first.toNat) =
      (indices first stop).map fun index => (Action.loadArg index).shortest := by
  simp [argLoads, indices]

/-- The last member of a range is the one that is looked at. -/
theorem indices_eq_append {first stop : UInt32} (hlt : first < stop) :
    ∃ earlier, indices first stop = earlier ++ [stop - 1] := by
  have hlt' : first.toNat < stop.toNat := UInt32.lt_iff_toNat_lt.mp hlt
  obtain ⟨count, hcount⟩ := Nat.exists_eq_add_of_lt hlt'
  have hlength : stop.toNat - first.toNat = count + 1 := by omega
  have hlast : (first.toNat + count).toUInt32 = stop - 1 := by
    rw [show first.toNat + count = (stop - 1).toNat by rw [toNat_sub_one_of_lt hlt]; omega]
    simp
  refine ⟨(List.range' first.toNat count).map Nat.toUInt32, ?_⟩
  rw [indices, hlength, List.range'_concat, List.map_append, List.map_singleton, Nat.one_mul,
    hlast]

/-- The member at a position. -/
theorem getElem?_indices {first stop : UInt32} {k : Nat} {index : UInt32}
    (h : (indices first stop)[k]? = some index) : index.toNat = first.toNat + k := by
  rw [indices, List.getElem?_map, Option.map_eq_some_iff] at h
  obtain ⟨n, hn, rfl⟩ := h
  obtain ⟨hk, hvalue⟩ := List.getElem?_eq_some_iff.mp hn
  rw [List.length_range'] at hk
  rw [List.getElem_range', Nat.one_mul] at hvalue
  have hsize : stop.toNat < UInt32.size := stop.toNat_lt_size
  rw [← hvalue]
  exact UInt32.toNat_ofNat_of_lt' (by omega)

variable {first stop : UInt32}

theorem loadArg_apply (index : UInt32) (b : Builder) :
    loadArg index b =
      match (Action.loadArg index).shortest.fault? b.frame with
      | some e => .error e b
      | none => .ok () (b.enter (Action.loadArg index).shortest) := by
  rw [loadArg, access_shortest]
  exact emit_apply _ b

/-- A range has the fault of its last member or none. -/
theorem loadArgs_apply (hlt : first < stop) (b : Builder) :
    loadArgs first stop b =
      match (Action.loadArg (stop - 1)).shortest.fault? b.frame with
      | some e => .error e b
      | none => .ok () (b.enterAll (argLoads first.toNat (stop.toNat - first.toNat))) := by
  cases hfault : (Action.loadArg (stop - 1)).shortest.fault? b.frame with
  | some e => exact loadArgs_of_fault? hlt hfault
  | none =>
    have hall := (wellFormed_argLoads_iff hlt).mpr (Instruction.fault?_eq_none_iff.mp hfault)
    obtain ⟨-, hok⟩ | ⟨hnot, -⟩ := BuildState.enters_loadArgs first stop b
    · exact hok
    · exact absurd hall hnot

/-- A whole range can be loaded if its last member exists and fits two bytes. -/
theorem wellFormed_argLoads_iff_last (hlt : first < stop) {f : Frame} :
    (∀ i ∈ argLoads first.toNat (stop.toNat - first.toNat), i.WellFormed f) ↔
      stop.toNat - 1 < f.args.size ∧ stop.toNat - 1 ≤ 65535 := by
  rw [wellFormed_argLoads_iff hlt, Action.wellFormed_loadArg_iff, toNat_sub_one_of_lt hlt]

theorem loadArgs_eq_ok_iff (hlt : first < stop) {b after : Builder} :
    loadArgs first stop b = .ok () after ↔
      (stop.toNat - 1 < b.frame.args.size ∧ stop.toNat - 1 ≤ 65535) ∧
        after = b.enterAll (argLoads first.toNat (stop.toNat - first.toNat)) := by
  rw [← wellFormed_argLoads_iff_last hlt, wellFormed_argLoads_iff hlt,
    ← Instruction.fault?_eq_none_iff, loadArgs_apply hlt]
  cases (Action.loadArg (stop - 1)).shortest.fault? b.frame with
  | some e => simp
  | none => simp [eq_comm]

theorem loadArgs_eq_error_iff (hlt : first < stop) {b after : Builder} {e : Fault} :
    loadArgs first stop b = .error e after ↔ loadArg (stop - 1) b = .error e b ∧ after = b := by
  rw [loadArgs_apply hlt, loadArg_apply]
  cases (Action.loadArg (stop - 1)).shortest.fault? b.frame with
  | some e' => simp [eq_comm]
  | none => simp

theorem top_enter_loadArg {b : Builder} {index : UInt32} {t : Ty}
    (h : b.frame.args[index.toNat]? = some t) :
    (b.enter (Action.loadArg index).shortest).top = some t := by
  have htype : (Action.loadArg index).shortest.slotType? b.frame = some t := by
    rw [Instruction.slotType?, Action.slot?_shortest]
    exact h
  simp only [enter, Instruction.topAfter, Action.pushed?_loadArg, htype, Option.some_or]

/-- A range that is met leaves the type of its last member on top. -/
theorem top_enterAll_argLoads (hlt : first < stop) {b : Builder} {t : Ty}
    (h : b.frame.args[stop.toNat - 1]? = some t) :
    (b.enterAll (argLoads first.toNat (stop.toNat - first.toNat))).top = some t := by
  obtain ⟨earlier, hearlier⟩ := indices_eq_append hlt
  rw [argLoads_eq_map_indices, hearlier, List.map_append, enterAll_append]
  apply top_enter_loadArg
  rw [frame_enterAll, toNat_sub_one_of_lt hlt]
  exact h

/-- The instruction at a position of a range that is met loads the argument at that
position, and every other instruction that does so and can be encoded is longer. -/
theorem getElem?_argLoads {k : Nat} {i : Instruction}
    (h : (argLoads first.toNat (stop.toNat - first.toNat))[k]? = some i) :
    ∃ index : UInt32, index.toNat = first.toNat + k ∧ i.action? = some (.loadArg index) ∧
      ∀ j : Instruction, j.action? = some (.loadArg index) → j.checkWidth = .ok () →
        j = i ∨ i.byteSize < j.byteSize := by
  rw [argLoads_eq_map_indices, List.getElem?_map, Option.map_eq_some_iff] at h
  obtain ⟨index, hindex, rfl⟩ := h
  refine ⟨index, getElem?_indices hindex, Action.action?_shortest _, ?_⟩
  intro j haction hwidth
  exact Action.eq_shortest_or_lt haction hwidth

/-- An empty range changes nothing. Any other is loaded if its last member exists and fits two
bytes, and then it does what its members do one after the other: there is one load for each,
none of which could be shorter, and the type of the last member is on top. Otherwise it is
refused with the fault of its last member, and nothing is loaded. -/
theorem loadArgs_all_or_nothing (b : Builder) (first stop : UInt32) :
    (stop ≤ first → loadArgs first stop b = .ok () b) ∧
    (first < stop →
      ((∃ after, loadArgs first stop b = .ok () after) ↔
        stop.toNat - 1 < b.frame.args.size ∧ stop.toNat - 1 ≤ 65535) ∧
      (∀ after, loadArgs first stop b = .ok () after →
        (indices first stop).forM loadArg b = .ok () after ∧
        after.frame = b.frame ∧
        (∃ loads, after.code.toList = b.code.toList ++ loads ∧
          loads.length = stop.toNat - first.toNat ∧
          ∀ k i, loads[k]? = some i →
            ∃ index : UInt32, index.toNat = first.toNat + k ∧ i.action? = some (.loadArg index) ∧
              ∀ j : Instruction, j.action? = some (.loadArg index) → j.checkWidth = .ok () →
                j = i ∨ i.byteSize < j.byteSize) ∧
        ∃ t, b.frame.args[stop.toNat - 1]? = some t ∧ after.top = some t) ∧
      ∀ e after, loadArgs first stop b = .error e after ↔
        loadArg (stop - 1) b = .error e b ∧ after = b) := by
  constructor
  · intro hle
    rw [loadArgs, if_neg (UInt32.not_lt.mpr hle)]
    rfl
  · intro hlt
    refine ⟨?_, ?_, fun _ _ => loadArgs_eq_error_iff hlt⟩
    · simp only [loadArgs_eq_ok_iff hlt, exists_and_left, exists_eq, and_true]
    · intro after hafter
      obtain ⟨hbounds, rfl⟩ := (loadArgs_eq_ok_iff hlt).mp hafter
      have htype := Array.getElem?_eq_getElem hbounds.1
      refine ⟨?_, frame_enterAll _ _, ⟨_, toList_code_enterAll _ _, ?_, ?_⟩,
        _, htype, top_enterAll_argLoads hlt htype⟩
      · have hsize : stop.toNat < UInt32.size := stop.toNat_lt_size
        have hmembers := (wellFormed_argLoads_iff_last hlt).mpr hbounds
        rw [UInt32.lt_iff_toNat_lt] at hlt
        rw [forM_indices]
        exact BuildState.loadArgsFrom_of_wellFormed (by omega) hmembers
      · simp [argLoads]
      · intro k i hi
        exact getElem?_argLoads hi

/-- With two arguments, a range of two is met and a range of five is refused because of
argument 4, although argument 2 is the first that is missing. -/
theorem loadArgs_all_or_nothing_of_missing :
    let b := start #[.object, .string]
    (∃ after, loadArgs 0 2 b = .ok () after ∧ [0, 1].forM loadArg b = .ok () after ∧
      after.top = some .string) ∧
      loadArgs 0 5 b = .error (.undeclaredArg 4 2) b ∧
      loadArg 2 b = .error (.undeclaredArg 2 2) b ∧
      loadArgs 5 5 b = .ok () b := by
  intro b
  obtain ⟨hmet, hafter, -⟩ := (loadArgs_all_or_nothing b 0 2).2 (by decide)
  obtain ⟨after, hok⟩ := hmet.mpr (by decide)
  obtain ⟨hloop, -, -, t, ht, htop⟩ := hafter after hok
  cases ht
  obtain ⟨-, -, hrefused⟩ := (loadArgs_all_or_nothing b 0 5).2 (by decide)
  exact ⟨⟨after, hok, hloop, htop⟩, (hrefused _ b).mpr ⟨rfl, rfl⟩, rfl,
    (loadArgs_all_or_nothing b 5 5).1 (by decide)⟩

end Builder
end Cil
