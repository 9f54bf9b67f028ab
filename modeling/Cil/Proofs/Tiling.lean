import Mathlib.Algebra.GroupWithZero.Nat
import Mathlib.Data.Finset.Union
import Mathlib.Order.Interval.Finset.Nat
import Cil.Proofs.Layout

/-!
# Instructions tile the code

Every instruction takes at least one byte, and the next one starts where it ends. The
bytes of code are therefore shared out among its instructions: each byte belongs to one
instruction and to no other. `Code.extent` is the share of one instruction.

Offsets come from a scan and the size from a sum of its own. Both are described by
`Code.sizeUpTo`, the number of bytes of the first instructions, and all that is said here
about intervals follows from how that number grows with the count.
-/

namespace Cil

theorem Opcode.opcodeBytes_le (op : Opcode) : op.opcodeBytes ≤ 2 := by
  unfold opcodeBytes
  split <;> decide

theorem Opcode.operandBytes_le (op : Opcode) : op.operandBytes ≤ 4 := by
  cases op with
  | ldarg width | ldarga width | starg width | ldloc width | ldloca width | stloc width =>
    cases width <;> decide
  | ldcSmall value | ldargAt slot | ldlocAt slot | stlocAt slot => exact Nat.zero_le 4
  | _ => decide

/-- An opcode of two bytes with a reference behind it is as long as instructions get. -/
theorem Instruction.byteSize_le (i : Instruction) : i.byteSize ≤ 6 :=
  Nat.add_le_add i.opcode.opcodeBytes_le i.opcode.operandBytes_le

namespace Code

theorem length_offsetsFrom (origin : Nat) (is : List Instruction) :
    (offsetsFrom origin is).length = is.length := by
  simp [offsetsFrom]

theorem length_offsets (c : Code) : c.offsets.length = c.length := by
  rw [offsets_eq_offsetsFrom, length_offsetsFrom, length_toList]

theorem getElem?_offsetsFrom {is : List Instruction} {k : Nat} (origin : Nat)
    (hk : k < is.length) :
    (offsetsFrom origin is)[k]? =
      some (origin + ((is.take k).map Instruction.byteSize).sum) := by
  induction is generalizing origin k with
  | nil => simp at hk
  | cons i is ih =>
    cases k with
    | zero => simp
    | succ k =>
      have htail := ih (origin + i.byteSize) (Nat.lt_of_succ_lt_succ hk)
      simp [htail, Nat.add_assoc]

/-- The instruction at a position. -/
def instructionAt (c : Code) (k : Fin c.length) : Instruction :=
  c.toList.get (k.cast c.length_toList.symm)

/-- Where the instruction at a position starts. -/
def offsetAt (c : Code) (k : Fin c.length) : Nat :=
  c.offsets.get (k.cast c.length_offsets.symm)

/-- The bytes that the instruction at a position takes. -/
def extent (c : Code) (k : Fin c.length) : Finset Nat :=
  Finset.Ico (c.offsetAt k) (c.offsetAt k + (c.instructionAt k).byteSize)

/-- The number of bytes that the first `k` instructions take. -/
def sizeUpTo (c : Code) (k : Nat) : Nat :=
  ((c.toList.take k).map Instruction.byteSize).sum

variable (c : Code)

theorem sizeUpTo_zero : c.sizeUpTo 0 = 0 := rfl

theorem sizeUpTo_succ (k : Fin c.length) :
    c.sizeUpTo (k + 1) = c.sizeUpTo k + (c.instructionAt k).byteSize := by
  have hk : k.val < c.toList.length := (k.cast c.length_toList.symm).isLt
  rw [sizeUpTo, List.take_succ_eq_append_getElem hk, List.map_append, List.sum_append,
    List.map_singleton, List.sum_singleton]
  rfl

theorem sizeUpTo_length : c.sizeUpTo c.length = c.byteSize := by
  have hsum (is : List Instruction) :
      (is.map Instruction.byteSize).sum = (ofList is).byteSize := by
    induction is with
    | nil => rfl
    | cons i is ih => simp [ih]
  rw [sizeUpTo, ← length_toList, List.take_length, hsum, ofList_toList]

theorem offsetAt_eq (k : Fin c.length) : c.offsetAt k = c.sizeUpTo k := by
  have hk : k.val < c.toList.length := (k.cast c.length_toList.symm).isLt
  have hentry := getElem?_offsetsFrom 0 hk
  rw [← offsets_eq_offsetsFrom, Nat.zero_add] at hentry
  exact (List.getElem?_eq_some_iff.mp hentry).2

variable {c}

theorem mem_extent {k : Fin c.length} {position : Nat} :
    position ∈ c.extent k ↔ c.sizeUpTo k ≤ position ∧ position < c.sizeUpTo (k + 1) := by
  rw [extent, Finset.mem_Ico, offsetAt_eq, sizeUpTo_succ]

theorem sizeUpTo_mono {j k : Nat} (hjk : j ≤ k) : c.sizeUpTo j ≤ c.sizeUpTo k := by
  have hprefix : c.toList.take j <+: c.toList.take k := List.take_prefix_take_left hjk
  obtain ⟨rest, hrest⟩ := hprefix
  rw [sizeUpTo, sizeUpTo, ← hrest, List.map_append, List.sum_append]
  exact Nat.le_add_right _ _

theorem extent_nonempty (k : Fin c.length) : (c.extent k).Nonempty := by
  refine ⟨c.sizeUpTo k, mem_extent.mpr ⟨Nat.le_refl _, ?_⟩⟩
  have hpos := (c.instructionAt k).byteSize_pos
  rw [sizeUpTo_succ]
  omega

/-- An instruction ends before any later one starts. -/
theorem sizeUpTo_succ_le {j k : Fin c.length} (hjk : j < k) :
    c.sizeUpTo (j + 1) ≤ c.sizeUpTo k :=
  sizeUpTo_mono hjk

theorem offsetAt_strictMono : StrictMono c.offsetAt := by
  intro j k hjk
  have hends := sizeUpTo_succ_le hjk
  have hpos := (c.instructionAt j).byteSize_pos
  rw [sizeUpTo_succ] at hends
  rw [offsetAt_eq, offsetAt_eq]
  omega

/-- No byte belongs to two instructions. -/
theorem eq_of_mem_extent {j k : Fin c.length} {position : Nat} (hj : position ∈ c.extent j)
    (hk : position ∈ c.extent k) : j = k := by
  rw [mem_extent] at hj hk
  obtain hlt | heq | hgt := lt_trichotomy j k
  · have hends := sizeUpTo_succ_le hlt
    omega
  · exact heq
  · have hends := sizeUpTo_succ_le hgt
    omega

/-- Every byte of the first instructions belongs to one of them. The induction is on their
number: a byte that is not among the earlier ones is one of the last. -/
theorem exists_mem_extent_of_lt_sizeUpTo {count position : Nat} (hcount : count ≤ c.length)
    (hposition : position < c.sizeUpTo count) : ∃ k, position ∈ c.extent k := by
  induction count with
  | zero =>
    rw [sizeUpTo_zero] at hposition
    omega
  | succ count ih =>
    by_cases hearlier : position < c.sizeUpTo count
    · exact ih (Nat.le_of_succ_le hcount) hearlier
    · refine ⟨⟨count, hcount⟩, mem_extent.mpr ⟨?_, hposition⟩⟩
      exact Nat.le_of_not_lt hearlier

theorem exists_mem_extent_iff {position : Nat} :
    (∃ k, position ∈ c.extent k) ↔ position < c.byteSize := by
  rw [← sizeUpTo_length]
  constructor
  · rintro ⟨k, hk⟩
    exact Nat.lt_of_lt_of_le (mem_extent.mp hk).2 (sizeUpTo_mono k.isLt)
  · intro hposition
    exact exists_mem_extent_of_lt_sizeUpTo (Nat.le_refl _) hposition

theorem sizeUpTo_bounds {count : Nat} (hcount : count ≤ c.length) :
    count ≤ c.sizeUpTo count ∧ c.sizeUpTo count ≤ 6 * count := by
  induction count with
  | zero => simp [sizeUpTo_zero]
  | succ count ih =>
    obtain ⟨hlower, hupper⟩ := ih (Nat.le_of_succ_le hcount)
    have hstep := c.sizeUpTo_succ ⟨count, hcount⟩
    have hpos := (c.instructionAt ⟨count, hcount⟩).byteSize_pos
    have hle := (c.instructionAt ⟨count, hcount⟩).byteSize_le
    simp only at hstep
    omega

/-- There is one offset for each instruction, and it is what the instructions before it add up
to. The shares of the instructions are not empty, have no byte in common and make up the
code, so offsets grow strictly and each byte has one owner. The size of the code is between
one and six bytes for each instruction. -/
theorem extents_tile (c : Code) :
    c.offsets.length = c.length ∧
    (∀ k, c.offsetAt k = ((c.toList.take k).map Instruction.byteSize).sum) ∧
    (∀ k, (c.extent k).Nonempty) ∧
    Pairwise (Function.onFun Disjoint c.extent) ∧
    Finset.univ.biUnion c.extent = Finset.Ico 0 c.byteSize ∧
    StrictMono c.offsetAt ∧
    (∀ position, position < c.byteSize → ∃! k, position ∈ c.extent k) ∧
    c.length ≤ c.byteSize ∧ c.byteSize ≤ 6 * c.length := by
  have hbounds := c.sizeUpTo_bounds (Nat.le_refl c.length)
  rw [sizeUpTo_length] at hbounds
  refine ⟨c.length_offsets, c.offsetAt_eq, extent_nonempty, ?_, ?_, offsetAt_strictMono, ?_,
    hbounds⟩
  · intro j k hjk
    apply Finset.disjoint_left.mpr
    intro position hj hk
    exact hjk (eq_of_mem_extent hj hk)
  · ext position
    simp only [Finset.mem_biUnion, Finset.mem_univ, true_and, exists_mem_extent_iff,
      Finset.mem_Ico, Nat.zero_le]
  · intro position hposition
    obtain ⟨k, hk⟩ := exists_mem_extent_iff.mpr hposition
    exact ⟨k, hk, fun j hj => eq_of_mem_extent hj hk⟩

/-- Byte 4 of these nine is inside the operand of the second instruction. -/
theorem extents_tile_of_four :
    let c := ofList [⟨.ldcByte, .int8 9⟩, ⟨.ldcWord, .int32 1000⟩, .simple .add, .simple .ret]
    4 < c.byteSize ∧ c.byteSize = 9 ∧ c.offsets = [0, 2, 7, 8] ∧ ∃! k, 4 ∈ c.extent k := by
  intro c
  have hsize : 4 < c.byteSize := by decide
  exact ⟨hsize, by decide, by decide, (extents_tile c).2.2.2.2.2.2.1 4 hsize⟩

end Code
end Cil
