import Cil.Pool

/-!
# The numbers of pooled constants

A pool holds what was added to it, each constant once, in the order of first addition
(`Pool.constants_addAll_empty`). Its index knows exactly these constants, and the number under
which it has one is the place of an equal one in the array. The latter needs the numbers
to fit 32 bits, so it is stated for pools of at most `UInt32.size` constants.

Array and index undo each other: a constant has a number exactly if one that equals it
stands under that number. It follows that no two constants in a pool are equal, and that a
number once given out remains the only answer for its constant
(`Pool.addAll_empty_index_stable`).

Equality is whatever `==` is, as long as it is an equivalence that the hash respects. A
constant may therefore stand for others that equal it without being the same.
-/

namespace Cil.Pool

variable {α : Type} [BEq α] [Hashable α]

/-- What the array and the index of a pool have to do with each other. -/
structure Indexed (p : Pool α) : Prop where
  known : ∀ a, (p.indexOf? a).isSome = p.constants.toList.any (a == ·)
  located : p.size ≤ UInt32.size →
    ∀ a n, p.indexOf? a = some n → ∃ b, p.get? n = some b ∧ (b == a) = true

variable [EquivBEq α] [LawfulHashable α]

theorem indexed_empty : (empty : Pool α).Indexed where
  known a := by simp [indexOf?, empty]
  located := by simp [indexOf?, empty]

theorem Indexed.add {p : Pool α} (h : p.Indexed) (a : α) : (p.add a).2.Indexed := by
  cases hindex : p.indexOf? a with
  | some m =>
    rw [add_of_indexOf? hindex]
    exact h
  | none =>
    refine ⟨?_, ?_⟩
    · intro b
      rw [indexOf?_add_of_new hindex, constants_add_of_new hindex, Array.toList_push,
        List.any_append, ← h.known b]
      by_cases hab : (a == b) = true <;> simp [hab, BEq.comm (a := b)]
    · intro hsize b n hb
      rw [indexOf?_add_of_new hindex] at hb
      have hroom : p.constants.size < UInt32.size := by
        rw [size, constants_add_of_new hindex, Array.size_push] at hsize
        exact hsize
      by_cases hab : (a == b) = true
      · rw [if_pos hab, Option.some.injEq] at hb
        subst hb
        refine ⟨a, ?_, hab⟩
        rw [get?, constants_add_of_new hindex, Nat.toUInt32_eq, UInt32.toNat_ofNat_of_lt' hroom,
          Array.getElem?_push_size]
      · rw [if_neg hab] at hb
        obtain ⟨c, hc, hcb⟩ := h.located (Nat.le_of_lt hroom) b n hb
        exact ⟨c, get?_add hc, hcb⟩

theorem Indexed.addAll {p : Pool α} (h : p.Indexed) (as : List α) : (p.addAll as).Indexed := by
  induction as generalizing p with
  | nil => exact h
  | cons a as ih => exact ih (h.add a)

/-- Adding constants in order goes on with the removal of duplicates where the pool stands. -/
theorem Indexed.constants_addAll {p : Pool α} (h : p.Indexed) (as : List α) :
    (p.addAll as).constants.toList =
      List.eraseDupsBy.loop (· == ·) as p.constants.toList.reverse := by
  induction as generalizing p with
  | nil => simp [List.eraseDupsBy.loop]
  | cons a as ih =>
    rw [addAll_cons, ih (h.add a), List.eraseDupsBy.loop, List.any_reverse, ← h.known a]
    cases hindex : p.indexOf? a with
    | some n => rw [add_of_indexOf? hindex]; rfl
    | none => simp [constants_add_of_new hindex]

/-- A pool holds the constants added to it without duplicates, in the order of first
addition. -/
theorem constants_addAll_empty (as : List α) :
    ((empty : Pool α).addAll as).constants.toList = as.eraseDups :=
  indexed_empty.constants_addAll as

theorem size_addAll_empty (as : List α) :
    ((empty : Pool α).addAll as).size = as.eraseDups.length := by
  rw [← constants_addAll_empty, Array.length_toList, size]

/-- The index has every constant of the array under its place. This is the converse of
`Indexed.located`. -/
def Numbered (p : Pool α) : Prop :=
  p.size ≤ UInt32.size → ∀ n a, p.get? n = some a → p.indexOf? a = some n

omit [EquivBEq α] [LawfulHashable α] in
theorem numbered_empty : (empty : Pool α).Numbered := by
  intro _ n a h
  simp [get?, empty] at h

theorem Numbered.add {p : Pool α} (h : p.Numbered) (a : α) : (p.add a).2.Numbered := by
  cases hindex : p.indexOf? a with
  | some m =>
    rw [add_of_indexOf? hindex]
    exact h
  | none =>
    intro hsize n b hb
    rw [size, constants_add_of_new hindex, Array.size_push] at hsize
    rw [get?, constants_add_of_new hindex, Array.getElem?_push] at hb
    split at hb
    · -- The new constant stands at the end, and its number is the old size.
      rename_i hlast
      obtain rfl := Option.some.inj hb
      rw [indexOf?_add_of_new hindex, if_pos (BEq.refl a), ← hlast]
      simp
    · exact indexOf?_add (h (Nat.le_of_succ_le hsize) n b hb) a

theorem Numbered.addAll {p : Pool α} (h : p.Numbered) (as : List α) : (p.addAll as).Numbered := by
  induction as generalizing p with
  | nil => exact h
  | cons a as ih => exact ih (h.add a)

theorem indexOf?_eq_some_iff {p : Pool α} (hindexed : p.Indexed) (hnumbered : p.Numbered)
    (hsize : p.size ≤ UInt32.size) {a : α} {n : UInt32} :
    p.indexOf? a = some n ↔ ∃ b, p.get? n = some b ∧ (b == a) = true := by
  constructor
  · intro h
    exact hindexed.located hsize a n h
  · rintro ⟨b, hb, hba⟩
    have hsame : p.indexOf? b = p.indexOf? a := Std.HashMap.getElem?_congr hba
    rw [← hsame]
    exact hnumbered hsize n b hb

/-- Equal constants would have the same number, and so the same place. -/
theorem Numbered.pairwise {p : Pool α} (h : p.Numbered) (hsize : p.size ≤ UInt32.size) :
    p.constants.toList.Pairwise fun a b => (a == b) = false := by
  have toNat_place {i : Nat} (hi : i < p.constants.toList.length) : i.toUInt32.toNat = i :=
    UInt32.toNat_ofNat_of_lt' (Nat.lt_of_lt_of_le hi hsize)
  have number {i : Nat} (hi : i < p.constants.toList.length) :
      p.indexOf? p.constants.toList[i] = some i.toUInt32 := by
    apply h hsize
    rw [get?, toNat_place hi, ← Array.getElem?_toList]
    exact List.getElem?_eq_getElem hi
  rw [List.pairwise_iff_getElem]
  intro i j hi hj hij
  rw [Bool.eq_false_iff]
  intro hequal
  have hsame : p.indexOf? p.constants.toList[i] = p.indexOf? p.constants.toList[j] :=
    Std.HashMap.getElem?_congr hequal
  rw [number hi, number hj, Option.some.injEq] at hsame
  have hplaces := congrArg UInt32.toNat hsame
  rw [toNat_place hi, toNat_place hj] at hplaces
  omega

omit [EquivBEq α] [LawfulHashable α] in
theorem size_le_size_add (p : Pool α) (a : α) : p.size ≤ (p.add a).2.size := by
  cases hindex : p.indexOf? a with
  | some m => simp [add_of_indexOf? hindex]
  | none =>
    rw [size, size, constants_add_of_new hindex, Array.size_push]
    omega

omit [EquivBEq α] [LawfulHashable α] in
theorem size_le_size_addAll (p : Pool α) (as : List α) : p.size ≤ (p.addAll as).size := by
  induction as generalizing p with
  | nil => exact Nat.le_refl _
  | cons a as ih => exact Nat.le_trans (p.size_le_size_add a) (ih _)

/-- What has been added, or anything equal to it, is known. -/
theorem exists_indexOf?_addAll_of_mem (p : Pool α) {as : List α} {a b : α} (hb : b ∈ as)
    (hba : (b == a) = true) : ∃ n, (p.addAll as).indexOf? a = some n := by
  obtain ⟨before, after, rfl⟩ := List.append_of_mem hb
  have hsame : (p.addAll (before ++ b :: after)).indexOf? b =
      (p.addAll (before ++ b :: after)).indexOf? a := Std.HashMap.getElem?_congr hba
  rw [← hsame, addAll_append, addAll_cons]
  exact ⟨_, indexOf?_addAll (indexOf?_add_self _ b) after⟩

/-- A pool is a set whose members are numbered in the order in which they came. It holds what
was added, the first of equal constants each time and no two that are equal. Index and array
answer opposite questions, and adding what is there changes nothing. When a constant is added,
the number returned is the only one under which it stands, and the index and every further
addition of it go on giving that number. -/
theorem addAll_empty_index_stable (as : List α) (hbound : as.eraseDups.length ≤ UInt32.size) :
    let p := (empty : Pool α).addAll as
    p.constants.toList = as.eraseDups ∧
    p.constants.toList.Pairwise (fun a b => (a == b) = false) ∧
    (∀ a n, p.indexOf? a = some n ↔ ∃ b, p.get? n = some b ∧ (b == a) = true) ∧
    (∀ a, (∃ b ∈ as, (b == a) = true) → (p.add a).2 = p) ∧
    ∀ before a after, as = before ++ a :: after →
      let q := (empty : Pool α).addAll before
      (∀ n, (∃ b, (q.add a).2.get? n = some b ∧ (b == a) = true) ↔ n = (q.add a).1) ∧
      p.indexOf? a = some (q.add a).1 ∧ (p.add a).1 = (q.add a).1 := by
  intro p
  have hsize : p.size ≤ UInt32.size := by
    rw [size_addAll_empty]
    exact hbound
  have hindexed : p.Indexed := indexed_empty.addAll as
  have hnumbered : p.Numbered := numbered_empty.addAll as
  refine ⟨constants_addAll_empty as, hnumbered.pairwise hsize, ?_, ?_, ?_⟩
  · intro a n
    exact indexOf?_eq_some_iff hindexed hnumbered hsize
  · rintro a ⟨b, hb, hba⟩
    obtain ⟨n, hn⟩ := exists_indexOf?_addAll_of_mem empty hb hba
    rw [add_of_indexOf? hn]
  · rintro before a after rfl q
    have hp : p = (q.add a).2.addAll after := by
      rw [← addAll_cons, ← addAll_append]
    have hsmall : (q.add a).2.size ≤ UInt32.size := by
      rw [hp] at hsize
      exact Nat.le_trans (size_le_size_addAll _ after) hsize
    have hnumber : p.indexOf? a = some (q.add a).1 := by
      rw [hp]
      exact indexOf?_addAll (indexOf?_add_self q a) after
    refine ⟨?_, hnumber, by rw [add_of_indexOf? hnumber]⟩
    intro n
    rw [← indexOf?_eq_some_iff ((indexed_empty.addAll before).add a)
      ((numbered_empty.addAll before).add a) hsmall, indexOf?_add_self, Option.some.injEq]
    exact eq_comm

/-- The first constant is added twice. The second has kept its number by the end. -/
theorem addAll_empty_index_stable_of_repeated :
    let p := (empty : Pool String).addAll ["clock", "log", "clock", "port"]
    let q := (empty : Pool String).addAll ["clock"]
    p.constants.toList = ["clock", "log", "port"] ∧ (p.add "clock").2 = p ∧
      p.indexOf? "log" = some 1 ∧ (q.add "log").1 = 1 ∧ (p.add "log").1 = 1 := by
  intro p q
  obtain ⟨hconstants, -, hindex, hpresent, hstable⟩ :=
    addAll_empty_index_stable ["clock", "log", "clock", "port"] (by decide)
  obtain ⟨-, hnumber, hagain⟩ := hstable ["clock"] "log" ["clock", "port"] rfl
  have hlist : p.constants.toList = ["clock", "log", "port"] := hconstants.trans (by decide)
  have hlog : p.get? 1 = some "log" := by
    rw [get?, ← Array.getElem?_toList, hlist]
    rfl
  have hone : p.indexOf? "log" = some 1 := (hindex "log" 1).mpr ⟨"log", hlog, by decide⟩
  have hreturned : (q.add "log").1 = 1 := Option.some.inj (hnumber.symm.trans hone)
  exact ⟨hlist, hpresent "clock" ⟨"clock", by decide⟩, hone, hreturned, hagain.trans hreturned⟩

end Cil.Pool
