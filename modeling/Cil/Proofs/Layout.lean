import Cil.Code

/-!
# Layout of code in pieces

Offsets and listings are running sums, so they are best described for a piece of code that
starts at an arbitrary origin. A piece that is put behind another starts where the other
ends, and what stands before it is laid out as if nothing followed. Code that is continued
therefore keeps its size as a lower bound, its offsets and the text of its listing.
-/

namespace Cil.Code

@[simp] theorem byteSize_ofList_nil : (ofList []).byteSize = 0 := rfl

@[simp] theorem byteSize_ofList_cons (i : Instruction) (is : List Instruction) :
    (ofList (i :: is)).byteSize = i.byteSize + (ofList is).byteSize := by
  have shift (js : List Instruction) (n : Nat) :
      js.foldl (fun n j => n + j.byteSize) n = n + js.foldl (fun n j => n + j.byteSize) 0 := by
    induction js generalizing n with
    | nil => rfl
    | cons j js ih =>
      rw [List.foldl_cons, List.foldl_cons, ih, ih (0 + j.byteSize)]
      omega
  simp only [byteSize, ofList, List.foldl_toArray, List.foldl_cons]
  rw [shift is (0 + i.byteSize), Nat.zero_add]

theorem byteSize_ofList_append (is js : List Instruction) :
    (ofList (is ++ js)).byteSize = (ofList is).byteSize + (ofList js).byteSize := by
  induction is with
  | nil => simp
  | cons i is ih =>
    simp only [List.cons_append, byteSize_ofList_cons, ih]
    omega

/-- Where each instruction of a piece starts. -/
def offsetsFrom (origin : Nat) (is : List Instruction) : List Nat :=
  (is.scanl (fun offset i => offset + i.byteSize) origin).dropLast

/-- The listing of a piece. -/
def listingFrom (origin : Nat) (is : List Instruction) : String :=
  String.join (List.zipWith line (is.scanl (fun offset i => offset + i.byteSize) origin) is)

theorem offsets_eq_offsetsFrom (c : Code) : c.offsets = offsetsFrom 0 c.toList := rfl

theorem listing_eq_listingFrom (c : Code) : c.listing = listingFrom 0 c.toList := rfl

variable (origin : Nat) (i : Instruction) (is js : List Instruction)

@[simp] theorem offsetsFrom_nil : offsetsFrom origin [] = [] := rfl

@[simp] theorem offsetsFrom_cons :
    offsetsFrom origin (i :: is) = origin :: offsetsFrom (origin + i.byteSize) is := by
  rw [offsetsFrom, List.scanl_cons, List.dropLast_cons_of_ne_nil List.scanl_ne_nil]
  rfl

@[simp] theorem listingFrom_nil : listingFrom origin [] = "" := rfl

@[simp] theorem listingFrom_cons :
    listingFrom origin (i :: is) = line origin i ++ listingFrom (origin + i.byteSize) is := by
  rw [listingFrom, List.scanl_cons, List.zipWith_cons_cons, String.join_cons]
  rfl

/-- The second of two pieces starts where the first ends. -/
theorem offsetsFrom_append :
    offsetsFrom origin (is ++ js) =
      offsetsFrom origin is ++ offsetsFrom (origin + (ofList is).byteSize) js := by
  induction is generalizing origin with
  | nil => simp
  | cons i is ih => simp [ih, Nat.add_assoc]

theorem listingFrom_append :
    listingFrom origin (is ++ js) =
      listingFrom origin is ++ listingFrom (origin + (ofList is).byteSize) js := by
  induction is generalizing origin with
  | nil => simp
  | cons i is ih => simp [ih, Nat.add_assoc, String.append_assoc]

variable {c d : Code}

theorem offsets_prefix (h : c.toList <+: d.toList) : c.offsets <+: d.offsets := by
  obtain ⟨rest, hrest⟩ := h
  rw [offsets_eq_offsetsFrom, offsets_eq_offsetsFrom, ← hrest, offsetsFrom_append]
  exact List.prefix_append _ _

theorem exists_listing_eq_append (h : c.toList <+: d.toList) :
    ∃ rest, d.listing = c.listing ++ rest := by
  obtain ⟨rest, hrest⟩ := h
  rw [listing_eq_listingFrom, listing_eq_listingFrom, ← hrest, listingFrom_append]
  exact ⟨_, rfl⟩

theorem byteSize_le_of_prefix (h : c.toList <+: d.toList) : c.byteSize ≤ d.byteSize := by
  obtain ⟨rest, hrest⟩ := h
  rw [← ofList_toList c, ← ofList_toList d, ← hrest, byteSize_ofList_append]
  exact Nat.le_add_right _ _

end Cil.Code
