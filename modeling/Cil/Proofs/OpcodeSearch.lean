import Mathlib.Data.List.Basic
import Cil.Code

/-!
# Searching code for opcodes in order

The search goes through the code once and takes an expected opcode as soon as it meets
one. No choice is ever taken back, and none needs to be: an opcode that could be taken at a
later place can be taken at the first one too, with more of the code left behind it for
the rest. What has been taken at the end is therefore the longest beginning of the
expected opcodes that occurs in the code at all.

`Code.LongestMatch` states this without the search. Its lemmas follow the steps of the
search, one for each of the ways to treat the next opcode of the code.

The complaint lists mnemonics in quotes. No mnemonic has a quote in it, so the opcodes can be
told from the text.
-/

namespace Cil.Code

open List

/-- Of all beginnings of the expected opcodes, `taken` is the longest that occurs in order,
not necessarily without gaps. -/
structure LongestMatch (expected actual taken : List Opcode) : Prop where
  isPrefix : taken <+: expected
  occurs : taken <+ actual
  longest : ∀ ops, ops <+: expected → ops <+ actual → ops.length ≤ taken.length

namespace LongestMatch

variable {expected actual taken taken' : List Opcode} {e a : Opcode}

/-- Where the search stops, at the end of either list, no further beginning can occur. -/
theorem ofOnlyEmpty (honly : ∀ ops, ops <+: expected → ops <+ actual → ops = []) :
    LongestMatch expected actual [] where
  isPrefix := nil_prefix
  occurs := nil_sublist actual
  longest := by
    intro ops hprefix hoccurs
    obtain rfl := honly ops hprefix hoccurs
    exact Nat.le_refl _

/-- Nothing is lost by taking an opcode at its first occurrence. -/
theorem take (h : LongestMatch expected actual taken) :
    LongestMatch (a :: expected) (a :: actual) (a :: taken) where
  isPrefix := cons_prefix_cons.mpr ⟨rfl, h.isPrefix⟩
  occurs := h.occurs.cons_cons a
  longest := by
    intro ops hprefix hoccurs
    obtain rfl | ⟨rest, rfl, hrest⟩ := prefix_cons_iff.mp hprefix
    · exact Nat.zero_le _
    · -- Wherever the rest occurred behind some `a`, it occurs behind the first one.
      have hrest_occurs : rest <+ actual := cons_sublist_cons.mp hoccurs
      have hle := h.longest rest hrest hrest_occurs
      simpa using hle

/-- An opcode of the code that is not the next expected one is of no use. -/
theorem skip (hne : e ≠ a) (h : LongestMatch (e :: expected) actual taken) :
    LongestMatch (e :: expected) (a :: actual) taken where
  isPrefix := h.isPrefix
  occurs := h.occurs.cons a
  longest := by
    intro ops hprefix hoccurs
    obtain rfl | ⟨rest, rfl, -⟩ := prefix_cons_iff.mp hprefix
    · exact Nat.zero_le _
    · exact h.longest _ hprefix (hoccurs.of_cons_of_ne hne)

/-- There is only one longest beginning. -/
theorem unique (h : LongestMatch expected actual taken)
    (h' : LongestMatch expected actual taken') : taken = taken' := by
  have hle : taken.length ≤ taken'.length := h'.longest taken h.isPrefix h.occurs
  have hge : taken'.length ≤ taken.length := h.longest taken' h'.isPrefix h'.occurs
  exact (prefix_of_prefix_length_le h.isPrefix h'.isPrefix hle).eq_of_length_le hge

theorem eq_expected_iff (h : LongestMatch expected actual taken) :
    taken = expected ↔ expected <+ actual := by
  constructor
  · rintro rfl
    exact h.occurs
  · intro hoccurs
    exact h.isPrefix.eq_of_length_le (h.longest expected (prefix_refl expected) hoccurs)

end LongestMatch

/-- The search splits the expected opcodes behind the longest beginning that occurs. -/
theorem exists_longestMatch_append_unmatched (expected actual : List Opcode) :
    ∃ taken, LongestMatch expected actual taken ∧
      taken ++ unmatched expected actual = expected := by
  fun_induction unmatched expected actual with
  | case1 expected => exact ⟨[], .ofOnlyEmpty fun _ _ hoccurs => sublist_nil.mp hoccurs, rfl⟩
  | case2 a as => exact ⟨[], .ofOnlyEmpty fun _ hprefix _ => prefix_nil.mp hprefix, rfl⟩
  | case3 es a as ih =>
    obtain ⟨taken, hmatch, hsplit⟩ := ih
    exact ⟨a :: taken, hmatch.take, congrArg (a :: ·) hsplit⟩
  | case4 e es a as hne ih =>
    obtain ⟨taken, hmatch, hsplit⟩ := ih
    exact ⟨taken, hmatch.skip hne, hsplit⟩

/-- Whatever stands behind the longest beginning that occurs is what the search leaves. -/
theorem LongestMatch.unmatched_eq {expected actual taken left : List Opcode}
    (h : LongestMatch expected actual taken) (hsplit : taken ++ left = expected) :
    unmatched expected actual = left := by
  obtain ⟨found, hfound, hsearch⟩ := exists_longestMatch_append_unmatched expected actual
  obtain rfl : found = taken := hfound.unique h
  exact append_cancel_left (hsearch.trans hsplit.symm)

theorem unmatched_eq_nil_iff {expected actual : List Opcode} :
    unmatched expected actual = [] ↔ expected <+ actual := by
  obtain ⟨taken, hmatch, hsplit⟩ := exists_longestMatch_append_unmatched expected actual
  rw [← hmatch.eq_expected_iff]
  constructor
  · intro hnone
    rw [← hsplit, hnone, append_nil]
  · rintro rfl
    exact append_right_eq_self.mp hsplit

/-- What is written behind a quoted mnemonic. -/
def afterQuote : List Opcode → List Char
  | [] => [']']
  | op :: ops => ',' :: ' ' :: '"' :: (op.name.toList ++ '"' :: afterQuote ops)

theorem toList_quotedNames_cons (op : Opcode) (ops : List Opcode) :
    (quotedNames (op :: ops)).toList = '[' :: '"' :: (op.name.toList ++ '"' :: afterQuote ops) := by
  induction ops generalizing op with
  | nil => simp [quotedNames, afterQuote]
  | cons next ops ih =>
    have hnext := ih next
    simp only [quotedNames, map_cons, String.intercalate_cons_cons] at hnext ⊢
    simp_all [afterQuote]

/-- No mnemonic has a quote in it, so the first quote behind a mnemonic ends it. -/
theorem name_append_quote_inj {op op' : Opcode} {cs cs' : List Char}
    (h : op.name.toList ++ '"' :: cs = op'.name.toList ++ '"' :: cs') : op = op' ∧ cs = cs' := by
  have hcut (op : Opcode) (cs : List Char) :
      (op.name.toList ++ '"' :: cs).takeWhile (· ≠ '"') = op.name.toList := by
    have hquote : ∀ c ∈ op.name.toList, decide (c ≠ '"') = true := by
      intro c hc
      exact decide_eq_true (ne_of_mem_of_not_mem hc (op.not_mem_name (by decide)))
    rw [takeWhile_append_of_pos hquote]
    simp
  have hname : op.name.toList = op'.name.toList := by
    rw [← hcut op cs, h, hcut]
  obtain rfl := Opcode.eq_of_name_eq (String.toList_inj.mp hname)
  exact ⟨rfl, (cons.inj (append_cancel_left h)).2⟩

theorem afterQuote_injective : Function.Injective afterQuote := by
  intro ops
  induction ops with
  | nil =>
    rintro (_ | ⟨op', ops'⟩) h
    · rfl
    · simp [afterQuote] at h
  | cons op ops ih =>
    rintro (_ | ⟨op', ops'⟩) h
    · simp [afterQuote] at h
    · simp only [afterQuote, cons.injEq, true_and] at h
      obtain ⟨rfl, hrest⟩ := name_append_quote_inj h
      rw [ih hrest]

theorem quotedNames_injective : Function.Injective quotedNames := by
  intro ops ops' h
  have hchars := congrArg String.toList h
  have hnil : (quotedNames []).toList = ['[', ']'] := rfl
  cases ops with
  | nil =>
    cases ops' with
    | nil => rfl
    | cons op' ops' => simp [hnil, toList_quotedNames_cons] at hchars
  | cons op ops =>
    cases ops' with
    | nil => simp [hnil, toList_quotedNames_cons] at hchars
    | cons op' ops' =>
      simp only [toList_quotedNames_cons, cons.injEq, true_and] at hchars
      obtain ⟨rfl, hrest⟩ := name_append_quote_inj hchars
      rw [afterQuote_injective hrest]

theorem missingOpcodes?_eq_none_iff {c : Code} {expected : List Opcode} :
    c.missingOpcodes? expected = none ↔ unmatched expected c.opcodes = [] := by
  cases hleft : unmatched expected c.opcodes with
  | nil => simp [missingOpcodes?, hleft]
  | cons op left => simp [missingOpcodes?, hleft]

theorem missingOpcodes?_eq_some_iff {c : Code} {expected : List Opcode} {message : String} :
    c.missingOpcodes? expected = some message ↔
      unmatched expected c.opcodes ≠ [] ∧
        "Missing opcodes in sequence.\nExpected to find: "
          ++ quotedNames (unmatched expected c.opcodes)
          ++ "\nActual stream:    " ++ quotedNames c.opcodes = message := by
  cases hleft : unmatched expected c.opcodes with
  | nil => simp [missingOpcodes?, hleft]
  | cons op left => simp [missingOpcodes?, hleft]

/-- The search has no complaint exactly if the expected opcodes occur in the code in their
order. Otherwise it reports what is left of them behind the longest beginning that occurs,
together with the opcodes of the code. The opcodes can be told from the text that lists
them. -/
theorem missingOpcodes?_decides_sublist (c : Code) (expected : List Opcode) :
    (c.missingOpcodes? expected = none ↔ expected <+ c.opcodes) ∧
    (∀ message, c.missingOpcodes? expected = some message ↔
      ∃ taken left, LongestMatch expected c.opcodes taken ∧ taken ++ left = expected ∧
        left ≠ [] ∧
        "Missing opcodes in sequence.\nExpected to find: " ++ quotedNames left
          ++ "\nActual stream:    " ++ quotedNames c.opcodes = message) ∧
    Function.Injective quotedNames := by
  refine ⟨?_, ?_, quotedNames_injective⟩
  · exact missingOpcodes?_eq_none_iff.trans unmatched_eq_nil_iff
  · intro message
    rw [missingOpcodes?_eq_some_iff]
    constructor
    · rintro ⟨hnonempty, hmessage⟩
      obtain ⟨taken, hmatch, hsplit⟩ := exists_longestMatch_append_unmatched expected c.opcodes
      exact ⟨taken, _, hmatch, hsplit, hnonempty, hmessage⟩
    · rintro ⟨taken, left, hmatch, hsplit, hnonempty, hmessage⟩
      obtain rfl := hmatch.unmatched_eq hsplit
      exact ⟨hnonempty, hmessage⟩

-- The `add` at the end does not make up for the `ret` that is missing before it.
example : unmatched [.add, .ret, .ret, .add] [.ret, .add, .ret, .add] = [.ret, .add] := by decide

end Cil.Code
