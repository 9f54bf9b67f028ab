import Cil.Proofs.HexNumeral
import Cil.Token

/-!
# Tokens and their texts

The text of a token is a numeral of a fixed width. Such a numeral can be read back, and
numerals of one width are ordered as texts exactly as the numbers are ordered: the first
digit that differs decides about both, because what comes behind it can never make up for a
difference of one in front. In the order of characters all letters come behind all decimal
digits, with other characters between them, so the order of digits is the order of their
values.

It follows that tokens may be sorted before or after they are printed.
-/

namespace Cil

namespace Hex

/-- The digits that numerals are printed with. -/
def lowerDigits : List Char :=
  ['0', '1', '2', '3', '4', '5', '6', '7', '8', '9', 'a', 'b', 'c', 'd', 'e', 'f']

theorem mem_lowerDigits_iff {c : Char} : c ∈ lowerDigits ↔ ∃ v < 16, c = Nat.digitChar v := by
  have hdigits : lowerDigits = (List.range 16).map Nat.digitChar := by decide
  simp [hdigits, eq_comm]

/-- Digits are ordered by their values, although their codes are not consecutive. -/
theorem digitChar_lt_digitChar_iff {v w : Nat} (hv : v < 16) (hw : w < 16) :
    v.digitChar < w.digitChar ↔ v < w := by
  have hall : ∀ v w : Fin 16, v.val.digitChar < w.val.digitChar ↔ v < w := by decide
  exact hall ⟨v, hv⟩ ⟨w, hw⟩

theorem toDigits_subset (n : Nat) : Nat.toDigits 16 n ⊆ lowerDigits := by
  induction n using Nat.strongRecOn with
  | ind n ih =>
    rw [Nat.toDigits_eq_if (by decide)]
    split
    · rename_i hsmall
      simpa using mem_lowerDigits_iff.mpr ⟨n, hsmall, rfl⟩
    · rename_i hlarge
      have hlast : (n % 16).digitChar ∈ lowerDigits :=
        mem_lowerDigits_iff.mpr ⟨n % 16, Nat.mod_lt n (by decide), rfl⟩
      simpa using ⟨ih (n / 16) (by omega), hlast⟩

theorem digits_subset (width n : Nat) : digits width n ⊆ lowerDigits := by
  intro c hc
  rcases List.mem_append.mp hc with hzero | hdigit
  · rw [List.eq_of_mem_replicate hzero]
    decide
  · exact toDigits_subset n hdigit

/-- Digits behind a smaller number never make up for the difference. -/
theorem valueFrom?_lt_of_lt {cs ds : List Char} {a b m n : Nat} (hcs : cs ⊆ lowerDigits)
    (hlength : cs.length = ds.length) (hab : a < b) (hm : valueFrom? a cs = some m)
    (hn : valueFrom? b ds = some n) : m < n := by
  induction cs generalizing ds a b with
  | nil =>
    obtain rfl : ds = [] := List.eq_nil_of_length_eq_zero hlength.symm
    cases hm
    cases hn
    exact hab
  | cons c cs ih =>
    obtain ⟨d, ds, rfl⟩ := List.exists_cons_of_length_eq_add_one hlength.symm
    obtain ⟨hc, hcs'⟩ := List.cons_subset.mp hcs
    obtain ⟨v, hv, rfl⟩ := mem_lowerDigits_iff.mp hc
    rw [valueFrom?_cons, digitValue?_digitChar hv] at hm
    rw [valueFrom?_cons, Option.bind_eq_some_iff] at hn
    obtain ⟨w, -, hn⟩ := hn
    exact ih hcs' (Nat.succ.inj hlength) (by omega) hm hn

/-- Numerals of one length are ordered by their values. The induction runs over both of them;
the first digit that differs decides. -/
theorem lt_iff_value_lt {cs ds : List Char} {acc m n : Nat} (hcs : cs ⊆ lowerDigits)
    (hds : ds ⊆ lowerDigits) (hlength : cs.length = ds.length)
    (hm : valueFrom? acc cs = some m) (hn : valueFrom? acc ds = some n) : cs < ds ↔ m < n := by
  induction cs generalizing ds acc with
  | nil =>
    obtain rfl : ds = [] := List.eq_nil_of_length_eq_zero hlength.symm
    cases hm
    cases hn
    simp
  | cons c cs ih =>
    obtain ⟨d, ds, rfl⟩ := List.exists_cons_of_length_eq_add_one hlength.symm
    have htails : cs.length = ds.length := Nat.succ.inj hlength
    obtain ⟨hc, hcs'⟩ := List.cons_subset.mp hcs
    obtain ⟨hd, hds'⟩ := List.cons_subset.mp hds
    obtain ⟨v, hv, rfl⟩ := mem_lowerDigits_iff.mp hc
    obtain ⟨w, hw, rfl⟩ := mem_lowerDigits_iff.mp hd
    rw [valueFrom?_cons, digitValue?_digitChar hv, Option.bind_some] at hm
    rw [valueFrom?_cons, digitValue?_digitChar hw, Option.bind_some] at hn
    rw [List.cons_lt_cons_iff, digitChar_lt_digitChar_iff hv hw]
    rcases Nat.lt_trichotomy v w with hlt | rfl | hgt
    · have hmn : m < n := valueFrom?_lt_of_lt hcs' htails (by omega) hm hn
      exact iff_of_true (.inl hlt) hmn
    · have hrest := ih hcs' hds' htails hm hn
      simpa using hrest
    · have hnm : n < m := valueFrom?_lt_of_lt hds' htails.symm (by omega) hn hm
      have hne : v.digitChar ≠ w.digitChar := by
        intro heq
        have hvalue := digitValue?_digitChar hv
        rw [heq, digitValue?_digitChar hw] at hvalue
        cases hvalue
        omega
      refine iff_of_false ?_ (by omega)
      rintro (hlt | ⟨heq, -⟩)
      · omega
      · exact hne heq

theorem digits_lt_digits_iff {width m n : Nat}
    (hlength : (digits width m).length = (digits width n).length) :
    digits width m < digits width n ↔ m < n :=
  lt_iff_value_lt (digits_subset width m) (digits_subset width n) hlength
    (valueFrom?_digits width m) (valueFrom?_digits width n)

end Hex

namespace Token

theorem toList_text (t : Token) : t.text.toList = '0' :: 'x' :: Hex.digits 16 t.bits.toNat := by
  simp [text]

/-- Sixteen digits are enough for 64 bits. -/
theorem length_digits_bits (t : Token) : (Hex.digits 16 t.bits.toNat).length = 16 := by
  have hfits : (Nat.toDigits 16 t.bits.toNat).length ≤ 16 :=
    (Nat.length_toDigits_le_iff (by decide) (by decide)).mpr t.bits.toNat_lt
  rw [Hex.length_digits]
  omega

theorem ofText?_text (t : Token) : ofText? t.text = some t := by
  have hfits : t.bits.toNat < UInt64.size := t.bits.toNat_lt
  simp [ofText?, toList_text, Hex.value?_digits, hfits]

theorem text_lt_text_iff (t u : Token) : t.text < u.text ↔ t < u := by
  have hlength : (Hex.digits 16 t.bits.toNat).length = (Hex.digits 16 u.bits.toNat).length :=
    t.length_digits_bits.trans u.length_digits_bits.symm
  calc t.text < u.text
    _ ↔ t.text.toList < u.text.toList := String.lt_iff
    _ ↔ Hex.digits 16 t.bits.toNat < Hex.digits 16 u.bits.toNat := by
      rw [toList_text, toList_text, List.cons_lt_cons_self, List.cons_lt_cons_self]
    _ ↔ t.bits.toNat < u.bits.toNat := Hex.digits_lt_digits_iff hlength
    _ ↔ t < u := UInt64.lt_iff_toNat_lt.symm

theorem text_le_text_iff (t u : Token) : t.text ≤ u.text ↔ t ≤ u := by
  have hnot : ¬ u.text < t.text ↔ ¬ u < t := not_congr (u.text_lt_text_iff t)
  exact hnot.trans UInt64.not_lt

/-- Tokens can be sorted before or after they are printed. -/
theorem map_text_sort (ts : List Token) :
    (sort ts).map text = (ts.map text).mergeSort fun a b => decide (a ≤ b) := by
  apply List.map_mergeSort
  intro t _ u _
  exact decide_eq_decide.mpr (t.text_le_text_iff u).symm

/-- The text of a token is `0x` and sixteen lower-case digits, from which the token can be
read back. Texts are ordered as the tokens are, so that sorting gives the same order. -/
theorem text_faithful_and_ordered :
    (∀ t : Token, ∃ ds : List Char, t.text = "0x" ++ String.ofList ds ∧ ds.length = 16 ∧
      ds ⊆ Hex.lowerDigits ∧ Hex.value? ds = some t.bits.toNat ∧ ofText? t.text = some t) ∧
    (∀ t u : Token, t < u ↔ t.text < u.text) ∧
    ∀ ts : List Token, (sort ts).map text = (ts.map text).mergeSort fun a b => decide (a ≤ b) := by
  refine ⟨?_, ?_, map_text_sort⟩
  · intro t
    exact ⟨Hex.digits 16 t.bits.toNat, rfl, t.length_digits_bits, Hex.digits_subset 16 _,
      Hex.value?_digits 16 _, t.ofText?_text⟩
  · intro t u
    exact (t.text_lt_text_iff u).symm

end Token
end Cil
