import Cil.Token

/-!
# Numerals can be read back

Reading a padded numeral gives the number that it was printed from, however wide it is:
zeros in front do not count, and behind them the reader undoes the printer digit by digit.
A numeral holds nothing but digits, so it ends where any other character stands.
-/

namespace Cil.Hex

theorem digitValue?_digitChar {d : Nat} (h : d < 16) : digitValue? d.digitChar = some d := by
  have hall : ∀ d : Fin 16, digitValue? d.val.digitChar = some d.val := by decide
  exact hall ⟨d, h⟩

theorem valueFrom?_cons (acc : Nat) (c : Char) (cs : List Char) :
    valueFrom? acc (c :: cs) = (digitValue? c).bind fun d => valueFrom? (16 * acc + d) cs := by
  rw [valueFrom?]
  cases digitValue? c <;> rfl

/-- A numeral in two parts is read in two parts. -/
theorem valueFrom?_append (acc : Nat) (cs ds : List Char) :
    valueFrom? acc (cs ++ ds) = (valueFrom? acc cs).bind fun n => valueFrom? n ds := by
  induction cs generalizing acc with
  | nil => rfl
  | cons c cs ih =>
    rw [List.cons_append, valueFrom?_cons, valueFrom?_cons]
    cases digitValue? c with
    | none => rfl
    | some d => exact ih (16 * acc + d)

theorem valueFrom?_zeros (count : Nat) : valueFrom? 0 (List.replicate count '0') = some 0 := by
  induction count with
  | zero => rfl
  | succ count ih =>
    rw [List.replicate_succ, valueFrom?_cons]
    exact ih

/-- The induction follows the printer, which splits off the last digit. -/
theorem valueFrom?_toDigits (n : Nat) : valueFrom? 0 (Nat.toDigits 16 n) = some n := by
  induction n using Nat.strongRecOn with
  | ind n ih =>
    rw [Nat.toDigits_eq_if (by decide)]
    split
    · rename_i hsmall
      rw [valueFrom?_cons, digitValue?_digitChar hsmall]
      simp
    · rename_i hlarge
      have hquotient := ih (n / 16) (by omega)
      have hlast : n % 16 < 16 := Nat.mod_lt n (by decide)
      rw [valueFrom?_append, hquotient, Option.bind_some, valueFrom?_cons,
        digitValue?_digitChar hlast]
      simp only [Option.bind_some, valueFrom?_nil, Option.some.injEq]
      omega

theorem valueFrom?_digits (width n : Nat) : valueFrom? 0 (digits width n) = some n := by
  rw [digits, List.leftpad, valueFrom?_append, valueFrom?_zeros, Option.bind_some,
    valueFrom?_toDigits]

theorem value?_digits (width n : Nat) : value? (digits width n) = some n := by
  have hnonempty : digits width n ≠ [] := by
    simp [digits, List.leftpad, Nat.toDigits_ne_nil]
  rw [value?, List.isEmpty_eq_false_iff.mpr hnonempty]
  exact valueFrom?_digits width n

/-- Whatever can be read consists of digits. -/
theorem isSome_digitValue?_of_valueFrom? {acc n : Nat} {cs : List Char}
    (h : valueFrom? acc cs = some n) : ∀ c ∈ cs, (digitValue? c).isSome := by
  induction cs generalizing acc with
  | nil => simp
  | cons c cs ih =>
    rw [valueFrom?_cons, Option.bind_eq_some_iff] at h
    obtain ⟨d, hd, hrest⟩ := h
    rw [List.forall_mem_cons]
    exact ⟨Option.isSome_iff_exists.mpr ⟨d, hd⟩, ih hrest⟩

/-- A character that is no digit is not in a numeral. -/
theorem not_mem_digits {c : Char} (hc : digitValue? c = none) (width n : Nat) :
    c ∉ digits width n := by
  intro hmem
  have hread := value?_digits width n
  rw [value?] at hread
  split at hread
  · cases hread
  · have hdigit := isSome_digitValue?_of_valueFrom? hread c hmem
    rw [hc] at hdigit
    cases hdigit

end Cil.Hex
