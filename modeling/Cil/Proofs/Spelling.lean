import Mathlib.Data.List.Induction
import Cil.Proofs.WrappedToken

/-!
# Types of the same spelling

A type is written as its base, followed by its wrappers from the inside out. Read from the
end, the wrappers can be taken off one by one, because neither `[]` nor `&` ends in the
other. What is left at last is the base, if its name does not itself end like a wrapper: a
class named `int[]` is written like an array of `int` and has a token of its own.

With such names out of the way, the text of a type fixes its base name and its wrappers,
and the token is computed from these two. So the token does not show whether a type is built
in or declared, or whether it is a value type.
-/

namespace Cil

namespace Wrap

/-- The text does not end in a wrapper. -/
def Bare (s : String) : Prop :=
  ¬ "[]".toList <:+ s.toList ∧ ¬ "&".toList <:+ s.toList

instance (s : String) : Decidable (Bare s) :=
  inferInstanceAs (Decidable (¬ _ ∧ ¬ _))

theorem Bare.ne_append {s : String} (h : Bare s) (r : String) (w : Wrap) : s ≠ r ++ w.text := by
  rintro rfl
  cases w with
  | array => exact h.1 ⟨r.toList, String.toList_append.symm⟩
  | byRef => exact h.2 ⟨r.toList, String.toList_append.symm⟩

/-- The last wrapper of a text and what stands before it are determined. -/
theorem append_text_inj {r s : String} {v w : Wrap} :
    r ++ v.text = s ++ w.text ↔ r = s ∧ v = w := by
  constructor
  · intro h
    have hlast (r : String) (w : Wrap) :
        (r ++ w.text).toList.getLast? = w.text.toList.getLast? := by
      cases w <;> simp [text]
    have hsame : v.text.toList.getLast? = w.text.toList.getLast? := by
      rw [← hlast r v, h, hlast s w]
    obtain rfl : v = w := by
      revert hsame
      cases v <;> cases w <;> decide
    exact ⟨(String.append_left_inj _).mp h, rfl⟩
  · rintro ⟨rfl, rfl⟩
    rfl

theorem textAll_nil : textAll [] = "" := rfl

theorem textAll_cons (w : Wrap) (ws : List Wrap) : textAll (w :: ws) = w.text ++ textAll ws := by
  simp [textAll]

theorem textAll_concat (ws : List Wrap) (w : Wrap) :
    textAll (ws ++ [w]) = textAll ws ++ w.text := by
  simp [textAll]

/-- A text is in one way only a bare text with wrappers behind it. The induction takes the
wrappers off at the end. -/
theorem append_textAll_inj {r s : String} (hr : Bare r) (hs : Bare s) {vs ws : List Wrap} :
    r ++ textAll vs = s ++ textAll ws ↔ r = s ∧ vs = ws := by
  constructor
  · intro h
    induction vs using List.reverseRecOn generalizing ws with
    | nil =>
      obtain rfl | ⟨ws, w, rfl⟩ := List.eq_nil_or_concat ws
      · exact ⟨(String.append_left_inj _).mp h, rfl⟩
      · rw [textAll_nil, String.append_empty, List.concat_eq_append, textAll_concat,
          ← String.append_assoc] at h
        exact absurd h (hr.ne_append _ w)
    | append_singleton vs v ih =>
      rw [textAll_concat, ← String.append_assoc] at h
      obtain rfl | ⟨ws, w, rfl⟩ := List.eq_nil_or_concat ws
      · rw [textAll_nil, String.append_empty] at h
        exact absurd h.symm (hs.ne_append _ v)
      · rw [List.concat_eq_append, textAll_concat, ← String.append_assoc] at h
        obtain ⟨hrest, rfl⟩ := append_text_inj.mp h
        obtain ⟨hbase, rfl⟩ := ih hrest
        exact ⟨hbase, List.concat_eq_append.symm⟩
  · rintro ⟨rfl, rfl⟩
    rfl

end Wrap

namespace Ty

theorem text_wrapAll (t : Ty) (ws : List Wrap) :
    (t.wrapAll ws).text = t.text ++ Wrap.textAll ws := by
  induction ws generalizing t with
  | nil => exact String.append_empty.symm
  | cons w ws ih =>
    have hone : (w.apply t).text = t.text ++ w.text := by cases w <;> rfl
    rw [wrapAll_cons, ih, hone, Wrap.textAll_cons, String.append_assoc]

theorem text_eq_append (t : Ty) : t.text = t.base.text ++ Wrap.textAll t.wraps := by
  rw [← text_wrapAll, base_wrapAll_wraps]

/-- The name of a built-in type is bare, so only declared names have to be asked for it. -/
theorem bare_text_base {t : Ty}
    (h : ∀ name valueType, t.base = named name valueType → Wrap.Bare name) :
    Wrap.Bare t.base.text := by
  induction t with
  | prim kind => cases kind <;> decide
  | object => decide
  | string => decide
  | named name valueType => exact h name valueType rfl
  | array t ih => exact ih h
  | byRef t ih => exact ih h

/-- A base has the token of its name, be it built in or declared. -/
theorem token_base (t : Ty) : t.base.token = .ofName t.base.text := by
  induction t with
  | prim kind => exact kind.token_eq_ofName
  | array t ih => exact ih
  | byRef t ih => exact ih
  | _ => rfl

/-- A declared type of either kind can stand in for the base of a type with the same name. -/
theorem token_named_wrapAll (t : Ty) (valueType : Bool) :
    ((named t.base.text valueType).wrapAll t.wraps).token = t.token := by
  have hbase : (named t.base.text valueType).token = t.base.token := t.token_base.symm
  calc ((named t.base.text valueType).wrapAll t.wraps).token
      = (t.base.wrapAll t.wraps).token := (token_wrapAll_inj t.wraps).mpr hbase
    _ = t.token := by rw [base_wrapAll_wraps]

/-- If names do not end like wrappers, types are written alike exactly if their bases are
written alike and their wrappers are the same, and then they have the same token. In
particular a declared type, of either kind, can stand in for the base. -/
theorem token_of_spelling {a b : Ty}
    (ha : ∀ name valueType, a.base = named name valueType → Wrap.Bare name)
    (hb : ∀ name valueType, b.base = named name valueType → Wrap.Bare name) :
    (a.text = b.text ↔ a.base.text = b.base.text ∧ a.wraps = b.wraps) ∧
    (a.text = b.text → a.token = b.token) ∧
    ∀ valueType, ((named a.base.text valueType).wrapAll a.wraps).token = a.token := by
  have htext : a.text = b.text ↔ a.base.text = b.base.text ∧ a.wraps = b.wraps := by
    rw [a.text_eq_append, b.text_eq_append]
    exact Wrap.append_textAll_inj (bare_text_base ha) (bare_text_base hb)
  refine ⟨htext, ?_, a.token_named_wrapAll⟩
  intro h
  obtain ⟨hbase, hwraps⟩ := htext.mp h
  -- Both types have the token of one and the same declared type under these wrappers.
  rw [← a.token_named_wrapAll false, ← b.token_named_wrapAll false, hbase, hwraps]

/-- A value type named like the built-in integers has their token, also inside a reference
to an array. -/
theorem token_of_spelling_of_int :
    let a := int32.wrapAll [.array, .byRef]
    let b := (ofValue "int").wrapAll [.array, .byRef]
    ((∀ name valueType, a.base = named name valueType → Wrap.Bare name) ∧
      ∀ name valueType, b.base = named name valueType → Wrap.Bare name) ∧
    a ≠ b ∧ a.text = "int[]&" ∧ a.text = b.text ∧ a.token = b.token := by
  intro a b
  have ha : ∀ name valueType, a.base = named name valueType → Wrap.Bare name := by
    intro name valueType h
    cases h
  have hb : ∀ name valueType, b.base = named name valueType → Wrap.Bare name := by
    intro name valueType h
    cases h
    decide
  have htext : a.text = b.text := by decide
  exact ⟨⟨ha, hb⟩, by decide, by decide, htext, (token_of_spelling ha hb).2.1 htext⟩

end Ty
end Cil
