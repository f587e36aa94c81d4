import Mathlib.Tactic.SplitIfs
import Stencil.Text.Reference

/-!
# Reading references

`decode` reads the references that `escapeHtml` writes, in one go from left to right: what a
reference stands for is not read again. An `&` in front of anything else stands for itself.

Results:
* `decodeChars_escapeChars`: what is escaped is read back, whatever is behind it.
* `decode_escapeHtml`, `escapeHtml_append`: the same of whole texts, and of texts put together.
-/

namespace Stencil.Text

/-- The characters with each of the six references replaced by the character it stands for. -/
def decodeChars : List Char → List Char
  | '&' :: 'a' :: 'm' :: 'p' :: ';' :: cs => '&' :: decodeChars cs
  | '&' :: '#' :: '3' :: '9' :: ';' :: cs => '\'' :: decodeChars cs
  | '&' :: 'l' :: 't' :: ';' :: cs => '<' :: decodeChars cs
  | '&' :: 'g' :: 't' :: ';' :: cs => '>' :: decodeChars cs
  | '&' :: '#' :: '3' :: '4' :: ';' :: cs => '"' :: decodeChars cs
  | '&' :: '#' :: '1' :: '3' :: ';' :: cs => '\r' :: decodeChars cs
  | c :: cs => c :: decodeChars cs
  | [] => []

def decode (s : String) : String := String.ofList (decodeChars s.toList)

@[simp] theorem toList_decode (s : String) : (decode s).toList = decodeChars s.toList := by
  simp [decode]

theorem decodeChars_cons {c : Char} (h : c ≠ '&') (cs : List Char) :
    decodeChars (c :: cs) = c :: decodeChars cs := by
  rw [decodeChars] <;> simp [h]

theorem decodeChars_plain {cs : List Char} (h : '&' ∉ cs) (ds : List Char) :
    decodeChars (cs ++ ds) = cs ++ decodeChars ds := by
  induction cs with
  | nil => rfl
  | cons c cs ih =>
    simp only [List.mem_cons, not_or] at h
    rw [List.cons_append, decodeChars_cons (Ne.symm h.1), ih h.2, List.cons_append]

theorem decodeChars_reference {c : Char} {r : List Char} (h : reference? c = some r)
    (cs : List Char) : decodeChars (r ++ cs) = c :: decodeChars cs := by
  unfold reference? at h
  split_ifs at h with hc hc hc hc hc hc
  all_goals
    cases h
    subst hc
    rfl

theorem decodeChars_escapeChar (c : Char) (cs : List Char) :
    decodeChars (escapeChar c ++ cs) = c :: decodeChars cs := by
  cases hc : reference? c with
  | some r => simpa [escapeChar, hc] using decodeChars_reference hc cs
  | none =>
    have hne : c ≠ '&' := by
      rintro rfl
      cases hc
    simpa [escapeChar, hc] using decodeChars_cons hne cs

theorem decodeChars_escapeChars (cs ds : List Char) :
    decodeChars (escapeChars cs ++ ds) = cs ++ decodeChars ds := by
  induction cs with
  | nil => rfl
  | cons c cs ih =>
    have hcons : escapeChars (c :: cs) = escapeChar c ++ escapeChars cs := rfl
    rw [hcons, List.append_assoc, decodeChars_escapeChar, ih, List.cons_append]

/-! ## Whole texts -/

theorem decode_escapeHtml (s : String) : decode (escapeHtml s) = s := by
  have h := decodeChars_escapeChars s.toList []
  rw [List.append_nil] at h
  rw [decode, toList_escapeHtml, h]
  simp [decodeChars]

example : decode "&amp;lt;&" = "&lt;&" := by cbv

/-- Whether or not there is something to escape in one of the texts, or in both. -/
theorem escapeHtml_append (s t : String) :
    escapeHtml (s ++ t) = escapeHtml s ++ escapeHtml t := by
  apply String.toList_injective
  simp

end Stencil.Text
