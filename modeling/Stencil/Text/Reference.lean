/-!
# Character references

Six characters have a special meaning in HTML text and attribute values, or are rewritten by a
reader of HTML: `&`, `'`, `<`, `>`, `"` and the carriage return. `escapeHtml` writes each as a
character reference.

Results:
* `toList_escapeHtml`: the text is escaped character by character, also when it is given back as it
  is.
-/

namespace Stencil.Text

/-- The reference that stands for `c`, if `c` is special. -/
def reference? (c : Char) : Option (List Char) :=
  if c = '&' then some ['&', 'a', 'm', 'p', ';']
  else if c = '\'' then some ['&', '#', '3', '9', ';']
  else if c = '<' then some ['&', 'l', 't', ';']
  else if c = '>' then some ['&', 'g', 't', ';']
  else if c = '"' then some ['&', '#', '3', '4', ';']
  else if c = '\r' then some ['&', '#', '1', '3', ';']
  else none

/-- Has to be written as a reference. -/
def isSpecial (c : Char) : Bool := (reference? c).isSome

def escapeChar (c : Char) : List Char := (reference? c).getD [c]

def escapeChars (cs : List Char) : List Char := cs.flatMap escapeChar

/-- Some character of `s` has to be written as a reference. -/
def needsEscape (s : String) : Bool := s.toList.any isSpecial

/-- The text `s` with its special characters as references; `s` itself if there are none
(`escape_html`). -/
def escapeHtml (s : String) : String :=
  if needsEscape s then String.ofList (escapeChars s.toList) else s

theorem escapeChars_of_not_special {cs : List Char} (h : cs.any isSpecial = false) :
    escapeChars cs = cs := by
  induction cs with
  | nil => rfl
  | cons c cs ih =>
    simp only [List.any_cons, Bool.or_eq_false_iff] at h
    have hc : reference? c = none := by simpa [isSpecial] using h.1
    simp only [escapeChars, List.flatMap_cons] at ih ⊢
    rw [ih h.2]
    simp [escapeChar, hc]

@[simp] theorem toList_escapeHtml (s : String) :
    (escapeHtml s).toList = escapeChars s.toList := by
  unfold escapeHtml
  split
  · simp
  · rename_i h
    exact (escapeChars_of_not_special (by simpa [needsEscape] using h)).symm

@[simp] theorem escapeChars_append (cs ds : List Char) :
    escapeChars (cs ++ ds) = escapeChars cs ++ escapeChars ds := by
  simp [escapeChars]

end Stencil.Text
