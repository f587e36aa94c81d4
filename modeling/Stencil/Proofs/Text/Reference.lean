import Stencil.Text.Reference

/-!
# Texts without special characters

`escapeChars` leaves none of the special characters behind but `&`, and that only at the front of a
reference.

Results:
* `not_mem_escapeChars`: no character of `rawSpecials` is left.
* `onlyReferences_escapeChars`: each `&` that is left begins a reference.
-/

namespace Stencil.Text

/-- The special characters that no reference is made of. -/
def rawSpecials : List Char := ['<', '>', '\'', '"', '\r']

/-- The references, one for each special character. -/
def references : List String := ["&amp;", "&#39;", "&lt;", "&gt;", "&#34;", "&#13;"]

/-- Each `&` is the first character of a reference. -/
def OnlyReferences (cs : List Char) : Prop :=
  ∀ pre post, cs = pre ++ '&' :: post → ∃ r ∈ references, r.toList <+: '&' :: post

/-- A character is written as itself, or as one of the references. -/
theorem escapeChar_cases (c : Char) :
    (escapeChar c = [c] ∧ c ∉ '&' :: rawSpecials) ∨
      ∃ r ∈ references, escapeChar c = r.toList := by
  by_cases h₁ : c = '&'
  · subst h₁; exact .inr ⟨"&amp;", by decide, rfl⟩
  by_cases h₂ : c = '\''
  · subst h₂; exact .inr ⟨"&#39;", by decide, rfl⟩
  by_cases h₃ : c = '<'
  · subst h₃; exact .inr ⟨"&lt;", by decide, rfl⟩
  by_cases h₄ : c = '>'
  · subst h₄; exact .inr ⟨"&gt;", by decide, rfl⟩
  by_cases h₅ : c = '"'
  · subst h₅; exact .inr ⟨"&#34;", by decide, rfl⟩
  by_cases h₆ : c = '\r'
  · subst h₆; exact .inr ⟨"&#13;", by decide, rfl⟩
  exact .inl ⟨by simp [escapeChar, reference?, *], by simp [rawSpecials, *]⟩

theorem reference_cons {r : String} (h : r ∈ references) :
    ∃ cs, r.toList = '&' :: cs ∧ '&' ∉ cs ∧ ∀ c ∈ cs, c ∉ rawSpecials := by
  simp only [references, List.mem_cons, List.not_mem_nil, or_false] at h
  rcases h with rfl | rfl | rfl | rfl | rfl | rfl
  · exact ⟨['a', 'm', 'p', ';'], rfl, by simp, by simp [rawSpecials]⟩
  · exact ⟨['#', '3', '9', ';'], rfl, by simp, by simp [rawSpecials]⟩
  · exact ⟨['l', 't', ';'], rfl, by simp, by simp [rawSpecials]⟩
  · exact ⟨['g', 't', ';'], rfl, by simp, by simp [rawSpecials]⟩
  · exact ⟨['#', '3', '4', ';'], rfl, by simp, by simp [rawSpecials]⟩
  · exact ⟨['#', '1', '3', ';'], rfl, by simp, by simp [rawSpecials]⟩

theorem not_mem_escapeChars {c : Char} (hc : c ∈ rawSpecials) (cs : List Char) :
    c ∉ escapeChars cs := by
  intro h
  obtain ⟨d, -, hd⟩ := List.mem_flatMap.1 h
  rcases escapeChar_cases d with ⟨he, hn⟩ | ⟨r, hr, he⟩
  · rw [he, List.mem_singleton] at hd
    subst hd
    exact hn (List.mem_cons_of_mem _ hc)
  · obtain ⟨ds, hds, -, hraw⟩ := reference_cons hr
    rw [he, hds, List.mem_cons] at hd
    rcases hd with rfl | hd
    · exact absurd hc (by decide)
    · exact hraw c hd hc

/-! ## References -/

theorem onlyReferences_of_not_mem {cs : List Char} (h : '&' ∉ cs) : OnlyReferences cs := by
  rintro pre post rfl
  simp at h

/-- No reference is cut in two where two such texts meet. -/
theorem OnlyReferences.append {cs ds : List Char} (hc : OnlyReferences cs)
    (hd : OnlyReferences ds) : OnlyReferences (cs ++ ds) := by
  intro pre post h
  rcases List.append_eq_append_iff.1 h with ⟨mid, rfl, hmid⟩ | ⟨mid, hcs, hmid⟩
  · exact hd mid post hmid
  · cases mid with
    | nil => exact hd [] post (by simpa using hmid.symm)
    | cons c mid =>
      simp only [List.cons_append, List.cons.injEq] at hmid
      obtain ⟨rfl, rfl⟩ := hmid
      obtain ⟨r, hr, hpre⟩ := hc pre mid hcs
      exact ⟨r, hr, hpre.trans ⟨ds, by simp⟩⟩

theorem onlyReferences_flatMap {α : Type} {f : α → List Char} :
    ∀ {xs : List α}, (∀ x ∈ xs, OnlyReferences (f x)) → OnlyReferences (xs.flatMap f)
  | [], _ => onlyReferences_of_not_mem (by simp)
  | x :: xs, h => by
    rw [List.flatMap_cons]
    exact (h x (by simp)).append (onlyReferences_flatMap fun y hy => h y (by simp [hy]))

theorem onlyReferences_escapeChar (c : Char) : OnlyReferences (escapeChar c) := by
  rcases escapeChar_cases c with ⟨he, hn⟩ | ⟨r, hr, he⟩
  · rw [he]
    exact onlyReferences_of_not_mem fun h => hn (by simp [← List.mem_singleton.1 h])
  · obtain ⟨cs, hcs, hamp, -⟩ := reference_cons hr
    intro pre post h
    rw [he, hcs] at h
    cases pre with
    | nil =>
      refine ⟨r, hr, ?_⟩
      rw [hcs, h]
      exact List.prefix_rfl
    | cons d pre =>
      simp only [List.cons_append, List.cons.injEq] at h
      exact absurd (by simp [h.2]) hamp

theorem onlyReferences_escapeChars (cs : List Char) : OnlyReferences (escapeChars cs) :=
  onlyReferences_flatMap fun c _ => onlyReferences_escapeChar c

end Stencil.Text
