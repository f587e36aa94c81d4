import Mathlib
import Stencil.Error
import Stencil.Text.Reading

/-!
# Positions and offsets

A position is the line and the column of a byte offset. Both are counted in the text before the
offset, so each character more puts the position further on, and no two boundaries between
characters have one position. An error that tells the position of a boundary thus tells the
boundary.

Results:
* `Position.after_eq`: the line counts the line ends, the column the characters behind the last one.
* `positionAt_lt`: positions increase with the offset.
* `positionAt_of_le`: an offset past the end has the position of the end.
* `eq_of_positionAt_eq`: boundaries of one position are the same.
* `located_of_tells`: where an error is that tells a position.
-/

namespace Stencil

namespace Text

/-! ## Order of positions -/

namespace Position

/-- Lines from top to bottom, and columns from left to right. -/
instance : LT Position where
  lt p q := p.line < q.line ∨ p.line = q.line ∧ p.column < q.column

variable {p q r : Position}

theorem lt_iff : p < q ↔ p.line < q.line ∨ p.line = q.line ∧ p.column < q.column := Iff.rfl

instance : DecidableLT Position := fun _ _ => decidable_of_iff' _ lt_iff

theorem lt_irrefl (p : Position) : ¬p < p := by
  rw [lt_iff]
  omega

theorem lt_trans (hpq : p < q) (hqr : q < r) : p < r := by
  rw [lt_iff] at *
  omega

theorem lt_next (p : Position) (c : Char) : p < p.next c := by
  rw [lt_iff, next]
  split
  · exact .inl p.line.lt_succ_self
  · exact .inr ⟨rfl, p.column.lt_succ_self⟩

/-- Each character more puts the position further on. -/
theorem lt_foldl_next {cs : List Char} (hne : cs ≠ []) (p : Position) : p < cs.foldl next p := by
  induction cs generalizing p with
  | nil => contradiction
  | cons c cs ih =>
    rw [List.foldl_cons]
    by_cases hcs : cs = []
    · subst hcs
      exact lt_next p c
    · exact lt_trans (lt_next p c) (ih hcs (p.next c))

/-- **Lines and columns.** The line is one more than the line ends in the text, the column one more
than the characters behind the last of them. -/
theorem after_eq (cs : List Char) :
    after cs = ⟨cs.count '\n' + 1, (cs.rtakeWhile (· ≠ '\n')).length + 1⟩ := by
  induction cs using List.reverseRecOn with
  | nil => rfl
  | append_singleton cs c ih =>
    have hnext : after (cs ++ [c]) = (after cs).next c := by
      rw [after, List.foldl_append]
      rfl
    rw [hnext, ih, next, List.rtakeWhile_concat, List.count_append]
    by_cases hc : c = '\n'
    · simp [hc]
    · simp [hc]

end Position

/-! ## Positions of offsets -/

/-- The offset is between two characters of the source, or at one of its ends. -/
def Boundary (source : List Char) (offset : Nat) : Prop :=
  ∃ before after, source = before ++ after ∧ byteSize before = offset

variable {source : List Char} {i j : Nat}

theorem boundary_append (before after : List Char) :
    Boundary (before ++ after) (byteSize before) := ⟨before, after, rfl, rfl⟩

/-- Of two boundaries the later one has more text before it. -/
theorem exists_between (hi : Boundary source i) (hj : Boundary source j) (h : i < j) :
    ∃ before between after, between ≠ [] ∧ source = before ++ between ++ after ∧
      byteSize before = i ∧ byteSize (before ++ between) = j := by
  obtain ⟨before, rest, hsource, rfl⟩ := hi
  obtain ⟨before', after, hsource', rfl⟩ := hj
  rcases List.append_eq_append_iff.1 (hsource.symm.trans hsource') with
    ⟨between, rfl, hrest⟩ | ⟨between, rfl, hrest⟩
  · refine ⟨before, between, after, ?_, hsource', rfl, rfl⟩
    rintro rfl
    simp at h
  · simp only [byteSize_append] at h
    omega

/-- **Positions increase** with the offset. -/
theorem positionAt_lt (hi : Boundary source i) (hj : Boundary source j) (h : i < j) :
    positionAt source i < positionAt source j := by
  obtain ⟨before, between, after, hne, rfl, rfl, rfl⟩ := exists_between hi hj h
  rw [positionAt_append, List.append_assoc, positionAt_append, Position.after, Position.after,
    List.foldl_append]
  exact Position.lt_foldl_next hne _

-- A line end is the last character of its line.
example : positionAt ['é', '\n', 'x'] 2 < positionAt ['é', '\n', 'x'] 3 := by decide

theorem eq_of_positionAt_eq (hi : Boundary source i) (hj : Boundary source j)
    (h : positionAt source i = positionAt source j) : i = j := by
  rcases Nat.lt_trichotomy i j with hlt | heq | hgt
  · exact absurd (h ▸ positionAt_lt hi hj hlt) (Position.lt_irrefl _)
  · exact heq
  · exact absurd (h ▸ positionAt_lt hj hi hgt) (Position.lt_irrefl _)

theorem walkBytes_of_le (p : Position) {cs : List Char} (h : byteSize cs ≤ i) :
    walkBytes p cs i = cs.foldl Position.next p := by
  induction cs generalizing p i with
  | nil => rfl
  | cons c cs ih =>
    rw [byteSize_cons] at h
    have hc : 0 < c.utf8Size := c.utf8Size_pos
    obtain ⟨n, rfl⟩ : ∃ n, i = n + 1 := ⟨i - 1, by omega⟩
    rw [walkBytes, if_pos (by omega), ih _ (by omega), List.foldl_cons]

/-- An offset past the end has the position of the end. -/
theorem positionAt_of_le (h : byteSize source ≤ i) :
    positionAt source i = positionAt source (byteSize source) := by
  rw [positionAt, positionAt, walkBytes_of_le _ h, walkBytes_of_le _ (Nat.le_refl _)]

end Text

/-! ## Positions in errors -/

namespace Error

open Text (Position positionAt Boundary byteSize)

/-- What the faults of the error have under a key, outermost first. -/
def valuesOf (e : Error) (key : String) : List String :=
  e.faults.flatMap fun f => f.context.filterMap fun (k, value) =>
    if k = some key then some value else none

/-- The error tells the position, and no other. -/
def Tells (e : Error) (p : Position) : Prop :=
  e.valuesOf "line" = [toString p.line] ∧ e.valuesOf "column" = [toString p.column]

variable {e : Error} {p q : Position}

theorem eq_of_tells (hp : e.Tells p) (hq : e.Tells q) : p = q := by
  obtain ⟨pline, pcolumn⟩ := p
  obtain ⟨qline, qcolumn⟩ := q
  have hline : [toString pline] = [toString qline] := hp.1.symm.trans hq.1
  have hcolumn : [toString pcolumn] = [toString qcolumn] := hp.2.symm.trans hq.2
  rw [Nat.repr_inj.1 (List.singleton_inj.1 hline), Nat.repr_inj.1 (List.singleton_inj.1 hcolumn)]

/-- Of the boundaries of the text, the error tells the position of the one between `before` and
`after`, and of no other. -/
def Located (e : Error) (before after : List Char) : Prop :=
  ∀ offset, Boundary (before ++ after) offset ∧ e.Tells (positionAt (before ++ after) offset) ↔
    offset = byteSize before

/-- **Errors.** An error that tells a position is at one boundary only. -/
theorem located_of_tells {before : List Char} (h : e.Tells (.after before)) (after : List Char) :
    e.Located before after := by
  have hposition : positionAt (before ++ after) (byteSize before) = .after before :=
    Text.positionAt_append before after
  refine fun offset => ⟨fun ⟨hboundary, htells⟩ => ?_, ?_⟩
  · refine Text.eq_of_positionAt_eq hboundary (Text.boundary_append before after) ?_
    rw [hposition]
    exact eq_of_tells htells h
  · rintro rfl
    exact ⟨Text.boundary_append before after, hposition ▸ h⟩

end Error

end Stencil
