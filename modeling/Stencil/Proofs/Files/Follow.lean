import Stencil.Files.Tree
import Stencil.Proofs.Files.Paths

/-!
# Where paths lead

A path that is put together from two leads on from where the first one leads, if that is a
directory. What is found in a tree is found in a larger one too, if no directory and no link of the
tree has become something else.

Results:
* `follow_append`: a path behind another.
* `follow_skip`: segments that stand for nothing.
* `follow_last`: a path whose last link is not followed.
* `follow_entry`: a path leads to what is at its place.
* `follow_extends`: the same path in a larger tree.
* `locate_eq`: a path that the system takes, by its segments.
-/

namespace Stencil.FileTree

variable {t t' : FileTree}

/-! ## Entries -/

/-- One is always in a directory. -/
theorem entry?_of_working {place : Place} (h : place <+: t.working) :
    t.entry? place = some .directory := if_pos (List.isPrefixOf_iff_prefix.2 h)

theorem entry?_eq_lookup {place : Place} (h : ¬place <+: t.working) :
    t.entry? place = t.entries.lookup place := if_neg (mt List.isPrefixOf_iff_prefix.1 h)

@[simp] theorem entry?_nil : t.entry? [] = some .directory := entry?_of_working List.nil_prefix

theorem lookup_remove {place other : Place} (hne : other ≠ place) :
    (t.remove place).entries.lookup other = t.entries.lookup other := by
  unfold remove
  induction t.entries with
  | nil => rfl
  | cons e l ih =>
    obtain ⟨p, x⟩ := e
    by_cases hp : p = place
    · rw [List.filter_cons_of_neg (by simpa using hp), ih, List.lookup_cons,
        beq_eq_false_iff_ne.2 (hp ▸ hne)]
    · rw [List.filter_cons_of_pos (by simpa using hp), List.lookup_cons, List.lookup_cons, ih]

theorem entry?_set {place : Place} (h : ¬place <+: t.working) (entry : FileEntry) (other : Place) :
    entry? (t.set place entry) other = if other = place then some entry else t.entry? other := by
  by_cases hother : other = place
  · rw [if_pos hother, hother, entry?_eq_lookup (t := t.set place entry) h]
    simp [set]
  rw [if_neg hother]
  by_cases hworking : other <+: t.working
  · rw [entry?_of_working hworking, entry?_of_working (t := t.set place entry) hworking]
  · rw [entry?_eq_lookup hworking, entry?_eq_lookup (t := t.set place entry) hworking, set,
      List.lookup_cons, beq_eq_false_iff_ne.2 hother]
    exact lookup_remove hother

/-- The place is not outside the directories that there are. -/
def Rooted (t : FileTree) (here : Place) : Prop :=
  ∀ place, place <+: here → t.entry? place = some .directory

theorem rooted_working (t : FileTree) : Rooted t t.working := fun _ => entry?_of_working

theorem rooted_nil (t : FileTree) : Rooted t [] := by
  intro place hplace
  rw [List.prefix_nil.1 hplace, entry?_nil]

theorem Rooted.start {here : Place} (h : Rooted t here) (path : Path) :
    Rooted t (start path here) := by
  unfold FileTree.start
  split
  · exact rooted_nil t
  · exact h

theorem Rooted.above {here : Place} (h : Rooted t here) : Rooted t here.dropLast :=
  fun place hplace => h place (hplace.trans (List.dropLast_prefix here))

theorem Rooted.below {here : Place} {s : Name} (h : Rooted t here)
    (hs : t.entry? (here ++ [s]) = some .directory) : Rooted t (here ++ [s]) := by
  intro place hplace
  obtain rfl | hplace := List.prefix_concat_iff.1 hplace
  · exact hs
  · exact h place hplace

/-! ## Steps -/

section Steps

variable {last : Bool} {links : Nat} {here : Place} {s : Name} {rest : List Name}

theorem follow_nil : t.follow last links here [] = .ok (here, t.entry? here) := by
  rw [follow]

theorem follow_trivial (hs : s.isTrivial = true) :
    t.follow last links here (s :: rest) = t.follow last links here rest := by
  rw [follow, if_pos hs]

theorem follow_up :
    t.follow last links here (Name.up :: rest) = t.follow last links here.dropLast rest := by
  rw [follow, if_neg (by decide), if_pos rfl]

/-- One name further. -/
theorem follow_name (hs : ¬s.isTrivial = true) (hup : ¬s = Name.up)
    (hlen : ¬Path.nameLimit < s.length) :
    t.follow last links here (s :: rest) =
      match t.entry? (here ++ [s]) with
      | none => if rest.isEmpty then .ok (here ++ [s], none) else .error .notFound
      | some .directory => t.follow last links (here ++ [s]) rest
      | some (.file node) =>
        if rest.isEmpty then .ok (here ++ [s], some (.file node)) else .error .notDirectory
      | some (.link target) =>
        if rest.isEmpty && !last then .ok (here ++ [s], some (.link target))
        else match links with
          | 0 => .error .tooManyLinks
          | links + 1 => t.follow last links (start target here) (target.segments ++ rest) := by
  rw [follow, if_neg hs, if_neg hup]
  exact if_neg hlen

theorem follow_long (hs : ¬s.isTrivial = true) (hup : ¬s = Name.up)
    (hlen : Path.nameLimit < s.length) :
    t.follow last links here (s :: rest) = .error .nameTooLong := by
  rw [follow, if_neg hs, if_neg hup, if_pos hlen]

end Steps

/-! ## Paths behind paths -/

/-- What comes of a path with `rest` behind it, by what comes of the path. -/
def Beyond (t : FileTree) (last : Bool) (rest : List Name)
    (result : Except OsError (Place × Option FileEntry)) :
    Except OsError (Place × Option FileEntry) → Prop :=
  match result with
  | .ok (place, some .directory) => fun r => ∃ links, r = t.follow last links place rest
  | .ok (_, some (.file _)) => fun r => r = .error .notDirectory
  | .ok (_, some (.link _)) => fun _ => False
  | .ok (_, none) => fun r => r = .error .notFound
  | .error e => fun r => r = .error e

theorem follow_append (t : FileTree) (last : Bool) {rest : List Name} (hrest : rest ≠ [])
    (links : Nat) (here : Place) (xs : List Name) (hrooted : Rooted t here) :
    Beyond t last rest (t.follow true links here xs) (t.follow last links here (xs ++ rest)) := by
  have hempty : ∀ ys : List Name, (ys ++ rest).isEmpty = false := by simp [hrest]
  fun_induction t.follow true links here xs with
  | case1 links here =>
    rw [hrooted here List.prefix_rfl]
    exact ⟨links, rfl⟩
  | case2 links here s xs hs ih =>
    rw [List.cons_append, follow_trivial hs]
    exact ih hrooted
  | case3 links here xs _ ih =>
    rw [List.cons_append, follow_up]
    exact ih hrooted.above
  | case4 links here s xs hs hup hlen =>
    rw [List.cons_append, follow_long hs hup hlen]
    rfl
  | case7 links here s xs hs hup hlen place hentry ih =>
    rw [List.cons_append, follow_name hs hup hlen, hentry]
    exact ih (hrooted.below hentry)
  | case12 here s xs hs hup hlen place target hentry hend links ih =>
    rw [List.cons_append, follow_name hs hup hlen, hentry]
    simpa only [hempty, Bool.false_and, Bool.false_eq_true, if_false, List.append_assoc]
      using ih (hrooted.start target)
  | case5 _ _ _ _ hs hup hlen _ hentry | case6 _ _ _ _ hs hup hlen _ hentry
  | case8 _ _ _ _ hs hup hlen _ _ hentry | case9 _ _ _ _ hs hup hlen _ _ hentry =>
    rw [List.cons_append, follow_name hs hup hlen, hentry]
    simp [Beyond, *]
  | case11 _ _ _ hs hup hlen _ _ hentry =>
    rw [List.cons_append, follow_name hs hup hlen, hentry]
    simp [Beyond, hempty]
  | case10 _ _ _ _ _ _ _ _ _ _ hend => simp at hend

/-- Segments that stand for nothing do not matter before others. -/
theorem follow_skip {last : Bool} {links : Nat} {here : Place} {xs skipped rest : List Name}
    (hskipped : ∀ s ∈ skipped, s.isTrivial = true) (hrest : rest ≠ []) :
    t.follow last links here (xs ++ (skipped ++ rest)) = t.follow last links here (xs ++ rest) := by
  have hempty : ∀ ys : List Name, (ys ++ rest).isEmpty = false := by simp [hrest]
  have hempty' : ∀ ys : List Name, (ys ++ (skipped ++ rest)).isEmpty = false := by simp [hrest]
  fun_induction t.follow true links here xs with
  | case1 links here =>
    rw [List.nil_append, List.nil_append]
    induction skipped with
    | nil => rfl
    | cons s skipped ih =>
      rw [List.cons_append, follow_trivial (hskipped s (.head _))]
      exact ih (fun y hy => hskipped y (.tail _ hy)) (by simp [hrest])
  | case2 links here s xs hs ih =>
    rw [List.cons_append, List.cons_append, follow_trivial hs, follow_trivial hs, ih]
  | case3 links here xs _ ih =>
    rw [List.cons_append, List.cons_append, follow_up, follow_up, ih]
  | case4 links here s xs hs hup hlen =>
    rw [List.cons_append, List.cons_append, follow_long hs hup hlen, follow_long hs hup hlen]
  | case7 links here s xs hs hup hlen _ hentry ih =>
    rw [List.cons_append, List.cons_append, follow_name hs hup hlen, follow_name hs hup hlen,
      hentry]
    exact ih
  | case12 here s xs hs hup hlen _ target hentry _ links ih =>
    rw [List.cons_append, List.cons_append, follow_name hs hup hlen, follow_name hs hup hlen,
      hentry]
    simpa only [hempty, hempty', Bool.false_and, Bool.false_eq_true, if_false, List.append_assoc]
      using ih
  | case5 _ _ _ _ hs hup hlen _ hentry | case6 _ _ _ _ hs hup hlen _ hentry
  | case8 _ _ _ _ hs hup hlen _ _ hentry | case9 _ _ _ _ hs hup hlen _ _ hentry
  | case11 _ _ _ hs hup hlen _ _ hentry =>
    rw [List.cons_append, List.cons_append, follow_name hs hup hlen, follow_name hs hup hlen,
      hentry]
    simp [*]
  | case10 _ _ _ _ _ _ _ _ _ _ hend => simp at hend

/-- A path whose last link is not followed leads to that link, or where it leads with it. -/
theorem follow_last (t : FileTree) (links : Nat) (here : Place) (xs : List Name) :
    t.follow false links here xs = t.follow true links here xs ∨
      ∃ place target, t.follow false links here xs = .ok (place, some (.link target)) := by
  fun_induction t.follow true links here xs with
  | case1 links here => exact .inl follow_nil
  | case2 links here s xs hs ih => rwa [follow_trivial hs]
  | case3 links here xs _ ih => rwa [follow_up]
  | case4 links here s xs hs hup hlen => exact .inl (follow_long hs hup hlen)
  | case7 links here s xs hs hup hlen place hentry ih =>
    rw [follow_name hs hup hlen, hentry]
    exact ih
  | case12 here s xs hs hup hlen place target hentry hend links ih =>
    rw [follow_name hs hup hlen, hentry]
    cases xs with
    | nil => exact .inr ⟨_, _, rfl⟩
    | cons x xs => simpa using ih
  | case11 here s xs hs hup hlen _ _ hentry =>
    rw [follow_name hs hup hlen, hentry]
    cases xs with
    | nil => exact .inr ⟨_, _, rfl⟩
    | cons x xs => exact .inl (by simp)
  | case5 _ _ _ _ hs hup hlen _ hentry | case6 _ _ _ _ hs hup hlen _ hentry
  | case8 _ _ _ _ hs hup hlen _ _ hentry | case9 _ _ _ _ hs hup hlen _ _ hentry =>
    rw [follow_name hs hup hlen, hentry]
    exact .inl (by simp only [*]; rfl)
  | case10 _ _ _ _ _ _ _ _ _ _ hend => simp at hend

/-- A path leads to what is at its place. -/
theorem follow_entry {last : Bool} {links : Nat} {here place : Place} {xs : List Name}
    {entry : Option FileEntry} (h : t.follow last links here xs = .ok (place, entry)) :
    entry = t.entry? place := by
  fun_induction t.follow last links here xs with
  | case1 =>
    obtain ⟨rfl, rfl⟩ := Prod.mk.inj (Except.ok.inj h)
    rfl
  | case5 _ _ _ _ _ _ _ _ hentry | case8 _ _ _ _ _ _ _ _ _ hentry
  | case10 _ _ _ _ _ _ _ _ _ hentry =>
    obtain ⟨rfl, rfl⟩ := Prod.mk.inj (Except.ok.inj h)
    exact hentry.symm
  | case2 _ _ _ _ _ ih | case3 _ _ _ _ ih | case7 _ _ _ _ _ _ _ _ _ ih
  | case12 _ _ _ _ _ _ _ _ _ _ _ ih => exact ih h
  | case4 | case6 | case9 | case11 => cases h

/-! ## Larger trees -/

/-- No directory and no link has become something else, and one works in the same place. -/
structure Extends (t t' : FileTree) : Prop where
  working : t'.working = t.working
  directory : ∀ place, t.entry? place = some .directory → t'.entry? place = some .directory
  link : ∀ place target, t.entry? place = some (.link target) →
    t'.entry? place = some (.link target)

theorem Extends.refl (t : FileTree) : Extends t t := ⟨rfl, fun _ h => h, fun _ _ h => h⟩

theorem Extends.trans {t'' : FileTree} (h : Extends t t') (h' : Extends t' t'') : Extends t t'' :=
  ⟨h'.working.trans h.working, fun _ hp => h'.directory _ (h.directory _ hp),
    fun _ _ hp => h'.link _ _ (h.link _ _ hp)⟩

/-- A path leads to the same place in a larger tree, unless there is a link now. -/
theorem follow_extends (h : Extends t t') {links : Nat} {here place : Place} {xs : List Name}
    {entry : Option FileEntry} (hfollow : t.follow true links here xs = .ok (place, entry))
    (hlink : ∀ target, t'.entry? place ≠ some (.link target)) :
    t'.follow true links here xs = .ok (place, t'.entry? place) := by
  fun_induction t.follow true links here xs with
  | case1 links here =>
    obtain ⟨rfl, -⟩ := Prod.mk.inj (Except.ok.inj hfollow)
    exact follow_nil
  | case2 links here s xs hs ih =>
    rw [follow_trivial hs]
    exact ih hfollow
  | case3 links here xs _ ih =>
    rw [follow_up]
    exact ih hfollow
  | case7 links here s xs hs hup hlen _ hentry ih =>
    rw [follow_name hs hup hlen, h.directory _ hentry]
    exact ih hfollow
  | case12 here s xs hs hup hlen _ target hentry hend links ih =>
    rw [follow_name hs hup hlen, h.link _ _ hentry]
    simpa using ih hfollow
  | case5 links here s xs hs hup hlen _ hentry hxs
  | case8 links here s xs hs hup hlen _ _ hentry hxs =>
    -- The end of the path: whatever is there now, it is found.
    obtain ⟨rfl, -⟩ := Prod.mk.inj (Except.ok.inj hfollow)
    rw [List.isEmpty_iff] at hxs
    subst hxs
    rw [follow_name hs hup hlen]
    cases hnow : t'.entry? (here ++ [s]) with
    | none => rfl
    | some e =>
      cases e with
      | file node => rfl
      | directory => exact follow_nil.trans (by rw [hnow])
      | link target => exact absurd hnow (hlink target)
  | case10 _ _ _ _ _ _ _ _ _ _ hend => simp at hend
  | case4 | case6 | case9 | case11 => cases hfollow

/-! ## Paths -/

/-- A path that the system takes. -/
structure Taken (path : Path) : Prop where
  no_nul : path.hasNul = false
  short : path.size ≤ Path.limit

/-- A path of fewer names is taken if one of more is. -/
theorem Taken.of_sublist {absolute : Bool} {xs ys : List Name} (h : Taken ⟨absolute, ys⟩)
    (hsub : xs.Sublist ys) : Taken ⟨absolute, xs⟩ := by
  refine ⟨?_, (Path.size_le hsub).trans h.short⟩
  have hnul := h.no_nul
  unfold Path.hasNul at hnul ⊢
  rw [List.any_eq_false] at hnul ⊢
  exact fun s hs => hnul s (hsub.subset hs)

theorem locate_eq {path : Path} (htaken : Taken path) (hne : path.isEmpty = false) (last : Bool) :
    t.locate last path = t.follow last linkLimit (start path t.working) path.segments := by
  have hshort := htaken.short
  unfold locate
  rw [if_neg (by rw [htaken.no_nul]; decide), if_neg (by omega), if_neg (by rw [hne]; decide)]

/-- A path that leads somewhere is taken. -/
theorem taken_of_locate {last : Bool} {path : Path} {place : Place} {entry : Option FileEntry}
    (h : t.locate last path = .ok (place, entry)) : Taken path ∧ path.isEmpty = false := by
  unfold locate at h
  split at h
  · cases h
  split at h
  · cases h
  split at h
  · cases h
  · rename_i hnul hlen hempty
    exact ⟨⟨by simpa using hnul, by omega⟩, by simpa using hempty⟩

theorem locate_last (t : FileTree) (path : Path) :
    t.locate false path = t.locate true path ∨
      ∃ place target, t.locate false path = .ok (place, some (.link target)) := by
  unfold locate
  split
  · exact .inl rfl
  split
  · exact .inl rfl
  split
  · exact .inl rfl
  · exact follow_last t _ _ _

theorem locate_entry {last : Bool} {path : Path} {place : Place} {entry : Option FileEntry}
    (h : t.locate last path = .ok (place, entry)) : entry = t.entry? place := by
  obtain ⟨htaken, hne⟩ := taken_of_locate h
  rw [locate_eq htaken hne] at h
  exact follow_entry h

theorem locate_extends (h : Extends t t') {path : Path} {place : Place}
    {entry : Option FileEntry} (hlocate : t.locate true path = .ok (place, entry))
    (hlink : ∀ target, t'.entry? place ≠ some (.link target)) :
    t'.locate true path = .ok (place, t'.entry? place) := by
  obtain ⟨htaken, hne⟩ := taken_of_locate hlocate
  rw [locate_eq htaken hne] at hlocate ⊢
  rw [h.working]
  exact follow_extends h hlocate hlink

/-- A path to a file leads there in a larger tree, if the file is still there. -/
theorem locate_file (h : Extends t t') {path : Path} {place : Place} {node : Nat}
    (hlocate : t.locate true path = .ok (place, some (.file node)))
    (hentry : t'.entry? place = some (.file node)) :
    t'.locate true path = .ok (place, some (.file node)) := by
  rw [locate_extends h hlocate (by simp [hentry]), hentry]

theorem find_iff {path : Path} {entry : FileEntry} :
    t.find path = .ok entry ↔ ∃ place, t.locate true path = .ok (place, some entry) := by
  unfold find
  cases t.locate true path with
  | error e =>
    show Except.error e = _ ↔ _
    simp
  | ok found =>
    obtain ⟨place, entry'⟩ := found
    cases entry' with
    | none =>
      show Except.error _ = _ ↔ _
      simp
    | some entry' =>
      show Except.ok _ = _ ↔ _
      simp

theorem isDirectory_iff {path : Path} :
    t.isDirectory path = true ↔ ∃ place, t.locate true path = .ok (place, some .directory) := by
  rw [← find_iff, isDirectory]
  split
  · rename_i h
    simp [h]
  · rename_i h
    simpa using h

theorem isFile_iff {path : Path} :
    t.isFile path = true ↔ ∃ place node, t.locate true path = .ok (place, some (.file node)) := by
  rw [exists_comm]
  simp only [← find_iff, isFile]
  split
  · rename_i node h
    simp [h]
  · rename_i h
    simpa using h

theorem read_of_locate {path : Path} {place : Place} {node : Nat}
    (h : t.locate true path = .ok (place, some (.file node))) :
    t.read path = .ok (t.content node) := by
  rw [read, find_iff.2 ⟨place, h⟩]

end Stencil.FileTree
