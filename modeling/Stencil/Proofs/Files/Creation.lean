import Mathlib.Data.List.Induction
import Stencil.Proofs.Files.Nodes

/-!
# Making directories and files

To make a directory is to make the one that holds it, and then this one in it, whatever is there and
whatever else is made on the way. Nothing but directories comes to be, and only where there was
nothing. A file is created once the directory that holds it is there.

Results:
* `createWithin_ok`: what has changed when a directory has been made.
* `createWithin_settled`: nothing is made if what stands in the way is no missing directory.
* `createWithin_enough`: as many levels as the path has are enough.
* `createDirectories_step`: a directory and the one that holds it.
* `createFile_iff`: when a file is created.
-/

namespace Stencil

open FileTree

variable {t t' : FileTree}

/-- An operation on files succeeds with a result, and leaves this tree. -/
def Succeeds {ε α : Type} (x : StateM FileTree (Except ε α)) (t : FileTree) (a : α)
    (t' : FileTree) : Prop :=
  (x.run t).1 = .ok a ∧ (x.run t).2 = t'

theorem Succeeds.run {ε α : Type} {x : StateM FileTree (Except ε α)} {a : α}
    (h : Succeeds x t a t') : x.run t = (.ok a, t') := Prod.ext h.1 h.2

theorem Succeeds.unique {ε α : Type} {x : StateM FileTree (Except ε α)} {a a' : α} {t'' : FileTree}
    (h : Succeeds x t a t') (h' : Succeeds x t a' t'') : a = a' ∧ t' = t'' :=
  ⟨Except.ok.inj (h.1.symm.trans h'.1), h.2.symm.trans h'.2⟩

/-! ## Operations -/

section Run

variable {α β : Type}

theorem run_bind {ω : Type} (x : StateM ω α) (f : α → StateM ω β) (w : ω) :
    (x >>= f).run w = (f (x.run w).1).run (x.run w).2 := rfl

theorem run_pure {ω : Type} (a : α) (w : ω) : (pure a : StateM ω α).run w = (a, w) := rfl

theorem run_perform (change : FileTree → Except OsError (α × FileTree)) (t : FileTree) :
    (perform change).run t = match change t with
      | .ok (a, t) => (.ok a, t)
      | .error e => (.error e, t) := rfl

theorem succeeds_perform {change : FileTree → Except OsError (α × FileTree)} {a : α} :
    Succeeds (perform change) t a t' ↔ change t = .ok (a, t') := by
  rw [Succeeds, run_perform]
  cases change t with
  | ok result => obtain ⟨b, t₁⟩ := result; simp
  | error e => simp

theorem run_makeDirectory (path : Path) (t : FileTree) :
    (Files.makeDirectory (m := StateM FileTree) path).run t = match t.makeDirectory path with
      | .ok t => (.ok (), t)
      | .error e => (.error e, t) := by
  show (perform fun t => (t.makeDirectory path).map ((), ·)).run t = _
  rw [run_perform]
  cases t.makeDirectory path <;> rfl

theorem succeeds_create {path : Path} {file : Handle} :
    Succeeds (Files.create (m := StateM FileTree) path) t file t' ↔
      t.create path = .ok (file, t') :=
  succeeds_perform

theorem succeeds_openEnd {path : Path} {file : Handle} :
    Succeeds (Files.openEnd (m := StateM FileTree) path) t file t' ↔
      t.openEnd path = .ok (file, t') :=
  succeeds_perform

theorem run_write (file : Handle) (bytes : ByteArray) (t : FileTree) :
    (Files.write (m := StateM FileTree) file bytes).run t =
      (.ok (t.write file bytes).1, (t.write file bytes).2) := rfl

theorem run_isDirectory (path : Path) (t : FileTree) :
    (Files.isDirectory (m := StateM FileTree) path).run t = (t.isDirectory path, t) := rfl

end Run

theorem makeMissing_iff {path : Path} :
    Succeeds (makeMissing path) t () t' ↔ t.makeDirectory path = .ok t' ∨
      (∃ e, t.makeDirectory path = .error e) ∧ t.isDirectory path = true ∧ t' = t := by
  rw [Succeeds, makeMissing, run_bind, run_makeDirectory]
  cases h : t.makeDirectory path with
  | ok t₁ => simp only [run_pure]; simp
  | error e =>
    simp only [run_bind, run_pure, run_isDirectory]
    by_cases hdir : t.isDirectory path = true <;> simp [hdir, eq_comm]

/-- What makes up the making of a directory and of those that hold it. -/
theorem createWithin_succ_iff {n : Nat} {path : Path} :
    Succeeds (createWithin (n + 1) path) t () t' ↔
      path.isEmpty = true ∧ t' = t ∨ path.isEmpty = false ∧ (t.makeDirectory path = .ok t' ∨
        (∃ e ≠ .notFound, t.makeDirectory path = .error e) ∧ t.isDirectory path = true ∧ t' = t ∨
        t.makeDirectory path = .error .notFound ∧ ∃ parent t₁, path.parent? = some parent ∧
          Succeeds (createWithin n parent) t () t₁ ∧ Succeeds (makeMissing path) t₁ () t') := by
  rw [Succeeds, createWithin]
  by_cases hempty : path.isEmpty = true
  · rw [if_pos hempty, run_pure]
    simp [hempty, eq_comm (a := t)]
  rw [if_neg hempty, run_bind, run_makeDirectory]
  rw [Bool.not_eq_true] at hempty
  cases h : t.makeDirectory path with
  | ok t₁ => simp only [run_pure]; simp [hempty]
  | error e =>
    by_cases he : e = .notFound
    · subst he
      simp only [ne_eq, not_true_eq_false, if_false]
      cases hparent : path.parent? with
      | none => simp only [run_pure]; simp [hempty]
      | some parent =>
        simp only [run_bind]
        cases hmade : ((createWithin (m := StateM FileTree) n parent).run t).1 with
        | ok u => simp [hempty, Succeeds, hmade]
        | error e => simp only [run_pure]; simp [Succeeds, hempty, hmade]
    · simp only [ne_eq, he, not_false_eq_true, if_true, run_bind, run_pure, run_isDirectory]
      by_cases hdir : t.isDirectory path = true <;> simp [hdir, he, hempty, eq_comm]

/-! ## One directory -/

namespace FileTree

theorem makeDirectory_eq (t : FileTree) (path : Path) :
    t.makeDirectory path = match t.locate false path with
      | .ok (_, some _) => .error .alreadyExists
      | .ok (place, none) => .ok (t.set place .directory)
      | .error e => .error e := by
  unfold makeDirectory
  cases t.locate false path with
  | error e => rfl
  | ok found =>
    obtain ⟨place, entry⟩ := found
    cases entry <;> rfl

/-- Nothing but directories has been added. -/
structure AddsDirectories (t t' : FileTree) : Prop where
  working : t'.working = t.working
  contents : t'.contents = t.contents
  entry : ∀ place, t'.entry? place = t.entry? place ∨
    t.entry? place = none ∧ t'.entry? place = some .directory

theorem AddsDirectories.refl (t : FileTree) : AddsDirectories t t := ⟨rfl, rfl, fun _ => .inl rfl⟩

theorem AddsDirectories.trans {t'' : FileTree} (h : AddsDirectories t t')
    (h' : AddsDirectories t' t'') : AddsDirectories t t'' where
  working := h'.working.trans h.working
  contents := h'.contents.trans h.contents
  entry place := by
    rcases h.entry place with hp | ⟨hnone, hdir⟩ <;>
      rcases h'.entry place with hp' | ⟨hnone', hdir'⟩
    · exact .inl (hp'.trans hp)
    · exact .inr ⟨hp ▸ hnone', hdir'⟩
    · exact .inr ⟨hnone, hp'.trans hdir⟩
    · rw [hdir] at hnone'
      cases hnone'

theorem AddsDirectories.content (h : AddsDirectories t t') (node : Nat) :
    t'.content node = t.content node := by
  rw [FileTree.content, h.contents]
  rfl

/-- What is there stays as it is. -/
theorem AddsDirectories.entry_some (h : AddsDirectories t t') {place : Place} {entry : FileEntry}
    (hentry : t.entry? place = some entry) : t'.entry? place = some entry := by
  obtain h | ⟨hnone, -⟩ := h.entry place
  · rw [h, hentry]
  · rw [hentry] at hnone
    cases hnone

/-- What is no directory was there before. -/
theorem AddsDirectories.entry_of_ne (h : AddsDirectories t t') {place : Place} {entry : FileEntry}
    (hentry : t'.entry? place = some entry) (hne : entry ≠ .directory) :
    t.entry? place = some entry := by
  obtain h | ⟨-, hdir⟩ := h.entry place
  · rw [← h, hentry]
  · rw [hentry] at hdir
    exact absurd (Option.some.inj hdir) hne

theorem AddsDirectories.toExtends (h : AddsDirectories t t') : Extends t t' :=
  ⟨h.working, fun _ => h.entry_some, fun _ _ => h.entry_some⟩

/-- A directory that is made is there, and nothing else has changed. -/
theorem makeDirectory_ok {path : Path} (h : t.makeDirectory path = .ok t') :
    AddsDirectories t t' ∧ ∃ place, t.locate false path = .ok (place, none) ∧
      t'.locate true path = .ok (place, some .directory) ∧
      ∀ other, t'.entry? other = if other = place then some .directory else t.entry? other := by
  rw [makeDirectory_eq] at h
  split at h
  · cases h
  · rename_i place hlocate
    obtain rfl := Except.ok.inj h
    have hnone := locate_entry hlocate
    have hworking : ¬place <+: t.working := by
      intro hworking
      rw [entry?_of_working hworking] at hnone
      cases hnone
    have hentries := entry?_set hworking .directory
    have hadds : AddsDirectories t (t.set place .directory) := by
      refine ⟨rfl, rfl, fun other => ?_⟩
      rw [hentries]
      split
      · rename_i hother
        subst hother
        exact .inr ⟨hnone.symm, rfl⟩
      · exact .inl rfl
    refine ⟨hadds, place, hlocate, ?_, hentries⟩
    have htrue : t.locate true path = .ok (place, none) := by
      obtain hlast | ⟨_, _, hlast⟩ := locate_last t path
      · rw [← hlast, hlocate]
      · rw [hlocate] at hlast
        cases hlast
    have hnow : entry? (t.set place .directory) place = some .directory := by
      rw [hentries, if_pos rfl]
    rw [locate_extends hadds.toExtends htrue (by simp [hnow]), hnow]
  · cases h

/-- Where the path of a directory leads. The empty path stays where one is. -/
def reach (t : FileTree) (path : Path) : Except OsError (Place × Option FileEntry) :=
  if path.isEmpty then .ok (t.working, some .directory) else t.locate true path

theorem reach_of_ne {path : Path} (h : path.isEmpty = false) : t.reach path = t.locate true path :=
  if_neg (by rw [h]; decide)

theorem reach_of_isEmpty {path : Path} (h : path.isEmpty = true) :
    t.reach path = .ok (t.working, some .directory) := if_pos h

theorem reach_extends (h : Extends t t') {path : Path} {place : Place}
    (hreach : t.reach path = .ok (place, some .directory)) :
    t'.reach path = .ok (place, some .directory) := by
  cases hempty : path.isEmpty with
  | true => rwa [reach_of_isEmpty hempty, h.working, ← reach_of_isEmpty hempty]
  | false =>
    rw [reach_of_ne hempty] at hreach ⊢
    have hentry := h.directory place (locate_entry hreach).symm
    rw [locate_extends h hreach (by simp [hentry]), hentry]

end FileTree

/-- A directory that is there is left as it is. -/
theorem createWithin_of_reach {n : Nat} {path : Path} {place : Place}
    (h : t.reach path = .ok (place, some .directory)) :
    Succeeds (createWithin (n + 1) path) t () t := by
  rw [createWithin_succ_iff]
  cases hempty : path.isEmpty with
  | true => exact .inl ⟨rfl, rfl⟩
  | false =>
    rw [reach_of_ne hempty] at h
    refine .inr ⟨rfl, .inr (.inl ⟨⟨.alreadyExists, by decide, ?_⟩, isDirectory_iff.2 ⟨_, h⟩, rfl⟩)⟩
    rw [makeDirectory_eq]
    obtain hlast | ⟨_, _, hlast⟩ := locate_last t path
    · rw [hlast, h]
    · rw [hlast]

/-- Where something is found, or cannot be, nothing is made. -/
theorem createWithin_settled {n : Nat} {path : Path}
    (hnone : ∀ place, t.reach path ≠ .ok (place, none))
    (herror : t.reach path ≠ .error .notFound) (h : Succeeds (createWithin n path) t () t') :
    (∃ place, t.reach path = .ok (place, some .directory)) ∧ t' = t := by
  cases n with
  | zero => cases h.1
  | succ n =>
    obtain ⟨hempty, rfl⟩ | ⟨hempty, h⟩ := createWithin_succ_iff.1 h
    · exact ⟨⟨_, reach_of_isEmpty hempty⟩, rfl⟩
    rw [reach_of_ne hempty] at hnone herror ⊢
    have hmake : ∃ e ≠ .notFound, t.makeDirectory path = .error e := by
      rw [makeDirectory_eq]
      obtain hlast | ⟨_, _, hlast⟩ := locate_last t path
      · rw [hlast]
        cases hlocate : t.locate true path with
        | error e => exact ⟨e, fun he => herror (he ▸ hlocate), rfl⟩
        | ok found =>
          obtain ⟨place, entry⟩ := found
          cases entry with
          | none => exact absurd hlocate (hnone place)
          | some entry => exact ⟨_, by decide, rfl⟩
      · rw [hlast]
        exact ⟨_, by decide, rfl⟩
    obtain ⟨e, he, hmake⟩ := hmake
    obtain hok | ⟨-, hdir, rfl⟩ | ⟨hnotFound, -⟩ := h
    · rw [hmake] at hok
      cases hok
    · exact ⟨isDirectory_iff.1 hdir, rfl⟩
    · rw [hmake] at hnotFound
      exact absurd (Except.error.inj hnotFound) he

theorem makeMissing_ok {path : Path} (h : Succeeds (makeMissing path) t () t') :
    AddsDirectories t t' ∧ ∃ place, t'.locate true path = .ok (place, some .directory) := by
  obtain hok | ⟨-, hdir, rfl⟩ := makeMissing_iff.1 h
  · obtain ⟨hadds, place, -, hlocate, -⟩ := makeDirectory_ok hok
    exact ⟨hadds, place, hlocate⟩
  · exact ⟨.refl _, isDirectory_iff.1 hdir⟩

/-- A directory that has been made is there, and nothing but directories has been added. -/
theorem createWithin_ok {n : Nat} {path : Path} (h : Succeeds (createWithin n path) t () t') :
    AddsDirectories t t' ∧ ∃ place, t'.reach path = .ok (place, some .directory) := by
  induction n generalizing path t' with
  | zero => cases h.1
  | succ n ih =>
    obtain ⟨hempty, rfl⟩ | ⟨hempty, h⟩ := createWithin_succ_iff.1 h
    · exact ⟨.refl _, _, reach_of_isEmpty hempty⟩
    rw [reach_of_ne hempty]
    obtain hok | ⟨-, hdir, rfl⟩ | ⟨-, parent, t₁, -, hparent, hmissing⟩ := h
    · obtain ⟨hadds, place, -, hlocate, -⟩ := makeDirectory_ok hok
      exact ⟨hadds, place, hlocate⟩
    · exact ⟨.refl _, isDirectory_iff.1 hdir⟩
    · obtain ⟨hadds, hplace⟩ := makeMissing_ok hmissing
      exact ⟨(ih hparent).1.trans hadds, hplace⟩

/-! ## One below the other -/

section Concat

variable {absolute : Bool} {xs : List Name} {x : Name}

/-- The path of a name below a directory leads on from there. -/
theorem FileTree.locate_child (hx : Path.IsName x) (last : Bool)
    (htaken : Taken ⟨absolute, xs ++ [x]⟩) :
    Beyond t last [x] (t.reach ⟨absolute, Path.trim absolute xs⟩)
      (t.locate last ⟨absolute, xs ++ [x]⟩) := by
  have hne : Path.isEmpty ⟨absolute, xs ++ [x]⟩ = false := Path.isEmpty_concat hx
  obtain ⟨rest, hxs, hrest⟩ := Path.exists_trim absolute xs
  have hskip : t.follow last linkLimit (start ⟨absolute, xs ++ [x]⟩ t.working) (xs ++ [x]) =
      t.follow last linkLimit (start ⟨absolute, xs ++ [x]⟩ t.working)
        (Path.trim absolute xs ++ [x]) := by
    conv_lhs => rw [hxs, List.append_assoc]
    exact follow_skip hrest (List.cons_ne_nil x [])
  rw [locate_eq htaken hne, hskip]
  cases hempty : Path.isEmpty ⟨absolute, Path.trim absolute xs⟩ with
  | true =>
    obtain ⟨rfl, hnil⟩ := Path.trim_of_isEmpty hempty
    rw [reach_of_isEmpty hempty, hnil]
    exact ⟨linkLimit, rfl⟩
  | false =>
    have htaken' := htaken.of_sublist
      ((Path.prefix_trim absolute xs).trans (List.prefix_append xs [x])).sublist
    rw [reach_of_ne hempty, locate_eq htaken' hempty]
    exact follow_append t last (by simp) linkLimit _ _ ((rooted_working t).start _)

/-- What is below a directory is there only if the directory is. -/
theorem FileTree.Beyond.reached {last : Bool} {rest : List Name} {place : Place}
    {entry : Option FileEntry} {result : Except OsError (Place × Option FileEntry)}
    (h : Beyond t last rest result (.ok (place, entry))) :
    ∃ place, result = .ok (place, some .directory) := by
  rcases result with e | ⟨place', _ | _ | _ | _⟩
  · cases h
  · cases h
  · cases h
  · exact ⟨place', rfl⟩
  · exact h.elim

/-- To make a directory is to make the one that holds it, and then this one in it. -/
theorem createWithin_step (hx : Path.IsName x) {n : Nat} :
    Succeeds (createWithin (n + 2) ⟨absolute, xs ++ [x]⟩) t () t' ↔
      ∃ t₁, Succeeds (createWithin (n + 1) ⟨absolute, Path.trim absolute xs⟩) t () t₁ ∧
        Succeeds (makeMissing ⟨absolute, xs ++ [x]⟩) t₁ () t' := by
  have hne : Path.isEmpty ⟨absolute, xs ++ [x]⟩ = false := Path.isEmpty_concat hx
  have hparent : Path.parent? ⟨absolute, xs ++ [x]⟩ = some ⟨absolute, Path.trim absolute xs⟩ :=
    Path.parent?_concat hx.not_trivial
  have hbeyond : ∀ last, Taken ⟨absolute, xs ++ [x]⟩ →
      Beyond t last [x] (t.reach ⟨absolute, Path.trim absolute xs⟩)
        (t.locate last ⟨absolute, xs ++ [x]⟩) := locate_child hx
  generalize (⟨absolute, xs ++ [x]⟩ : Path) = path at *
  generalize (⟨absolute, Path.trim absolute xs⟩ : Path) = parent at *
  rw [createWithin_succ_iff]
  constructor
  · rintro (⟨hempty, -⟩ | ⟨-, hok | ⟨⟨e, he, herror⟩, hdir, rfl⟩ | ⟨-, _, t₁, hparent', h⟩⟩)
    · rw [hne] at hempty
      cases hempty
    · obtain ⟨-, place, hlocate, -⟩ := makeDirectory_ok hok
      obtain ⟨_, hreach⟩ := (hlocate ▸ hbeyond false (taken_of_locate hlocate).1).reached
      exact ⟨t, createWithin_of_reach hreach, makeMissing_iff.2 (.inl hok)⟩
    · obtain ⟨place, hlocate⟩ := isDirectory_iff.1 hdir
      obtain ⟨_, hreach⟩ := (hlocate ▸ hbeyond true (taken_of_locate hlocate).1).reached
      exact ⟨_, createWithin_of_reach hreach, makeMissing_iff.2 (.inr ⟨⟨e, herror⟩, hdir, rfl⟩)⟩
    · obtain rfl := Option.some.inj (hparent.symm.trans hparent')
      exact ⟨t₁, h⟩
  · rintro ⟨t₁, hmade, hmissing⟩
    refine .inr ⟨hne, ?_⟩
    by_cases hnotFound : t.makeDirectory path = .error .notFound
    · exact .inr (.inr ⟨hnotFound, parent, t₁, hparent, hmade, hmissing⟩)
    -- The directory that holds it is there, so that nothing has been made before.
    have htaken : Taken path := by
      obtain ⟨-, place, hlocate⟩ := makeMissing_ok hmissing
      exact (taken_of_locate hlocate).1
    have hlocate : t.locate false path ≠ .error .notFound := by
      intro h
      rw [makeDirectory_eq, h] at hnotFound
      exact hnotFound rfl
    have hreach := hbeyond false htaken
    obtain ⟨-, rfl⟩ := createWithin_settled
      (fun place hplace => by rw [hplace] at hreach; exact hlocate hreach)
      (fun herror => by rw [herror] at hreach; exact hlocate hreach) hmade
    obtain hok | ⟨⟨e, herror⟩, hdir, rfl⟩ := makeMissing_iff.1 hmissing
    · exact .inl hok
    · exact .inr (.inl ⟨⟨e, fun he => hnotFound (he ▸ herror), herror⟩, hdir, rfl⟩)

end Concat

/-- Enough is as good as more. -/
theorem createWithin_enough {path : Path} {n k : Nat} (hn : path.depth < n) (hk : path.depth < k) :
    Succeeds (createWithin n path) t () t' ↔ Succeeds (createWithin k path) t () t' := by
  induction n generalizing k path t' with
  | zero => omega
  | succ n ih =>
    obtain ⟨k, rfl⟩ : ∃ l, k = l + 1 := ⟨k - 1, by omega⟩
    have hmade : ∀ parent t₁, path.parent? = some parent →
        (Succeeds (createWithin n parent) t () t₁ ↔ Succeeds (createWithin k parent) t () t₁) := by
      intro parent t₁ hparent
      have hlt := Path.depth_parent? hparent
      exact ih (by omega) (by omega)
    rw [createWithin_succ_iff, createWithin_succ_iff]
    constructor
    · rintro (h | ⟨hne, h | h | ⟨hnotFound, parent, t₁, hparent, h, hmissing⟩⟩)
      · exact .inl h
      · exact .inr ⟨hne, .inl h⟩
      · exact .inr ⟨hne, .inr (.inl h)⟩
      · exact .inr ⟨hne, .inr (.inr ⟨hnotFound, parent, t₁, hparent,
          (hmade parent t₁ hparent).1 h, hmissing⟩)⟩
    · rintro (h | ⟨hne, h | h | ⟨hnotFound, parent, t₁, hparent, h, hmissing⟩⟩)
      · exact .inl h
      · exact .inr ⟨hne, .inl h⟩
      · exact .inr ⟨hne, .inr (.inl h)⟩
      · exact .inr ⟨hne, .inr (.inr ⟨hnotFound, parent, t₁, hparent,
          (hmade parent t₁ hparent).2 h, hmissing⟩)⟩

theorem createDirectories_step {absolute : Bool} {xs : List Name} {x : Name}
    (hx : Path.IsName x) :
    Succeeds (createDirectories ⟨absolute, xs ++ [x]⟩) t () t' ↔
      ∃ t₁, Succeeds (createDirectories ⟨absolute, Path.trim absolute xs⟩) t () t₁ ∧
        Succeeds (makeMissing ⟨absolute, xs ++ [x]⟩) t₁ () t' := by
  have hdepth : ∀ path : Path, path.depth < path.segments.length + 1 :=
    fun path => Nat.lt_succ_of_le path.depth_le
  have hpath := hdepth ⟨absolute, xs ++ [x]⟩
  have hparent : Path.depth ⟨absolute, Path.trim absolute xs⟩ < Path.depth ⟨absolute, xs ++ [x]⟩ :=
    Path.depth_parent? (Path.parent?_concat hx.not_trivial)
  rw [List.length_append, List.length_singleton] at hpath
  rw [createDirectories, createWithin_enough (hdepth _)
    (show _ < xs.length + 2 from hpath), createWithin_step hx]
  refine exists_congr fun t₁ => and_congr_left' ?_
  exact createWithin_enough (by omega) (hdepth _)

/-- What makes up the creation of a file. -/
theorem createFile_iff {path : Path} {file : Handle} :
    Succeeds (createFile path) t file t' ↔ ∃ t₁, t₁.create path = .ok (file, t') ∧
      match path.parent? with
      | none => t₁ = t
      | some parent => Succeeds (createDirectories parent) t () t₁ := by
  have hcreate : ∀ (t₁ : FileTree) (wrap : OsError → Error),
      ((Files.create (m := StateM FileTree) path).run t₁).1.mapError wrap = .ok file ∧
        ((Files.create (m := StateM FileTree) path).run t₁).2 = t' ↔
          t₁.create path = .ok (file, t') := by
    intro t₁ wrap
    rw [← succeeds_create, Succeeds]
    cases ((Files.create (m := StateM FileTree) path).run t₁).1 with
    | ok file' => simp [Except.mapError]
    | error e => simp [Except.mapError]
  unfold Succeeds createFile
  cases path.parent? with
  | none =>
    simp only [run_bind, run_pure, hcreate]
    simp
  | some parent =>
    simp only [run_bind, run_pure]
    cases hmade : ((createDirectories (m := StateM FileTree) parent).run t).1 with
    | error e => simp [Except.mapError]
    | ok u =>
      have hok : ∀ wrap : OsError → Error, Except.mapError wrap (.ok u) = .ok u := fun _ => rfl
      simp only [hok, run_bind, run_pure, hcreate]
      simp

end Stencil
