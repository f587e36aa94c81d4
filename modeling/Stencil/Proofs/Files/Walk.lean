import Mathlib.Data.Set.List
import Stencil.Files.Walk
import Stencil.Proofs.Files.Creation

/-!
# Walks through a tree of files

A file below a directory is told by the names on the way to it. `Yields` is what is asked of a walk:
it finds each file below its directory, under a path with the components of these names, and does
not change the tree.

`walkFiles` does so if it meets no error, no name is hidden, and what it finds can be opened. There
is one thing that it counts on: what is in a directory has a name.

Results:
* `HasFile.eq_of_isPrefix`: no file is below another one.
* `IsPathOf.components`, `HasFile.path`: the paths under which a walk may find a file.
* `run_walkEntries`: what a walk gives for what it meets in a directory.
* `walkWithin_covers`: a walk of so many levels finds the files within them.
* `walkFiles_yields`, `FileTree.Flat.yields`: the files that a walk finds.
-/

namespace Stencil

open FileTree

variable {t : FileTree} {root : Path}

namespace FileTree

/-- A file below a directory, at the end of all links, by the names on the way. -/
structure HasFile (t : FileTree) (root : Path) (place : List Name) : Prop where
  ne_nil : place ≠ []
  names : ∀ s ∈ place, Path.IsName s
  isFile : t.isFile (root.below place) = true

/-- What a walk finds is the file of these names below a directory. -/
structure IsEntryOf (t : FileTree) (root : Path) (place : List Name) (e : WalkEntry) : Prop where
  isFile : e.isFile = true
  hasFile : t.HasFile root place
  components : e.path.components = root.components ++ place
  locate : t.locate true e.path = t.locate true (root.below place)

/-- A walk finds each file below a directory, and no others. It may find a file more than once. -/
structure Yields (t : FileTree) (walk : Walker (StateM FileTree)) (root : Path)
    (entries : List WalkEntry) : Prop where
  run : (walk root).run t = (entries.map .ok, t)
  found : ∀ e ∈ entries, e.isFile = true → ∃ place, t.IsEntryOf root place e
  complete : ∀ place, t.HasFile root place → ∃ e ∈ entries, t.IsEntryOf root place e

/-! ## Files by names -/

/-- A file is found along the segments of its directory's path and its names. -/
theorem HasFile.follow {place : List Name} (h : t.HasFile root place) :
    ∃ p node, t.follow true linkLimit (start root t.working) (root.stem ++ place) =
      .ok (p, some (.file node)) := by
  obtain ⟨p, node, hlocate⟩ := isFile_iff.1 h.isFile
  obtain ⟨htaken, hne⟩ := taken_of_locate hlocate
  rw [locate_eq htaken hne] at hlocate
  exact ⟨p, node, hlocate⟩

theorem rooted_start (t : FileTree) (path : Path) : Rooted t (start path t.working) :=
  (rooted_working t).start path

/-- No file is below another file. -/
theorem HasFile.eq_of_isPrefix {place other : List Name} (h : t.HasFile root place)
    (h' : t.HasFile root other) (hpre : place <+: other) : place = other := by
  obtain ⟨rest, rfl⟩ := hpre
  by_contra hne
  have hrest : rest ≠ [] := fun hnil => hne (by rw [hnil, List.append_nil])
  obtain ⟨p, node, hfollow⟩ := h.follow
  obtain ⟨p', node', hfollow'⟩ := h'.follow
  rw [← List.append_assoc] at hfollow'
  have hbeyond := follow_append t true hrest linkLimit _ (root.stem ++ place) (rooted_start t root)
  rw [hfollow, hfollow'] at hbeyond
  cases hbeyond

/-- A path leads to the directory that its stem leads to. -/
theorem locate_stem {path : Path} {here : Place} (htaken : Taken path) (hne : path.isEmpty = false)
    (h : t.follow true linkLimit (start path t.working) path.stem = .ok (here, some .directory)) :
    t.locate true path = .ok (here, some .directory) := by
  rw [locate_eq htaken hne]
  obtain hsegments | hsegments := path.segments_stem
  · rwa [hsegments]
  · have hbeyond := follow_append t true (List.cons_ne_nil [] []) linkLimit _ path.stem
      (rooted_start t path)
    rw [h] at hbeyond
    obtain ⟨links, hbeyond⟩ := hbeyond
    rw [hsegments, hbeyond, follow_trivial (by decide), follow_nil, ← follow_entry h]

theorem HasFile.tail {path : Path} {s : Name} {rest : List Name} (h : t.HasFile path (s :: rest))
    (hrest : rest ≠ []) : t.HasFile (path.below [s]) rest where
  ne_nil := hrest
  names := fun x hx => h.names x (.tail _ hx)
  isFile := by
    rw [path.below_below (h.names s (.head _)) rest]
    exact h.isFile

/-- A directory is taken if a path below it is. -/
theorem taken_of_below {path : Path} {place : List Name} (h : Taken (path.below place))
    (hne : place ≠ []) : Taken path := by
  refine ⟨?_, (path.size_le_below hne).trans h.short⟩
  have hnul := h.no_nul
  rw [Path.below_eq, Path.hasNul, List.any_append, Bool.or_eq_false_iff] at hnul
  obtain hsegments | hsegments := path.segments_stem
  · rw [Path.hasNul, hsegments, hnul.1]
  · rw [Path.hasNul, hsegments, List.any_append, hnul.1]
    rfl

/-- A file below a directory is found from that directory. -/
theorem HasFile.directory {path : Path} {place : List Name} (h : t.HasFile path place)
    (hne : path.isEmpty = false) :
    ∃ here links p node, t.locate true path = .ok (here, some .directory) ∧
      t.follow true links here place = .ok (p, some (.file node)) := by
  obtain ⟨p, node, hfollow⟩ := h.follow
  have hbeyond := follow_append t true h.ne_nil linkLimit _ path.stem (rooted_start t path)
  rw [hfollow] at hbeyond
  obtain ⟨here, hstem⟩ := hbeyond.reached
  rw [hstem] at hbeyond
  obtain ⟨links, hbeyond⟩ := hbeyond
  obtain ⟨_, _, hlocate⟩ := isFile_iff.1 h.isFile
  obtain ⟨htaken, -⟩ := taken_of_locate hlocate
  exact ⟨here, links, p, node, locate_stem (taken_of_below htaken h.ne_nil) hne hstem,
    hbeyond.symm⟩

/-! ## Directories -/

/-- What is in a directory has a name. -/
def Named (t : FileTree) : Prop := ∀ e ∈ t.all, ∀ name ∈ e.1.getLast?, Path.IsName name

instance (t : FileTree) : Decidable t.Named := inferInstanceAs (Decidable (∀ e ∈ t.all, _))

theorem mem_children {place : Place} {name : Name} {entry : FileEntry} :
    (name, entry) ∈ t.children place ↔ (place ++ [name], entry) ∈ t.all := by
  unfold children
  rw [List.mem_filterMap]
  constructor
  · rintro ⟨⟨p, entry'⟩, hmem, heq⟩
    obtain rfl | ⟨init, x, rfl⟩ := List.eq_nil_or_concat' p
    · cases heq
    · simp only [List.getLast?_concat, List.dropLast_concat, Option.ite_none_right_eq_some] at heq
      obtain ⟨rfl, heq⟩ := heq
      obtain ⟨rfl, rfl⟩ := Prod.mk.inj (Option.some.inj heq)
      exact hmem
  · exact fun hmem => ⟨_, hmem, by simp⟩

theorem mem_all {place : Place} {entry : FileEntry} (h : t.entry? place = some entry) :
    (place, entry) ∈ t.all := by
  by_cases hworking : place <+: t.working
  · rw [entry?_of_working hworking] at h
    cases h
    refine List.mem_append_left _ (List.mem_map.2 ⟨place.length, ?_, ?_⟩)
    · rw [List.mem_range]
      exact Nat.lt_succ_of_le hworking.length_le
    · rw [← List.prefix_iff_eq_take.1 hworking]
  · rw [entry?_eq_lookup hworking] at h
    obtain ⟨before, after, hentries, -⟩ := List.lookup_eq_some_iff.1 h
    refine List.mem_append_right _ ?_
    rw [hentries]
    simp

theorem list_ok_iff {path : Path} {found : List (Name × Found)} :
    t.list path = .ok found ↔ ∃ here, t.locate true path = .ok (here, some .directory) ∧
      found = (t.children here).map fun e => (e.1, t.found (path.below [e.1]) e.2) := by
  unfold list
  cases t.locate true path with
  | error e =>
    show Except.error e = _ ↔ _
    simp
  | ok located =>
    obtain ⟨here, entry⟩ := located
    cases entry with
    | none =>
      show Except.error _ = _ ↔ _
      simp
    | some entry =>
      cases entry with
      | directory =>
        show Except.ok _ = _ ↔ _
        simp [eq_comm, Path.below]
      | file node =>
        show Except.error _ = _ ↔ _
        simp
      | link target =>
        show Except.error _ = _ ↔ _
        simp

theorem Named.list (h : t.Named) {path : Path} {found : List (Name × Found)}
    (hlist : t.list path = .ok found) {name : Name} {what : Found} (hmem : (name, what) ∈ found) :
    Path.IsName name := by
  obtain ⟨here, -, rfl⟩ := list_ok_iff.1 hlist
  obtain ⟨⟨name', entry⟩, hchild, heq⟩ := List.mem_map.1 hmem
  obtain ⟨rfl, -⟩ := Prod.mk.inj heq
  exact h _ (mem_children.1 hchild) _ (by simp)

/-- The first name on the way to a file is in the directory, as a file if it is the last one. -/
theorem HasFile.listed {path : Path} {s : Name} {rest : List Name} (h : t.HasFile path (s :: rest))
    (hne : path.isEmpty = false) : ∃ found, t.list path = .ok found ∧
      (s, if rest = [] then .file else .directory) ∈ found := by
  obtain ⟨here, links, p, node, hlocate, hfollow⟩ := h.directory hne
  have hname := h.names s (.head _)
  have hlen : ¬Path.nameLimit < s.length := by
    intro hlen
    rw [follow_long (by simp [hname.not_trivial]) hname.not_up hlen] at hfollow
    cases hfollow
  rw [follow_name (by simp [hname.not_trivial]) hname.not_up hlen] at hfollow
  cases hentry : t.entry? (here ++ [s]) with
  | none =>
    rw [hentry] at hfollow
    simp only at hfollow
    split at hfollow <;> cases hfollow
  | some entry =>
    refine ⟨_, list_ok_iff.2 ⟨here, hlocate, rfl⟩,
      List.mem_map.2 ⟨(s, entry), mem_children.2 (mem_all hentry), Prod.ext rfl ?_⟩⟩
    show t.found (path.below [s]) entry = if rest = [] then .file else .directory
    rw [hentry] at hfollow
    cases entry with
    | file node =>
      have hrest : rest = [] := by
        by_contra hrest
        simp [hrest] at hfollow
      rw [if_pos hrest, found]
    | directory =>
      have hrest : rest ≠ [] := by
        rintro rfl
        rw [follow_nil, hentry] at hfollow
        cases hfollow
      rw [if_neg hrest, found]
    | link target =>
      rw [found]
      split_ifs with hrest
      · subst hrest
        obtain ⟨place, node, hplace⟩ := isFile_iff.1 h.isFile
        rw [find_iff.2 ⟨place, hplace⟩]
      · have hbelow : (path.below [s]).isEmpty = false := Path.isEmpty_concat hname
        obtain ⟨there, _, _, _, hthere, -⟩ := (h.tail hrest).directory hbelow
        rw [find_iff.2 ⟨there, hthere⟩]

/-! ## Paths of files -/

/-- A path under which a walk may find a file of these names. -/
def IsPathOf (root : Path) (place : List Name) (path : Path) : Prop :=
  path = root.below place ∨ path = (root.below place).rejoin

theorem IsPathOf.components {place : List Name} {path : Path} (h : IsPathOf root place path)
    (hne : place ≠ []) (hnames : ∀ s ∈ place, Path.IsName s) :
    path.components = root.components ++ place := by
  obtain rfl | rfl := h
  · exact root.components_below hnames
  obtain ⟨names, x, rfl, -, hx⟩ := Path.exists_concat hne hnames
  have hone : ∀ s ∈ [x], Path.IsName s := by simpa using hx
  rw [← root.components_below hnames, Path.below_eq, ← List.append_assoc, Path.rejoin_concat hx,
    Path.components_append hone, Path.components_trim, ← Path.components_append hone]

/-- **Paths.** The paths under which a walk may find a file lead to it. -/
theorem HasFile.path {place : List Name} {path : Path} (h : t.HasFile root place)
    (hpath : IsPathOf root place path) : t.locate true path = t.locate true (root.below place) := by
  obtain rfl | rfl := hpath
  · rfl
  obtain ⟨p, node, hlocate⟩ := isFile_iff.1 h.isFile
  obtain ⟨htaken, hne⟩ := taken_of_locate hlocate
  obtain ⟨names, x, rfl, -, hx⟩ := Path.exists_concat h.ne_nil h.names
  rw [Path.below_eq, ← List.append_assoc] at htaken hne ⊢
  rw [Path.rejoin_concat hx]
  obtain ⟨skipped, hskipped, htrivial⟩ := Path.exists_trim root.absolute (root.stem ++ names)
  have hsub : (Path.trim root.absolute (root.stem ++ names) ++ [x]).Sublist
      (root.stem ++ names ++ [x]) := (Path.prefix_trim _ _).sublist.append_right _
  rw [locate_eq (htaken.of_sublist hsub) (Path.isEmpty_concat hx), locate_eq htaken hne]
  show t.follow true linkLimit (start root t.working) _ =
    t.follow true linkLimit (start root t.working) _
  conv_rhs => rw [hskipped, List.append_assoc, follow_skip htrivial (List.cons_ne_nil x [])]

end FileTree

/-! ## What is met -/

section Walk

variable {above : List Path} {path : Path} {go : Walker (StateM FileTree)}

theorem run_mapM {α β : Type} {f : α → StateM FileTree β} (hf : ∀ a, ((f a).run t).2 = t)
    (l : List α) : (l.mapM f).run t = (l.map fun a => ((f a).run t).1, t) := by
  induction l with
  | nil => rfl
  | cons a l ih =>
    rw [List.mapM_cons, run_bind, hf, run_bind, ih]
    rfl

theorem run_link? (path : Path) (t : FileTree) :
    (Files.link? (m := StateM FileTree) path).run t = (t.link? path, t) := rfl

theorem run_list (path : Path) (t : FileTree) :
    (Files.list (m := StateM FileTree) path).run t = (t.list path, t) := rfl

/-- What is met under a path, by what is found there. -/
def meets (t : FileTree) (above : List Path) (path : Path) : Found → Met
  | .file => .file (if (t.link? path).isSome then path.rejoin else path)
  | .directory =>
    match (t.link? path).bind fun target => above.find? (Path.agree target) with
    | some ancestor => .failure (loopFailure path ancestor)
    | none => .directory path
  | .other => .other path
  | .failure e => .failure (walkFailure path e)

theorem run_meet (above : List Path) (path : Path) (what : Found) (t : FileTree) :
    (meet (m := StateM FileTree) above path what).run t = (meets t above path what, t) := by
  cases what with
  | directory =>
    unfold meet meets
    rw [run_bind, run_link?]
    cases (t.link? path).bind fun target => above.find? (Path.agree target) <;> rfl
  | file | other | failure e => rfl

/-- What a walk gives for what it meets, where `go` walks through directories. -/
def reported (t : FileTree) (go : Walker (StateM FileTree)) : Met → List (Except Error WalkEntry)
  | .file path => [.ok ⟨path, true⟩]
  | .directory path => .ok ⟨path, false⟩ :: ((go path).run t).1
  | .other path => [.ok ⟨path, false⟩]
  | .failure e => [.error e]

/-- **Directories.** What a walk meets is reported one by one. -/
theorem run_walkEntries (hgo : ∀ path, ((go path).run t).2 = t) (met : List (Name × Met)) :
    (walkEntries go met).run t = (met.flatMap fun e => reported t go e.2, t) := by
  induction met with
  | nil => rfl
  | cons e met ih =>
    obtain ⟨name, _ | path | _ | _⟩ := e
    case directory =>
      rw [walkEntries, run_bind, run_bind, hgo, run_pure, run_bind, ih]
      rfl
    all_goals
      rw [walkEntries, run_bind, run_pure, run_bind, ih]
      rfl

theorem inWalkOrder_perm (met : List (Name × Met)) : (inWalkOrder met).Perm met := by
  unfold inWalkOrder
  simp only [List.partition_eq_filter_filter]
  refine (((List.mergeSort_perm _ _).append_right _).trans List.perm_append_comm).trans ?_
  exact List.filter_append_perm _ met

/-- What a walk meets, by what it finds. -/
def met (t : FileTree) (above : List Path) (path : Path) (found : List (Name × Found)) :
    List (Name × Met) :=
  inWalkOrder ((found.filter fun e => !isHidden e.1).map fun e =>
    (e.1, meets t above (path.below [e.1]) e.2))

theorem mem_met {found : List (Name × Found)} {name : Name} {m : Met} :
    (name, m) ∈ met t above path found ↔ ∃ what, (name, what) ∈ found ∧ isHidden name = false ∧
      meets t above (path.below [name]) what = m := by
  rw [met, (inWalkOrder_perm _).mem_iff]
  simp [and_assoc]

theorem walkWithin_state (depth : Nat) (above : List Path) (path : Path) :
    ((walkWithin (m := StateM FileTree) depth above path).run t).2 = t := by
  induction depth generalizing above path with
  | zero => rfl
  | succ depth ih =>
    rw [walkWithin, run_bind, run_list]
    cases t.list path with
    | error e => rfl
    | ok found =>
      simp only
      rw [run_bind, run_mapM]
      · rw [run_walkEntries fun path => ih _ path]
      · rintro ⟨name, what⟩
        rw [run_bind, run_meet]
        rfl

/-- What a walk of so many levels reports. -/
theorem run_walkWithin_succ (depth : Nat) (above : List Path) (path : Path) (t : FileTree) :
    (walkWithin (m := StateM FileTree) (depth + 1) above path).run t =
      (match t.list path with
        | .error _ => []
        | .ok found => (met t (path :: above) path found).flatMap fun e =>
          reported t (walkWithin depth (path :: above)) e.2, t) := by
  rw [walkWithin, run_bind, run_list]
  cases t.list path with
  | error e => rfl
  | ok found =>
    simp only
    rw [run_bind, run_mapM]
    · simp only [run_bind, run_meet]
      rw [run_walkEntries fun path => walkWithin_state depth _ path]
      rfl
    · rintro ⟨name, what⟩
      rw [run_bind, run_meet]
      rfl

/-! ## Levels -/

/-- Among what is reported, the files within so many levels below a path are found. -/
structure Covers (t : FileTree) (depth : Nat) (path : Path)
    (reports : List (Except Error WalkEntry)) : Prop where
  found : ∀ e, .ok e ∈ reports → e.isFile = true → ∃ names ≠ [], (∀ s ∈ names, Path.IsName s) ∧
    IsPathOf path names e.path
  complete : (∀ r ∈ reports, ∃ e, r = .ok e) → ∀ names, t.HasFile path names →
    names.length ≤ depth → (∀ s ∈ names, isHidden s = false) →
    ∃ e, .ok e ∈ reports ∧ e.isFile = true ∧ IsPathOf path names e.path

/-- Among what is reported for one name in a directory, the files under it are found. -/
structure CoversName (t : FileTree) (depth : Nat) (path : Path) (name : Name) (what : Found)
    (reports : List (Except Error WalkEntry)) : Prop where
  found : ∀ e, .ok e ∈ reports → e.isFile = true → ∃ rest, (∀ s ∈ rest, Path.IsName s) ∧
    IsPathOf path (name :: rest) e.path
  complete : (∀ r ∈ reports, ∃ e, r = .ok e) → ∀ rest, t.HasFile path (name :: rest) →
    rest.length ≤ depth → (∀ s ∈ rest, isHidden s = false) →
    what = (if rest = [] then .file else .directory) →
    ∃ e, .ok e ∈ reports ∧ e.isFile = true ∧ IsPathOf path (name :: rest) e.path

theorem isPathOf_below {names : List Name} {name : Name} {p : Path} (hname : Path.IsName name)
    (h : IsPathOf (path.below [name]) names p) : IsPathOf path (name :: names) p := by
  rwa [IsPathOf, path.below_below hname names] at h

/-- What a walk reports for one name that it meets in a directory. -/
theorem reported_covers {depth : Nat} {name : Name} {what : Found} (hname : Path.IsName name)
    (hgo : ∀ path, path.isEmpty = false → Covers t depth path ((go path).run t).1) :
    CoversName t depth path name what (reported t go (meets t above (path.below [name]) what)) := by
  cases what with
  | file =>
    have hpath : IsPathOf path [name]
        (if (t.link? (path.below [name])).isSome then (path.below [name]).rejoin
          else path.below [name]) := by
      split
      · exact .inr rfl
      · exact .inl rfl
    refine ⟨fun e he _ => ?_, fun _ rest _ _ _ hrest => ?_⟩
    · obtain rfl := Except.ok.inj (List.mem_singleton.1 he)
      exact ⟨[], by simp, hpath⟩
    · have hnil : rest = [] := by
        by_contra hne
        rw [if_neg hne] at hrest
        cases hrest
      subst hnil
      exact ⟨_, List.mem_singleton.2 rfl, rfl, hpath⟩
  | directory =>
    cases hloop : (t.link? (path.below [name])).bind
        fun target => above.find? (Path.agree target) with
    | some ancestor =>
      rw [meets, hloop]
      refine ⟨fun e he => ?_, fun hok => ?_⟩
      · cases List.mem_singleton.1 he
      · obtain ⟨e, he⟩ := hok _ (List.mem_singleton.2 rfl)
        cases he
    | none =>
      rw [meets, hloop]
      have hcovers := hgo (path.below [name]) (Path.isEmpty_concat hname)
      refine ⟨fun e he hfile => ?_, fun hok rest hfile hlength hvisible hrest => ?_⟩
      · obtain he | he := List.mem_cons.1 he
        · cases he
          cases hfile
        · obtain ⟨names, -, hnames, hpath⟩ := hcovers.found e he hfile
          exact ⟨names, hnames, isPathOf_below hname hpath⟩
      · have hne : rest ≠ [] := by
          intro hnil
          rw [if_pos hnil] at hrest
          cases hrest
        obtain ⟨e, he, hisFile, hpath⟩ := hcovers.complete (fun r hr => hok r (.tail _ hr)) rest
          (hfile.tail hne) hlength hvisible
        exact ⟨e, .tail _ he, hisFile, isPathOf_below hname hpath⟩
  | other =>
    refine ⟨fun e he hfile => ?_, fun _ rest _ _ _ hrest => ?_⟩
    · cases Except.ok.inj (List.mem_singleton.1 he)
      cases hfile
    · split at hrest <;> cases hrest
  | failure e =>
    refine ⟨fun e he => ?_, fun hok => ?_⟩
    · cases List.mem_singleton.1 he
    · obtain ⟨e, he⟩ := hok _ (List.mem_singleton.2 rfl)
      cases he

/-- **Levels.** A walk of so many levels finds the files within them. -/
theorem walkWithin_covers (hnamed : t.Named) {depth : Nat} (hne : path.isEmpty = false) :
    Covers t depth path ((walkWithin (m := StateM FileTree) depth above path).run t).1 := by
  induction depth generalizing above path with
  | zero =>
    refine ⟨fun e he => (List.not_mem_nil he).elim, fun _ names hfile hlength => ?_⟩
    exact absurd (List.length_eq_zero_iff.1 (Nat.le_zero.1 hlength)) hfile.ne_nil
  | succ depth ih =>
    rw [run_walkWithin_succ]
    cases hlist : t.list path with
    | error e =>
      refine ⟨fun e he => (List.not_mem_nil he).elim, fun _ names hfile => ?_⟩
      obtain ⟨name, rest, rfl⟩ := List.exists_cons_of_ne_nil hfile.ne_nil
      obtain ⟨found, hlist', -⟩ := hfile.listed hne
      cases hlist.symm.trans hlist'
    | ok found =>
      have hcovers : ∀ name what, (name, what) ∈ found → CoversName t depth path name what
          (reported t (walkWithin depth (path :: above))
            (meets t (path :: above) (path.below [name]) what)) :=
        fun name what hwhat => reported_covers (hnamed.list hlist hwhat) fun path hne => ih hne
      refine ⟨fun e he hfile => ?found, fun hok names hfile hlength hvisible => ?complete⟩
      case found =>
        obtain ⟨⟨name, m⟩, hmet, he⟩ := List.mem_flatMap.1 he
        obtain ⟨what, hwhat, -, rfl⟩ := mem_met.1 hmet
        obtain ⟨rest, hrest, hpath⟩ := (hcovers name what hwhat).found e he hfile
        exact ⟨name :: rest, by simp,
          List.forall_mem_cons.2 ⟨hnamed.list hlist hwhat, hrest⟩, hpath⟩
      case complete =>
        obtain ⟨name, rest, rfl⟩ := List.exists_cons_of_ne_nil hfile.ne_nil
        obtain ⟨hname, hrest⟩ := List.forall_mem_cons.1 hvisible
        obtain ⟨found', hlist', hwhat⟩ := hfile.listed hne
        obtain rfl := Except.ok.inj (hlist.symm.trans hlist')
        have hmet : (name, meets t (path :: above) (path.below [name])
            (if rest = [] then .file else .directory)) ∈ met t (path :: above) path found :=
          mem_met.2 ⟨_, hwhat, hname, rfl⟩
        obtain ⟨e, he, hisFile, hpath⟩ := (hcovers name _ hwhat).complete
          (fun r hr => hok r (List.mem_flatMap.2 ⟨_, hmet, hr⟩)) rest hfile
          (Nat.le_of_succ_le_succ hlength) hrest rfl
        exact ⟨e, List.mem_flatMap.2 ⟨_, hmet, he⟩, hisFile, hpath⟩

/-! ## The whole walk -/

/-- The depth is enough for all names of a path that can be opened. -/
theorem FileTree.HasFile.length_le {place : List Name} (h : t.HasFile root place) :
    place.length ≤ walkDepth := by
  obtain ⟨p, node, hlocate⟩ := isFile_iff.1 h.isFile
  have hshort := (taken_of_locate hlocate).1.short
  have hlength : 2 * place.length ≤ (root.below place).size + 1 :=
    Path.length_le_size (fun s hs => (h.names s hs).ne_nil) (List.sublist_append_right _ _)
  have hlimit : walkDepth = Path.limit / 2 + 1 := rfl
  omega

theorem run_walkFiles (hlink : t.link? root = none) :
    (walkFiles (m := StateM FileTree) root).run t =
      (.ok ⟨root, false⟩ ::
        ((walkWithin (m := StateM FileTree) walkDepth [root] root).run t).1, t) := by
  unfold walkFiles
  rw [run_bind, run_link?]
  simp only [run_bind, run_meet, meets, hlink, Option.isSome_none, Bool.false_eq_true, if_false,
    Option.bind_none]
  rw [run_walkEntries fun path => walkWithin_state _ _ path]
  simp [reported]

/-- **Walks.** A walk finds each file if it meets no error, no name is hidden and what it finds can
be opened. -/
theorem walkFiles_yields {entries : List WalkEntry} (hnamed : t.Named)
    (hroot : root.isEmpty = false) (hlink : t.link? root = none)
    (hvisible : ∀ place, t.HasFile root place → ∀ s ∈ place, isHidden s = false)
    (hrun : ((walkFiles (m := StateM FileTree) root).run t).1 = entries.map .ok)
    (hfiles : ∀ e ∈ entries, e.isFile = true → ∀ place ≠ [], (∀ s ∈ place, Path.IsName s) →
      IsPathOf root place e.path → t.isFile (root.below place) = true) :
    t.Yields walkFiles root entries := by
  have hwalk := run_walkFiles hlink
  rw [hwalk] at hrun
  have hcovers : Covers t walkDepth root
      ((walkWithin (m := StateM FileTree) walkDepth [root] root).run t).1 :=
    walkWithin_covers hnamed hroot
  generalize ((walkWithin (m := StateM FileTree) walkDepth [root] root).run t).1 =
    reports at hcovers hrun hwalk
  have hmem : ∀ e : WalkEntry, e ∈ entries ↔
      .ok e ∈ (.ok ⟨root, false⟩ :: reports : List (Except Error WalkEntry)) := by
    intro e
    show _ ↔ _ ∈ ((.ok ⟨root, false⟩ :: reports : List (Except Error WalkEntry)), t).1
    rw [hrun]
    simp
  refine ⟨by rw [hwalk, ← hrun], fun e he hfile => ?_, fun place hplace => ?_⟩
  · obtain hroot | hreport := List.mem_cons.1 ((hmem e).1 he)
    · cases hroot
      cases hfile
    obtain ⟨names, hne, hnames, hpath⟩ := hcovers.found e hreport hfile
    have hasFile : t.HasFile root names := ⟨hne, hnames, hfiles e he hfile names hne hnames hpath⟩
    exact ⟨names, hfile, hasFile, hpath.components hne hnames, hasFile.path hpath⟩
  · have hok : ∀ r ∈ reports, ∃ e, r = .ok e := by
      intro r hr
      have hr' : r ∈ entries.map Except.ok := by
        rw [← hrun]
        exact .tail _ hr
      obtain ⟨e, -, rfl⟩ := List.mem_map.1 hr'
      exact ⟨e, rfl⟩
    obtain ⟨e, he, hfile, hpath⟩ := hcovers.complete hok place hplace hplace.length_le
      (hvisible place hplace)
    exact ⟨e, (hmem e).2 (.tail _ he), hfile, hplace, hpath.components hplace.ne_nil hplace.names,
      hplace.path hpath⟩

section Flat

variable {names : List Name}

/-- A directory of files, and nothing else, all of which can be opened. -/
structure FileTree.Flat (t : FileTree) (root : Path) (names : List Name) : Prop where
  named : t.Named
  path : root.isEmpty = false
  link : t.link? root = none
  list : t.list root = .ok (names.map (·, .file))
  visible : ∀ name ∈ names, isHidden name = false
  isFile : ∀ name ∈ names, t.isFile (root.below [name]) = true

/-- The files below such a directory are those in it. -/
theorem FileTree.Flat.hasFile_iff (h : t.Flat root names) {place : List Name} :
    t.HasFile root place ↔ ∃ name ∈ names, place = [name] := by
  constructor
  · intro hfile
    obtain ⟨name, rest, rfl⟩ := List.exists_cons_of_ne_nil hfile.ne_nil
    obtain ⟨found, hlist, hmem⟩ := hfile.listed h.path
    obtain rfl := Except.ok.inj (hlist.symm.trans h.list)
    obtain ⟨name', hname, heq⟩ := List.mem_map.1 hmem
    obtain ⟨rfl, hrest⟩ := Prod.mk.inj heq
    refine ⟨name', hname, ?_⟩
    by_cases hnil : rest = []
    · rw [hnil]
    · rw [if_neg hnil] at hrest
      cases hrest
  · rintro ⟨name, hname, rfl⟩
    have hisName : Path.IsName name := h.named.list h.list (List.mem_map_of_mem hname)
    exact ⟨List.cons_ne_nil _ _, by simpa using hisName, h.isFile name hname⟩

/-- **Directories of files.** A walk through one finds what is there. -/
theorem FileTree.Flat.yields (h : t.Flat root names) :
    ∃ entries, t.Yields walkFiles root entries := by
  have hreports : ∀ r ∈ ((walkFiles (m := StateM FileTree) root).run t).1, ∃ e, .ok e = r ∧
      (e.isFile = true → ∃ name ∈ names, IsPathOf root [name] e.path) := by
    intro r hr
    rw [run_walkFiles h.link, walkDepth, run_walkWithin_succ, h.list] at hr
    obtain rfl | hr := List.mem_cons.1 hr
    · exact ⟨_, rfl, nofun⟩
    obtain ⟨⟨name, m⟩, hmet, hr⟩ := List.mem_flatMap.1 hr
    obtain ⟨what, hwhat, -, rfl⟩ := mem_met.1 hmet
    obtain ⟨name', hname, heq⟩ := List.mem_map.1 hwhat
    obtain ⟨rfl, rfl⟩ := Prod.mk.inj heq
    obtain rfl := List.mem_singleton.1 hr
    refine ⟨_, rfl, fun _ => ⟨name', hname, ?_⟩⟩
    show IsPathOf root [name'] (if _ then _ else _)
    split
    · exact .inr rfl
    · exact .inl rfl
  obtain ⟨entries, hentries⟩ : ∃ entries : List WalkEntry,
      entries.map .ok = ((walkFiles (m := StateM FileTree) root).run t).1 := by
    have hrange := Set.range_list_map (Except.ok : WalkEntry → Except Error WalkEntry)
    exact (Set.ext_iff.1 hrange _).2 fun r hr => (hreports r hr).imp fun _ he => he.1
  have hvisible : ∀ place, t.HasFile root place → ∀ s ∈ place, isHidden s = false := by
    intro place hplace
    obtain ⟨name, hname, rfl⟩ := h.hasFile_iff.1 hplace
    simpa using h.visible name hname
  refine ⟨entries, walkFiles_yields h.named h.path h.link hvisible hentries.symm ?_⟩
  intro e he hfile place hne hnames hpath
  have hreport : (.ok e : Except Error WalkEntry) ∈ entries.map .ok := List.mem_map_of_mem he
  rw [hentries] at hreport
  obtain ⟨e', heq, hflat⟩ := hreports _ hreport
  obtain rfl := Except.ok.inj heq
  obtain ⟨name, hname, hpath'⟩ := hflat hfile
  have hfile' : t.HasFile root [name] := h.hasFile_iff.2 ⟨name, hname, rfl⟩
  have hcomponents := hpath.components hne hnames
  rw [hpath'.components hfile'.ne_nil hfile'.names] at hcomponents
  rw [← List.append_cancel_left hcomponents]
  exact hfile'.isFile

end Flat

end Walk

end Stencil
