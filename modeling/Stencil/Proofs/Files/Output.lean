import Stencil.Proofs.Files.Creation

/-!
# Files below a directory

Files are created below a directory, by the names on the way from there. If there are no links on
the way, such a file comes to be at the place of these names below that of the directory, and what
matters is what is at the places on the way.

Results:
* `createFile_writable`, `createFile_wrote`: when a file can be created, and what changes then.
* `Wrote.write`: a file that has been created takes what is written to it.
* `createFile_made`: if the directory is missing, to make it first makes no difference.
-/

namespace Stencil

open FileTree

variable {t t' : FileTree} {out : Path} {o : Place}

/-- The path of a directory, as the one that holds a name below it. -/
def Path.directory (out : Path) (names : List Name) : Path :=
  ⟨out.absolute, trim out.absolute (out.stem ++ names)⟩

/-- A place on the way to another, or that itself. -/
def Along (p place : Place) : Prop := p ≠ [] ∧ p <+: place

theorem Along.refl {place : Place} (h : place ≠ []) : Along place place := ⟨h, List.prefix_rfl⟩

theorem Along.append {p names : Place} (h : Along p names) (rest : Place) :
    Along p (names ++ rest) := ⟨h.1, h.2.trans (List.prefix_append names rest)⟩

theorem not_along_nil {p : Place} : ¬Along p [] := fun h => h.1 (List.prefix_nil.1 h.2)

/-- What is on the way to a name is that name or on the way to its directory. -/
theorem along_concat {p names : Place} {x : Name} (h : Along p (names ++ [x])) :
    p = names ++ [x] ∨ Along p names :=
  (List.prefix_concat_iff.1 h.2).imp id fun hpre => ⟨h.1, hpre⟩

theorem ne_of_along {p names : Place} {x : Name} (h : Along p names) : p ≠ names ++ [x] := by
  rintro rfl
  have hle := h.2.length_le
  rw [List.length_append, List.length_singleton] at hle
  omega

namespace FileTree

/-- What is below `out` is below the place `o`. -/
structure Opens (t : FileTree) (out : Path) (o : Place) : Prop where
  reached : t.reach (out.directory []) = .ok (o, some .directory)

/-- There are no links on the way. -/
def Unlinked (t : FileTree) (o place : Place) : Prop :=
  ∀ p, Along p place → ∀ target, t.entry? (o ++ p) ≠ some (.link target)

/-- The names are taken, and nothing but directories is on their way. -/
structure Clear (t : FileTree) (o : Place) (names : List Name) : Prop where
  short : ∀ s ∈ names, s.length ≤ Path.nameLimit
  entry : ∀ p, Along p names → t.entry? (o ++ p) = none ∨ t.entry? (o ++ p) = some .directory

theorem Clear.unlinked {names : List Name} (h : Clear t o names) : Unlinked t o names := by
  intro p hp target hlink
  obtain hnone | hdir := h.entry p hp
  · rw [hlink] at hnone
    cases hnone
  · rw [hlink] at hdir
    cases hdir

/-- The same files, with directories all along the names. -/
structure Opened (t : FileTree) (o : Place) (names : List Name) (t' : FileTree) : Prop where
  inside : ∀ p, Along p names → t'.entry? (o ++ p) = some .directory
  outside : ∀ q, (∀ p, Along p names → q ≠ o ++ p) → t'.entry? q = t.entry? q

theorem follow_single {last : Bool} {links : Nat} {here : Place} {x : Name} (hx : Path.IsName x)
    (hlink : ∀ target, t.entry? (here ++ [x]) ≠ some (.link target)) :
    t.follow last links here [x] =
      if Path.nameLimit < x.length then .error .nameTooLong
      else .ok (here ++ [x], t.entry? (here ++ [x])) := by
  split
  · rename_i hlen
    exact follow_long (by simp [hx.not_trivial]) hx.not_up hlen
  · rename_i hlen
    rw [follow_name (by simp [hx.not_trivial]) hx.not_up hlen]
    cases hentry : t.entry? (here ++ [x]) with
    | none => rfl
    | some e =>
      cases e with
      | file node => rfl
      | directory => exact follow_nil.trans (by rw [hentry])
      | link target => exact absurd hentry (hlink target)

end FileTree

section Names

variable {names : List Name} {x : Name}

theorem Path.directory_concat (out : Path) (names : List Name) (hx : Path.IsName x) :
    out.directory (names ++ [x]) = ⟨out.absolute, out.stem ++ names ++ [x]⟩ := by
  rw [Path.directory, ← List.append_assoc, Path.trim_concat _ _ hx.not_trivial]

theorem Path.below_eq_directory (out : Path) {place : List Name} (hne : place ≠ [])
    (h : ∀ s ∈ place, IsName s) : out.below place = out.directory place := by
  obtain ⟨names, x, rfl, -, hx⟩ := exists_concat hne h
  rw [below_eq, directory_concat out names hx, List.append_assoc]

/-- The path of a name in a directory leads to the name's place there. -/
theorem FileTree.locate_name (hx : Path.IsName x) {here : Place}
    (hreach : t.reach (out.directory names) = .ok (here, some .directory))
    (htaken : Taken (out.directory (names ++ [x])))
    (hlink : ∀ target, t.entry? (here ++ [x]) ≠ some (.link target)) (last : Bool) :
    t.locate last (out.directory (names ++ [x])) =
      if Path.nameLimit < x.length then .error .nameTooLong
      else .ok (here ++ [x], t.entry? (here ++ [x])) := by
  rw [Path.directory_concat out names hx] at htaken ⊢
  have hbeyond := locate_child (t := t) hx last htaken
  rw [← Path.directory, hreach] at hbeyond
  obtain ⟨links, h⟩ := hbeyond
  rw [h, follow_single hx hlink]

theorem createDirectories_concat (hx : Path.IsName x) :
    Succeeds (createDirectories (out.directory (names ++ [x]))) t () t' ↔
      ∃ t₁, Succeeds (createDirectories (out.directory names)) t () t₁ ∧
        Succeeds (makeMissing (out.directory (names ++ [x]))) t₁ () t' := by
  rw [Path.directory_concat out names hx]
  exact createDirectories_step hx

theorem createFile_concat {file : Handle} (hx : Path.IsName x) :
    Succeeds (createFile (out.directory (names ++ [x]))) t file t' ↔
      ∃ t₁, Succeeds (createDirectories (out.directory names)) t () t₁ ∧
        t₁.create (out.directory (names ++ [x])) = .ok (file, t') := by
  rw [createFile_iff, Path.directory_concat out names hx, Path.parent?_concat hx.not_trivial]
  exact exists_congr fun t₁ => and_comm

end Names

/-! ## Directories -/

/-- To make the directory first makes no difference to what is made below it. -/
theorem createDirectories_made {names : List Name} (hnames : ∀ s ∈ names, Path.IsName s) :
    Succeeds (createDirectories (out.directory names)) t () t' ↔
      ∃ t₀, Succeeds (createDirectories (out.directory [])) t () t₀ ∧
        Succeeds (createDirectories (out.directory names)) t₀ () t' := by
  induction names using List.reverseRecOn generalizing t' with
  | nil =>
    constructor
    · intro h
      obtain ⟨place, hreach⟩ := (createWithin_ok h).2
      exact ⟨t', h, createWithin_of_reach hreach⟩
    · rintro ⟨t₀, h₀, h⟩
      obtain ⟨place, hreach⟩ := (createWithin_ok h₀).2
      obtain ⟨-, rfl⟩ := createWithin_settled (by simp [hreach]) (by simp [hreach]) h
      exact h₀
  | append_singleton names x ih =>
    obtain ⟨hinit, hx⟩ := Path.names_concat_iff.1 hnames
    simp only [createDirectories_concat hx, ih hinit]
    constructor
    · rintro ⟨t₁, ⟨t₀, h₀, h₁⟩, hmissing⟩
      exact ⟨t₀, h₀, t₁, h₁, hmissing⟩
    · rintro ⟨t₀, h₀, t₁, h₁, hmissing⟩
      exact ⟨t₁, ⟨t₀, h₀, h₁⟩, hmissing⟩

namespace FileTree

/-- What comes behind the names is as it was. -/
theorem Opened.entry_concat {names : List Name} (h : Opened t o names t') (x : Name) :
    t'.entry? (o ++ (names ++ [x])) = t.entry? (o ++ (names ++ [x])) :=
  h.outside _ fun _ hp heq => ne_of_along hp (List.append_cancel_left heq).symm

theorem Opened.locate {names : List Name} {x : Name} (h : Opened t o names t')
    (hx : Path.IsName x)
    (hreach : t'.reach (out.directory names) = .ok (o ++ names, some .directory))
    (htaken : Taken (out.directory (names ++ [x])))
    (hlink : ∀ target, t.entry? (o ++ (names ++ [x])) ≠ some (.link target)) (last : Bool) :
    t'.locate last (out.directory (names ++ [x])) =
      if Path.nameLimit < x.length then .error .nameTooLong
      else .ok (o ++ (names ++ [x]), t.entry? (o ++ (names ++ [x]))) := by
  have hentry := h.entry_concat x
  rw [← List.append_assoc] at hentry hlink ⊢
  rw [locate_name hx hreach htaken (by rwa [hentry]) last, hentry]

end FileTree

/-- What it takes to make a directory where its path leads, unless it is there, and what changes. -/
theorem makeMissing_there {path : Path} {place : Place} {tooLong : Prop} [Decidable tooLong]
    {e : OsError} (hlocate : ∀ last, t.locate last path =
      if tooLong then .error e else .ok (place, t.entry? place))
    (h : Succeeds (makeMissing path) t () t') :
    ¬tooLong ∧ (t.entry? place = none ∨ t.entry? place = some .directory) ∧
      t'.locate true path = .ok (place, some .directory) ∧
      ∀ other, t'.entry? other = if other = place then some .directory else t.entry? other := by
  obtain hok | ⟨-, hdir, rfl⟩ := makeMissing_iff.1 h
  · obtain ⟨-, place, hfalse, htrue, hentries⟩ := makeDirectory_ok hok
    rw [hlocate] at hfalse
    split at hfalse
    · cases hfalse
    · rename_i hshort
      obtain ⟨rfl, hnone⟩ := Prod.mk.inj (Except.ok.inj hfalse)
      exact ⟨hshort, .inl hnone, htrue, hentries⟩
  · obtain ⟨place, htrue⟩ := isDirectory_iff.1 hdir
    have hfound := htrue
    rw [hlocate] at hfound
    split at hfound
    · cases hfound
    · rename_i hshort
      obtain ⟨rfl, hsome⟩ := Prod.mk.inj (Except.ok.inj hfound)
      refine ⟨hshort, .inr hsome, htrue, fun other => ?_⟩
      split
      · rename_i hother
        rw [hother, hsome]
      · rfl

/-- What happens when directories are made along names. -/
theorem createDirectories_opened (h : Opens t out o) {names : List Name}
    (hnames : ∀ s ∈ names, Path.IsName s) (hunlinked : Unlinked t o names)
    (hmade : Succeeds (createDirectories (out.directory names)) t () t') :
    Clear t o names ∧ Opened t o names t' ∧
      t'.reach (out.directory names) = .ok (o ++ names, some .directory) := by
  induction names using List.reverseRecOn generalizing t' with
  | nil =>
    obtain ⟨-, rfl⟩ := createWithin_settled (by simp [h.reached]) (by simp [h.reached]) hmade
    exact ⟨⟨by simp, fun p hp => absurd hp not_along_nil⟩,
      ⟨fun p hp => absurd hp not_along_nil, fun _ _ => rfl⟩, by simpa using h.reached⟩
  | append_singleton names x ih =>
    obtain ⟨hinit, hx⟩ := Path.names_concat_iff.1 hnames
    obtain ⟨t₁, hmade₁, hmissing⟩ := (createDirectories_concat hx).1 hmade
    obtain ⟨hclear, hopened, hreach⟩ := ih hinit (fun p hp => hunlinked p (hp.append [x])) hmade₁
    obtain ⟨-, place, hplace⟩ := makeMissing_ok hmissing
    obtain ⟨htaken, hne⟩ := taken_of_locate hplace
    have hlocate := hopened.locate hx hreach htaken (hunlinked _ (.refl (by simp)))
    rw [← hopened.entry_concat x] at hlocate
    obtain ⟨hlen, hbefore, htrue, hentries⟩ := makeMissing_there hlocate hmissing
    rw [hopened.entry_concat x] at hbefore
    refine ⟨⟨?_, ?_⟩, ⟨?_, ?_⟩, by rw [reach_of_ne hne, htrue]⟩
    · intro s hs
      obtain hs | hs := List.mem_append.1 hs
      · exact hclear.short s hs
      · rw [List.mem_singleton.1 hs]
        exact Nat.not_lt.1 hlen
    · intro p hp
      obtain rfl | hp := along_concat hp
      · exact hbefore
      · exact hclear.entry p hp
    · intro p hp
      rw [hentries]
      split
      · rfl
      · rename_i hne
        obtain rfl | hp := along_concat hp
        · exact absurd rfl hne
        · exact hopened.inside p hp
    · intro other hother
      rw [hentries, if_neg (hother _ (.refl (by simp)))]
      exact hopened.outside other fun p hp => hother p (hp.append [x])

theorem FileTree.Taken.directory {names : List Name} {x : Name} (hx : Path.IsName x)
    (h : Taken (out.directory (names ++ [x]))) : Taken (out.directory names) := by
  rw [Path.directory_concat out names hx] at h
  exact h.of_sublist ((Path.prefix_trim _ _).trans (List.prefix_append _ _)).sublist

/-- Directories are made along names if there is nothing else on the way. -/
theorem createDirectories_clear (h : Opens t out o) {names : List Name}
    (hnames : ∀ s ∈ names, Path.IsName s) (htaken : Taken (out.directory names))
    (hclear : Clear t o names) :
    ∃ t', Succeeds (createDirectories (out.directory names)) t () t' := by
  induction names using List.reverseRecOn with
  | nil => exact ⟨t, createWithin_of_reach h.reached⟩
  | append_singleton names x ih =>
    obtain ⟨hinit, hx⟩ := Path.names_concat_iff.1 hnames
    have hclear' : Clear t o names := ⟨fun s hs => hclear.short s (List.mem_append_left _ hs),
      fun p hp => hclear.entry p (hp.append [x])⟩
    obtain ⟨t₁, hmade⟩ := ih hinit (htaken.directory hx) hclear'
    obtain ⟨-, hopened, hreach⟩ := createDirectories_opened h hinit hclear'.unlinked hmade
    have hlast := hclear.entry (names ++ [x]) (.refl (by simp))
    have hlocate := hopened.locate hx hreach htaken (hclear.unlinked _ (.refl (by simp)))
    simp only [Nat.not_lt.2 (hclear.short x (by simp)), if_false] at hlocate
    have hmissing : ∃ t', Succeeds (makeMissing (out.directory (names ++ [x]))) t₁ () t' := by
      simp only [makeMissing_iff, makeDirectory_eq, hlocate]
      obtain hnone | hsome := hlast
      · exact ⟨_, .inl (by rw [hnone])⟩
      · exact ⟨t₁, .inr ⟨⟨_, by rw [hsome]⟩,
          isDirectory_iff.2 ⟨_, by rw [hlocate, hsome]⟩, rfl⟩⟩
    obtain ⟨t', hmissing⟩ := hmissing
    exact ⟨t', (createDirectories_concat hx).2 ⟨t₁, hmade, hmissing⟩⟩

/-! ## Files -/

namespace FileTree

/-- A file can be created at a place below a directory. -/
structure Writable (t : FileTree) (out : Path) (o : Place) (place : List Name) : Prop where
  taken : Taken (out.below place)
  short : ∀ s ∈ place, s.length ≤ Path.nameLimit
  above : ∀ p, Along p place → p ≠ place →
    t.entry? (o ++ p) = none ∨ t.entry? (o ++ p) = some .directory
  entry : t.entry? (o ++ place) = none ∨ ∃ node, t.entry? (o ++ place) = some (.file node)

/-- The same files, but for one of this node at a place below a directory, and what that holds, and
for directories above it. -/
structure Wrote (t : FileTree) (o : Place) (place : List Name) (node : Nat) (t' : FileTree) :
    Prop where
  working : t'.working = t.working
  before : t.entry? (o ++ place) = some (.file node) ∨
    t.entry? (o ++ place) = none ∧ ∀ q, t.entry? q ≠ some (.file node)
  entry : t'.entry? (o ++ place) = some (.file node)
  above : ∀ p, Along p place → p ≠ place → t'.entry? (o ++ p) = some .directory
  other : ∀ q, (∀ p, Along p place → q ≠ o ++ p) → t'.entry? q = t.entry? q
  content : ∀ n ≠ node, t'.content n = t.content n

/-- The file at a place has no other name. -/
def Sole (t : FileTree) (place : Place) : Prop :=
  ∀ node, t.entry? place = some (.file node) → ∀ p, t.entry? p = some (.file node) → p = place

variable {place : List Name} {node : Nat}

theorem Writable.unlinked (h : Writable t out o place) : Unlinked t o place := by
  intro p hp target hlink
  by_cases hproper : p = place
  · subst hproper
    obtain hnone | ⟨_, hfile⟩ := h.entry
    · rw [hlink] at hnone
      cases hnone
    · rw [hlink] at hfile
      cases hfile
  · obtain hnone | hdir := h.above p hp hproper
    · rw [hlink] at hnone
      cases hnone
    · rw [hlink] at hdir
      cases hdir

/-- What has been created takes what is written to it. -/
theorem Wrote.write {file : Handle} (h : Wrote t o place file.node t') (bytes : ByteArray) :
    Wrote t o place file.node (t'.write file bytes).2 := by
  have hwrites : Writes t' (o ++ place) file.node (t'.write file bytes).2 :=
    Writes.write ⟨rfl, .inl h.entry, h.entry, fun _ _ => rfl, fun _ _ => rfl⟩ bytes
  refine ⟨hwrites.working.trans h.working, h.before, hwrites.entry, ?_, ?_, ?_⟩
  · intro p hp hproper
    rw [entry?_write, h.above p hp hproper]
  · intro q hq
    rw [entry?_write, h.other q hq]
  · intro n hn
    rw [hwrites.content n hn, h.content n hn]

end FileTree

section Create

variable {place : List Name}

/-- What it takes to create a file, and what changes. -/
theorem createFile_wrote (h : Opens t out o) (hne : place ≠ [])
    (hplace : ∀ s ∈ place, Path.IsName s) (hunlinked : Unlinked t o place) {file : Handle}
    (hcreate : Succeeds (createFile (out.below place)) t file t') :
    Writable t out o place ∧ Wrote t o place file.node t' ∧
      t'.locate true (out.below place) = .ok (o ++ place, some (.file file.node)) ∧
      t'.content file.node = .empty ∧ file.position? = some 0 := by
  have hbelow : out.below place = out.directory place := out.below_eq_directory hne hplace
  obtain ⟨names, x, rfl, hinit, hx⟩ := Path.exists_concat hne hplace
  rw [hbelow] at hcreate ⊢
  obtain ⟨t₁, hmade, hopen⟩ := (createFile_concat hx).1 hcreate
  obtain ⟨hclear, hopened, hreach⟩ :=
    createDirectories_opened h hinit (fun p hp => hunlinked p (hp.append [x])) hmade
  have hadds := (createWithin_ok hmade).1
  obtain ⟨q, hfound, hwrites, hempty, hposition⟩ := create_ok hopen
  -- The file is where the path leads once the directories are there.
  obtain ⟨htaken, -⟩ := taken_of_locate hfound
  have hlocate := hopened.locate hx hreach htaken (hunlinked _ (.refl (by simp))) true
  rw [hlocate] at hfound
  split at hfound
  · cases hfound
  rename_i hlen
  rw [if_neg hlen] at hlocate
  obtain ⟨rfl, -⟩ := Prod.mk.inj (Except.ok.inj hfound)
  have hbefore : t.entry? (o ++ (names ++ [x])) = some (.file file.node) ∨
      t.entry? (o ++ (names ++ [x])) = none ∧ ∀ q, t.entry? q ≠ some (.file file.node) := by
    rw [← hopened.entry_concat x]
    exact hwrites.before.imp_right fun ⟨hnone, hnew⟩ =>
      ⟨hnone, fun q hq => hnew q (hadds.entry_some hq)⟩
  refine ⟨⟨hbelow ▸ htaken, ?_, ?_, ?_⟩,
    ⟨hwrites.working.trans hadds.working, hbefore, hwrites.entry, ?_, ?_, ?_⟩,
    hwrites.locate hlocate, hempty, hposition⟩
  · intro s hs
    obtain hs | hs := List.mem_append.1 hs
    · exact hclear.short s hs
    · rw [List.mem_singleton.1 hs]
      omega
  · intro p hp hproper
    exact hclear.entry p ((along_concat hp).resolve_left hproper)
  · exact hbefore.elim (fun h => .inr ⟨_, h⟩) fun h => .inl h.1
  · intro p hp hproper
    rw [hwrites.other _ fun heq => hproper (List.append_cancel_left heq)]
    exact hopened.inside p ((along_concat hp).resolve_left hproper)
  · intro q hq
    rw [hwrites.other q (hq _ (.refl (by simp)))]
    exact hopened.outside q fun p hp => hq p (hp.append [x])
  · intro n hn
    rw [hwrites.content n hn, hadds.content]

/-- A file can be created where it is writable. -/
theorem createFile_writable (h : Opens t out o) (hne : place ≠ [])
    (hplace : ∀ s ∈ place, Path.IsName s) (hwritable : Writable t out o place) :
    ∃ file t', Succeeds (createFile (out.below place)) t file t' := by
  have hunlinked := hwritable.unlinked
  have hbelow : out.below place = out.directory place := out.below_eq_directory hne hplace
  have htaken := hwritable.taken
  obtain ⟨names, x, rfl, hinit, hx⟩ := Path.exists_concat hne hplace
  rw [hbelow] at htaken ⊢
  have hclear : Clear t o names := ⟨fun s hs => hwritable.short s (List.mem_append_left _ hs),
    fun p hp => hwritable.above p (hp.append [x]) (ne_of_along hp)⟩
  obtain ⟨t₁, hmade⟩ := createDirectories_clear h hinit (htaken.directory hx) hclear
  obtain ⟨-, hopened, hreach⟩ := createDirectories_opened h hinit hclear.unlinked hmade
  have hlocate := hopened.locate hx hreach htaken (hunlinked _ (.refl (by simp))) true
  rw [if_neg (Nat.not_lt.2 (hwritable.short x (by simp)))] at hlocate
  obtain ⟨file, t', hopen⟩ := exists_create hlocate hwritable.entry
  exact ⟨file, t', (createFile_concat hx).2 ⟨t₁, hmade, hopen⟩⟩

/-- To make the directory first makes no difference to a file that is created below it. -/
theorem createFile_made (hne : place ≠ []) (hplace : ∀ s ∈ place, Path.IsName s) {file : Handle} :
    Succeeds (createFile (out.below place)) t file t' ↔
      ∃ t₀, Succeeds (createDirectories (out.directory [])) t () t₀ ∧
        Succeeds (createFile (out.below place)) t₀ file t' := by
  rw [out.below_eq_directory hne hplace]
  obtain ⟨names, x, rfl, hinit, hx⟩ := Path.exists_concat hne hplace
  simp only [createFile_concat hx, createDirectories_made hinit (t := t)]
  constructor
  · rintro ⟨t₁, ⟨t₀, h₀, h₁⟩, hcreate⟩
    exact ⟨t₀, h₀, t₁, h₁, hcreate⟩
  · rintro ⟨t₀, h₀, t₁, h₁, hcreate⟩
    exact ⟨t₁, ⟨t₀, h₀, h₁⟩, hcreate⟩

end Create

/-! ## Other places -/

namespace FileTree

variable {place other : List Name} {node : Nat}

/-- What may become of an entry. -/
theorem Writable.change (h : Writable t out o place) (hwrote : Wrote t o place node t')
    (q : Place) : t'.entry? q = t.entry? q ∨
      (t.entry? q = none ∨ t.entry? q = some .directory) ∧ t'.entry? q = some .directory ∨
      t.entry? q = none ∧ t'.entry? q = some (.file node) := by
  by_cases hq : ∃ p, Along p place ∧ q = o ++ p
  · obtain ⟨p, hp, rfl⟩ := hq
    by_cases hproper : p = place
    · subst hproper
      obtain hbefore | ⟨hnone, -⟩ := hwrote.before
      · exact .inl (hwrote.entry.trans hbefore.symm)
      · exact .inr (.inr ⟨hnone, hwrote.entry⟩)
    · exact .inr (.inl ⟨h.above p hp hproper, hwrote.above p hp hproper⟩)
  · exact .inl (hwrote.other q fun p hp heq => hq ⟨p, hp, heq⟩)

/-- What is there stays what it is. -/
theorem Writable.entry_some (h : Writable t out o place) (hwrote : Wrote t o place node t')
    {q : Place} {entry : FileEntry} (hentry : t.entry? q = some entry) :
    t'.entry? q = some entry := by
  obtain hsame | ⟨hnone | hdir, hnow⟩ | ⟨hnone, -⟩ := h.change hwrote q
  · rw [hsame, hentry]
  · rw [hentry] at hnone
    cases hnone
  · rw [hnow, ← hdir, hentry]
  · rw [hentry] at hnone
    cases hnone

theorem Wrote.toExtends (h : Writable t out o place) (hwrote : Wrote t o place node t') :
    Extends t t' :=
  ⟨hwrote.working, fun _ => h.entry_some hwrote, fun _ _ => h.entry_some hwrote⟩

theorem Opens.wrote (h : Opens t out o) (hwritable : Writable t out o place)
    (hwrote : Wrote t o place node t') : Opens t' out o :=
  ⟨reach_extends (hwrote.toExtends hwritable) h.reached⟩

/-- Links are where they were. -/
theorem Unlinked.wrote (h : Unlinked t o other) (hwritable : Writable t out o place)
    (hwrote : Wrote t o place node t') : Unlinked t' o other := by
  intro p hp target hlink
  obtain hsame | ⟨-, hnow⟩ | ⟨-, hnow⟩ := hwritable.change hwrote (o ++ p)
  · exact h p hp target (hsame ▸ hlink)
  · rw [hlink] at hnow
    cases hnow
  · rw [hlink] at hnow
    cases hnow

/-- A file of another node holds what it did. -/
theorem Wrote.content_of_ne (h : Wrote t o place node t') {q : Place} {n : Nat}
    (hq : t.entry? q = some (.file n)) (hne : t.entry? (o ++ place) ≠ some (.file n)) :
    t'.content n = t.content n := by
  refine h.content n ?_
  rintro rfl
  obtain hbefore | ⟨-, hnew⟩ := h.before
  · exact hne hbefore
  · exact hnew q hq

/-- A file elsewhere holds what it did if the one that is written to has no other name. -/
theorem Wrote.content_of_sole (h : Wrote t o place node t') (hsole : Sole t (o ++ place))
    {q : Place} {n : Nat} (hq : t.entry? q = some (.file n)) (hne : q ≠ o ++ place) :
    t'.content n = t.content n :=
  h.content_of_ne hq fun hplace => hne (hsole n hplace q hq)

/-- Two places of which neither is on the way to the other. -/
def Apart (place other : List Name) : Prop := ¬place <+: other ∧ ¬other <+: place

theorem Wrote.entry_apart (h : Wrote t o place node t') (happart : Apart place other) :
    t'.entry? (o ++ other) = t.entry? (o ++ other) :=
  h.other _ fun _ hp heq => happart.2 (List.append_cancel_left heq ▸ hp.2)

/-- Places on different ways do not matter to each other. -/
theorem Writable.wrote_iff (h : Writable t out o place) (hwrote : Wrote t o place node t')
    (happart : Apart place other) : Writable t' out o other ↔ Writable t out o other := by
  have hentry := hwrote.entry_apart happart
  have habove : ∀ p, Along p other →
      ((t'.entry? (o ++ p) = none ∨ t'.entry? (o ++ p) = some .directory) ↔
        (t.entry? (o ++ p) = none ∨ t.entry? (o ++ p) = some .directory)) := by
    intro p hp
    by_cases hshared : p <+: place
    · have hproper : p ≠ place := fun h => happart.1 (h ▸ hp.2)
      have hplace : Along p place := ⟨hp.1, hshared⟩
      exact iff_of_true (.inr (hwrote.above p hplace hproper)) (h.above p hplace hproper)
    · rw [hwrote.other (o ++ p) fun q hq heq => hshared (List.append_cancel_left heq ▸ hq.2)]
  constructor
  · rintro ⟨htaken, hshort, habove', hentry'⟩
    exact ⟨htaken, hshort, fun p hp hproper => (habove p hp).1 (habove' p hp hproper),
      hentry ▸ hentry'⟩
  · rintro ⟨htaken, hshort, habove', hentry'⟩
    exact ⟨htaken, hshort, fun p hp hproper => (habove p hp).2 (habove' p hp hproper),
      hentry.symm ▸ hentry'⟩

/-- A file that has no other name gets none. -/
theorem Sole.wrote (h : Sole t (o ++ other)) (hsole : Sole t (o ++ place))
    (hwritable : Writable t out o place) (hwrote : Wrote t o place node t')
    (happart : Apart place other) : Sole t' (o ++ other) := by
  intro n hn q hq
  rw [hwrote.entry_apart happart] at hn
  have hne : o ++ other ≠ o ++ place :=
    fun heq => happart.1 (List.append_cancel_left heq ▸ List.prefix_rfl)
  have hnode : n ≠ node := by
    rintro rfl
    obtain hbefore | ⟨-, hnew⟩ := hwrote.before
    · exact hne (hsole n hbefore _ hn)
    · exact hnew _ hn
  obtain hsame | ⟨-, hnow⟩ | ⟨-, hnow⟩ := hwritable.change hwrote q
  · exact h n hn q (hsame ▸ hq)
  · rw [hq] at hnow
    cases hnow
  · rw [hq] at hnow
    cases hnow
    exact absurd rfl hnode

/-- There are no links on the way to a place, and the file there has no other name. -/
structure Plain (t : FileTree) (o place : Place) : Prop where
  unlinked : Unlinked t o place
  sole : Sole t (o ++ place)

theorem Plain.adds (h : Plain t o place) (hadds : AddsDirectories t t') : Plain t' o place where
  unlinked p hp target hlink := h.unlinked p hp target (hadds.entry_of_ne hlink (by simp))
  sole n hn q hq :=
    h.sole n (hadds.entry_of_ne hn (by simp)) q (hadds.entry_of_ne hq (by simp))

theorem Plain.wrote (h : Plain t o other) (hplain : Plain t o place)
    (hwritable : Writable t out o place) (hwrote : Wrote t o place node t')
    (happart : Apart place other) : Plain t' o other :=
  ⟨h.unlinked.wrote hwritable hwrote, h.sole.wrote hplain.sole hwritable hwrote happart⟩

end FileTree

end Stencil
