import Stencil.Proofs.Files.Follow

/-!
# Files and their nodes

A file is opened at a path, which makes it if it is missing, and then written to as long as it is
open. All that this changes is the file at the path's place, and what its node holds; files of other
nodes hold what they did.

A file that has just been created is written to at its end, wherever that gets to: the position is
the number of bytes that it holds.

Results:
* `entry?_ne_fresh`: a new node is that of no file.
* `overwrite_end`: to write at the end is to add.
* `nodeAt_iff`, `Writes`: what it is to open a file and to write to it.
* `create_ok`, `openEnd_iff`: what an open file is.
* `write_end`: what is written behind all that a file holds.
-/

namespace Stencil.FileTree

variable {t t' t'' : FileTree}

/-! ## Contents -/

@[simp] theorem entry?_store (node : Nat) (bytes : ByteArray) (place : Place) :
    entry? (t.store node bytes) place = t.entry? place := rfl

theorem content_store (node : Nat) (bytes : ByteArray) (other : Nat) :
    content (t.store node bytes) other = if other = node then bytes else t.content other := by
  have hlookup : ∀ l : List (Nat × ByteArray), other ≠ node →
      (l.filter fun e => e.1 ≠ node).lookup other = l.lookup other := by
    intro l hne
    induction l with
    | nil => rfl
    | cons e l ih =>
      obtain ⟨n, b⟩ := e
      by_cases hn : n = node
      · rw [List.filter_cons_of_neg (by simpa using hn), ih, List.lookup_cons,
          beq_eq_false_iff_ne.2 (hn ▸ hne)]
      · rw [List.filter_cons_of_pos (by simpa using hn), List.lookup_cons, List.lookup_cons, ih]
  unfold content store
  by_cases hother : other = node
  · simp [hother]
  · rw [if_neg hother, List.lookup_cons, beq_eq_false_iff_ne.2 hother, hlookup _ hother]

@[simp] theorem content_store_self (node : Nat) (bytes : ByteArray) :
    content (t.store node bytes) node = bytes := by
  rw [content_store, if_pos rfl]

theorem fresh_notMem (t : FileTree) : t.fresh ∉ t.nodes := by
  have hle : ∀ n ∈ t.nodes, n ≤ t.nodes.foldr max 0 := by
    generalize t.nodes = l
    induction l with
    | nil => simp
    | cons m l ih =>
      rw [List.forall_mem_cons, List.foldr_cons]
      exact ⟨Nat.le_max_left _ _, fun n hn => (ih n hn).trans (Nat.le_max_right _ _)⟩
  intro hmem
  exact absurd (hle _ hmem) (Nat.not_le.2 (Nat.lt_succ_self _))

theorem mem_nodes {place : Place} {node : Nat} (h : t.entry? place = some (.file node)) :
    node ∈ t.nodes := by
  by_cases hworking : place <+: t.working
  · rw [entry?_of_working hworking] at h
    cases h
  rw [entry?_eq_lookup hworking] at h
  obtain ⟨before, after, hentries, -⟩ := List.lookup_eq_some_iff.1 h
  refine List.mem_append_left _ (List.mem_filterMap.2 ⟨(place, .file node), ?_, rfl⟩)
  rw [hentries]
  simp

/-- A new node is that of no file. -/
theorem entry?_ne_fresh (t : FileTree) (place : Place) : t.entry? place ≠ some (.file t.fresh) :=
  fun h => t.fresh_notMem (mem_nodes h)

/-- To write at the end is to add. -/
theorem overwrite_end (old bytes : ByteArray) : overwrite old old.size bytes = old ++ bytes := by
  have hbehind : old.extract (old.size + bytes.size) old.size = .empty :=
    ByteArray.extract_eq_empty_iff.2 (by omega)
  have hzeros : (⟨Array.replicate (old.size - old.size) 0⟩ : ByteArray) = .empty := by
    rw [Nat.sub_self]
    rfl
  simp only [overwrite, hbehind, hzeros, ByteArray.append_empty, ByteArray.extract_zero_size]

/-! ## Writing to a place -/

/-- The same files, but for one of this node at a place, and what that holds. -/
structure Writes (t : FileTree) (place : Place) (node : Nat) (t' : FileTree) : Prop where
  working : t'.working = t.working
  before : t.entry? place = some (.file node) ∨
    t.entry? place = none ∧ ∀ p, t.entry? p ≠ some (.file node)
  entry : t'.entry? place = some (.file node)
  other : ∀ p ≠ place, t'.entry? p = t.entry? p
  content : ∀ n ≠ node, t'.content n = t.content n

theorem Writes.store {place : Place} {node : Nat} (h : Writes t place node t')
    (bytes : ByteArray) : Writes t place node (t'.store node bytes) where
  working := h.working
  before := h.before
  entry := h.entry
  other := h.other
  content n hn := by rw [content_store, if_neg hn, h.content n hn]

theorem Writes.toExtends {place : Place} {node : Nat} (h : Writes t place node t') :
    Extends t t' where
  working := h.working
  directory p hp := by
    rw [h.other p, hp]
    rintro rfl
    obtain hbefore | ⟨hbefore, -⟩ := h.before <;> rw [hp] at hbefore <;> cases hbefore
  link p target hp := by
    rw [h.other p, hp]
    rintro rfl
    obtain hbefore | ⟨hbefore, -⟩ := h.before <;> rw [hp] at hbefore <;> cases hbefore

/-- A path to the place leads to the file. -/
theorem Writes.locate {path : Path} {place : Place} {node : Nat} {entry : Option FileEntry}
    (h : Writes t place node t') (hlocate : t.locate true path = .ok (place, entry)) :
    t'.locate true path = .ok (place, some (.file node)) := by
  rw [locate_extends h.toExtends hlocate (by simp [h.entry]), h.entry]

/-! ## Opening -/

theorem nodeAt_iff {path : Path} {node : Nat} : t.nodeAt path = .ok (node, t') ↔
    ∃ place, t.locate true path = .ok (place, some (.file node)) ∧ t' = t ∨
      t.locate true path = .ok (place, none) ∧ node = t.fresh ∧
        t' = (t.set place (.file t.fresh)).store t.fresh .empty := by
  unfold nodeAt
  cases t.locate true path with
  | error e =>
    show Except.error e = _ ↔ _
    simp
  | ok found =>
    obtain ⟨place, entry⟩ := found
    rcases entry with _ | n | _ | target
    · show Except.ok _ = _ ↔ _
      simp [eq_comm]
    · show Except.ok _ = _ ↔ _
      simp [eq_comm]
    · show Except.error _ = _ ↔ _
      simp
    · show Except.error _ = _ ↔ _
      simp

/-- **Opening.** The file that is opened is at the place of the path, and empty if it was
missing. -/
theorem nodeAt_ok {path : Path} {node : Nat} (h : t.nodeAt path = .ok (node, t')) :
    ∃ place, t.locate true path = .ok (place, t.entry? place) ∧ Writes t place node t' ∧
      t'.content node = if t.entry? place = none then .empty else t.content node := by
  obtain ⟨place, ⟨hlocate, rfl⟩ | ⟨hlocate, rfl, rfl⟩⟩ := nodeAt_iff.1 h
  · have hentry := locate_entry hlocate
    refine ⟨place, by rwa [← hentry],
      ⟨rfl, .inl hentry.symm, hentry.symm, fun _ _ => rfl, fun _ _ => rfl⟩, ?_⟩
    simp [← hentry]
  · have hentry := locate_entry hlocate
    have hworking : ¬place <+: t.working := by
      intro hworking
      rw [entry?_of_working hworking] at hentry
      cases hentry
    have hset := entry?_set hworking (.file t.fresh)
    have hwrites : Writes t place t.fresh (t.set place (.file t.fresh)) := by
      refine ⟨rfl, .inr ⟨hentry.symm, t.entry?_ne_fresh⟩, by rw [hset, if_pos rfl], ?_,
        fun _ _ => rfl⟩
      intro p hp
      rw [hset, if_neg hp]
    refine ⟨place, by rwa [← hentry], hwrites.store _, ?_⟩
    rw [content_store_self, if_pos hentry.symm]

/-- A file can be opened where there is one, or nothing. -/
theorem exists_nodeAt {path : Path} {place : Place} {entry : Option FileEntry}
    (h : t.locate true path = .ok (place, entry))
    (hentry : entry = none ∨ ∃ node, entry = some (.file node)) :
    ∃ node t', t.nodeAt path = .ok (node, t') := by
  obtain rfl | ⟨node, rfl⟩ := hentry
  · exact ⟨_, _, nodeAt_iff.2 ⟨place, .inr ⟨h, rfl, rfl⟩⟩⟩
  · exact ⟨node, t, nodeAt_iff.2 ⟨place, .inl ⟨h, rfl⟩⟩⟩

theorem create_iff {path : Path} {file : Handle} : t.create path = .ok (file, t') ↔
    ∃ node t₁, t.nodeAt path = .ok (node, t₁) ∧ file = ⟨node, some 0⟩ ∧
      t' = t₁.store node .empty := by
  unfold create
  cases t.nodeAt path with
  | error e =>
    show Except.error e = _ ↔ _
    simp
  | ok opened =>
    show Except.ok _ = _ ↔ _
    simp [Prod.ext_iff, eq_comm]

theorem openEnd_iff {path : Path} {file : Handle} : t.openEnd path = .ok (file, t') ↔
    ∃ node, t.nodeAt path = .ok (node, t') ∧ file = ⟨node, none⟩ := by
  unfold openEnd
  cases t.nodeAt path with
  | error e =>
    show Except.error e = _ ↔ _
    simp
  | ok opened =>
    show Except.ok _ = _ ↔ _
    simp [Prod.ext_iff, and_comm, eq_comm]

/-- A file that has been created is empty, and written to from its beginning on. -/
theorem create_ok {path : Path} {file : Handle} (h : t.create path = .ok (file, t')) :
    ∃ place, t.locate true path = .ok (place, t.entry? place) ∧ Writes t place file.node t' ∧
      t'.content file.node = .empty ∧ file.position? = some 0 := by
  obtain ⟨node, t₁, hnode, rfl, rfl⟩ := create_iff.1 h
  obtain ⟨place, hlocate, hwrites, -⟩ := nodeAt_ok hnode
  exact ⟨place, hlocate, hwrites.store _, content_store_self _ _, rfl⟩

theorem exists_create {path : Path} {place : Place} {entry : Option FileEntry}
    (h : t.locate true path = .ok (place, entry))
    (hentry : entry = none ∨ ∃ node, entry = some (.file node)) :
    ∃ file t', t.create path = .ok (file, t') := by
  obtain ⟨node, t₁, hnode⟩ := exists_nodeAt h hentry
  exact ⟨_, _, create_iff.2 ⟨node, t₁, hnode, rfl, rfl⟩⟩

/-! ## Writing -/

/-- The file is written to behind all that it holds: it is always written to at its end, or it has
got there. -/
def AtEnd (t : FileTree) (file : Handle) : Prop :=
  ∀ position ∈ file.position?, position = (t.content file.node).size

/-- **Writing.** What is written at the end of a file is added, and its end is where it is written
to next. -/
theorem write_end {file : Handle} (hend : t.AtEnd file) (bytes : ByteArray) :
    (t.write file bytes).1.node = file.node ∧
      ((t.write file bytes).1.position? = none ↔ file.position? = none) ∧
      (t.write file bytes).2.AtEnd (t.write file bytes).1 ∧
      (t.write file bytes).2.content file.node = t.content file.node ++ bytes := by
  unfold write
  by_cases hempty : bytes.isEmpty = true
  · have hbytes : bytes = .empty :=
      ByteArray.size_eq_zero_iff.1 (by simpa [ByteArray.isEmpty] using hempty)
    simp only [hempty, if_true]
    exact ⟨trivial, trivial, hend, by rw [hbytes, ByteArray.append_empty]⟩
  simp only [hempty, Bool.false_eq_true, if_false]
  obtain ⟨node, position⟩ := file
  cases position with
  | none =>
    refine ⟨rfl, .rfl, ?_, content_store_self _ _⟩
    rintro _ ⟨⟩
  | some position =>
    have hposition : position = (t.content node).size := hend position rfl
    have hadded : overwrite (t.content node) position bytes = t.content node ++ bytes := by
      rw [hposition, overwrite_end]
    refine ⟨rfl, by simp, ?_, ?_⟩
    · rintro _ ⟨⟩
      rw [content_store_self, hadded, ByteArray.size_append, hposition]
    · rw [content_store_self, hadded]

/-- Nothing but what a file holds is changed. -/
@[simp] theorem entry?_write (file : Handle) (bytes : ByteArray) (place : Place) :
    entry? (t.write file bytes).2 place = t.entry? place := by
  unfold write
  dsimp only
  split
  · rfl
  · split <;> rfl

theorem extends_write (file : Handle) (bytes : ByteArray) : Extends t (t.write file bytes).2 where
  working := by
    unfold write
    dsimp only
    split
    · rfl
    · split <;> rfl
  directory p hp := by rw [entry?_write, hp]
  link p target hp := by rw [entry?_write, hp]

/-- Nothing but what the node of the file holds is changed. -/
theorem Writes.write {place : Place} {file : Handle} (h : Writes t place file.node t')
    (bytes : ByteArray) : Writes t place file.node (t'.write file bytes).2 := by
  unfold FileTree.write
  dsimp only
  split
  · exact h
  · split
    · exact h.store _
    · exact h.store _

end Stencil.FileTree
