import Mathlib.Data.List.DropRight
import Mathlib.Data.List.Flatten
import Mathlib.Data.List.Infix
import Stencil.Files.Path
import Stencil.Proofs.Text.Lossy

/-!
# Paths and their names

The path of names below a directory ends in these names, and its components are those of the
directory and these. The path of the directory that holds a name is what comes before it, without
the names at the end that stand for nothing.

Results:
* `Name.text?_eq_some_iff`: a name is a text if it is the UTF-8 form of one.
* `ofText_intercalate`: a path that is shown between slashes, read back.
* `components_below`, `components_trim`: the components of a path below another, and of one without
  what stands for nothing.
* `parent?_concat`, `fileName?_concat`, `rejoin_concat`: what is taken off a path.
* `depth_parent?`: the way up ends.
-/

namespace Stencil

/-! ## Names -/

namespace Name

@[simp] theorem shown_ofText (s : String) : shown (ofText s) = s := by
  rw [shown, ofText, Text.decodeLossy_utf8, String.ofList_toList]

/-- **Names.** A name is a text if it is the UTF-8 form of one. -/
theorem text?_eq_some_iff {name : Name} {s : String} : text? name = some s ↔ ofText s = name := by
  unfold text?
  constructor
  · intro h
    split at h
    · rename_i hname
      cases h
      exact hname
    · cases h
  · rintro rfl
    rw [shown_ofText, if_pos rfl]

/-- The name is that of a text. -/
def IsText (name : Name) : Prop := ∃ s, ofText s = name

instance (name : Name) : Decidable (IsText name) :=
  decidable_of_iff ((text? name).isSome = true)
    (by simp [Option.isSome_iff_exists, text?_eq_some_iff, IsText])

theorem IsText.ofText_shown {name : Name} (h : IsText name) : ofText (shown name) = name := by
  obtain ⟨s, rfl⟩ := h
  rw [shown_ofText]

theorem ofText_append (a b : String) : ofText (a ++ b) = ofText a ++ ofText b := by
  rw [ofText, String.toList_append, Text.utf8_append]
  rfl

end Name

namespace Path

/-- A segment that is the name of something. -/
structure IsName (s : Name) : Prop where
  not_trivial : s.isTrivial = false
  not_up : s ≠ Name.up
  no_slash : Name.slash ∉ s

instance (s : Name) : Decidable (IsName s) :=
  decidable_of_iff (s.isTrivial = false ∧ s ≠ Name.up ∧ Name.slash ∉ s)
    ⟨fun ⟨h, h', h''⟩ => ⟨h, h', h''⟩, fun h => ⟨h.not_trivial, h.not_up, h.no_slash⟩⟩

theorem IsName.ne_nil {s : Name} (h : IsName s) : s ≠ [] := by
  rintro rfl
  exact absurd h.not_trivial (by decide)

theorem IsName.ne_dot {s : Name} (h : IsName s) : s ≠ Name.dot := by
  rintro rfl
  exact absurd h.not_trivial (by decide)

theorem names_concat_iff {names : List Name} {x : Name} :
    (∀ s ∈ names ++ [x], IsName s) ↔ (∀ s ∈ names, IsName s) ∧ IsName x := by
  rw [List.forall_mem_append, List.forall_mem_singleton]

/-- The last of some names, and those before it. -/
theorem exists_concat {place : List Name} (hne : place ≠ []) (h : ∀ s ∈ place, IsName s) :
    ∃ names x, place = names ++ [x] ∧ (∀ s ∈ names, IsName s) ∧ IsName x := by
  obtain ⟨names, x, rfl⟩ := (List.eq_nil_or_concat' place).resolve_left hne
  exact ⟨names, x, rfl, names_concat_iff.1 h⟩

/-! ## Segments -/

theorem segmentsOf_ne_nil (bs : List UInt8) : segmentsOf bs ≠ [] := by
  cases bs with
  | nil => simp [segmentsOf]
  | cons b bs =>
    rw [segmentsOf]
    split
    · simp
    · split <;> simp

theorem segmentsOf_append_slash (bs cs : List UInt8) :
    segmentsOf (bs ++ Name.slash :: cs) = segmentsOf bs ++ segmentsOf cs := by
  induction bs with
  | nil => simp [segmentsOf]
  | cons b bs ih =>
    rw [List.cons_append, segmentsOf, segmentsOf, ih]
    split
    · rfl
    · cases hbs : segmentsOf bs with
      | nil => exact absurd hbs (segmentsOf_ne_nil bs)
      | cons first others => rfl

theorem segmentsOf_of_notMem {bs : List UInt8} (h : Name.slash ∉ bs) : segmentsOf bs = [bs] := by
  induction bs with
  | nil => rfl
  | cons b bs ih =>
    rw [List.mem_cons, not_or] at h
    rw [segmentsOf, if_neg (Ne.symm h.1), ih h.2]

theorem segmentsOf_intercalate {names : List Name} (hne : names ≠ [])
    (hnames : ∀ s ∈ names, IsName s) (htext : ∀ s ∈ names, s.IsText) :
    segmentsOf (Name.ofText ("/".intercalate (names.map Name.shown))) = names := by
  induction names with
  | nil => exact absurd rfl hne
  | cons x xs ih =>
    have hx := (htext x (.head _)).ofText_shown
    have hslash := segmentsOf_of_notMem (hnames x (.head _)).no_slash
    cases xs with
    | nil => rw [List.map_singleton, String.intercalate_singleton, hx, hslash]
    | cons y ys =>
      have hrest := ih (by simp) (fun s hs => hnames s (.tail _ hs))
        fun s hs => htext s (.tail _ hs)
      rw [List.map_cons] at hrest ⊢
      have hbyte : Name.ofText "/" = [Name.slash] := by decide
      rw [List.map_cons, String.intercalate_cons_cons, Name.ofText_append, Name.ofText_append, hx,
        hbyte, List.append_assoc, List.singleton_append, segmentsOf_append_slash, hslash, hrest,
        List.singleton_append]

/-- **Shown paths.** Names that are texts are read back from how their path is shown. -/
theorem ofText_intercalate {names : List Name} (hne : names ≠ []) (hnames : ∀ s ∈ names, IsName s)
    (htext : ∀ s ∈ names, s.IsText) :
    ofText ("/".intercalate (names.map Name.shown)) = relative names := by
  have hsegments := segmentsOf_intercalate hne hnames htext
  have hhead : (Name.ofText ("/".intercalate (names.map Name.shown))).head? ≠ some Name.slash := by
    intro hhead
    obtain ⟨bs, hbs⟩ := List.head?_eq_some_iff.1 hhead
    obtain ⟨x, xs, rfl⟩ := List.exists_cons_of_ne_nil hne
    rw [hbs, segmentsOf, if_pos rfl] at hsegments
    exact (hnames x (.head _)).ne_nil (List.cons.inj hsegments).1.symm
  rw [ofText, ofBytes, if_neg hhead, hsegments]
  rfl

/-- The names on a way tell it. -/
theorem shown_inj {xs ys : List Name} (hxs : xs ≠ []) (hys : ys ≠ [])
    (hx : ∀ s ∈ xs, IsName s ∧ s.IsText) (hy : ∀ s ∈ ys, IsName s ∧ s.IsText)
    (h : "/".intercalate (xs.map Name.shown) = "/".intercalate (ys.map Name.shown)) : xs = ys := by
  rw [← segmentsOf_intercalate hxs (fun s hs => (hx s hs).1) fun s hs => (hx s hs).2,
    ← segmentsOf_intercalate hys (fun s hs => (hy s hs).1) fun s hs => (hy s hs).2, h]

/-! ## Below a path -/

/-- The path of names below another path. -/
def below (base : Path) (names : List Name) : Path := base.join (relative names)

/-- A path has nothing behind its stem but a slash at most. -/
theorem segments_stem (base : Path) :
    base.segments = base.stem ∨ base.segments = base.stem ++ [[]] := by
  unfold stem
  split
  · rename_i hlast
    exact .inr (List.dropLast_append_getLast? [] hlast).symm
  · exact .inl rfl

theorem stem_concat {absolute : Bool} {xs : List Name} {x : Name} (hx : x ≠ []) :
    stem ⟨absolute, xs ++ [x]⟩ = xs ++ [x] := by
  rw [stem, if_neg]
  simpa using hx

theorem below_eq (base : Path) (names : List Name) :
    base.below names = ⟨base.absolute, base.stem ++ names⟩ := rfl

theorem below_below (base : Path) {s : Name} (hs : IsName s) (rest : List Name) :
    (base.below [s]).below rest = base.below (s :: rest) := by
  rw [below_eq, below_eq base [s], stem_concat hs.ne_nil, List.append_assoc]
  rfl

theorem front_append {absolute : Bool} {xs ys : List Name} (h : ∀ s ∈ ys, s ≠ Name.dot) :
    front ⟨absolute, xs ++ ys⟩ = front ⟨absolute, xs⟩ := by
  cases absolute with
  | true => rfl
  | false =>
    cases xs with
    | cons x xs => rfl
    | nil =>
      refine List.filter_eq_nil_iff.2 fun s hs => ?_
      simpa using h s (List.mem_of_mem_take hs)

theorem components_append {absolute : Bool} {xs names : List Name} (h : ∀ s ∈ names, IsName s) :
    components ⟨absolute, xs ++ names⟩ = components ⟨absolute, xs⟩ ++ names := by
  have hnames : names.filter (fun s => !s.isTrivial) = names :=
    List.filter_eq_self.2 fun s hs => by rw [(h s hs).not_trivial]; rfl
  unfold components
  rw [front_append fun s hs => (h s hs).ne_dot, List.filter_append, hnames, List.append_assoc]

theorem components_stem (base : Path) :
    components ⟨base.absolute, base.stem⟩ = base.components := by
  obtain hstem | hstem := base.segments_stem
  · show _ = components ⟨base.absolute, base.segments⟩
    rw [hstem]
  · have hslash : components ⟨base.absolute, base.stem ++ [[]]⟩ =
        components ⟨base.absolute, base.stem⟩ := by
      rw [components, front_append (by simp [Name.dot]), List.filter_append]
      exact congrArg _ (List.append_nil _)
    rw [← hslash, ← hstem]

/-- **Components.** A path below another has the components of that and the names from there. -/
theorem components_below (base : Path) {names : List Name} (h : ∀ s ∈ names, IsName s) :
    (base.below names).components = base.components ++ names := by
  rw [below_eq, components_append h, components_stem]

/-- The components of a path behind those of another one. -/
theorem behind?_eq_some_iff {root path : Path} {rest : List Name} :
    root.behind? path = some rest ↔ path.components = root.components ++ rest := by
  unfold behind?
  constructor
  · intro h
    split at h
    · rename_i hprefix
      obtain ⟨rest', hrest⟩ := List.isPrefixOf_iff_prefix.1 hprefix
      rw [← hrest, List.drop_left, Option.some.injEq] at h
      rw [← hrest, h]
    · cases h
  · intro h
    rw [h, if_pos (List.isPrefixOf_iff_prefix.2 (List.prefix_append _ _)), List.drop_left]

/-! ## Above a path -/

theorem trim_eq (absolute : Bool) (xs : List Name) : trim absolute xs =
    if xs.rdropWhile Name.isTrivial = []
    then if absolute then [] else (xs.take 1).filter (· = Name.dot)
    else xs.rdropWhile Name.isTrivial := by
  unfold trim
  split
  · rename_i hnil
    exact (if_pos hnil).symm
  · rename_i hne
    exact (if_neg hne).symm

theorem prefix_trim (absolute : Bool) (xs : List Name) : trim absolute xs <+: xs := by
  rw [trim_eq]
  split
  · split
    · exact List.nil_prefix
    · cases xs with
      | nil => exact List.prefix_rfl
      | cons x xs =>
        by_cases hx : x = Name.dot <;> simp [hx]
  · exact List.rdropWhile_prefix _ _

/-- What is trimmed off stands for nothing. -/
theorem exists_trim (absolute : Bool) (xs : List Name) :
    ∃ rest, xs = trim absolute xs ++ rest ∧ ∀ s ∈ rest, s.isTrivial = true := by
  have hall : ∀ s ∈ xs.rtakeWhile Name.isTrivial, s.isTrivial = true :=
    fun s hs => List.mem_rtakeWhile_imp hs
  have hsplit := List.rdropWhile_append_rtakeWhile (p := Name.isTrivial) (l := xs)
  by_cases hnil : xs.rdropWhile Name.isTrivial = []
  · rw [hnil, List.nil_append] at hsplit
    obtain ⟨rest, hrest⟩ := prefix_trim absolute xs
    refine ⟨rest, hrest.symm, fun s hs => hall s ?_⟩
    rw [hsplit, ← hrest]
    exact List.mem_append_right _ hs
  · refine ⟨_, ?_, hall⟩
    rw [trim_eq, if_neg hnil, hsplit]

theorem trim_concat (absolute : Bool) (xs : List Name) {x : Name} (hx : x.isTrivial = false) :
    trim absolute (xs ++ [x]) = xs ++ [x] := by
  have hkept : (xs ++ [x]).rdropWhile Name.isTrivial = xs ++ [x] :=
    List.rdropWhile_concat_neg _ _ _ (by rw [hx]; decide)
  rw [trim_eq, hkept, if_neg (by simp)]

/-- What is left has the same components. -/
theorem components_trim (absolute : Bool) (xs : List Name) :
    components ⟨absolute, trim absolute xs⟩ = components ⟨absolute, xs⟩ := by
  obtain ⟨rest, hrest, htrivial⟩ := exists_trim absolute xs
  have hfilter : xs.filter (fun s => !s.isTrivial) =
      (trim absolute xs).filter fun s => !s.isTrivial := by
    have hnone : rest.filter (fun s => !s.isTrivial) = [] :=
      List.filter_eq_nil_iff.2 fun s hs => by simp [htrivial s hs]
    conv_lhs => rw [hrest]
    rw [List.filter_append, hnone, List.append_nil]
  have hfront : front ⟨absolute, xs⟩ = front ⟨absolute, trim absolute xs⟩ := by
    cases absolute with
    | true => rfl
    | false =>
      cases htrim : trim false xs with
      | cons y ys =>
        rw [htrim] at hrest
        rw [hrest]
        rfl
      | nil =>
        -- Nothing is left, so that there is no dot at the front.
        rw [trim_eq] at htrim
        split at htrim
        · exact htrim
        · exact absurd htrim ‹_›
  unfold components
  rw [hfront, hfilter]

/-- What is left does not end in a slash. -/
theorem getLast_trim (absolute : Bool) (xs : List Name) :
    (trim absolute xs).getLast? ≠ some [] := by
  intro hlast
  have hmem := List.mem_of_getLast? hlast
  rw [trim_eq] at hlast hmem
  split at hlast
  · rename_i hnil
    rw [if_pos hnil] at hmem
    split at hlast
    · cases hlast
    · rw [if_neg ‹_›] at hmem
      exact absurd (List.mem_filter.1 hmem).2 (by decide)
  · rename_i hne
    have hkept := List.rdropWhile_last_not Name.isTrivial xs hne
    rw [List.getLast?_eq_some_getLast hne, Option.some.injEq] at hlast
    rw [hlast] at hkept
    exact hkept (by decide)

section Concat

variable {absolute : Bool} {xs : List Name} {x : Name}

/-- The directory that holds a name. -/
theorem parent?_concat (hx : x.isTrivial = false) :
    parent? ⟨absolute, xs ++ [x]⟩ = some ⟨absolute, trim absolute xs⟩ := by
  simp only [parent?, trim_concat absolute xs hx, List.dropLast_concat]
  rw [if_neg (by simp)]

theorem fileName?_of_components {path : Path} {names : List Name} (hx : IsName x)
    (h : path.components = names ++ [x]) : path.fileName? = some x := by
  have hslash : x ≠ [Name.slash] := by
    rintro rfl
    exact hx.no_slash (.head _)
  unfold fileName?
  rw [h, List.getLast?_concat]
  simp [hx.ne_dot, hx.not_up, hslash]

theorem fileName?_concat (hx : IsName x) : fileName? ⟨absolute, xs ++ [x]⟩ = some x :=
  fileName?_of_components hx (components_append (by simpa using hx))

theorem isEmpty_concat (hx : IsName x) : isEmpty ⟨absolute, xs ++ [x]⟩ = false := by
  rw [isEmpty, components_append (by simpa using hx)]
  simp

/-- To take a path apart and to put it together again leaves out what stands for nothing. -/
theorem rejoin_concat (hx : IsName x) :
    rejoin ⟨absolute, xs ++ [x]⟩ = ⟨absolute, trim absolute xs ++ [x]⟩ := by
  have hstem : stem ⟨absolute, trim absolute xs⟩ = trim absolute xs := by
    rw [stem, if_neg (getLast_trim absolute xs)]
  rw [rejoin, parent?_concat hx.not_trivial, fileName?_concat hx]
  show (⟨absolute, stem ⟨absolute, trim absolute xs⟩ ++ [x]⟩ : Path) = _
  rw [hstem]

end Concat

/-- Nothing is left of an empty path. -/
theorem trim_of_isEmpty {absolute : Bool} {xs : List Name}
    (h : isEmpty ⟨absolute, trim absolute xs⟩ = true) :
    absolute = false ∧ trim absolute xs = [] := by
  rw [isEmpty, components_trim, List.isEmpty_iff, components, List.append_eq_nil_iff] at h
  obtain ⟨hfront, hfilter⟩ := h
  cases absolute with
  | true => cases hfront
  | false =>
    have htrivial : xs.rdropWhile Name.isTrivial = [] :=
      List.rdropWhile_eq_nil_iff.2 fun s hs => by simpa using List.filter_eq_nil_iff.1 hfilter s hs
    rw [trim_eq, if_pos htrivial]
    exact ⟨rfl, hfront⟩

/-- How many steps a path is long. -/
def depth (path : Path) : Nat := (trim path.absolute path.segments).length

theorem depth_le (path : Path) : path.depth ≤ path.segments.length :=
  (prefix_trim _ _).length_le

/-- The directory that holds a path is nearer. -/
theorem depth_parent? {path parent : Path} (h : path.parent? = some parent) :
    parent.depth < path.depth := by
  unfold parent? at h
  dsimp only at h
  split at h
  · cases h
  rename_i hne
  obtain rfl := Option.some.inj h
  have hpos : 0 < path.depth := List.length_pos_of_ne_nil hne
  have hkept := (prefix_trim path.absolute (trim path.absolute path.segments).dropLast).length_le
  have hle : depth ⟨path.absolute, trim path.absolute (trim path.absolute path.segments).dropLast⟩ ≤
      (trim path.absolute (trim path.absolute path.segments).dropLast).length := depth_le _
  rw [List.length_dropLast] at hkept
  exact hle.trans_lt (hkept.trans_lt (Nat.sub_lt hpos Nat.one_pos))

/-! ## Sizes -/

theorem size_le {absolute : Bool} {xs ys : List Name} (h : xs.Sublist ys) :
    size ⟨absolute, xs⟩ ≤ size ⟨absolute, ys⟩ := by
  have hle : (xs.flatMap (Name.slash :: ·)).length ≤ (ys.flatMap (Name.slash :: ·)).length :=
    (h.flatMap _).length_le
  unfold size
  dsimp only
  omega

/-- A path below a directory is not shorter than that. -/
theorem size_le_below (base : Path) {names : List Name} (hne : names ≠ []) :
    base.size ≤ (base.below names).size := by
  have hnames : 1 ≤ (names.flatMap (Name.slash :: ·)).length := by
    obtain ⟨x, xs, rfl⟩ := List.exists_cons_of_ne_nil hne
    rw [List.flatMap_cons, List.length_append, List.length_cons]
    omega
  rw [below_eq]
  unfold size
  dsimp only
  rw [List.flatMap_append, List.length_append]
  obtain hsegments | hsegments := base.segments_stem
  · rw [hsegments]
    omega
  · rw [hsegments, List.flatMap_append, List.length_append, List.flatMap_singleton,
      List.length_singleton]
    omega

/-- Each name takes its slash and one more byte at least. -/
theorem length_le_size {path : Path} {names : List Name} (hnames : ∀ s ∈ names, s ≠ [])
    (h : names.Sublist path.segments) : 2 * names.length ≤ path.size + 1 := by
  have hsum : 2 * names.length ≤ (names.flatMap (Name.slash :: ·)).length := by
    induction names with
    | nil => simp
    | cons x xs ih =>
      have hx := List.length_pos_of_ne_nil (hnames x (.head _))
      have hxs := ih (fun s hs => hnames s (.tail _ hs)) (List.sublist_of_cons_sublist h)
      rw [List.flatMap_cons, List.length_append, List.length_cons, List.length_cons]
      omega
  have hle : (names.flatMap (Name.slash :: ·)).length ≤
      (path.segments.flatMap (Name.slash :: ·)).length := (h.flatMap _).length_le
  unfold size
  omega

end Path

end Stencil
