import Mathlib
import Stencil.Proofs.Value.Content
import Stencil.Proofs.Value.Dict
import Stencil.Proofs.Value.Equality

/-!
# Values as data has them

The content of a value does not name the kinds of its parts, and an integer fits more than one of
them. `canonical` puts each integer of a value into the kind that is tried first: unsigned unless it
is negative. That is the value found in the content of a value, and neither what the content tells
nor what the value is equal to depends on it.

Results:
* `Number.toInt?_canonical`, `Number.canonical_of_toInt?`: the same integer, of the kind that its
  sign says.
* `Value.ofContent?_content`: what is found in the content of a value.
* `Value.told_content_canonical`: what the content tells does not change.
* `Value.canonical_equal`: the value is equal to what it was, if it holds no float.
* `Value.exists_of_mem_canonical`: the numbers in it come from those that were there.
-/

namespace Stencil

/-! ## Numbers -/

namespace Number

/-- The number as it is read: an integer that is not negative is unsigned. -/
def canonical : Number → Number
  | signed n => if 0 ≤ n.toInt then unsigned (UInt64.ofNat n.toInt.toNat) else signed n
  | x => x

/-- The same integer, of the other kind or not. -/
theorem toInt?_canonical (x : Number) : x.canonical.toInt? = x.toInt? := by
  cases x with
  | unsigned n | float y => rfl
  | signed n =>
    rw [canonical]
    split
    · rename_i hn
      have hlt : n.toInt.toNat < UInt64.size := by
        have := n.toInt_lt
        simp only [UInt64.size]
        omega
      rw [toInt?, toInt?, UInt64.toNat_ofNat_of_lt' hlt, Int.toNat_of_nonneg hn]
    · rfl

/-- An integer that is read is unsigned if it is not negative, and signed if it is. -/
theorem canonical_of_toInt? {x : Number} {n : Int} (h : x.toInt? = some n) :
    (∃ k, x.canonical = unsigned k) ∨ ∃ k, x.canonical = signed k ∧ k.toInt < 0 := by
  cases x with
  | unsigned k => exact .inl ⟨k, rfl⟩
  | signed k =>
    rw [canonical]
    split
    · exact .inl ⟨_, rfl⟩
    · exact .inr ⟨k, rfl, by omega⟩
  | float y => contradiction

theorem canonical_equal {x : Number} {n : Int} (h : x.toInt? = some n) :
    x.canonical.equal x = true := by
  rw [equal_integers ((toInt?_canonical x).trans h) h]
  exact decide_eq_true rfl

/-- Unsigned integers are tried before signed ones, and both before floats. -/
theorem ofContent?_content (x : Number) : ofContent? x.content = some x.canonical := by
  cases x with
  | unsigned n | float y => rfl
  | signed n =>
    rw [canonical]
    split
    · rename_i hn
      simp only [content, ofContent?, unsignedOf?, if_pos hn, Option.orElse_eq_orElse,
        Option.orElse_some]
    · rename_i hn
      simp only [content, ofContent?, unsignedOf?, if_neg hn, signedOf?, Option.orElse_eq_orElse,
        Option.orElse_some, Option.orElse_none]

theorem told_content_canonical (x : Number) : x.canonical.content.told = x.content.told := by
  cases x with
  | unsigned n | float y => rfl
  | signed n =>
    rw [canonical]
    split
    · rename_i hn
      exact (Content.told_of_nonneg hn).symm
    · rfl

end Number

namespace Value

/-! ## Parts of a value -/

mutual

/-- The value and all values in it, at any depth. -/
def parts : Value → List Value
  | array items => array items :: partsAll items
  | dict entries => dict entries :: partsEntries entries
  | v => [v]

def partsAll : List Value → List Value
  | [] => []
  | v :: vs => v.parts ++ partsAll vs

def partsEntries : List (String × Value) → List Value
  | [] => []
  | (_, v) :: rest => v.parts ++ partsEntries rest

end

mutual

/-- How many arrays and dictionaries are inside each other. -/
def depth : Value → Nat
  | array items => depthAll items + 1
  | dict entries => depthEntries entries + 1
  | _ => 0

def depthAll : List Value → Nat
  | [] => 0
  | v :: vs => max v.depth (depthAll vs)

def depthEntries : List (String × Value) → Nat
  | [] => 0
  | (_, v) :: rest => max v.depth (depthEntries rest)

end

/-- The value by itself is one that text tells: it is no float, and a dictionary is in order. -/
def Exact : Value → Prop
  | number x => x.toInt?.isSome = true
  | dict entries => Dict.Sorted entries
  | _ => True

/-! ## The values that are read -/

mutual

/-- The value as it is read: with each of its integers of the kind that its sign says. -/
def canonical : Value → Value
  | number x => number x.canonical
  | array items => array (canonicalAll items)
  | dict entries => dict (canonicalEntries entries)
  | v => v

def canonicalAll : List Value → List Value
  | [] => []
  | v :: vs => v.canonical :: canonicalAll vs

def canonicalEntries : List (String × Value) → List (String × Value)
  | [] => []
  | (key, v) :: rest => (key, v.canonical) :: canonicalEntries rest

end

theorem keys_canonicalEntries : ∀ es : List (String × Value),
    Dict.keys (canonicalEntries es) = Dict.keys es
  | [] => rfl
  | (key, _) :: es => congrArg (key :: ·) (keys_canonicalEntries es)

theorem sorted_canonicalEntries {es : List (String × Value)} (h : Dict.Sorted es) :
    Dict.Sorted (canonicalEntries es) := by
  have hkeys : (Dict.keys es).Pairwise (· < ·) := List.pairwise_map.2 h
  rw [← keys_canonicalEntries] at hkeys
  exact List.pairwise_map.1 hkeys

mutual

/-- **Trial** finds in the content of a value the value itself, with its integers of the kinds that
are tried first. -/
theorem ofContent?_content : (v : Value) → (∀ es, dict es ∈ v.parts → Dict.Sorted es) →
    ofContent? v.content = some v.canonical
  | null, _ | bool _, _ | string _, _ => rfl
  | number x, _ => by
    have hx := Number.ofContent?_content x
    cases x <;> simp only [content, Number.content] at hx ⊢ <;>
      simp only [ofContent?, numberOf?, hx] <;> rfl
  | array items, h => by
    have hitems := ofContents?_content items fun es hes => h es (List.mem_cons_of_mem _ hes)
    simp only [content, ofContent?, hitems]
    rfl
  | dict entries, h => by
    have hentries :=
      ofContentEntries?_content entries fun es hes => h es (List.mem_cons_of_mem _ hes)
    have hsorted := sorted_canonicalEntries (h entries List.mem_cons_self)
    simp only [content, ofContent?, hentries, Option.map_some, Dict.ofList_of_sorted hsorted]
    rfl

theorem ofContents?_content : (vs : List Value) →
    (∀ es, dict es ∈ partsAll vs → Dict.Sorted es) →
      ofContents? (contentAll vs) = some (canonicalAll vs)
  | [], _ => rfl
  | v :: vs, h => by
    have hv := ofContent?_content v fun es hes => h es (List.mem_append_left _ hes)
    have hvs := ofContents?_content vs fun es hes => h es (List.mem_append_right _ hes)
    rw [contentAll, ofContents?, hv, hvs]
    rfl

theorem ofContentEntries?_content : (es : List (String × Value)) →
    (∀ d, dict d ∈ partsEntries es → Dict.Sorted d) →
      ofContentEntries? (contentEntries es) = some (canonicalEntries es)
  | [], _ => rfl
  | (key, v) :: es, h => by
    have hv := ofContent?_content v fun d hd => h d (List.mem_append_left _ hd)
    have hes := ofContentEntries?_content es fun d hd => h d (List.mem_append_right _ hd)
    rw [contentEntries, ofContentEntries?, hv, hes]
    rfl

end

mutual

theorem told_content_canonical : (v : Value) → v.canonical.content.told = v.content.told
  | null | bool _ | string _ => rfl
  | number x => x.told_content_canonical
  | array items => congrArg Content.sequence (toldAll_canonical items)
  | dict entries => congrArg Content.map (toldEntries_canonical entries)

theorem toldAll_canonical : (vs : List Value) →
    Content.toldAll (contentAll (canonicalAll vs)) = Content.toldAll (contentAll vs)
  | [] => rfl
  | v :: vs => congrArg₂ List.cons (told_content_canonical v) (toldAll_canonical vs)

theorem toldEntries_canonical : (es : List (String × Value)) →
    Content.toldEntries (contentEntries (canonicalEntries es)) =
      Content.toldEntries (contentEntries es)
  | [] => rfl
  | (key, v) :: es =>
    congrArg₂ List.cons (congrArg (key, ·) (told_content_canonical v)) (toldEntries_canonical es)

end

mutual

theorem depth_content : (v : Value) → v.content.depth = v.depth
  | null | bool _ | string _ => rfl
  | number x => by cases x <;> rfl
  | array items => congrArg (· + 1) (depthAll_content items)
  | dict entries => congrArg (· + 1) (depthEntries_content entries)

theorem depthAll_content : (vs : List Value) → Content.depthAll (contentAll vs) = depthAll vs
  | [] => rfl
  | v :: vs => congrArg₂ max (depth_content v) (depthAll_content vs)

theorem depthEntries_content : (es : List (String × Value)) →
    Content.depthEntries (contentEntries es) = depthEntries es
  | [] => rfl
  | (_, v) :: es => congrArg₂ max (depth_content v) (depthEntries_content es)

end

mutual

theorem integral_content : (v : Value) → (∀ p ∈ v.parts, p.Exact) → v.content.Integral
  | null, _ | bool _, _ | string _, _ => trivial
  | number x, h => by
    obtain ⟨n, hn⟩ := Option.isSome_iff_exists.1 (h _ List.mem_cons_self)
    cases x with
    | unsigned k | signed k => trivial
    | float y => contradiction
  | array items, h => integralAll_content items (List.forall_mem_cons.1 h).2
  | dict entries, h => integralEntries_content entries (List.forall_mem_cons.1 h).2

theorem integralAll_content : (vs : List Value) → (∀ p ∈ partsAll vs, p.Exact) →
    Content.IntegralAll (contentAll vs)
  | [], _ => trivial
  | v :: vs, h => by
    obtain ⟨hv, hvs⟩ := List.forall_mem_append.1 h
    exact ⟨integral_content v hv, integralAll_content vs hvs⟩

theorem integralEntries_content : (es : List (String × Value)) →
    (∀ p ∈ partsEntries es, p.Exact) → Content.IntegralEntries (contentEntries es)
  | [], _ => trivial
  | (_, v) :: es, h => by
    obtain ⟨hv, hes⟩ := List.forall_mem_append.1 h
    exact ⟨integral_content v hv, integralEntries_content es hes⟩

end

mutual

theorem canonical_equal : (v : Value) → (∀ p ∈ v.parts, p.Exact) → v.canonical.equal v = true
  | null, _ => rfl
  | bool b, _ => by simp [canonical, equal]
  | string s, _ => by simp [canonical, equal]
  | number x, h => by
    obtain ⟨n, hn⟩ := Option.isSome_iff_exists.1 (h _ List.mem_cons_self)
    exact Number.canonical_equal hn
  | array items, h => canonicalAll_equal items (List.forall_mem_cons.1 h).2
  | dict entries, h => canonicalEntries_equal entries (List.forall_mem_cons.1 h).2

theorem canonicalAll_equal : (vs : List Value) → (∀ p ∈ partsAll vs, p.Exact) →
    equalAll (canonicalAll vs) vs = true
  | [], _ => rfl
  | v :: vs, h => by
    obtain ⟨hv, hvs⟩ := List.forall_mem_append.1 h
    rw [canonicalAll, equalAll, canonical_equal v hv, canonicalAll_equal vs hvs]
    rfl

theorem canonicalEntries_equal : (es : List (String × Value)) → (∀ p ∈ partsEntries es, p.Exact) →
    equalEntries (canonicalEntries es) es = true
  | [], _ => rfl
  | (key, v) :: es, h => by
    obtain ⟨hv, hes⟩ := List.forall_mem_append.1 h
    rw [canonicalEntries, equalEntries, canonical_equal v hv, canonicalEntries_equal es hes]
    simp

end

mutual

/-- The numbers of the value that is read are those of the value, as they are read. -/
theorem exists_of_mem_canonical {x : Number} : (v : Value) → number x ∈ v.canonical.parts →
    ∃ y, number y ∈ v.parts ∧ x = y.canonical
  | null, h | bool _, h | string _, h => by cases List.mem_singleton.1 h
  | number y, h => by
    cases List.mem_singleton.1 h
    exact ⟨y, List.mem_cons_self, rfl⟩
  | array items, h => by
    rcases List.mem_cons.1 h with hself | hitems
    · contradiction
    · obtain ⟨y, hy, hx⟩ := exists_of_mem_canonicalAll items hitems
      exact ⟨y, List.mem_cons_of_mem _ hy, hx⟩
  | dict entries, h => by
    rcases List.mem_cons.1 h with hself | hentries
    · contradiction
    · obtain ⟨y, hy, hx⟩ := exists_of_mem_canonicalEntries entries hentries
      exact ⟨y, List.mem_cons_of_mem _ hy, hx⟩

theorem exists_of_mem_canonicalAll {x : Number} : (vs : List Value) →
    number x ∈ partsAll (canonicalAll vs) → ∃ y, number y ∈ partsAll vs ∧ x = y.canonical
  | [], h => nomatch h
  | v :: vs, h => by
    rcases List.mem_append.1 h with hv | hvs
    · obtain ⟨y, hy, hx⟩ := exists_of_mem_canonical v hv
      exact ⟨y, List.mem_append_left _ hy, hx⟩
    · obtain ⟨y, hy, hx⟩ := exists_of_mem_canonicalAll vs hvs
      exact ⟨y, List.mem_append_right _ hy, hx⟩

theorem exists_of_mem_canonicalEntries {x : Number} : (es : List (String × Value)) →
    number x ∈ partsEntries (canonicalEntries es) →
      ∃ y, number y ∈ partsEntries es ∧ x = y.canonical
  | [], h => nomatch h
  | (key, v) :: es, h => by
    rcases List.mem_append.1 h with hv | hes
    · obtain ⟨y, hy, hx⟩ := exists_of_mem_canonical v hv
      exact ⟨y, List.mem_append_left _ hy, hx⟩
    · obtain ⟨y, hy, hx⟩ := exists_of_mem_canonicalEntries es hes
      exact ⟨y, List.mem_append_right _ hy, hx⟩

end

end Value

end Stencil
