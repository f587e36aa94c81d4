import Mathlib
import Stencil.Value.Text

/-!
# Content and its text

JSON tells how content is built, and the kinds of its parts but for integers: it has no unsigned and
signed ones. `told` is what it does tell, with each integer of the kind that its sign says. A value
is found in content by trial, and does not depend on what is not told.

Results:
* `json_told`: the text of content depends on what it tells.
* `Number.ofContent?_told`, `Value.ofContent?_told`: so does what is found in it.
* `Value.isSome_ofContent?`: every content stands for a value.
-/

namespace Stencil

namespace Content

mutual

/-- What JSON tells of content: an integer that is not negative is unsigned. -/
def told : Content → Content
  | signed n => if 0 ≤ n.toInt then unsigned (UInt64.ofNat n.toInt.toNat) else signed n
  | sequence items => sequence (toldAll items)
  | map entries => map (toldEntries entries)
  | c => c

def toldAll : List Content → List Content
  | [] => []
  | c :: cs => c.told :: toldAll cs

def toldEntries : List (String × Content) → List (String × Content)
  | [] => []
  | (key, c) :: rest => (key, c.told) :: toldEntries rest

end

mutual

/-- There is no float in the content. -/
def Integral : Content → Prop
  | float _ => False
  | sequence items => IntegralAll items
  | map entries => IntegralEntries entries
  | _ => True

def IntegralAll : List Content → Prop
  | [] => True
  | c :: cs => c.Integral ∧ IntegralAll cs

def IntegralEntries : List (String × Content) → Prop
  | [] => True
  | (_, c) :: rest => c.Integral ∧ IntegralEntries rest

end

mutual

/-- How many sequences and maps are inside each other. -/
def depth : Content → Nat
  | sequence items => depthAll items + 1
  | map entries => depthEntries entries + 1
  | _ => 0

def depthAll : List Content → Nat
  | [] => 0
  | c :: cs => max c.depth (depthAll cs)

def depthEntries : List (String × Content) → Nat
  | [] => 0
  | (_, c) :: rest => max c.depth (depthEntries rest)

end

/-! ## Integers -/

theorem toNat_toInt_ofNat {n : Int64} (hn : 0 ≤ n.toInt) :
    ((UInt64.ofNat n.toInt.toNat).toNat : Int) = n.toInt := by
  have hlt : n.toInt.toNat < UInt64.size := by
    have := n.toInt_lt
    simp only [UInt64.size]
    omega
  rw [UInt64.toNat_ofNat_of_lt' hlt, Int.toNat_of_nonneg hn]

variable {n : Int64}

theorem told_of_nonneg (hn : 0 ≤ n.toInt) :
    (signed n).told = unsigned (UInt64.ofNat n.toInt.toNat) := if_pos hn

theorem told_of_neg (hn : ¬0 ≤ n.toInt) : (signed n).told = signed n := if_neg hn

/-! ## What is told -/

mutual

theorem told_told : (c : Content) → c.told.told = c.told
  | unit | bool _ | unsigned _ | float _ | string _ => rfl
  | signed n => by
    by_cases hn : 0 ≤ n.toInt
    · rw [told_of_nonneg hn]
      rfl
    · rw [told_of_neg hn, told_of_neg hn]
  | sequence items => congrArg sequence (toldAll_toldAll items)
  | map entries => congrArg map (toldEntries_toldEntries entries)

theorem toldAll_toldAll : (cs : List Content) → toldAll (toldAll cs) = toldAll cs
  | [] => rfl
  | c :: cs => by rw [toldAll, toldAll, told_told c, toldAll_toldAll cs]

theorem toldEntries_toldEntries :
    (es : List (String × Content)) → toldEntries (toldEntries es) = toldEntries es
  | [] => rfl
  | (key, c) :: es => by rw [toldEntries, toldEntries, told_told c, toldEntries_toldEntries es]

end

mutual

/-- **Text** depends on nothing but what it tells. -/
theorem json_told : (c : Content) → c.told.json = c.json
  | unit | bool _ | unsigned _ | float _ | string _ => rfl
  | signed n => by
    by_cases hn : 0 ≤ n.toInt
    · rw [told_of_nonneg hn, json, json, toNat_toInt_ofNat hn]
    · rw [told_of_neg hn]
  | sequence items => by rw [told, json, json, jsonItems_told items]
  | map entries => by rw [told, json, json, jsonEntries_told entries]

theorem jsonItems_told : (cs : List Content) → jsonItems (toldAll cs) = jsonItems cs
  | [] => rfl
  | c :: cs => by rw [toldAll, jsonItems, jsonItems, json_told c, jsonItems_told cs]

theorem jsonEntries_told :
    (es : List (String × Content)) → jsonEntries (toldEntries es) = jsonEntries es
  | [] => rfl
  | (key, c) :: es => by
    rw [toldEntries, jsonEntries, jsonEntries, json_told c, jsonEntries_told es]

end

end Content

/-! ## Trial -/

/-- Where signed integers would take an integer, unsigned ones have been tried before, so that the
kind in the content makes no difference. -/
theorem Number.ofContent?_told (c : Content) : ofContent? c.told = ofContent? c := by
  cases c with
  | signed n =>
    by_cases hn : 0 ≤ n.toInt
    · simp only [Content.told_of_nonneg hn, ofContent?, unsignedOf?, if_pos hn,
        Option.orElse_eq_orElse, Option.orElse_some]
    · rw [Content.told_of_neg hn]
  | unit | bool _ | unsigned _ | float _ | string _ | sequence _ | map _ => rfl

namespace Value

mutual

/-- **Trial** depends on nothing but what the text of the content tells. -/
theorem ofContent?_told : (c : Content) → ofContent? c.told = ofContent? c
  | .unit | .bool _ | .unsigned _ | .float _ | .string _ => rfl
  | .signed n => by
    have hnumber : numberOf? (Content.signed n).told = numberOf? (.signed n) :=
      congrArg (Option.map number) (Number.ofContent?_told _)
    by_cases hn : 0 ≤ n.toInt
    · rw [Content.told_of_nonneg hn] at hnumber ⊢
      simp only [ofContent?, hnumber]
      rfl
    · rw [Content.told_of_neg hn]
  | .sequence items => by
    simp only [Content.told, ofContent?, ofContents?_told items]
    rfl
  | .map entries => by
    simp only [Content.told, ofContent?, ofContentEntries?_told entries]
    rfl

theorem ofContents?_told : (cs : List Content) → ofContents? (Content.toldAll cs) = ofContents? cs
  | [] => rfl
  | c :: cs => by
    rw [Content.toldAll, ofContents?, ofContents?, ofContent?_told c, ofContents?_told cs]

theorem ofContentEntries?_told : (es : List (String × Content)) →
    ofContentEntries? (Content.toldEntries es) = ofContentEntries? es
  | [] => rfl
  | (key, c) :: es => by
    rw [Content.toldEntries, ofContentEntries?, ofContentEntries?, ofContent?_told c,
      ofContentEntries?_told es]

end

mutual

/-- **Every content** stands for a value. -/
theorem isSome_ofContent? : (c : Content) → (ofContent? c).isSome = true
  | .unit | .bool _ | .unsigned _ | .float _ | .string _ => rfl
  | .signed n => by
    by_cases hn : 0 ≤ n.toInt <;>
      simp [ofContent?, nullOf?, boolOf?, numberOf?, Number.ofContent?, Number.unsignedOf?,
        Number.signedOf?, hn]
  | .sequence items => by
    obtain ⟨vs, hvs⟩ := Option.isSome_iff_exists.1 (isSome_ofContents? items)
    simp only [ofContent?, hvs]
    rfl
  | .map entries => by
    obtain ⟨es, hes⟩ := Option.isSome_iff_exists.1 (isSome_ofContentEntries? entries)
    simp only [ofContent?, hes]
    rfl

theorem isSome_ofContents? : (cs : List Content) → (ofContents? cs).isSome = true
  | [] => rfl
  | c :: cs => by
    obtain ⟨v, hv⟩ := Option.isSome_iff_exists.1 (isSome_ofContent? c)
    obtain ⟨vs, hvs⟩ := Option.isSome_iff_exists.1 (isSome_ofContents? cs)
    rw [ofContents?, hv, hvs]
    rfl

theorem isSome_ofContentEntries? :
    (es : List (String × Content)) → (ofContentEntries? es).isSome = true
  | [] => rfl
  | (key, c) :: rest => by
    obtain ⟨v, hv⟩ := Option.isSome_iff_exists.1 (isSome_ofContent? c)
    obtain ⟨es, hes⟩ := Option.isSome_iff_exists.1 (isSome_ofContentEntries? rest)
    rw [ofContentEntries?, hv, hes]
    rfl

end

end Value

end Stencil
