import Stencil.Text.Bytes

/-!
# Searching and cutting bytes

A text that is held as UTF-8 is searched byte by byte and cut at byte counts. A cut has no result
past the end or inside a character. That searches for ASCII never lead to such a cut is due to the
encoding: an ASCII character is one byte, and no byte of any other character is ASCII.

Results:
* `seek_utf8`: a search through bytes that cannot end inside a character is a search through
  characters.
* `find_utf8`: so is the search for an ASCII text.
* `utf8_head`: classes of ASCII characters can be told by the first byte.
-/

namespace Stencil.Text

/-! ## Bytes of one character -/

theorem utf8EncodeChar_ascii {c : Char} (h : c.toNat < 128) :
    String.utf8EncodeChar c = [c.toUInt8] := by
  have hv : c.val.toNat ≤ 0x7f := Nat.le_of_lt_succ h
  simp only [String.utf8EncodeChar, hv, if_true]
  rfl

theorem le_of_mem_utf8EncodeChar {c : Char} (h : 128 ≤ c.toNat) :
    ∀ b ∈ String.utf8EncodeChar c, 128 ≤ b.toNat := by
  have hv : ¬c.val.toNat ≤ 0x7f := Nat.not_le.2 h
  intro b hb
  simp only [String.utf8EncodeChar, hv, if_false] at hb
  split at hb
  · simp at hb
    rcases hb with rfl | rfl <;> simp <;> omega
  · split at hb
    · simp at hb
      rcases hb with rfl | rfl | rfl <;> simp <;> omega
    · simp at hb
      rcases hb with rfl | rfl | rfl | rfl <;> simp <;> omega

theorem toNat_toUInt8 {c : Char} (h : c.toNat < 128) : c.toUInt8.toNat = c.toNat := by
  rw [Char.toUInt8, UInt32.toNat_toUInt8]
  exact Nat.mod_eq_of_lt (Nat.lt_trans h (by decide))

theorem toUInt8_inj {c d : Char} (hc : c.toNat < 128) (hd : d.toNat < 128)
    (h : c.toUInt8 = d.toUInt8) : c = d := by
  apply Char.toNat_inj.1
  rw [← toNat_toUInt8 hc, ← toNat_toUInt8 hd, h]

theorem ofUInt8_toUInt8 {c : Char} (h : c.toNat < 128) : Char.ofUInt8 c.toUInt8 = c :=
  Char.toNat_inj.1 (toNat_toUInt8 h)

/-- An ASCII byte is no byte of another character. -/
theorem ne_of_mem_utf8EncodeChar {c d : Char} (hc : c.toNat < 128) (hd : 128 ≤ d.toNat) {b : UInt8}
    (hb : b ∈ String.utf8EncodeChar d) : c.toUInt8 ≠ b := by
  rintro rfl
  have := le_of_mem_utf8EncodeChar hd _ hb
  rw [toNat_toUInt8 hc] at this
  omega

/-! ## Searches -/

/-- The number of items before the first place at which `p` holds of all that is left. -/
def seek {α : Type} (p : List α → Bool) : List α → Option Nat
  | [] => if p [] then some 0 else none
  | x :: xs => if p (x :: xs) then some 0 else (seek p xs).map (· + 1)

theorem seek_of_holds {α : Type} {p : List α → Bool} {xs : List α} (h : p xs = true) :
    seek p xs = some 0 := by
  cases xs <;> simp [seek, h]

theorem seek_eq_some {α : Type} {p : List α → Bool} : ∀ {xs : List α} {i : Nat},
    seek p xs = some i → p (xs.drop i) = true
  | [], i, h => by
    simp only [seek, Option.ite_none_right_eq_some] at h
    simpa using h.1
  | x :: xs, i, h => by
    rw [seek] at h
    split at h
    · cases h
      assumption
    · obtain ⟨j, hj, rfl⟩ := Option.map_eq_some_iff.1 h
      have := seek_eq_some hj
      rwa [List.drop_succ_cons]

theorem seek_append {α : Type} {p : List α → Bool} {ys : List α} : ∀ {xs : List α},
    (∀ us vs, xs = us ++ vs → vs ≠ [] → p (vs ++ ys) = false) →
      seek p (xs ++ ys) = (seek p ys).map (· + xs.length)
  | [], _ => by simp
  | x :: xs, h => by
    have hx := h [] (x :: xs) rfl (List.cons_ne_nil x xs)
    have ih : seek p (xs ++ ys) = (seek p ys).map (· + xs.length) :=
      seek_append fun us vs hs => h (x :: us) vs (by rw [hs]; rfl)
    rw [List.cons_append] at hx ⊢
    rw [seek, hx, ih]
    simp [Function.comp_def, Nat.add_assoc]

/-- **Searches.** One for `p` in the bytes is one for `q` in the characters, if the two say the same
in front of a character, and `p` does not hold inside of one that `q` passes over. -/
theorem seek_utf8 {p : List UInt8 → Bool} {q : List Char → Bool}
    (hfront : ∀ cs, p (utf8 cs) = q cs)
    (hinside : ∀ c cs us vs, q (c :: cs) = false → 128 ≤ c.toNat →
      String.utf8EncodeChar c = us ++ vs → vs ≠ [] → p (vs ++ utf8 cs) = false) :
    ∀ cs, seek p (utf8 cs) = (seek q cs).map fun i => byteSize (cs.take i)
  | [] => by
    have := hfront []
    cases hq : q [] <;> simp_all [seek]
  | c :: cs => by
    have ih := seek_utf8 hfront hinside cs
    cases hq : q (c :: cs) with
    | true =>
      rw [seek_of_holds hq, seek_of_holds ((hfront _).trans hq)]
      rfl
    | false =>
      rw [utf8_cons, seek_append, ih, seek, hq, String.length_utf8EncodeChar]
      · simp [Function.comp_def, Nat.add_comm]
      · intro us vs hs hne
        by_cases hc : c.toNat < 128
        · -- The one byte is the front of the character.
          rw [utf8EncodeChar_ascii hc, List.singleton_eq_append_iff] at hs
          obtain ⟨rfl, rfl⟩ | ⟨-, rfl⟩ := hs
          · rw [← utf8EncodeChar_ascii hc, ← utf8_cons, hfront, hq]
          · exact absurd rfl hne
        · exact hinside c cs us vs hq (Nat.not_lt.1 hc) hs hne

theorem isPrefixOf_utf8 : ∀ {needle : List Char}, (∀ c ∈ needle, c.toNat < 128) → ∀ cs,
    (utf8 needle).isPrefixOf (utf8 cs) = needle.isPrefixOf cs
  | [], _, cs => by simp
  | n :: needle, h, [] => by
    have hn := utf8EncodeChar_ascii (h n List.mem_cons_self)
    simp [hn]
  | n :: needle, h, c :: cs => by
    obtain ⟨hn, hneedle⟩ := List.forall_mem_cons.1 h
    have ih := isPrefixOf_utf8 hneedle cs
    by_cases hc : c.toNat < 128
    · have hbeq : (n.toUInt8 == c.toUInt8) = (n == c) := by
        rw [Bool.eq_iff_iff, beq_iff_eq, beq_iff_eq]
        exact ⟨toUInt8_inj hn hc, fun h => h ▸ rfl⟩
      rw [utf8_cons, utf8_cons, utf8EncodeChar_ascii hn, utf8EncodeChar_ascii hc]
      simp [List.isPrefixOf, ih, hbeq]
    · have hne : n ≠ c := by rintro rfl; exact hc hn
      obtain ⟨b, bs, hb⟩ := List.exists_cons_of_ne_nil (String.utf8EncodeChar_ne_nil (c := c))
      have hbyte := ne_of_mem_utf8EncodeChar hn (Nat.not_lt.1 hc) (b := b) (by simp [hb])
      rw [utf8_cons, utf8_cons, utf8EncodeChar_ascii hn, hb]
      simp [List.isPrefixOf, beq_false_of_ne hbyte, beq_false_of_ne hne]

/-- **Searches for a text** of ASCII. -/
theorem find_utf8 (needle : List Char) (hne : needle ≠ [])
    (hascii : needle.all (·.toNat < 128) = true) (cs : List Char) :
    seek (utf8 needle).isPrefixOf (utf8 cs) =
      (seek needle.isPrefixOf cs).map fun i => byteSize (cs.take i) := by
  have h : ∀ c ∈ needle, c.toNat < 128 := by simpa using hascii
  refine seek_utf8 (isPrefixOf_utf8 h) (fun c ds us vs _ hc hs hv => ?_) cs
  obtain ⟨n, needle, rfl⟩ := List.exists_cons_of_ne_nil hne
  obtain ⟨b, vs, rfl⟩ := List.exists_cons_of_ne_nil hv
  have hn := h n List.mem_cons_self
  have hbyte := ne_of_mem_utf8EncodeChar hn hc (b := b) (by simp [hs])
  rw [utf8_cons, utf8EncodeChar_ascii hn]
  simp [List.isPrefixOf, hbyte]

/-! ## Classes of ASCII characters -/

/-- Holds of no character outside of ASCII. -/
def AsciiOnly (f : Char → Bool) : Prop := ∀ c : Char, 128 ≤ c.toNat → f c = false

/-- A character that is not ASCII is past all code points of ASCII. -/
theorem not_le_of_ascii {c : Char} (hc : 128 ≤ c.toNat) {n : UInt32} (hn : n.toNat < 128) :
    ¬c.val ≤ n := by
  have hv : 128 ≤ c.val.toNat := hc
  rw [UInt32.le_iff_toNat_le]
  omega

theorem asciiOnly_isAlpha : AsciiOnly Char.isAlpha := by
  intro c hc
  have hupper : ¬(c.val ≥ 65 ∧ c.val ≤ 90) := fun h => not_le_of_ascii hc (by decide) h.2
  have hlower : ¬c.val ≤ 122 := not_le_of_ascii hc (by decide)
  show (decide (c.val ≥ 65 ∧ c.val ≤ 90) || decide (c.val ≥ 97) && decide (c.val ≤ 122)) = false
  rw [decide_eq_false hupper, decide_eq_false hlower, Bool.and_false, Bool.or_false]

theorem asciiOnly_isDigit : AsciiOnly Char.isDigit := by
  intro c hc
  have hdigit : ¬c.val ≤ 57 := not_le_of_ascii hc (by decide)
  show (decide (c.val ≥ 48) && decide (c.val ≤ 57)) = false
  rw [decide_eq_false hdigit, Bool.and_false]

theorem asciiOnly_eq {d : Char} (hd : d.toNat < 128) : AsciiOnly (· = d) := by
  intro c hc
  rw [decide_eq_false_iff_not]
  rintro rfl
  omega

theorem AsciiOnly.or {f g : Char → Bool} (hf : AsciiOnly f) (hg : AsciiOnly g) :
    AsciiOnly fun c => f c || g c := by
  intro c hc
  show (f c || g c) = false
  rw [hf c hc, hg c hc, Bool.or_false]

/-- **First bytes.** They are in the same classes as their characters. -/
theorem utf8_head (c : Char) (cs : List Char) : ∃ b bs, utf8 (c :: cs) = b :: bs ∧
    ∀ f, AsciiOnly f → f (Char.ofUInt8 b) = f c := by
  by_cases hc : c.toNat < 128
  · refine ⟨c.toUInt8, utf8 cs, by rw [utf8_cons, utf8EncodeChar_ascii hc]; rfl, fun f _ => ?_⟩
    rw [ofUInt8_toUInt8 hc]
  · obtain ⟨b, bs, hb⟩ := List.exists_cons_of_ne_nil (String.utf8EncodeChar_ne_nil (c := c))
    have hc := Nat.not_lt.1 hc
    have hle : 128 ≤ (Char.ofUInt8 b).toNat := le_of_mem_utf8EncodeChar hc b (by simp [hb])
    refine ⟨b, bs ++ utf8 cs, by rw [utf8_cons, hb]; rfl, fun f hf => ?_⟩
    rw [hf c hc, hf _ hle]

/-! ## Cuts -/

/-- The text behind the first `n` bytes, if these are whole characters. -/
def from? (n : Nat) (cs : List Char) : Option (List Char) := (splitBytes? n cs).map Prod.snd

theorem from?_append (taken rest : List Char) :
    from? (byteSize taken) (taken ++ rest) = some rest := by
  rw [from?, splitBytes?_append]
  rfl

theorem byteSize_pos {cs : List Char} (h : cs ≠ []) : 0 < byteSize cs := by
  obtain ⟨c, cs, rfl⟩ := List.exists_cons_of_ne_nil h
  have := c.utf8Size_pos
  rw [byteSize_cons]
  omega

/-- A text that has been found is passed as a whole. -/
theorem byteSize_take_add {needle cs : List Char} {i : Nat}
    (h : needle.isPrefixOf (cs.drop i) = true) :
    byteSize (cs.take (i + needle.length)) = byteSize (cs.take i) + byteSize needle := by
  have h := List.prefix_iff_eq_take.1 (List.isPrefixOf_iff_prefix.1 h)
  rw [List.take_add, byteSize_append, ← h]

end Stencil.Text
