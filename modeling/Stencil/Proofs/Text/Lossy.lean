import Stencil.Text.Bytes

/-!
# Bytes read as text

Bytes that are the UTF-8 form of a text are read as that text, character by character: the lead byte
of each tells how many bytes follow it, and each of these adds six bits.

Results:
* `go_utf8EncodeChar`: one character.
* `decodeLossy_utf8`: a text is read back from its bytes.
-/

namespace Stencil.Text

/-! ## One character -/

theorem toNat_ofNat_byte {n : Nat} (h : n < 256) : (UInt8.ofNat n).toNat = n :=
  UInt8.toNat_ofNat_of_lt' h

/-- What follows a lead byte, by the number of the byte. -/
theorem continuation?_ofNat : ∀ n < 256, continuation? (UInt8.ofNat n) =
    if 0xc2 ≤ n ∧ n ≤ 0xdf then some (1, 0x80, 0xbf)
    else if n = 0xe0 then some (2, 0xa0, 0xbf)
    else if n = 0xed then some (2, 0x80, 0x9f)
    else if 0xe1 ≤ n ∧ n ≤ 0xef then some (2, 0x80, 0xbf)
    else if n = 0xf0 then some (3, 0x90, 0xbf)
    else if 0xf1 ≤ n ∧ n ≤ 0xf3 then some (3, 0x80, 0xbf)
    else if n = 0xf4 then some (3, 0x80, 0x8f)
    else none := by
  decide +kernel

/-- A byte that may stand where it does adds its six bits. -/
theorem continued_cons {low high : UInt8} {n b : Nat} (code : Nat) (bs : List UInt8) (hb : b < 64)
    (hlow : low.toNat ≤ b + 128) (hhigh : b + 128 ≤ high.toNat) :
    continued low high code (n + 1) (UInt8.ofNat (b + 128) :: bs) =
      let rest := continued 0x80 0xbf (code * 64 + b) n bs
      (rest.1 + 1, rest.2) := by
  have hbyte : (UInt8.ofNat (b + 128)).toNat = b + 128 := toNat_ofNat_byte (by omega)
  have hrange : (low ≤ UInt8.ofNat (b + 128) && UInt8.ofNat (b + 128) ≤ high) = true := by
    simp only [UInt8.le_iff_toNat_le, hbyte, Bool.and_eq_true, decide_eq_true_eq]
    exact ⟨hlow, hhigh⟩
  have hrest : (b + 128) % 64 = b := by omega
  rw [continued, if_pos hrange, hbyte, hrest]

theorem go_ascii {b : Nat} (fuel : Nat) (bs : List UInt8) (h : b < 128) :
    decodeLossy.go (fuel + 1) (UInt8.ofNat b :: bs) = Char.ofNat b :: decodeLossy.go fuel bs := by
  have hbyte : (UInt8.ofNat b).toNat = b := toNat_ofNat_byte (by omega)
  have hlt : UInt8.ofNat b < 0x80 := by
    rw [UInt8.lt_iff_toNat_lt, hbyte]
    exact h
  rw [decodeLossy.go, if_pos hlt, hbyte]

/-- A lead byte and all that follows it are one character. -/
theorem go_lead {lead n code : Nat} {low high : UInt8} (fuel : Nat) (tail : List UInt8)
    {bs : List UInt8} (hlead : 128 ≤ lead) (hlt : lead < 256)
    (hnext : continuation? (UInt8.ofNat lead) = some (n, low, high)) (htail : tail.length = n)
    (hcode : continued low high (lead % (1 <<< (6 - n))) n (tail ++ bs) = (n, code)) :
    decodeLossy.go (fuel + 1) (UInt8.ofNat lead :: (tail ++ bs)) =
      Char.ofNat code :: decodeLossy.go fuel bs := by
  have hbyte : (UInt8.ofNat lead).toNat = lead := toNat_ofNat_byte hlt
  have hnot : ¬UInt8.ofNat lead < 0x80 := by
    rw [UInt8.lt_iff_toNat_lt, hbyte]
    exact Nat.not_lt.2 hlead
  rw [decodeLossy.go, if_neg hnot, hnext]
  simp only [hbyte, hcode, if_true]
  rw [← htail, List.drop_left]

theorem go_two {v : Nat} (fuel : Nat) (bs : List UInt8) (hlow : 0x80 ≤ v) (hhigh : v ≤ 0x7ff) :
    decodeLossy.go (fuel + 1)
        (UInt8.ofNat (v / 64 % 32 + 192) :: UInt8.ofNat (v % 64 + 128) :: bs) =
      Char.ofNat v :: decodeLossy.go fuel bs := by
  have hcode : (v / 64 % 32 + 192) % (1 <<< (6 - 1)) * 64 + v % 64 = v := by
    rw [show 1 <<< (6 - 1) = 32 from rfl]
    omega
  have hnext : continuation? (UInt8.ofNat (v / 64 % 32 + 192)) = some (1, 0x80, 0xbf) := by
    rw [continuation?_ofNat _ (by omega), if_pos (by omega)]
  refine go_lead fuel [_] (by omega) (by omega) hnext rfl ?_
  rw [List.singleton_append, continued_cons _ _ (by omega) (show 128 ≤ _ by omega)
    (show _ ≤ 191 by omega), continued, hcode]

/-- The first byte behind the lead byte tells surrogates and too long forms apart. -/
theorem go_three {v : Nat} (fuel : Nat) (bs : List UInt8) (hlow : 0x800 ≤ v) (hhigh : v ≤ 0xffff)
    (hvalid : v < 0xd800 ∨ 0xdfff < v) :
    decodeLossy.go (fuel + 1) (UInt8.ofNat (v / 4096 % 16 + 224) ::
        UInt8.ofNat (v / 64 % 64 + 128) :: UInt8.ofNat (v % 64 + 128) :: bs) =
      Char.ofNat v :: decodeLossy.go fuel bs := by
  have hcode :
      ((v / 4096 % 16 + 224) % (1 <<< (6 - 2)) * 64 + v / 64 % 64) * 64 + v % 64 = v := by
    rw [show 1 <<< (6 - 2) = 16 from rfl]
    omega
  obtain ⟨low, high, hnext, hfrom, hto⟩ : ∃ low high,
      continuation? (UInt8.ofNat (v / 4096 % 16 + 224)) = some (2, low, high) ∧
        low.toNat ≤ v / 64 % 64 + 128 ∧ v / 64 % 64 + 128 ≤ high.toNat := by
    rw [continuation?_ofNat _ (by omega), if_neg (by omega)]
    split
    · exact ⟨_, _, rfl, show 160 ≤ _ by omega, show _ ≤ 191 by omega⟩
    split
    · exact ⟨_, _, rfl, show 128 ≤ _ by omega, show _ ≤ 159 by omega⟩
    rw [if_pos (by omega)]
    exact ⟨_, _, rfl, show 128 ≤ _ by omega, show _ ≤ 191 by omega⟩
  refine go_lead fuel [_, _] (by omega) (by omega) hnext rfl ?_
  rw [List.cons_append, List.singleton_append, continued_cons _ _ (by omega) hfrom hto,
    continued_cons _ _ (by omega) (show 128 ≤ _ by omega) (show _ ≤ 191 by omega), continued,
    hcode]

theorem go_four {v : Nat} (fuel : Nat) (bs : List UInt8) (hlow : 0x10000 ≤ v)
    (hhigh : v < 0x110000) :
    decodeLossy.go (fuel + 1) (UInt8.ofNat (v / 262144 % 8 + 240) ::
        UInt8.ofNat (v / 4096 % 64 + 128) :: UInt8.ofNat (v / 64 % 64 + 128) ::
          UInt8.ofNat (v % 64 + 128) :: bs) =
      Char.ofNat v :: decodeLossy.go fuel bs := by
  have hcode : (((v / 262144 % 8 + 240) % (1 <<< (6 - 3)) * 64 + v / 4096 % 64) * 64 +
      v / 64 % 64) * 64 + v % 64 = v := by
    rw [show 1 <<< (6 - 3) = 8 from rfl]
    omega
  obtain ⟨low, high, hnext, hfrom, hto⟩ : ∃ low high,
      continuation? (UInt8.ofNat (v / 262144 % 8 + 240)) = some (3, low, high) ∧
        low.toNat ≤ v / 4096 % 64 + 128 ∧ v / 4096 % 64 + 128 ≤ high.toNat := by
    rw [continuation?_ofNat _ (by omega), if_neg (by omega), if_neg (by omega), if_neg (by omega),
      if_neg (by omega)]
    split
    · exact ⟨_, _, rfl, show 144 ≤ _ by omega, show _ ≤ 191 by omega⟩
    split
    · exact ⟨_, _, rfl, show 128 ≤ _ by omega, show _ ≤ 191 by omega⟩
    rw [if_pos (by omega)]
    exact ⟨_, _, rfl, show 128 ≤ _ by omega, show _ ≤ 143 by omega⟩
  refine go_lead fuel [_, _, _] (by omega) (by omega) hnext rfl ?_
  rw [List.cons_append, List.cons_append, List.singleton_append,
    continued_cons _ _ (by omega) hfrom hto,
    continued_cons _ _ (by omega) (show 128 ≤ _ by omega) (show _ ≤ 191 by omega),
    continued_cons _ _ (by omega) (show 128 ≤ _ by omega) (show _ ≤ 191 by omega), continued,
    hcode]

/-- **Characters.** The bytes of a character are read as that character. -/
theorem go_utf8EncodeChar (fuel : Nat) (c : Char) (bs : List UInt8) :
    decodeLossy.go (fuel + 1) (String.utf8EncodeChar c ++ bs) = c :: decodeLossy.go fuel bs := by
  have hvalid : c.val.toNat < 0xd800 ∨ 0xdfff < c.val.toNat ∧ c.val.toNat < 0x110000 := c.valid
  have hchar : Char.ofNat c.val.toNat = c := Char.ofNat_toNat c
  unfold String.utf8EncodeChar
  generalize c.val.toNat = v at *
  subst hchar
  by_cases h₁ : v ≤ 0x7f
  · rw [if_pos h₁]
    exact go_ascii fuel bs (by omega)
  rw [if_neg h₁]
  by_cases h₂ : v ≤ 0x7ff
  · rw [if_pos h₂]
    exact go_two fuel bs (by omega) h₂
  rw [if_neg h₂]
  by_cases h₃ : v ≤ 0xffff
  · rw [if_pos h₃]
    exact go_three fuel bs (by omega) h₃ (by omega)
  · rw [if_neg h₃]
    exact go_four fuel bs (by omega) (by omega)

/-! ## Texts -/

/-- Each character takes one byte at least. -/
theorem length_le_utf8 (cs : List Char) : cs.length ≤ (utf8 cs).length := by
  induction cs with
  | nil => exact Nat.le_refl 0
  | cons c cs ih =>
    have hc := c.utf8Size_pos
    rw [utf8_cons, List.length_append, String.length_utf8EncodeChar, List.length_cons]
    omega

/-- **Texts.** A text is read back from its bytes. -/
theorem decodeLossy_utf8 (cs : List Char) : decodeLossy (utf8 cs) = cs := by
  have hgo : ∀ fuel, cs.length ≤ fuel → decodeLossy.go fuel (utf8 cs) = cs := by
    induction cs with
    | nil =>
      intro fuel _
      cases fuel <;> rfl
    | cons c cs ih =>
      intro fuel hfuel
      rw [List.length_cons] at hfuel
      obtain ⟨fuel, rfl⟩ : ∃ k, fuel = k + 1 := ⟨fuel - 1, by omega⟩
      rw [utf8_cons, go_utf8EncodeChar, ih fuel (by omega)]
  exact hgo _ (length_le_utf8 cs)

end Stencil.Text
