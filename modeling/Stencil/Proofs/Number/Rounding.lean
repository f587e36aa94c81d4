import Mathlib
import Stencil.Number.Binary64

/-!
# Whole numbers as floats

The float of an integer is the one nearest to it. It keeps 53 bits. An integer that has no more of
them, as all have up to `exactLimit`, is its own float, and two such integers are two floats.
Beyond, integers fall together.

Results:
* `nearestBits_exact`: what is a significand of 53 bits, shifted, is not rounded.
* `units_ofRatio`: up to `exactLimit`, the float of a whole number is worth the number.
* `nearest_ofInt`: no float is nearer, and of two that are equally near it is the even one.
* `eq_of_equal_ofInt`: up to there, integers that are equal as floats are equal.
* `equal_trans`: floats that equal the same float are equal.
-/

namespace Stencil.Binary64

/-- The greatest number up to which every whole number is a float. -/
def exactLimit : Nat := 2 * leadingBit

/-! ## Magnitudes -/

theorem toNat_bits_ofMagnitude {bits : Nat} (h : bits < signBit) (negative : Bool) :
    (ofMagnitude negative bits).bits.toNat = if negative then signBit + bits else bits := by
  rw [ofMagnitude, UInt64.toNat_ofNat']
  unfold signBit at *
  split <;> omega

theorem magnitudeBits_ofMagnitude {bits : Nat} (h : bits < signBit) (negative : Bool) :
    (ofMagnitude negative bits).magnitudeBits = bits := by
  rw [magnitudeBits, toNat_bits_ofMagnitude h]
  unfold signBit at *
  split <;> omega

theorem isNegative_ofMagnitude {bits : Nat} (h : bits < signBit) (negative : Bool) :
    (ofMagnitude negative bits).isNegative = negative := by
  rw [isNegative, toNat_bits_ofMagnitude h]
  cases negative
  · simpa using h
  · simp

/-- The significand of 53 bits and the places that it is shifted by, told apart. -/
theorem significand_of_magnitudeBits {x : Binary64} {places q : Nat} (hlow : leadingBit ≤ q)
    (hhigh : q < 2 * leadingBit) (h : x.magnitudeBits = places * leadingBit + q) :
    x.significand = q ∧ x.units = q * 2 ^ places := by
  have hshift : x.shift = places := by
    rw [shift, h]
    unfold leadingBit at *
    omega
  rw [units, significand, hshift, h, Nat.add_sub_cancel_left, Nat.shiftLeft_eq]
  exact ⟨rfl, rfl⟩

theorem units_congr {x y : Binary64} (h : x.magnitudeBits = y.magnitudeBits) :
    x.units = y.units := by
  simp only [units, significand, shift, h]

/-! ## Rounding -/

theorem nearestBits_lt (num den : Nat) : nearestBits num den < signBit :=
  Nat.lt_of_le_of_lt (Nat.min_le_right _ _) (by decide)

theorem roundedDiv_mul (q : Nat) {d : Nat} (hd : 0 < d) : roundedDiv (q * d) d = q := by
  simp [roundedDiv, Nat.mul_div_cancel _ hd, hd]

theorem log2_significand {places q : Nat} (hlow : leadingBit ≤ q) (hhigh : q < 2 * leadingBit) :
    Nat.log2 (q * 2 ^ places) = 52 + places := by
  have hpos : 0 < 2 ^ places := Nat.two_pow_pos places
  have hq : 0 < q := Nat.lt_of_lt_of_le (by decide) hlow
  rw [Nat.log2_eq_iff (Nat.ne_of_gt (Nat.mul_pos hq hpos)), Nat.add_right_comm, Nat.pow_add,
    Nat.pow_add]
  exact ⟨Nat.mul_le_mul_right _ hlow, Nat.mul_lt_mul_of_pos_right hhigh hpos⟩

/-- Nothing is rounded if there is nothing behind the significand. -/
theorem nearestBits_exact {n places q : Nat} (hlow : leadingBit ≤ q) (hhigh : q < 2 * leadingBit)
    (hplaces : places < 2046) (h : n * unitsOfOne = q * 2 ^ places) :
    nearestBits n 1 = places * leadingBit + q := by
  have hfinite : places * leadingBit + q ≤ infinityBits := by
    unfold leadingBit infinityBits at *
    omega
  rw [nearestBits, Nat.div_one, h, log2_significand hlow hhigh, Nat.add_sub_cancel_left,
    Nat.one_shiftLeft, roundedDiv_mul q (Nat.two_pow_pos places), Nat.min_eq_left hfinite]

/-- The exponent as a variable, so that no power is computed. -/
theorem unitsOfOne_eq : ∃ e, unitsOfOne = 2 ^ e ∧ 52 ≤ e ∧ e < 1982 := by
  obtain ⟨e, hunits, he⟩ : ∃ e, unitsOfOne = 1 <<< e ∧ 52 ≤ e ∧ e < 1982 :=
    ⟨1074, rfl, by decide, by decide⟩
  exact ⟨e, hunits.trans (Nat.one_shiftLeft e), he⟩

/-- A number up to the limit as a significand of 53 bits, shifted. -/
theorem exists_significand {n : Nat} (hpos : 0 < n) (h : n ≤ exactLimit) :
    ∃ places q, leadingBit ≤ q ∧ q < 2 * leadingBit ∧ places < 2046 ∧
      n * unitsOfOne = q * 2 ^ places := by
  obtain ⟨e, hunits, he, he'⟩ := unitsOfOne_eq
  rw [hunits]
  obtain hlt | rfl := Nat.lt_or_eq_of_le h
  · have hlog : Nat.log2 n < 53 := (Nat.log2_lt (Nat.ne_of_gt hpos)).2 hlt
    have hself := Nat.log2_self_le (Nat.ne_of_gt hpos)
    have hself' := Nat.lt_log2_self (n := n)
    generalize Nat.log2 n = k at hlog hself hself'
    refine ⟨e - (52 - k), n * 2 ^ (52 - k), ?_, ?_, by omega, ?_⟩
    · calc leadingBit = 2 ^ k * 2 ^ (52 - k) := by
            rw [← Nat.pow_add, Nat.add_sub_cancel' (by omega)]; rfl
        _ ≤ n * 2 ^ (52 - k) := Nat.mul_le_mul_right _ hself
    · calc n * 2 ^ (52 - k) < 2 ^ (k + 1) * 2 ^ (52 - k) :=
            Nat.mul_lt_mul_of_pos_right hself' (Nat.two_pow_pos _)
        _ = 2 * leadingBit := by
            rw [← Nat.pow_add, show k + 1 + (52 - k) = 53 by omega]; rfl
    · rw [Nat.mul_assoc, ← Nat.pow_add, Nat.add_sub_cancel' (by omega)]
  · exact ⟨e + 1, leadingBit, Nat.le_refl _, by decide, by omega, by
      rw [exactLimit, Nat.pow_succ, Nat.mul_comm 2, Nat.mul_assoc, Nat.mul_comm 2]⟩

theorem nearestBits_zero : nearestBits 0 1 = 0 := by decide +kernel

/-- **Exact.** Up to the limit, the float of a whole number is worth the number. -/
theorem units_ofRatio {n : Nat} (h : n ≤ exactLimit) (negative : Bool) :
    (ofRatio negative n 1).units = n * unitsOfOne := by
  have hbits := magnitudeBits_ofMagnitude (nearestBits_lt n 1) negative
  obtain rfl | hpos := Nat.eq_zero_or_pos n
  · rw [nearestBits_zero] at hbits
    rw [Nat.zero_mul, units_congr (y := zero) (by rw [ofRatio, nearestBits_zero, hbits]; rfl)]
    decide
  · obtain ⟨places, q, hlow, hhigh, hplaces, hn⟩ := exists_significand hpos h
    rw [nearestBits_exact hlow hhigh hplaces hn] at hbits
    rw [hn, ← (significand_of_magnitudeBits hlow hhigh hbits).2, ofRatio,
      nearestBits_exact hlow hhigh hplaces hn]

theorem isNegative_ofInt (n : Int) : (ofInt n).isNegative = decide (n < 0) :=
  isNegative_ofMagnitude (nearestBits_lt _ _) _

/-! ## The nearest float -/

theorem roundedDiv_cases (num den : Nat) :
    roundedDiv num den = num / den ∧
        (2 * (num % den) < den ∨ 2 * (num % den) = den ∧ num / den % 2 = 0) ∨
      roundedDiv num den = num / den + 1 ∧
        (den < 2 * (num % den) ∨ 2 * (num % den) = den ∧ num / den % 2 = 1) := by
  simp only [roundedDiv, Bool.or_eq_true, Bool.and_eq_true, decide_eq_true_eq, beq_iff_eq]
  split
  · exact .inl ⟨rfl, ‹_›⟩
  · exact .inr ⟨rfl, by omega⟩

/-- Multiples are the same, or one of them and more apart. -/
theorem mul_apart (k q d : Nat) : k * d + d ≤ q * d ∨ k = q ∨ q * d + d ≤ k * d := by
  rcases Nat.lt_trichotomy k q with h | h | h
  · exact .inl (Nat.succ_mul k d ▸ Nat.mul_le_mul_right d h)
  · exact .inr (.inl h)
  · exact .inr (.inr (Nat.succ_mul q d ▸ Nat.mul_le_mul_right d h))

/-- No multiple is nearer, and of two that are equally near it is the even one. -/
theorem roundedDiv_nearest (num : Nat) {den : Nat} (hden : 0 < den) (k : Nat) :
    Nat.dist (roundedDiv num den * den) num ≤ Nat.dist (k * den) num ∧
      (k ≠ roundedDiv num den →
        Nat.dist (k * den) num = Nat.dist (roundedDiv num den * den) num →
        roundedDiv num den % 2 = 0) := by
  have hnum : num / den * den + num % den = num := Nat.div_add_mod' num den
  have hmod := Nat.mod_lt num hden
  unfold Nat.dist
  obtain h | rfl | h := mul_apart k (roundedDiv num den) den
  · obtain ⟨hq, hr⟩ | ⟨hq, hr⟩ := roundedDiv_cases num den
    · rw [hq] at h ⊢
      omega
    · rw [hq, Nat.add_one_mul] at h ⊢
      omega
  · exact ⟨Nat.le_refl _, fun hne => absurd rfl hne⟩
  · obtain ⟨hq, hr⟩ | ⟨hq, hr⟩ := roundedDiv_cases num den
    · rw [hq] at h ⊢
      omega
    · rw [hq, Nat.add_one_mul] at h ⊢
      omega

theorem significand_lt (x : Binary64) : x.significand < 2 * leadingBit := by
  unfold significand shift leadingBit
  omega

/-- A significand that is rounded up to the next power of two is carried over. -/
theorem units_of_rounded {x : Binary64} {places q : Nat} (hlow : leadingBit ≤ q)
    (hhigh : q ≤ 2 * leadingBit) (h : x.magnitudeBits = places * leadingBit + q) :
    x.units = q * 2 ^ places ∧ (q % 2 = 0 → x.significand % 2 = 0) := by
  obtain rfl | hlt := Nat.eq_or_lt_of_le hhigh
  · have hcarried : x.magnitudeBits = (places + 1) * leadingBit + leadingBit := by
      rw [h]
      unfold leadingBit
      omega
    obtain ⟨hsignificand, hunits⟩ :=
      significand_of_magnitudeBits (Nat.le_refl _) (by decide) hcarried
    rw [hsignificand, hunits, Nat.pow_succ, Nat.mul_comm 2, Nat.mul_assoc, Nat.mul_comm 2]
    exact ⟨rfl, fun _ => by decide⟩
  · obtain ⟨hsignificand, hunits⟩ := significand_of_magnitudeBits hlow hlt h
    exact ⟨hunits, fun heven => by rwa [hsignificand]⟩

/-- A number of 53 bits or more, rounded to 53 of them. -/
theorem roundedDiv_significand {n places : Nat} (hlog : Nat.log2 n = places + 52) :
    leadingBit * 2 ^ places ≤ n ∧ leadingBit ≤ roundedDiv n (2 ^ places) ∧
      roundedDiv n (2 ^ places) ≤ 2 * leadingBit := by
  have hpos : 0 < 2 ^ places := Nat.two_pow_pos places
  have hleading : leadingBit = 2 ^ 52 := rfl
  have hfrom : leadingBit * 2 ^ places ≤ n := by
    rw [hleading, Nat.mul_comm, ← Nat.pow_add, ← hlog]
    exact Nat.log2_self_le (by rintro rfl; simp at hlog)
  have hdown : leadingBit ≤ n / 2 ^ places := (Nat.le_div_iff_mul_le hpos).2 hfrom
  have hup : n / 2 ^ places < 2 * leadingBit := by
    have hself := Nat.lt_log2_self (n := n)
    rw [hlog, Nat.add_assoc, Nat.pow_add] at hself
    exact Nat.div_lt_of_lt_mul hself
  obtain ⟨hq, -⟩ | ⟨hq, -⟩ := roundedDiv_cases n (2 ^ places) <;> omega

theorem log2_scaled {n : Nat} (hpos : 0 < n) (hn : n < 2 ^ 64) :
    ∃ places, Nat.log2 (n * unitsOfOne) = places + 52 ∧ places < 2045 := by
  obtain ⟨e, hunits, he, he'⟩ := unitsOfOne_eq
  rw [hunits]
  have hne : n * 2 ^ e ≠ 0 := Nat.ne_of_gt (Nat.mul_pos hpos (Nat.two_pow_pos e))
  have hle : 52 ≤ Nat.log2 (n * 2 ^ e) := by
    refine (Nat.le_log2 hne).2 (Nat.le_trans (Nat.pow_le_pow_right (by decide) he) ?_)
    exact Nat.le_mul_of_pos_left _ hpos
  have hlt : Nat.log2 (n * 2 ^ e) < 64 + e := by
    refine (Nat.log2_lt hne).2 ?_
    rw [Nat.pow_add]
    exact Nat.mul_lt_mul_of_pos_right hn (Nat.two_pow_pos e)
  exact ⟨_, (Nat.sub_add_cancel hle).symm, by omega⟩

/-- The bits of a whole number of 64 bits: how many places are rounded off, and what is left. -/
theorem nearestBits_whole {n : Nat} (hpos : 0 < n) (hn : n < 2 ^ 64) :
    ∃ places, Nat.log2 (n * unitsOfOne) = places + 52 ∧
      nearestBits n 1 = places * leadingBit + roundedDiv (n * unitsOfOne) (2 ^ places) ∧
      nearestBits n 1 < infinityBits := by
  obtain ⟨places, hlog, hplaces⟩ := log2_scaled hpos hn
  obtain ⟨-, -, hhigh⟩ := roundedDiv_significand hlog
  have hfinite : places * leadingBit + roundedDiv (n * unitsOfOne) (2 ^ places) <
      infinityBits := by
    unfold leadingBit infinityBits at *
    omega
  have heq : nearestBits n 1 =
      places * leadingBit + roundedDiv (n * unitsOfOne) (2 ^ places) := by
    rw [nearestBits, Nat.div_one, hlog, Nat.add_sub_cancel, Nat.one_shiftLeft,
      Nat.min_eq_left (Nat.le_of_lt hfinite)]
  exact ⟨places, hlog, heq, heq ▸ hfinite⟩

/-- What a finite number is worth in multiples of 2^-1074. -/
def signedUnits (x : Binary64) : Int := if x.isNegative then -x.units else x.units

/-- No finite number is nearer to an integer. Of two that are equally near, it is the one with an
even significand. -/
structure Nearest (n : Int) (x : Binary64) : Prop where
  finite : x.isFinite = true
  near : ∀ y : Binary64, y.isFinite = true →
    (x.signedUnits - n * unitsOfOne).natAbs ≤ (y.signedUnits - n * unitsOfOne).natAbs
  even : ∀ y : Binary64, y.isFinite = true → y.signedUnits ≠ x.signedUnits →
    (y.signedUnits - n * unitsOfOne).natAbs = (x.signedUnits - n * unitsOfOne).natAbs →
    x.significand % 2 = 0

/-- A finite number is a multiple of what is rounded to, or smaller. -/
theorem units_cases (x : Binary64) (places : Nat) :
    (∃ k, x.units = k * 2 ^ places) ∨ x.units < leadingBit * 2 ^ places := by
  rw [units, Nat.shiftLeft_eq]
  rcases Nat.lt_or_ge x.shift places with h | h
  · refine .inr (Nat.lt_of_lt_of_le (Nat.mul_lt_mul_of_pos_right x.significand_lt
      (Nat.two_pow_pos _)) ?_)
    rw [Nat.mul_comm 2, Nat.mul_assoc, ← Nat.pow_succ']
    exact Nat.mul_le_mul_left _ (Nat.pow_le_pow_right (by decide) h)
  · obtain ⟨k, hk⟩ := Nat.exists_eq_add_of_le' h
    exact .inl ⟨x.significand * 2 ^ k, by rw [hk, Nat.pow_add, Nat.mul_assoc]⟩

/-- **To nearest, ties to even**, for magnitudes. -/
theorem units_nearest {n : Nat} (hn : n < 2 ^ 64) {x : Binary64}
    (hx : x.magnitudeBits = nearestBits n 1) (y : Binary64) :
    Nat.dist x.units (n * unitsOfOne) ≤ Nat.dist y.units (n * unitsOfOne) ∧
      (y.units ≠ x.units →
        Nat.dist y.units (n * unitsOfOne) = Nat.dist x.units (n * unitsOfOne) →
        x.significand % 2 = 0) := by
  obtain rfl | hpos := Nat.eq_zero_or_pos n
  · have hzero : x.units = 0 := by
      rw [units_congr (y := zero) (by rw [hx, nearestBits_zero]; rfl)]
      decide
    rw [Nat.zero_mul, hzero]
    unfold Nat.dist
    omega
  obtain ⟨places, hlog, hbits, -⟩ := nearestBits_whole hpos hn
  obtain ⟨hfrom, hlow, hhigh⟩ := roundedDiv_significand hlog
  obtain ⟨hunits, heven⟩ := units_of_rounded hlow hhigh (hx.trans hbits)
  have hnear := roundedDiv_nearest (n * unitsOfOne) (Nat.two_pow_pos places)
  rw [hunits]
  obtain ⟨k, hk⟩ | hlt := y.units_cases places
  · rw [hk]
    refine ⟨(hnear k).1, fun hne htie => heven ((hnear k).2 ?_ htie)⟩
    rintro rfl
    exact hne rfl
  · have hless := (hnear leadingBit).1
    unfold Nat.dist at *
    omega

/-- Numbers are apart by the difference of their magnitudes if they have one sign, and by the sum
if they do not. -/
theorem natAbs_signedUnits_sub (x : Binary64) (k : Int) : (x.signedUnits - k).natAbs =
    if x.isNegative = decide (k < 0) then Nat.dist x.units k.natAbs else x.units + k.natAbs := by
  unfold signedUnits Nat.dist
  by_cases hk : k < 0 <;> cases x.isNegative <;> simp [hk] <;> omega

theorem isFinite_ofInt {n : Int} (hn : n.natAbs < 2 ^ 64) : (ofInt n).isFinite = true := by
  rw [isFinite, ofInt, ofRatio, magnitudeBits_ofMagnitude (nearestBits_lt _ _)]
  obtain hzero | hpos := Nat.eq_zero_or_pos n.natAbs
  · rw [hzero, nearestBits_zero]
    decide
  · obtain ⟨-, -, -, hfinite⟩ := nearestBits_whole hpos hn
    exact decide_eq_true hfinite

/-- **To nearest, ties to even.** The float of an integer of 64 bits. -/
theorem nearest_ofInt {n : Int} (hn : n.natAbs < 2 ^ 64) : Nearest n (ofInt n) := by
  have hscale : (0 : Int) < unitsOfOne := by decide
  have hsign : (ofInt n).isNegative = decide (n * unitsOfOne < 0) := by
    rw [isNegative_ofInt, decide_eq_decide]
    exact ⟨fun h => Int.mul_neg_of_neg_of_pos h hscale, fun h => neg_of_mul_neg_left h hscale.le⟩
  have hbits : (ofInt n).magnitudeBits = nearestBits n.natAbs 1 :=
    magnitudeBits_ofMagnitude (nearestBits_lt _ _) _
  have hnear := units_nearest hn hbits
  have hself := natAbs_signedUnits_sub (ofInt n) (n * unitsOfOne)
  have hscaled : (n * unitsOfOne : Int).natAbs = n.natAbs * unitsOfOne := Int.natAbs_mul _ _
  rw [if_pos hsign, hscaled] at hself
  refine ⟨isFinite_ofInt hn, fun y _ => ?_, fun y _ hne htie => ?_⟩
  · have hle := (hnear y).1
    rw [hself, natAbs_signedUnits_sub y, hscaled]
    unfold Nat.dist at *
    split <;> omega
  · rw [hself, natAbs_signedUnits_sub y, hscaled] at htie
    split at htie
    next hsame =>
      refine (hnear y).2 (fun hunits => hne ?_) htie
      rw [signedUnits, signedUnits, hunits, hsame, hsign]
    next =>
      -- A number of the other sign is as near only if it is zero.
      have hle := (hnear y).1
      have hzero := (hnear zero).1
      rw [show zero.units = 0 by decide] at hzero
      have hy : y.units = 0 := by unfold Nat.dist at *; omega
      refine (hnear y).2 (fun hunits => hne ?_) (by unfold Nat.dist at *; omega)
      simp [signedUnits, hy, ← hunits]

/-! ## Comparison -/

theorem equal_iff {x y : Binary64} : x.equal y = true ↔
    x.isNaN = false ∧ y.isNaN = false ∧ (x = y ∨ x.isZero = true ∧ y.isZero = true) := by
  obtain ⟨xs⟩ := x
  obtain ⟨ys⟩ := y
  simp [equal, and_assoc]

/-- **Transitive.** Floats that equal the same float are equal. -/
theorem equal_trans {x y z : Binary64} (h : x.equal y = true) (h' : y.equal z = true) :
    x.equal z = true := by
  rw [equal_iff] at *
  obtain ⟨hx, -, hxy⟩ := h
  obtain ⟨-, hz, hyz⟩ := h'
  refine ⟨hx, hz, ?_⟩
  obtain rfl | ⟨hx, hy⟩ := hxy
  · exact hyz
  · obtain rfl | ⟨-, hz⟩ := hyz
    · exact .inr ⟨hx, hy⟩
    · exact .inr ⟨hx, hz⟩

theorem units_of_equal {x y : Binary64} (h : x.equal y = true) : x.units = y.units := by
  obtain ⟨-, -, rfl | ⟨hx, hy⟩⟩ := equal_iff.1 h
  · rfl
  · simp only [isZero, decide_eq_true_eq] at hx hy
    exact units_congr (hx.trans hy.symm)

/-- **No two integers are one float** up to the limit. -/
theorem eq_of_equal_ofInt {m n : Int} (hm : m.natAbs ≤ exactLimit) (hn : n.natAbs ≤ exactLimit)
    (h : (ofInt m).equal (ofInt n) = true) : m = n := by
  have hunits := units_of_equal h
  rw [ofInt, ofInt, units_ofRatio hm, units_ofRatio hn] at hunits
  have habs : m.natAbs = n.natAbs := Nat.eq_of_mul_eq_mul_right (by decide) hunits
  obtain ⟨-, -, heq | ⟨hzero, -⟩⟩ := equal_iff.1 h
  · have hsign := congrArg isNegative heq
    rw [isNegative_ofInt, isNegative_ofInt, decide_eq_decide] at hsign
    omega
  · have : (ofInt m).units = 0 := by
      rw [units_congr (y := zero) (by rw [of_decide_eq_true hzero]; rfl)]
      decide
    rw [ofInt, units_ofRatio hm] at this
    have : m.natAbs = 0 := (Nat.mul_eq_zero.1 this).resolve_right (by decide)
    omega

end Stencil.Binary64
