import Mathlib
import Stencil.Json.Reader
import Stencil.Proofs.Value.Canonical

/-!
# Integers and strings in JSON

What is written for an integer or a string is read back, whatever comes behind it in an array or an
object. Text does not tell the kind of an integer, so that it is read as what its sign says.
A string is read back as it is, whether its characters are spelled as themselves or by escapes.

Results:
* `number_unsigned`, `number_signed`: integers are read back, each of the kind that its sign says.
* `escape?_or_plain`: what is written for a character of a string.
* `string_jsonString`: strings are read back.
-/

namespace Stencil.Json

open Text (startsWithDigit)

/-- Behind an item of an array or an object there is a comma or the closing bracket, and behind a
whole text there is nothing. -/
def Ends (rest : List Char) : Prop := ∀ c, rest.head? = some c → c = ',' ∨ c = ']' ∨ c = '\x7d'

theorem ends_nil : Ends [] := by simp [Ends]

theorem ends_cons {c : Char} (h : c = ',' ∨ c = ']' ∨ c = '\x7d') (cs : List Char) :
    Ends (c :: cs) := by
  intro d hd
  cases hd
  exact h

variable {rest : List Char}

/-! ## Integers -/

theorem startsWithDigit_ends (h : Ends rest) : startsWithDigit rest = false := by
  cases rest with
  | nil => rfl
  | cons c cs => rcases h c rfl with rfl | rfl | rfl <;> rfl

theorem integerEnd_ends (h : Ends rest) (negative : Bool) (n : Nat) :
    integerEnd negative n 0 rest = .ok (integer negative n, rest) := by
  cases rest with
  | nil => rfl
  | cons c cs => rcases h c rfl with rfl | rfl | rfl <;> rfl

theorem le_ofDigitChars (n : Nat) (digits : List Char) : n ≤ Nat.ofDigitChars 10 digits n := by
  rw [Nat.ofDigitChars_eq_ofDigitChars_zero]
  have hpow : 0 < 10 ^ digits.length := Nat.pow_pos (by decide)
  have hmul : n ≤ 10 ^ digits.length * n := Nat.le_mul_of_pos_left n hpow
  omega

/-- Digits are taken up to the last one if the integer is in range. -/
theorem takeDigits_append {digits : List Char} (hdigits : ∀ c ∈ digits, c.isDigit = true)
    (h : Ends rest) (n : Nat) (hn : Nat.ofDigitChars 10 digits n < UInt64.size) :
    takeDigits n (digits ++ rest) = (Nat.ofDigitChars 10 digits n, digits.length, rest) := by
  induction digits generalizing n with
  | nil =>
    cases rest with
    | nil => rfl
    | cons c cs =>
      have hc : c.isDigit = false := startsWithDigit_ends h
      simp [takeDigits, hc]
  | cons c digits ih =>
    obtain ⟨hc, hdigits⟩ := List.forall_mem_cons.1 hdigits
    rw [Nat.ofDigitChars_cons] at hn ⊢
    have hlt : 10 * n + digitValue c < UInt64.size := (le_ofDigitChars _ digits).trans_lt hn
    rw [List.cons_append, takeDigits, if_pos ⟨hc, hlt⟩, digitValue, ih hdigits _ hn]
    rfl

theorem dropDigits_ends (h : Ends rest) : dropDigits rest = (0, rest) := by
  cases rest with
  | nil => rfl
  | cons c cs =>
    have hc : c.isDigit = false := startsWithDigit_ends h
    simp [dropDigits, hc]

theorem toDigits_isDigit {n : Nat} {c : Char} (h : c ∈ Nat.toDigits 10 n) : c.isDigit = true :=
  Nat.isDigit_of_mem_toDigits (by decide) (by decide) h

/-- What is written for a natural number begins with a digit. -/
theorem exists_digit_cons (n : Nat) : ∃ c cs, Nat.toDigits 10 n = c :: cs ∧ c.isDigit = true := by
  obtain ⟨c, cs, hcs⟩ := List.exists_cons_of_ne_nil (Nat.toDigits_ne_nil (b := 10) (n := n))
  exact ⟨c, cs, hcs, toDigits_isDigit (hcs ▸ List.mem_cons_self)⟩

/-- Only zero is written with a zero in front. -/
theorem toDigits_eq_cons {n : Nat} (hn : n ≠ 0) :
    ∃ c cs, Nat.toDigits 10 n = c :: cs ∧ c ≠ '0' := by
  induction n using Nat.strongRecOn with
  | ind n ih =>
    rw [Nat.toDigits_eq_if (by decide)]
    split
    · exact ⟨_, _, rfl, fun h => hn (Nat.digitChar_eq_zero.1 h)⟩
    · obtain ⟨c, cs, hcs, hc⟩ := ih (n / 10) (by omega) (by omega)
      exact ⟨c, cs ++ [(n % 10).digitChar], by rw [hcs, List.cons_append], hc⟩

theorem magnitude_toDigits (h : Ends rest) (negative : Bool) {n : Nat} (hn : n < UInt64.size) :
    magnitude negative (Nat.toDigits 10 n ++ rest) = .ok (integer negative n, rest) := by
  by_cases hzero : n = 0
  · subst hzero
    rw [Nat.toDigits_zero, List.singleton_append, magnitude,
      if_neg (by simp [startsWithDigit_ends h]), integerEnd_ends h]
  · obtain ⟨c, cs, hcs, hc⟩ := toDigits_eq_cons hzero
    have htake : takeDigits 0 (Nat.toDigits 10 n ++ rest) =
        (n, (Nat.toDigits 10 n).length, rest) := by
      rw [takeDigits_append (fun _ => toDigits_isDigit) h 0
        (by rwa [Nat.ofDigitChars_ten_toDigits]), Nat.ofDigitChars_ten_toDigits]
    have hstart : startsWithDigit (Nat.toDigits 10 n ++ rest) = true := by
      obtain ⟨d, ds, hds, hd⟩ := exists_digit_cons n
      rw [hds]
      exact hd
    rw [magnitude, if_pos hstart, htake]
    · simp only [dropDigits_ends h, integerEnd_ends h]
    · rintro cs' hcs'
      rw [hcs] at hcs'
      exact hc (List.cons.inj hcs').1

theorem number_integerText (h : Ends rest) {n : Int} (hn : n.natAbs < UInt64.size) :
    number (Number.integerText n ++ rest) = .ok (integer (n < 0) n.natAbs, rest) := by
  rw [Number.integerText]
  split
  · rename_i hneg
    rw [decide_eq_true hneg]
    exact magnitude_toDigits h true hn
  · rename_i hneg
    rw [decide_eq_false hneg, number, magnitude_toDigits h false hn]
    intro cs hcs
    obtain ⟨c, ds, hds, hc⟩ := exists_digit_cons n.natAbs
    rw [hds] at hcs
    rw [(List.cons.inj hcs).1] at hc
    contradiction

theorem integer_unsigned (k : UInt64) :
    integer ((k.toNat : Int) < 0) (k.toNat : Int).natAbs = .unsigned k := by
  have hk : ¬(k.toNat : Int) < 0 := by omega
  simp [integer, decide_eq_false hk]

/-- A signed integer that is not negative is read as an unsigned one. -/
theorem integer_signed (k : Int64) :
    integer (k.toInt < 0) k.toInt.natAbs = (Content.signed k).told := by
  by_cases hk : 0 ≤ k.toInt
  · have habs : k.toInt.natAbs = k.toInt.toNat := by omega
    rw [Content.told_of_nonneg hk, integer, decide_eq_false (by omega), habs]
    rfl
  · have hlow := k.le_toInt
    have habs : -(k.toInt.natAbs : Int) = k.toInt := by omega
    have hrange : ¬(k.toInt.natAbs = 0 ∨ Number.signedLimit < k.toInt.natAbs) := by
      simp only [Number.signedLimit]
      omega
    rw [Content.told_of_neg hk, integer, decide_eq_true (by omega), if_neg (by simp),
      if_neg hrange, habs, Int64.ofInt_toInt]

/-- **Integers** are read back, each of the kind that its sign says. -/
theorem number_unsigned (h : Ends rest) (k : UInt64) :
    number (Number.integerText k.toNat ++ rest) = .ok (.unsigned k, rest) := by
  rw [number_integerText h (Number.natAbs_lt_of_toInt? (a := .unsigned k) rfl), integer_unsigned]

theorem number_signed (h : Ends rest) (k : Int64) :
    number (Number.integerText k.toInt ++ rest) = .ok ((Content.signed k).told, rest) := by
  rw [number_integerText h (Number.natAbs_lt_of_toInt? (a := .signed k) rfl), integer_signed]

/-! ## Strings -/

/-- How an escape spells a control character that has no name, behind the `u`. -/
def controlDigits (n : Nat) : List Char :=
  if n < 16 then ['0', '0', '0'] ++ Text.hexDigits n else ['0', '0'] ++ Text.hexDigits n

theorem takeHex?_controlDigits {n : Nat} (hn : n < 32) (cs : List Char) :
    Text.takeHex? 4 (controlDigits n ++ cs) = some (n, cs) := by
  have hdigits : ∀ n < 32, (controlDigits n).length = 4 ∧
      (controlDigits n).all (fun c => (Text.hexValue? c).isSome) = true ∧
        Text.numeral 16 (controlDigits n) = n := by decide
  obtain ⟨hlength, hall, hvalue⟩ := hdigits n hn
  rw [Text.takeHex?, List.take_left' hlength, List.drop_left' hlength, if_pos ⟨hlength, hall⟩,
    hvalue]

theorem unicode?_controlDigits {c : Char} (hc : c.toNat < 32) (cs : List Char) :
    unicode? (controlDigits c.toNat ++ cs) = some (c, cs) := by
  have hlow : ¬(0xD800 ≤ c.toNat ∧ c.toNat < 0xDC00) := by omega
  have hhigh : ¬(0xDC00 ≤ c.toNat ∧ c.toNat < 0xE000) := by omega
  rw [unicode?, takeHex?_controlDigits hc]
  simp only [Option.bind_eq_bind, Option.bind_some, if_neg hlow, if_neg hhigh, Char.ofNat_toNat]
  rfl

/-- The characters whose escape is a single character. -/
def named : List Char := ['"', '\\', '\x08', '\x0c', '\n', '\r', '\t']

theorem jsonChar_named {c : Char} (h : c ∈ named) :
    ∃ e, Content.jsonChar c = ['\\', e] ∧ ∀ cs, escape? (e :: cs) = some (c, cs) := by
  simp only [named, List.mem_cons, List.not_mem_nil, or_false] at h
  rcases h with rfl | rfl | rfl | rfl | rfl | rfl | rfl
  · exact ⟨'"', rfl, fun _ => rfl⟩
  · exact ⟨'\\', rfl, fun _ => rfl⟩
  · exact ⟨'b', rfl, fun _ => rfl⟩
  · exact ⟨'f', rfl, fun _ => rfl⟩
  · exact ⟨'n', rfl, fun _ => rfl⟩
  · exact ⟨'r', rfl, fun _ => rfl⟩
  · exact ⟨'t', rfl, fun _ => rfl⟩

/-- Any other character is spelled by its code if it is a control character, or stands for
itself. -/
theorem jsonChar_of_not_named {c : Char} (h : c ∉ named) :
    Content.jsonChar c =
      if c.toNat < 32 then '\\' :: 'u' :: controlDigits c.toNat else [c] := by
  simp only [named, List.mem_cons, List.not_mem_nil, or_false, not_or] at h
  obtain ⟨hquote, hslash, hb, hf, hn, hr, ht⟩ := h
  rw [Content.jsonChar, if_neg hquote, if_neg hslash, if_neg hb, if_neg hf, if_neg hn, if_neg hr,
    if_neg ht, controlDigits]
  by_cases hlow : c.toNat < 16
  · rw [if_pos hlow, if_pos (by omega), if_pos hlow]
    rfl
  · rw [if_neg hlow, if_neg hlow]
    rfl

/-- A character of a string is written as an escape that spells it, or as itself if it may stand in
a string. -/
theorem escape?_or_plain (c : Char) :
    (∃ spelled, Content.jsonChar c = '\\' :: spelled ∧
      ∀ cs, escape? (spelled ++ cs) = some (c, cs)) ∨
    (Content.jsonChar c = [c] ∧ c ≠ '"' ∧ c ≠ '\\' ∧ ¬c < ' ') := by
  by_cases hnamed : c ∈ named
  · obtain ⟨e, hspelled, hescape⟩ := jsonChar_named hnamed
    exact .inl ⟨[e], hspelled, hescape⟩
  by_cases hcontrol : c.toNat < 32
  · refine .inl ⟨'u' :: controlDigits c.toNat, ?_, unicode?_controlDigits hcontrol⟩
    rw [jsonChar_of_not_named hnamed, if_pos hcontrol]
  · refine .inr ⟨?_, ?_, ?_, hcontrol⟩
    · rw [jsonChar_of_not_named hnamed, if_neg hcontrol]
    · rintro rfl
      exact hnamed (by decide)
    · rintro rfl
      exact hnamed (by decide)

theorem jsonChar_ne_nil (c : Char) : Content.jsonChar c ≠ [] := by
  rcases escape?_or_plain c with ⟨spelled, hspelled, -⟩ | ⟨hplain, -⟩
  · rw [hspelled]
    exact List.cons_ne_nil _ _
  · rw [hplain]
    exact List.cons_ne_nil _ _

theorem stringEnd_jsonChar (c : Char) (n : Nat) (cs : List Char) :
    stringEnd (n + 1) (Content.jsonChar c ++ cs) =
      (stringEnd n cs).map fun (s, rest) => (c :: s, rest) := by
  rcases escape?_or_plain c with ⟨spelled, hspelled, hescape⟩ | ⟨hplain, hquote, hslash, hblank⟩
  · rw [hspelled, List.cons_append, stringEnd, hescape]
  · rw [hplain, List.singleton_append, stringEnd, if_neg hblank]
    · exact hquote
    · exact hslash

theorem stringEnd_flatMap (rest : List Char) : ∀ (s : List Char) (n : Nat), s.length < n →
    stringEnd n (s.flatMap Content.jsonChar ++ '"' :: rest) = .ok (s, rest)
  | [], n + 1, _ => rfl
  | c :: s, n + 1, h => by
    have hs := stringEnd_flatMap rest s n (Nat.lt_of_succ_lt_succ h)
    rw [List.flatMap_cons, List.append_assoc, stringEnd_jsonChar, hs]
    rfl

/-- A string is no longer than what is written for it, which the reader takes for its bound. -/
theorem length_le_flatMap : ∀ s : List Char, s.length ≤ (s.flatMap Content.jsonChar).length
  | [] => Nat.le_refl 0
  | c :: s => by
    have hc := List.length_pos_iff.2 (jsonChar_ne_nil c)
    have hs := length_le_flatMap s
    rw [List.flatMap_cons, List.length_append, List.length_cons]
    omega

/-- **Strings** are read back, behind their first quote. -/
theorem string_jsonString (s : String) (rest : List Char) :
    string (s.toList.flatMap Content.jsonChar ++ '"' :: rest) = .ok (s, rest) := by
  have hlength :
      s.toList.length < (s.toList.flatMap Content.jsonChar ++ '"' :: rest).length + 1 := by
    have := length_le_flatMap s.toList
    rw [List.length_append]
    omega
  rw [string, stringEnd_flatMap rest _ _ hlength]
  exact congrArg (fun t => Except.ok (t, rest)) (String.ofList_toList)

end Stencil.Json
