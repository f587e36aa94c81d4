/-!
# Sizes and cuts in bytes

Positions in a text are counted in bytes of its UTF-8 form, while texts are taken apart as lists of
characters. `byteSize` measures such a list, `splitBytes?` cuts it at a byte count, and refuses a
cut past the end or inside a character. `utf8` gives its bytes, and `decodeLossy` reads any bytes as
text.

Results:
* `byteSize_append`: sizes add up.
* `byteSize_toList`: the size of a string's characters is that of the string.
* `splitBytes?_eq_some_iff`: a cut gives back the text in two parts, the first of the size asked
  for.
-/

namespace Stencil.Text

/-- The number of bytes of the UTF-8 form. -/
def byteSize : List Char → Nat
  | [] => 0
  | c :: cs => c.utf8Size + byteSize cs

@[simp] theorem byteSize_nil : byteSize [] = 0 := rfl

@[simp] theorem byteSize_cons (c : Char) (cs : List Char) :
    byteSize (c :: cs) = c.utf8Size + byteSize cs := rfl

@[simp] theorem byteSize_append (cs ds : List Char) :
    byteSize (cs ++ ds) = byteSize cs + byteSize ds := by
  induction cs with
  | nil => simp
  | cons c cs ih => simp [ih, Nat.add_assoc]

theorem utf8ByteSize_ofList (cs : List Char) : (String.ofList cs).utf8ByteSize = byteSize cs := by
  induction cs with
  | nil => rfl
  | cons c cs ih => rw [String.ofList_cons, String.utf8ByteSize_append, ih]; simp

theorem byteSize_toList (s : String) : byteSize s.toList = s.utf8ByteSize := by
  rw [← utf8ByteSize_ofList, String.ofList_toList]

/-- The first `n` bytes and the rest, if both are whole characters. -/
def splitBytes? : Nat → List Char → Option (List Char × List Char)
  | 0, cs => some ([], cs)
  | _ + 1, [] => none
  | n + 1, c :: cs =>
    if c.utf8Size ≤ n + 1 then
      (splitBytes? (n + 1 - c.utf8Size) cs).map fun (taken, rest) => (c :: taken, rest)
    else none

theorem splitBytes?_append (taken rest : List Char) :
    splitBytes? (byteSize taken) (taken ++ rest) = some (taken, rest) := by
  induction taken with
  | nil => simp [splitBytes?]
  | cons c cs ih =>
    have hc : 0 < c.utf8Size := c.utf8Size_pos
    obtain ⟨n, hn⟩ : ∃ n, byteSize (c :: cs) = n + 1 := ⟨c.utf8Size + byteSize cs - 1, by
      rw [byteSize_cons]; omega⟩
    have hn' : n + 1 = c.utf8Size + byteSize cs := by rw [← hn, byteSize_cons]
    have hs : n + 1 - c.utf8Size = byteSize cs := by omega
    have hle : c.utf8Size ≤ n + 1 := by omega
    rw [hn, List.cons_append, splitBytes?, if_pos hle, hs, ih]
    rfl

theorem splitBytes?_eq_some_iff {n : Nat} {cs taken rest : List Char} :
    splitBytes? n cs = some (taken, rest) ↔ cs = taken ++ rest ∧ byteSize taken = n := by
  constructor
  · intro h
    induction cs generalizing n taken with
    | nil =>
      cases n with
      | zero => simp [splitBytes?] at h; obtain ⟨rfl, rfl⟩ := h; simp
      | succ n => simp [splitBytes?] at h
    | cons c cs ih =>
      cases n with
      | zero => simp [splitBytes?] at h; obtain ⟨rfl, rfl⟩ := h; simp
      | succ n =>
        simp only [splitBytes?] at h
        split at h
        · rename_i hle
          obtain ⟨⟨t, r⟩, hr, heq⟩ := Option.map_eq_some_iff.1 h
          simp only [Prod.mk.injEq] at heq
          obtain ⟨rfl, rfl⟩ := heq
          obtain ⟨rfl, hb⟩ := ih hr
          exact ⟨rfl, by rw [byteSize_cons, hb]; omega⟩
        · cases h
  · rintro ⟨rfl, rfl⟩
    exact splitBytes?_append taken rest

/-! ## Bytes as text -/

/-- The UTF-8 form. -/
def utf8 (cs : List Char) : List UInt8 := cs.flatMap String.utf8EncodeChar

@[simp] theorem utf8_nil : utf8 [] = [] := rfl

@[simp] theorem utf8_cons (c : Char) (cs : List Char) :
    utf8 (c :: cs) = String.utf8EncodeChar c ++ utf8 cs := rfl

@[simp] theorem utf8_append (cs ds : List Char) : utf8 (cs ++ ds) = utf8 cs ++ utf8 ds :=
  List.flatMap_append

/-- What a lead byte of UTF-8 says: how many bytes follow it, and the range of the first one. -/
def continuation? (lead : UInt8) : Option (Nat × UInt8 × UInt8) :=
  if 0xc2 ≤ lead && lead ≤ 0xdf then some (1, 0x80, 0xbf)
  else if lead == 0xe0 then some (2, 0xa0, 0xbf)
  else if lead == 0xed then some (2, 0x80, 0x9f)
  else if 0xe1 ≤ lead && lead ≤ 0xef then some (2, 0x80, 0xbf)
  else if lead == 0xf0 then some (3, 0x90, 0xbf)
  else if 0xf1 ≤ lead && lead ≤ 0xf3 then some (3, 0x80, 0xbf)
  else if lead == 0xf4 then some (3, 0x80, 0x8f)
  else none

/-- Reads the bytes that must follow a lead byte: how many are good, and the code point so far. -/
def continued (low high : UInt8) (code : Nat) : Nat → List UInt8 → Nat × Nat
  | 0, _ => (0, code)
  | _ + 1, [] => (0, code)
  | n + 1, b :: bs =>
    if low ≤ b && b ≤ high then
      let (good, code) := continued 0x80 0xbf (code * 64 + b.toNat % 64) n bs
      (good + 1, code)
    else (0, code)

/-- Decodes UTF-8, with one replacement character for each longest start of a sequence that is cut
short and for each byte that starts none. -/
def decodeLossy (bytes : List UInt8) : List Char :=
  go bytes.length bytes
where
  go : Nat → List UInt8 → List Char
    | 0, _ => []
    | _ + 1, [] => []
    | fuel + 1, b :: bs =>
      if b < 0x80 then Char.ofNat b.toNat :: go fuel bs
      else match continuation? b with
        | none => '\uFFFD' :: go fuel bs
        | some (n, low, high) =>
          let lead := b.toNat % (1 <<< (6 - n))
          let (good, code) := continued low high lead n bs
          let c := if good = n then Char.ofNat code else '\uFFFD'
          c :: go fuel (bs.drop good)

end Stencil.Text
