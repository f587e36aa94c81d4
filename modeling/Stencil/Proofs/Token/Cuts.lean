import Stencil.Proofs.Text.Search
import Stencil.Proofs.Tree.Reading

/-!
# Cuts of the action lexer

The lexer passes characters. A program that holds the source as UTF-8 passes bytes: it searches the
bytes of the rest, takes single bytes from it and cuts it at the byte counts that come out. Here are
the handlers in that form, without a result where a cut is past the end or inside a character.

Results:
* `emit?_take`: a cut through the bytes of whole characters emits these characters.
* `handler?_eq`: in front of what a state faces, every cut is between characters, and the handler
  does what the one in characters does.
-/

namespace Stencil

namespace Cursor

/-- The rest of the source, cut off at the offset. -/
def rest? (c : Cursor) : Option (List Char) := Text.from? c.offset c.source

/-- Emits the next `n` bytes and goes on behind them. -/
def emit? {σ κ : Type} (c : Cursor) (kind : κ) (n : Nat) (state : σ) :
    Option (Machine.Transition σ Cursor (Token κ)) :=
  (c.advance? n).map fun (value, c') => ⟨[⟨kind, value, c.offset⟩], state, .ok c'⟩

theorem rest?_eq (c : Cursor) : c.rest? = some c.rest := Text.from?_append c.passed c.rest

theorem advance?_take (c : Cursor) (n : Nat) : c.advance? (Text.byteSize (c.rest.take n)) =
    some (String.ofList (c.rest.take n), c.skip n) := by
  have h := Text.splitBytes?_append (c.rest.take n) (c.rest.drop n)
  rw [List.take_append_drop] at h
  rw [advance?, h]
  rfl

theorem emit?_take {σ κ : Type} (c : Cursor) (kind : κ) (n : Nat) (state : σ) :
    c.emit? kind (Text.byteSize (c.rest.take n)) state =
      some ⟨[c.token kind n], state, .ok (c.skip n)⟩ := by
  rw [emit?, advance?_take]
  rfl

/-- The same for a word at the front of the rest. -/
theorem emit?_word {σ κ : Type} {p rest : List Char} (word : List Char) {n : Nat}
    (hn : n = Text.byteSize word) (kind : κ) (state : σ) :
    (Cursor.mk p (word ++ rest)).emit? kind n state =
      some ⟨[(Cursor.mk p (word ++ rest)).token kind word.length], state,
        .ok ((Cursor.mk p (word ++ rest)).skip word.length)⟩ := by
  have h := emit?_take ⟨p, word ++ rest⟩ kind word.length state
  rw [List.take_left] at h
  rwa [hn]

end Cursor
namespace Action

open Stencil.Grammar (opening closing)

/-- The error is where the offset of the cursor is in its source. -/
def fail? (c : Cursor) (message : String) : Option Step := do
  let rest ← c.rest?
  let p := Text.positionAt c.source c.offset
  return ⟨[], .text, .failed c (.make .lex message [("line", toString p.line),
    ("column", toString p.column), ("near", Text.quoted (String.ofList (rest.take 12)))])⟩

/-- The first byte is in no name. -/
def endsName? (bs : List UInt8) : Bool := bs.head?.any fun b => !isNameChar (Char.ofUInt8 b)

/-- The number of bytes before the first that is in no name, or to the end. -/
def nameBytes (cs : List Char) : Nat :=
  (Text.seek endsName? (Text.utf8 cs)).getD (Text.byteSize cs)

def text? (c : Cursor) : Option Step := do
  let rest ← c.rest?
  match Text.seek (Text.utf8 opening).isPrefixOf (Text.utf8 rest) with
  | some 0 => return goto c .leftDelim
  | some n => c.emit? .text n .leftDelim
  | none =>
    if rest.isEmpty then c.emit? .eof 0 .eof else c.emit? .text (Text.byteSize rest) .text

def inside? (c : Cursor) : Option Step := do
  let rest ← c.rest?
  let (_, c) ← c.advance? (Text.byteSize rest - Text.byteSize (rest.dropWhile isBlank))
  let rest ← c.rest?
  if rest.isEmpty then fail? c "unclosed action"
  else if closing.isPrefixOf rest then return goto c .rightDelim
  else do
    let first ← (Text.utf8 rest).head?
    if Char.ofUInt8 first = '|' then c.emit? .pipe 1 .inside
    else if Char.ofUInt8 first = '.' then do
      let name ← Text.from? 1 rest
      if 0 < nameBytes name then return goto c .field
      else fail? c "unrecognized character in action"
    else if isNameStart (Char.ofUInt8 first) then return goto c .identifier
    else fail? c "unrecognized character in action"

/-- The handlers with all their searches and cuts in bytes. -/
def handler? (state : State) (c : Cursor) : Option Step :=
  match state with
  | .text => text? c
  | .leftDelim => c.emit? .leftDelim 2 .inside
  | .inside => inside? c
  | .field => do
    let rest ← c.rest?
    let name ← Text.from? 1 rest
    c.emit? .field (1 + nameBytes name) .inside
  | .identifier => do
    let rest ← c.rest?
    c.emit? .identifier (nameBytes rest) .inside
  | .rightDelim => c.emit? .rightDelim 2 .text
  | .eof => return goto c .eof

/-- What is in front of the lexer in a state. -/
def Faces : State → List Char → Prop
  | .leftDelim, rest => opening <+: rest
  | .field, rest => ∃ name, rest = '.' :: name
  | .rightDelim, rest => closing <+: rest
  | .text, _ | .inside, _ | .identifier, _ | .eof, _ => True

/-! ## Names -/

theorem asciiOnly_isNameChar : Text.AsciiOnly isNameChar :=
  (Text.asciiOnly_isAlpha.or Text.asciiOnly_isDigit).or (Text.asciiOnly_eq (by decide))

theorem asciiOnly_isNameStart : Text.AsciiOnly isNameStart :=
  Text.asciiOnly_isAlpha.or (Text.asciiOnly_eq (by decide))

/-- The first character is in no name. -/
def endsName (cs : List Char) : Bool := cs.head?.any fun c => !isNameChar c

theorem seek_endsName (cs : List Char) : Text.seek endsName? (Text.utf8 cs) =
    (Text.seek endsName cs).map fun i => Text.byteSize (cs.take i) := by
  refine Text.seek_utf8 (fun cs => ?_) (fun c cs us vs hq hc => ?_) cs
  · cases cs with
    | nil => rfl
    | cons c cs =>
      obtain ⟨b, bs, hb, hclass⟩ := Text.utf8_head c cs
      simp [hb, endsName?, endsName, hclass _ asciiOnly_isNameChar]
  · simp [endsName, asciiOnly_isNameChar c hc] at hq

theorem nameLength_eq (cs : List Char) :
    nameLength cs = (Text.seek endsName cs).getD cs.length := by
  induction cs with
  | nil => rfl
  | cons c cs ih =>
    unfold nameLength at ih ⊢
    rw [Text.seek]
    cases hc : isNameChar c with
    | true => simp [hc, endsName, ih]
    | false => simp [hc, endsName]

theorem nameBytes_eq (cs : List Char) :
    nameBytes cs = Text.byteSize (cs.take (nameLength cs)) := by
  rw [nameBytes, seek_endsName, nameLength_eq]
  cases Text.seek endsName cs <;> simp

theorem nameBytes_pos (cs : List Char) : 0 < nameBytes cs ↔ 0 < nameLength cs := by
  have hle : nameLength cs ≤ cs.length := (List.takeWhile_prefix isNameChar).length_le
  rw [nameBytes_eq]
  constructor
  · intro h
    apply Nat.pos_of_ne_zero
    intro hzero
    simp [hzero] at h
  · intro h
    exact Text.byteSize_pos (by rw [← List.length_pos_iff, List.length_take]; omega)

/-! ## Handlers -/

theorem fail?_eq (c : Cursor) (message : String) : fail? c message = some (fail c message) := by
  have h : Text.positionAt c.source c.offset = c.position := Text.positionAt_append c.passed c.rest
  simp [fail?, Cursor.rest?_eq, h, fail, Cursor.error]

theorem literalLength_eq (cs : List Char) :
    literalLength cs = (Text.seek opening.isPrefixOf cs).getD cs.length := by
  induction cs with
  | nil => rfl
  | cons c cs ih =>
    have hopens : opensAction (c :: cs) = opening.isPrefixOf (c :: cs) := by
      rw [Bool.eq_iff_iff, opensAction_iff, List.isPrefixOf_iff_prefix]
    rw [literalLength, Text.seek, hopens]
    split
    · rfl
    · rw [ih]
      cases Text.seek opening.isPrefixOf cs <;> simp

theorem text?_eq (c : Cursor) : text? c = some (text c) := by
  have hlen := literalLength_eq c.rest
  rw [text?, Cursor.rest?_eq]
  simp only [Option.bind_eq_bind, Option.bind_some,
    Text.find_utf8 opening (by decide) rfl]
  cases hs : Text.seek opening.isPrefixOf c.rest with
  | none =>
    rw [hs, Option.getD_none] at hlen
    by_cases hne : c.rest = []
    · have h := c.emit?_take Kind.eof 0 State.eof
      simp only [List.take_zero, Text.byteSize_nil] at h
      rw [hne] at hlen
      simp [text, hlen, hne, h, emit]
    · have h := c.emit?_take Kind.text c.rest.length State.text
      obtain ⟨n, hn⟩ : ∃ n, c.rest.length = n + 1 :=
        Nat.exists_eq_add_one_of_ne_zero (by simpa using hne)
      rw [List.take_length] at h
      simp [text, hlen, hn, hne, h, emit]
  | some i =>
    rw [hs, Option.getD_some] at hlen
    have hopens := Text.seek_eq_some hs
    cases i with
    | zero =>
      have hne : c.rest ≠ [] := by rintro hne; simp [hne] at hopens
      simp [text, hlen, hne]
    | succ i =>
      have hdrop : c.rest.drop (i + 1) ≠ [] := by rintro hne; simp [hne] at hopens
      have hne : c.rest.take (i + 1) ≠ [] := by rintro hne; simp_all
      have h := c.emit?_take Kind.text (i + 1) State.leftDelim
      obtain ⟨n, hn⟩ := Nat.exists_eq_add_one_of_ne_zero (Nat.ne_of_gt (Text.byteSize_pos hne))
      rw [hn] at h
      simp only [Option.map_some, hn, text, hlen, h]
      rw [if_neg (by simpa using hdrop)]
      rfl

/-- The blanks that are left out. -/
theorem blank_bytes (cs : List Char) :
    Text.byteSize cs - Text.byteSize (cs.dropWhile isBlank) =
      Text.byteSize (cs.take (cs.takeWhile isBlank).length) := by
  have h := congrArg Text.byteSize (List.takeWhile_append_dropWhile (p := isBlank) (l := cs))
  rw [Text.byteSize_append] at h
  rw [List.prefix_iff_eq_take.1 (List.takeWhile_prefix isBlank)] at h
  omega

theorem inside?_eq (c : Cursor) : inside? c = some (inside c) := by
  rw [inside?, Cursor.rest?_eq, inside]
  simp only [Option.bind_eq_bind, Option.bind_some, blank_bytes, Cursor.advance?_take,
    Cursor.rest?_eq]
  generalize c.skip (c.rest.takeWhile isBlank).length = c
  obtain ⟨p, rest⟩ := c
  cases rest with
  | nil => simp [closesAction, fail?_eq]
  | cons first cs =>
    have hclose : closing.isPrefixOf (first :: cs) = closesAction (first :: cs) := by
      rw [Bool.eq_iff_iff, closesAction_iff, List.isPrefixOf_iff_prefix]
    obtain ⟨b, bs, hb, hclass⟩ := Text.utf8_head first cs
    simp only [List.isEmpty_cons, Bool.false_eq_true, if_false, hclose]
    cases closesAction (first :: cs) with
    | true => rfl
    | false =>
      simp only [hb, List.head?_cons, Option.bind_some, Bool.false_eq_true, if_false]
      have hpipe := hclass _ (Text.asciiOnly_eq (d := '|') (by decide))
      have hdot := hclass _ (Text.asciiOnly_eq (d := '.') (by decide))
      rw [decide_eq_decide] at hpipe hdot
      simp only [hpipe, hdot, hclass _ asciiOnly_isNameStart]
      by_cases h1 : first = '|'
      · subst h1
        exact Cursor.emit?_word ['|'] (by decide) _ _
      by_cases h2 : first = '.'
      · subst h2
        have hfrom : Text.from? 1 ('.' :: cs) = some cs := Text.from?_append ['.'] cs
        simp only [h1, if_false, if_true, hfrom, Option.bind_some, nameBytes_pos, fail?_eq]
        split <;> rfl
      · simp only [h1, h2, if_false, fail?_eq]
        split <;> rfl

theorem handler?_eq {state : State} {c : Cursor} (h : Faces state c.rest) :
    handler? state c = some (handler state (.ok c)) := by
  obtain ⟨p, rest⟩ := c
  cases state with
  | text => exact text?_eq _
  | leftDelim =>
    obtain ⟨after, rfl⟩ : opening <+: rest := h
    exact Cursor.emit?_word _ (by decide) _ _
  | rightDelim =>
    obtain ⟨after, rfl⟩ : closing <+: rest := h
    exact Cursor.emit?_word _ (by decide) _ _
  | eof => rfl
  | identifier =>
    have := Cursor.emit?_take ⟨p, rest⟩ Kind.identifier (nameLength rest) State.inside
    rw [← nameBytes_eq] at this
    rw [handler?, Cursor.rest?_eq]
    exact this
  | field =>
    obtain ⟨name, rfl⟩ : ∃ name, rest = '.' :: name := h
    have hfrom : Text.from? 1 ('.' :: name) = some name := Text.from?_append ['.'] name
    have := Cursor.emit?_take ⟨p, '.' :: name⟩ Kind.field (1 + nameLength name)
      State.inside
    rw [Nat.add_comm 1, List.take_succ_cons, Text.byteSize_cons, ← nameBytes_eq,
      Nat.add_comm (nameLength name)] at this
    simp only [handler?, Cursor.rest?_eq, Option.bind_eq_bind, Option.bind_some, hfrom]
    exact this
  | inside => exact inside?_eq _

end Action
end Stencil
