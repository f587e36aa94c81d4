import Mathlib.Data.List.Basic
import Stencil.Proofs.Markup.Pieces
import Stencil.Proofs.Token.Cuts

/-!
# Cuts of the markup lexer

The handlers of the markup lexer with all their searches and cuts in bytes.

Results:
* `markupFrom?_eq`: the first `<` that begins markup, found byte by byte.
* `handler?_eq`: in front of what a state faces, every cut is between characters, and the handler
  does what the one in characters does.
-/

namespace Stencil.Markup

/-- The first of the bytes `<` at which markup begins, and the state that it begins. -/
def markupFrom? (cs : List Char) : List Nat → Option (Option (Nat × State))
  | [] => some none
  | i :: is => do
    let after ← Text.from? (i + 1) cs
    match (Text.utf8 after).head? with
    | none => markupFrom? cs is
    | some b =>
      if Char.ofUInt8 b = '/' then return some (i, .endTag)
      else if (Char.ofUInt8 b).isAlpha then return some (i, .startTag)
      else if Char.ofUInt8 b = '!' then do
        let here ← Text.from? i cs
        if Kind.comment.opening.isPrefixOf here then return some (i, .comment)
        else markupFrom? cs is
      else markupFrom? cs is

/-- The number of bytes through the first `>`, or to the end. -/
def tagBytes (cs : List Char) : Nat :=
  match Text.seek (Text.utf8 ['>']).isPrefixOf (Text.utf8 cs) with
  | some i => i + 1
  | none => Text.byteSize cs

def text? (c : Cursor) : Option Step := do
  let rest ← c.rest?
  match ← markupFrom? rest ((Text.utf8 rest).findIdxs (Char.ofUInt8 · = '<')) with
  | some (0, state) => return goto c state
  | some (n, state) => c.emit? .text n state
  | none =>
    if rest.isEmpty then c.emit? .eof 0 .eof else c.emit? .text (Text.byteSize rest) .text

def comment? (c : Cursor) : Option Step := do
  let rest ← c.rest?
  let body ← Text.from? 4 rest
  match Text.seek (Text.utf8 Kind.comment.closing).isPrefixOf (Text.utf8 body) with
  | some i => c.emit? .comment (4 + i + 3) .text
  | none => c.emit? .comment (Text.byteSize rest) .text

/-- The handlers with all their searches and cuts in bytes. -/
def handler? (state : State) (c : Cursor) : Option Step :=
  match state with
  | .text => text? c
  | .startTag => do
    let rest ← c.rest?
    c.emit? .startTag (tagBytes rest) .text
  | .endTag => do
    let rest ← c.rest?
    c.emit? .endTag (tagBytes rest) .text
  | .comment => comment? c
  | .eof => return goto c .eof

theorem tagBytes_eq (cs : List Char) : tagBytes cs = Text.byteSize (cs.take (tagLength cs)) := by
  have hlen : tagLength cs = match Text.seek ['>'].isPrefixOf cs with
      | some i => i + 1
      | none => cs.length := by
    induction cs with
    | nil => rfl
    | cons c cs ih =>
      by_cases hc : c = '>'
      · simp [tagLength, Text.seek, hc]
      · rw [tagLength, if_neg hc, ih, Text.seek]
        have hpre : ['>'].isPrefixOf (c :: cs) = false := by
          simp [List.isPrefixOf, beq_false_of_ne (Ne.symm hc)]
        rw [hpre]
        cases Text.seek ['>'].isPrefixOf cs <;> rfl
  rw [tagBytes, Text.find_utf8 _ (by decide) rfl, hlen]
  cases hs : Text.seek ['>'].isPrefixOf cs with
  | none => simp
  | some i =>
    have h := Text.byteSize_take_add (Text.seek_eq_some hs)
    exact h.symm

theorem commentEnd_eq (cs : List Char) : commentEnd cs =
    match Text.seek Kind.comment.closing.isPrefixOf cs with
      | some i => i + 3
      | none => cs.length := by
  fun_induction commentEnd cs with
  | case1 => rfl
  | case2 => rfl
  | case3 c cs hc ih =>
    have hpre : Kind.comment.closing.isPrefixOf (c :: cs) = false := by
      rw [Bool.eq_false_iff, Ne, List.isPrefixOf_iff_prefix]
      rintro ⟨rest, hrest⟩
      cases hrest
      exact hc rest rfl rfl
    rw [ih, Text.seek, hpre]
    cases Text.seek Kind.comment.closing.isPrefixOf cs <;> rfl

theorem comment?_eq (p body : List Char) :
    comment? ⟨p, Kind.comment.opening ++ body⟩ =
      some (handler .comment (.ok ⟨p, Kind.comment.opening ++ body⟩)) := by
  have hfrom : Text.from? 4 (Kind.comment.opening ++ body) = some body :=
    Text.from?_append Kind.comment.opening body
  have h := Cursor.emit?_take ⟨p, Kind.comment.opening ++ body⟩ Kind.comment (4 + commentEnd body)
    State.text
  have hbytes : Text.byteSize ((Kind.comment.opening ++ body).take (4 + commentEnd body)) =
      4 + Text.byteSize (body.take (commentEnd body)) := by
    rw [Nat.add_comm 4]
    show Text.byteSize ('<' :: '!' :: '-' :: '-' :: body.take (commentEnd body)) = _
    simp only [Text.byteSize_cons, ← Nat.add_assoc]
    rfl
  have hend := commentEnd_eq body
  rw [hbytes] at h
  rw [comment?, Cursor.rest?_eq]
  simp only [Option.bind_eq_bind, Option.bind_some, hfrom,
    Text.find_utf8 Kind.comment.closing (by decide) rfl]
  cases hs : Text.seek Kind.comment.closing.isPrefixOf body with
  | none =>
    simp only [hs] at hend
    rw [hend, List.take_length] at h
    have hall : Text.byteSize (Kind.comment.opening ++ body) = 4 + Text.byteSize body :=
      Text.byteSize_append _ _
    simp only [Option.map_none, hall, h]
    simp [handler, emit, Machine.Data.ok, Kind.opening, hend]
  | some i =>
    simp only [hs] at hend
    have hneedle := Text.byteSize_take_add (Text.seek_eq_some hs)
    have htake : body.take (i + 3) = body.take (i + Kind.comment.closing.length) := rfl
    rw [hend, htake, hneedle, ← Nat.add_assoc] at h
    refine h.trans ?_
    simp [handler, emit, Machine.Data.ok, Kind.opening, hend]

theorem findIdxs_of_ne {c : Char} (h : c ≠ '<') (n : Nat) :
    (String.utf8EncodeChar c).findIdxs (Char.ofUInt8 · = '<') n = [] := by
  rw [List.findIdxs_eq_nil_iff]
  intro b hb
  rw [decide_eq_false_iff_not]
  by_cases hc : c.toNat < 128
  · rw [Text.utf8EncodeChar_ascii hc, List.mem_singleton] at hb
    rw [hb, Text.ofUInt8_toUInt8 hc]
    exact h
  · have := Text.le_of_mem_utf8EncodeChar (Nat.not_lt.1 hc) b hb
    rintro hlt
    have : 128 ≤ (Char.ofUInt8 b).toNat := this
    rw [hlt] at this
    exact absurd this (by decide)

theorem markupAt_bang (cs : List Char) : markupAt ('<' :: '!' :: cs) =
    if Kind.comment.opening.isPrefixOf ('<' :: '!' :: cs) then some .comment else none := by
  split
  · rename_i h
    obtain ⟨rest, hrest⟩ := List.isPrefixOf_iff_prefix.1 h
    rw [← hrest]
    rfl
  · rename_i h
    cases hm : markupAt ('<' :: '!' :: cs) with
    | none => rfl
    | some state =>
      rcases markupAt_eq_some hm with ⟨-, c, rest, hc, hcs⟩ | ⟨-, rest, hcs⟩ | ⟨-, rest, hcs⟩
      · cases hcs
        exact absurd hc (by decide)
      · cases hcs
      · refine absurd (List.isPrefixOf_iff_prefix.2 ?_) h
        exact ⟨rest, hcs.symm⟩

theorem markupAt_plain {c : Char} (hslash : c ≠ '/') (halpha : c.isAlpha ≠ true) (hbang : c ≠ '!')
    (cs : List Char) : markupAt ('<' :: c :: cs) = none := by
  cases hm : markupAt ('<' :: c :: cs) with
  | none => rfl
  | some state =>
    rcases markupAt_eq_some hm with ⟨-, d, rest, hd, hcs⟩ | ⟨-, rest, hcs⟩ | ⟨-, rest, hcs⟩
    · cases hcs
      exact absurd hd halpha
    · cases hcs
      exact absurd rfl hslash
    · cases hcs
      exact absurd rfl hbang

/-- **One `<`.** What is behind it is told by the bytes. -/
theorem markupFrom?_cons (pre cs : List Char) (is : List Nat) :
    markupFrom? (pre ++ '<' :: cs) (Text.byteSize pre :: is) =
      match markupAt ('<' :: cs) with
      | some state => some (some (Text.byteSize pre, state))
      | none => markupFrom? (pre ++ '<' :: cs) is := by
  have hafter := Text.from?_append (pre ++ ['<']) cs
  rw [List.append_assoc, List.singleton_append, Text.byteSize_append] at hafter
  rw [markupFrom?, show Text.from? (Text.byteSize pre + 1) _ = _ from hafter]
  simp only [Option.bind_eq_bind, Option.bind_some, Text.from?_append]
  cases cs with
  | nil => rfl
  | cons c cs =>
    obtain ⟨b, bs, hb, hclass⟩ := Text.utf8_head c cs
    have hslash := hclass _ (Text.asciiOnly_eq (d := '/') (by decide))
    have hbang := hclass _ (Text.asciiOnly_eq (d := '!') (by decide))
    rw [decide_eq_decide] at hslash hbang
    simp only [hb, List.head?_cons, hslash, hbang, hclass _ Text.asciiOnly_isAlpha]
    by_cases h1 : c = '/'
    · subst h1
      rfl
    by_cases h2 : c.isAlpha = true
    · rw [if_neg h1, if_pos h2, markupAt_letter h2]
      rfl
    by_cases h3 : c = '!'
    · subst h3
      rw [if_neg h1, if_neg h2, if_pos rfl, markupAt_bang]
      split <;> rfl
    · rw [if_neg h1, if_neg h2, if_neg h3, markupAt_plain h1 h2 h3]

/-- Where the first markup of a text begins, in bytes with `pre` before it, and its state. -/
def firstMarkup (pre cs : List Char) : Option (Nat × State) :=
  (markupAt (cs.drop (plainLength cs))).map fun state =>
    (Text.byteSize (pre ++ cs.take (plainLength cs)), state)

theorem firstMarkup_of_some {cs : List Char} {state : State} (h : markupAt cs = some state)
    (pre : List Char) : firstMarkup pre cs = some (Text.byteSize pre, state) := by
  simp [firstMarkup, plainLength_of_markup h, h]

theorem firstMarkup_of_none {c : Char} {cs : List Char} (h : markupAt (c :: cs) = none)
    (pre : List Char) : firstMarkup pre (c :: cs) = firstMarkup (pre ++ [c]) cs := by
  simp [firstMarkup, plainLength_pos h]

theorem markupFrom?_eq : ∀ cs pre : List Char,
    markupFrom? (pre ++ cs) ((Text.utf8 cs).findIdxs (Char.ofUInt8 · = '<') (Text.byteSize pre)) =
      some (firstMarkup pre cs)
  | [], pre => rfl
  | c :: cs, pre => by
    have ih := markupFrom?_eq cs (pre ++ [c])
    rw [List.append_assoc, List.singleton_append, Text.byteSize_append, Text.byteSize_cons,
      Text.byteSize_nil, Nat.add_zero] at ih
    rw [Text.utf8_cons, List.findIdxs_append, String.length_utf8EncodeChar]
    by_cases hc : c = '<'
    · subst hc
      have hself : (String.utf8EncodeChar '<').findIdxs (Char.ofUInt8 · = '<')
          (Text.byteSize pre) = [Text.byteSize pre] := rfl
      rw [hself, List.singleton_append, markupFrom?_cons]
      cases hm : markupAt ('<' :: cs) with
      | some state => rw [firstMarkup_of_some hm]
      | none => rw [firstMarkup_of_none hm]; exact ih
    · rw [findIdxs_of_ne hc, List.nil_append, ih, firstMarkup_of_none (markupAt_cons_of_ne hc cs)]

theorem plainLength_le (cs : List Char) : plainLength cs ≤ cs.length := by
  induction cs with
  | nil => exact Nat.le_refl 0
  | cons c cs ih =>
    rw [plainLength, List.length_cons]
    split <;> omega

theorem plainLength_of_none {cs : List Char} (h : markupAt (cs.drop (plainLength cs)) = none) :
    plainLength cs = cs.length := by
  induction cs with
  | nil => rfl
  | cons c cs ih =>
    cases hm : markupAt (c :: cs) with
    | some state => simp [plainLength_of_markup hm, hm] at h
    | none =>
      rw [plainLength_pos hm, List.drop_succ_cons] at h
      rw [plainLength_pos hm, ih h, List.length_cons]

theorem text?_eq (c : Cursor) : text? c = some (text c) := by
  have h := markupFrom?_eq c.rest []
  rw [List.nil_append, Text.byteSize_nil] at h
  have hemit : ∀ state : State, c.emit? Kind.text
      (Text.byteSize (c.rest.take (plainLength c.rest))) state =
        some (emit c .text (plainLength c.rest) state) :=
    fun state => c.emit?_take Kind.text (plainLength c.rest) state
  rw [text?, Cursor.rest?_eq]
  simp only [Option.bind_eq_bind, Option.bind_some, h, firstMarkup, List.nil_append]
  rcases Nat.eq_zero_or_pos (plainLength c.rest) with hzero | hpos
  · cases hm : markupAt c.rest with
    | some state => simp [hzero, hm, text_markup hm]
    | none =>
      have hnil : c.rest = [] := by
        have hlen := @plainLength_of_none c.rest (by rwa [hzero])
        exact List.length_eq_zero_iff.1 (hlen.symm.trans hzero)
      have hend := c.emit?_take Kind.eof 0 State.eof
      simp only [hnil, List.take_nil, Text.byteSize_nil] at hend
      simp [hnil, text, plainLength, markupAt, hend, emit]
  · have hne : c.rest.take (plainLength c.rest) ≠ [] := by
      have := plainLength_le c.rest
      rw [← List.length_pos_iff, List.length_take]
      omega
    obtain ⟨n, hn⟩ := Nat.exists_eq_add_one_of_ne_zero (Nat.ne_of_gt (Text.byteSize_pos hne))
    rw [text_plain hpos]
    cases hm : markupAt (c.rest.drop (plainLength c.rest)) with
    | some state =>
      rw [hn] at hemit
      simp [hn, hemit, Cursor.skip, hm]
    | none =>
      have hrest : c.rest ≠ [] := by rintro hnil; simp [hnil] at hne
      have hlen := plainLength_of_none hm
      rw [hlen, List.take_length] at hemit
      simp [hrest, hlen, hemit, Cursor.skip, markupAt]

/-- What is in front of the lexer in a state. -/
def Faces : State → List Char → Prop
  | .comment, rest => Kind.comment.opening <+: rest
  | .text, _ | .startTag, _ | .endTag, _ | .eof, _ => True

theorem handler?_eq {state : State} {c : Cursor} (h : Faces state c.rest) :
    handler? state c = some (handler state (.ok c)) := by
  have htag := fun kind : Kind => Cursor.emit?_take c kind (tagLength c.rest) State.text
  rw [← tagBytes_eq] at htag
  cases state with
  | text => exact text?_eq c
  | startTag =>
    rw [handler?, Cursor.rest?_eq]
    exact htag .startTag
  | endTag =>
    rw [handler?, Cursor.rest?_eq]
    exact htag .endTag
  | comment =>
    obtain ⟨p, rest⟩ := c
    obtain ⟨body, rfl⟩ : Kind.comment.opening <+: rest := h
    exact comment?_eq p body
  | eof => rfl

end Stencil.Markup
