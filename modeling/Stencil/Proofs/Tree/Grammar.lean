import Mathlib.Data.List.Infix
import Stencil.Tree.Reader

/-!
# The grammar of template text

Template text is literal pieces in turn with actions. A piece runs to the first opening delimiter,
or to the end. The body of an action is made of blanks, pipes, fields and bare names, each name as
long as it can be, and there is at least one term between two pipes. What breaks these rules is one
of three defects, and the leftmost action that has one decides about the text.

The rules mention neither the lexer nor the reader. They say which texts are templates, which nodes
these stand for, and where a text that is none goes wrong. Only how an error is put together, in
`Defect.error`, is taken from the reader.

Results:
* `split_piece`: the first piece of a text.
* `split_body`: the body of an action, up to what ends it.
* `template_or_defect`: each text is a template or has a defect.
-/

namespace Stencil.Grammar

open Stencil.Action (isNameChar isNameStart isBlank)

abbrev opening : List Char := ['\x7b', '\x7b']

abbrev closing : List Char := ['\x7d', '\x7d']

/-! ## Bodies -/

/-- No name goes on at the front of the text. -/
def NameEnds (cs : List Char) : Prop := ∀ c, cs.head? = some c → isNameChar c = false

/-- A term by its spelling. -/
inductive Term : List Char → Node → Prop where
  | field {name : List Char} : name ≠ [] → (∀ c ∈ name, isNameChar c = true) →
    Term ('.' :: name) (.field (String.ofList ('.' :: name)))
  | identifier {first : Char} {name : List Char} : isNameStart first = true →
    (∀ c ∈ name, isNameChar c = true) →
    Term (first :: name) (.identifier (String.ofList (first :: name)))

theorem Term.ne_nil {word : List Char} {t : Node} (h : Term word t) : word ≠ [] := by
  cases h <;> exact List.cons_ne_nil _ _

/-- The front of a text as the body of an action, with the terms between its pipes. `next` is the
rest of the text, where no name may go on that stands at the end of the body. -/
inductive Body (next : List Char) : List Char → List (List Node) → Prop where
  | nil : Body next [] [[]]
  | blank {c : Char} {cs : List Char} {segments : List (List Node)} : isBlank c = true →
    Body next cs segments → Body next (c :: cs) segments
  | pipe {cs : List Char} {segments : List (List Node)} : Body next cs segments →
    Body next ('|' :: cs) ([] :: segments)
  | term {word cs : List Char} {t : Node} {terms : List Node} {segments : List (List Node)} :
    Term word t → NameEnds (cs ++ next) → Body next cs (terms :: segments) →
    Body next (word ++ cs) ((t :: terms) :: segments)

/-! ## Templates -/

/-- No action opens in the text. -/
def Plain (cs : List Char) : Prop := ¬opening <:+: cs

/-- The text is a piece in front of an action: none opens before its end. -/
def Piece (cs : List Char) : Prop := Plain (cs ++ ['\x7b'])

/-- The node of a piece that is not empty. -/
def textOf (cs : List Char) : List Node :=
  if cs = [] then [] else [.text (String.ofList cs)]

/-- Pieces, each with a well-formed action behind it, and the nodes that they stand for. -/
inductive Actions : List Char → List Node → Prop where
  | nil : Actions [] []
  | cons {piece body rest : List Char} {segments : List (List Node)} {nodes : List Node} :
    Piece piece → Body closing body segments → [] ∉ segments → Actions rest nodes →
    Actions (piece ++ opening ++ body ++ closing ++ rest)
      (textOf piece ++ .action (segments.map .command) :: nodes)

/-- A text that is a template, and the nodes that it stands for. -/
inductive Template : List Char → List Node → Prop where
  | mk {actions last : List Char} {nodes : List Node} : Actions actions nodes → Plain last →
    Template (actions ++ last) (nodes ++ textOf last)

/-! ## Defects -/

/-- What is wrong with an action. -/
inductive Defect where
  /-- The text ends inside of it. -/
  | unclosed
  /-- It holds something that is neither a token nor its end. -/
  | unrecognized
  /-- It is closed, with nothing between two pipes. -/
  | missingCommand
deriving Repr, DecidableEq

/-- The character, with `cs` behind it, begins nothing that an action may hold, nor ends one. -/
structure Stray (c : Char) (cs : List Char) : Prop where
  blank : isBlank c = false
  pipe : c ≠ '|'
  field : c = '.' → NameEnds cs
  identifier : isNameStart c = false
  closing : c = '\x7d' → cs.head? ≠ some '\x7d'

/-- An action that is well formed through `body`, and shows its defect in front of `next`. -/
inductive Malformed : Defect → List Char → List Char → Prop where
  | unclosed {body : List Char} {segments : List (List Node)} : Body [] body segments →
    Malformed .unclosed body []
  | unrecognized {body cs : List Char} {c : Char} {segments : List (List Node)} :
    Body (c :: cs) body segments → Stray c cs → Malformed .unrecognized body (c :: cs)
  | missingCommand {body rest : List Char} {segments : List (List Node)} :
    Body closing body segments → [] ∈ segments →
    Malformed .missingCommand body (closing ++ rest)

/-- The leftmost malformed action of a text: what stands before it, its body through to where the
defect shows, and the rest of the text. -/
inductive Leftmost : List Char → Defect → List Char → List Char → List Char → Prop where
  | mk {actions piece body next : List Char} {nodes : List Node} {defect : Defect} :
    Actions actions nodes → Piece piece → Malformed defect body next →
    Leftmost (actions ++ piece ++ opening ++ body ++ next) defect (actions ++ piece) body next

namespace Defect

/-- The error of a template with the defect: where it shows, and for a missing command also where
the action opens. -/
def error (name : String) (before body next : List Char) : Defect → Error
  | unclosed =>
    ((Cursor.mk (before ++ opening ++ body) next).error "unclosed action").within
      (Document.lexFailure name)
  | unrecognized =>
    ((Cursor.mk (before ++ opening ++ body) next).error "unrecognized character in action").within
      (Document.lexFailure name)
  | missingCommand =>
    (Error.make .parse "missing command in action"
      [("offset", toString (Text.byteSize before))]).within
      (Document.parseFailure name (.after (before ++ opening ++ body)))

def kind : Defect → ErrorKind
  | unclosed | unrecognized => .lex
  | missingCommand => .parse

theorem kind_error (name : String) (before body next : List Char) (defect : Defect) :
    (defect.error name before body next).kind = defect.kind := by
  cases defect <;> rfl

end Defect

/-! ## Pieces of a text -/

theorem plain_nil : Plain [] := by simp [Plain]

theorem plain_cons {c : Char} {cs : List Char} :
    Plain (c :: cs) ↔ ¬opening <+: c :: cs ∧ Plain cs := by
  rw [Plain, List.infix_cons_iff, not_or, Plain]

theorem piece_nil : Piece [] := plain_cons.2 ⟨by simp, plain_nil⟩

theorem piece_iff {cs : List Char} : Piece cs ↔ Plain cs ∧ cs.getLast? ≠ some '\x7b' := by
  have hlast : opening <:+ cs ++ ['\x7b'] ↔ cs.getLast? = some '\x7b' := by
    rw [List.getLast?_eq_some_iff]
    constructor
    · rintro ⟨init, h⟩
      exact ⟨init, (List.append_inj_left' (by simpa using h) rfl : init ++ ['\x7b'] = cs).symm⟩
    · rintro ⟨init, rfl⟩
      exact ⟨init, by simp⟩
  rw [Piece, Plain, List.infix_concat_iff, not_or, hlast, Plain, and_comm]

/-- **Pieces.** A text is plain, or a piece and what is behind the braces that end it. -/
theorem split_piece : ∀ cs : List Char,
    Plain cs ∨ ∃ piece rest, Piece piece ∧ cs = piece ++ opening ++ rest
  | [] => .inl plain_nil
  | c :: cs => by
    by_cases h : opening <+: c :: cs
    · obtain ⟨rest, hrest⟩ := h
      exact .inr ⟨[], rest, piece_nil, hrest.symm⟩
    · rcases split_piece cs with hcs | ⟨piece, rest, hpiece, rfl⟩
      · exact .inl (plain_cons.2 ⟨h, hcs⟩)
      · refine .inr ⟨c :: piece, rest, plain_cons.2 ⟨fun hp => h ?_, hpiece⟩, rfl⟩
        exact hp.trans ⟨'\x7b' :: rest, by simp⟩

/-! ## Bodies of a text -/

theorem Body.exists_cons {next cs : List Char} {segments : List (List Node)}
    (h : Body next cs segments) : ∃ terms others, segments = terms :: others := by
  induction h with
  | nil => exact ⟨_, _, rfl⟩
  | blank _ _ ih => exact ih
  | pipe _ _ => exact ⟨_, _, rfl⟩
  | term _ _ _ _ => exact ⟨_, _, rfl⟩

/-- Of what is behind a body only the first character counts. -/
theorem Body.congr_next {next next' cs : List Char} {segments : List (List Node)}
    (h : Body next cs segments) (hnext : next.head? = next'.head?) : Body next' cs segments := by
  induction h with
  | nil => exact .nil
  | blank hc _ ih => exact .blank hc ih
  | pipe _ ih => exact .pipe ih
  | @term word cs t terms segments ht hends _ ih =>
    refine .term ht (fun c hc => hends c ?_) ih
    rwa [List.head?_append, ← hnext, ← List.head?_append] at hc

/-- What ends a body: the end of the text, the end of the action, or something stray. -/
inductive Stop : List Char → Prop where
  | nil : Stop []
  | closing (rest : List Char) : Stop (closing ++ rest)
  | stray {c : Char} {cs : List Char} : Stray c cs → Stop (c :: cs)

theorem split_name (cs : List Char) : ∃ name rest, cs = name ++ rest ∧
    (∀ c ∈ name, isNameChar c = true) ∧ NameEnds rest := by
  refine ⟨cs.takeWhile isNameChar, cs.dropWhile isNameChar,
    List.takeWhile_append_dropWhile.symm, fun c hc => ?_, fun c hc => ?_⟩
  · exact List.all_eq_true.1 List.all_takeWhile c hc
  · have := List.head?_dropWhile_not isNameChar cs
    rwa [hc] at this

/-- At the front of a text there is something that an action holds, or something that ends it. -/
inductive Front : List Char → Prop where
  | blank {c : Char} {cs : List Char} : isBlank c = true → Front (c :: cs)
  | pipe (cs : List Char) : Front ('|' :: cs)
  | term {word rest : List Char} {t : Node} : Term word t → NameEnds rest → Front (word ++ rest)
  | stop {cs : List Char} : Stop cs → Front cs

theorem front (cs : List Char) : Front cs := by
  cases cs with
  | nil => exact .stop .nil
  | cons c cs =>
    by_cases hblank : isBlank c = true
    · exact .blank hblank
    by_cases hpipe : c = '|'
    · rw [hpipe]
      exact .pipe cs
    obtain ⟨name, rest, rfl, hname, hends⟩ := split_name cs
    by_cases hstart : isNameStart c = true
    · exact Front.term (.identifier hstart hname) hends
    by_cases hfield : c = '.' ∧ name ≠ []
    · rw [hfield.1]
      exact Front.term (.field hfield.2 hname) hends
    by_cases hclose : c = '\x7d' ∧ (name ++ rest).head? = some '\x7d'
    · obtain ⟨rfl, hhead⟩ := hclose
      obtain ⟨rest', hrest⟩ := List.head?_eq_some_iff.1 hhead
      rw [hrest]
      exact .stop (.closing rest')
    refine .stop (.stray ⟨by simpa using hblank, hpipe, fun hc => ?_, by simpa using hstart,
      fun hc hh => hclose ⟨hc, hh⟩⟩)
    have hnil : name = [] := by simpa [hc] using hfield
    rwa [hnil]

/-- **Bodies.** A text is a body, and behind it something that ends it. -/
theorem split_body (cs : List Char) :
    ∃ body next segments, cs = body ++ next ∧ Body next body segments ∧ Stop next := by
  induction hn : cs.length using Nat.strongRecOn generalizing cs with
  | ind n ih =>
  subst hn
  cases front cs with
  | stop hstop => exact ⟨[], cs, _, rfl, .nil, hstop⟩
  | @blank c cs hc =>
    obtain ⟨body, next, segments, rfl, hbody, hstop⟩ := ih _ (by simp) cs rfl
    exact ⟨c :: body, next, segments, rfl, .blank hc hbody, hstop⟩
  | pipe cs =>
    obtain ⟨body, next, segments, rfl, hbody, hstop⟩ := ih _ (by simp) cs rfl
    exact ⟨'|' :: body, next, _, rfl, .pipe hbody, hstop⟩
  | @term word rest t ht hends =>
    have hword : 0 < word.length := List.length_pos_iff.2 ht.ne_nil
    obtain ⟨body, next, segments, rfl, hbody, hstop⟩ :=
      ih rest.length (by simp only [List.length_append]; omega) rest rfl
    obtain ⟨terms, others, rfl⟩ := hbody.exists_cons
    exact ⟨word ++ body, next, _, by simp, .term ht hends hbody, hstop⟩

/-! ## Texts -/

theorem Template.behind {piece body rest : List Char} {segments : List (List Node)}
    {nodes : List Node} (hpiece : Piece piece) (hbody : Body closing body segments)
    (hsegments : [] ∉ segments) (h : Template rest nodes) :
    Template (piece ++ opening ++ body ++ closing ++ rest)
      (textOf piece ++ .action (segments.map .command) :: nodes) := by
  cases h with
  | mk hactions hlast =>
    have := Template.mk (.cons hpiece hbody hsegments hactions) hlast
    simpa only [List.append_assoc, List.cons_append] using this

theorem Leftmost.behind {piece body rest : List Char} {segments : List (List Node)}
    {defect : Defect} {before inside next : List Char} (hpiece : Piece piece)
    (hbody : Body closing body segments) (hsegments : [] ∉ segments)
    (h : Leftmost rest defect before inside next) :
    Leftmost (piece ++ opening ++ body ++ closing ++ rest) defect
      (piece ++ opening ++ body ++ closing ++ before) inside next := by
  cases h with
  | @mk actions piece' body' next nodes defect hactions hpiece' hmalformed =>
    have := Leftmost.mk (.cons hpiece hbody hsegments hactions) hpiece' hmalformed
    simpa only [List.append_assoc] using this

/-- **Texts.** A text is a template, or an action in it is malformed. -/
theorem template_or_defect (cs : List Char) : (∃ nodes, Template cs nodes) ∨
    ∃ defect before body next, Leftmost cs defect before body next := by
  induction hn : cs.length using Nat.strongRecOn generalizing cs with
  | ind n ih =>
  subst hn
  rcases split_piece cs with hplain | ⟨piece, inside, hpiece, rfl⟩
  · exact .inl ⟨_, .mk .nil hplain⟩
  obtain ⟨body, next, segments, rfl, hbody, hstop⟩ := split_body inside
  have here : ∀ {defect : Defect}, Malformed defect body next →
      Leftmost (piece ++ opening ++ (body ++ next)) defect piece body next := by
    intro defect h
    simpa only [List.append_assoc, List.nil_append] using Leftmost.mk .nil hpiece h
  cases hstop with
  | nil => exact .inr ⟨_, _, _, _, here (.unclosed hbody)⟩
  | stray hstray => exact .inr ⟨_, _, _, _, here (.unrecognized hbody hstray)⟩
  | closing rest =>
    replace hbody : Body closing body segments := hbody.congr_next rfl
    by_cases hempty : [] ∈ segments
    · exact .inr ⟨_, _, _, _, here (.missingCommand hbody hempty)⟩
    · have hshape : piece ++ opening ++ (body ++ (closing ++ rest)) =
          piece ++ opening ++ body ++ closing ++ rest := by
        simp only [List.append_assoc]
      rw [hshape]
      rcases ih rest.length (by simp; omega) rest rfl with ⟨nodes, h⟩ | ⟨d, before, b, n, h⟩
      · exact .inl ⟨_, h.behind hpiece hbody hempty⟩
      · exact .inr ⟨d, _, b, n, h.behind hpiece hbody hempty⟩

end Stencil.Grammar
