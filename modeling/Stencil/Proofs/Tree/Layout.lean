import Mathlib.Data.List.Chain
import Stencil.Proofs.Token.Requests
import Stencil.Tree.Reader

/-!
# The layout of trees that have been read

The reader of template text makes a root with texts and actions below it, and never two texts side
by side: a text goes on up to an action.

Results:
* `items_actionLexer`: no two text tokens follow each other.
* `layout_ofText`: the layout of a template that has been read.
-/

namespace Stencil

/-! ## Layout -/

/-- A term of a command. -/
inductive IsTerm : Node → Prop where
  | field (name : String) : IsTerm (.field name)
  | identifier (name : String) : IsTerm (.identifier name)

/-- One segment of a pipeline, which is not empty. -/
inductive IsCommand : Node → Prop where
  | mk {terms : List Node} : terms ≠ [] → (∀ t ∈ terms, IsTerm t) → IsCommand (.command terms)

theorem isCommand_concat {init terms : List Node} (hinit : ∀ c ∈ init, IsCommand c)
    (hne : terms ≠ []) (hterms : ∀ t ∈ terms, IsTerm t) :
    ∀ c ∈ init ++ [.command terms], IsCommand c := by
  intro c hc
  rcases List.mem_append.1 hc with hc | hc
  · exact hinit c hc
  · rw [List.mem_singleton.1 hc]
    exact .mk hne hterms

/-- A child of the root. -/
inductive IsItem : Node → Prop where
  | text (value : String) : IsItem (.text value)
  | action {commands : List Node} : commands ≠ [] → (∀ c ∈ commands, IsCommand c) →
    IsItem (.action commands)

/-- What the reader puts below the root: items, and a text only where none is before it. -/
structure Layout (ns : List Node) : Prop where
  items : ∀ n ∈ ns, IsItem n
  alternate : ns.IsChain fun m n => m.kind = .text → n.kind ≠ .text

/-- The first node is no text. -/
def Bare (ns : List Node) : Prop := ∀ n, ns.head? = some n → n.kind ≠ .text

theorem Layout.cons {n : Node} {ns : List Node} (hn : IsItem n) (hns : Layout ns)
    (h : n.kind = .text → Bare ns) : Layout (n :: ns) where
  items := List.forall_mem_cons.2 ⟨hn, hns.items⟩
  alternate := List.isChain_cons.2 ⟨fun m hm hk => h hk m hm, hns.alternate⟩

/-! ## Tokens -/

namespace Action

/-- The lexer in a state, at a place of its source. -/
abbrev lexerAt (state : State) (c : Cursor) : Lexer State Kind :=
  Lexer.stand handler .eof rank state c

/-- One item is no text if the one before it is. -/
def Apart (a b : Item) : Prop := ∀ t u, a = .ok t → b = .ok u → t.kind = .text → u.kind ≠ .text

/-- The lexer is not in front of literal text. -/
def PastText (state : State) (c : Cursor) : Prop := state ≠ .text ∨ c.rest = []

/-- What a request comes to: a token behind which the lexer goes on, or an error that ends it. `may`
says whether the token may be a text. -/
inductive Reply (may : Prop) : Pull State Kind × Lexer State Kind → Prop where
  | token {t : Token Kind} {state : State} {c : Cursor} :
    (t.kind = .text → may ∧ PastText state c) →
    Reply may (.token t, { lexerAt state c with finished := state = .eof })
  | failed {e : Error} {l : Lexer State Kind} : l.finished = true → Reply may (.failed e, l)

theorem reply_emit {may : Prop} {state state' : State} {c c' : Cursor} {kind : Kind} {n : Nat}
    (h : handler state (.ok c) = emit c' kind n state')
    (ht : kind = .text → may ∧ PastText state' (c'.skip n)) :
    Reply may (lexerAt state c).next := by
  rw [Lexer.next_emit h]
  exact .token ht

theorem reply_goto {may : Prop} {state state' : State} {c c' : Cursor}
    (h : handler state (.ok c) = goto c' state') (hr : rank state' < rank state)
    (hreply : Reply may (lexerAt state' c').next) : Reply may (lexerAt state c).next := by
  rwa [Lexer.next_silent h hr]

theorem reply_fail {may : Prop} {state : State} {c c' : Cursor} {message : String}
    (h : handler state (.ok c) = fail c' message) : Reply may (lexerAt state c).next := by
  rw [Lexer.next_fail h]
  exact .failed rfl

theorem reply_inside {may : Prop} (c : Cursor) : Reply may (lexerAt .inside c).next := by
  have h : handler .inside (.ok c) = inside c := rfl
  unfold inside at h
  dsimp only at h
  split at h
  · exact reply_goto h (by decide) (reply_emit rfl (by simp))
  · split at h
    · exact reply_fail h
    · exact reply_emit h (by simp)
    · split at h
      · exact reply_goto h (by decide) (reply_emit rfl (by simp))
      · exact reply_fail h
    · split at h
      · exact reply_goto h (by decide) (reply_emit rfl (by simp))
      · exact reply_fail h

theorem reply_text (c : Cursor) : Reply (c.rest ≠ []) (lexerAt .text c).next := by
  have h : handler .text (.ok c) = text c := rfl
  unfold text at h
  split at h
  · split at h
    · exact reply_emit h (by simp)
    · exact reply_goto h (by decide) (reply_emit rfl (by simp))
  · rename_i n hn
    refine reply_emit h fun _ => ⟨?_, ?_⟩
    · intro hc
      rw [hc] at hn
      cases hn
    · unfold PastText
      split
      · exact .inr (List.isEmpty_iff.1 ‹_›)
      · exact .inl (by decide)

theorem reply_next {state : State} (h : state ≠ .eof) (c : Cursor) :
    Reply (¬PastText state c) (lexerAt state c).next := by
  cases state with
  | text =>
    have : ¬PastText .text c ↔ c.rest ≠ [] := by simp [PastText]
    rw [this]
    exact reply_text c
  | inside => exact reply_inside c
  | leftDelim => exact reply_emit rfl (by simp)
  | rightDelim => exact reply_emit rfl (by simp)
  | field => exact reply_emit rfl (by simp)
  | identifier => exact reply_emit rfl (by simp)
  | eof => exact absurd rfl h

theorem itemsWithin_lexerAt (n : Nat) : ∀ {state : State} (c : Cursor), state ≠ .eof →
    (Lexer.itemsWithin n (lexerAt state c)).IsChain Apart ∧
      (PastText state c → ∀ t, (Lexer.itemsWithin n (lexerAt state c)).head? = some (.ok t) →
        t.kind ≠ .text) := by
  induction n with
  | zero => simp [Lexer.itemsWithin]
  | succ n ih =>
    intro state c hs
    have hreply := reply_next hs c
    rw [Lexer.itemsWithin]
    generalize (lexerAt state c).next = r at hreply
    cases hreply with
    | failed hl => simp [Lexer.itemsWithin_of_finished hl]
    | @token t state' c' ht =>
      dsimp only
      refine ⟨List.isChain_cons.2 ?_, fun hpast u hu hk => ?_⟩
      -- In the final state the lexer is finished, so nothing is left to be apart from.
      · by_cases he : state' = .eof
        · simp [Lexer.itemsWithin_of_finished, he]
        · obtain ⟨hchain, hhead⟩ := ih c' he
          simp only [he, decide_false]
          refine ⟨?_, hchain⟩
          rintro item hitem t' u ht' rfl hk
          cases ht'
          exact hhead (ht hk).2 u hitem
      · obtain rfl : t = u := by simpa using hu
        exact (ht hk).1 hpast

/-- No two texts follow each other. -/
theorem items_actionLexer (text : String) : (actionLexer text).items.IsChain Apart :=
  (itemsWithin_lexerAt _ (Cursor.ofSource text.toList) (by decide)).1

/-! ## Nodes -/

theorem isTerm_term {t : Token Kind} {n : Node} (h : term t = .ok n) : IsTerm n := by
  unfold term at h
  split at h <;> cases h
  · exact .field _
  · exact .identifier _

/-- What all results of a reader have in common, all that are read in a row have. -/
theorem forall_of_mapM {α β ε : Type} {f : α → Except ε β} {p : β → Prop}
    (hf : ∀ x y, f x = .ok y → p y) : ∀ {xs : List α} {ys : List β}, xs.mapM f = .ok ys →
      (∀ y ∈ ys, p y) ∧ (xs ≠ [] → ys ≠ [])
  | [], ys, h => by cases h; simp
  | x :: xs, ys, h => by
    rw [List.mapM_cons] at h
    cases hx : f x with
    | error e => rw [hx] at h; cases h
    | ok y =>
      cases hxs : xs.mapM f with
      | error e => rw [hx, hxs] at h; cases h
      | ok zs =>
        rw [hx, hxs] at h
        cases h
        exact ⟨List.forall_mem_cons.2 ⟨hf x y hx, (forall_of_mapM hf hxs).1⟩, by simp⟩

theorem isCommand_command {offset : Nat} {segment : List (Token Kind)} {n : Node}
    (h : command offset segment = .ok n) : IsCommand n := by
  unfold command at h
  split at h
  · cases h
  · rename_i hne
    cases hm : segment.mapM term with
    | error e => rw [hm] at h; cases h
    | ok terms =>
      rw [hm] at h
      cases h
      obtain ⟨hterms, hnil⟩ := forall_of_mapM (fun _ _ => isTerm_term) hm
      exact .mk (hnil fun hs => hne (by simp [hs])) hterms

theorem segments_ne_nil (ts : List (Token Kind)) : segments ts ≠ [] := by
  cases ts with
  | nil => simp [segments]
  | cons t ts =>
    unfold segments
    split
    · simp
    · split <;> simp

theorem isItem_close {o : Opened} {n : Node} (h : o.close = .ok n) :
    IsItem n ∧ n.kind = .action := by
  unfold Opened.close at h
  cases hm : (segments o.tokens).mapM (command o.offset) with
  | error e => rw [hm] at h; cases h
  | ok commands =>
    rw [hm] at h
    cases h
    obtain ⟨hcommands, hnil⟩ := forall_of_mapM (fun _ _ => isCommand_command) hm
    exact ⟨.action (hnil (segments_ne_nil _)) hcommands, rfl⟩

/-- What a token that fits does. -/
inductive Fed (t : Token Kind) : Option Opened → Option Node × Option Opened → Prop where
  | text : t.kind = .text → Fed t none (some (.text t.value), none)
  | opened {o : Opened} : Fed t none (none, some o)
  | closed {o : Opened} {n : Node} : IsItem n → n.kind = .action → Fed t (some o) (some n, none)
  | inside {o o' : Opened} : Fed t (some o) (none, some o')

theorem fed_feed {current : Option Opened} {t : Token Kind} {r : Option Node × Option Opened}
    (h : feed current t = .ok r) : Fed t current r := by
  cases current with
  | none =>
    simp only [feed] at h
    split at h <;> cases h
    · exact .text ‹_›
    · exact .opened
  | some o =>
    simp only [feed] at h
    split at h
    · cases hc : o.close with
      | error e => rw [hc] at h; cases h
      | ok n =>
        rw [hc] at h
        cases h
        exact .closed (isItem_close hc).1 (isItem_close hc).2
    · cases h; exact .inside
    · cases h; exact .inside
    · cases h; exact .inside
    · cases h
    · cases h

/-! ## Trees -/

/-- Behind an open action, or in front of a token that is no text, there is an action first. -/
theorem layout_readItems (name : String) (source : List Char) : ∀ {items : List Item}
    {current : Option Opened} {ns : List Node}, items.IsChain Apart →
      Document.readItems name source current items = .ok ns →
      Layout ns ∧ ((current.isSome ∨ ∀ t, items.head? = some (.ok t) → t.kind ≠ .text) → Bare ns)
  | [], _, _, _, h => by cases h
  | .error e :: items, _, _, _, h => by cases h
  | .ok t :: items, current, ns, hchain, h => by
    obtain ⟨hhead, hchain⟩ := List.isChain_cons.1 hchain
    unfold Document.readItems at h
    split at h
    · cases h
      exact ⟨⟨by simp, by simp⟩, by simp [Bare]⟩
    · split at h
      · cases h
      · rename_i node next hfeed
        cases hrest : Document.readItems name source next items with
        | error e => rw [hrest] at h; cases h
        | ok rest =>
          rw [hrest] at h
          cases h
          obtain ⟨hlayout, hbare⟩ := layout_readItems name source hchain hrest
          cases fed_feed hfeed with
          | text hk =>
            refine ⟨hlayout.cons (.text _) fun _ => hbare (.inr fun u hu => ?_), ?_⟩
            · exact hhead (.ok u) hu t u rfl rfl hk
            · simp [hk]
          | opened => exact ⟨hlayout, fun _ => hbare (.inl rfl)⟩
          | closed hi hk =>
            refine ⟨hlayout.cons hi fun ht => ?_, ?_⟩
            · rw [hk] at ht; cases ht
            · simp [Bare, hk]
          | inside => exact ⟨hlayout, fun _ => hbare (.inl rfl)⟩

end Action

/-- **Reading.** What is read from text has a layout. -/
theorem layout_ofText {name text : String} {d : Document} (h : Document.ofText name text = .ok d) :
    ∃ ns, d = .new name (.root ns) ∧ Layout ns := by
  unfold Document.ofText at h
  cases hr : Document.readItems name text.toList none (actionLexer text).items with
  | error e => rw [hr] at h; cases h
  | ok ns =>
    rw [hr] at h
    cases h
    exact ⟨ns, rfl, (Action.layout_readItems name text.toList (Action.items_actionLexer text) hr).1⟩

end Stencil
