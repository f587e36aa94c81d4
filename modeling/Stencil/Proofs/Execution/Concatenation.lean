import Mathlib
import Stencil.Proofs.Execution.Pipeline
import Stencil.Proofs.Tree.Reading

/-!
# Templates one behind the other

Two texts that are templates make a template if one is put behind the other. Only a delimiter that
opens where they meet can stand in the way: a brace that ends the first text and one that begins the
second. The nodes are those of the two templates, but that two pieces that meet are one.

Without escaping it makes no difference that these pieces are one. The template does what the first
one does, and then what the second one does with the data as the first one leaves it.

Results:
* `Template.append`: the nodes of two templates put together.
* `meaning_joined`: what they mean is what the two templates mean one after the other.
* `execute_concatenated`: the same of reading and executing them; and a text without actions.
-/

namespace Stencil

namespace Grammar

/-! ## Texts -/

/-- A brace ends one text and begins the other. -/
def Meet (cs ds : List Char) : Prop := cs.getLast? = some '\x7b' ∧ ds.head? = some '\x7b'

/-- The end of a text meets what the text meets. -/
theorem Meet.behind {cs ds : List Char} (h : Meet cs ds) (before : List Char) :
    Meet (before ++ cs) ds :=
  ⟨by rw [List.getLast?_append, h.1, Option.some_or], h.2⟩

/-- The front of a text meets what the text meets. -/
theorem Meet.before {cs ds : List Char} (h : Meet cs ds) (after : List Char) :
    Meet cs (ds ++ after) :=
  ⟨h.1, by rw [List.head?_append, h.2, Option.some_or]⟩

theorem plain_append {cs ds : List Char} (hcs : Plain cs) (hds : Plain ds) (h : ¬Meet cs ds) :
    Plain (cs ++ ds) := by
  induction cs with
  | nil => exact hds
  | cons c cs ih =>
    obtain ⟨hfront, hrest⟩ := plain_cons.1 hcs
    refine plain_cons.2 ⟨fun hopen => ?_, ih hrest fun hmeet => h (hmeet.behind [c])⟩
    cases cs with
    | nil =>
      obtain ⟨rfl, hhead⟩ : '\x7b' = c ∧ ['\x7b'] <+: ds := List.cons_prefix_cons.1 hopen
      obtain ⟨rest, rfl⟩ := hhead
      exact h ⟨rfl, rfl⟩
    | cons c' cs =>
      obtain ⟨rfl, hrest'⟩ := List.cons_prefix_cons.1 hopen
      obtain ⟨rfl, -⟩ := List.cons_prefix_cons.1 hrest'
      exact hfront ⟨cs, rfl⟩

/-- A piece does not end in a brace, so it stays one with plain text before it. -/
theorem piece_append {cs piece : List Char} (hcs : Plain cs) (hpiece : Piece piece)
    (h : ¬Meet cs (piece ++ opening)) : Piece (cs ++ piece) := by
  obtain ⟨hplain, hlast⟩ := piece_iff.1 hpiece
  refine piece_iff.2 ⟨plain_append hcs hplain fun hmeet => h (hmeet.before _), fun hend => ?_⟩
  rw [List.getLast?_append] at hend
  cases hp : piece.getLast? with
  | some c =>
    rw [hp] at hend hlast
    exact hlast hend
  | none =>
    rw [hp] at hend
    rw [List.getLast?_eq_none_iff.1 hp] at h
    exact h ⟨hend, rfl⟩

/-! ## Templates -/

/-- The nodes of two templates put together: what the first ends with and what the second begins
with are one text. -/
inductive Joined : List Node → List Node → List Node → Prop where
  | mk (init : List Node) (cs ds : List Char) (rest : List Node) :
    Joined (init ++ textOf cs) (textOf ds ++ rest) (init ++ textOf (cs ++ ds) ++ rest)

/-- Text in front of a template is in front of the piece that the template begins with. -/
theorem Template.after_plain {last ds : List Char} {ns : List Node} (hlast : Plain last)
    (hds : Template ds ns) (h : ¬Meet last ds) :
    ∃ first rest, ns = textOf first ++ rest ∧
      Template (last ++ ds) (textOf (last ++ first) ++ rest) := by
  cases hds with
  | @mk actions last' nodes hactions hlast' =>
    cases hactions with
    | nil =>
      refine ⟨last', [], (List.append_nil _).symm, ?_⟩
      rw [List.append_nil]
      exact .mk .nil (plain_append hlast hlast' h)
    | @cons piece body rest segments nodes hpiece hbody hsegments hrest =>
      have hmeet : ¬Meet last (piece ++ opening) := fun hmeet => h (by
        simpa only [List.append_assoc] using
          hmeet.before (body ++ (closing ++ (rest ++ last'))))
      refine ⟨piece, .action (segments.map .command) :: (nodes ++ textOf last'), by simp, ?_⟩
      have := Template.behind (piece_append hlast hpiece hmeet) hbody hsegments (.mk hrest hlast')
      simpa only [List.append_assoc] using this

theorem Template.after_actions {cs ds : List Char} {ms ns : List Node} (hcs : Actions cs ms)
    (hds : Template ds ns) : Template (cs ++ ds) (ms ++ ns) := by
  induction hcs with
  | nil => exact hds
  | cons hpiece hbody hsegments _ ih =>
    have := Template.behind hpiece hbody hsegments ih
    simpa only [List.append_assoc, List.cons_append] using this

/-- **Templates.** Unless a delimiter opens where they meet, two templates are one. -/
theorem Template.append {cs ds : List Char} {ms ns : List Node} (hcs : Template cs ms)
    (hds : Template ds ns) (h : ¬Meet cs ds) :
    ∃ nodes, Template (cs ++ ds) nodes ∧ Joined ms ns nodes := by
  cases hcs with
  | @mk actions last init hactions hlast =>
    obtain ⟨first, rest, rfl, htemplate⟩ :=
      hds.after_plain hlast fun hmeet => h (hmeet.behind actions)
    refine ⟨init ++ textOf (last ++ first) ++ rest, ?_, .mk init last first rest⟩
    have := Template.after_actions hactions htemplate
    simpa only [List.append_assoc] using this

end Grammar

namespace Pipeline

open Grammar

/-! ## Meanings -/

variable {σ : Type} (data : Members σ)

theorem meaning_textOf (cs : List Char) (s : σ) :
    meaning data (textOf cs) s = ⟨none, s, [], String.ofList cs⟩ := by
  unfold textOf
  split
  · rename_i hcs
    rw [hcs]
    rfl
  · simp [meaning, item, Node.text, Meaning.andThen]

/-- Whether two pieces are one text or two makes no difference. -/
theorem meaning_joined {ms ns nodes : List Node} (h : Joined ms ns nodes) (s : σ) :
    meaning data nodes s = (meaning data ms s).andThen (meaning data ns) := by
  obtain ⟨init, cs, ds, rest⟩ := h
  have htexts : ∀ s, meaning data (textOf (cs ++ ds)) s =
      (meaning data (textOf cs) s).andThen (meaning data (textOf ds)) := by
    intro s
    simp [meaning_textOf, Meaning.andThen, String.ofList_append]
  simp only [meaning_append, Meaning.andThen_assoc, funext htexts,
    funext (meaning_append data (textOf ds) rest)]

/-! ## Documents -/

/-- A run, and behind it another one, which takes place only if the first one does not fail. -/
def followedBy (first second : Run σ String) : Run σ String :=
  match first.error with
  | some _ => first
  | none => ⟨second.error, second.data, first.sink ++ second.sink⟩

/-- What a template stands for is executed as it is meant. -/
theorem execute_template {cs : List Char} {nodes : List Node} (h : Template cs nodes)
    (title name : String) (s : σ) :
    let d := Document.new title (.root nodes)
    let m := meaning data nodes s
    d.execute name .text data s "" = ⟨m.stop.map (Stop.chain name), m.state, m.output⟩ ∧
      d.calls name .text data s "" = m.calls := by
  have hread : Document.ofText title (String.ofList cs) = .ok (.new title (.root nodes)) :=
    ofText_template (by rwa [String.toList_ofList])
  obtain ⟨ns, hns, hlayout⟩ := layout_ofText hread
  cases hns
  have := execute_eq_meaning (d := .new title (.root nodes)) rfl hlayout.items name data s ""
  simpa only [String.empty_append] using this

/-- **Concatenation.** Two texts that are templates make one, unless a brace ends the first and
another begins the second. It does what the first one does and then, if that does not fail, what the
second one does with the data as the first one leaves it. A text in which no action opens is a
template that writes itself. -/
theorem execute_concatenated (title : String) :
    (∀ (s t : String) (ds dt : Document), Document.ofText title s = .ok ds →
      Document.ofText title t = .ok dt → ¬Meet s.toList t.toList →
      ∃ d, Document.ofText title (s ++ t) = .ok d ∧
        ∀ {σ : Type} (name : String) (data : Members σ) (state : σ),
          let first := ds.execute name .text data state ""
          let second := dt.execute name .text data first.data ""
          d.execute name .text data state "" = followedBy first second ∧
            d.calls name .text data state "" = ds.calls name .text data state "" ++
              if first.error = none then dt.calls name .text data first.data "" else []) ∧
    ∀ text : String, Plain text.toList →
      ∃ d, Document.ofText title text = .ok d ∧
        ∀ {σ : Type} (name : String) (data : Members σ) (state : σ),
          d.execute name .text data state "" = ⟨none, state, text⟩ ∧
            d.calls name .text data state "" = [] := by
  refine ⟨fun s t ds dt hs ht hmeet => ?_, fun text hplain => ?_⟩
  · obtain ⟨ms, hms, rfl⟩ := template_of_ofText hs
    obtain ⟨ns, hns, rfl⟩ := template_of_ofText ht
    obtain ⟨nodes, hnodes, hjoined⟩ := hms.append hns hmeet
    rw [← String.toList_append] at hnodes
    refine ⟨_, ofText_template hnodes, fun name data state => ?_⟩
    obtain ⟨hboth, hcalls⟩ := execute_template data hnodes title name state
    obtain ⟨hfirst, hfirst'⟩ := execute_template data hms title name state
    rw [meaning_joined data hjoined] at hboth hcalls
    dsimp only
    rw [hboth, hcalls, hfirst, hfirst']
    generalize meaning data ms state = m
    obtain ⟨_ | stop, s', calls, output⟩ := m
    · obtain ⟨hsecond, hsecond'⟩ := execute_template data hns title name s'
      dsimp only [Option.map_none]
      rw [hsecond, hsecond']
      exact ⟨rfl, rfl⟩
    · exact ⟨rfl, (List.append_nil _).symm⟩
  · have htext : Template text.toList (textOf text.toList) := .mk .nil hplain
    refine ⟨_, ofText_template htext, fun name data state => ?_⟩
    have := execute_template data htext title name state
    rwa [meaning_textOf, String.ofList_toList] at this

/-- A brace ends the first text, and the member of the second one panics: what the first one has
written is there, and both members have been called. -/
theorem execute_concatenated_brace :
    let ds := Document.new "t" (.root
      [.text "x", .action [.command [.field ".A"]], .text "\x7b"])
    let dt := Document.new "t" (.root [.text "b", .action [.command [.identifier "B"]]])
    Document.ofText "t" "x\x7b\x7b.A\x7d\x7d\x7b" = .ok ds ∧
      Document.ofText "t" "b\x7b\x7bB\x7d\x7d" = .ok dt ∧
      ¬Meet "x\x7b\x7b.A\x7d\x7d\x7b".toList "b\x7b\x7bB\x7d\x7d".toList ∧
      ∃ d, Document.ofText "t" ("x\x7b\x7b.A\x7d\x7d\x7b" ++ "b\x7b\x7bB\x7d\x7d") = .ok d ∧
        d.execute "run" .text counting 0 "" =
          ⟨some (Stop.chain "run" ⟨.identifier "B", panicked (some "kaboom")⟩), 2, "x<\x7bb"⟩ ∧
        d.calls "run" .text counting 0 "" = [("A", none), ("B", none)] ∧
        ∃ e, Document.ofText "t" "x" = .ok e ∧
          e.execute "run" .text counting 0 "" = ⟨none, 0, "x"⟩ := by
  intro ds dt
  have hds : Document.ofText "t" "x\x7b\x7b.A\x7d\x7d\x7b" = .ok ds := by cbv
  have hdt : Document.ofText "t" "b\x7b\x7bB\x7d\x7d" = .ok dt := by cbv
  have hmeet : ¬Meet "x\x7b\x7b.A\x7d\x7d\x7b".toList "b\x7b\x7bB\x7d\x7d".toList := by
    simp [Meet]
  obtain ⟨hboth, hplain⟩ := execute_concatenated "t"
  obtain ⟨d, hd, hruns⟩ := hboth _ _ _ _ hds hdt hmeet
  obtain ⟨hrun, hcalls⟩ := hruns "run" counting 0
  obtain ⟨e, he, heruns⟩ := hplain "x" (plain_cons.2 ⟨by simp, plain_nil⟩)
  refine ⟨hds, hdt, hmeet, d, hd, ?_, ?_, e, he, (heruns "run" counting 0).1⟩
  · rw [hrun]
    rfl
  · rw [hcalls]
    rfl

end Pipeline

end Stencil
