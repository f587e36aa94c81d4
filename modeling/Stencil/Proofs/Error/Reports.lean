import Stencil.Error.Raised

/-!
# Reports of chains

Errors are put behind each other like lists, and the report of a chain is made of the reports of its
errors. That the report of an error is the same block of lines wherever it stands, only further in,
is what `Laid` says of a text at every depth. The text of a context entry has this property if its
key is on one line, and the indentation that follows a line end inside a message or a value is what
makes it true of those.

A clone is made of other details, but no error can be told from its clone.

Results:
* `Error.kind_within`: the outer error has the say on the kind.
* `Error.laid_reportFrom`: a report moves as whole lines.
* `Raised.chain_assoc`, `Raised.error_chain`: errors behind errors behind errors.
* `Raised.kind_clone`, `Raised.error_clone`: what can be seen of a clone.
* `chain_reports`: all of it together.
-/

namespace Stencil

namespace Error

theorem kind_within (e outer : Error) :
    (e.within outer).kind = if outer.kind = .other then e.kind else outer.kind := by
  unfold kind
  rw [faults_within, List.map_append, List.find?_append]
  cases h : (outer.faults.map Fault.kind).find? (· ≠ .other) with
  | none => rfl
  | some k =>
    have hk : k ≠ .other := by simpa using List.find?_some h
    exact (if_neg hk).symm

/-! ## Lines -/

/-- The text of lines, each of which ends with a line end. -/
def unlines (lines : List (List Char)) : List Char := lines.flatMap (· ++ ['\n'])

theorem unlines_append (first second : List (List Char)) :
    unlines (first ++ second) = unlines first ++ unlines second :=
  List.flatMap_append

/-- At every depth the text consists of the same lines, with the indentation in front of each. -/
def Laid (text : Nat → List Char) : Prop :=
  ∃ lines : List (List Char), (∀ line ∈ lines, '\n' ∉ line) ∧
    ∀ depth, text depth = unlines (lines.map (indentation depth ++ ·))

theorem indentation_succ (depth : Nat) :
    indentation (depth + 1) = indentation depth ++ indentation 1 := by
  unfold indentation
  rw [Nat.mul_add, List.replicate_append_replicate]

theorem not_mem_indentation (depth : Nat) : '\n' ∉ indentation depth := by
  intro h
  have := List.eq_of_mem_replicate h
  contradiction

theorem hang_append (depth : Nat) (as bs : List Char) :
    hang depth (as ++ bs) = hang depth as ++ hang depth bs :=
  List.flatMap_append

theorem hang_of_not_mem {cs : List Char} (h : '\n' ∉ cs) (depth : Nat) : hang depth cs = cs := by
  induction cs with
  | nil => rfl
  | cons c cs ih =>
    have hc : c ≠ '\n' := fun hc => h (hc ▸ List.mem_cons_self)
    have hcs : '\n' ∉ cs := fun hcs => h (List.mem_cons_of_mem c hcs)
    rw [hang, List.flatMap_cons, if_neg hc, ← hang, ih hcs]
    rfl

/-- Without a depth nothing is put behind a line end. -/
theorem hang_zero (cs : List Char) : hang 0 cs = cs := by
  unfold hang
  have hself : ∀ c : Char, (if c = '\n' then '\n' :: indentation 0 else [c]) = [c] := by
    intro c
    split
    · rename_i hc
      rw [hc]
      rfl
    · rfl
  simp only [hself, List.flatMap_singleton']

/-- The first line of a text is where the text starts, and the others have the indentation in front
of them. -/
theorem exists_lines_hang (cs : List Char) :
    ∃ (first : List Char) (rest : List (List Char)), '\n' ∉ first ∧ (∀ line ∈ rest, '\n' ∉ line) ∧
      ∀ depth, hang depth cs ++ ['\n'] =
        first ++ ['\n'] ++ unlines (rest.map (indentation depth ++ ·)) := by
  induction cs with
  | nil => exact ⟨[], [], by simp, by simp, fun _ => rfl⟩
  | cons c cs ih =>
    obtain ⟨first, rest, hfirst, hrest, ih⟩ := ih
    by_cases hc : c = '\n'
    · subst hc
      refine ⟨[], first :: rest, by simp, List.forall_mem_cons.2 ⟨hfirst, hrest⟩, fun depth => ?_⟩
      calc hang depth ('\n' :: cs) ++ ['\n']
          = ['\n'] ++ indentation depth ++ (hang depth cs ++ ['\n']) := by simp [hang]
        _ = [] ++ ['\n'] ++ unlines ((first :: rest).map (indentation depth ++ ·)) := by
          rw [ih]
          simp [unlines]
    · have hfirst : '\n' ∉ c :: first := by simp [hfirst, Ne.symm hc]
      refine ⟨c :: first, rest, hfirst, hrest, fun depth => ?_⟩
      calc hang depth (c :: cs) ++ ['\n'] = c :: (hang depth cs ++ ['\n']) := by simp [hang, hc]
        _ = c :: first ++ ['\n'] ++ unlines (rest.map (indentation depth ++ ·)) := by
          rw [ih]
          rfl

namespace Laid

theorem nil : Laid fun _ => [] := ⟨[], by simp, fun _ => rfl⟩

theorem append {f g : Nat → List Char} (hf : Laid f) (hg : Laid g) :
    Laid fun depth => f depth ++ g depth := by
  obtain ⟨first, hfirst, hf⟩ := hf
  obtain ⟨second, hsecond, hg⟩ := hg
  refine ⟨first ++ second, ?_, fun depth => ?_⟩
  · intro line hline
    cases List.mem_append.1 hline with
    | inl h => exact hfirst line h
    | inr h => exact hsecond line h
  · show f depth ++ g depth = _
    rw [hf, hg, List.map_append, unlines_append]

/-- The lines of a text one step in start with the first indentation. -/
theorem nested {f : Nat → List Char} (hf : Laid f) : Laid fun depth => f (depth + 1) := by
  obtain ⟨lines, hlines, hf⟩ := hf
  refine ⟨lines.map (indentation 1 ++ ·), ?_, fun depth => ?_⟩
  · intro line hline
    obtain ⟨inner, hinner, rfl⟩ := List.mem_map.1 hline
    intro h
    cases List.mem_append.1 h with
    | inl h => exact not_mem_indentation 1 h
    | inr h => exact hlines inner hinner h
  · show f (depth + 1) = _
    rw [hf, indentation_succ, List.map_map]
    simp only [Function.comp_def, List.append_assoc]

/-- A text of which each line end is followed by the indentation, behind the indentation. -/
theorem hung (cs : List Char) : Laid fun depth => indentation depth ++ hang depth cs ++ ['\n'] := by
  obtain ⟨first, rest, hfirst, hrest, hsplit⟩ := exists_lines_hang cs
  refine ⟨first :: rest, List.forall_mem_cons.2 ⟨hfirst, hrest⟩, fun depth => ?_⟩
  show indentation depth ++ hang depth cs ++ ['\n'] = _
  rw [List.append_assoc, hsplit]
  simp only [unlines, List.map_cons, List.flatMap_cons, List.append_assoc]

theorem flatMap {α : Type} {f : Nat → α → List Char} {xs : List α}
    (h : ∀ x ∈ xs, Laid fun depth => f depth x) : Laid fun depth => xs.flatMap (f depth) := by
  induction xs with
  | nil => exact nil
  | cons x xs ih =>
    obtain ⟨hx, hxs⟩ := List.forall_mem_cons.1 h
    exact append hx (ih hxs)

end Laid

/-! ## Reports -/

/-- The text of a context entry. -/
def entryText : Option String × String → List Char
  | (none, value) => value.toList
  | (some key, value) => key.toList ++ [':', ' '] ++ value.toList

/-- All keys are on one line. -/
def KeysInLine (context : List (Option String × String)) : Prop :=
  ∀ entry ∈ context, ∀ key ∈ entry.1, '\n' ∉ key.toList

instance (context : List (Option String × String)) : Decidable (KeysInLine context) :=
  inferInstanceAs (Decidable (∀ entry ∈ context, _))

theorem contextLine_zero (entry : Option String × String) :
    contextLine 0 entry = entryText entry ++ ['\n'] := by
  obtain ⟨key, value⟩ := entry
  cases key with
  | none => simp only [contextLine, entryText, hang_zero]; rfl
  | some key => simp only [contextLine, entryText, hang_zero]; rfl

theorem laid_contextLine {entry : Option String × String} (h : ∀ key ∈ entry.1, '\n' ∉ key.toList) :
    Laid fun depth => contextLine depth entry := by
  have hline : ∀ depth, contextLine depth entry =
      indentation depth ++ hang depth (entryText entry) ++ ['\n'] := by
    intro depth
    obtain ⟨key, value⟩ := entry
    cases key with
    | none => rfl
    | some key =>
      have hkey : '\n' ∉ key.toList ++ [':', ' '] := by
        intro hmem
        cases List.mem_append.1 hmem with
        | inl hmem => exact h key rfl hmem
        | inr hmem => exact absurd hmem (by decide)
      have hhang := hang_append depth (key.toList ++ [':', ' ']) value.toList
      rw [hang_of_not_mem hkey] at hhang
      rw [contextLine, entryText, hhang]
      simp only [List.append_assoc]
  simp only [hline]
  exact .hung _

theorem laid_reportFrom {fs : List Fault} (h : ∀ f ∈ fs, KeysInLine f.context) :
    Laid fun depth => reportFrom depth fs := by
  induction fs with
  | nil => exact .nil
  | cons f behind ih =>
    obtain ⟨hf, hbehind⟩ := List.forall_mem_cons.1 h
    exact ((Laid.hung f.message.toList).append (ih hbehind).nested).append
      (.flatMap fun entry hentry => laid_contextLine (hf entry hentry))

end Error

namespace Raised

/-! ## Chains -/

theorem error_chain (r outer : Raised) : (r.chain outer).error = r.error.within outer.error := by
  induction outer with
  | last d => rfl
  | around d previous ih =>
    rw [chain, error, error, ih]
    rfl

theorem chain_assoc (a b c : Raised) : (a.chain b).chain c = a.chain (b.chain c) := by
  induction c with
  | last d => rfl
  | around d previous ih => rw [chain, chain, chain, ih]

theorem kind_chain (a b : Raised) :
    (a.chain b).kind = if b.kind = .other then a.kind else b.kind := by
  unfold kind
  rw [error_chain, Error.kind_within]

theorem details_chain (a b : Raised) : (a.chain b).details = b.details ++ a.details := by
  induction b with
  | last d => rfl
  | around d previous ih => rw [chain, details, details, ih, List.cons_append]

theorem faults_error (r : Raised) : r.error.faults = r.details.map Detail.seen := by
  induction r with
  | last d => rfl
  | around d previous ih =>
    show d.seen :: previous.error.faults = _
    rw [ih]
    rfl

/-- No key of a context has a line end. -/
def KeysInLine (r : Raised) : Prop := ∀ d ∈ r.details, Error.KeysInLine d.context

instance (r : Raised) : Decidable r.KeysInLine :=
  inferInstanceAs (Decidable (∀ d ∈ r.details, _))

/-- The report of `a` stands one step further in, between the message and the context of what is put
in front of it. -/
theorem report_chain_last {a : Raised} (h : a.KeysInLine) (d : Detail) :
    ∃ lines : List (List Char), (∀ line ∈ lines, '\n' ∉ line) ∧
      a.report.toList = Error.unlines lines ∧
      (a.chain (last d)).report.toList = d.reported.toList ++ ['\n'] ++
        Error.unlines (lines.map (Error.indentation 1 ++ ·)) ++
        Error.unlines (d.context.map Error.entryText) := by
  have hkeys : ∀ f ∈ a.error.faults, Error.KeysInLine f.context := by
    intro f hf
    rw [faults_error] at hf
    obtain ⟨detail, hdetail, rfl⟩ := List.mem_map.1 hf
    exact h detail hdetail
  obtain ⟨lines, hlines, htext⟩ := Error.laid_reportFrom hkeys
  refine ⟨lines, hlines, ?_, ?_⟩
  · have hzero : Error.reportFrom 0 a.error.faults =
        Error.unlines (lines.map (Error.indentation 0 ++ ·)) := htext 0
    have hid : lines.map (Error.indentation 0 ++ ·) = lines := List.map_id lines
    rw [report, Error.report, String.toList_ofList, hzero, hid]
  · have hone : Error.reportFrom 1 a.error.faults =
        Error.unlines (lines.map (Error.indentation 1 ++ ·)) := htext 1
    have hcontext : d.context.flatMap (Error.contextLine 0) =
        Error.unlines (d.context.map Error.entryText) := by
      rw [Error.unlines, List.flatMap_map]
      exact congrArg (List.flatMap · d.context) (funext Error.contextLine_zero)
    rw [report, Error.report, String.toList_ofList, ← hone, ← hcontext]
    show [] ++ Error.hang 0 d.reported.toList ++ ['\n'] ++ Error.reportFrom 1 a.error.faults ++
      d.context.flatMap (Error.contextLine 0) = _
    rw [Error.hang_zero]
    rfl

example :
    ((last (.ofFault ⟨.type, "wrong\n\nargument", [(some "found", "a\nb"), (none, "c")]⟩)).chain
      (last (.ofFault ⟨.other, "page", [(some "at", "1")]⟩))).report =
      "page\n    wrong\n    \n    argument\n    found: a\n    b\n    c\nat: 1\n" := by
  decide

/-! ## Clones -/

theorem details_clone (r : Raised) :
    r.clone.details = r.details.map fun d => .ofFault d.told := by
  induction r with
  | last d => rfl
  | around d previous ih => rw [clone, details, details, ih, List.map_cons]

theorem kind_clone (r : Raised) : r.clone.kind = r.kind := by
  unfold kind Error.kind
  rw [faults_error, faults_error, details_clone, List.map_map, List.map_map, List.map_map]
  rfl

theorem error_clone {r : Raised} (h : r.Plain) : r.clone.error = r.error := by
  induction r with
  | last d =>
    have hd : d.reported = d.message := h d (.head _)
    simp only [clone, error, Detail.seen, Detail.told, Detail.ofFault, hd]
  | around d previous ih =>
    have hd : d.reported = d.message := h d (.head _)
    have hprevious : previous.Plain := fun e he => h e (.tail _ he)
    simp only [clone, error, Detail.seen, Detail.told, Detail.ofFault, hd, ih hprevious]

theorem plain_clone (r : Raised) : r.clone.Plain := by
  intro e he
  rw [details_clone] at he
  obtain ⟨d, -, rfl⟩ := List.mem_map.1 he
  rfl

theorem Plain.chain {a b : Raised} (ha : a.Plain) (hb : b.Plain) : (a.chain b).Plain := by
  intro d hd
  rw [details_chain] at hd
  cases List.mem_append.1 hd with
  | inl h => exact hb d h
  | inr h => exact ha d h

/-- How an error came about: some are given, and they are cloned and put behind each other. -/
inductive Making where
  | given (r : Raised)
  | clone (x : Making)
  | chain (x outer : Making)
deriving Repr, DecidableEq

namespace Making

def raised : Making → Raised
  | given r => r
  | clone x => x.raised.clone
  | chain x outer => x.raised.chain outer.raised

/-- The same without clones. -/
def original : Making → Raised
  | given r => r
  | clone x => x.original
  | chain x outer => x.original.chain outer.original

def givens : Making → List Raised
  | given r => [r]
  | clone x => x.givens
  | chain x outer => x.givens ++ outer.givens

theorem plain_raised {x : Making} (h : ∀ r ∈ x.givens, r.Plain) : x.raised.Plain := by
  induction x with
  | given r => exact h r (.head _)
  | clone x _ => exact plain_clone x.raised
  | chain x outer ihx ihouter =>
    exact (ihx fun r hr => h r (List.mem_append_left _ hr)).chain
      (ihouter fun r hr => h r (List.mem_append_right _ hr))

/-- It cannot be told what was cloned on the way. -/
theorem error_raised {x : Making} (h : ∀ r ∈ x.givens, r.Plain) :
    x.raised.error = x.original.error := by
  induction x with
  | given r => rfl
  | clone x ih => exact (error_clone (plain_raised (x := x) h)).trans (ih h)
  | chain x outer ihx ihouter =>
    have hx := ihx fun r hr => h r (List.mem_append_left _ hr)
    have houter := ihouter fun r hr => h r (List.mem_append_right _ hr)
    rw [raised, original, error_chain, error_chain, hx, houter]

end Making

end Raised

/-- **Chains.** Errors are put behind each other associatively, and the outer one has the say on the
kind unless it has none to say. Behind an error on its own, the report of another has each of its
lines four columns further in, those of its messages and values and empty ones too, and stands
between the message and the context. Whatever was cloned before and after errors were put behind
each other, kind and report are those of the errors themselves. -/
theorem chain_reports (a b c : Raised) (d : Detail) (x : Raised.Making) :
    (a.chain b).chain c = a.chain (b.chain c) ∧
    (a.chain b).kind = (if b.kind = .other then a.kind else b.kind) ∧
    (a.KeysInLine → d.Plain → ∃ lines : List (List Char), (∀ line ∈ lines, '\n' ∉ line) ∧
      a.report.toList = lines.flatMap (· ++ ['\n']) ∧
      (a.chain (.last d)).report.toList = d.message.toList ++ ['\n'] ++
        lines.flatMap ([' ', ' ', ' ', ' '] ++ · ++ ['\n']) ++
        d.context.flatMap fun entry => Error.entryText entry ++ ['\n']) ∧
    ((∀ r ∈ x.givens, r.Plain) →
      x.raised.kind = x.original.kind ∧ x.raised.report = x.original.report) := by
  refine ⟨Raised.chain_assoc a b c, Raised.kind_chain a b, ?nested, ?cloned⟩
  case nested =>
    intro hkeys hplain
    obtain ⟨lines, hlines, ha, hchain⟩ := Raised.report_chain_last hkeys d
    refine ⟨lines, hlines, ha, ?_⟩
    rw [hchain, show d.reported = d.message from hplain]
    simp only [Error.unlines, List.flatMap_map]
    rfl
  case cloned =>
    intro hplain
    have herror := Raised.Making.error_raised hplain
    exact ⟨congrArg Error.kind herror, congrArg Error.report herror⟩

/-- An error of two, with an empty line in the message and a line end in a value. -/
def Raised.wrongArgument : Raised :=
  .around (.ofFault ⟨.type, "wrong\n\nargument", [(some "found", "a\nb"), (none, "none")]⟩)
    (.last (.ofForeign .io "no file" "no file" ["gone"]))

/-- A detail to put in front of it. -/
def Detail.page : Detail := .ofFault ⟨.other, "page", [(some "at", "1")]⟩

/-- The error is cloned, put behind another, and cloned with it. -/
theorem chain_reports_page :
    Raised.wrongArgument.KeysInLine ∧ Detail.page.Plain ∧
    (∃ lines : List (List Char), (∀ line ∈ lines, '\n' ∉ line) ∧
      Raised.wrongArgument.report.toList = lines.flatMap (· ++ ['\n']) ∧
      (Raised.wrongArgument.chain (.last .page)).report.toList = "page\n".toList ++
        lines.flatMap ([' ', ' ', ' ', ' '] ++ · ++ ['\n']) ++ "at: 1\n".toList) ∧
    (∀ r ∈ [Raised.wrongArgument, .last .page], r.Plain) ∧
    ((Raised.wrongArgument.clone.chain (.last .page)).clone.kind = .type ∧
      (Raised.wrongArgument.clone.chain (.last .page)).clone.report =
        (Raised.wrongArgument.chain (.last .page)).report) := by
  have hkeys : Raised.wrongArgument.KeysInLine := by decide
  have hgivens : ∀ r ∈ [Raised.wrongArgument, .last .page], r.Plain := by decide
  have happlied := chain_reports .wrongArgument (.last .page) (.last .page) .page
    (.clone (.chain (.clone (.given .wrongArgument)) (.given (.last .page))))
  exact ⟨hkeys, rfl, happlied.2.2.1 hkeys rfl, hgivens,
    (happlied.2.2.2 hgivens).1.trans (by decide), (happlied.2.2.2 hgivens).2⟩

end Stencil
