import Stencil.Proofs.Files.Output
import Stencil.Proofs.Site.Engines
import Stencil.Site.Basic

/-!
# Rendering the templates of a site

Each template is rendered to a file below the directory for output. If there are no links on the way
to these files, no other names for them, and no files of the input, then what is written for one
template leaves the others as they are, and their files can be created afterwards if they could be
before.

Results:
* `renderFile_wrote`: what comes of one template.
* `renderFiles_rendered`: if all templates can be rendered, and their files created, all are.
* `writable_of_renderFiles`: if all are rendered, they could be at first.
-/

namespace Stencil

open FileTree

variable {t t' t₀ t₁ : FileTree} {out : Path} {o : Place} {entries : List WalkEntry}
  {settings : Settings} {data : Dict Value} {names : List String}
  {compiled : String → Except Error Compiled} {e : Engine (StateM FileTree)}

namespace Site

/-- The text that a template is rendered to, and the error. -/
def textRun (settings : Settings) (compiled : String → Except Error Compiled) (data : Dict Value)
    (name : String) : Run Unit String :=
  Engine.rendered settings (compiled name) .text (.ofDict data) () ""

theorem render_textRun {name : String} (hgives : e.Gives t entries settings names compiled)
    (hname : name ∈ names) (data : Dict Value) :
    ((e.render name .text (.ofDict data : Members Unit) () "").run t).1.1 =
      textRun settings compiled data name := by
  obtain ⟨_, -, hrun⟩ := hgives.render hname (fun _ _ _ => rfl) .text (.ofDict data) () ""
  rw [hrun, textRun]

/-- Rendering goes on from the file that has been created. -/
theorem renderFile_congr {name : String} {file : Handle}
    (h : Succeeds (createFile (out.join name)) t file t₁)
    (h' : Succeeds (createFile (out.join name)) t' file t₁) :
    (renderFile e out data name).run t = (renderFile e out data name).run t' := by
  unfold renderFile
  rw [run_bind, run_bind, h.run, h'.run]

theorem createFile_of_renderFile {name : String}
    (h : ((renderFile e out data name).run t).1.1 = .ok ()) :
    ∃ file t₁, Succeeds (createFile (out.join name)) t file t₁ := by
  unfold renderFile at h
  rw [run_bind] at h
  cases hcreate : ((createFile (m := StateM FileTree) (out.join name)).run t).1 with
  | ok file => exact ⟨file, _, hcreate, rfl⟩
  | error err =>
    rw [hcreate] at h
    cases h

variable (data) in
/-- What comes of rendering a template to a file that has been created. -/
theorem renderFile_run {name : String} {file : Handle}
    (hgives : e.Gives t₀ entries settings names compiled) (hname : name ∈ names)
    (hcreate : Succeeds (createFile (out.join name)) t file t₁) (hreads : t₁.ReadsAs t₀ entries) :
    ∃ result e', Engine.Gives e' t₀ entries settings names compiled ∧
      (renderFile e out data name).run t = ((result, e'),
        (t₁.write file (textRun settings compiled data name).sink.toUTF8).2) ∧
      (result = .ok () ↔ (textRun settings compiled data name).error = none) := by
  obtain ⟨e', he', hrender⟩ := hgives.render hname hreads .bytes (.ofDict data) () .empty
  obtain ⟨herror, hsink⟩ := Engine.rendered_bytes settings (compiled name) (.ofDict data) ()
  unfold renderFile
  rw [run_bind, hcreate.run]
  simp only [run_bind, hrender, hsink]
  rw [← textRun, run_write]
  simp only [run_pure, herror]
  rw [← textRun]
  refine ⟨_, e', he', rfl, ?_⟩
  cases (textRun settings compiled data name).error with
  | none => simp [Except.within, Except.mapError, Except.map]
  | some err => simp [Except.within, Except.mapError]

/-! ## One template -/

/-- What a walk has found is read as in another tree, and is not where output goes. -/
structure Keeps (t : FileTree) (o : Place) (t₀ : FileTree) (entries : List WalkEntry) : Prop where
  file : ∀ e ∈ entries, e.isFile = true → ∃ place node,
    t.locate true e.path = .ok (place, some (.file node)) ∧
      t₀.read e.path = .ok (t.content node) ∧ ¬o <+: place

theorem Keeps.readsAs (h : Keeps t o t₀ entries) : t.ReadsAs t₀ entries := by
  intro e he hfile
  obtain ⟨place, node, hlocate, hread, -⟩ := h.file e he hfile
  rw [read_of_locate hlocate, hread]

theorem Keeps.wrote {place : List Name} {node : Nat} (h : Keeps t o t₀ entries)
    (hplain : Plain t o place) (hwritable : Writable t out o place)
    (hwrote : Wrote t o place node t') : Keeps t' o t₀ entries where
  file e he hfile := by
    obtain ⟨p, n, hlocate, hread, happart⟩ := h.file e he hfile
    have hentry := (locate_entry hlocate).symm
    have hnow := hwritable.entry_some hwrote hentry
    refine ⟨p, n, locate_file (hwrote.toExtends hwritable) hlocate hnow, ?_, happart⟩
    rw [hread, hwrote.content_of_sole hplain.sole hentry fun heq => happart ⟨place, heq.symm⟩]

/-- A place for a template: its names are texts, and make up the name of the template. -/
structure IsPage (names : List String) (place : List Name) : Prop where
  ne_nil : place ≠ []
  isName : ∀ s ∈ place, Path.IsName s
  isText : ∀ s ∈ place, s.IsText
  mem : nameOf place ∈ names

theorem IsPage.join {place : List Name} (h : IsPage names place) (out : Path) :
    out.join (nameOf place) = out.below place := by
  rw [nameOf, Path.ofText_intercalate h.ne_nil h.isName h.isText]
  rfl

section Step

variable {place : List Name}

theorem writable_of_renderFile (hopens : Opens t out o) (hpage : IsPage names place)
    (hplain : Plain t o place) (h : ((renderFile e out data (nameOf place)).run t).1.1 = .ok ()) :
    Writable t out o place := by
  obtain ⟨file, t₁, hcreate⟩ := createFile_of_renderFile h
  rw [hpage.join] at hcreate
  exact (createFile_wrote hopens hpage.ne_nil hpage.isName hplain.unlinked hcreate).1

variable (data) in
/-- What comes of rendering a template where its file can be created. -/
theorem renderFile_wrote (hgives : e.Gives t₀ entries settings names compiled)
    (hopens : Opens t out o) (hkeeps : Keeps t o t₀ entries) (hpage : IsPage names place)
    (hplain : Plain t o place) (hwritable : Writable t out o place) :
    ∃ result e' node t', Engine.Gives e' t₀ entries settings names compiled ∧
      (renderFile e out data (nameOf place)).run t = ((result, e'), t') ∧
      (result = .ok () ↔ (textRun settings compiled data (nameOf place)).error = none) ∧
      Wrote t o place node t' ∧
      t'.locate true (out.below place) = .ok (o ++ place, some (.file node)) ∧
      t'.content node = (textRun settings compiled data (nameOf place)).sink.toUTF8 := by
  obtain ⟨file, t₁, hcreate⟩ :=
    createFile_writable hopens hpage.ne_nil hpage.isName hwritable
  obtain ⟨-, hwrote, hlocate, hempty, hposition⟩ :=
    createFile_wrote hopens hpage.ne_nil hpage.isName hplain.unlinked hcreate
  rw [← hpage.join] at hcreate
  obtain ⟨result, e', he', hrun, hresult⟩ := renderFile_run data hgives hpage.mem hcreate
    (hkeeps.wrote hplain hwritable hwrote).readsAs
  generalize (textRun settings compiled data (nameOf place)).sink.toUTF8 = bytes at hrun ⊢
  -- The file has just been created, so that its beginning is its end.
  have hend : t₁.AtEnd file := by
    intro position hat
    rw [hposition] at hat
    rw [hempty, ← Option.some.inj hat]
    rfl
  refine ⟨result, e', file.node, _, he', hrun, hresult, hwrote.write bytes,
    locate_file (extends_write file bytes) hlocate (by rw [entry?_write, hwrote.entry]), ?_⟩
  rw [(write_end hend bytes).2.2.2, hempty, ByteArray.empty_append]

end Step

/-! ## All templates -/

/-- The same files, but for those at some places below a directory. -/
structure Rendered (t : FileTree) (out : Path) (o : Place) (places : List (List Name))
    (content : String → ByteArray) (t' : FileTree) : Prop where
  grows : Extends t t'
  file : ∀ place ∈ places, ∃ node,
    t'.locate true (out.below place) = .ok (o ++ place, some (.file node)) ∧
      t'.content node = content (nameOf place)
  other : ∀ p, (∀ place ∈ places, p ≠ o ++ place) → t'.entry? p = t.entry? p ∨
    t.entry? p = none ∧ t'.entry? p = some .directory
  kept : ∀ p, (∀ place ∈ places, p ≠ o ++ place) → ∀ node, t.entry? p = some (.file node) →
    t'.content node = t.content node

/-- A file elsewhere is the same. -/
theorem Rendered.file_other {places : List (List Name)} {content : String → ByteArray} {p : Place}
    {node : Nat} (h : Rendered t out o places content t') (hp : ∀ place ∈ places, p ≠ o ++ place)
    (hentry : t.entry? p = some (.file node)) :
    t'.entry? p = some (.file node) ∧ t'.content node = t.content node := by
  refine ⟨?_, h.kept p hp node hentry⟩
  obtain hsame | ⟨hnone, -⟩ := h.other p hp
  · rw [hsame, hentry]
  · rw [hentry] at hnone
    cases hnone

variable {places : List (List Name)}

variable (data) in
/-- **Rendering.** If all templates can be rendered, and their files created, all are. -/
theorem renderFiles_rendered (hgives : e.Gives t₀ entries settings names compiled)
    (hopens : Opens t out o) (hkeeps : Keeps t o t₀ entries)
    (hpages : ∀ place ∈ places, IsPage names place) (hplain : ∀ place ∈ places, Plain t o place)
    (happart : places.Pairwise Apart)
    (hall : ∀ place ∈ places, Writable t out o place ∧
      (textRun settings compiled data (nameOf place)).error = none) :
    ∃ t', Succeeds (renderFiles out data (places.map nameOf) e) t () t' ∧ Rendered t out o places
      (fun name => (textRun settings compiled data name).sink.toUTF8) t' := by
  induction places generalizing t e with
  | nil => exact ⟨t, ⟨rfl, rfl⟩, .refl t, by simp, fun _ _ => .inl rfl, fun _ _ _ _ => rfl⟩
  | cons place places ih =>
    obtain ⟨hwritable, herror⟩ := hall place (.head _)
    obtain ⟨hfirst, happart⟩ := List.pairwise_cons.1 happart
    have hplace := hplain place (.head _)
    obtain ⟨result, e', node, t₁, he', hrun, hresult, hwrote, hlocate, hcontent⟩ :=
      renderFile_wrote data hgives hopens hkeeps (hpages place (.head _)) hplace hwritable
    obtain ⟨t', hsucceeds, hrendered⟩ := ih he' (hopens.wrote hwritable hwrote)
      (hkeeps.wrote hplace hwritable hwrote) (fun p hp => hpages p (.tail _ hp))
      (fun p hp => (hplain p (.tail _ hp)).wrote hplace hwritable hwrote (hfirst p hp)) happart
      fun p hp => ⟨(hwritable.wrote_iff hwrote (hfirst p hp)).2 (hall p (.tail _ hp)).1,
        (hall p (.tail _ hp)).2⟩
    refine ⟨t', ?_, (hwrote.toExtends hwritable).trans hrendered.grows, ?_, ?_, ?_⟩
    · rw [Succeeds, List.map_cons, renderFiles, run_bind, hrun, hresult.2 herror]
      exact hsucceeds
    · intro p hp
      obtain rfl | hp := List.mem_cons.1 hp
      · -- The files rendered later are elsewhere.
        obtain ⟨hentry, hkept⟩ := hrendered.file_other (fun q hq heq =>
          (hfirst q hq).1 (by rw [List.append_cancel_left heq])) hwrote.entry
        exact ⟨node, locate_file hrendered.grows hlocate hentry, hkept.trans hcontent⟩
      · exact hrendered.file p hp
    · intro p hp
      have hlater := hrendered.other p fun q hq => hp q (.tail _ hq)
      by_cases habove : ∃ q, Along q place ∧ p = o ++ q
      · obtain ⟨q, hq, rfl⟩ := habove
        have hproper : q ≠ place := fun h => hp place (.head _) (by rw [h])
        have hnow := hrendered.grows.directory _ (hwrote.above q hq hproper)
        obtain hnone | hdir := hwritable.above q hq hproper
        · exact .inr ⟨hnone, hnow⟩
        · exact .inl (hnow.trans hdir.symm)
      · rwa [hwrote.other p fun q hq heq => habove ⟨q, hq, heq⟩] at hlater
    · intro p hp n hentry
      rw [hrendered.kept p (fun q hq => hp q (.tail _ hq)) n (hwritable.entry_some hwrote hentry),
        hwrote.content_of_sole hplace.sole hentry (hp place (.head _))]

theorem renderFile_of_renderFiles {name : String} {rest : List String}
    (h : ((renderFiles out data (name :: rest) e).run t).1 = .ok ()) :
    ((renderFile e out data name).run t).1.1 = .ok () := by
  rw [renderFiles, run_bind] at h
  cases hrun : ((renderFile e out data name).run t).1 with
  | mk result e' =>
    cases result with
    | ok u => rfl
    | error err =>
      rw [hrun] at h
      cases h

variable (data) in
/-- If all templates are rendered, each can be rendered, and its file created. -/
theorem writable_of_renderFiles (hgives : e.Gives t₀ entries settings names compiled)
    (hopens : Opens t out o) (hkeeps : Keeps t o t₀ entries)
    (hpages : ∀ place ∈ places, IsPage names place) (hplain : ∀ place ∈ places, Plain t o place)
    (happart : places.Pairwise Apart)
    (h : ((renderFiles out data (places.map nameOf) e).run t).1 = .ok ()) :
    ∀ place ∈ places, Writable t out o place ∧
      (textRun settings compiled data (nameOf place)).error = none := by
  induction places generalizing t e with
  | nil => simp
  | cons place places ih =>
    obtain ⟨hfirst, happart⟩ := List.pairwise_cons.1 happart
    have hplace := hplain place (.head _)
    rw [List.map_cons] at h
    have hok := renderFile_of_renderFiles h
    rw [renderFiles, run_bind] at h
    have hwritable := writable_of_renderFile hopens (hpages place (.head _)) hplace hok
    obtain ⟨result, e', node, t₁, he', hrun, hresult, hwrote, -⟩ :=
      renderFile_wrote data hgives hopens hkeeps (hpages place (.head _)) hplace hwritable
    rw [hrun] at hok h
    obtain rfl : result = .ok () := hok
    have hrest := ih he' (hopens.wrote hwritable hwrote) (hkeeps.wrote hplace hwritable hwrote)
      (fun p hp => hpages p (.tail _ hp))
      (fun p hp => (hplain p (.tail _ hp)).wrote hplace hwritable hwrote (hfirst p hp)) happart h
    intro p hp
    obtain rfl | hp := List.mem_cons.1 hp
    · exact ⟨hwritable, hresult.1 rfl⟩
    · exact ⟨(hwritable.wrote_iff hwrote (hfirst p hp)).1 (hrest p hp).1, (hrest p hp).2⟩

end Site

end Stencil
