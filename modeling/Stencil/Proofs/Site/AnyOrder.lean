import Mathlib
import Stencil.Proofs.Site.Rendering

/-!
# Rendering a site in any order

What becomes of a site does not depend on the order in which its templates are rendered, nor on
which of them are compiled early. All are rendered if each can be compiled and rendered and its file
can be created, and then their files are all that has changed, but for directories that were
missing.

This counts on three things. There are no links on the way to the files for output, as what is
written to a link goes where it leads, and that may be any other file. These files have no other
names, as each of a file's names shows what is written to it. And the names of the templates are
texts, as two names that are none may be shown alike, and then make one template.

Results:
* `exists_made`: what holds once the directory for output has been made.
* `renderFiles_iff`: when templates are rendered, and what changes then.
* `renderAll_any_order`: templates, their names and their files, in any order.
* `renderAll_shared`: what happens to another file behind a link, to another name of a file, and to
  names that are no texts.
-/

namespace Stencil

open FileTree

variable {t t' t₀ t₁ : FileTree} {root out : Path} {o : Place}
  {walk : Walker (StateM FileTree)} {entries : List WalkEntry}
  {settings : Settings} {data : Dict Value} {names : List String}
  {compiled : String → Except Error Compiled} {e : Engine (StateM FileTree)}

/-- Where the directory for output is, once it has been made. -/
def FileTree.OutputAt (t : FileTree) (out : Path) (o : Place) : Prop :=
  ∃ t', Succeeds (createDirectories (out.directory [])) t () t' ∧
    t'.reach (out.directory []) = .ok (o, some .directory)

/-- No file of the input is below the directory for output. -/
def FileTree.Separate (t : FileTree) (root out : Path) : Prop :=
  ∀ o, t.OutputAt out o → ∀ place p node, t.HasFile root place →
    t.locate true (root.below place) = .ok (p, some (.file node)) → ¬o <+: p

/-- There are no links on the way to the files for templates, and no other names for them. -/
def FileTree.PlainOutput (t : FileTree) (settings : Settings) (root out : Path) : Prop :=
  ∀ o, t.OutputAt out o → ∀ place, t.HasTemplate settings root place → t.Plain o place

/-- All names on the way to templates are texts. -/
def FileTree.TextNames (t : FileTree) (settings : Settings) (root : Path) : Prop :=
  ∀ place, t.HasTemplate settings root place → ∀ s ∈ place, s.IsText

namespace Site

/-- Renders all templates in this order, and gives their number. -/
def renderInOrder {m : Type → Type} [Monad m] [Files m] (order : List String) (engine : Engine m)
    (output : Path) (data : Dict Value) : m (Except Error Nat) := do
  let result ← renderFiles output data order engine
  return result.map fun () => engine.names.length

theorem renderAll_eq {m : Type → Type} [Monad m] [Files m] (engine : Engine m) (output : Path)
    (data : Dict Value) :
    renderAll engine output data = renderInOrder engine.names engine output data := rfl

theorem OutputAt.unique {o' : Place} (h : t.OutputAt out o) (h' : t.OutputAt out o') : o = o' := by
  obtain ⟨t₁, hmade, hreach⟩ := h
  obtain ⟨t₂, hmade', hreach'⟩ := h'
  rw [(hmade.unique hmade').2, hreach'] at hreach
  exact (Prod.mk.inj (Except.ok.inj hreach)).1.symm

/-- What holds once the directory for output has been made. -/
theorem exists_made (hwalk : t.Yields walk root entries) (hseparate : t.Separate root out)
    {place : List Name} (hpage : IsPage names place) {file : Handle}
    (h : Succeeds (createFile (out.join (nameOf place))) t file t') :
    ∃ o t₁, t.OutputAt out o ∧ Succeeds (createDirectories (out.directory [])) t () t₁ ∧
      AddsDirectories t t₁ ∧ Opens t₁ out o ∧ Keeps t₁ o t entries := by
  rw [hpage.join] at h
  obtain ⟨t₁, hmade, -⟩ := (createFile_made hpage.ne_nil hpage.isName).1 h
  obtain ⟨hadds, o, hreach⟩ := createWithin_ok hmade
  have hat : t.OutputAt out o := ⟨t₁, hmade, hreach⟩
  refine ⟨o, t₁, hat, hmade, hadds, ⟨hreach⟩, ⟨fun e he hfile => ?_⟩⟩
  obtain ⟨place, hentry⟩ := hwalk.found e he hfile
  obtain ⟨p, node, hlocate⟩ := isFile_iff.1 hentry.hasFile.isFile
  have happart := hseparate o hat place p node hentry.hasFile hlocate
  rw [← hentry.locate] at hlocate
  have hnow : t₁.entry? p = some (.file node) := hadds.entry_some (locate_entry hlocate).symm
  refine ⟨p, node, locate_file hadds.toExtends hlocate hnow, ?_, happart⟩
  rw [read_of_locate hlocate, hadds.content]

/-- Names of files are the names of places. -/
theorem exists_places {P : List Name → Prop} {order : List String}
    (h : ∀ name ∈ order, ∃ place, P place ∧ nameOf place = name) :
    ∃ places : List (List Name), order = places.map nameOf ∧ ∀ place ∈ places, P place := by
  induction order with
  | nil => exact ⟨[], rfl, by simp⟩
  | cons name order ih =>
    obtain ⟨place, hplace, hname⟩ := h name (.head _)
    obtain ⟨places, horder, hplaces⟩ := ih fun n hn => h n (.tail _ hn)
    exact ⟨place :: places, by rw [List.map_cons, hname, horder],
      List.forall_mem_cons.2 ⟨hplace, hplaces⟩⟩

theorem pairwise_apart {places : List (List Name)} (hnodup : (places.map nameOf).Nodup)
    (hfiles : ∀ place ∈ places, t.HasFile root place) : places.Pairwise Apart := by
  refine (List.pairwise_map.1 hnodup).imp_of_mem fun {p q} hp hq hne =>
    ⟨fun h => hne ?_, fun h => hne ?_⟩
  · rw [(hfiles p hp).eq_of_isPrefix (hfiles q hq) h]
  · rw [(hfiles q hq).eq_of_isPrefix (hfiles p hp) h]

/-- A file can be created at first if it can once the directory for output has been made. -/
theorem createFile_iff_writable (hmade : Succeeds (createDirectories (out.directory [])) t () t₁)
    (hopens : Opens t₁ out o) {place : List Name} (hpage : IsPage names place)
    (hplain : Plain t₁ o place) :
    (∃ file t', Succeeds (createFile (out.join (nameOf place))) t file t') ↔
      Writable t₁ out o place := by
  rw [hpage.join]
  constructor
  · rintro ⟨file, t', h⟩
    obtain ⟨t₂, hmade', h⟩ := (createFile_made hpage.ne_nil hpage.isName).1 h
    rw [← (hmade.unique hmade').2] at h
    exact (createFile_wrote hopens hpage.ne_nil hpage.isName hplain.unlinked h).1
  · intro h
    obtain ⟨file, t', h⟩ := createFile_writable hopens hpage.ne_nil hpage.isName h
    exact ⟨file, t', (createFile_made hpage.ne_nil hpage.isName).2 ⟨t₁, hmade, h⟩⟩

variable (data e) in
/-- To make the directory for output first makes no difference. -/
theorem renderFiles_made (hmade : Succeeds (createDirectories (out.directory [])) t () t₁)
    {place : List Name} (hpage : IsPage names place) {file : Handle}
    (h : Succeeds (createFile (out.join (nameOf place))) t file t') (rest : List String) :
    (renderFiles out data (nameOf place :: rest) e).run t =
      (renderFiles out data (nameOf place :: rest) e).run t₁ := by
  have h' : Succeeds (createFile (out.join (nameOf place))) t₁ file t' := by
    rw [hpage.join] at h ⊢
    obtain ⟨t₂, hmade', h'⟩ := (createFile_made hpage.ne_nil hpage.isName).1 h
    rwa [← (hmade.unique hmade').2] at h'
  rw [renderFiles, run_bind, run_bind, renderFile_congr h h']

variable (data) in
/-- **Any order.** In whatever order templates are rendered, all are, if each can be rendered and
its file created at first. -/
theorem renderFiles_iff (hgives : e.Gives t entries settings names compiled)
    (hwalk : t.Yields walk root entries) (hseparate : t.Separate root out)
    {places : List (List Name)} (hpages : ∀ place ∈ places, IsPage names place)
    (hplain : ∀ o, t.OutputAt out o → ∀ place ∈ places, t.Plain o place)
    (happart : places.Pairwise Apart) :
    (((renderFiles out data (places.map nameOf) e).run t).1 = .ok () ↔
      ∀ place ∈ places, (textRun settings compiled data (nameOf place)).error = none ∧
        ∃ file t', Succeeds (createFile (out.join (nameOf place))) t file t') ∧
    ∀ t', Succeeds (renderFiles out data (places.map nameOf) e) t () t' →
      (∀ place ∈ places, t'.read (out.join (nameOf place)) =
        .ok (textRun settings compiled data (nameOf place)).sink.toUTF8) ∧
      ∀ p, (∀ o, t.OutputAt out o → ∀ place ∈ places, p ≠ o ++ place) →
        (t'.entry? p = t.entry? p ∨ t.entry? p = none ∧ t'.entry? p = some .directory) ∧
          ∀ node, t.entry? p = some (.file node) → t'.content node = t.content node := by
  cases places with
  | nil =>
    refine ⟨iff_of_true rfl (by simp), ?_⟩
    rintro _ ⟨-, rfl⟩
    exact ⟨by simp, fun _ _ => ⟨.inl rfl, fun _ _ => rfl⟩⟩
  | cons place rest =>
    have hpage := hpages place (.head _)
    -- Nothing is rendered unless the first file can be created.
    by_cases hfirst : ∃ file t₂, Succeeds (createFile (out.join (nameOf place))) t file t₂
    · obtain ⟨file, t₂, hfirst⟩ := hfirst
      obtain ⟨o, t₁, hat, hmade, hadds, hopens, hkeeps⟩ :=
        exists_made hwalk hseparate hpage hfirst
      have hplain₁ : ∀ p ∈ place :: rest, Plain t₁ o p :=
        fun p hp => (hplain o hat p hp).adds hadds
      have hrun := renderFiles_made data e hmade hpage hfirst (rest.map nameOf)
      rw [← List.map_cons] at hrun
      have hwritable : ∀ p ∈ place :: rest,
          ((∃ file t', Succeeds (createFile (out.join (nameOf p))) t file t') ↔
            Writable t₁ out o p) :=
        fun p hp => createFile_iff_writable hmade hopens (hpages p hp) (hplain₁ p hp)
      have hback := writable_of_renderFiles data hgives hopens hkeeps hpages hplain₁ happart
      have hforth := renderFiles_rendered data hgives hopens hkeeps hpages hplain₁ happart
      constructor
      · rw [hrun]
        constructor
        · intro h p hp
          obtain ⟨hw, herror⟩ := hback h p hp
          exact ⟨herror, (hwritable p hp).2 hw⟩
        · intro h
          obtain ⟨t', hsucceeds, -⟩ := hforth fun p hp =>
            ⟨(hwritable p hp).1 (h p hp).2, (h p hp).1⟩
          exact hsucceeds.1
      · intro t' hsucceeds
        rw [Succeeds, hrun] at hsucceeds
        obtain ⟨t'', hsucceeds'', hrendered⟩ := hforth (hback hsucceeds.1)
        obtain rfl : t'' = t' := (hsucceeds''.unique hsucceeds).2
        refine ⟨fun p hp => ?_, fun p hp => ⟨?_, fun node hnode => ?_⟩⟩
        · obtain ⟨node, hlocate, hcontent⟩ := hrendered.file p hp
          rw [(hpages p hp).join, read_of_locate hlocate, hcontent]
        · rcases hadds.entry p with hsame | ⟨hnone, hdir⟩ <;>
            rcases hrendered.other p (hp o hat) with hsame' | ⟨hnone', hdir'⟩
          · exact .inl (hsame'.trans hsame)
          · exact .inr ⟨hsame ▸ hnone', hdir'⟩
          · exact .inr ⟨hnone, hsame'.trans hdir⟩
          · exact .inr ⟨hnone, hdir'⟩
        · rw [hrendered.kept p (hp o hat) node (hadds.entry_some hnode), hadds.content]
    · have hfails : ¬((renderFiles out data ((place :: rest).map nameOf) e).run t).1 = .ok () :=
        fun h => hfirst (createFile_of_renderFile (renderFile_of_renderFiles h))
      exact ⟨iff_of_false hfails fun h => hfirst (h place (.head _)).2,
        fun t' h => absurd h.1 hfails⟩

theorem run_renderInOrder (order : List String) (e : Engine (StateM FileTree)) (out : Path)
    (data : Dict Value) (t : FileTree) : (renderInOrder order e out data).run t =
      (((renderFiles out data order e).run t).1.map fun () => e.names.length,
        ((renderFiles out data order e).run t).2) := rfl

theorem exists_renderInOrder {order : List String} :
    (∃ n, ((renderInOrder order e out data).run t).1 = .ok n) ↔
      ((renderFiles out data order e).run t).1 = .ok () := by
  rw [run_renderInOrder]
  cases ((renderFiles out data order e).run t).1 with
  | ok u => simp [Except.map]
  | error err => simp [Except.map]

theorem succeeds_of_renderInOrder {order : List String} {n : Nat}
    (h : (renderInOrder order e out data).run t = (.ok n, t')) :
    n = e.names.length ∧ Succeeds (renderFiles out data order e) t () t' := by
  have hok := exists_renderInOrder.1 ⟨n, congrArg Prod.fst h⟩
  rw [run_renderInOrder, hok] at h
  obtain ⟨hn, hstate⟩ := Prod.mk.inj h
  exact ⟨(Except.ok.inj hn).symm, hok, hstate⟩

/-- **A site.** The templates of a directory are its files with the right extension, under names
that increase. In whatever order they are rendered, and whichever of them are compiled early, all
are rendered if and only if each can be and its file can be created. Then each file holds the text
of its template, with the data given in front of that of the settings, and nothing else has changed
but for directories that were missing. -/
theorem renderAll_any_order (hroot : t.isDirectory root = true)
    (hwalk : t.Yields walk root entries) (hseparate : t.Separate root out) (settings : Settings)
    (hplain : t.PlainOutput settings root out) (htext : t.TextNames settings root)
    (data : Dict Value) :
    ∃ engine, (Engine.discover (m := StateM FileTree) walk root settings).run t =
        (.ok engine, t) ∧
      engine.names.Pairwise (· < ·) ∧
      (∀ name, name ∈ engine.names ↔
        ∃ place, t.HasTemplate settings root place ∧ nameOf place = name) ∧
      (∀ place, t.HasTemplate settings root place →
        (∀ other, t.HasTemplate settings root other → nameOf place = nameOf other →
          place = other) ∧
        ∃ path, t.locate true path = t.locate true (root.below place) ∧
          engine.templates.get? (nameOf place) =
            some (.pending (Engine.compile (nameOf place) path settings.autoescape))) ∧
      ∀ early order, order.Perm engine.names →
        ∃ e, (Engine.compileAll early engine).run t = (e, t) ∧
          renderAll e out data = renderInOrder engine.names e out data ∧
          let text := fun name =>
            ((engine.render name .text (.ofDict data : Members Unit) () "").run t).1.1
          let run := (renderInOrder order e out data).run t
          ((∃ n, run.1 = .ok n) ↔ ∀ name ∈ engine.names, (text name).error = none ∧
            ∃ file, ((createFile (m := StateM FileTree) (out.join name)).run t).1 = .ok file) ∧
          ∀ n t', run = (.ok n, t') → n = engine.names.length ∧
            (∀ name ∈ engine.names, t'.read (out.join name) = .ok (text name).sink.toUTF8) ∧
            ∀ p, (∀ o place, t.OutputAt out o → t.HasTemplate settings root place →
                p ≠ o ++ place) →
              (t'.entry? p = t.entry? p ∨
                t.entry? p = none ∧ t'.entry? p = some .directory) ∧
              ∀ node, t.entry? p = some (.file node) → t'.content node = t.content node := by
  obtain ⟨hsorted, hmem⟩ := Engine.names_ofEntries settings hwalk
  have hgives := Engine.gives_ofEntries hwalk settings
  have hreads : t.ReadsAs t entries := fun _ _ _ => rfl
  have hinj : ∀ place other, t.HasTemplate settings root place →
      t.HasTemplate settings root other → nameOf place = nameOf other → place = other :=
    fun place other h h' => nameOf_inj h.hasFile h'.hasFile (htext _ h) (htext _ h')
  refine ⟨Engine.ofEntries root settings entries, discover_run hroot hwalk, hsorted, hmem,
    fun place hplace => ⟨fun other => hinj place other hplace, ?file⟩,
    fun early order hperm => ?order⟩
  case file =>
    have hname := (hmem _).2 ⟨place, hplace, rfl⟩
    obtain ⟨d, hd⟩ := Option.isSome_iff_exists.1 (Dict.mem_keys.1 hname)
    obtain ⟨entry, -, other, hentry, hother, hsame, rfl⟩ := Engine.get?_ofEntries hwalk hd
    obtain rfl := hinj other place hother hplace hsame
    exact ⟨entry.path, hentry.locate, hd⟩
  case order =>
    obtain ⟨e, he, hcompiled⟩ := hgives.compileAll hreads early
    refine ⟨e, hcompiled, by rw [renderAll_eq, he.names_eq], ?_⟩
    obtain ⟨places, rfl, htemplates⟩ :=
      exists_places fun name hname => (hmem name).1 (hperm.mem_iff.1 hname)
    have hpages : ∀ place ∈ places,
        IsPage (Engine.ofEntries root settings entries).names place := by
      intro place hplace
      have hfile := (htemplates place hplace).hasFile
      exact ⟨hfile.ne_nil, hfile.names, htext _ (htemplates place hplace),
        hperm.mem_iff.1 (List.mem_map_of_mem hplace)⟩
    have hnodup : (places.map nameOf).Nodup :=
      hperm.nodup_iff.2 (hsorted.imp fun h => h.ne)
    have hall : ∀ P : String → Prop,
        (∀ name ∈ (Engine.ofEntries root settings entries).names, P name) ↔
          ∀ place ∈ places, P (nameOf place) := by
      intro P
      simp only [← hperm.mem_iff, List.forall_mem_map]
    obtain ⟨hiff, hsucceeds⟩ := renderFiles_iff data he hwalk hseparate hpages
      (fun o hat place hplace => hplain o hat place (htemplates place hplace))
      (pairwise_apart hnodup fun place hplace => (htemplates place hplace).hasFile)
    dsimp only
    refine ⟨?_, fun n t' hn => ?_⟩
    · rw [exists_renderInOrder, hiff, hall]
      refine forall₂_congr fun place hplace => ?_
      rw [render_textRun hgives (hpages place hplace).mem data]
      exact and_congr_right'
        ⟨fun ⟨file, _, h⟩ => ⟨file, h.1⟩, fun ⟨file, h⟩ => ⟨file, _, h, rfl⟩⟩
    · obtain ⟨rfl, hfiles⟩ := succeeds_of_renderInOrder hn
      obtain ⟨hread, hother⟩ := hsucceeds t' hfiles
      refine ⟨by rw [he.names_eq], (hall _).2 fun place hplace => ?_, fun p hp => ?_⟩
      · rw [render_textRun hgives (hpages place hplace).mem data]
        exact hread place hplace
      · exact hother p fun o hat place hplace => hp o place hat (htemplates place hplace)

/-! ## Sites of one template -/

theorem outputAt_iff (hreach : t.reach (out.directory []) = .ok (o, some .directory)) {o' : Place} :
    t.OutputAt out o' ↔ o' = o := by
  have hat : t.OutputAt out o := ⟨t, createWithin_of_reach hreach, hreach⟩
  constructor
  · exact fun h => OutputAt.unique h hat
  · rintro rfl
    exact hat

/-- A directory of files is apart from another directory if these files are. -/
theorem Flat.separate {files : List Name} (h : t.Flat root files)
    (hreach : t.reach (out.directory []) = .ok (o, some .directory))
    (hfiles : ∀ x ∈ files, ∃ p node, t.locate true (root.below [x]) = .ok (p, some (.file node)) ∧
      ¬o <+: p) : t.Separate root out := by
  intro o' hat place p node hfile hlocate
  obtain rfl := (outputAt_iff hreach).1 hat
  obtain ⟨x, hx, rfl⟩ := h.hasFile_iff.1 hfile
  obtain ⟨q, n, hlocate', happart⟩ := hfiles x hx
  rw [hlocate'] at hlocate
  rwa [← (Prod.mk.inj (Except.ok.inj hlocate)).1]

theorem Flat.hasTemplate_iff {files : List Name} (h : t.Flat root files)
    (htemplate : ∀ x ∈ files, settings.isTemplatePath (root.below [x]) = true)
    {place : List Name} : t.HasTemplate settings root place ↔ ∃ x ∈ files, place = [x] := by
  refine ⟨fun hplace => h.hasFile_iff.1 hplace.hasFile, ?_⟩
  rintro ⟨x, hx, rfl⟩
  exact ⟨h.hasFile_iff.2 ⟨x, hx, rfl⟩, Settings.isTemplatePath_iff.1 (htemplate x hx)⟩

/-- If all templates have one name, there is one template. -/
theorem Flat.names_eq {files : List Name} {name : String} (h : t.Flat root files)
    (hwalk : t.Yields walk root entries) (hne : files ≠ [])
    (htemplate : ∀ x ∈ files, settings.isTemplatePath (root.below [x]) = true)
    (hname : ∀ x ∈ files, nameOf [x] = name) :
    (Engine.ofEntries root settings entries).names = [name] := by
  obtain ⟨hsorted, hmem⟩ := Engine.names_ofEntries settings hwalk
  have hone : ∀ n, n ∈ (Engine.ofEntries root settings entries).names ↔ n ∈ [name] := by
    intro n
    rw [hmem, List.mem_singleton]
    constructor
    · rintro ⟨place, hplace, rfl⟩
      obtain ⟨x, hx, rfl⟩ := (Flat.hasTemplate_iff h htemplate).1 hplace
      exact hname x hx
    · rintro rfl
      obtain ⟨x, hx⟩ := List.exists_mem_of_ne_nil files hne
      exact ⟨[x], (Flat.hasTemplate_iff h htemplate).2 ⟨x, hx, rfl⟩, hname x hx⟩
  have hnodup : (Engine.ofEntries root settings entries).names.Nodup :=
    hsorted.imp fun hlt => hlt.ne
  exact List.perm_singleton.1
    ((List.perm_ext_iff_of_nodup hnodup (List.nodup_singleton name)).2 hone)

/-- A file without actions is rendered to its own text. -/
theorem render_verbatim {engine : Engine (StateM FileTree)} {name text : String} {path : Path}
    {autoescape : Bool} (hget : engine.templates.get? name =
      some (.pending (Engine.compile name path autoescape)))
    (hread : t.read path = .ok text.toUTF8) (haction : isTemplate text = false)
    (data : Members Unit) :
    ((engine.render name .text data () "").run t).1.1 = ⟨none, (), text⟩ := by
  have htext : String.fromUTF8? text.toUTF8 = some text := dif_pos text.isValidUTF8
  have hcompile : ((Engine.compile (m := StateM FileTree) name path autoescape).run t).1 =
      .ok (.verbatim text) := by
    unfold Engine.compile Source.read Source.contents Source.ofBytes
    simp only [run_bind, run_read, hread, run_pure, htext, haction]
    rfl
  unfold Engine.render
  rw [run_bind, Engine.run_get hget, Engine.run_force_pending, hcompile]
  show (⟨none, (), "" ++ text⟩ : Run Unit String) = _
  rw [String.empty_append]

/-- A file that is there can be created, and is emptied. -/
theorem createFile_of_locate {path parent : Path} {here place : Place} {node : Nat}
    (hparent : path.parent? = some parent) (hreach : t.reach parent = .ok (here, some .directory))
    (hlocate : t.locate true path = .ok (place, some (.file node))) :
    Succeeds (createFile path) t ⟨node, some 0⟩ (t.store node .empty) := by
  rw [createFile_iff]
  refine ⟨t, create_iff.2 ⟨node, t, nodeAt_iff.2 ⟨place, .inl ⟨hlocate, rfl⟩⟩, rfl, rfl⟩, ?_⟩
  rw [hparent]
  exact createWithin_of_reach hreach

/-- The site of a page in a directory, and other files. -/
def onePage (others : List (Place × FileEntry)) (old : ByteArray) : FileTree :=
  ⟨["site"], (["site", "in"], .directory) :: (["site", "in", "a.html"], .file 0) :: others,
    [(0, "A".toUTF8), (1, old)]⟩

section OnePage

variable {others : List (Place × FileEntry)} {old : ByteArray}

theorem onePage_input (last : Bool) :
    (onePage others old).locate last "in" = .ok (["site", "in"], some .directory) := by
  cases last <;> cbv

theorem onePage_page : (onePage others old).locate true (Path.below "in" ["a.html"]) =
    .ok (["site", "in", "a.html"], some (.file 0)) := by
  cbv

theorem onePage_flat (hnamed : (onePage others old).Named)
    (hchildren : (onePage others old).children ["site", "in"] =
      [(("a.html" : Name), FileEntry.file 0)]) :
    (onePage others old).Flat "in" ["a.html"] where
  named := hnamed
  path := by decide
  link := by rw [link?, onePage_input]
  list := list_ok_iff.2 ⟨_, onePage_input true, by rw [hchildren]; rfl⟩
  visible := by decide
  isFile := by
    intro name hname
    obtain rfl := List.mem_singleton.1 hname
    exact isFile_iff.2 ⟨_, _, onePage_page⟩

theorem page_isTemplatePath : ∀ x ∈ [("a.html" : Name)],
    Settings.default.isTemplatePath (Path.below "in" [x]) = true := by
  intro x hx
  obtain rfl := List.mem_singleton.1 hx
  cbv

theorem onePage_separate (hflat : (onePage others old).Flat "in" ["a.html"])
    (hreach : (onePage others old).reach (out.directory []) = .ok (o, some .directory))
    (ho : ¬o <+: ["site", "in", "a.html"]) : (onePage others old).Separate "in" out := by
  refine Flat.separate hflat hreach fun x hx => ?_
  obtain rfl := List.mem_singleton.1 hx
  exact ⟨_, _, onePage_page, ho⟩

theorem onePage_names (hflat : (onePage others old).Flat "in" ["a.html"])
    (hwalk : (onePage others old).Yields walk "in" entries) :
    (Engine.ofEntries "in" .default entries).names = ["a.html"] := by
  refine Flat.names_eq hflat hwalk (List.cons_ne_nil _ _) page_isTemplatePath fun x hx => ?_
  rw [List.mem_singleton.1 hx]
  decide

end OnePage

theorem sole_of_entry {place : Place} {node : Nat} (h : t.entry? place = some (.file node))
    (hall : ∀ e ∈ t.all, e.2.node? = some node → e.1 = place) : Sole t place := by
  intro n hn p hp
  rw [h] at hn
  obtain rfl := FileEntry.file.inj (Option.some.inj hn)
  exact hall _ (mem_all hp) rfl

/-- The file of the page is there from before. -/
def stalePage : FileTree :=
  onePage [(["out"], .directory), (["out", "a.html"], .file 1)] "old".toUTF8

theorem stalePage_flat : stalePage.Flat "in" ["a.html"] := onePage_flat (by decide) (by cbv)

theorem stalePage_reach : stalePage.reach (Path.directory "/out" []) =
    .ok (["out"], some .directory) := by cbv

theorem stalePage_plain : stalePage.Plain ["out"] ["a.html"] where
  unlinked p _ target hlink := by
    simpa [stalePage, onePage, all, List.range, List.range.loop] using mem_all hlink
  sole := sole_of_entry (show stalePage.entry? _ = some (.file 1) by cbv) (by decide)

theorem renderAll_any_order_stale :
    ∃ entries, stalePage.isDirectory "in" = true ∧ stalePage.Yields walkFiles "in" entries ∧
      stalePage.Separate "in" "/out" ∧ stalePage.PlainOutput .default "in" "/out" ∧
      stalePage.TextNames .default "in" ∧
      ∃ engine, (Engine.discover (m := StateM FileTree) walkFiles "in" .default).run stalePage =
          (.ok engine, stalePage) ∧
        engine.names = ["a.html"] ∧ ((renderAll engine "/out" []).run stalePage).1 = .ok 1 ∧
        ((renderAll engine "/out" []).run stalePage).2.read (Path.join "/out" "a.html") =
          .ok "A".toUTF8 := by
  have hroot : stalePage.isDirectory "in" = true := isDirectory_iff.2 ⟨_, onePage_input true⟩
  obtain ⟨entries, hwalk⟩ := stalePage_flat.yields
  have htemplate := page_isTemplatePath
  have hseparate : stalePage.Separate "in" "/out" :=
    onePage_separate stalePage_flat stalePage_reach (by decide)
  have hplain : stalePage.PlainOutput .default "in" "/out" := by
    intro o hat place hplace
    obtain rfl := (outputAt_iff stalePage_reach).1 hat
    obtain ⟨x, hx, rfl⟩ := (Flat.hasTemplate_iff stalePage_flat htemplate).1 hplace
    obtain rfl := List.mem_singleton.1 hx
    exact stalePage_plain
  have htext : stalePage.TextNames .default "in" := by
    intro place hplace s hs
    obtain ⟨x, hx, rfl⟩ := (Flat.hasTemplate_iff stalePage_flat htemplate).1 hplace
    rw [List.mem_singleton.1 hs, List.mem_singleton.1 hx]
    exact ⟨"a.html", rfl⟩
  obtain ⟨engine, hdiscover, -, -, htemplates, horder⟩ :=
    renderAll_any_order hroot hwalk hseparate .default hplain htext []
  refine ⟨entries, hroot, hwalk, hseparate, hplain, htext, engine, hdiscover, ?_⟩
  have hname : nameOf ["a.html"] = "a.html" := by decide
  have hnames : engine.names = ["a.html"] := by
    rw [discover_run hroot hwalk] at hdiscover
    rw [← Except.ok.inj (Prod.mk.inj hdiscover).1]
    exact onePage_names stalePage_flat hwalk
  -- The page has no actions, and its file is there.
  obtain ⟨-, path, hpath, hget⟩ := htemplates ["a.html"]
    ((Flat.hasTemplate_iff stalePage_flat htemplate).2 ⟨_, List.mem_singleton.2 rfl, rfl⟩)
  rw [hname] at hget
  have hread : stalePage.read path = .ok "A".toUTF8 := read_of_locate (hpath.trans onePage_page)
  have hrender := render_verbatim hget hread (by decide) (.ofDict [])
  have hparent : Path.parent? (Path.join "/out" "a.html") = some "/out" := by decide
  have hcreate : Succeeds (createFile (Path.join "/out" "a.html")) stalePage ⟨1, some 0⟩ _ :=
    createFile_of_locate hparent (by cbv) (by cbv)
  obtain ⟨e, hcompiled, heq, hiff, hok⟩ := horder [] engine.names (.refl _)
  obtain rfl : engine = e := (Prod.mk.inj hcompiled).1
  rw [← heq, hnames] at hiff hok
  obtain ⟨n, hn⟩ := hiff.2 fun name hname => by
    obtain rfl := List.mem_singleton.1 hname
    exact ⟨congrArg Run.error hrender, _, hcreate.1⟩
  obtain ⟨rfl, hread, -⟩ := hok n _ (Prod.ext hn rfl)
  exact ⟨hnames, hn, (hread "a.html" (by simp)).trans
    (congrArg (fun r => Except.ok r.sink.toUTF8) hrender)⟩

/-! ## What is shared -/

/-- The text of a template goes where its path leads with all links, and shows under each name of
the file there. -/
theorem renderFile_through {name : String} {here place : Place} {node : Nat} {parent : Path}
    (hgives : e.Gives t entries settings names compiled) (hname : name ∈ names)
    (herror : (textRun settings compiled data name).error = none)
    (hparent : (out.join name).parent? = some parent)
    (hreach : t.reach parent = .ok (here, some .directory))
    (hlocate : t.locate true (out.join name) = .ok (place, some (.file node)))
    (hfound : ∀ e ∈ entries, e.isFile = true → ∃ p n,
      t.locate true e.path = .ok (p, some (.file n)) ∧ n ≠ node) :
    ∃ e' t', (renderFile e out data name).run t = ((.ok (), e'), t') ∧
      ∀ path p, t.locate true path = .ok (p, some (.file node)) →
        t'.read path = .ok (textRun settings compiled data name).sink.toUTF8 := by
  have hcreate := createFile_of_locate hparent hreach hlocate
  have hstore : Extends t (t.store node .empty) := ⟨rfl, fun _ h => h, fun _ _ h => h⟩
  -- The files of templates are others, so that they can still be read.
  have hreads : (t.store node .empty).ReadsAs t entries := by
    intro e he hfile
    obtain ⟨p, n, hpath, hne⟩ := hfound e he hfile
    have hpath' := locate_file hstore hpath (locate_entry hpath).symm
    rw [read_of_locate hpath, read_of_locate hpath', content_store, if_neg hne]
  obtain ⟨result, e', -, hrun, hresult⟩ := renderFile_run data hgives hname hcreate hreads
  obtain rfl := hresult.2 herror
  refine ⟨e', _, hrun, fun path p hpath => ?_⟩
  have hend : (t.store node .empty).AtEnd ⟨node, some 0⟩ := by
    rintro _ ⟨⟩
    rw [content_store_self]
    rfl
  have hpath' := locate_file (extends_write ⟨node, some 0⟩
    (textRun settings compiled data name).sink.toUTF8) (locate_file hstore hpath
      (locate_entry hpath).symm) (by rw [entry?_write, entry?_store, ← locate_entry hpath])
  rw [read_of_locate hpath', (write_end hend _).2.2.2, content_store_self, ByteArray.empty_append]

/-- The site of a page is rendered without an error, and then a file that is not that of the page
holds the page's text. -/
def Overwrites (t : FileTree) (path : Path) (old : ByteArray) : Prop :=
  ∃ entries engine, t.isDirectory "in" = true ∧ t.Yields walkFiles "in" entries ∧
    t.Separate "in" "out" ∧
    (Engine.discover (m := StateM FileTree) walkFiles "in" .default).run t = (.ok engine, t) ∧
    engine.names = ["a.html"] ∧ ((renderAll engine "out" []).run t).1 = .ok 1 ∧
    t.read path = .ok old ∧ ((renderAll engine "out" []).run t).2.read path = .ok "A".toUTF8

section Shared

variable {others : List (Place × FileEntry)} {old : ByteArray}

theorem onePage_overwrites (hflat : (onePage others old).Flat "in" ["a.html"])
    (hreach : (onePage others old).reach "out" = .ok (["site", "out"], some .directory))
    {place other : Place} {path : Path} (hlocate : (onePage others old).locate true
      (Path.join "out" "a.html") = .ok (place, some (.file 1)))
    (hpath : (onePage others old).locate true path = .ok (other, some (.file 1))) :
    Overwrites (onePage others old) path old := by
  have hroot : (onePage others old).isDirectory "in" = true :=
    isDirectory_iff.2 ⟨_, onePage_input true⟩
  obtain ⟨entries, hwalk⟩ := hflat.yields
  have hseparate : (onePage others old).Separate "in" "out" :=
    onePage_separate hflat hreach (by decide)
  have hnames := onePage_names hflat hwalk
  have hname : "a.html" ∈ (Engine.ofEntries "in" .default entries).names := by simp [hnames]
  have hfound : ∀ e ∈ entries, e.isFile = true → (onePage others old).locate true e.path =
      .ok (["site", "in", "a.html"], some (.file 0)) := by
    intro e he hfile
    obtain ⟨p, hentry⟩ := hwalk.found e he hfile
    obtain ⟨x, hx, rfl⟩ := hflat.hasFile_iff.1 hentry.hasFile
    rw [hentry.locate, List.mem_singleton.1 hx, onePage_page]
  have hgives := Engine.gives_ofEntries hwalk .default
  have htext : textRun .default (fun name =>
      (((Engine.ofEntries "in" .default entries).get name).run (onePage others old)).1.1) []
      "a.html" = ⟨none, (), "A"⟩ := by
    obtain ⟨d, hd⟩ := Option.isSome_iff_exists.1 (Dict.mem_keys.1 hname)
    obtain ⟨e, he, _, hentry, -, -, rfl⟩ := Engine.get?_ofEntries hwalk hd
    have hread : (onePage others old).read e.path = .ok "A".toUTF8 :=
      read_of_locate (hfound e he hentry.isFile)
    have hrender := render_verbatim hd hread (by decide) (.ofDict [])
    rwa [render_textRun hgives hname] at hrender
  obtain ⟨e', t', hrun, hread⟩ := renderFile_through hgives hname (congrArg Run.error htext)
    (show _ = some (Path.ofText "out") by decide) hreach hlocate
    fun e he hfile => ⟨_, _, hfound e he hfile, by decide⟩
  have hall : (renderAll (Engine.ofEntries "in" .default entries) "out" []).run
      (onePage others old) = (.ok 1, t') := by
    rw [renderAll_eq, run_renderInOrder, hnames, renderFiles, run_bind, hrun]
    rfl
  refine ⟨entries, _, hroot, hwalk, hseparate, discover_run hroot hwalk, hnames, ?_⟩
  rw [hall]
  exact ⟨rfl, read_of_locate hpath, by rw [hread path other hpath, htext]⟩

end Shared

/-- The file of the page is a link to another file below the directory for output. -/
def linkedPage : FileTree :=
  onePage [(["site", "out"], .directory), (["site", "out", "keep"], .directory),
    (["site", "out", "keep", "b.txt"], .file 1), (["site", "out", "a.html"], .link "keep/b.txt")]
    "keep".toUTF8

theorem linkedPage_overwrites : Overwrites linkedPage "out/keep/b.txt" "keep".toUTF8 :=
  onePage_overwrites (onePage_flat (by decide) (by cbv)) (by cbv)
    (show linkedPage.locate true _ = .ok (["site", "out", "keep", "b.txt"], _) by cbv)
    (show linkedPage.locate true _ = .ok (["site", "out", "keep", "b.txt"], _) by cbv)

/-- The file of the page has another name. -/
def renamedPage : FileTree :=
  onePage [(["site", "out"], .directory), (["site", "out", "a.html"], .file 1),
    (["site", "out", "b.txt"], .file 1)] "keep".toUTF8

theorem renamedPage_overwrites : Overwrites renamedPage "out/b.txt" "keep".toUTF8 :=
  onePage_overwrites (onePage_flat (by decide) (by cbv)) (by cbv)
    (show renamedPage.locate true _ = .ok (["site", "out", "a.html"], _) by cbv)
    (show renamedPage.locate true _ = .ok (["site", "out", "b.txt"], _) by cbv)

/-- A name that is no text, with this byte in it. -/
def unshown (b : UInt8) : Name := [97, b] ++ (".html" : Name)

/-- A directory of two pages whose names are shown alike. -/
def unshownPages : FileTree :=
  ⟨["site"], [(["site", "in"], .directory), (["site", "in", unshown 254], .file 0),
    (["site", "in", unshown 255], .file 1)], [(0, "A".toUTF8), (1, "B".toUTF8)]⟩

theorem unshownPages_flat : unshownPages.Flat "in" [unshown 254, unshown 255] where
  named := by decide
  path := by decide
  link := by cbv
  list := by cbv
  visible := by decide
  isFile := by
    simp only [List.forall_mem_cons]
    exact ⟨by cbv, by cbv, by simp⟩

/-- **What is shared.** Another file takes the text of a page if the page's file is a link to it, or
has another name there. Of two pages whose names are shown alike, there is one template. -/
theorem renderAll_shared :
    Overwrites linkedPage "out/keep/b.txt" "keep".toUTF8 ∧
    Overwrites renamedPage "out/b.txt" "keep".toUTF8 ∧
    ∃ entries engine, unshownPages.isDirectory "in" = true ∧
      unshownPages.Yields walkFiles "in" entries ∧
      (Engine.discover (m := StateM FileTree) walkFiles "in" .default).run unshownPages =
        (.ok engine, unshownPages) ∧
      engine.names = ["a\uFFFD.html"] ∧
      unshownPages.HasTemplate .default "in" [unshown 254] ∧
      unshownPages.HasTemplate .default "in" [unshown 255] := by
  refine ⟨linkedPage_overwrites, renamedPage_overwrites, ?_⟩
  obtain ⟨entries, hwalk⟩ := unshownPages_flat.yields
  have hroot : unshownPages.isDirectory "in" = true := by cbv
  have htemplate : ∀ x ∈ [unshown 254, unshown 255],
      Settings.default.isTemplatePath (Path.below "in" [x]) = true := by
    simp only [List.forall_mem_cons]
    exact ⟨by cbv, by cbv, by simp⟩
  have hname : ∀ x ∈ [unshown 254, unshown 255], nameOf [x] = "a\uFFFD.html" := by
    simp only [List.forall_mem_cons]
    exact ⟨by cbv, by cbv, by simp⟩
  have hplace : ∀ x ∈ [unshown 254, unshown 255], unshownPages.HasTemplate .default "in" [x] :=
    fun x hx => (Flat.hasTemplate_iff unshownPages_flat htemplate).2 ⟨x, hx, rfl⟩
  exact ⟨entries, _, hroot, hwalk, discover_run hroot hwalk,
    Flat.names_eq unshownPages_flat hwalk (List.cons_ne_nil _ _) htemplate hname,
    hplace _ (.head _), hplace _ (.tail _ (.head _))⟩

end Site

end Stencil
