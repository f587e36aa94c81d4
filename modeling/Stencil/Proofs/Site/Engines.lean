import Stencil.Engine
import Stencil.Proofs.Execution.Alike
import Stencil.Proofs.Files.Walk
import Stencil.Proofs.Value.Dict

/-!
# Engines and the files of their templates

An engine has a template for each file below its directory that has the right extension, under the
names on the way to it. A name that is no text is shown with replacement characters, and two files
whose names are shown alike make one template. As long as the files stay as they are, each template
compiles to the same, whenever it is first used and whatever has been used before.

Results:
* `Engine.names_ofEntries`: the names of the templates, in order.
* `nameOf_inj`: names that are texts stay apart.
* `Engine.get?_ofEntries`: the file that a template is read from.
* `run_compile`: what a template compiles to depends on its file alone.
* `Engine.gives_ofEntries`: the engine of some files gives what it gives at first.
* `Engine.Gives.render`, `Engine.Gives.compileAll`: use does not change what it gives.
* `Engine.rendered_bytes`: bytes are those of the text.
-/

namespace Stencil

open FileTree

variable {t t' : FileTree} {root : Path} {settings : Settings}

/-! ## Templates -/

/-- The name of a template with its file at this place. -/
def nameOf (place : List Name) : String := "/".intercalate (place.map Name.shown)

/-- A file below a directory that has the extension of a template. -/
structure FileTree.HasTemplate (t : FileTree) (settings : Settings) (root : Path)
    (place : List Name) : Prop where
  hasFile : t.HasFile root place
  extension : ∃ extension : String, (root.below place).extension? = some (extension : Name) ∧
    ∃ other ∈ settings.extensions, extension.map Char.toLower = other.map Char.toLower

theorem Path.extension?_congr {path other : Path} (h : path.fileName? = other.fileName?) :
    path.extension? = other.extension? := by
  unfold extension?
  rw [h]

theorem Settings.isTemplatePath_iff {path : Path} : settings.isTemplatePath path = true ↔
    ∃ extension : String, path.extension? = some (extension : Name) ∧
      ∃ other ∈ settings.extensions, extension.map Char.toLower = other.map Char.toLower := by
  have hbind : ∀ extension : String, path.extension?.bind Name.text? = some extension ↔
      path.extension? = some (extension : Name) := by
    intro extension
    rw [Option.bind_eq_some_iff]
    constructor
    · rintro ⟨name, hname, htext⟩
      rw [hname, Name.text?_eq_some_iff.1 htext]
    · exact fun h => ⟨_, h, Name.text?_eq_some_iff.2 rfl⟩
  simp only [← hbind]
  unfold isTemplatePath
  cases path.extension?.bind Name.text? with
  | none => simp
  | some extension => simp [sameIgnoringCase]

/-- Names that are texts stay apart. -/
theorem nameOf_inj {place other : List Name} (h : t.HasFile root place) (h' : t.HasFile root other)
    (htext : ∀ s ∈ place, s.IsText) (htext' : ∀ s ∈ other, s.IsText)
    (heq : nameOf place = nameOf other) : place = other :=
  Path.shown_inj h.ne_nil h'.ne_nil (fun s hs => ⟨h.names s hs, htext s hs⟩)
    (fun s hs => ⟨h'.names s hs, htext' s hs⟩) heq

section Entry

variable {place : List Name} {e : WalkEntry}

theorem FileTree.IsEntryOf.relativeName (h : t.IsEntryOf root place e) :
    Engine.relativeName? root e.path = some (nameOf place) := by
  rw [Engine.relativeName?, Path.behind?_eq_some_iff.2 h.components]
  rfl

theorem FileTree.IsEntryOf.isTemplatePath_iff (h : t.IsEntryOf root place e) :
    settings.isTemplatePath e.path = true ↔ t.HasTemplate settings root place := by
  obtain ⟨names, x, rfl, -, hx⟩ := Path.exists_concat h.hasFile.ne_nil h.hasFile.names
  have hfound := h.components
  have hbelow := root.components_below h.hasFile.names
  rw [← List.append_assoc] at hfound hbelow
  have hname : e.path.fileName? = (root.below (names ++ [x])).fileName? := by
    rw [Path.fileName?_of_components hx hfound, Path.fileName?_of_components hx hbelow]
  rw [Settings.isTemplatePath_iff, Path.extension?_congr hname]
  exact ⟨fun hextension => ⟨h.hasFile, hextension⟩, fun htemplate => htemplate.extension⟩

/-- What is found is a template if it has the extension of one. -/
theorem FileTree.IsEntryOf.template?_iff (h : t.IsEntryOf root place e) {name : String}
    {d : Deferred (StateM FileTree) Compiled} :
    Engine.template? root settings e = some (name, d) ↔ t.HasTemplate settings root place ∧
      nameOf place = name ∧ d = .pending (Engine.compile name e.path settings.autoescape) := by
  unfold Engine.template?
  rw [h.isFile, h.relativeName]
  by_cases htemplate : t.HasTemplate settings root place
  · rw [h.isTemplatePath_iff.2 htemplate]
    simp only [Bool.not_true, Bool.or_false, Bool.false_eq_true, if_false, Option.map_some,
      Option.some.injEq, Prod.mk.injEq, htemplate, true_and]
    constructor
    · rintro ⟨rfl, rfl⟩
      exact ⟨rfl, rfl⟩
    · rintro ⟨rfl, rfl⟩
      exact ⟨rfl, rfl⟩
  · rw [Bool.eq_false_iff.2 (mt h.isTemplatePath_iff.1 htemplate)]
    simp [htemplate]

end Entry

/-! ## Discovery -/

section Discovery

variable {walk : Walker (StateM FileTree)} {entries : List WalkEntry}

/-- The engine of what a walk has found. -/
def Engine.ofEntries (root : Path) (settings : Settings) (entries : List WalkEntry) :
    Engine (StateM FileTree) :=
  ⟨root, settings, Dict.ofList (entries.filterMap (Engine.template? root settings))⟩

theorem discover_run (hroot : t.isDirectory root = true) (hwalk : t.Yields walk root entries) :
    (Engine.discover (m := StateM FileTree) walk root settings).run t =
      (.ok (Engine.ofEntries root settings entries), t) := by
  have hdir : (Files.isDirectory (m := StateM FileTree) root).run t = (true, t) := by
    rw [run_isDirectory, hroot]
  have hall : (entries.map (Except.ok : WalkEntry → Except Error WalkEntry)).mapM id =
      .ok entries := by
    have hpure := List.mapM_pure (m := Except Error) (l := entries) (f := id)
    rw [List.map_id] at hpure
    rw [List.mapM_map]
    exact hpure
  unfold Engine.discover
  simp only [run_bind, hdir, Bool.not_true, Bool.false_eq_true, if_false, hwalk.run, run_pure, hall]
  rfl

/-- What is found under a name is the template in a file of this name. -/
theorem Engine.get?_ofEntries (hwalk : t.Yields walk root entries) {name : String}
    {d : Deferred (StateM FileTree) Compiled}
    (h : (Engine.ofEntries root settings entries).templates.get? name = some d) :
    ∃ e ∈ entries, ∃ place, t.IsEntryOf root place e ∧ t.HasTemplate settings root place ∧
      nameOf place = name ∧ d = .pending (Engine.compile name e.path settings.autoescape) := by
  obtain ⟨e, he, htemplate⟩ := List.mem_filterMap.1 (Dict.mem_of_get?_ofList h)
  have hfile : e.isFile = true := by
    by_contra hfile
    rw [template?, Bool.eq_false_iff.2 hfile] at htemplate
    cases htemplate
  obtain ⟨place, hentry⟩ := hwalk.found e he hfile
  exact ⟨e, he, place, hentry, hentry.template?_iff.1 htemplate⟩

/-- **Names.** The names of the templates increase, and are those of the files with the right
extension. -/
theorem Engine.names_ofEntries (settings : Settings) (hwalk : t.Yields walk root entries) :
    (Engine.ofEntries root settings entries).names.Pairwise (· < ·) ∧
    ∀ name, name ∈ (Engine.ofEntries root settings entries).names ↔
      ∃ place, t.HasTemplate settings root place ∧ nameOf place = name := by
  refine ⟨List.pairwise_map.2 (Dict.sorted_ofList _), fun name => ⟨fun hname => ?_, ?_⟩⟩
  · obtain ⟨d, hd⟩ := Option.isSome_iff_exists.1 (Dict.mem_keys.1 hname)
    obtain ⟨e, -, place, -, htemplate, hname, -⟩ := get?_ofEntries hwalk hd
    exact ⟨place, htemplate, hname⟩
  · rintro ⟨place, htemplate, rfl⟩
    obtain ⟨e, he, hentry⟩ := hwalk.complete place htemplate.hasFile
    have hfound := hentry.template?_iff.2 ⟨htemplate, rfl, rfl⟩
    rw [Engine.names, Engine.ofEntries, Dict.mem_keys_ofList]
    exact ⟨_, List.mem_filterMap.2 ⟨e, he, hfound⟩, rfl⟩

end Discovery

/-! ## Use -/

/-- What a walk has found is read as in another tree. -/
def FileTree.ReadsAs (t t' : FileTree) (entries : List WalkEntry) : Prop :=
  ∀ e ∈ entries, e.isFile = true → t.read e.path = t'.read e.path

theorem run_read (path : Path) (t : FileTree) :
    (Files.read (m := StateM FileTree) path).run t = (t.read path, t) := rfl

/-- What is compiled depends on the file alone, and compiling changes nothing. -/
theorem run_compile {name : String} {path : Path} {autoescape : Bool}
    (h : t.read path = t'.read path) :
    (Engine.compile (m := StateM FileTree) name path autoescape).run t =
      (((Engine.compile (m := StateM FileTree) name path autoescape).run t').1, t) := by
  unfold Engine.compile Source.read Source.contents
  simp only [run_bind, run_read, h]
  cases t'.read path with
  | error failure => cases failure <;> rfl
  | ok bytes =>
    simp only [run_pure]
    cases Source.ofBytes bytes with
    | inl text =>
      simp only [run_pure]
      split <;> rfl
    | inr bytes => rfl

/-- An engine whose templates compile to `compiled`, in all trees with the same files. -/
structure Engine.Gives (e : Engine (StateM FileTree)) (t : FileTree) (entries : List WalkEntry)
    (settings : Settings) (names : List String) (compiled : String → Except Error Compiled) :
    Prop where
  settings_eq : e.settings = settings
  names_eq : e.names = names
  sorted : e.templates.Sorted
  template : ∀ name ∈ names, ∃ d, e.templates.get? name = some d ∧ ∀ t', t'.ReadsAs t entries →
    d.force.run t' = ((compiled name, .done (compiled name)), t')

namespace Engine

variable {walk : Walker (StateM FileTree)} {entries : List WalkEntry} {names : List String}
  {compiled : String → Except Error Compiled} {e : Engine (StateM FileTree)} {name : String}

theorem run_get {ω : Type} {e : Engine (StateM ω)} {d : Deferred (StateM ω) Compiled}
    (h : e.templates.get? name = some d) (w : ω) : (e.get name).run w = (((d.force.run w).1.1,
      { e with templates := e.templates.insert name (d.force.run w).1.2 }), (d.force.run w).2) := by
  unfold get
  rw [h]
  rfl

theorem run_force_pending {ω : Type} (compute : StateM ω (Except Error Compiled)) (w : ω) :
    (Deferred.pending compute).force.run w =
      (((compute.run w).1, .done (compute.run w).1), (compute.run w).2) := rfl

/-- The engine of some files gives what it gives now. -/
theorem gives_ofEntries (hwalk : t.Yields walk root entries) (settings : Settings) :
    (ofEntries root settings entries).Gives t entries settings
      (ofEntries root settings entries).names
      fun name => (((ofEntries root settings entries).get name).run t).1.1 where
  settings_eq := rfl
  names_eq := rfl
  sorted := Dict.sorted_ofList _
  template name hname := by
    obtain ⟨d, hd⟩ := Option.isSome_iff_exists.1 (Dict.mem_keys.1 hname)
    refine ⟨d, hd, fun t' ht' => ?_⟩
    rw [run_get hd]
    obtain ⟨e, he, _, hentry, -, -, rfl⟩ := get?_ofEntries hwalk hd
    rw [run_force_pending, run_force_pending, run_compile (ht' e he hentry.isFile)]

theorem Gives.get (h : e.Gives t entries settings names compiled) (hname : name ∈ names)
    (ht : t'.ReadsAs t entries) : ∃ e', Gives e' t entries settings names compiled ∧
      (e.get name).run t' = ((compiled name, e'), t') := by
  obtain ⟨d, hd, hforce⟩ := h.template name hname
  refine ⟨{ e with templates := e.templates.insert name (.done (compiled name)) },
    ⟨h.settings_eq, ?_, Dict.sorted_insert h.sorted _ _, ?_⟩, by rw [run_get hd, hforce t' ht]⟩
  · rw [← h.names_eq] at hname ⊢
    exact Dict.keys_insert h.sorted hname _
  · intro other hother
    show ∃ d, (e.templates.insert name (.done (compiled name))).get? other = some d ∧ _
    rw [Dict.get?_insert]
    by_cases heq : other = name
    · subst heq
      exact ⟨_, if_pos rfl, fun _ _ => rfl⟩
    · rw [if_neg heq]
      exact h.template other hother

/-- Templates that are compiled early are compiled to the same. -/
theorem Gives.compileAll (h : e.Gives t entries settings names compiled) (ht : t'.ReadsAs t entries)
    (early : List String) : ∃ e', Gives e' t entries settings names compiled ∧
      (compileAll early e).run t' = (e', t') := by
  induction early generalizing e with
  | nil => exact ⟨e, h, rfl⟩
  | cons name early ih =>
    have hget : ∃ result e', Gives e' t entries settings names compiled ∧
        (e.get name).run t' = ((result, e'), t') := by
      by_cases hname : name ∈ names
      · obtain ⟨e', he', hrun⟩ := h.get hname ht
        exact ⟨_, e', he', hrun⟩
      · have hnone : e.templates.get? name = none := by
          rw [← h.names_eq, Engine.names, Dict.mem_keys] at hname
          simpa using hname
        refine ⟨.error (notFound e.root name), e, h, ?_⟩
        unfold Engine.get
        rw [hnone]
        rfl
    obtain ⟨result, e', he', hrun⟩ := hget
    obtain ⟨e'', he'', hrest⟩ := ih he'
    exact ⟨e'', he'', by rw [Engine.compileAll, run_bind, hrun]; exact hrest⟩

/-- What comes of what has been compiled. -/
def rendered {σ τ : Type} (settings : Settings) (c : Except Error Compiled) (sink : Sink τ)
    (data : Members σ) (state : σ) (target : τ) : Run σ τ :=
  match c with
  | .error error => ⟨some error, state, target⟩
  | .ok (.verbatim text) => writeVerbatim text sink state target
  | .ok (.template t) => t.renderTo sink (data.orElse (.ofDict settings.data)) state target

theorem Gives.render {σ τ : Type} (h : e.Gives t entries settings names compiled)
    (hname : name ∈ names) (ht : t'.ReadsAs t entries) (sink : Sink τ) (data : Members σ)
    (state : σ) (target : τ) : ∃ e', Gives e' t entries settings names compiled ∧
      (e.render name sink data state target).run t' =
        ((rendered settings (compiled name) sink data state target, e'), t') := by
  obtain ⟨e', he', hrun⟩ := h.get hname ht
  refine ⟨e', he', ?_⟩
  unfold Engine.render rendered
  rw [run_bind, hrun]
  simp only [he'.settings_eq]
  rfl

/-- Bytes come of it as text does. -/
theorem rendered_bytes {σ : Type} (settings : Settings) (c : Except Error Compiled)
    (data : Members σ) (state : σ) :
    (rendered settings c .bytes data state .empty).error =
        (rendered settings c .text data state "").error ∧
      (rendered settings c .bytes data state .empty).sink =
        (rendered settings c .text data state "").sink.toUTF8 := by
  have hempty : ByteArray.empty = "".toUTF8 := rfl
  have hwrite : ∀ (piece : String) (b : ByteArray) (s : String), b = s.toUTF8 →
      (Sink.bytes.write piece b).1 = (Sink.text.write piece s).1 ∧
        (Sink.bytes.write piece b).2 = (Sink.text.write piece s).2.toUTF8 := by
    rintro piece b s rfl
    exact ⟨rfl, Sink.bytes_write piece s⟩
  match c with
  | .error e => exact ⟨rfl, hempty⟩
  | .ok (.verbatim text) => exact hwrite text _ _ hempty
  | .ok (.template t) =>
    have hdata : ∀ d : Members σ, Members.Alike (· = ·) d d :=
      fun d => ⟨rfl, by rintro name arg s s' rfl; exact ⟨rfl, rfl⟩⟩
    have hsink : Sink.Alike (fun (b : ByteArray) (s : String) => b = s.toUTF8) .bytes .text := by
      refine ⟨fun b s h => ⟨rfl, h⟩, hwrite, fun v b s h => ?_⟩
      cases v with
      | null => exact ⟨rfl, h⟩
      | _ => exact hwrite _ b s h
    obtain ⟨herror, -, hbytes⟩ := execute_alike (hdata (data.orElse (.ofDict settings.data)))
      hsink t.document t.name state state _ _ rfl hempty
    exact ⟨herror, hbytes⟩

end Engine

end Stencil
