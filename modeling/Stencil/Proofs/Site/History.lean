import Mathlib
import Stencil.Proofs.Deferred.Once
import Stencil.Proofs.Error.Reports
import Stencil.Proofs.Site.Engines

/-!
# Histories of an engine

An engine is used for templates and renders them, its templates are compiled in the background, and
meanwhile files change, all in any order. The file of a template is read when the template is first
touched: by a use, or by a job in the background that has got to it. What was read then decides what
each later use gives, whether it is a template or an error, whatever becomes of the file.

A `Situation` is what there is between two acts. Files are those of any world, and to read one may
change it.

Results:
* `Engine.run_compile_eq`: a template is compiled from one reading of its file.
* `Engine.get?_discover`: what an engine holds at first.
* `Situation.held_step_touched`, `Situation.held_step`: what one act does.
* `Situation.held_after`, `Situation.held_after_done`: what acts do before a template is touched,
  and after it.
* `deferred_once`: computations, and the templates of an engine.
-/

namespace Stencil

variable {ω : Type}

namespace Engine

/-! ## Templates and their files -/

/-- What a template compiles to, by what its file was read as. -/
def compiledOf (name : String) (path : Path) (autoescape : Bool) :
    Except ReadFailure ByteArray → Except Error Compiled
  | .error (.opening e) => .error (e.toError.within (Source.openFailure path))
  | .error (.reading e) => .error e.toError
  | .ok bytes =>
    match Source.ofBytes bytes with
    | .inr _ =>
      .error (.make .other "template source contained invalid UTF-8" [("source", path.shown)])
    | .inl text =>
      if isTemplate text then (Template.compile name text autoescape).map .template
      else .ok (.verbatim text)

section

variable [Files (StateM ω)]

/-- The file is read once. -/
theorem run_compile_eq (name : String) (path : Path) (autoescape : Bool) (w : ω) :
    (compile (m := StateM ω) name path autoescape).run w =
      (compiledOf name path autoescape ((Files.read (m := StateM ω) path).run w).1,
        ((Files.read (m := StateM ω) path).run w).2) := by
  unfold compile Source.read Source.contents
  simp only [run_bind]
  cases (Files.read (m := StateM ω) path).run w with
  | mk reading w' =>
    match reading with
    | .error (.opening e) => rfl
    | .error (.reading e) => rfl
    | .ok bytes =>
      simp only [compiledOf, run_pure]
      cases Source.ofBytes bytes with
      | inr bytes => rfl
      | inl text =>
        simp only [run_pure]
        split <;> rfl

/-- Each template is to be compiled from the file of its name. -/
theorem get?_discover {walk : Walker (StateM ω)} {root : Path} {settings : Settings}
    {e : Engine (StateM ω)} {w w' : ω}
    (h : (discover (m := StateM ω) walk root settings).run w = (.ok e, w')) :
    e.settings = settings ∧ ∀ name d, e.templates.get? name = some d → ∃ path,
      relativeName? root path = some name ∧
        d = .pending (compile name path settings.autoescape) := by
  unfold discover at h
  rw [run_bind] at h
  split at h
  · cases h
  · rw [run_bind] at h
    cases hfound : (((walk root).run ((Files.isDirectory (m := StateM ω) root).run w).2).1.mapM id :
      Except Error (List WalkEntry)) with
    | error e =>
      rw [hfound] at h
      cases h
    | ok entries =>
      rw [hfound] at h
      cases h
      refine ⟨rfl, fun name d hd => ?_⟩
      obtain ⟨entry, -, htemplate⟩ := List.mem_filterMap.1 (Dict.mem_of_get?_ofList hd)
      unfold template? at htemplate
      split at htemplate
      · cases htemplate
      · obtain ⟨_, hname, heq⟩ := Option.map_eq_some_iff.1 htemplate
        obtain ⟨rfl, rfl⟩ := Prod.mk.inj heq
        exact ⟨entry.path, hname, rfl⟩

end

theorem settings_get (e : Engine (StateM ω)) (name : String) (w : ω) :
    ((e.get name).run w).1.2.settings = e.settings := by
  unfold get
  cases e.templates.get? name with
  | none => rfl
  | some d => rfl

/-- To get a template leaves the others alone. -/
theorem get?_get_of_ne (e : Engine (StateM ω)) {name other : String} (h : other ≠ name) (w : ω) :
    ((e.get name).run w).1.2.templates.get? other = e.templates.get? other := by
  cases hname : e.templates.get? name with
  | none =>
    unfold get
    rw [hname]
    rfl
  | some d => rw [run_get hname, Dict.get?_insert, if_neg h]

end Engine

/-! ## Situations and acts -/

/-- An engine, the world that its files are in, and the names of the templates that jobs in the
background have still to compile. -/
structure Situation (ω : Type) where
  engine : Engine (StateM ω)
  jobs : List String
  world : ω

/-- What is done with an engine, and what can happen beside it. -/
inductive Act (ω : Type) : Type 1 where
  | get (name : String)
  | render {σ τ : Type} (name : String) (sink : Sink τ) (data : Members σ) (state : σ) (target : τ)
  /-- All templates are left to jobs in the background. -/
  | background
  /-- One of the jobs that are left compiles its template. -/
  | job (i : Nat)
  | change (f : ω → ω)

namespace Situation

variable {settings : Settings} {s : Situation ω} {name : String}
  {d : Deferred (StateM ω) Compiled} {a : Act ω}

/-- An engine in a world, without jobs. -/
def opened (engine : Engine (StateM ω)) (world : ω) : Situation ω := ⟨engine, [], world⟩

/-- What is left when a template has been asked for. -/
def asked (s : Situation ω) (name : String) : Situation ω :=
  { s with
    engine := ((s.engine.get name).run s.world).1.2
    world := ((s.engine.get name).run s.world).2 }

def step (s : Situation ω) : Act ω → Situation ω
  | .get name => s.asked name
  | .render name sink data state target =>
    { s with
      engine := ((s.engine.render name sink data state target).run s.world).1.2
      world := ((s.engine.render name sink data state target).run s.world).2 }
  | .background => { s with jobs := s.jobs ++ s.engine.names }
  | .job i =>
    match s.jobs[i]? with
    | none => s
    | some name => { s.asked name with jobs := s.jobs.eraseIdx i }
  | .change f => { s with world := f s.world }

def after (s : Situation ω) (acts : List (Act ω)) : Situation ω := acts.foldl step s

/-- The template that an act asks for. -/
def touched (s : Situation ω) : Act ω → Option String
  | .get name => some name
  | .render name _ _ _ _ => some name
  | .job i => s.jobs[i]?
  | _ => none

/-- Who gets or renders a template by the act is given what it compiled to. -/
def Gives (s : Situation ω) (settings : Settings) (compiled : Except Error Compiled) :
    Act ω → Prop
  | .get name => ((s.engine.get name).run s.world).1.1 = compiled
  | .render name sink data state target =>
    ((s.engine.render name sink data state target).run s.world).1.1 =
      Engine.rendered settings compiled sink data state target
  | _ => True

/-- The engine has these settings, and holds `d` under a name. -/
structure Held (s : Situation ω) (settings : Settings) (name : String)
    (d : Deferred (StateM ω) Compiled) : Prop where
  settings_eq : s.engine.settings = settings
  get?_eq : s.engine.templates.get? name = some d

/-! ## One act -/

theorem Held.asked (h : s.Held settings name d) :
    (s.asked name).Held settings name (d.force.run s.world).1.2 ∧
      (s.asked name).world = (d.force.run s.world).2 := by
  have hrun := Engine.run_get h.get?_eq s.world
  refine ⟨⟨?_, ?_⟩, ?_⟩
  · exact (Engine.settings_get s.engine name s.world).trans h.settings_eq
  · rw [Situation.asked, hrun, Dict.get?_insert, if_pos rfl]
  · rw [Situation.asked, hrun]

theorem Held.asked_of_ne {other : String} (h : s.Held settings name d) (hne : name ≠ other) :
    (s.asked other).Held settings name d :=
  ⟨(Engine.settings_get s.engine other s.world).trans h.settings_eq,
    (Engine.get?_get_of_ne s.engine hne s.world).trans h.get?_eq⟩

/-- Who touches a template forces it, and is given what comes of that. -/
theorem held_step_touched (h : s.Held settings name d) (ha : s.touched a = some name) :
    (s.step a).Held settings name (d.force.run s.world).1.2 ∧
      (s.step a).world = (d.force.run s.world).2 ∧
      s.Gives settings (d.force.run s.world).1.1 a := by
  have hrun := Engine.run_get h.get?_eq s.world
  obtain ⟨hheld, hworld⟩ := h.asked
  cases a with
  | get other =>
    obtain rfl : other = name := Option.some.inj ha
    refine ⟨hheld, hworld, ?_⟩
    show ((s.engine.get other).run s.world).1.1 = _
    rw [hrun]
  | render other sink data state target =>
    obtain rfl : other = name := Option.some.inj ha
    refine ⟨hheld, hworld, ?_⟩
    show ((s.engine.render other sink data state target).run s.world).1.1 = _
    unfold Engine.render Engine.rendered
    rw [run_bind, hrun, ← h.settings_eq]
    rfl
  | job i =>
    have hjob : s.jobs[i]? = some name := ha
    rw [step, hjob]
    exact ⟨⟨hheld.settings_eq, hheld.get?_eq⟩, hworld, trivial⟩
  | _ => contradiction

/-- Other acts leave the template alone. -/
theorem held_step (h : s.Held settings name d) (ha : s.touched a ≠ some name) :
    (s.step a).Held settings name d := by
  cases a with
  | get other => exact h.asked_of_ne fun heq => ha (congrArg some heq.symm)
  | render other sink data state target =>
    exact h.asked_of_ne fun heq => ha (congrArg some heq.symm)
  | background => exact ⟨h.settings_eq, h.get?_eq⟩
  | job i =>
    rw [step]
    split
    · exact h
    · rename_i other hjob
      have hheld := h.asked_of_ne fun heq => ha (hjob.trans (congrArg some heq.symm))
      exact ⟨hheld.settings_eq, hheld.get?_eq⟩
  | change f => exact ⟨h.settings_eq, h.get?_eq⟩

/-! ## Histories -/

/-- None of the acts touches the template, at the time it is done. -/
def Untouched (s : Situation ω) (name : String) (acts : List (Act ω)) : Prop :=
  ∀ earlier a, earlier ++ [a] <+: acts → (s.after earlier).touched a ≠ some name

theorem untouched_nil : s.Untouched name [] := by
  intro earlier a h
  exact absurd (List.prefix_nil.1 h) (by simp)

theorem untouched_cons {rest : List (Act ω)} : s.Untouched name (a :: rest) ↔
    s.touched a ≠ some name ∧ (s.step a).Untouched name rest := by
  constructor
  · intro h
    refine ⟨h [] a (List.prefix_append [a] rest), fun earlier b hb => ?_⟩
    exact h (a :: earlier) b (List.prefix_cons_iff.2 (.inr ⟨_, rfl, hb⟩))
  · intro ⟨ha, hrest⟩ earlier b hb
    cases earlier with
    | nil =>
      obtain ⟨rfl, -⟩ := List.cons_prefix_cons.1 hb
      exact ha
    | cons first earlier =>
      obtain ⟨rfl, hearlier⟩ := List.cons_prefix_cons.1 hb
      exact hrest earlier b hearlier

theorem held_after {acts : List (Act ω)} (h : s.Held settings name d)
    (hacts : s.Untouched name acts) : (s.after acts).Held settings name d := by
  induction acts generalizing s with
  | nil => exact h
  | cons a rest ih =>
    obtain ⟨ha, hrest⟩ := untouched_cons.1 hacts
    exact ih (held_step h ha) hrest

/-- Once a template is compiled it stays what it is, whether it is touched or not. -/
theorem held_after_done {compiled : Except Error Compiled}
    (h : s.Held settings name (.done compiled)) (acts : List (Act ω)) :
    (s.after acts).Held settings name (.done compiled) := by
  induction acts generalizing s with
  | nil => exact h
  | cons a rest ih =>
    by_cases ha : s.touched a = some name
    · exact ih (held_step_touched h ha).1
    · exact ih (held_step h ha)

end Situation

/-- **Once.** A computation runs when the first handle or job asks for its result, if one does, in
the world of that moment, and the world is not changed by it again. Until then `isDone` is false for
all handles, and true from then on, and all who ask are told the same: the value, or a clone of the
error, which has its kind and report. The templates of an engine are such computations: whoever
touches one first has its file read, once, and what is compiled from that reading is what all uses
give, whatever is done before and after and whatever becomes of the file. -/
theorem deferred_once {α : Type} [Files (StateM ω)] (compute : StateM ω (Except Raised α)) (w : ω) :
    (∀ events, Shared.legal 1 0 events = true → (∀ e ∈ events, e.asks = false) →
      ∃ x, (Shared.history events (.start compute)).run.run w =
        (some (events.filterMap (Shared.Event.answer none), x), Shared.changed events w)) ∧
    (∀ before first after, Shared.legal 1 0 (before ++ first :: after) = true →
      (∀ e ∈ before, e.asks = false) → first.asks = true →
      let ran := compute.run (Shared.changed before w)
      ∃ x, (Shared.history (before ++ first :: after) (.start compute)).run.run w =
        (some (before.filterMap (Shared.Event.answer none) ++
          (first :: after).filterMap (Shared.Event.answer (some ran.1)), x),
          Shared.changed after ran.2)) ∧
    (∀ r : Raised, r.clone.kind = r.kind ∧ (r.Plain → r.clone.report = r.report)) ∧
    ∀ walk root settings engine w₀,
      (Engine.discover (m := StateM ω) walk root settings).run w₀ = (.ok engine, w) →
      ∀ name d, engine.templates.get? name = some d → ∃ path,
        Engine.relativeName? root path = some name ∧
        ∀ before first, (Situation.opened engine w).Untouched name before →
          let s := (Situation.opened engine w).after before
          s.touched first = some name →
          let reading := (Files.read (m := StateM ω) path).run s.world
          let compiled := Engine.compiledOf name path settings.autoescape reading.1
          s.Gives settings compiled first ∧ (s.step first).world = reading.2 ∧
          ∀ later a, let t := (s.step first).after later
            t.touched a = some name → t.Gives settings compiled a ∧ (t.step a).world = t.world := by
  refine ⟨fun events hlegal hasks => Shared.history_waiting hlegal hasks w,
    fun before first after hlegal hbefore hfirst => Shared.history_split hlegal hbefore hfirst w,
    fun r => ⟨r.kind_clone, fun h => congrArg Error.report (Raised.error_clone h)⟩, ?templates⟩
  case templates =>
    intro walk root settings engine w₀ hdiscover name d hd
    obtain ⟨hsettings, htemplates⟩ := Engine.get?_discover hdiscover
    obtain ⟨path, hname, rfl⟩ := htemplates name d hd
    refine ⟨path, hname, ?_⟩
    intro before first hbefore s hfirst reading compiled
    have hopened : (Situation.opened engine w).Held settings name _ := ⟨hsettings, hd⟩
    have hheld := Situation.held_after hopened hbefore
    -- The first to touch the template forces what `discover` has put there.
    have hforce := Engine.run_force_pending
      (Engine.compile (m := StateM ω) name path settings.autoescape) s.world
    rw [Engine.run_compile_eq] at hforce
    obtain ⟨hdone, hworld, hgives⟩ := Situation.held_step_touched hheld hfirst
    rw [hforce] at hdone hworld hgives
    refine ⟨hgives, hworld, ?_⟩
    intro later a t ha
    obtain ⟨-, hsame, hagain⟩ :=
      Situation.held_step_touched (Situation.held_after_done hdone later) ha
    exact ⟨hagain, hsame⟩

/-- A world of one file in one directory: its text, and how often it has been read. -/
structure OneFile where
  text : String
  readings : Nat

namespace OneFile

instance : Files (StateM OneFile) where
  Handle := Unit
  isDirectory path := return path = ("in" : Path)
  isFile path := return path = ("in/a.html" : Path)
  link? _ := return none
  read _ := modifyGet fun w => (.ok w.text.toUTF8, { w with readings := w.readings + 1 })
  list _ := return .ok [("a.html", .file)]
  makeDirectory _ := return .error .alreadyExists
  create _ := modifyGet fun w => (.ok (), { w with text := "" })
  openEnd _ := return .ok ()
  write _ bytes := modifyGet fun w =>
    (.ok (), { w with text := w.text ++ (String.fromUTF8? bytes).getD "" })

/-- The file is written anew. -/
def write (text : String) (w : OneFile) : OneFile := { w with text }

def bad : Raised := .ofFault ⟨.parse, "bad template", []⟩

/-- A computation that reads the file and then fails. -/
def failing : StateM OneFile (Except Raised String) := do
  let _ ← Files.read (m := StateM OneFile) "in/a.html"
  return .error bad

/-- The engine of the file. -/
def engine (settings : Settings) : Engine (StateM OneFile) :=
  ⟨"in", settings,
    [("a.html", .pending (Engine.compile "a.html" "in/a.html" settings.autoescape))]⟩

theorem walkFiles_in (w : OneFile) : (walkFiles (m := StateM OneFile) "in").run w =
    ([.ok ⟨"in", false⟩, .ok ⟨"in/a.html", true⟩], w) := by
  have hdepth : walkDepth = 2047 + 1 := rfl
  unfold walkFiles
  rw [hdepth]
  -- One level is enough.
  generalize 2047 = depth
  cbv

theorem discover_engine {settings : Settings} (h : settings.isTemplatePath "in/a.html" = true)
    (w : OneFile) : (Engine.discover (m := StateM OneFile) walkFiles "in" settings).run w =
      (.ok (engine settings), w) := by
  have hroot : (Files.isDirectory (m := StateM OneFile) "in").run w = (true, w) := by cbv
  have hname : Engine.relativeName? "in" "in/a.html" = some "a.html" := by cbv
  have hpage : Engine.template? (m := StateM OneFile) "in" settings ⟨"in/a.html", true⟩ =
      some ("a.html", .pending (Engine.compile "a.html" "in/a.html" settings.autoescape)) := by
    unfold Engine.template?
    rw [h, hname]
    rfl
  have hentries : ([⟨"in", false⟩, ⟨"in/a.html", true⟩] : List WalkEntry).filterMap
      (Engine.template? (m := StateM OneFile) "in" settings) =
        [("a.html", .pending (Engine.compile "a.html" "in/a.html" settings.autoescape))] := by
    rw [List.filterMap_cons_none rfl, List.filterMap_cons_some hpage]
    rfl
  have hall :
      ([.ok ⟨"in", false⟩, .ok ⟨"in/a.html", true⟩] : List (Except Error WalkEntry)).mapM id =
        .ok [⟨"in", false⟩, ⟨"in/a.html", true⟩] := rfl
  unfold Engine.discover
  rw [run_bind, hroot]
  simp only [Bool.not_true, Bool.false_eq_true, if_false]
  rw [run_bind, walkFiles_in]
  simp only [hall, Except.map, hentries]
  rfl

/-- A handle is cloned and both are left to jobs. A job runs behind a change of the file, and both
handles are asked behind another. -/
def before : List (Shared.Event OneFile) :=
  [.step (.clone 0), .step (.isDone 1), .step (.spawn 0), .step (.spawn 1), .change (write "new")]

def after : List (Shared.Event OneFile) :=
  [.change (write "newest"), .step (.force 0), .step (.run 0), .step (.isDone 0)]

/-- The file is read once by a computation with two handles and two jobs, and once for a template
that is left to the background, and used behind another change of its file. -/
theorem deferred_once_oneFile :
    let s :=
      (Situation.opened (engine .default) ⟨"old", 0⟩).after [.background, .change (write "new")]
    let t := (s.step (.job 0)).after [.change (write "newest")]
    (Shared.legal 1 0 before = true ∧ (∀ e ∈ before, e.asks = false) ∧
      ∃ x, (Shared.history before (.start failing)).run.run ⟨"old", 0⟩ =
        (some ([.cloned, .isDone false, .spawned, .spawned], x), ⟨"new", 0⟩)) ∧
    (Shared.legal 1 0 (before ++ .step (.run 1) :: after) = true ∧
      ∃ x, (Shared.history (before ++ .step (.run 1) :: after) (.start failing)).run.run
          ⟨"old", 0⟩ =
        (some ([.cloned, .isDone false, .spawned, .spawned] ++
          [.ran, .result (.error bad), .ran, .isDone true], x), ⟨"newest", 1⟩)) ∧
    (bad.Plain ∧ bad.clone.report = bad.report) ∧
    ((Situation.opened (engine .default) ⟨"old", 0⟩).Untouched "a.html"
        [.background, .change (write "new")] ∧
      s.touched (.job 0) = some "a.html" ∧ (s.step (.job 0)).world = ⟨"new", 1⟩ ∧
      t.touched (.get "a.html") = some "a.html" ∧
      t.Gives .default (.ok (.verbatim "new")) (.get "a.html") ∧
      (t.step (.get "a.html")).world = ⟨"newest", 1⟩) := by
  have hbefore : ∀ e ∈ before, e.asks = false := by decide
  have hplain : bad.Plain := by decide
  have huntouched : (Situation.opened (engine .default) ⟨"old", 0⟩).Untouched "a.html"
      [.background, .change (write "new")] :=
    Situation.untouched_cons.2 ⟨nofun, Situation.untouched_cons.2 ⟨nofun, Situation.untouched_nil⟩⟩
  have hcompiled : ∀ path, Engine.compiledOf "a.html" path true (.ok "new".toUTF8) =
      .ok (.verbatim "new") := by
    intro path
    cbv
  obtain ⟨hwaiting, hsplit, hclone, htemplates⟩ := deferred_once failing ⟨"old", 0⟩
  obtain ⟨path, -, htouch⟩ :=
    htemplates walkFiles "in" .default (engine .default) ⟨"old", 0⟩
      (discover_engine (by cbv) _) "a.html" _ rfl
  obtain ⟨-, hworld, hlater⟩ := htouch _ (.job 0) huntouched rfl
  obtain ⟨hgives, hsame⟩ := hlater [.change (write "newest")] (.get "a.html") rfl
  exact ⟨⟨rfl, hbefore, hwaiting before rfl hbefore⟩,
    ⟨rfl, hsplit before (.step (.run 1)) after rfl hbefore rfl⟩, ⟨hplain, (hclone bad).2 hplain⟩,
    huntouched, rfl, hworld, rfl, hgives.trans (hcompiled path), hsame⟩

end OneFile

end Stencil
