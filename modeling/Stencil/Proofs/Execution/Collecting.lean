import Mathlib
import Stencil.Files.Text
import Stencil.Proofs.Execution.Alike
import Stencil.Proofs.Files.Output

/-!
# One text in every sink

A template is executed into text, into bytes, into a buffer that is flushed in the end, into a file
that has just been created, or into a path, and each of them may be handed on as a loan. `Ready`
lists these sinks with what they start from and with the bytes that are found there afterwards.

All of them add each piece behind what they hold (`Appends`), but not in one way. A path is opened
anew for each piece, at its end. A file that is open keeps its position, which begins at zero and
gets on with each piece, so that it is always the number of bytes that have been written
(`Written`). Sinks differ before that, too: a path is prepared by creating its file. Once a sink is
prepared, it keeps level with a text.

Results:
* `FileTree.written_create`, `FileTree.Written.write`: a file that is open, and its position.
* `FileTree.write_of_read`: a path is written to behind what is there.
* `Sink.Buffer.contents_push`: a buffer loses nothing and keeps the order.
* `execute_prepared`: an execution goes on from what the sink is prepared to.
* `execute_ready`: the bytes are those of the text, and the run ends as the one into text does.
-/

namespace Stencil

open FileTree

/-! ## Written files -/

namespace FileTree

variable {t t' : FileTree} {path : Path} {bytes : ByteArray} {file : Handle}

theorem read_iff : t.read path = .ok bytes ↔
    ∃ place node, t.locate true path = .ok (place, some (.file node)) ∧ t.content node = bytes := by
  constructor
  · intro h
    unfold read at h
    split at h
    · rename_i node hfind
      obtain ⟨place, hlocate⟩ := find_iff.1 hfind
      cases h
      exact ⟨place, node, hlocate, rfl⟩
    · cases h
    · cases h
  · rintro ⟨place, node, hlocate, rfl⟩
    exact read_of_locate hlocate

/-- The file at a path is open, holds these bytes, and is written to behind them. -/
structure Written (t : FileTree) (file : Handle) (path : Path) (bytes : ByteArray) : Prop where
  located : ∃ place, t.locate true path = .ok (place, some (.file file.node))
  content : t.content file.node = bytes
  position : file.position? = some bytes.size

theorem Written.read (h : t.Written file path bytes) : t.read path = .ok bytes := by
  obtain ⟨place, hlocate⟩ := h.located
  rw [read_of_locate hlocate, h.content]

/-- A file that has just been created is empty, and its position is zero. -/
theorem written_create (h : t.create path = .ok (file, t')) : t'.Written file path .empty := by
  obtain ⟨place, hlocate, hwrites, hempty, hposition⟩ := create_ok h
  exact ⟨⟨place, hwrites.locate hlocate⟩, hempty, hposition⟩

/-- **Position.** What is written to a file goes behind what it holds, and its position goes on by
as much. -/
theorem Written.write (h : t.Written file path bytes) (more : ByteArray) :
    Written (t.write file more).2 (t.write file more).1 path (bytes ++ more) := by
  have hend : t.AtEnd file := by
    intro position hat
    rw [h.position] at hat
    rw [h.content, ← Option.some.inj hat]
  obtain ⟨hnode, hnone, hend', hcontent⟩ := write_end hend more
  obtain ⟨place, hlocate⟩ := h.located
  rw [h.content] at hcontent
  refine ⟨⟨place, ?_⟩, by rw [hnode, hcontent], ?_⟩
  · rw [hnode]
    exact locate_file (extends_write file more) hlocate
      (by rw [entry?_write, ← locate_entry hlocate])
  · obtain ⟨position, hposition⟩ : ∃ position, (t.write file more).1.position? = some position := by
      rw [← Option.ne_none_iff_exists', ne_eq, hnone, h.position]
      exact Option.some_ne_none _
    rw [hposition, hend' position hposition, hnode, hcontent]

/-- **Paths.** What is written to a path, opened anew, goes behind what is there. -/
theorem write_of_read (h : t.read path = .ok bytes) (more : ByteArray) : ∃ file,
    t.openEnd path = .ok (file, t) ∧ (t.write file more).2.read path = .ok (bytes ++ more) := by
  obtain ⟨place, node, hlocate, rfl⟩ := read_iff.1 h
  have hend : t.AtEnd ⟨node, none⟩ := nofun
  refine ⟨⟨node, none⟩, openEnd_iff.2 ⟨node, nodeAt_iff.2 ⟨place, .inl ⟨hlocate, rfl⟩⟩, rfl⟩, ?_⟩
  have hnow := locate_file (extends_write ⟨node, none⟩ more) hlocate
    (by rw [entry?_write, ← locate_entry hlocate])
  rw [read_of_locate hnow, (write_end hend more).2.2.2]

end FileTree

/-! ## Sinks that add to what they hold -/

namespace Sink

variable {τ : Type} {sink : Sink τ} {holds : ByteArray → τ → Prop}

/-- A piece never fails and goes behind the bytes that are held. A value is its string form. -/
structure Appends (sink : Sink τ) (holds : ByteArray → τ → Prop) : Prop where
  write : ∀ piece bytes t, holds bytes t →
    (sink.write piece t).1 = none ∧ holds (bytes ++ piece.toUTF8) (sink.write piece t).2
  writeValue : sink.writeValue = writeForm sink.write

theorem appends_text : Appends text fun bytes t => t.toUTF8 = bytes where
  write := by
    rintro piece _ t rfl
    exact ⟨rfl, String.toByteArray_append⟩
  writeValue := rfl

theorem appends_bytes : Appends bytes fun bytes t => t = bytes where
  write := by
    rintro piece _ t rfl
    exact ⟨rfl, rfl⟩
  writeValue := rfl

/-- What is written is behind all that was written before, wherever it is. -/
theorem Buffer.contents_push (b : Buffer) (piece : ByteArray) :
    (b.push piece).contents = b.contents ++ piece := by
  obtain ⟨arrived, held⟩ := b
  simp only [Buffer.push, Buffer.contents]
  by_cases hfull : capacity < held.size + piece.size
  · rw [if_pos hfull]
    split <;> simp [Buffer.flush, ByteArray.append_assoc]
  · rw [if_neg hfull]
    split
    · -- A piece that passes by the buffer finds nothing in it.
      obtain rfl : held = .empty := ByteArray.size_eq_zero_iff.1 (by omega)
      simp
    · exact ByteArray.append_assoc.symm

theorem appends_buffered : Appends buffered fun bytes b => b.contents = bytes where
  write := by
    rintro piece _ b rfl
    exact ⟨rfl, b.contents_push piece.toUTF8⟩
  writeValue := rfl

theorem appends_openFile (path : Path) :
    Appends openFile fun bytes (w : FileTree × Handle) => w.1.Written w.2 path bytes where
  write := by
    rintro piece bytes ⟨t, file⟩ h
    exact ⟨rfl, h.write piece.toUTF8⟩
  writeValue := rfl

theorem appends_path (path : Path) :
    Appends (Sink.path path) fun bytes (t : FileTree) => t.read path = .ok bytes where
  write := by
    intro piece bytes t hread
    obtain ⟨file, hopen, hread'⟩ := write_of_read hread piece.toUTF8
    simp only [Sink.path, (succeeds_openEnd.2 hopen).run, run_write]
    exact ⟨trivial, hread'⟩
  writeValue := rfl

/-- The string forms that a loan writes by itself are those that would have been written. -/
theorem Appends.borrowed (h : Appends sink holds) : Appends sink.borrowed holds where
  write := h.write
  writeValue := rfl

/-- The same sink, with nothing left to prepare. -/
def prepared (sink : Sink τ) : Sink τ where
  prepare t := (none, t)
  write := sink.write
  writeValue := sink.writeValue

/-- Related by what they hold, the sink and a text answer alike. -/
theorem Appends.alike (h : Appends sink holds) :
    Alike (fun t s => holds s.toUTF8 t) sink.prepared .text := by
  have hwrite : ∀ piece t (s : String), holds s.toUTF8 t →
      (sink.write piece t).1 = (text.write piece s).1 ∧
        holds (text.write piece s).2.toUTF8 (sink.write piece t).2 := by
    intro piece t s hs
    obtain ⟨hnone, hholds⟩ := h.write piece _ t hs
    refine ⟨hnone, ?_⟩
    show holds (s ++ piece).toUTF8 _
    rwa [show (s ++ piece).toUTF8 = s.toUTF8 ++ piece.toUTF8 from String.toByteArray_append]
  refine ⟨fun _ _ hs => ⟨rfl, hs⟩, hwrite, fun v t s hs => ?_⟩
  show (sink.writeValue v t).1 = (writeForm text.write v s).1 ∧
    holds (writeForm text.write v s).2.toUTF8 (sink.writeValue v t).2
  rw [h.writeValue]
  cases v with
  | null => exact ⟨rfl, hs⟩
  | _ => exact hwrite _ t s hs

end Sink

/-! ## Executions -/

section Execute

variable {σ τ : Type} {sink : Sink τ} {t t₀ : τ}

/-- Nothing but the preparation of a sink depends on how it is prepared. -/
theorem execute_prepared (hprepare : sink.prepare t = (none, t₀)) (d : Document) (name : String)
    (data : Members σ) (state : σ) :
    d.execute name sink data state t = d.execute name sink.prepared data state t₀ := by
  have hwalk : Execution.runFrom (Execution.walk data sink d.root) ⟨none, state, t⟩ =
      Execution.runFrom (Execution.walk data sink.prepared d.root) ⟨none, state, t₀⟩ := by
    unfold Execution.walk
    rw [Execution.runFrom_bind, Execution.runFrom_bind, Execution.runFrom_output,
      Execution.runFrom_output, hprepare]
    rfl
  unfold Execution.runFrom at hwalk
  unfold Document.execute
  rw [hwalk]

/-- A sink, what it starts from, and which bytes are found in what has come of it. -/
inductive Ready : {τ : Type} → Sink τ → τ → (ByteArray → τ → Prop) → Prop
  | text : Ready .text "" fun bytes t => t.toUTF8 = bytes
  | bytes : Ready .bytes .empty fun bytes t => t = bytes
  | buffered : Ready .buffered ⟨.empty, .empty⟩ fun bytes b => b.flush.arrived = bytes
  /-- A file that has just been created. What is found is what it holds and where it is written to
  next. -/
  | openFile {path : Path} {t t' : FileTree} {file : Handle} :
    Succeeds (Files.create (m := StateM FileTree) path) t file t' →
      Ready .openFile (t', file) fun bytes (w : FileTree × Handle) =>
        w.1.read path = .ok bytes ∧ w.2.position? = some bytes.size
  /-- A path at which a file can be created, in a tree of files that is left as it is. -/
  | path {path : Path} {t t' : FileTree} {file : Handle} :
    Succeeds (createFile (m := StateM FileTree) path) t file t' →
      Ready (.path path) t fun bytes t => t.read path = .ok bytes
  | borrowed {τ : Type} {sink : Sink τ} {t : τ} {found : ByteArray → τ → Prop} :
    Ready sink t found → Ready sink.borrowed t found

/-- What a sink is prepared to holds nothing, and what is found in the end is what it holds. -/
theorem Ready.prepare_appends {found : ByteArray → τ → Prop} (h : Ready sink t found) :
    ∃ t₀ holds, sink.prepare t = (none, t₀) ∧ holds .empty t₀ ∧ sink.Appends holds ∧
      ∀ bytes t, holds bytes t → found bytes t := by
  induction h with
  | text => exact ⟨_, _, rfl, rfl, Sink.appends_text, fun _ _ h => h⟩
  | bytes => exact ⟨_, fun bytes t => t = bytes, rfl, rfl, Sink.appends_bytes, fun _ _ h => h⟩
  | buffered => exact ⟨_, _, rfl, rfl, Sink.appends_buffered, fun _ _ h => h⟩
  | @openFile path t t' file h =>
    exact ⟨_, _, rfl, written_create (succeeds_create.1 h), Sink.appends_openFile path,
      fun _ _ h => ⟨h.read, h.position⟩⟩
  | @path path t t' file h =>
    obtain ⟨t₁, hcreate, -⟩ := createFile_iff.1 h
    refine ⟨t', _, ?_, (written_create hcreate).read, Sink.appends_path path, fun _ _ h => h⟩
    simp only [Sink.path, h.run]
  | borrowed _ ih =>
    obtain ⟨t₀, holds, hprepare, hholds, happends, hfound⟩ := ih
    exact ⟨t₀, holds, hprepare, hholds, happends.borrowed, hfound⟩

/-- **One text in every sink.** Whatever an execution is ready to write to, it ends with the error
and with the data that it ends with when it writes to a text, and the bytes found in the sink are
the UTF-8 form of that text: none if nothing is written. -/
theorem execute_ready {found : ByteArray → τ → Prop} (h : Ready sink t found) (d : Document)
    (name : String) (data : Members σ) (state : σ) :
    let run := d.execute name sink data state t
    let text := d.execute name .text data state ""
    run.error = text.error ∧ run.data = text.data ∧ found text.sink.toUTF8 run.sink ∧
      (text.sink = "" → found .empty run.sink) := by
  obtain ⟨t₀, holds, hprepare, hholds, happends, hfound⟩ := h.prepare_appends
  have hdata : Members.Alike Eq data data := ⟨rfl, fun _ _ _ _ hs => by simp [hs]⟩
  obtain ⟨herror, hstate, hsink⟩ := execute_alike hdata happends.alike d name state state t₀ ""
    rfl (by simpa using hholds)
  rw [execute_prepared hprepare]
  refine ⟨herror, hstate, hfound _ _ hsink, fun hempty => hfound _ _ ?_⟩
  rw [hempty] at hsink
  simpa using hsink

end Execute

/-! ## Paths -/

section Paths

/-- A directory with a file in it from before. -/
def stale : FileTree :=
  ⟨["site"], [(["out"], .directory), (["out", "old.txt"], .file 0)], [(0, "old".toUTF8)]⟩

theorem stale_opens : Opens stale "/out" ["out"] := ⟨by cbv⟩

theorem stale_missing : Writable stale "/out" ["out"] ["new", "a.txt"] where
  taken := ⟨by decide, by decide⟩
  short := by decide
  above := by
    intro p hp hproper
    obtain heq | hp := along_concat (show Along p ([("new" : Name)] ++ [("a.txt" : Name)]) from hp)
    · exact absurd heq hproper
    · obtain rfl | hp := along_concat (show Along p ([] ++ [("new" : Name)]) from hp)
      · exact .inl (by cbv)
      · exact absurd hp not_along_nil
  entry := .inl (by cbv)

theorem stale_there : Writable stale "/out" ["out"] ["old.txt"] where
  taken := ⟨by decide, by decide⟩
  short := by decide
  above := by
    intro p hp hproper
    obtain heq | hp := along_concat (show Along p ([] ++ [("old.txt" : Name)]) from hp)
    · exact absurd heq hproper
    · exact absurd hp not_along_nil
  entry := .inr ⟨0, by cbv⟩

theorem stale_create : stale.create "/out/old.txt" = .ok (⟨0, some 0⟩, stale.store 0 .empty) :=
  create_iff.2 ⟨0, stale, nodeAt_iff.2 ⟨["out", "old.txt"], .inl ⟨by cbv, rfl⟩⟩, rfl, rfl⟩

/-- A template that fails after it has written something, into a file in a directory that is
missing, and into a file that has been emptied and is open; and one that writes nothing, into a file
that is there. -/
theorem execute_ready_paths :
    let data : Members Unit := .ofDict [("A", .string "<"), ("N", .null)]
    let broken := Document.new "t" (.root [.text "a", .action [.command [.field ".A"]],
      .action [.command [.field ".B"]], .text "b"])
    let silent := Document.new "t" (.root [.action [.command [.field ".N"]]])
    let file : FileTree × Handle := (stale.store 0 .empty, ⟨0, some 0⟩)
    let failed := broken.execute "run" (Sink.path "/out/new/a.txt").borrowed data () stale
    let kept := broken.execute "run" .openFile data () file
    let done := silent.execute "run" (Sink.path "/out/old.txt") data () stale
    Ready (Sink.path "/out/new/a.txt").borrowed stale
        (fun bytes t => t.read "/out/new/a.txt" = .ok bytes) ∧
      Ready .openFile file
        (fun bytes w => w.1.read "/out/old.txt" = .ok bytes ∧ w.2.position? = some bytes.size) ∧
      Ready (Sink.path "/out/old.txt") stale (fun bytes t => t.read "/out/old.txt" = .ok bytes) ∧
      failed.error.isSome ∧ failed.sink.read "/out/new/a.txt" = .ok "a<".toUTF8 ∧
      kept.error.isSome ∧ kept.sink.1.read "/out/old.txt" = .ok "a<".toUTF8 ∧
      kept.sink.2.position? = some 2 ∧
      done.error = none ∧ done.sink.read "/out/old.txt" = .ok .empty := by
  intro data broken silent file failed kept done
  obtain ⟨file₁, t₁, hmissing⟩ :=
    createFile_writable stale_opens (by simp) (by decide) stale_missing
  obtain ⟨file₂, t₂, hthere⟩ := createFile_writable stale_opens (by simp) (by decide) stale_there
  rw [show Path.below "/out" ["new", "a.txt"] = "/out/new/a.txt" from by decide] at hmissing
  rw [show Path.below "/out" ["old.txt"] = "/out/old.txt" from by decide] at hthere
  have hcreate := succeeds_create.2 stale_create
  have hbroken : (broken.execute "run" .text data () "").sink = "a<" ∧
      (broken.execute "run" .text data () "").error.isSome := ⟨rfl, rfl⟩
  have hsilent : silent.execute "run" .text data () "" = ⟨none, (), ""⟩ := rfl
  have h₁ := execute_ready (Ready.path hmissing).borrowed broken "run" data ()
  have h₂ := execute_ready (Ready.openFile hcreate) broken "run" data ()
  have h₃ := execute_ready (Ready.path hthere) silent "run" data ()
  refine ⟨(Ready.path hmissing).borrowed, .openFile hcreate, .path hthere, ?_, ?_, ?_, ?_, ?_, ?_,
    ?_⟩
  · rw [h₁.1]
    exact hbroken.2
  · rw [← hbroken.1]
    exact h₁.2.2.1
  · rw [h₂.1]
    exact hbroken.2
  · rw [← hbroken.1]
    exact h₂.2.2.1.1
  · rw [h₂.2.2.1.2, hbroken.1]
    rfl
  · rw [h₃.1, hsilent]
  · exact h₃.2.2.2 (by rw [hsilent])

end Paths

end Stencil
