import Stencil.Proofs.Tree.Editing

/-!
# Walks

A walk is a tour of a tree, cut behind the first call that fails. A walk that edits is one too, but
of the tree that it meets: what a node has for children when it has been entered is toured, and what
it is given when it is left is not. An editor that leaves the nodes of a tree as they are gets the
calls that a visitor gets.

An editor may never come to an end. `edit` has a result where it does, with enough levels.

Results:
* `edit_mono`: which result a walk that edits has does not depend on the levels it may go down.
* `passes_unmodified`: without edits, a walk that edits comes to an end and makes the tour.
* `Passes.walked`: what holds for every walk that edits.
* `walks_tour`: all of it, for every tree.
-/

namespace Stencil.Node

variable {ω : Type} {editor : Editor ω} {n met n' : Node} {edits : List Edit} {s s' : ω}
  {failure : Option Error}

/-! ## Levels -/

theorem editAll_mono {go go' : Node → ω → Option (Node × ω × Option Error)}
    (h : ∀ {n s r}, go n s = some r → go' n s = some r) {ns : List Node}
    {r : List Node × ω × Option Error} (hr : editAll go ns s = some r) :
    editAll go' ns s = some r := by
  induction ns generalizing s r with
  | nil => exact hr
  | cons n ns ih =>
    rw [editAll] at hr ⊢
    split at hr
    · cases hr
    · rename_i hn
      rw [h hn]
      exact hr
    · rename_i hn
      rw [h hn]
      dsimp only
      split at hr
      · cases hr
      · rename_i hns
        rw [ih hns]
        exact hr

/-- More levels make no difference once there are enough. -/
theorem edit_mono {depth depth' : Nat} (hle : depth ≤ depth') {r : Node × ω × Option Error}
    (h : edit editor depth n s = some r) : edit editor depth' n s = some r := by
  induction depth generalizing n s r depth' with
  | zero => cases h
  | succ depth ih =>
    obtain ⟨depth', rfl⟩ := Nat.exists_eq_add_of_le' (show 1 ≤ depth' by omega)
    have hgo : ∀ {n s r}, edit editor depth n s = some r → edit editor depth' n s = some r :=
      fun h => ih (by omega) h
    rw [edit] at h ⊢
    split at h
    · exact h
    · split at h
      · cases h
      all_goals
        rename_i hall
        rw [editAll_mono hgo hall]
        exact h

/-! ## Visitors -/

/-- How a walk ends. -/
def ending : Option Error → Except Error Unit
  | none => .ok ()
  | some e => .error e

/-- The visitor that does what an editor does, but for the edits. -/
def Editor.visitor (editor : Editor ω) (w : Moment) (n : Node) : ExceptT Error (StateM ω) Unit :=
  fun s => (ending (editor w n s).2.2, (editor w n s).2.1)

def Edit.call (e : Edit) : Moment × Node := (e.moment, e.given)

/-- A visitor gets the calls that an editor gets. -/
theorem Edits.calls {t t' : Node} (h : Edits editor edits t s t' s' failure) :
    Calls editor.visitor (edits.map Edit.call) s (ending failure) s' := by
  have hrun : ∀ {w m s m' s' failure}, editor w m s = (m', s', failure) →
      (editor.visitor w m).run.run s = (ending failure, s') := by
    intro w m s m' s' failure hedit
    show (ending (editor w m s).2.2, (editor w m s).2.1) = _
    rw [hedit]
  induction h with
  | done => exact .done _
  | failed _ hedit => exact .failed (hrun hedit)
  | next _ hedit _ ih => exact .next (hrun hedit) ih

mutual

/-- An editor that leaves the nodes of a tree as they are tours that tree, with no more levels than
it has nodes. -/
theorem passes_unmodified : (n : Node) → ∀ {depth : Nat} (a : Address) (s : ω), n.size ≤ depth →
    (∀ p ∈ n.tour, ∀ s, (editor p.1 p.2 s).1 = p.2) →
    ∃ edits s' failure, edit editor depth n s = some (n, s', failure) ∧
      Passes editor a n s n edits n s' failure ∧ edits.map Edit.call <+: n.tour ∧
      (failure = none → edits.map Edit.call = n.tour)
  | ⟨kind, value, children⟩, depth, a, s, hdepth, hsame => by
    rw [size] at hdepth
    obtain ⟨depth, rfl⟩ := Nat.exists_eq_add_of_le' (show 1 ≤ depth by omega)
    rw [tour, List.cons_append, List.forall_mem_cons, List.forall_mem_append] at hsame
    obtain ⟨henter, hinner, hleave⟩ := hsame
    have henter := henter s
    have hleave := hleave _ (List.mem_singleton_self _)
    rw [tour]
    generalize hentered : editor .enter ⟨kind, value, children⟩ s = r at henter
    obtain ⟨_, s₁, failure⟩ := r
    obtain rfl := henter
    cases failure with
    | some e =>
      refine ⟨_, s₁, some e, ?_, .refused hentered, by simp [Edit.call], by simp⟩
      rw [edit, hentered]
    | none =>
      obtain ⟨edits, s₂, failure, hedit, hpass, hpre, hwhole⟩ :=
        passesAll_unmodified children a 0 s₁ (by omega : sizeAll children ≤ depth) hinner
      cases failure with
      | some e =>
        refine ⟨_, s₂, some e, ?_, .broken _ _ _ _ hentered hpass, ?_, by simp⟩
        · rw [edit, hentered]
          dsimp only
          rw [hedit]
        · exact List.cons_prefix_cons.2 ⟨rfl, hpre.trans (List.prefix_append _ _)⟩
      | none =>
        have hleave := hleave s₂
        generalize hleft : editor .leave ⟨kind, value, children⟩ s₂ = r at hleave
        obtain ⟨_, s₃, failure⟩ := r
        obtain rfl := hleave
        have hcalls : List.map Edit.call (⟨.enter, a, ⟨kind, value, children⟩,
            ⟨kind, value, children⟩⟩ :: edits ++ [⟨.leave, a, ⟨kind, value, children⟩,
              ⟨kind, value, children⟩⟩]) = (.enter, ⟨kind, value, children⟩) ::
                tourAll children ++ [(.leave, ⟨kind, value, children⟩)] := by
          rw [List.map_append, List.map_cons, hwhole rfl]
          rfl
        refine ⟨_, s₃, failure, ?_, .toured _ _ _ _ hentered hpass hleft, ?_, fun _ => hcalls⟩
        · rw [edit, hentered]
          dsimp only
          rw [hedit]
          exact congrArg some hleft
        · exact hcalls.symm ▸ List.prefix_rfl

theorem passesAll_unmodified : (ns : List Node) → ∀ {depth : Nat} (a : Address) (i : Nat) (s : ω),
    sizeAll ns ≤ depth → (∀ p ∈ tourAll ns, ∀ s, (editor p.1 p.2 s).1 = p.2) →
    ∃ edits s' failure, editAll (edit editor depth) ns s = some (ns, s', failure) ∧
      PassesAll editor a i ns s ns edits ns s' failure ∧ edits.map Edit.call <+: tourAll ns ∧
      (failure = none → edits.map Edit.call = tourAll ns)
  | [], depth, a, i, s, hdepth, hsame =>
    ⟨[], s, none, rfl, .nil a i s, List.prefix_rfl, fun _ => rfl⟩
  | n :: ns, depth, a, i, s, hdepth, hsame => by
    rw [sizeAll] at hdepth
    rw [tourAll, List.forall_mem_append] at hsame
    obtain ⟨edits, s₁, failure, hedit, hpass, hpre, hwhole⟩ :=
      passes_unmodified n (a ++ [i]) s (by omega : n.size ≤ depth) hsame.1
    cases failure with
    | some e =>
      refine ⟨edits, s₁, some e, ?_, .failed _ _ _ _ hpass, ?_, by simp⟩
      · rw [editAll, hedit]
      · exact hpre.trans (List.prefix_append _ _)
    | none =>
      obtain ⟨edits', s₂, failure, hedit', hpass', hpre', hwhole'⟩ :=
        passesAll_unmodified ns a (i + 1) s₁ (by omega : sizeAll ns ≤ depth) hsame.2
      refine ⟨edits ++ edits', s₂, failure, ?_, .next _ _ _ _ _ _ _ _ hpass hpass', ?_, fun h => ?_⟩
      · rw [editAll, hedit]
        dsimp only
        rw [hedit']
      · rw [List.map_append, hwhole rfl, tourAll]
        exact (List.prefix_append_right_inj _).2 hpre'
      · rw [List.map_append, hwhole rfl, hwhole' h, tourAll]

end

/-! ## Walks that edit -/

theorem Nested.pairwise {l : List Stop} (h : Nested l) :
    l.Pairwise fun p q => p.1 = .leave → ¬p.2 <+: q.2 := by
  induction h with
  | nil => exact .nil
  | @node a inner rest _ hbelow _ hbehind ihinner ihrest =>
    rw [List.cons_append, List.pairwise_cons, List.pairwise_append, List.pairwise_cons]
    refine ⟨by simp, ihinner, ⟨fun p hp _ => hbehind p hp, ihrest⟩, fun p hp q hq _ => ?_⟩
    obtain ⟨hpre, hne⟩ := hbelow p hp
    obtain rfl | hq := List.mem_cons.1 hq
    · exact fun hback => hne (hback.eq_of_length_le hpre.length_le)
    · exact fun hfront => hbehind q hq (hpre.trans hfront)

/-- What a walk that edits does to a tree, call by call. It makes its stops on the tour of a tree
that it meets, all of them if none fails. That has each node as it is left when it is entered, but
for its children, which are met in turn. -/
structure Walked (editor : Editor ω) (n : Node) (s : ω) (met : Node) (edits : List Edit) (n' : Node)
    (s' : ω) (failure : Option Error) : Prop where
  replay : Edits editor edits n s n' s' failure
  stops : edits.map Edit.stop <+: met.stops
  whole : failure = none → edits.map Edit.stop = met.stops
  met : ∀ e ∈ edits, e.moment = .enter → ∃ m, met.at? e.address = some m ∧ e.Met m
  handed : Handed edits
  /-- Nothing below a node that has been left is visited. -/
  behind : edits.Pairwise fun e c => e.moment = .leave → ¬e.address <+: c.address
  /-- A child that is not entered is as it was left when the node above it was entered. -/
  kept : ∀ e ∈ edits, e.moment = .enter → ∀ j c, e.left.children[j]? = some c →
    (∀ c' ∈ edits, c'.moment = .enter → c'.address ≠ e.address ++ [j]) →
    n'.at? (e.address ++ [j]) = some c

theorem Passes.walked (h : Passes editor [] n s met edits n' s' failure) :
    Walked editor n s met edits n' s' failure := by
  have hbelow : met.stops.map (Stop.below []) = met.stops := List.map_id _
  obtain ⟨hpre, hwhole⟩ := h.stops
  rw [hbelow] at hpre hwhole
  refine ⟨h.replay rfl, hpre, hwhole, fun e he hw => ?_, h.handed.2, ?_,
    fun e he hw j c hc hnever => h.kept e he hw j c hc hnever e.address rfl⟩
  · obtain ⟨b, m, hb, hat, hmet⟩ := h.met e he hw
    exact ⟨m, by rw [hb]; exact hat, hmet⟩
  · exact List.pairwise_map.1 ((nested_stops met).pairwise.sublist hpre.sublist)

/-- **Walks are tours.** The stops of a tree are two at each node, nested. A walk calls a visitor
along them, up to the first call that fails, with its error. So does a walk that edits, on what it
meets: an editor that modifies nothing gets the calls of a visitor, on the tree that stays, and what
any editor does is undone nowhere. -/
theorem walks_tour (n : Node) :
    (n.stops.map fun p => (p.1, n.at? p.2)) = (n.tour.map fun p => (p.1, some p.2)) ∧
      (∀ w a, (w, a) ∈ n.stops ↔ (n.at? a).isSome) ∧ n.stops.Nodup ∧ Nested n.stops ∧
      n.tour.length = 2 * n.size ∧
    (∀ {ω : Type} (visit : Moment → Node → ExceptT Error (StateM ω) Unit) (s s' : ω)
        (result : Except Error Unit),
      (n.walk visit).run.run s = (result, s') ↔ ∃ calls, Calls visit calls s result s' ∧
        calls <+: n.tour ∧ (result = .ok () → calls = n.tour)) ∧
    (∀ {ω : Type} (editor : Editor ω), (∀ p ∈ n.tour, ∀ s, (editor p.1 p.2 s).1 = p.2) →
      ∀ (s : ω) (depth : Nat), n.size ≤ depth → ∃ edits s' failure,
        edit editor depth n s = some (n, s', failure) ∧ Walked editor n s n edits n s' failure ∧
        (n.walk editor.visitor).run.run s = (ending failure, s') ∧
        Calls editor.visitor (edits.map Edit.call) s (ending failure) s' ∧
        edits.map Edit.call <+: n.tour) ∧
    ∀ {ω : Type} (editor : Editor ω) (depth : Nat) (s : ω) (n' : Node) (s' : ω)
        (failure : Option Error), edit editor depth n s = some (n', s', failure) →
      (∀ depth', depth ≤ depth' → edit editor depth' n s = some (n', s', failure)) ∧
        ∃ met edits, Walked editor n s met edits n' s' failure := by
  refine ⟨visits_stops n, fun w a => mem_stops n, nodup_stops n, nested_stops n, length_tour n,
    fun visit s s' result => walk_iff, fun editor hsame s depth hdepth => ?_,
    fun editor depth s n' s' failure h => ⟨fun _ hle => edit_mono hle h, ?_⟩⟩
  · obtain ⟨edits, s', failure, hedit, hpass, hpre, hwhole⟩ :=
      passes_unmodified n [] s hdepth hsame
    have hwalked := hpass.walked
    have hcalls := hwalked.replay.calls
    refine ⟨edits, s', failure, hedit, hwalked, walk_iff.2 ⟨_, hcalls, hpre, fun h => ?_⟩, hcalls,
      hpre⟩
    cases failure with
    | none => exact hwhole rfl
    | some e => cases h
  · obtain ⟨met, edits, hpass⟩ := passes_of_edit h []
    exact ⟨met, edits, hpass.walked⟩

/-- Pushes a child onto each text as it is entered and as it is left, and fails at a field. It keeps
a record of its calls. -/
def pushing : Editor (List (Moment × NodeKind))
  | .enter, n, s =>
    match n.kind with
    | .text => (n.push (.command []), s ++ [(.enter, n.kind)], none)
    | .field => ({ n with value := "" }, s ++ [(.enter, n.kind)], some (.make .other "field" []))
    | _ => (n, s ++ [(.enter, n.kind)], none)
  | .leave, n, s =>
    (if n.kind = .text then n.push (.action []) else n, s ++ [(.leave, n.kind)], none)

/-- The walk ends at the field, which is changed, and the text behind it is not visited. The text
before it has got two children, of which one is toured. -/
theorem walks_tour_pushing :
    let n := Node.root [.text "a", .field ".A", .text "b"]
    let n' := Node.root [⟨.text, "a", [.command [], .action []]⟩, .field "", .text "b"]
    let calls := [(.enter, .root), (.enter, .text), (.enter, .command), (.leave, .command),
      (.leave, .text), (.enter, .field)]
    let failure := some (Error.make .other "field" [])
    edit pushing 3 n [] = some (n', calls, failure) ∧
      ∃ met edits, Walked pushing n [] met edits n' calls failure := by
  intro n n' calls failure
  have hedit : edit pushing 3 n [] = some (n', calls, failure) := rfl
  obtain ⟨-, -, -, -, -, -, -, hany⟩ := walks_tour n
  exact ⟨hedit, (hany pushing 3 [] n' calls failure hedit).2⟩

end Stencil.Node
