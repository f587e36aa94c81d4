import Stencil.Proofs.Tree.Tour

/-!
# The tour of a walk that edits

A walk that edits changes the tree it goes through. Each of its calls is an `Edit` at an address of
the tree as it is by then, and `Edits` makes them there, one after another, in the whole tree.

`Passes` follows a walk through the node at an address, which has three ways to go: the node is
refused as it is entered, the walk is broken off in a child, or the children are toured and the node
is left. It tells the edits, and the tree that the walk meets: each node as it is when it has been
entered, but with what is met in its children.

Results:
* `passes_of_edit`: every walk that comes to an end passes.
* `Passes.replay`: it makes its edits at their addresses, and no other change.
* `Passes.stops`: its stops are those of the tree it meets, up to the first failure.
* `Passes.met`, `Passes.handed`: the children that are toured are those which a node has when it has
  been entered, as they are then.
* `Passes.kept`: what is not entered stays as it is.
-/

namespace Stencil.Node

/-! ## Trees that change at an address -/

/-- Does something to the node at an address. -/
def modify (f : Node → Node) : Node → Address → Node
  | n, [] => f n
  | n, i :: a => { n with children := n.children.modify i fun c => modify f c a }

/-- Puts another node at an address. -/
def put (n : Node) (a : Address) (m : Node) : Node := n.modify (fun _ => m) a

section

variable {n m : Node} {a : Address} {f g : Node → Node}

theorem modify_cons_congr {i : Nat} {a b : Address}
    (h : ∀ c, n.children[i]? = some c → c.modify f a = c.modify g b) :
    n.modify f (i :: a) = n.modify g (i :: b) := by
  have hchildren : n.children.modify i (fun c => c.modify f a) =
      n.children.modify i fun c => c.modify g b := by
    apply List.ext_getElem?
    intro j
    rw [List.getElem?_modify, List.getElem?_modify]
    by_cases hj : i = j
    · subst hj
      cases hc : n.children[i]? with
      | none => rfl
      | some c => simp [h c hc]
    · simp [hj]
  simp only [modify, hchildren]

theorem modify_congr (h : n.at? a = some m) (hf : f m = g m) : n.modify f a = n.modify g a := by
  induction a generalizing n with
  | nil =>
    obtain rfl : n = m := Option.some.inj h
    exact hf
  | cons i a ih =>
    refine modify_cons_congr fun c hc => ih ?_
    simpa [at?_cons, hc] using h

theorem modify_id (n : Node) (a : Address) : n.modify id a = n := by
  induction a generalizing n with
  | nil => rfl
  | cons i a ih =>
    have hsame : (fun c => modify id c a) = id := funext ih
    obtain ⟨kind, value, children⟩ := n
    rw [modify, hsame, List.modify_id]

theorem modify_modify (n : Node) (a : Address) :
    (n.modify f a).modify g a = n.modify (g ∘ f) a := by
  induction a generalizing n with
  | nil => rfl
  | cons i a ih =>
    have hboth : (fun c => modify g c a) ∘ (fun c => modify f c a) =
        fun c => modify (g ∘ f) c a := funext ih
    simp only [modify, List.modify_modify_eq, hboth]

theorem modify_append (n : Node) (a b : Address) :
    n.modify f (a ++ b) = n.modify (fun m => m.modify f b) a := by
  induction a generalizing n with
  | nil => rfl
  | cons i a ih => simp [modify, ih]

theorem at?_append (n : Node) (a b : Address) :
    n.at? (a ++ b) = (n.at? a).bind fun m => m.at? b := by
  induction a generalizing n with
  | nil => rfl
  | cons i a ih =>
    simp only [List.cons_append, at?_cons, Option.bind_assoc]
    cases n.children[i]? with
    | none => rfl
    | some c => exact ih c

theorem at?_put (h : n.at? a = some m) (m' : Node) : (n.put a m').at? a = some m' := by
  induction a generalizing n with
  | nil => rfl
  | cons i a ih =>
    obtain ⟨c, hc, ha⟩ := Option.bind_eq_some_iff.1 h
    have := ih ha
    simpa [put, modify, at?_cons, hc] using this

theorem put_put (n : Node) (a : Address) (m m' : Node) : (n.put a m).put a m' = n.put a m' :=
  modify_modify n a

theorem put_at? (h : n.at? a = some m) : n.put a m = n := by
  rw [put, modify_congr (f := fun _ => m) (g := id) h rfl, modify_id]

theorem put_append (h : n.at? a = some m) (b : Address) (m' : Node) :
    n.put (a ++ b) m' = n.put a (m.put b m') := by
  rw [put, modify_append]
  exact modify_congr h rfl

end

/-! ## Edits -/

/-- A call of an editor: when, at which address, on which node, and what that leaves there. -/
structure Edit where
  moment : Moment
  address : Address
  given : Node
  left : Node

def Edit.stop (e : Edit) : Stop := (e.moment, e.address)

section

variable {ω : Type} {editor : Editor ω}

/-- These edits, one after another, make one tree of another. Only the last may fail. -/
inductive Edits (editor : Editor ω) :
    List Edit → Node → ω → Node → ω → Option Error → Prop
  | done (t : Node) (s : ω) : Edits editor [] t s t s none
  | failed {w : Moment} {a : Address} {t m m' : Node} {s s' : ω} {e : Error} :
    t.at? a = some m → editor w m s = (m', s', some e) →
    Edits editor [⟨w, a, m, m'⟩] t s (t.put a m') s' (some e)
  | next {w : Moment} {a : Address} {t t' m m' : Node} {edits : List Edit} {s s₁ s' : ω}
    {failure : Option Error} :
    t.at? a = some m → editor w m s = (m', s₁, none) →
    Edits editor edits (t.put a m') s₁ t' s' failure →
    Edits editor (⟨w, a, m, m'⟩ :: edits) t s t' s' failure

/-! ## Courses -/

mutual

/-- A walk through the node at an address: from which node and state, what it meets, its edits, and
to which node and state, with which failure. -/
inductive Passes (editor : Editor ω) :
    Address → Node → ω → Node → List Edit → Node → ω → Option Error → Prop
  | refused {a : Address} {n n₁ : Node} {s s' : ω} {e : Error} :
    editor .enter n s = (n₁, s', some e) →
    Passes editor a n s n₁ [⟨.enter, a, n, n₁⟩] n₁ s' (some e)
  | broken {a : Address} {n : Node} {s s₁ s' : ω} {e : Error} (n₁ : Node) (mets ns : List Node)
    (edits : List Edit) :
    editor .enter n s = (n₁, s₁, none) →
    PassesAll editor a 0 n₁.children s₁ mets edits ns s' (some e) →
    Passes editor a n s { n₁ with children := mets } (⟨.enter, a, n, n₁⟩ :: edits)
      { n₁ with children := ns } s' (some e)
  | toured {a : Address} {n n₂ : Node} {s s₁ s₂ s' : ω} {failure : Option Error} (n₁ : Node)
    (mets ns : List Node) (edits : List Edit) :
    editor .enter n s = (n₁, s₁, none) →
    PassesAll editor a 0 n₁.children s₁ mets edits ns s₂ none →
    editor .leave { n₁ with children := ns } s₂ = (n₂, s', failure) →
    Passes editor a n s { n₁ with children := mets }
      (⟨.enter, a, n, n₁⟩ :: edits ++ [⟨.leave, a, { n₁ with children := ns }, n₂⟩]) n₂ s' failure

/-- A walk through children, which are counted from a number. -/
inductive PassesAll (editor : Editor ω) :
    Address → Nat → List Node → ω → List Node → List Edit → List Node → ω → Option Error → Prop
  | nil (a : Address) (i : Nat) (s : ω) : PassesAll editor a i [] s [] [] [] s none
  | failed {a : Address} {i : Nat} {s s' : ω} {e : Error} {edits : List Edit}
    (n m n' : Node) (ns : List Node) :
    Passes editor (a ++ [i]) n s m edits n' s' (some e) →
    PassesAll editor a i (n :: ns) s (m :: ns) edits (n' :: ns) s' (some e)
  | next {a : Address} {i : Nat} {s s₁ s' : ω} {failure : Option Error}
    (n m n' : Node) (ns ms ns' : List Node) (edits edits' : List Edit) :
    Passes editor (a ++ [i]) n s m edits n' s₁ none →
    PassesAll editor a (i + 1) ns s₁ ms edits' ns' s' failure →
    PassesAll editor a i (n :: ns) s (m :: ms) (edits ++ edits') (n' :: ns') s' failure

end

variable {a : Address} {i : Nat} {n met n' : Node} {ns mets ns' : List Node} {s s' : ω}
  {edits : List Edit} {failure : Option Error}

theorem passesAll_of_editAll {go : Node → ω → Option (Node × ω × Option Error)}
    (hgo : ∀ {n n' s s' failure}, go n s = some (n', s', failure) → ∀ a, ∃ met edits,
      Passes editor a n s met edits n' s' failure)
    (h : editAll go ns s = some (ns', s', failure)) (a : Address) (i : Nat) :
    ∃ mets edits, PassesAll editor a i ns s mets edits ns' s' failure := by
  induction ns generalizing s ns' i with
  | nil =>
    cases h
    exact ⟨[], [], .nil a i _⟩
  | cons n ns ih =>
    rw [editAll] at h
    split at h
    · cases h
    · rename_i n₁ s₁ e hn
      cases h
      obtain ⟨m, edits, hpass⟩ := hgo hn (a ++ [i])
      exact ⟨m :: ns, edits, .failed _ _ _ _ hpass⟩
    · rename_i n₁ s₁ hn
      split at h
      · cases h
      · rename_i hns
        cases h
        obtain ⟨m, edits, hpass⟩ := hgo hn (a ++ [i])
        obtain ⟨ms, edits', hrest⟩ := ih hns (i + 1)
        exact ⟨m :: ms, edits ++ edits', .next _ _ _ _ _ _ _ _ hpass hrest⟩

theorem passes_of_edit {depth : Nat} (h : edit editor depth n s = some (n', s', failure))
    (a : Address) : ∃ met edits, Passes editor a n s met edits n' s' failure := by
  induction depth generalizing n s n' s' failure a with
  | zero => cases h
  | succ depth ih =>
    rw [edit] at h
    split at h
    · rename_i henter
      cases h
      exact ⟨_, _, .refused henter⟩
    · rename_i n₁ s₁ henter
      split at h
      · cases h
      · rename_i hall
        cases h
        obtain ⟨mets, edits, hpass⟩ := passesAll_of_editAll (fun h => ih h) hall a 0
        exact ⟨_, _, .broken _ _ _ _ henter hpass⟩
      · rename_i hall
        obtain ⟨mets, edits, hpass⟩ := passesAll_of_editAll (fun h => ih h) hall a 0
        exact ⟨_, _, .toured _ _ _ _ henter hpass (Option.some.inj h)⟩

/-! ## The tree -/

theorem Edits.append {t t₁ t' : Node} {s₁ : ω} {edits' : List Edit}
    (h : Edits editor edits t s t₁ s₁ none) (h' : Edits editor edits' t₁ s₁ t' s' failure) :
    Edits editor (edits ++ edits') t s t' s' failure := by
  generalize hnone : (none : Option Error) = f at h
  induction h with
  | done => exact h'
  | failed => cases hnone
  | next hat hedit _ ih => exact .next hat hedit (ih h' hnone)

theorem Edits.single {t m m' : Node} {w : Moment} (ht : t.at? a = some m)
    (h : editor w m s = (m', s', failure)) :
    Edits editor [⟨w, a, m, m'⟩] t s (t.put a m') s' failure := by
  cases failure with
  | none => exact .next ht h (.done _ _)
  | some e => exact .failed ht h

theorem at?_child {before : List Node} (hi : before.length = i) (t n : Node) (ns : List Node)
    (a : Address) : ({ t with children := before ++ n :: ns } : Node).at? (i :: a) = n.at? a := by
  simp [at?_cons, ← hi]

theorem put_child {before : List Node} (hi : before.length = i) (t n n' : Node) (ns : List Node) :
    ({ t with children := before ++ n :: ns } : Node).put [i] n' =
      { t with children := before ++ n' :: ns } := by
  have hmodify : (before ++ n :: ns).modify before.length (fun _ => n') = before ++ n' :: ns := by
    clear hi
    induction before with
    | nil => rfl
    | cons b before ih => simp [ih]
  simp [put, modify, ← hi, hmodify]

mutual

/-- What becomes of the whole tree is what the edits make of it. -/
theorem Passes.replay {a : Address} {n met n' : Node} {s s' : ω} {edits : List Edit}
    {failure : Option Error} {t : Node} : Passes editor a n s met edits n' s' failure →
    t.at? a = some n → Edits editor edits t s (t.put a n') s' failure
  | .refused henter, ht => .failed ht henter
  | .broken n₁ mets ns edits henter hall, ht => by
    have hentered : (t.put a n₁).at? a = some { n₁ with children := [] ++ n₁.children } := by
      rw [at?_put ht]
      cases n₁
      rfl
    have hinner := hall.replay rfl hentered
    rw [put_put] at hinner
    exact .next ht henter hinner
  | .toured n₁ mets ns edits henter hall hleave, ht => by
    have hentered : (t.put a n₁).at? a = some { n₁ with children := [] ++ n₁.children } := by
      rw [at?_put ht]
      cases n₁
      rfl
    have hinner := hall.replay rfl hentered
    have hlast := Edits.single (at?_put (at?_put ht n₁) _) hleave
    rw [put_put, put_put] at hlast
    rw [put_put] at hinner
    exact .next ht henter (hinner.append hlast)
termination_by structural h => h

theorem PassesAll.replay {a : Address} {i : Nat} {ns mets ns' : List Node} {s s' : ω}
    {edits : List Edit} {failure : Option Error} {t r : Node} {before : List Node} :
    PassesAll editor a i ns s mets edits ns' s' failure → before.length = i →
    t.at? a = some { r with children := before ++ ns } →
    Edits editor edits t s (t.put a { r with children := before ++ ns' }) s' failure
  | .nil _ _ _, _, ht => by
    rw [put_at? ht]
    exact .done t _
  | .failed n m n' ns hpass, hi, ht => by
    have hchild : t.at? (a ++ [i]) = some n := by
      rw [at?_append, ht, Option.bind_some, at?_child hi, at?_nil]
    have hedits := hpass.replay hchild
    rwa [put_append ht, put_child hi] at hedits
  | .next n m n' ns ms ns' edits edits' hpass hrest, hi, ht => by
    have hchild : t.at? (a ++ [i]) = some n := by
      rw [at?_append, ht, Option.bind_some, at?_child hi, at?_nil]
    have hedits := hpass.replay hchild
    rw [put_append ht, put_child hi] at hedits
    have hnext : (t.put a { r with children := before ++ n' :: ns }).at? a =
        some { r with children := (before ++ [n']) ++ ns } := by
      rw [at?_put ht, List.append_assoc]
      rfl
    have hrest := hrest.replay (by simp [hi]) hnext
    rw [put_put, List.append_assoc] at hrest
    exact hedits.append hrest
termination_by structural h => h

end

/-! ## The order -/

theorem below_below (a b : Address) (p : Stop) : (p.below b).below a = p.below (a ++ b) := by
  simp [Stop.below]

theorem map_stopsAll_cons (a : Address) (i : Nat) (n : Node) (ns : List Node) :
    (stopsAll i (n :: ns)).map (Stop.below a) =
      n.stops.map (Stop.below (a ++ [i])) ++ (stopsAll (i + 1) ns).map (Stop.below a) := by
  simp [stopsAll, below_below]

theorem map_stops (a : Address) (n : Node) : n.stops.map (Stop.below a) =
    (.enter, a) :: (stopsAll 0 n.children).map (Stop.below a) ++ [(.leave, a)] := by
  cases n
  simp [stops, Stop.below]

/-- The stops at a node whose children have been toured. -/
theorem map_stop_toured {n n' n₁ n₂ : Node}
    (h : edits.map Edit.stop = (stopsAll 0 mets).map (Stop.below a)) :
    (⟨.enter, a, n, n₁⟩ :: edits ++ [⟨.leave, a, n', n₂⟩] : List Edit).map Edit.stop =
      ({ n₁ with children := mets } : Node).stops.map (Stop.below a) := by
  rw [map_stops, List.map_append, List.map_cons, h]
  rfl

mutual

/-- A walk stops along a tour. -/
theorem Passes.stops {a : Address} {n met n' : Node} {s s' : ω} {edits : List Edit}
    {failure : Option Error} : Passes editor a n s met edits n' s' failure →
    edits.map Edit.stop <+: met.stops.map (Stop.below a) ∧
      (failure = none → edits.map Edit.stop = met.stops.map (Stop.below a))
  | .refused henter => by
    rw [map_stops]
    exact ⟨by simp [Edit.stop], by simp⟩
  | .broken n₁ mets ns edits henter hall => by
    obtain ⟨hpre, -⟩ := hall.stops
    rw [map_stops, List.cons_append, List.map_cons]
    exact ⟨List.cons_prefix_cons.2 ⟨rfl, hpre.trans (List.prefix_append _ _)⟩, by simp⟩
  | .toured n₁ mets ns edits henter hall hleave => by
    rw [map_stop_toured (hall.stops.2 rfl)]
    exact ⟨List.prefix_rfl, fun _ => rfl⟩
termination_by structural h => h

theorem PassesAll.stops {a : Address} {i : Nat} {ns mets ns' : List Node} {s s' : ω}
    {edits : List Edit} {failure : Option Error} :
    PassesAll editor a i ns s mets edits ns' s' failure →
    edits.map Edit.stop <+: (stopsAll i mets).map (Stop.below a) ∧
      (failure = none → edits.map Edit.stop = (stopsAll i mets).map (Stop.below a))
  | .nil _ _ _ => ⟨List.prefix_rfl, fun _ => rfl⟩
  | .failed n m n' ns hpass => by
    obtain ⟨hpre, -⟩ := hpass.stops
    rw [map_stopsAll_cons]
    exact ⟨hpre.trans (List.prefix_append _ _), by simp⟩
  | .next n m n' ns ms ns' edits edits' hpass hrest => by
    obtain ⟨-, hwhole⟩ := hpass.stops
    obtain ⟨hpre, hwhole'⟩ := hrest.stops
    rw [map_stopsAll_cons, List.map_append, hwhole rfl]
    exact ⟨(List.prefix_append_right_inj _).2 hpre, fun h => by rw [hwhole' h]⟩
termination_by structural h => h

end

/-! ## The nodes -/

/-- A node has the kind, the value and as many children as an edit leaves. -/
structure Edit.Met (e : Edit) (m : Node) : Prop where
  kind : m.kind = e.left.kind
  value : m.value = e.left.value
  length : m.children.length = e.left.children.length

mutual

/-- What a walk has met is what its visitor leaves behind as it enters. -/
theorem Passes.met {a : Address} {n met n' : Node} {s s' : ω} {edits : List Edit}
    {failure : Option Error} : Passes editor a n s met edits n' s' failure →
    ∀ e ∈ edits, e.moment = .enter → ∃ b m, e.address = a ++ b ∧ met.at? b = some m ∧ e.Met m
  | .refused henter, e, he, hw => by
    obtain rfl := List.mem_singleton.1 he
    exact ⟨[], _, by simp, rfl, rfl, rfl, rfl⟩
  | .broken n₁ mets ns edits henter hall, e, he, hw => by
    obtain ⟨hlength, hinner⟩ := hall.met
    obtain rfl | he := List.mem_cons.1 he
    · exact ⟨[], _, by simp, rfl, rfl, rfl, hlength⟩
    · obtain ⟨b, m, haddress, hat, hmet⟩ := hinner e he hw
      exact ⟨b, m, haddress, hat n₁ [] rfl, hmet⟩
  | .toured n₁ mets ns edits henter hall hleave, e, he, hw => by
    obtain ⟨hlength, hinner⟩ := hall.met
    obtain (rfl | he) | rfl := by simpa only [List.mem_append, List.mem_cons, List.mem_singleton,
      List.not_mem_nil, or_false] using he
    · exact ⟨[], _, by simp, rfl, rfl, rfl, hlength⟩
    · obtain ⟨b, m, haddress, hat, hmet⟩ := hinner e he hw
      exact ⟨b, m, haddress, hat n₁ [] rfl, hmet⟩
    · cases hw
termination_by structural h => h

theorem PassesAll.met {a : Address} {i : Nat} {ns mets ns' : List Node} {s s' : ω}
    {edits : List Edit} {failure : Option Error} :
    PassesAll editor a i ns s mets edits ns' s' failure → mets.length = ns.length ∧
      ∀ e ∈ edits, e.moment = .enter → ∃ b m, e.address = a ++ b ∧
        (∀ (r : Node) (before : List Node), before.length = i →
          ({ r with children := before ++ mets } : Node).at? b = some m) ∧ e.Met m
  | .nil _ _ _ => ⟨rfl, by simp⟩
  | .failed n m n' ns hpass => by
    refine ⟨rfl, fun e he hw => ?_⟩
    obtain ⟨b, m', haddress, hat, hmet⟩ := hpass.met e he hw
    exact ⟨i :: b, m', by simp [haddress], fun r before hi => (at?_child hi ..).trans hat, hmet⟩
  | .next n m n' ns ms ns' edits edits' hpass hrest => by
    obtain ⟨hlength, hbehind⟩ := hrest.met
    refine ⟨by simp [hlength], fun e he hw => ?_⟩
    obtain he | he := List.mem_append.1 he
    · obtain ⟨b, m', haddress, hat, hmet⟩ := hpass.met e he hw
      exact ⟨i :: b, m', by simp [haddress], fun r before hi => (at?_child hi ..).trans hat, hmet⟩
    · obtain ⟨b, m', haddress, hat, hmet⟩ := hbehind e he hw
      refine ⟨b, m', haddress, fun r before hi => ?_, hmet⟩
      have hnext := hat r (before ++ [m]) (by simp [hi])
      rwa [List.append_assoc] at hnext
termination_by structural h => h

end

theorem Passes.address (h : Passes editor a n s met edits n' s' failure) {e : Edit}
    (he : e ∈ edits) : ∃ b, e.address = a ++ b := by
  obtain ⟨p, -, hp⟩ := List.mem_map.1 (h.stops.1.subset (List.mem_map_of_mem he))
  exact ⟨p.2, (congrArg Prod.snd hp).symm⟩

theorem PassesAll.address (h : PassesAll editor a i ns s mets edits ns' s' failure) {e : Edit}
    (he : e ∈ edits) : ∃ j b, i ≤ j ∧ e.address = a ++ j :: b := by
  obtain ⟨p, hmem, hp⟩ := List.mem_map.1 (h.stops.1.subset (List.mem_map_of_mem he))
  obtain ⟨j, b, c, hb, -⟩ := (mem_stopsAll mets).1 hmem
  refine ⟨i + j, b, by omega, (congrArg Prod.snd hp).symm.trans ?_⟩
  rw [Stop.below, hb]

theorem Passes.eq_of_child (h : Passes editor (a ++ [i]) n s met edits n' s' failure) {c : Edit}
    (hc : c ∈ edits) {j : Nat} (hj : c.address = a ++ [j]) : j = i := by
  obtain ⟨b, hb⟩ := h.address hc
  simp only [hb, List.append_assoc, List.append_cancel_left_eq, List.singleton_append,
    List.cons.injEq] at hj
  exact hj.1.symm

theorem Passes.entered (h : Passes editor a n s met edits n' s' failure) :
    ∃ e ∈ edits, e.moment = .enter ∧ e.address = a := by
  cases h <;> exact ⟨_, List.mem_cons_self, rfl, rfl⟩

/-- A child is entered as it was left there when the node above it was entered. -/
def Handed (edits : List Edit) : Prop :=
  ∀ e ∈ edits, ∀ c ∈ edits, e.moment = .enter → c.moment = .enter →
    ∀ j, c.address = e.address ++ [j] → e.left.children[j]? = some c.given

/-- The edits in the children of a node behind the one that enters it. -/
theorem handed_cons {n₁ : Node} (inner : List Edit)
    (hedits : ∀ e ∈ edits, e.moment = .enter → e = ⟨.enter, a, n, n₁⟩ ∨ e ∈ inner)
    (haddress : ∀ e ∈ inner, ∃ j b, e.address = a ++ j :: b)
    (hchild : ∀ c ∈ inner, c.moment = .enter → ∀ j, c.address = a ++ [j] →
      n₁.children[j]? = some c.given) (hinner : Handed inner) :
    (∀ c ∈ edits, c.moment = .enter → c.address = a → c.given = n) ∧ Handed edits := by
  constructor
  · intro c hc hw ha
    obtain rfl | hc := hedits c hc hw
    · rfl
    · obtain ⟨j, b, hb⟩ := haddress c hc
      rw [hb] at ha
      simp at ha
  · intro e he c hc hew hcw j hj
    obtain rfl | hc := hedits c hc hcw
    · -- The node itself is not below any other.
      obtain ⟨b, hb⟩ : ∃ b, e.address = a ++ b := by
        obtain rfl | he := hedits e he hew
        · exact ⟨[], by simp⟩
        · obtain ⟨k, b, hb⟩ := haddress e he
          exact ⟨k :: b, hb⟩
      simp [hb] at hj
    · obtain rfl | he := hedits e he hew
      · exact hchild c hc hcw j hj
      · exact hinner e he c hc hew hcw j hj

mutual

/-- The nodes below the first one are handed on to the walk by the nodes above them. -/
theorem Passes.handed {a : Address} {n met n' : Node} {s s' : ω} {edits : List Edit}
    {failure : Option Error} : Passes editor a n s met edits n' s' failure →
    (∀ c ∈ edits, c.moment = .enter → c.address = a → c.given = n) ∧ Handed edits
  | .refused henter =>
    handed_cons [] (fun e he _ => .inl (List.mem_singleton.1 he)) (by simp) (by simp)
      fun _ he => by simp at he
  | .broken n₁ mets ns edits henter hall => by
    obtain ⟨hchild, hinner⟩ := hall.handed
    refine handed_cons edits (fun e he _ => List.mem_cons.1 he) (fun e he => ?_)
      (fun c hc hw j hj => hchild c hc hw j hj [] rfl) hinner
    obtain ⟨j, b, -, hb⟩ := hall.address he
    exact ⟨j, b, hb⟩
  | .toured n₁ mets ns edits henter hall hleave => by
    obtain ⟨hchild, hinner⟩ := hall.handed
    refine handed_cons edits (fun e he hw => ?_) (fun e he => ?_)
      (fun c hc hw j hj => hchild c hc hw j hj [] rfl) hinner
    · obtain he | he := List.mem_append.1 he
      · exact List.mem_cons.1 he
      · rw [List.mem_singleton.1 he] at hw
        cases hw
    · obtain ⟨j, b, -, hb⟩ := hall.address he
      exact ⟨j, b, hb⟩
termination_by structural h => h

theorem PassesAll.handed {a : Address} {i : Nat} {ns mets ns' : List Node} {s s' : ω}
    {edits : List Edit} {failure : Option Error} :
    PassesAll editor a i ns s mets edits ns' s' failure →
    (∀ c ∈ edits, c.moment = .enter → ∀ j, c.address = a ++ [j] → ∀ before : List Node,
      before.length = i → (before ++ ns)[j]? = some c.given) ∧ Handed edits
  | .nil _ _ _ => by simp [Handed]
  | .failed n m n' ns hpass => by
    obtain ⟨hroot, hinner⟩ := hpass.handed
    refine ⟨fun c hc hw j hj before hi => ?_, hinner⟩
    obtain rfl := hpass.eq_of_child hc hj
    simp [hroot c hc hw hj, ← hi]
  | .next n m n' ns ms ns' edits edits' hpass hrest => by
    obtain ⟨hroot, hinner⟩ := hpass.handed
    obtain ⟨hchild, hbehind⟩ := hrest.handed
    -- What is in one child is not in another.
    have hapart : ∀ e ∈ edits, ∀ c ∈ edits', ∀ b, c.address ≠ e.address ++ b ∧
        e.address ≠ c.address ++ b := by
      intro e he c hc b
      obtain ⟨b₁, hb₁⟩ := hpass.address he
      obtain ⟨k, b₂, hk, hb₂⟩ := hrest.address hc
      simp only [hb₁, hb₂, List.append_assoc, ne_eq, List.append_cancel_left_eq,
        List.cons_append, List.cons.injEq]
      omega
    constructor
    · intro c hc hw j hj before hi
      obtain hc | hc := List.mem_append.1 hc
      · obtain rfl := hpass.eq_of_child hc hj
        simp [hroot c hc hw hj, ← hi]
      · have hnext := hchild c hc hw j hj (before ++ [n]) (by simp [hi])
        rwa [List.append_assoc] at hnext
    · intro e he c hc hew hcw j hj
      obtain he | he := List.mem_append.1 he <;> obtain hc | hc := List.mem_append.1 hc
      · exact hinner e he c hc hew hcw j hj
      · exact absurd hj (hapart e he c hc _).1
      · exact absurd hj (hapart c hc e he _).2
      · exact hbehind e he c hc hew hcw j hj
termination_by structural h => h

end

/-! ## What is left alone -/

/-- All children of a node are entered if all stops are made. -/
theorem entered_of_stops (hstops : edits.map Edit.stop = met.stops.map (Stop.below a))
    (hmet : ∀ e ∈ edits, e.moment = .enter → ∃ b m, e.address = a ++ b ∧ met.at? b = some m ∧
      e.Met m) {e : Edit} (he : e ∈ edits) (hw : e.moment = .enter) {j : Nat} {c : Node}
    (hc : e.left.children[j]? = some c) :
    ∃ c' ∈ edits, c'.moment = .enter ∧ c'.address = e.address ++ [j] := by
  obtain ⟨b, m, haddress, hat, hm⟩ := hmet e he hw
  have hj : j < m.children.length := by
    rw [hm.length]
    exact (List.getElem?_eq_some_iff.1 hc).1
  have hchild : (met.at? (b ++ [j])).isSome := by
    rw [at?_append, hat, Option.bind_some, at?_cons, List.getElem?_eq_getElem hj]
    rfl
  have hstop : (Moment.enter, a ++ (b ++ [j])) ∈ edits.map Edit.stop := by
    rw [hstops]
    exact List.mem_map.2 ⟨_, (mem_stops met).2 hchild, rfl⟩
  obtain ⟨c', hc', hstop'⟩ := List.mem_map.1 hstop
  obtain ⟨hw', ha'⟩ := Prod.mk.inj hstop'
  exact ⟨c', hc', hw', by rw [ha', haddress, List.append_assoc]⟩

/-- A child that is not entered is still as it was left when the node above it was entered. -/
def Kept (a : Address) (edits : List Edit) (n' : Node) : Prop :=
  ∀ e ∈ edits, e.moment = .enter → ∀ j c, e.left.children[j]? = some c →
    (∀ c' ∈ edits, c'.moment = .enter → c'.address ≠ e.address ++ [j]) →
    ∀ b, e.address = a ++ b → n'.at? (b ++ [j]) = some c

theorem getElem?_other {before : List Node} (hi : before.length = i) {j : Nat} (hj : j ≠ i)
    (n n' : Node) (ns : List Node) : (before ++ n' :: ns)[j]? = (before ++ n :: ns)[j]? := by
  rcases Nat.lt_or_gt_of_ne hj with hj | hj
  · rw [List.getElem?_append_left (by omega), List.getElem?_append_left (by omega)]
  · obtain ⟨k, hk⟩ := Nat.exists_eq_add_of_lt hj
    have hk : j - before.length = k + 1 := by omega
    rw [List.getElem?_append_right (by omega), List.getElem?_append_right (by omega), hk]
    rfl

theorem at?_single (n : Node) (j : Nat) : n.at? [j] = n.children[j]? := by
  simp [at?_cons]

mutual

/-- After a failure, the children that the walk has not come to are still there. Otherwise there are
none. -/
theorem Passes.kept {a : Address} {n met n' : Node} {s s' : ω} {edits : List Edit}
    {failure : Option Error} : Passes editor a n s met edits n' s' failure → Kept a edits n'
  | .refused henter, e, he, _, j, c, hc, _, b, hb => by
    obtain rfl := List.mem_singleton.1 he
    obtain rfl : b = [] := by simpa using hb
    rwa [List.nil_append, at?_single]
  | .broken n₁ mets ns edits henter hall, e, he, hw, j, c, hc, hnever, b, hb => by
    obtain ⟨hchild, hinner⟩ := hall.kept
    have hnever : ∀ c' ∈ edits, c'.moment = .enter → c'.address ≠ e.address ++ [j] :=
      fun c' hc' => hnever c' (List.mem_cons_of_mem _ hc')
    obtain rfl | he := List.mem_cons.1 he
    · obtain rfl : b = [] := by simpa using hb
      rw [List.nil_append, at?_single]
      exact hchild j c hnever [] rfl hc
    · exact hinner n₁ [] rfl e he hw j c hc hnever b hb
  | .toured n₁ mets ns edits henter hall hleave, e, he, hw, j, c, hc, hnever, b, hb => by
    have hmet := (Passes.toured n₁ mets ns edits henter hall hleave).met
    obtain ⟨c', hc', hw', ha'⟩ :=
      entered_of_stops (map_stop_toured (hall.stops.2 rfl)) hmet he hw hc
    exact absurd ha' (hnever c' hc' hw')
termination_by structural h => h

theorem PassesAll.kept {a : Address} {i : Nat} {ns mets ns' : List Node} {s s' : ω}
    {edits : List Edit} {failure : Option Error} :
    PassesAll editor a i ns s mets edits ns' s' failure →
    (∀ j c, (∀ c' ∈ edits, c'.moment = .enter → c'.address ≠ a ++ [j]) → ∀ before : List Node,
      before.length = i → (before ++ ns)[j]? = some c → (before ++ ns')[j]? = some c) ∧
    ∀ (r : Node) (before : List Node), before.length = i →
      Kept a edits { r with children := before ++ ns' }
  | .nil _ _ _ => by simp [Kept]
  | .failed n m n' ns hpass => by
    constructor
    · intro j c hnever before hi hc
      obtain ⟨e, he, hw, ha⟩ := hpass.entered
      have hj : j ≠ i := fun hj => hnever e he hw (by rw [ha, hj])
      rwa [getElem?_other hi hj n n']
    · intro r before hi e he hw j c hc hnever b hb
      obtain ⟨b', hb'⟩ := hpass.address he
      obtain rfl : b = i :: b' := by simpa [hb] using hb'
      rw [List.cons_append, at?_child hi]
      exact hpass.kept e he hw j c hc hnever b' hb'
  | .next n m n' ns ms ns' edits edits' hpass hrest => by
    obtain ⟨hchild, hbehind⟩ := hrest.kept
    constructor
    · intro j c hnever before hi hc
      obtain ⟨e, he, hw, ha⟩ := hpass.entered
      have hj : j ≠ i := fun hj => hnever e (List.mem_append_left _ he) hw (by rw [ha, hj])
      rw [← getElem?_other hi hj n n'] at hc
      have hnext := hchild j c (fun c' hc' => hnever c' (List.mem_append_right _ hc'))
        (before ++ [n']) (by simp [hi]) (by rwa [List.append_assoc])
      rwa [List.append_assoc] at hnext
    · intro r before hi e he hw j c hc hnever b hb
      obtain he | he := List.mem_append.1 he
      · obtain ⟨b', hb'⟩ := hpass.address he
        obtain rfl : b = i :: b' := by simpa [hb] using hb'
        rw [List.cons_append, at?_child hi]
        exact hpass.kept e he hw j c hc (fun c' hc' => hnever c' (List.mem_append_left _ hc'))
          b' hb'
      · have hnext := hbehind r (before ++ [n']) (by simp [hi]) e he hw j c hc
          (fun c' hc' => hnever c' (List.mem_append_right _ hc')) b hb
        rwa [List.append_assoc] at hnext
termination_by structural h => h

end

end

end Stencil.Node
