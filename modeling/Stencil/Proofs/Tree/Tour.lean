import Stencil.Tree.Walk

/-!
# The tour of a tree

Two nodes of a tree may be equal, so a node is told by its address: which child to go to, level by
level. `stops` is the tour of a tree by addresses. It goes to each address where there is a node
twice, and all that is below an address lies between the two (`Nested`).

A visitor is called along the tour until one of its calls fails. `Calls` says what it is called
with, one call after another, and how that ends; what a visitor does to its state is up to it, so
it can tell every call from any other.

Results:
* `visits_stops`: the stops are those of the tour.
* `mem_stops`, `nodup_stops`, `nested_stops`: each node is entered once and left once, and what is
  entered last is left first.
* `walk_iff`: a walk calls the visitor along the tour, up to the first failure, which is its own.
-/

namespace Stencil.Node

/-! ## Addresses -/

/-- Which child to go to, level by level. -/
abbrev Address := List Nat

def at? : Node → Address → Option Node
  | n, [] => some n
  | n, i :: a => n.children[i]?.bind fun c => at? c a

@[simp] theorem at?_nil (n : Node) : n.at? [] = some n := rfl

theorem at?_cons (n : Node) (i : Nat) (a : Address) :
    n.at? (i :: a) = n.children[i]?.bind fun c => c.at? a := rfl

/-! ## Stops -/

/-- A visit, by the address of the node. -/
abbrev Stop := Moment × Address

/-- A stop in the tree at an address, seen from the whole. -/
def Stop.below (a : Address) (p : Stop) : Stop := (p.1, a ++ p.2)

mutual

/-- The stops of a walk, in order. -/
def stops : Node → List Stop
  | ⟨_, _, children⟩ => (.enter, []) :: stopsAll 0 children ++ [(.leave, [])]

/-- The stops in children, which are counted from `i`. -/
def stopsAll (i : Nat) : List Node → List Stop
  | [] => []
  | n :: ns => (stops n).map (Stop.below [i]) ++ stopsAll (i + 1) ns

end

mutual

/-- **The tour, by addresses.** What is found at the stops are the nodes of the tour. -/
theorem visits_stops : (n : Node) →
    n.stops.map (fun p => (p.1, n.at? p.2)) = n.tour.map fun p => (p.1, some p.2)
  | ⟨kind, value, children⟩ => by
    have hall := visits_stopsAll children ⟨kind, value, children⟩ 0 (by simp)
    simp [stops, tour, hall]

theorem visits_stopsAll : (ns : List Node) → ∀ (n : Node) (i : Nat),
    (∀ j, n.children[i + j]? = ns[j]?) →
      (stopsAll i ns).map (fun p => (p.1, n.at? p.2)) = (tourAll ns).map fun p => (p.1, some p.2)
  | [], _, _, _ => rfl
  | c :: ns, n, i, h => by
    have hchild : n.children[i]? = some c := h 0
    have hrest := visits_stopsAll ns n (i + 1) fun j => by
      rw [Nat.add_assoc, Nat.add_comm 1 j]
      exact h (j + 1)
    have hfirst : ∀ p : Stop, (p.1, n.at? (i :: p.2)) = (p.1, c.at? p.2) := by
      simp [at?_cons, hchild]
    simp [stopsAll, tourAll, Stop.below, Function.comp_def, hfirst, hrest, visits_stops c]

end

mutual

/-- There is a stop for each moment wherever there is a node. -/
theorem mem_stops : (n : Node) → ∀ {w : Moment} {a : Address},
    (w, a) ∈ n.stops ↔ (n.at? a).isSome
  | ⟨kind, value, children⟩, w, [] => by
    cases w <;> simp [stops]
  | ⟨kind, value, children⟩, w, i :: a => by
    have hall := mem_stopsAll children (i := 0) (w := w) (b := i :: a)
    have hinner : (w, i :: a) ∈ stops ⟨kind, value, children⟩ ↔
        (w, i :: a) ∈ stopsAll 0 children := by simp [stops]
    rw [hinner, hall, at?_cons]
    constructor
    · rintro ⟨j, a', c, heq, hc, ha⟩
      obtain ⟨rfl, rfl⟩ : i = 0 + j ∧ a = a' := List.cons.inj heq
      rw [Nat.zero_add]
      simpa [hc] using ha
    · intro h
      obtain ⟨m, hm⟩ := Option.isSome_iff_exists.1 h
      obtain ⟨c, hc, ha⟩ := Option.bind_eq_some_iff.1 hm
      exact ⟨i, a, c, by rw [Nat.zero_add], hc, by simp [ha]⟩

theorem mem_stopsAll : (ns : List Node) → ∀ {i : Nat} {w : Moment} {b : Address},
    (w, b) ∈ stopsAll i ns ↔
      ∃ j a c, b = (i + j) :: a ∧ ns[j]? = some c ∧ (c.at? a).isSome
  | [], i, w, b => by simp [stopsAll]
  | n :: ns, i, w, b => by
    simp only [stopsAll, List.mem_append, List.mem_map, mem_stopsAll ns]
    constructor
    · rintro (⟨⟨w', a⟩, hmem, heq⟩ | ⟨j, a, c, rfl, hc, ha⟩)
      · obtain ⟨rfl, rfl⟩ := Prod.mk.inj heq
        exact ⟨0, a, n, rfl, rfl, (mem_stops n).1 hmem⟩
      · exact ⟨j + 1, a, c, by rw [Nat.add_right_comm, Nat.add_assoc], hc, ha⟩
    · rintro ⟨_ | j, a, c, rfl, hc, ha⟩
      · obtain rfl : n = c := Option.some.inj hc
        exact .inl ⟨(w, a), (mem_stops n).2 ha, rfl⟩
      · exact .inr ⟨j, a, c, by rw [Nat.add_right_comm, Nat.add_assoc], hc, ha⟩

end

/-! ## Nesting -/

/-- Between the two stops at an address are stops below it and no others, and there are none behind
them. -/
inductive Nested : List Stop → Prop
  | nil : Nested []
  | node {a : Address} {inner rest : List Stop} :
    Nested inner → (∀ p ∈ inner, a <+: p.2 ∧ p.2 ≠ a) →
    Nested rest → (∀ p ∈ rest, ¬a <+: p.2) →
    Nested ((.enter, a) :: inner ++ (.leave, a) :: rest)

theorem Nested.append {l l' : List Stop} (h : Nested l) (h' : Nested l')
    (hapart : ∀ p ∈ l, ∀ q ∈ l', ¬p.2 <+: q.2) : Nested (l ++ l') := by
  induction h with
  | nil => exact h'
  | @node a inner rest hinner hbelow hrest hbehind _ ih =>
    rw [List.append_assoc, List.cons_append]
    refine .node hinner hbelow (ih fun p hp q hq => hapart p (by simp [hp]) q hq) fun p hp => ?_
    obtain hp | hp := List.mem_append.1 hp
    · exact hbehind p hp
    · exact hapart (.leave, a) (by simp) p hp

theorem Nested.map_below {l : List Stop} (h : Nested l) (a : Address) :
    Nested (l.map (Stop.below a)) := by
  induction h with
  | nil => exact .nil
  | @node b inner rest _ hbelow _ hbehind ihinner ihrest =>
    simp only [List.map_append, List.map_cons]
    refine .node ihinner (List.forall_mem_map.2 fun p hp => ?_) ihrest
      (List.forall_mem_map.2 fun p hp => ?_)
    · simpa [Stop.below] using hbelow p hp
    · simpa [Stop.below] using hbehind p hp

mutual

/-- **Nesting.** What is entered last is left first. -/
theorem nested_stops : (n : Node) → Nested n.stops
  | ⟨kind, value, children⟩ => by
    refine .node (nested_stopsAll children 0) (fun p hp => ?_) .nil (by simp)
    obtain ⟨j, a, c, hb, -⟩ := (mem_stopsAll children).1 hp
    simp [hb]

theorem nested_stopsAll : (ns : List Node) → ∀ i : Nat, Nested (stopsAll i ns)
  | [], _ => .nil
  | n :: ns, i => by
    refine ((nested_stops n).map_below [i]).append (nested_stopsAll ns (i + 1)) fun p hp q hq => ?_
    obtain ⟨p, -, rfl⟩ := List.mem_map.1 hp
    obtain ⟨j, a, c, hb, -⟩ := (mem_stopsAll ns).1 hq
    rw [hb, Stop.below, List.singleton_append, List.cons_prefix_cons]
    omega

end

theorem Nested.nodup {l : List Stop} (h : Nested l) : l.Nodup := by
  induction h with
  | nil => exact .nil
  | @node a inner rest _ hbelow _ hbehind ihinner ihrest =>
    have hin : ∀ w, (w, a) ∉ inner := fun w hw => (hbelow _ hw).2 rfl
    have hout : ∀ w, (w, a) ∉ rest := fun w hw => hbehind _ hw List.prefix_rfl
    have hapart : ∀ p ∈ inner, p ∉ rest := fun p hp hp' => hbehind p hp' (hbelow p hp).1
    rw [List.cons_append, List.nodup_cons, List.nodup_append, List.nodup_cons]
    refine ⟨by simp [hin, hout], ihinner, ⟨hout _, ihrest⟩, fun p hp q hq => ?_⟩
    rintro rfl
    obtain rfl | hq := List.mem_cons.1 hq
    · exact hin _ hp
    · exact hapart p hp hq

theorem nodup_stops (n : Node) : n.stops.Nodup := (nested_stops n).nodup

/-! ## Calls of a visitor -/

section

variable {ω : Type} {visit : Moment → Node → ExceptT Error (StateM ω) Unit}

/-- A visitor that is called with these nodes, one after another, ends like this. Only the last call
may fail. -/
inductive Calls (visit : Moment → Node → ExceptT Error (StateM ω) Unit) :
    List (Moment × Node) → ω → Except Error Unit → ω → Prop
  | done (s : ω) : Calls visit [] s (.ok ()) s
  | failed {w : Moment} {n : Node} {e : Error} {s s' : ω} :
    (visit w n).run.run s = (.error e, s') → Calls visit [(w, n)] s (.error e) s'
  | next {w : Moment} {n : Node} {calls : List (Moment × Node)} {result : Except Error Unit}
    {s s₁ s' : ω} : (visit w n).run.run s = (.ok (), s₁) → Calls visit calls s₁ result s' →
      Calls visit ((w, n) :: calls) s result s'

theorem run_cons (w : Moment) (n : Node) (visits : List (Moment × Node)) (s : ω) :
    (((w, n) :: visits).forM fun (w, n) => visit w n).run.run s =
      match (visit w n).run.run s with
      | (.ok (), s₁) => (visits.forM fun (w, n) => visit w n).run.run s₁
      | (.error e, s₁) => (.error e, s₁) := by
  show (visit w n >>= fun _ => visits.forM fun (w, n) => visit w n).run.run s = _
  rw [ExceptT.run_bind, StateT.run_bind]
  obtain ⟨_ | _, s₁⟩ := (visit w n).run.run s <;> rfl

theorem forM_iff {visits : List (Moment × Node)} {s s' : ω} {result : Except Error Unit} :
    (visits.forM fun (w, n) => visit w n).run.run s = (result, s') ↔
      ∃ calls, Calls visit calls s result s' ∧ calls <+: visits ∧
        (result = .ok () → calls = visits) := by
  constructor
  · intro h
    induction visits generalizing s with
    | nil =>
      obtain ⟨rfl, rfl⟩ : Except.ok () = result ∧ s = s' := Prod.mk.inj h
      exact ⟨[], .done s, List.prefix_rfl, fun _ => rfl⟩
    | cons p visits ih =>
      obtain ⟨w, n⟩ := p
      rw [run_cons] at h
      generalize hcall : (visit w n).run.run s = answer at h
      obtain ⟨e | _, s₁⟩ := answer
      · obtain ⟨rfl, rfl⟩ := Prod.mk.inj h
        exact ⟨[(w, n)], .failed hcall, by simp, by simp⟩
      · obtain ⟨calls, hcalls, hpre, hwhole⟩ := ih h
        exact ⟨(w, n) :: calls, .next hcall hcalls, List.cons_prefix_cons.2 ⟨rfl, hpre⟩,
          fun h => congrArg _ (hwhole h)⟩
  · rintro ⟨calls, hcalls, hpre, hwhole⟩
    induction hcalls generalizing visits with
    | done s =>
      rw [← hwhole rfl]
      rfl
    | failed hcall =>
      obtain ⟨visits, rfl⟩ := hpre
      rw [List.singleton_append, run_cons, hcall]
    | next hcall _ ih =>
      obtain ⟨visits, rfl⟩ := hpre
      rw [List.cons_append, run_cons, hcall]
      exact ih (List.prefix_append _ _) fun h => (List.cons.inj (hwhole h)).2

/-- **Walks.** A walk calls its visitor along the tour, stops right behind the first call that
fails, and ends with the error of that call. -/
theorem walk_iff {n : Node} {s s' : ω} {result : Except Error Unit} :
    (n.walk visit).run.run s = (result, s') ↔
      ∃ calls, Calls visit calls s result s' ∧ calls <+: n.tour ∧
        (result = .ok () → calls = n.tour) := by
  rw [walk_eq_tour]
  exact forM_iff

end

end Stencil.Node
