import Stencil.Proofs.Execution.Alike
import Stencil.Proofs.Value.Dict

/-!
# Layers of data

Data is made of leaves, which are dictionaries, values and registries of functions, by putting one
object in front of another. A member is looked for from left to right, and belongs to the first leaf
that has one of its name. That leaf alone answers a call, also if it answers with an error.

`Leaf.member?` says which member a leaf has under a name, with no mention of how it is looked up: of
a registry it is the function registered last.

Results:
* `Leaf.has_members`, `Leaf.invoke_members`: a leaf has the members that it says, and calls them.
* `Layers.has_members`, `Layers.invoke_members`: layers have the members of their leaves, and leave
  a call to the leftmost leaf that has the member.
* `invoke_leftmost`: the same, with the functions that are run, and for fields and identifiers.
-/

namespace Stencil

variable {σ : Type}

/-! ## Leaves -/

/-- A member of a leaf. -/
inductive Member (σ : Type) where
  /-- An entry of a dictionary. -/
  | entry (v : Value)
  | function (f : Function σ)

/-- Calls a member. Errors of entries tell their name. -/
def Member.call (name : String) : Member σ → Option Value → σ → Outcome × σ
  | entry v, none, s => (.value v, s)
  | entry _, some arg, s =>
    (.failure (.make .arity "dictionary member takes no arguments"
      [("member", name), ("argument", arg.kind)]), s)
  | function f, arg, s => f.call arg s

/-- Data that is not put together from other data. -/
inductive Leaf (σ : Type) where
  | dict (entries : Dict Value)
  | value (v : Value)
  /-- Functions under their names, in the order in which they were registered. -/
  | methods (registered : List (String × Function σ))

/-- A registry made by these registrations. -/
def Methods.ofList (registered : List (String × Function σ)) : Methods σ :=
  registered.foldl (fun m (name, f) => m.register name f) .empty

theorem Methods.functions_ofList (registered : List (String × Function σ)) :
    (ofList registered).functions = Dict.ofList registered :=
  (List.foldl_hom Methods.functions fun _ _ => rfl).symm

/-- Of two functions under one name, the one registered later counts. -/
theorem Methods.get?_ofList (registered : List (String × Function σ)) (name : String) :
    (ofList registered).functions.get? name = registered.reverse.lookup name := by
  rw [functions_ofList, Dict.get?_ofList]

namespace Leaf

def members : Leaf σ → Members σ
  | dict entries => .ofDict entries
  | value v => .ofValue v
  | methods registered => (Methods.ofList registered).members

/-- The member of a name. -/
def member? : Leaf σ → String → Option (Member σ)
  | dict entries, name => (entries.lookup name).map .entry
  | value (.dict entries), name => (entries.lookup name).map .entry
  | value _, _ => none
  | methods registered, name => (registered.reverse.lookup name).map .function

/-- The error of a name that is not there. -/
def refusal : Leaf σ → String → Error
  | dict _, name => Members.notFound name
  | value (.dict _), name => Members.notFound name
  | value v, name =>
    .make .notFound "value has no members" [("member", name), ("value", v.kind)]
  | methods _, name => Members.notFound name

theorem kind_refusal (l : Leaf σ) (name : String) : (l.refusal name).kind = .notFound := by
  cases l with
  | dict entries => rfl
  | value v => cases v <;> rfl
  | methods registered => rfl

/-- What comes of a call, by the member that there is. -/
def answer (l : Leaf σ) (name : String) (arg : Option Value) (s : σ) : Outcome × σ :=
  match l.member? name with
  | some m => m.call name arg s
  | none => (.failure (l.refusal name), s)

theorem has_ofDict (entries : Dict Value) (name : String) :
    (Members.ofDict entries : Members σ).has name = (entries.lookup name).isSome := rfl

theorem invoke_ofDict (entries : Dict Value) (name : String) (arg : Option Value) (s : σ) :
    (Members.ofDict entries).invoke name arg s =
      match (entries.lookup name).map Member.entry with
      | some m => m.call name arg s
      | none => (.failure (Members.notFound name), s) := by
  simp only [Members.ofDict, Dict.get?]
  cases entries.lookup name with
  | none => rfl
  | some v => cases arg <;> rfl

theorem has_members (l : Leaf σ) (name : String) :
    l.members.has name = (l.member? name).isSome := by
  cases l with
  | dict entries => simp only [members, has_ofDict, member?, Option.isSome_map]
  | value v =>
    cases v with
    | dict entries =>
      simp only [members, Members.ofValue, has_ofDict, member?, Option.isSome_map]
    | _ => rfl
  | methods registered =>
    show ((Methods.ofList registered).functions.get? name).isSome = _
    simp only [Methods.get?_ofList, member?, Option.isSome_map]

theorem invoke_members (l : Leaf σ) (name : String) (arg : Option Value) (s : σ) :
    l.members.invoke name arg s = l.answer name arg s := by
  cases l with
  | dict entries => exact invoke_ofDict entries name arg s
  | value v =>
    cases v with
    | dict entries => exact invoke_ofDict entries name arg s
    | _ => rfl
  | methods registered =>
    simp only [members, Methods.members, answer, member?, Methods.get?_ofList]
    cases registered.reverse.lookup name <;> rfl

end Leaf

/-! ## Layers -/

/-- Data, as it is put together. -/
inductive Layers (σ : Type) where
  | leaf (l : Leaf σ)
  | pair (first second : Layers σ)
  /-- A reference to data, or a box around it. -/
  | wrapped (inner : Layers σ)

namespace Layers

def members : Layers σ → Members σ
  | leaf l => l.members
  | pair first second => first.members.orElse second.members
  | wrapped inner => inner.members

/-- The leaves, from left to right. -/
def leaves : Layers σ → List (Leaf σ)
  | leaf l => [l]
  | pair first second => first.leaves ++ second.leaves
  | wrapped inner => inner.leaves

/-- The member of the leftmost leaf that has one of the name. -/
def member? (x : Layers σ) (name : String) : Option (Member σ) :=
  x.leaves.findSome? (·.member? name)

/-- The error of a name that is not there: the last leaf is asked, and refuses. -/
def refusal : Layers σ → String → Error
  | leaf l => l.refusal
  | pair _ second => second.refusal
  | wrapped inner => inner.refusal

theorem kind_refusal (x : Layers σ) (name : String) : (x.refusal name).kind = .notFound := by
  induction x with
  | leaf l => exact l.kind_refusal name
  | pair _ _ _ ih => exact ih
  | wrapped _ ih => exact ih

theorem member?_pair (first second : Layers σ) (name : String) :
    (pair first second).member? name = (first.member? name).or (second.member? name) := by
  simp only [member?, leaves, List.findSome?_append]

theorem has_members (x : Layers σ) (name : String) :
    x.members.has name = (x.member? name).isSome := by
  induction x with
  | leaf l => simp [members, Leaf.has_members, member?, leaves]
  | pair first second ihFirst ihSecond =>
    simp only [members, Members.orElse, ihFirst, ihSecond, member?_pair, Option.isSome_or]
  | wrapped inner ih => exact ih

/-- **Calls.** A call goes to the leftmost leaf that has the member. Without one it is refused. -/
theorem invoke_members (x : Layers σ) (name : String) (arg : Option Value) (s : σ) :
    x.members.invoke name arg s =
      match x.member? name with
      | some m => m.call name arg s
      | none => (.failure (x.refusal name), s) := by
  induction x with
  | leaf l =>
    have hmember : (leaf l).member? name = l.member? name := by simp [member?, leaves]
    rw [hmember]
    exact l.invoke_members name arg s
  | pair first second ihFirst ihSecond =>
    simp only [members, Members.orElse, has_members, member?_pair]
    cases hfirst : first.member? name with
    | some m =>
      rw [hfirst] at ihFirst
      simpa using ihFirst
    | none => simpa [refusal] using ihSecond
  | wrapped inner ih => exact ih

end Layers

/-! ## Which functions run -/

/-- A function that notes down a number when it runs. -/
def Function.numbered (i : Nat) : Function σ → Function (σ × List Nat)
  | nullary run => nullary fun s => ((run s.1).1, (run s.1).2, s.2 ++ [i])
  | unary t run => unary t fun a s => ((run a s.1).1, (run a s.1).2, s.2 ++ [i])

def Member.numbered (i : Nat) : Member σ → Member (σ × List Nat)
  | entry v => entry v
  | function f => function (f.numbered i)

def Leaf.numbered (i : Nat) : Leaf σ → Leaf (σ × List Nat)
  | dict entries => dict entries
  | value v => value v
  | methods registered => methods (registered.map fun (name, f) => (name, f.numbered i))

/-- The layers with their leaves numbered from `i` on: each function notes down, when it runs, the
number of its leaf. -/
def Layers.numberedFrom (i : Nat) : Layers σ → Layers (σ × List Nat)
  | leaf l => leaf (l.numbered i)
  | pair first second =>
    pair (first.numberedFrom i) (second.numberedFrom (i + first.leaves.length))
  | wrapped inner => wrapped (inner.numberedFrom i)

/-- A member with a number does what it does without, and notes down nothing but its number. -/
theorem Member.call_numbered (m : Member σ) (i : Nat) (name : String) (arg : Option Value) (s : σ)
    (log : List Nat) :
    ∃ ran, (m.numbered i).call name arg (s, log) =
        ((m.call name arg s).1, (m.call name arg s).2, log ++ ran) ∧ ∀ j ∈ ran, j = i := by
  have hquiet : ∀ outcome : Outcome, ∃ ran : List Nat,
      (outcome, s, log) = (outcome, s, log ++ ran) ∧ ∀ j ∈ ran, j = i :=
    fun outcome => ⟨[], by simp⟩
  cases m with
  | entry v =>
    cases arg with
    | none => exact hquiet _
    | some arg => exact hquiet _
  | function f =>
    cases f with
    | nullary run =>
      cases arg with
      | none => exact ⟨[i], rfl, by simp⟩
      | some arg => exact hquiet _
    | unary t run =>
      simp only [Member.numbered, Function.numbered, Member.call, Function.call]
      cases t.convert arg with
      | ok a => exact ⟨[i], rfl, by simp⟩
      | error e => exact hquiet _

theorem Leaf.member?_numbered (l : Leaf σ) (i : Nat) (name : String) :
    (l.numbered i).member? name = (l.member? name).map (·.numbered i) := by
  have hentry : ∀ entries : Dict Value, (entries.lookup name).map Member.entry =
      ((entries.lookup name).map Member.entry).map (Member.numbered (σ := σ) i) := by
    intro entries
    rw [Option.map_map]
    rfl
  cases l with
  | dict entries => exact hentry entries
  | value v =>
    cases v with
    | dict entries => exact hentry entries
    | _ => rfl
  | methods registered =>
    simp only [numbered, member?, ← List.map_reverse]
    induction registered.reverse with
    | nil => rfl
    | cons entry rest ih =>
      obtain ⟨key, f⟩ := entry
      rw [List.map_cons, List.lookup_cons, List.lookup_cons]
      cases name == key
      · exact ih
      · rfl

theorem Leaf.refusal_numbered (l : Leaf σ) (i : Nat) (name : String) :
    (l.numbered i).refusal name = l.refusal name := by
  cases l with
  | dict entries => rfl
  | value v => cases v <;> rfl
  | methods registered => rfl

namespace Layers

theorem leaves_numberedFrom (x : Layers σ) (i : Nat) :
    (x.numberedFrom i).leaves = (x.leaves.zipIdx i).map fun (l, j) => l.numbered j := by
  induction x generalizing i with
  | leaf l => rfl
  | pair first second ihFirst ihSecond =>
    simp only [numberedFrom, leaves, ihFirst, ihSecond, List.zipIdx_append, List.map_append]
  | wrapped inner ih => exact ih i

theorem refusal_numberedFrom (x : Layers σ) (i : Nat) (name : String) :
    (x.numberedFrom i).refusal name = x.refusal name := by
  induction x generalizing i with
  | leaf l => exact l.refusal_numbered i name
  | pair first second _ ih => exact ih _
  | wrapped inner ih => exact ih i

/-- The leftmost leaf that has a member is the one whose functions have its number. -/
theorem member?_numberedFrom {x : Layers σ} {name : String} {before after : List (Leaf σ)}
    {l : Leaf σ} {m : Member σ} (hleaves : x.leaves = before ++ l :: after)
    (hbefore : ∀ k ∈ before, k.member? name = none) (hm : l.member? name = some m) (i : Nat) :
    (x.numberedFrom i).member? name = some (m.numbered (i + before.length)) := by
  have hnone : (((before.zipIdx i).map fun (k, j) => k.numbered j).findSome? fun k =>
      k.member? name) = none := by
    simp only [List.findSome?_eq_none_iff, List.mem_map]
    rintro _ ⟨⟨k, j⟩, hk, rfl⟩
    rw [Leaf.member?_numbered, hbefore k (List.fst_mem_of_mem_zipIdx hk), Option.map_none]
  rw [member?, leaves_numberedFrom, hleaves, List.zipIdx_append, List.map_append,
    List.findSome?_append, hnone, Option.none_or, List.zipIdx_cons, List.map_cons,
    List.findSome?_cons, Leaf.member?_numbered, hm, Option.map_some]

/-- Without a member of the name, no numbered leaf has one either. -/
theorem member?_numberedFrom_eq_none {x : Layers σ} {name : String}
    (hnone : ∀ l ∈ x.leaves, l.member? name = none) (i : Nat) :
    (x.numberedFrom i).member? name = none := by
  rw [member?, leaves_numberedFrom, List.findSome?_eq_none_iff]
  simp only [List.mem_map]
  rintro _ ⟨⟨l, j⟩, hl, rfl⟩
  rw [Leaf.member?_numbered, hnone l (List.fst_mem_of_mem_zipIdx hl), Option.map_none]

theorem member?_of_leftmost {x : Layers σ} {name : String} {before after : List (Leaf σ)}
    {l : Leaf σ} {m : Member σ} (hleaves : x.leaves = before ++ l :: after)
    (hbefore : ∀ k ∈ before, k.member? name = none) (hm : l.member? name = some m) :
    x.member? name = some m := by
  rw [member?, hleaves, List.findSome?_append, List.findSome?_eq_none_iff.2 hbefore,
    Option.none_or, List.findSome?_cons, hm]

end Layers

/-! ## Terms -/

/-- The helpers, as a leaf. -/
def Layers.helpers : Layers σ := leaf (.methods [(htmlHelper, Methods.html)])

theorem Execution.fieldName_dot (name : String) : fieldName ("." ++ name) = name := by
  simp [fieldName]

/-- **Leftmost owner.** Layers have a member if a leaf has it. The leftmost leaf that has it
answers, whatever comes of that, and functions of other leaves do not run; if there is none, the
error is that there is no such member, and nothing runs. An identifier is looked up in the helpers
in front of the data, and a field in the data alone. -/
theorem invoke_leftmost (x : Layers σ) (name : String) :
    (x.members.has name = true ↔ ∃ l ∈ x.leaves, (l.member? name).isSome = true) ∧
    (∀ before l after m, x.leaves = before ++ l :: after →
      (∀ k ∈ before, k.member? name = none) → l.member? name = some m → ∀ arg s,
        x.members.invoke name arg s = m.call name arg s ∧
        l.members.invoke name arg s = m.call name arg s ∧
        ∀ log, ∃ ran, (x.numberedFrom 0).members.invoke name arg (s, log) =
          ((m.call name arg s).1, (m.call name arg s).2, log ++ ran) ∧
          ∀ i ∈ ran, i = before.length) ∧
    ((∀ l ∈ x.leaves, l.member? name = none) → ∀ arg s, ∃ e, e.kind = .notFound ∧
      x.members.invoke name arg s = (.failure e, s) ∧
      ∀ log, (x.numberedFrom 0).members.invoke name arg (s, log) = (.failure e, s, log)) ∧
    (∀ children, Execution.invoke x.members ⟨.identifier, name, children⟩ =
      (Layers.helpers.pair x).members.invoke name) ∧
    (∀ children, Execution.invoke x.members ⟨.field, "." ++ name, children⟩ =
      x.members.invoke name) ∧
    (Methods.helpers.contains (σ := σ) name = true → ∀ children,
      Execution.invoke x.members ⟨.identifier, name, children⟩ =
        Methods.helpers.members.invoke name) := by
  refine ⟨?has, ?owned, ?missing, fun _ => rfl, ?field, ?helper⟩
  case has => rw [x.has_members, Layers.member?, List.findSome?_isSome_iff]
  case owned =>
    intro before l after m hleaves hbefore hm arg s
    have hx := Layers.member?_of_leftmost hleaves hbefore hm
    refine ⟨by rw [x.invoke_members, hx], by rw [l.invoke_members, Leaf.answer, hm], fun log => ?_⟩
    rw [Layers.invoke_members, Layers.member?_numberedFrom hleaves hbefore hm, Nat.zero_add]
    exact m.call_numbered before.length name arg s log
  case missing =>
    intro hnone arg s
    have hx : x.member? name = none := List.findSome?_eq_none_iff.2 hnone
    refine ⟨x.refusal name, x.kind_refusal name, by rw [x.invoke_members, hx], fun log => ?_⟩
    rw [Layers.invoke_members, Layers.member?_numberedFrom_eq_none hnone,
      Layers.refusal_numberedFrom]
  case field =>
    intro children
    show x.members.invoke (Execution.fieldName ("." ++ name)) = _
    rw [Execution.fieldName_dot]
  case helper =>
    intro hcontains children
    have hhas : (Methods.helpers.members (σ := σ)).has name = true := hcontains
    funext arg
    show (if (Methods.helpers.members (σ := σ)).has name then _ else _) = _
    rw [if_pos hhas]

/-- A page that looks for something that is not there, in front of a global of its name. -/
def Layers.lost : Layers Unit :=
  pair (wrapped (leaf (.value .null)))
    (pair (leaf (.methods [("Page", .nullary fun s => (.value .null, s)),
        ("Page", .nullary fun s => (.failure (Members.notFound "Missing"), s))]))
      (leaf (.dict [("Page", .string "global")])))

/-- The error of the page is not hidden by the global, and the page that was replaced does not run.
-/
theorem invoke_leftmost_lost :
    Layers.lost.members.has "Page" = true ∧
    Layers.lost.members.invoke "Page" none () = (.failure (Members.notFound "Missing"), ()) ∧
    (∃ ran, (Layers.lost.numberedFrom 0).members.invoke "Page" none ((), []) =
      (.failure (Members.notFound "Missing"), (), ran) ∧ ∀ i ∈ ran, i = 1) ∧
    (∃ e, e.kind = .notFound ∧ Layers.lost.members.invoke "Body" none () = (.failure e, ())) ∧
    Execution.invoke Layers.lost.members ⟨.identifier, "html", []⟩ =
      Methods.helpers.members.invoke "html" := by
  have page := (invoke_leftmost Layers.lost "Page").2.1 [.value .null] _ _ _ rfl
    (fun k hk => by rw [List.mem_singleton.1 hk]; rfl) rfl none ()
  have body := (invoke_leftmost Layers.lost "Body").2.2.1 (by decide) none ()
  refine ⟨(invoke_leftmost Layers.lost "Page").1.2 ⟨_, .tail _ (.head _), rfl⟩, page.1,
    page.2.2 [], ?body, (invoke_leftmost Layers.lost "html").2.2.2.2.2 (by decide) []⟩
  obtain ⟨e, hkind, hinvoke, -⟩ := body
  exact ⟨e, hkind, hinvoke⟩

end Stencil
