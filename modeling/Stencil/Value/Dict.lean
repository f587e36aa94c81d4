/-!
# Dictionaries

A dictionary is a list of entries in increasing order of their keys, without two entries of one key.
`insert` keeps both, and puts a new value in the place of an old one.

Results:
* `get?_insert`: what is found after an insertion.
-/

namespace Stencil

abbrev Dict (α : Type) := List (String × α)

namespace Dict

variable {α : Type}

def get? (d : Dict α) (key : String) : Option α := d.lookup key

def contains (d : Dict α) (key : String) : Bool := (d.get? key).isSome

def keys (d : Dict α) : List String := d.map Prod.fst

def insert (d : Dict α) (key : String) (value : α) : Dict α :=
  match d with
  | [] => [(key, value)]
  | (k, v) :: rest =>
    if key < k then (key, value) :: (k, v) :: rest
    else if key = k then (key, value) :: rest
    else (k, v) :: Dict.insert rest key value

/-- The entries of a list. Of two with one key, the later one counts. -/
def ofList (entries : List (String × α)) : Dict α :=
  entries.foldl (fun d (key, value) => d.insert key value) []

/-- The keys increase. -/
def Sorted (d : Dict α) : Prop := d.Pairwise fun a b => a.1 < b.1

theorem get?_cons (k other : String) (v : α) (rest : Dict α) :
    get? ((k, v) :: rest) other = if other = k then some v else get? rest other := by
  rw [get?, get?, List.lookup_cons]
  by_cases h : other = k
  · simp [h]
  · simp [beq_eq_false_iff_ne.2 h, h]

theorem get?_insert (d : Dict α) (key other : String) (value : α) :
    (d.insert key value).get? other = if other = key then some value else d.get? other := by
  induction d with
  | nil => rw [insert, get?_cons]
  | cons entry rest ih =>
    obtain ⟨k, v⟩ := entry
    rw [insert]
    split
    · rw [get?_cons]
    · split
      · rename_i hk
        subst hk
        by_cases h : other = key <;> simp [get?_cons, h]
      · rename_i hne
        rw [get?_cons, get?_cons, ih]
        by_cases h : other = k
        · subst h
          simp [Ne.symm hne]
        · simp [h]

end Dict

end Stencil
