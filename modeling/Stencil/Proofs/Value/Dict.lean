import Mathlib.Data.List.Induction
import Mathlib.Data.String.Basic
import Stencil.Value.Dict

/-!
# Keys of dictionaries

A dictionary that is made of a list has its keys in order, and finds the last value of each.

Results:
* `sorted_ofList`, `get?_ofList`: dictionaries made of lists.
* `mem_keys`: the keys are what is found.
* `keys_insert`: to put a new value in the place of an old one leaves the keys as they are.
* `ofList_of_sorted`: a dictionary is made of its own entries.
-/

namespace Stencil.Dict

variable {α : Type} {d : Dict α} {key : String}

theorem get?_nil (key : String) : get? ([] : Dict α) key = none := rfl

theorem mem_keys : key ∈ d.keys ↔ (d.get? key).isSome = true := by
  induction d with
  | nil => simp [keys, get?_nil]
  | cons entry rest ih =>
    obtain ⟨k, v⟩ := entry
    rw [get?_cons, keys, List.map_cons, List.mem_cons, ← keys, ih]
    by_cases h : key = k <;> simp [h]

theorem mem_keys_insert {value : α} {k : String} :
    k ∈ (d.insert key value).keys ↔ k = key ∨ k ∈ d.keys := by
  rw [mem_keys, mem_keys, get?_insert]
  by_cases h : k = key <;> simp [h]

theorem sorted_cons {k : String} {v : α} {rest : Dict α} :
    Sorted ((k, v) :: rest) ↔ (∀ k' ∈ rest.keys, k < k') ∧ Sorted rest := by
  simp only [Sorted, List.pairwise_cons, keys, List.forall_mem_map]

theorem sorted_insert (h : d.Sorted) (key : String) (value : α) : (d.insert key value).Sorted := by
  induction d with
  | nil => simp [insert, Sorted]
  | cons entry rest ih =>
    obtain ⟨k, v⟩ := entry
    obtain ⟨hk, hrest⟩ := sorted_cons.1 h
    rw [insert]
    split
    · rename_i hlt
      refine sorted_cons.2 ⟨fun k' hk' => ?_, h⟩
      obtain rfl | hk' := List.mem_cons.1 hk'
      · exact hlt
      · exact hlt.trans (hk k' hk')
    · split
      · rename_i heq
        subst heq
        exact sorted_cons.2 ⟨hk, hrest⟩
      · rename_i hlt hne
        refine sorted_cons.2 ⟨fun k' hk' => ?_, ih hrest⟩
        obtain rfl | hk' := mem_keys_insert.1 hk'
        · exact lt_of_le_of_ne (not_lt.1 hlt) (Ne.symm hne)
        · exact hk k' hk'

theorem ofList_append_singleton (entries : List (String × α)) (key : String) (value : α) :
    ofList (entries ++ [(key, value)]) = (ofList entries).insert key value := by
  simp [ofList]

theorem sorted_ofList (entries : List (String × α)) : (ofList entries).Sorted := by
  induction entries using List.reverseRecOn with
  | nil => exact List.Pairwise.nil
  | append_singleton init last ih =>
    rw [ofList_append_singleton]
    exact sorted_insert ih _ _

/-- Of two entries with one key, the later one counts. -/
theorem get?_ofList (entries : List (String × α)) (key : String) :
    (ofList entries).get? key = entries.reverse.lookup key := by
  induction entries using List.reverseRecOn with
  | nil => rfl
  | append_singleton init last ih =>
    obtain ⟨k, v⟩ := last
    rw [ofList_append_singleton, get?_insert, ih, List.reverse_append, List.reverse_singleton,
      List.singleton_append, List.lookup_cons]
    by_cases h : key = k
    · simp [h]
    · simp [h, beq_eq_false_iff_ne.2 h]

theorem mem_of_get?_ofList {entries : List (String × α)} {value : α}
    (h : (ofList entries).get? key = some value) : (key, value) ∈ entries := by
  rw [get?_ofList] at h
  obtain ⟨init, rest, hsplit, -⟩ := List.lookup_eq_some_iff.1 h
  rw [← List.mem_reverse, hsplit]
  simp

theorem mem_keys_ofList {entries : List (String × α)} :
    key ∈ (ofList entries).keys ↔ ∃ entry ∈ entries, entry.1 = key := by
  rw [mem_keys, get?_ofList, List.lookup_isSome_iff]
  simp only [List.mem_reverse, beq_iff_eq, eq_comm (a := key)]

theorem keys_insert (h : d.Sorted) (hkey : key ∈ d.keys) (value : α) :
    (d.insert key value).keys = d.keys := by
  induction d with
  | nil => cases hkey
  | cons entry rest ih =>
    obtain ⟨k, v⟩ := entry
    obtain ⟨hk, hrest⟩ := sorted_cons.1 h
    rw [insert]
    obtain rfl | hkey := List.mem_cons.1 hkey
    · rw [if_neg (lt_irrefl _), if_pos rfl]
      rfl
    · have hlt := hk key hkey
      rw [if_neg hlt.not_gt, if_neg hlt.ne']
      exact congrArg (k :: ·) (ih hrest hkey)

/-- A key behind all others goes to the end. -/
theorem insert_of_forall_lt (h : ∀ k ∈ d.keys, k < key) (value : α) :
    d.insert key value = d ++ [(key, value)] := by
  induction d with
  | nil => rfl
  | cons entry rest ih =>
    obtain ⟨k, v⟩ := entry
    obtain ⟨hk, hrest⟩ := List.forall_mem_cons.1 h
    rw [insert, if_neg (lt_asymm hk), if_neg hk.ne', ih hrest]
    rfl

theorem ofList_of_sorted (h : d.Sorted) : ofList d = d := by
  induction d using List.reverseRecOn with
  | nil => rfl
  | append_singleton init last ih =>
    obtain ⟨hinit, -, hlast⟩ := List.pairwise_append.1 h
    rw [ofList_append_singleton, ih hinit]
    refine insert_of_forall_lt (fun k hk => ?_) _
    obtain ⟨entry, hentry, rfl⟩ := List.mem_map.1 hk
    exact hlast entry hentry last (List.mem_singleton_self _)

end Stencil.Dict
