import Mathlib
import Stencil.Files.Tree
import Stencil.Format
import Stencil.Proofs.Json.Tokens

/-!
# Values in JSON

Content is written without blanks, and read back from what is written. What is read for an item
depends on the text of the item alone, as long as behind it there is a comma, a closing bracket or
nothing (`Reads`). So arrays and objects are read back from their items, at every depth that is not
beyond the limit of the reader. That much is asked of any library for JSON (`Library.Faithful`), and
a value is then found in what is parsed by trial.

Results:
* `items_intercalate`: arrays and objects are read back if their items are.
* `reads_json`: content is read back as its text tells it.
* `library_faithful`: so the library at hand is one that may be relied upon.
* `read_text_array`: the whole way of a value through its text.
-/

namespace Stencil

/-! ## Reading what has been written -/

namespace Json

open Text (Reading)

variable {α : Type} {item : List Char → Reading α} {close : Char} {text : List Char} {a : α}

/-- The text is read as `a`, in an array or an object and on its own. -/
def Reads (item : List Char → Reading α) (text : List Char) (a : α) : Prop :=
  ∀ rest, Ends rest → item (text ++ rest) = .ok (a, rest)

/-- The text begins with something that is neither a blank nor the closing bracket. -/
def Begins (close : Char) (text : List Char) : Prop :=
  ∃ c cs, text = c :: cs ∧ isBlank c = false ∧ c ≠ close

theorem skipBlanks_cons {c : Char} (h : isBlank c = false) (cs : List Char) :
    skipBlanks (c :: cs) = c :: cs := by
  simp [skipBlanks, h]

theorem skipBlanks_ends {rest : List Char} (h : Ends rest) : skipBlanks rest = rest := by
  cases rest with
  | nil => rfl
  | cons c cs =>
    refine skipBlanks_cons ?_ cs
    rcases h c rfl with rfl | rfl | rfl <;> rfl

/-! ### Arrays and objects -/

theorem itemsEnd_last {n : Nat} (hclose : close = ']' ∨ close = '\x7d') (h : Reads item text a)
    (rest : List Char) :
    itemsEnd item close (n + 1) (text ++ close :: rest) = .ok ([a], rest) := by
  have hends : Ends (close :: rest) := ends_cons (.inr hclose) rest
  rw [itemsEnd, h _ hends]
  simp only [skipBlanks_ends hends]
  rcases hclose with rfl | rfl <;> simp

theorem itemsEnd_comma {n : Nat} (h : Reads item text a) (cs : List Char) :
    itemsEnd item close (n + 1) (text ++ ',' :: cs) =
      (itemsEnd item close n cs).map fun (as, rest) => (a :: as, rest) := by
  have hends : Ends (',' :: cs) := ends_cons (.inl rfl) cs
  rw [itemsEnd, h _ hends]
  simp only [skipBlanks_ends hends]

theorem itemsEnd_intercalate (hclose : close = ']' ∨ close = '\x7d') (rest : List Char)
    {texts : List (List Char)} {as : List α} (h : List.Forall₂ (Reads item) texts as)
    (hne : texts ≠ []) {n : Nat} (hn : texts.length ≤ n) :
    itemsEnd item close n (List.intercalate [','] texts ++ close :: rest) = .ok (as, rest) := by
  induction h generalizing n with
  | nil => contradiction
  | @cons text a texts as hfirst hothers ih =>
    obtain ⟨n, rfl⟩ : ∃ m, n = m + 1 := ⟨n - 1, by simp at hn; omega⟩
    cases hothers with
    | nil =>
      rw [List.intercalate_singleton]
      exact itemsEnd_last hclose hfirst rest
    | @cons text' a' texts as hsecond hothers =>
      have hrest := ih (List.cons_ne_nil _ _) (Nat.le_of_succ_le_succ hn)
      rw [List.intercalate_cons_cons, List.append_assoc, List.append_assoc, List.singleton_append,
        itemsEnd_comma hfirst, hrest]
      rfl

/-- There is a comma between two texts, so that the bound of the reader is high enough. -/
theorem length_le_intercalate : ∀ texts : List (List Char),
    texts.length ≤ (List.intercalate [','] texts).length + 1
  | [] => Nat.zero_le _
  | [text] => by simp
  | text :: text' :: texts => by
    have := length_le_intercalate (text' :: texts)
    rw [List.intercalate_cons_cons, List.length_append, List.length_append, List.length_cons]
    simp only [List.length_singleton]
    omega

theorem exists_intercalate_cons (text : List Char) (texts : List (List Char)) :
    ∃ more, List.intercalate [','] (text :: texts) = text ++ more := by
  cases texts with
  | nil => exact ⟨[], by rw [List.intercalate_singleton, List.append_nil]⟩
  | cons text' texts => exact ⟨_, by rw [List.intercalate_cons_cons, List.append_assoc]⟩

/-- **Arrays and objects** are read back if their items are. -/
theorem items_intercalate (hclose : close = ']' ∨ close = '\x7d') {texts : List (List Char)}
    {as : List α} (h : List.Forall₂ (Reads item) texts as) (hbegins : ∀ t ∈ texts, Begins close t)
    (rest : List Char) :
    items item close (List.intercalate [','] texts ++ close :: rest) = .ok (as, rest) := by
  cases texts with
  | nil =>
    cases h
    rw [List.intercalate_nil, List.nil_append, items,
      skipBlanks_ends (ends_cons (.inr hclose) rest)]
    exact if_pos rfl
  | cons text texts =>
    obtain ⟨c, cs, rfl, hblank, hne⟩ := hbegins text List.mem_cons_self
    obtain ⟨more, hmore⟩ := exists_intercalate_cons (c :: cs) texts
    have hlength := length_le_intercalate ((c :: cs) :: texts)
    have hend := itemsEnd_intercalate hclose rest h (List.cons_ne_nil _ _)
      (n := (List.intercalate [','] ((c :: cs) :: texts) ++ close :: rest).length + 1)
      (by simp only [List.length_append, List.length_cons] at hlength ⊢; omega)
    rw [items, ← hend, hmore]
    simp only [List.cons_append, skipBlanks_cons hblank, if_neg hne]

/-! ### Values -/

section

variable (depth : Nat) (cs : List Char)

theorem value_null : value depth (['n', 'u', 'l', 'l'] ++ cs) = .ok (.unit, cs) := by
  rw [value, List.cons_append, skipBlanks_cons rfl]
  rfl

theorem value_true : value depth (['t', 'r', 'u', 'e'] ++ cs) = .ok (.bool true, cs) := by
  rw [value, List.cons_append, skipBlanks_cons rfl]
  rfl

theorem value_false : value depth (['f', 'a', 'l', 's', 'e'] ++ cs) = .ok (.bool false, cs) := by
  rw [value, List.cons_append, skipBlanks_cons rfl]
  rfl

theorem value_quote :
    value depth ('"' :: cs) = (string cs).map fun (s, rest) => (.string s, rest) := by
  rw [value, skipBlanks_cons rfl]
  rfl

theorem value_bracket : value (depth + 1) ('[' :: cs) =
    (items (value depth) ']' cs).map fun (vs, rest) => (.sequence vs, rest) := by
  rw [value, skipBlanks_cons rfl]
  rfl

theorem value_brace : value (depth + 1) ('\x7b' :: cs) =
    (items (entry (value depth)) '\x7d' cs).map fun (es, rest) => (.map es, rest) := by
  rw [value, skipBlanks_cons rfl]
  rfl

end

/-- The text of an integer begins with a sign or a digit. -/
theorem integerText_eq_cons (n : Int) :
    ∃ c cs, Number.integerText n = c :: cs ∧ (c = '-' ∨ c.isDigit = true) := by
  obtain ⟨c, cs, hcs, hc⟩ := exists_digit_cons n.natAbs
  rw [Number.integerText]
  split
  · exact ⟨_, _, rfl, .inl rfl⟩
  · exact ⟨c, cs, hcs, .inr hc⟩

theorem ne_of_integer {c d : Char} (hc : c = '-' ∨ c.isDigit = true)
    (hd : d ≠ '-' ∧ d.isDigit = false) : c ≠ d := by
  rintro rfl
  exact hc.elim hd.1 (by simp [hd.2])

theorem isBlank_integer {c : Char} (hc : c = '-' ∨ c.isDigit = true) : isBlank c = false := by
  simp [isBlank, ne_of_integer hc (d := ' ') (by decide), ne_of_integer hc (d := '\t') (by decide),
    ne_of_integer hc (d := '\n') (by decide), ne_of_integer hc (d := '\r') (by decide)]

theorem value_integer {c : Char} (hc : c = '-' ∨ c.isDigit = true) (depth : Nat) (cs : List Char) :
    value depth (c :: cs) = number (c :: cs) := by
  rw [value, skipBlanks_cons (isBlank_integer hc)]
  split
  case h_1 heq | h_2 heq | h_3 heq | h_4 heq | h_5 heq | h_6 heq =>
    exact absurd (List.cons.inj heq).1 (ne_of_integer hc (by decide))
  case h_7 => rfl

theorem begins_integerText (n : Int) : Begins ']' (Number.integerText n) := by
  obtain ⟨c, cs, hcs, hc⟩ := integerText_eq_cons n
  exact ⟨c, cs, hcs, isBlank_integer hc, ne_of_integer hc (by decide)⟩

/-- The text of content begins neither with a blank nor with the bracket that ends an array. -/
theorem begins_json {c : Content} (h : c.Integral) : Begins ']' c.json := by
  cases c with
  | unit => exact ⟨'n', _, rfl, rfl, by decide⟩
  | bool b =>
    cases b
    · exact ⟨'f', _, rfl, rfl, by decide⟩
    · exact ⟨'t', _, rfl, rfl, by decide⟩
  | unsigned n | signed n => exact begins_integerText _
  | float x => exact False.elim h
  | string s => exact ⟨'"', _, rfl, rfl, by decide⟩
  | sequence items => exact ⟨'[', _, rfl, rfl, by decide⟩
  | map entries => exact ⟨'\x7b', _, rfl, rfl, by decide⟩

theorem begins_jsonItems {cs : List Content} (h : Content.IntegralAll cs) :
    ∀ t ∈ Content.jsonItems cs, Begins ']' t := by
  induction cs with
  | nil => exact List.forall_mem_nil _
  | cons c cs ih => exact List.forall_mem_cons.2 ⟨begins_json h.1, ih h.2⟩

theorem begins_jsonEntries (es : List (String × Content)) :
    ∀ t ∈ Content.jsonEntries es, Begins '\x7d' t := by
  induction es with
  | nil => exact List.forall_mem_nil _
  | cons entry es ih => exact List.forall_mem_cons.2 ⟨⟨'"', _, rfl, rfl, by decide⟩, ih⟩

theorem reads_integer {n : Int} {c : Content} (depth : Nat)
    (h : ∀ rest, Ends rest → number (Number.integerText n ++ rest) = .ok (c, rest)) :
    Reads (value depth) (Number.integerText n) c := by
  intro rest hrest
  obtain ⟨d, ds, hds, hd⟩ := integerText_eq_cons n
  have hnumber := h rest hrest
  rw [hds, List.cons_append] at hnumber ⊢
  rw [value_integer hd, hnumber]

theorem reads_string (s : String) (depth : Nat) :
    Reads (value depth) (Content.jsonString s) (.string s) := by
  intro rest _
  have hshape : Content.jsonString s ++ rest =
      '"' :: (s.toList.flatMap Content.jsonChar ++ '"' :: rest) := by
    simp [Content.jsonString]
  rw [hshape, value_quote, string_jsonString]
  rfl

theorem reads_sequence {depth : Nat} {texts : List (List Char)} {cs : List Content}
    (h : List.Forall₂ (Reads (value depth)) texts cs) (hbegins : ∀ t ∈ texts, Begins ']' t) :
    Reads (value (depth + 1)) (['['] ++ List.intercalate [','] texts ++ [']']) (.sequence cs) := by
  intro rest _
  have hitems := items_intercalate (.inl rfl) h hbegins rest
  rw [List.append_assoc, List.append_assoc, List.singleton_append, List.singleton_append,
    value_bracket, hitems]
  rfl

theorem reads_map {depth : Nat} {texts : List (List Char)} {es : List (String × Content)}
    (h : List.Forall₂ (Reads (entry (value depth))) texts es)
    (hbegins : ∀ t ∈ texts, Begins '\x7d' t) :
    Reads (value (depth + 1)) (['\x7b'] ++ List.intercalate [','] texts ++ ['\x7d'])
      (.map es) := by
  intro rest _
  have hitems := items_intercalate (.inr rfl) h hbegins rest
  rw [List.append_assoc, List.append_assoc, List.singleton_append, List.singleton_append,
    value_brace, hitems]
  rfl

theorem reads_entry {depth : Nat} {text : List Char} {c : Content} (key : String)
    (h : Reads (value depth) text c) :
    Reads (entry (value depth)) (Content.jsonString key ++ [':'] ++ text) (key, c) := by
  intro rest hrest
  have hkey := string_jsonString key (':' :: (text ++ rest))
  have hshape : Content.jsonString key ++ [':'] ++ text ++ rest =
      '"' :: (key.toList.flatMap Content.jsonChar ++ '"' :: ':' :: (text ++ rest)) := by
    simp [Content.jsonString]
  rw [hshape, entry, skipBlanks_cons rfl]
  simp only [hkey, skipBlanks_cons (show isBlank ':' = false from rfl), h rest hrest]
  rfl

mutual

/-- **Content** is read back as its text tells it, if it is not nested too deep. -/
theorem reads_json : (c : Content) → c.Integral → {depth : Nat} → c.depth ≤ depth →
    Reads (value depth) c.json c.told
  | .unit, _, depth, _ => fun rest _ => value_null depth rest
  | .bool true, _, depth, _ => fun rest _ => value_true depth rest
  | .bool false, _, depth, _ => fun rest _ => value_false depth rest
  | .unsigned k, _, depth, _ => reads_integer depth fun _ hrest => number_unsigned hrest k
  | .signed k, _, depth, _ => reads_integer depth fun _ hrest => number_signed hrest k
  | .string s, _, depth, _ => reads_string s depth
  | .sequence items, h, depth, hdepth => by
    obtain ⟨depth, rfl⟩ : ∃ d, depth = d + 1 := ⟨depth - 1, by rw [Content.depth] at hdepth; omega⟩
    exact reads_sequence (reads_jsonItems items h (Nat.le_of_succ_le_succ hdepth))
      (begins_jsonItems h)
  | .map entries, h, depth, hdepth => by
    obtain ⟨depth, rfl⟩ : ∃ d, depth = d + 1 := ⟨depth - 1, by rw [Content.depth] at hdepth; omega⟩
    exact reads_map (reads_jsonEntries entries h (Nat.le_of_succ_le_succ hdepth))
      (begins_jsonEntries entries)

theorem reads_jsonItems : (cs : List Content) → Content.IntegralAll cs → {depth : Nat} →
    Content.depthAll cs ≤ depth →
      List.Forall₂ (Reads (value depth)) (Content.jsonItems cs) (Content.toldAll cs)
  | [], _, _, _ => .nil
  | c :: cs, h, depth, hdepth => by
    obtain ⟨hcdepth, hcsdepth⟩ := Nat.max_le.1 hdepth
    exact .cons (reads_json c h.1 hcdepth) (reads_jsonItems cs h.2 hcsdepth)

theorem reads_jsonEntries : (es : List (String × Content)) → Content.IntegralEntries es →
    {depth : Nat} → Content.depthEntries es ≤ depth →
      List.Forall₂ (Reads (entry (value depth))) (Content.jsonEntries es) (Content.toldEntries es)
  | [], _, _, _ => .nil
  | (key, c) :: es, h, depth, hdepth => by
    obtain ⟨hcdepth, hesdepth⟩ := Nat.max_le.1 hdepth
    exact .cons (reads_entry key (reads_json c h.1 hcdepth)) (reads_jsonEntries es h.2 hesdepth)

end

/-- A whole text. -/
theorem read_json {c : Content} (h : c.Integral) (hdepth : c.depth ≤ depthLimit) :
    read c.json = .ok c.told := by
  have hread := reads_json c h hdepth [] ends_nil
  rw [List.append_nil] at hread
  rw [read, hread]
  rfl

/-! ### Libraries -/

/-- JSON tells how content is built: content that differs in nothing but the kinds of its integers
is printed alike, and what is printed is parsed as content of the same build. Floats are left out,
which may be rounded, and so is content that is nested deeper than is read. -/
structure Library.Faithful (lib : Library) : Prop where
  print_told : ∀ c, lib.print c.told = lib.print c
  parse_print : ∀ c, c.Integral → c.depth ≤ depthLimit →
    (lib.parse (lib.print c)).map Content.told = .ok c.told

theorem library_faithful : library.Faithful where
  print_told := Content.json_told
  parse_print c h hdepth := by
    have hread : library.parse (library.print c) = .ok c.told := read_json h hdepth
    rw [hread]
    exact congrArg Except.ok c.told_told

end Json

/-! ## Data -/

/-- A text needs no file to be read. -/
theorem Format.read_text {m : Type → Type} [Monad m] [LawfulMonad m] [Files m] {α : Type}
    (f : Format) (decode : Decoder α) (s : String) :
    f.read (m := m) decode (.text s) = pure ((decode f s.toList).within
      (.make .other "failed to deserialize data"
        [("format", f.name), ("source", "<string>")])) := by
  simp only [Format.read, Source.read, Source.contents, Source.label, pure_bind]

section

variable {lib : Json.Library} {v : Value}

/-- What is printed for a value is found to be the value that its content stands for, whatever
kinds the integers are parsed as. -/
theorem Format.valueBy_print (hlib : lib.Faithful) (h : ∀ p ∈ v.parts, p.Exact)
    (hdepth : v.depth ≤ Json.depthLimit) :
    Format.json.valueBy lib (lib.print v.content) = .ok v.canonical := by
  have hparse := hlib.parse_print v.content (Value.integral_content v h)
    (v.depth_content.trans_le hdepth)
  obtain ⟨c, hc, htold⟩ : ∃ c, lib.parse (lib.print v.content) = .ok c ∧
      c.told = v.content.told := by
    cases hresult : lib.parse (lib.print v.content) with
    | error rest => rw [hresult] at hparse; contradiction
    | ok c => rw [hresult] at hparse; exact ⟨c, rfl, Except.ok.inj hparse⟩
  have hvalue : Value.ofContent? c = some v.canonical := by
    rw [← Value.ofContent?_told, htold, Value.ofContent?_told]
    exact Value.ofContent?_content v fun es hes => h _ hes
  rw [Format.valueBy, Format.contentBy, hc]
  simp only [Except.mapError, Except.bind, hvalue]
  rfl

theorem Value.print_canonical (hlib : lib.Faithful) (v : Value) :
    lib.print v.canonical.content = lib.print v.content := by
  rw [← hlib.print_told, v.told_content_canonical, hlib.print_told]

/-- **Round trip.** The text of an array with one value in it is read back as an equal array, of
which the integers are unsigned if they are not negative, and signed if they are, and which has the
same text. JSON is printed and parsed by any library that keeps to what JSON tells. The value holds
no floats, its dictionaries are in order, and with the array around it it is not nested deeper than
is read. -/
theorem read_text_array {m : Type → Type} [Monad m] [LawfulMonad m] [Files m]
    (hlib : lib.Faithful) (v : Value) (hfloats : ∀ x, Value.number (.float x) ∉ v.parts)
    (hdicts : ∀ es, Value.dict es ∈ v.parts → Dict.Sorted es)
    (hdepth : v.depth < Json.depthLimit) :
    ∃ w, Format.json.read (m := m) (Format.valueBy lib)
          (.text ((Value.array [v]).textBy lib.print)) = pure (.ok (.array [w])) ∧
      (Value.array [w]).equal (.array [v]) = true ∧
      (∀ x, Value.number x ∈ w.parts →
        (∃ n, x = .unsigned n) ∨ ∃ n, x = .signed n ∧ n.toInt < 0) ∧
      (Value.array [w]).textBy lib.print = (Value.array [v]).textBy lib.print := by
  have hexact : ∀ p ∈ v.parts, p.Exact := by
    intro p hp
    cases p with
    | number x =>
      cases x with
      | unsigned n | signed n => rfl
      | float x => exact absurd hp (hfloats x)
    | dict es => exact hdicts es hp
    | null | bool _ | string _ | array _ => trivial
  have harray : ∀ p ∈ (Value.array [v]).parts, p.Exact := by
    refine List.forall_mem_cons.2 ⟨trivial, List.forall_mem_append.2 ⟨hexact, ?_⟩⟩
    exact fun p hp => nomatch hp
  have hnested : (Value.array [v]).depth ≤ Json.depthLimit := by
    simp only [Value.depth, Value.depthAll]
    omega
  refine ⟨v.canonical, ?_, Value.canonical_equal _ harray, ?_, ?_⟩
  · have htext : (Value.array [v]).textBy lib.print =
        String.ofList (lib.print (Value.array [v]).content) := rfl
    rw [Format.read_text, htext, String.toList_ofList, Format.valueBy_print hlib harray hnested]
    rfl
  · intro x hx
    obtain ⟨y, hy, rfl⟩ := Value.exists_of_mem_canonical v hx
    obtain ⟨n, hn⟩ := Option.isSome_iff_exists.1 (hexact _ hy)
    exact Number.canonical_of_toInt? hn
  · exact congrArg String.ofList (Value.print_canonical hlib (.array [v]))

end

/-- The greatest and the least integers, and strings of which every character is spelled in another
way. -/
theorem read_text_array_extremes :
    let v := Value.dict [
      ("a\n", .array [.null, .bool true, .number (.signed 9223372036854775807),
        .number (.signed (-9223372036854775808)), .number (.unsigned 18446744073709551615)]),
      ("é\"\x01", .dict [("", .string "\\/\x1f😀")])]
    Json.library.Faithful ∧ (∀ x, Value.number (.float x) ∉ v.parts) ∧
      (∀ es, Value.dict es ∈ v.parts → Dict.Sorted es) ∧ v.depth < Json.depthLimit ∧
      ∃ w, Format.json.read (m := StateM FileTree) Format.value (.text (Value.array [v]).text) =
          pure (.ok (.array [w])) ∧
        (Value.array [w]).equal (.array [v]) = true ∧
        (∀ x, Value.number x ∈ w.parts →
          (∃ n, x = .unsigned n) ∨ ∃ n, x = .signed n ∧ n.toInt < 0) ∧
        (Value.array [w]).text = (Value.array [v]).text := by
  intro v
  have hfloats : ∀ x, Value.number (.float x) ∉ v.parts := by
    intro x hx
    simp [v, Value.parts, Value.partsAll, Value.partsEntries] at hx
  have hdicts : ∀ es, Value.dict es ∈ v.parts → Dict.Sorted es := by
    intro es hes
    simp [v, Value.parts, Value.partsAll, Value.partsEntries] at hes
    have hlt : "a\n" < "é\"\x01" := by decide +kernel
    rcases hes with rfl | rfl
    · exact List.pairwise_pair.2 hlt
    · exact List.pairwise_singleton _ _
  have hdepth : v.depth < Json.depthLimit := by decide
  exact ⟨Json.library_faithful, hfloats, hdicts, hdepth,
    read_text_array Json.library_faithful v hfloats hdicts hdepth⟩

end Stencil
