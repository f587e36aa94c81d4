import Mathlib
import Stencil.Member.Basic

/-!
# Conversion of arguments

An argument that is absent and one that does not fit are two kinds of mistake, and a parameter tells
them apart however its type is nested. Absence concerns the outermost layer of the type alone. A
value that is present goes inwards through all of them, unless it is null and meets an `option`, so
that the innermost type decides whether it fits.

An integer is not wrapped and not cut off on its way: it is converted to itself, or not at all.

Results:
* `convert_none`: what an absent argument is, by the outermost layer.
* `convert_some_of_fits`, `convert_some_of_not_fits`: what a value is, by the innermost type.
* `convert_integer_iff`: the values that are an integer of a type.
* `convert_exact`: all of it together.
-/

namespace Stencil

/-! ## Integers -/

/-- The value is a number that is kept as an integer, signed or not, and is worth `n`. -/
def Value.IsInteger (v : Value) (n : Int) : Prop :=
  (∃ u : UInt64, v = .number (.unsigned u) ∧ u.toNat = n) ∨
    ∃ i : Int64, v = .number (.signed i) ∧ i.toInt = n

theorem Value.isInteger_number {x : Number} {n : Int} :
    (Value.number x).IsInteger n ↔ x.toInt? = some n := by
  unfold IsInteger
  cases x <;> simp [Number.toInt?]

theorem Value.number_of_isInteger {v : Value} {n : Int} (h : v.IsInteger n) :
    ∃ x, v = .number x := by
  obtain ⟨u, hv, -⟩ | ⟨i, hv, -⟩ := h
  · exact ⟨_, hv⟩
  · exact ⟨_, hv⟩

namespace IntegerType

theorem low_eq (t : IntegerType) :
    t.low = if t.isSigned then -2 ^ (t.bits - 1) else 0 := by
  cases t <;> decide

theorem high_eq (t : IntegerType) :
    t.high = if t.isSigned then 2 ^ (t.bits - 1) - 1 else 2 ^ t.bits - 1 := by
  cases t <;> decide

theorem ofInt?_eq_some_iff {t : IntegerType} {n : Int} {a : t.Carrier} :
    t.ofInt? n = some a ↔ n = a.val := by
  unfold ofInt?
  constructor
  · intro h
    split at h
    · exact congrArg Subtype.val (Option.some.inj h)
    · contradiction
  · intro h
    subst h
    exact dif_pos a.property

end IntegerType

theorem BaseType.ofValue?_integer_iff {t : IntegerType} {v : Value} {a : t.Carrier} :
    (integer t).ofValue? v = some a ↔ v.IsInteger a.val := by
  cases v with
  | number x =>
    rw [Value.isInteger_number]
    show x.toInt?.bind t.ofInt? = some a ↔ _
    cases x.toInt? with
    | none => simp
    | some n => rw [Option.bind_some, IntegerType.ofInt?_eq_some_iff, Option.some.injEq]
  | _ =>
    constructor
    · intro h
      contradiction
    · intro h
      obtain ⟨x, hx⟩ := Value.number_of_isInteger h
      contradiction

/-- An integer that has become a value is that integer. -/
theorem IntegerType.isInteger_toNumber {t : IntegerType} {n : t.Carrier} {m : Int} :
    (Value.number (t.toNumber n)).IsInteger m ↔ n.val = m := by
  have hback : (Value.number (t.toNumber n)).IsInteger n.val :=
    BaseType.ofValue?_integer_iff.1 (BaseType.ofValue?_toValue (.integer t) n)
  rw [Value.isInteger_number] at hback ⊢
  rw [hback, Option.some.injEq]

namespace ParamType

/-! ## Absence -/

/-- Only a type without layers misses an argument. -/
theorem convert_none {t : ParamType} {e : Error} (h : t.convert none = .error e) :
    ∃ b, t = base b ∧ e = missing b := by
  cases t with
  | base b => exact ⟨b, rfl, (Except.error.inj h).symm⟩
  | option t => contradiction
  | rest t => contradiction

/-! ## Values -/

/-- The type inside all layers. -/
def innermost : ParamType → BaseType
  | base t => t
  | option t => t.innermost
  | rest t => t.innermost

/-- There is an `option` among the layers. -/
def hasOption : ParamType → Bool
  | base _ => false
  | option _ => true
  | rest t => t.hasOption

/-- The parameter takes the value. -/
def Fits (t : ParamType) (v : Value) : Prop :=
  (v = .null ∧ t.hasOption = true) ∨ (t.innermost.ofValue? v).isSome = true

theorem convert_option_some {t : ParamType} {v : Value} (h : v ≠ .null) :
    (option t).convert (some v) = (t.convert (some v)).map some := by
  cases v with
  | null => contradiction
  | _ => rfl

theorem convert_some_of_fits {t : ParamType} {v : Value} (h : t.Fits v) :
    ∃ a, t.convert (some v) = .ok a := by
  induction t with
  | base b =>
    obtain ⟨-, hoption⟩ | hsome := h
    · contradiction
    · obtain ⟨a, ha⟩ := Option.isSome_iff_exists.1 hsome
      refine ⟨a, ?_⟩
      unfold convert
      rw [show b.ofValue? v = some a from ha]
  | option t ih =>
    by_cases hnull : v = .null
    · subst hnull
      exact ⟨none, rfl⟩
    · have ht : t.Fits v := .inr (h.resolve_left fun hv => hnull hv.1)
      obtain ⟨a, ha⟩ := ih ht
      exact ⟨some a, by rw [convert_option_some hnull, ha]; rfl⟩
  | rest t ih =>
    obtain ⟨a, ha⟩ := ih h
    exact ⟨[a], by rw [convert, ha]; rfl⟩

/-- Behind all layers, it is the innermost type that the value does not have. -/
theorem convert_some_of_not_fits {t : ParamType} {v : Value} (h : ¬t.Fits v) :
    t.convert (some v) = .error (wrongType t.innermost v) := by
  induction t with
  | base b =>
    have hnone : b.ofValue? v = none := Option.not_isSome_iff_eq_none.1 fun hsome => h (.inr hsome)
    unfold convert
    rw [hnone]
    rfl
  | option t ih =>
    have hnull : v ≠ .null := fun hv => h (.inl ⟨hv, rfl⟩)
    have ht : ¬t.Fits v := fun hfits => h (.inr (hfits.resolve_left fun hv => hnull hv.1))
    rw [convert_option_some hnull, ih ht]
    rfl
  | rest t ih =>
    rw [convert, ih h]
    rfl

theorem convert_some_error {t : ParamType} {v : Value} {e : Error}
    (h : t.convert (some v) = .error e) : e = wrongType t.innermost v := by
  by_cases hfits : t.Fits v
  · obtain ⟨a, ha⟩ := convert_some_of_fits hfits
    rw [ha] at h
    contradiction
  · rw [convert_some_of_not_fits hfits] at h
    exact (Except.error.inj h).symm

/-- Null does not get past the outer of two options, and nothing else becomes none. -/
theorem convert_option_option (t : ParamType) (arg : Option Value) :
    (option (option t)).convert arg ≠ .ok (some none) := by
  intro h
  cases arg with
  | none => cases Except.ok.inj h
  | some v =>
    by_cases hnull : v = .null
    · subst hnull
      cases Except.ok.inj h
    · rw [convert_option_some hnull, convert_option_some hnull] at h
      cases hv : t.convert (some v) with
      | error e =>
        rw [hv] at h
        cases h
      | ok a =>
        rw [hv] at h
        cases Option.some.inj (Except.ok.inj h)

theorem convert_base_iff {b : BaseType} {v : Value} {a : b.Carrier} :
    (base b).convert (some v) = .ok a ↔ b.ofValue? v = some a := by
  unfold convert
  cases b.ofValue? v with
  | none => simp
  | some c =>
    constructor
    · intro h
      exact congrArg some (Except.ok.inj h)
    · intro h
      exact congrArg Except.ok (Option.some.inj h)

theorem convert_integer_iff {t : IntegerType} {v : Value} {n : t.Carrier} :
    (base (.integer t)).convert (some v) = .ok n ↔ v.IsInteger n.val :=
  convert_base_iff.trans BaseType.ofValue?_integer_iff

theorem convert_integer_error {t : IntegerType} {v : Value}
    (h : ∀ n : t.Carrier, ¬v.IsInteger n.val) :
    (base (.integer t)).convert (some v) = .error (wrongType (.integer t) v) := by
  apply convert_some_of_not_fits
  intro hfits
  obtain ⟨n, hn⟩ := convert_some_of_fits hfits
  exact h n (convert_integer_iff.1 hn)

/-- **Conversion.** An argument that is absent is an error of arity where the type has no layers,
and none or nothing at all where it has, and never an error of type. A value that is present is
taken or refused by the innermost type, and then with an error of type that names the kind of the
value, except that null is taken by an `option` on its way. Of two options the outer one takes it.
The value converts to an integer of a type if it is a number that is kept as just that integer, so
that an integer which has become a value goes to every type that has it, unchanged. A function
without a parameter refuses any argument, names its kind and does not run. -/
theorem convert_exact (σ : Type) :
    (∀ b, (base b).convert none = .error (missing b) ∧ (missing b).kind = .arity) ∧
    (∀ t, (option t).convert none = .ok none ∧ (rest t).convert none = .ok []) ∧
    (∀ t e, convert t none = .error e → e.kind = .arity) ∧
    (∀ t v, (∃ a, convert t (some v) = .ok a) ↔ t.Fits v) ∧
    (∀ t v e, convert t (some v) = .error e →
      e = wrongType t.innermost v ∧ e.kind = .type ∧ (some "found", v.kind) ∈ e.fault.context) ∧
    (∀ t, (option t).convert (some .null) = .ok none ∧
      (rest (option t)).convert (some .null) = .ok [none]) ∧
    (∀ t arg, (option (option t)).convert arg ≠ .ok (some none)) ∧
    (∀ t v n, (base (.integer t)).convert (some v) = .ok n ↔ v.IsInteger n.val) ∧
    (∀ t v, (∀ n : t.Carrier, ¬v.IsInteger n.val) →
      (base (.integer t)).convert (some v) = .error (wrongType (.integer t) v)) ∧
    (∀ t : IntegerType, t.low = (if t.isSigned then -2 ^ (t.bits - 1) else 0) ∧
      t.high = if t.isSigned then 2 ^ (t.bits - 1) - 1 else 2 ^ t.bits - 1) ∧
    (∀ (t u : IntegerType) (m : t.Carrier) (n : u.Carrier),
      (base (.integer u)).convert (some (.number (t.toNumber m))) = .ok n ↔ m.val = n.val) ∧
    ∀ (run : σ → Outcome × σ) arg s, ∃ e, (Function.nullary run).call (some arg) s =
      (.failure e, s) ∧ e.kind = .arity ∧ (some "argument", arg.kind) ∈ e.fault.context := by
  refine ⟨fun b => ⟨rfl, rfl⟩, fun t => ⟨rfl, rfl⟩, ?absent, ?taken, ?refused, fun t => ⟨rfl, rfl⟩,
    convert_option_option, fun t v n => convert_integer_iff, fun t v => convert_integer_error,
    fun t => ⟨t.low_eq, t.high_eq⟩, ?again, fun run arg s => ⟨_, rfl, rfl, .head _⟩⟩
  case absent =>
    intro t e h
    obtain ⟨b, -, rfl⟩ := convert_none h
    rfl
  case taken =>
    intro t v
    constructor
    · intro ⟨a, ha⟩
      by_cases hfits : t.Fits v
      · exact hfits
      · rw [convert_some_of_not_fits hfits] at ha
        contradiction
    · exact convert_some_of_fits
  case refused =>
    intro t v e h
    obtain rfl := convert_some_error h
    exact ⟨rfl, rfl, .tail _ (.head _)⟩
  case again =>
    intro t u m n
    rw [convert_integer_iff, IntegerType.isInteger_toNumber]

/-- The least signed integer, as a value. -/
def leastSigned : Value := .number (IntegerType.i64.toNumber ⟨-2 ^ 63, by decide⟩)

/-- The least signed integer is none of an unsigned type, behind any layers. -/
theorem convert_exact_least :
    (∀ n : IntegerType.u64.Carrier, ¬leastSigned.IsInteger n.val) ∧
    (base (.integer .u64)).convert (some leastSigned) =
      .error (wrongType (.integer .u64) leastSigned) ∧
    (∃ e, (rest (option (base (.integer .u64)))).convert (some leastSigned) = .error e ∧
      e.kind = .type ∧ (some "found", "number") ∈ e.fault.context) ∧
    (missing (.integer .u64)).kind = .arity := by
  have hnone : ∀ n : IntegerType.u64.Carrier, ¬leastSigned.IsInteger n.val := by
    intro n h
    have hn := n.property.1
    rw [← IntegerType.isInteger_toNumber.1 h] at hn
    exact absurd hn (by decide)
  have hrest : (rest (option (base (.integer .u64)))).convert (some leastSigned) =
      .error (wrongType (.integer .u64) leastSigned) := rfl
  exact ⟨hnone, (convert_exact Unit).2.2.2.2.2.2.2.2.1 _ _ hnone,
    ⟨_, hrest, ((convert_exact Unit).2.2.2.2.1 _ _ _ hrest).2⟩,
    (convert_exact Unit).2.2.1 (base (.integer .u64)) _ rfl⟩

end ParamType

end Stencil
