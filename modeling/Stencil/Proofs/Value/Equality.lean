import Stencil.Proofs.Number.Rounding
import Stencil.Value.Basic

/-!
# Equality of values

Values are compared both ways alike. Two values that equal a third are equal to each other but for
one case: a float in the third stands for two integers in the first two, which are different. That
takes an integer beyond `Binary64.exactLimit`, where integers are rounded to be compared with a
float, and are not if they are compared with each other.

Results:
* `Number.nearest_toFloat`: an integer is compared with a float as the float nearest to it.
* `Number.toFloat_equal`: equal numbers are equal as floats.
* `Number.equal_trans_iff`: what two numbers are that equal a third.
* `equal_lawful`: the same for values, arrays and dictionaries part by part.
* `equal_merged`: the least integers that are merged.
-/

namespace Stencil

namespace Number

open Binary64 (ofInt exactLimit)

variable {a b c : Number} {m n : Int}

theorem toFloat_of_toInt? (h : a.toInt? = some m) : a.toFloat = ofInt m := by
  cases a with
  | unsigned k =>
    obtain rfl := Option.some.inj h
    rw [toFloat, Binary64.ofNat, ofInt, decide_eq_false (by omega), Int.natAbs_natCast]
  | signed k =>
    obtain rfl := Option.some.inj h
    rfl
  | float x => cases h

/-- Both kinds of integers have 64 bits. -/
theorem natAbs_lt_of_toInt? (h : a.toInt? = some m) : m.natAbs < 2 ^ 64 := by
  cases a with
  | unsigned k =>
    obtain rfl := Option.some.inj h
    exact k.toNat_lt
  | signed k =>
    obtain rfl := Option.some.inj h
    have hlow := k.le_toInt
    have hhigh := k.toInt_lt
    omega
  | float x => cases h

theorem nearest_toFloat (h : a.toInt? = some m) : Binary64.Nearest m a.toFloat := by
  rw [toFloat_of_toInt? h]
  exact Binary64.nearest_ofInt (natAbs_lt_of_toInt? h)

theorem equal_integers (ha : a.toInt? = some m) (hb : b.toInt? = some n) :
    a.equal b = decide (m = n) := by
  rw [equal, ha, hb]

theorem equal_floats (h : a.toInt? = none ∨ b.toInt? = none) :
    a.equal b = a.toFloat.equal b.toFloat := by
  rw [equal]
  split
  · simp_all
  · rfl

theorem ofInt_equal_self (m : Int) : (ofInt m).equal (ofInt m) = true := by
  have hbits := Binary64.magnitudeBits_ofMagnitude (Binary64.nearestBits_lt m.natAbs 1) (m < 0)
  have hle : Binary64.nearestBits m.natAbs 1 ≤ Binary64.infinityBits := Nat.min_le_right _ _
  have hnan : (ofInt m).isNaN = false := by
    rw [Binary64.isNaN, ofInt, Binary64.ofRatio, hbits]
    exact decide_eq_false (Nat.not_lt.2 hle)
  exact Binary64.equal_iff.2 ⟨hnan, hnan, .inl rfl⟩

/-- Equal numbers are equal as floats, also if they are compared as integers. -/
theorem toFloat_equal (h : a.equal b = true) : a.toFloat.equal b.toFloat = true := by
  cases ha : a.toInt? with
  | none => rwa [equal_floats (.inl ha)] at h
  | some m =>
    cases hb : b.toInt? with
    | none => rwa [equal_floats (.inr hb)] at h
    | some n =>
      rw [equal_integers ha hb, decide_eq_true_eq] at h
      subst h
      rw [toFloat_of_toInt? ha, toFloat_of_toInt? hb]
      exact ofInt_equal_self m

theorem beyond_of_ne (hne : m ≠ n) (h : (ofInt m).equal (ofInt n) = true) :
    exactLimit < m.natAbs ∨ exactLimit < n.natAbs := by
  rcases Nat.lt_or_ge exactLimit m.natAbs with hm | hm
  · exact .inl hm
  rcases Nat.lt_or_ge exactLimit n.natAbs with hn | hn
  · exact .inr hn
  exact absurd (Binary64.eq_of_equal_ofInt hm hn h) hne

/-- A float `b` that two different integers are rounded to, of which one is beyond the limit. -/
structure Merged (m n : Int) (b : Binary64) : Prop where
  ne : m ≠ n
  left : (ofInt m).equal b = true
  right : b.equal (ofInt n) = true
  beyond : exactLimit < m.natAbs ∨ exactLimit < n.natAbs

/-- `a` and `c` are different integers, and `b` is a float that both are rounded to. -/
inductive Merges : Number → Number → Number → Prop where
  | mk {a c : Number} {m n : Int} {b : Binary64} : a.toInt? = some m → c.toInt? = some n →
    Merged m n b → Merges a (float b) c

/-- **Numbers.** Two numbers that equal a third are equal unless it merges them. -/
theorem equal_trans_iff (hab : a.equal b = true) (hbc : b.equal c = true) :
    a.equal c = true ↔ ¬Merges a b c := by
  have hfloats : a.toFloat.equal c.toFloat = true :=
    Binary64.equal_trans (toFloat_equal hab) (toFloat_equal hbc)
  cases ha : a.toInt? with
  | none =>
    rw [equal_floats (.inl ha)]
    exact iff_of_true hfloats fun ⟨ha', _, _⟩ => by simp [ha] at ha'
  | some m =>
    cases hc : c.toInt? with
    | none =>
      rw [equal_floats (.inr hc)]
      exact iff_of_true hfloats fun ⟨_, hc', _⟩ => by simp [hc] at hc'
    | some n =>
      rw [equal_integers ha hc, decide_eq_true_eq]
      cases hb : b.toInt? with
      | some k =>
        rw [equal_integers ha hb, decide_eq_true_eq] at hab
        rw [equal_integers hb hc, decide_eq_true_eq] at hbc
        exact iff_of_true (hab.trans hbc) fun ⟨_, _, _⟩ => by simp [toInt?] at hb
      | none =>
        rw [equal_floats (.inr hb), toFloat_of_toInt? ha] at hab
        rw [equal_floats (.inl hb), toFloat_of_toInt? hc] at hbc
        rw [toFloat_of_toInt? ha, toFloat_of_toInt? hc] at hfloats
        obtain ⟨x, rfl⟩ : ∃ x, b = float x := by
          cases b with
          | float x => exact ⟨x, rfl⟩
          | unsigned k | signed k => cases hb
        constructor
        · rintro rfl ⟨ha', hc', hmerged⟩
          rw [ha] at ha'
          rw [hc] at hc'
          exact hmerged.ne (Option.some.inj (ha'.symm.trans hc'))
        · intro hmerges
          refine Decidable.byContradiction fun hne => hmerges ⟨ha, hc, hne, hab, hbc, ?_⟩
          exact beyond_of_ne hne hfloats

end Number

namespace Value

mutual

/-- At one place of all three, `b` holds a float that merges integers of `a` and `c`. -/
inductive Merges : Value → Value → Value → Prop where
  | number {a b c : Number} : Number.Merges a b c → Merges (.number a) (.number b) (.number c)
  | array {as bs cs : List Value} : MergesItem as bs cs → Merges (.array as) (.array bs) (.array cs)
  | dict {es fs gs : List (String × Value)} : MergesEntry es fs gs →
    Merges (.dict es) (.dict fs) (.dict gs)

inductive MergesItem : List Value → List Value → List Value → Prop where
  | here {a b c : Value} {as bs cs : List Value} : Merges a b c →
    MergesItem (a :: as) (b :: bs) (c :: cs)
  | behind {a b c : Value} {as bs cs : List Value} : MergesItem as bs cs →
    MergesItem (a :: as) (b :: bs) (c :: cs)

inductive MergesEntry :
    List (String × Value) → List (String × Value) → List (String × Value) → Prop where
  | here {key : String} {a b c : Value} {es fs gs : List (String × Value)} : Merges a b c →
    MergesEntry ((key, a) :: es) ((key, b) :: fs) ((key, c) :: gs)
  | behind {key : String} {a b c : Value} {es fs gs : List (String × Value)} :
    MergesEntry es fs gs → MergesEntry ((key, a) :: es) ((key, b) :: fs) ((key, c) :: gs)

end

theorem mergesItem_cons {a b c : Value} {as bs cs : List Value} :
    MergesItem (a :: as) (b :: bs) (c :: cs) ↔ Merges a b c ∨ MergesItem as bs cs :=
  ⟨fun | .here h => .inl h | .behind h => .inr h, fun h => h.elim .here .behind⟩

theorem mergesEntry_cons {key : String} {a b c : Value} {es fs gs : List (String × Value)} :
    MergesEntry ((key, a) :: es) ((key, b) :: fs) ((key, c) :: gs) ↔
      Merges a b c ∨ MergesEntry es fs gs :=
  ⟨fun | .here h => .inl h | .behind h => .inr h, fun h => h.elim .here .behind⟩

mutual

theorem equal_trans_iff : (a b c : Value) → a.equal b = true → b.equal c = true →
    (a.equal c = true ↔ ¬Merges a b c)
  | null, null, null, _, _ => iff_of_true rfl nofun
  | bool a, bool b, bool c, hab, hbc => by
    simp only [equal, beq_iff_eq] at *
    exact iff_of_true (hab.trans hbc) nofun
  | string a, string b, string c, hab, hbc => by
    simp only [equal, beq_iff_eq] at *
    exact iff_of_true (hab.trans hbc) nofun
  | number a, number b, number c, hab, hbc => by
    have hmerges : Merges (number a) (number b) (number c) ↔ Number.Merges a b c :=
      ⟨fun | .number h => h, .number⟩
    rw [hmerges]
    exact Number.equal_trans_iff hab hbc
  | array as, array bs, array cs, hab, hbc => by
    have hmerges : Merges (array as) (array bs) (array cs) ↔ MergesItem as bs cs :=
      ⟨fun | .array h => h, .array⟩
    rw [hmerges]
    exact equalAll_trans_iff as bs cs hab hbc
  | dict es, dict fs, dict gs, hab, hbc => by
    have hmerges : Merges (dict es) (dict fs) (dict gs) ↔ MergesEntry es fs gs :=
      ⟨fun | .dict h => h, .dict⟩
    rw [hmerges]
    exact equalEntries_trans_iff es fs gs hab hbc

theorem equalAll_trans_iff : (as bs cs : List Value) → equalAll as bs = true →
    equalAll bs cs = true → (equalAll as cs = true ↔ ¬MergesItem as bs cs)
  | [], [], [], _, _ => iff_of_true rfl nofun
  | a :: as, b :: bs, c :: cs, hab, hbc => by
    simp only [equalAll, Bool.and_eq_true] at hab hbc ⊢
    rw [equal_trans_iff a b c hab.1 hbc.1, equalAll_trans_iff as bs cs hab.2 hbc.2,
      mergesItem_cons, not_or]

theorem equalEntries_trans_iff : (es fs gs : List (String × Value)) → equalEntries es fs = true →
    equalEntries fs gs = true → (equalEntries es gs = true ↔ ¬MergesEntry es fs gs)
  | [], [], [], _, _ => iff_of_true rfl nofun
  | (j, a) :: es, (k, b) :: fs, (l, c) :: gs, hab, hbc => by
    simp only [equalEntries, Bool.and_eq_true, beq_iff_eq] at hab hbc
    obtain ⟨⟨rfl, hab⟩, hrest⟩ := hab
    obtain ⟨⟨rfl, hbc⟩, hrest'⟩ := hbc
    simp only [equalEntries, beq_self_eq_true, Bool.true_and, Bool.and_eq_true]
    rw [equal_trans_iff a b c hab hbc, equalEntries_trans_iff es fs gs hrest hrest',
      mergesEntry_cons, not_or]

end

/-- **Lawful but for merged integers.** An integer is compared with a float as the float nearest to
it. Values are compared both ways alike. Two values that equal a third are equal if and only if
there is no place where they hold different integers and the third a float that both are rounded to,
which takes an integer beyond the limit. -/
theorem equal_lawful :
    (∀ (x : Number) (n : Int), x.toInt? = some n → Binary64.Nearest n x.toFloat) ∧
      ∀ a b c : Value, a.equal b = b.equal a ∧
        (a.equal b = true → b.equal c = true → (a.equal c = true ↔ ¬Merges a b c)) :=
  ⟨fun _ _ => Number.nearest_toFloat, fun a b c => ⟨equal_comm a b, equal_trans_iff a b c⟩⟩

/-- A signed, a floating and an unsigned number of one value, the greatest that is exact, in a
dictionary. -/
theorem equal_lawful_exact :
    let a := dict [("k", array [null, number (.signed 9007199254740992)])]
    let b := dict [("k", array [null, number (.float ⟨0x4340000000000000⟩)])]
    let c := dict [("k", array [null, number (.unsigned 9007199254740992)])]
    Binary64.Nearest 9007199254740992 ⟨0x4340000000000000⟩ ∧
      a.equal b = true ∧ b.equal c = true ∧ a.equal c = true ∧ ¬Merges a b c := by
  intro a b c
  have hnearest := equal_lawful.1 (.signed 9007199254740992) _ rfl
  have hfloat : Number.toFloat (.signed 9007199254740992) = ⟨0x4340000000000000⟩ := by
    decide +kernel
  have hab : a.equal b = true := by decide +kernel
  have hbc : b.equal c = true := by decide +kernel
  have hac : a.equal c = true := by decide +kernel
  exact ⟨hfloat ▸ hnearest, hab, hbc, hac, ((equal_lawful.2 a b c).2 hab hbc).1 hac⟩

/-- The integers on both sides of the limit are different, and equal to one float. -/
theorem equal_merged :
    let a := number (.unsigned 9007199254740992)
    let b := number (.float ⟨0x4340000000000000⟩)
    let c := number (.unsigned 9007199254740993)
    a.equal b = true ∧ b.equal c = true ∧ ¬a.equal c = true := by
  decide +kernel

end Value

end Stencil
