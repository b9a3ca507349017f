import Mathlib.Data.List.Induction
import ViewTree.Template.Interpolation
/-!
# Numbers in digits

A numeral may have zeros in front and letters in either case. Digits are a numeral of exactly the
number that they are read as (`writesNumber_iff`).
-/

namespace ViewTree.Template

/-- The digits write the number: with any zeros in front, and letters in either case. -/
def WritesNumber (base n : Nat) (ds : List Char) : Prop :=
  ∃ zeros, ds.map Char.toLower = List.replicate zeros '0' ++ Nat.toDigits base n

/-- What a digit counts. -/
def digitValue (c : Char) : Nat :=
  if c.isDigit then c.toNat - 48 else c.toLower.toNat - 87

/-- A digit of the base. -/
def IsDigitOf (base : Nat) (c : Char) : Prop :=
  isHexDigit c ∧ digitValue c < base

/-! ## Single digits -/

/-- What holds of the first characters one by one holds of any of them. -/
theorem forall_ascii {P : Char → Prop} (h : ∀ n < 128, P (Char.ofNat n)) {c : Char}
    (hc : c.toNat < 128) : P c :=
  Char.ofNat_toNat c ▸ h c.toNat hc

theorem toLower_of_le {c : Char} (h : 128 ≤ c.toNat) : c.toLower = c := by
  refine dif_neg fun hupper => ?_
  have hle : c.toNat ≤ 90 := UInt32.le_iff_toNat_le.1 hupper.2
  omega

theorem isHexDigit_of_le {c : Char} (h : 128 ≤ c.toNat) : isHexDigit c = false := by
  have hdigit : c.isDigit = false := by
    rw [Bool.eq_false_iff]
    intro hdigit
    have hle : c.toNat ≤ 57 := (Char.isDigit_iff_toNat.1 hdigit).2
    omega
  have hletter : ¬ c ≤ 'f' := by
    intro hle
    have hle : c.toNat ≤ 102 := UInt32.le_iff_toNat_le.1 hle
    omega
  rw [isHexDigit, hdigit, toLower_of_le h, decide_eq_false hletter, Bool.and_false, Bool.or_false]

theorem isHexDigit_toLower (c : Char) : isHexDigit c.toLower = isHexDigit c := by
  by_cases hc : c.toNat < 128
  · exact forall_ascii (P := fun c => isHexDigit c.toLower = isHexDigit c) (by decide) hc
  · rw [toLower_of_le (Nat.le_of_not_lt hc)]

theorem digitValue_toLower (c : Char) : digitValue c.toLower = digitValue c := by
  by_cases hc : c.toNat < 128
  · exact forall_ascii (P := fun c => digitValue c.toLower = digitValue c) (by decide) hc
  · rw [toLower_of_le (Nat.le_of_not_lt hc)]

/-- In lower case, a digit is that of its value. -/
theorem toLower_of_isHexDigit {c : Char} (h : isHexDigit c) :
    c.toLower = Nat.digitChar (digitValue c) := by
  by_cases hc : c.toNat < 128
  · exact forall_ascii (P := fun c => isHexDigit c → c.toLower = Nat.digitChar (digitValue c))
      (by decide) hc h
  · rw [isHexDigit_of_le (Nat.le_of_not_lt hc)] at h
    cases h

theorem isDigitOf_sixteen {c : Char} : IsDigitOf 16 c ↔ isHexDigit c := by
  refine ⟨And.left, fun h => ⟨h, ?_⟩⟩
  by_cases hc : c.toNat < 128
  · exact forall_ascii (P := fun c => isHexDigit c → digitValue c < 16) (by decide) hc h
  · rw [isHexDigit_of_le (Nat.le_of_not_lt hc)] at h
    cases h

theorem isDigitOf_ten {c : Char} : IsDigitOf 10 c ↔ c.isDigit := by
  by_cases hc : c.toNat < 128
  · exact forall_ascii (P := fun c => isHexDigit c ∧ digitValue c < 10 ↔ c.isDigit) (by decide) hc
  · have hhex := isHexDigit_of_le (Nat.le_of_not_lt hc)
    have hdigit : c.isDigit = false := (Bool.or_eq_false_iff.1 hhex).1
    simp [IsDigitOf, hhex, hdigit]

section

variable {base : Nat}

theorem isDigitOf_toLower {c : Char} : IsDigitOf base c.toLower ↔ IsDigitOf base c := by
  rw [IsDigitOf, IsDigitOf, isHexDigit_toLower, digitValue_toLower]

theorem isDigitOf_digitChar (hbase : base ≤ 16) {d : Nat} (hd : d < base) :
    IsDigitOf base (Nat.digitChar d) ∧ digitValue (Nat.digitChar d) = d := by
  have hall : ∀ d < 16, isHexDigit (Nat.digitChar d) ∧ digitValue (Nat.digitChar d) = d := by
    decide
  obtain ⟨hdigit, hvalue⟩ := hall d (by omega)
  exact ⟨⟨hdigit, hvalue.symm ▸ hd⟩, hvalue⟩

/-! ## Numerals -/

theorem digitsIn_concat (base : Nat) (ds : List Char) (d : Char) :
    digitsIn base (ds ++ [d]) = digitsIn base ds * base + digitValue d :=
  List.foldl_append

theorem digitsIn_map_toLower (base : Nat) (ds : List Char) :
    digitsIn base (ds.map Char.toLower) = digitsIn base ds := by
  induction ds using List.reverseRecOn with
  | nil => rfl
  | append_singleton ds d ih =>
    rw [List.map_append, List.map_singleton, digitsIn_concat, digitsIn_concat, ih,
      digitValue_toLower]

/-- Zeros in front do not count. -/
theorem digitsIn_zeros (base zeros : Nat) (ds : List Char) :
    digitsIn base (List.replicate zeros '0' ++ ds) = digitsIn base ds := by
  have hzero : 0 * base + digitValue '0' = 0 := by
    rw [Nat.zero_mul]
    rfl
  induction zeros with
  | zero => rfl
  | succ zeros ih =>
    rw [List.replicate_succ, List.cons_append, ← ih, digitsIn, List.foldl_cons]
    exact congrArg (fun n => List.foldl _ n _) hzero

/-- A number is what its digits are read as. -/
theorem digitsIn_toDigits (hone : 1 < base) (hbase : base ≤ 16) (n : Nat) :
    (∀ d ∈ Nat.toDigits base n, IsDigitOf base d) ∧ digitsIn base (Nat.toDigits base n) = n := by
  induction n using Nat.strongRecOn with
  | ind n ih =>
    rw [Nat.toDigits_eq_if hone]
    split
    · rename_i hlt
      obtain ⟨hdigit, hvalue⟩ := isDigitOf_digitChar hbase hlt
      refine ⟨List.forall_mem_singleton.2 hdigit, ?_⟩
      rw [← List.nil_append [n.digitChar], digitsIn_concat, hvalue]
      exact (congrArg (· + n) (Nat.zero_mul base)).trans (Nat.zero_add n)
    · rename_i hle
      obtain ⟨hdigits, hfront⟩ := ih (n / base) (Nat.div_lt_self (by omega) hone)
      obtain ⟨hdigit, hvalue⟩ := isDigitOf_digitChar hbase (Nat.mod_lt n (by omega))
      refine ⟨List.forall_mem_append.2 ⟨hdigits, List.forall_mem_singleton.2 hdigit⟩, ?_⟩
      rw [digitsIn_concat, hfront, hvalue, Nat.mul_comm, Nat.div_add_mod]

/-- Digits are zeros and the digits of a number, in some case. -/
theorem exists_zeros (hone : 1 < base) {ds : List Char} (hds : ∀ d ∈ ds, IsDigitOf base d) :
    ∃ zeros, ds.map Char.toLower = List.replicate zeros '0' ++
      if digitsIn base ds = 0 then [] else Nat.toDigits base (digitsIn base ds) := by
  induction ds using List.reverseRecOn with
  | nil => exact ⟨0, rfl⟩
  | append_singleton ds d ih =>
    obtain ⟨hds, hd⟩ := List.forall_mem_append.1 hds
    obtain ⟨zeros, hzeros⟩ := ih hds
    obtain ⟨hhex, hlt⟩ := List.forall_mem_singleton.1 hd
    rw [List.map_append, List.map_singleton, hzeros, toLower_of_isHexDigit hhex, digitsIn_concat]
    by_cases hfront : digitsIn base ds = 0
    · by_cases hlast : digitValue d = 0
      · refine ⟨zeros + 1, ?_⟩
        simp [hfront, hlast, List.replicate_succ']
      · refine ⟨zeros, ?_⟩
        simp [hfront, hlast, Nat.toDigits_of_lt_base hlt]
    · refine ⟨zeros, ?_⟩
      have hpos : 0 < digitsIn base ds := Nat.pos_of_ne_zero hfront
      have hmul : 0 < digitsIn base ds * base := Nat.mul_pos hpos (by omega)
      have hdigits := Nat.toDigits_append_toDigits hone hpos hlt
      rw [Nat.toDigits_of_lt_base hlt, Nat.mul_comm] at hdigits
      rw [if_neg hfront, if_neg (by omega), ← hdigits, List.append_assoc]

/-- Digits write exactly the number that they are read as. -/
theorem writesNumber_iff (hone : 1 < base) (hbase : base ≤ 16) {n : Nat} {ds : List Char} :
    WritesNumber base n ds ↔ ds ≠ [] ∧ (∀ d ∈ ds, IsDigitOf base d) ∧ digitsIn base ds = n := by
  constructor
  · rintro ⟨zeros, hzeros⟩
    obtain ⟨hdigits, hvalue⟩ := digitsIn_toDigits hone hbase n
    refine ⟨fun hnil => ?_, fun d hd => ?_, ?_⟩
    · rw [hnil] at hzeros
      exact Nat.toDigits_ne_nil (List.append_eq_nil_iff.1 hzeros.symm).2
    · have hlower : d.toLower ∈ ds.map Char.toLower := List.mem_map_of_mem hd
      rw [hzeros, List.mem_append] at hlower
      rw [← isDigitOf_toLower]
      rcases hlower with hzero | hdigit
      · rw [List.eq_of_mem_replicate hzero]
        exact (isDigitOf_digitChar hbase (by omega : 0 < base)).1
      · exact hdigits _ hdigit
    · rw [← digitsIn_map_toLower, hzeros, digitsIn_zeros, hvalue]
  · rintro ⟨hne, hds, rfl⟩
    obtain ⟨zeros, hzeros⟩ := exists_zeros hone hds
    by_cases hzero : digitsIn base ds = 0
    · -- The last zero is the number itself.
      rw [if_pos hzero, List.append_nil] at hzeros
      cases zeros with
      | zero => exact absurd (List.map_eq_nil_iff.1 hzeros) hne
      | succ zeros =>
        refine ⟨zeros, ?_⟩
        rw [hzeros, hzero, Nat.toDigits_zero, List.replicate_succ']
    · rw [if_neg hzero] at hzeros
      exact ⟨zeros, hzeros⟩

end

end ViewTree.Template
