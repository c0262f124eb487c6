import Mathlib.Tactic.Ring
import HomeAutomation.Number.Shortest

/-! The text of a finite number reads back to it. It is a sign, digits and, behind a point, maybe
more digits; the decimal that these denote rounds to the number, since the shortest one was taken
among those that do and the exact one does. -/

namespace HomeAutomation

theorem roundDiv_mul_right {q den : Nat} (hden : 0 < den) : roundDiv (q * den) den = q := by
  simp [roundDiv, Nat.mul_div_cancel q hden, hden]

theorem roundUnits_of_representable {units den : Nat} (hden : 0 < den) (h : Representable units) :
    roundUnits (units * den) den = units := by
  obtain ⟨k, hk⟩ := h.2
  have hulp : 0 < Nat.pow 2 (units.log2 - 52) := Nat.pos_of_ne_zero (by simp)
  simp only [roundUnits, Nat.mul_div_cancel units hden]
  have hnum : units * den = k * (den * Nat.pow 2 (units.log2 - 52)) := by
    conv_lhs => rw [hk]
    ring
  rw [hnum, roundDiv_mul_right (Nat.mul_pos hden hulp), Nat.mul_comm]
  exact hk.symm

namespace Double

theorem ofUnits_of_magnitude (s : Bool) (m : Magnitude) {den : Nat} (hden : 0 < den) :
    ofUnits s (m.units * den) den = .finite s m := by
  simp [ofUnits, roundUnits_of_representable hden m.representable, m.representable]

theorem ofUnits_sign {num den : Nat} {m : Magnitude} (s : Bool)
    (h : ofUnits false num den = .finite false m) : ofUnits s num den = .finite s m := by
  by_cases hr : Representable (roundUnits num den)
  · simp only [ofUnits, hr, dite_true, Double.finite.injEq, true_and] at h ⊢
    exact h
  · simp [ofUnits, hr] at h

end Double

namespace Decimal

theorem toDouble_sign {c : Nat} {e : Int} {m : Magnitude} (s : Bool)
    (h : toDouble ⟨false, c, e⟩ = .finite false m) : toDouble ⟨s, c, e⟩ = .finite s m := by
  unfold toDouble at h ⊢
  by_cases hc : c = 0
  · simp only [hc, if_true, Double.finite.injEq, true_and] at h ⊢
    exact h
  · simp only [hc, if_false] at h ⊢
    cases e with
    | ofNat e =>
      by_cases he : 400 < e
      · simp [he] at h
      · simp only [he, if_false] at h ⊢
        exact Double.ofUnits_sign s h
    | negSucc e =>
      by_cases he : c.log2 + 1100 < 3 * (e + 1)
      · simp only [he, if_true, Double.finite.injEq, true_and] at h ⊢
        exact h
      · simp only [he, if_false] at h ⊢
        exact Double.ofUnits_sign s h

/-- A power of ten that multiplies may as well be written out. -/
theorem toDouble_ofNat {s : Bool} {c e : Nat} {m : Magnitude} (hc : c ≠ 0)
    (h : toDouble ⟨s, c, .ofNat e⟩ = .finite s m) :
    toDouble ⟨s, c * Nat.pow 10 e, .ofNat 0⟩ = .finite s m := by
  have hce : c * Nat.pow 10 e ≠ 0 := Nat.mul_ne_zero hc (by simp)
  by_cases he : 400 < e
  · simp [toDouble, hc, he] at h
  · simp only [toDouble, hc, he, if_false] at h
    simp only [toDouble, hce, if_false, Nat.not_lt_zero]
    simpa using h

theorem toDouble_negSucc {s : Bool} {c e : Nat} {m : Magnitude} (hc : c ≠ 0)
    (hlog : 3 * (e + 1) ≤ c.log2 + 1100)
    (h : c * Double.unitsPerOne = m.units * Nat.pow 10 (e + 1)) :
    toDouble ⟨s, c, .negSucc e⟩ = .finite s m := by
  have hpow : 0 < Nat.pow 10 (e + 1) := Nat.pos_of_ne_zero (by simp)
  simp only [toDouble, hc, Nat.not_lt.mpr hlog, if_false, h]
  exact Double.ofUnits_of_magnitude s m hpow

end Decimal

namespace Magnitude

theorem readsBack_iff {m : Magnitude} {d : Nat × Int} :
    m.readsBack d = true ↔ Decimal.toDouble ⟨false, d.1, d.2⟩ = .finite false m :=
  decide_eq_true_iff

theorem le_log2_mul_pow {a n : Nat} (h : a ≠ 0) : 2 * n ≤ (a * Nat.pow 5 n).log2 := by
  rw [Nat.le_log2 (Nat.mul_ne_zero h (by simp))]
  calc 2 ^ (2 * n) = 4 ^ n := by rw [Nat.pow_mul]
    _ ≤ 5 ^ n := Nat.pow_le_pow_left (by decide) n
    _ ≤ a * 5 ^ n := Nat.le_mul_of_pos_left _ (Nat.pos_of_ne_zero h)

theorem mul_pow_five_two (a n : Nat) : a * Nat.pow 5 n * Nat.pow 2 n = a * Nat.pow 10 n := by
  show a * 5 ^ n * 2 ^ n = a * 10 ^ n
  rw [Nat.mul_assoc, ← Nat.mul_pow]

theorem exactCoefficient_mul_unitsPerOne (m : Magnitude) :
    m.exactCoefficient * Double.unitsPerOne = m.units * Nat.pow 10 (1073 + 1) := by
  -- the powers are not to be computed
  unfold exactCoefficient Double.unitsPerOne
  rw [show 1074 = 1073 + 1 from rfl]
  generalize 1073 + 1 = n
  exact mul_pow_five_two m.units n

theorem exactCoefficient_bounds {m : Magnitude} (h : m.units ≠ 0) :
    m.exactCoefficient ≠ 0 ∧ 2 * 1074 ≤ m.exactCoefficient.log2 := by
  unfold exactCoefficient
  generalize 1074 = n
  exact ⟨Nat.mul_ne_zero h (by simp), le_log2_mul_pow h⟩

/-- Every double is a whole multiple of 10⁻¹⁰⁷⁴, and that decimal rounds to it. -/
theorem readsBack_exact {m : Magnitude} (h : m.units ≠ 0) :
    m.readsBack (m.exactCoefficient, -1074) = true := by
  have hexact := exactCoefficient_bounds h
  have hsmall : 3 * (1073 + 1) ≤ m.exactCoefficient.log2 + 1100 := by omega
  have hread : Decimal.toDouble ⟨false, m.exactCoefficient, .negSucc 1073⟩ = .finite false m :=
    Decimal.toDouble_negSucc hexact.1 hsmall (exactCoefficient_mul_unitsPerOne m)
  exact readsBack_iff.mpr hread

theorem readsBack_atPlaces {m : Magnitude} {places : Nat} {d : Nat × Int}
    (h : m.atPlaces? places = some d) : d.1 ≠ 0 ∧ m.readsBack d = true := by
  have hd := List.find?_some h
  simpa using hd

/-- The shortest decimal is not zero and rounds to the number. -/
theorem readsBack_shortest {m : Magnitude} (h : m.units ≠ 0) :
    m.shortest.1 ≠ 0 ∧ m.readsBack m.shortest = true := by
  simp only [shortest, h, if_false]
  cases hs : (List.range 17).findSome? fun n =>
      m.atPlaces? ((Nat.toDigits 10 m.exactCoefficient).length - (n + 1)) with
  | none => exact ⟨(exactCoefficient_bounds h).1, readsBack_exact h⟩
  | some d =>
    obtain ⟨n, _, hn⟩ := List.exists_of_findSome?_eq_some hs
    exact readsBack_atPlaces hn

end Magnitude

/-- Digits behind a point, or nothing if there are none. -/
def pointText (fraction : List Char) : List Char :=
  if fraction = [] then [] else '.' :: fraction

/-- The digits in front of the point and behind it, of which there are as many as the exponent
asks for. -/
structure IsPositional (whole fraction : List Char) (c : Nat) (e : Int) : Prop where
  whole_ne_nil : whole ≠ []
  isDigit_whole : ∀ d ∈ whole, d.isDigit = true
  isDigit_fraction : ∀ d ∈ fraction, d.isDigit = true
  value : Nat.ofDigitChars 10 (whole ++ fraction) 0 = c * Nat.pow 10 e.toNat
  length_fraction : fraction.length = (-e).toNat

theorem isDigit_toDigits (n : Nat) : ∀ d ∈ Nat.toDigits 10 n, d.isDigit = true :=
  fun _ hd => Nat.isDigit_of_mem_toDigits (by decide) (by decide) hd

theorem exists_pointed (c e : Nat) : ∃ whole fraction,
    pointed (Nat.toDigits 10 c) (e + 1) = whole ++ pointText fraction ∧
      IsPositional whole fraction c (.negSucc e) := by
  let padded := List.replicate (e + 1 + 1 - (Nat.toDigits 10 c).length) '0' ++ Nat.toDigits 10 c
  have hlen : e + 1 < padded.length := by
    simp only [padded, List.length_append, List.length_replicate]
    omega
  have hdigit : ∀ d ∈ padded, d.isDigit = true := by
    intro d hd
    rcases List.mem_append.mp hd with hd | hd
    · rw [(List.mem_replicate.mp hd).2]
      decide
    · exact isDigit_toDigits c d hd
  have hdrop : padded.drop (padded.length - (e + 1)) ≠ [] := by
    intro h
    have := congrArg List.length h
    simp only [List.length_drop, List.length_nil] at this
    omega
  refine ⟨padded.take (padded.length - (e + 1)), padded.drop (padded.length - (e + 1)), ?_, ?_⟩
  · simp only [pointed, pointText, hdrop, if_false, Nat.add_one_ne_zero]
    rfl
  · constructor
    · intro h
      have := congrArg List.length h
      simp only [List.length_take, List.length_nil] at this
      omega
    · exact fun d hd => hdigit d (List.mem_of_mem_take hd)
    · exact fun d hd => hdigit d (List.mem_of_mem_drop hd)
    · rw [List.take_append_drop, Nat.ofDigitChars_append, Nat.ofDigitChars_replicate_zero]
      simp [Nat.ofDigitChars_ten_toDigits]
    · rw [List.length_drop]
      have : (-Int.negSucc e).toNat = e + 1 := rfl
      omega

theorem exists_positional (c : Nat) (e : Int) : ∃ whole fraction,
    positional c e = whole ++ pointText fraction ∧ IsPositional whole fraction c e := by
  cases e with
  | ofNat e =>
    refine ⟨Nat.toDigits 10 (c * Nat.pow 10 e), [], by simp [positional, pointText], ?_⟩
    constructor
    · exact Nat.toDigits_ne_nil
    · exact isDigit_toDigits _
    · simp
    · rw [List.append_nil, Nat.ofDigitChars_ten_toDigits]
      rfl
    · simp
  | negSucc e => exact exists_pointed c e

theorem span_digits {ds : List Char} (rest : List Char) (hd : ∀ d ∈ ds, d.isDigit = true)
    (hr : ∀ c ∈ rest.head?, c.isDigit = false) :
    (ds ++ rest).takeWhile Char.isDigit = ds ∧ (ds ++ rest).dropWhile Char.isDigit = rest := by
  rw [List.takeWhile_append_of_pos hd, List.dropWhile_append_of_pos hd]
  cases rest with
  | nil => simp
  | cons c rest => simp [hr c (by simp)]

theorem head_pointText {fraction : List Char} : ∀ c ∈ (pointText fraction).head?, c = '.' := by
  intro c hc
  by_cases hf : fraction = []
  · simp [pointText, hf] at hc
  · simpa [pointText, hf, eq_comm] using hc

theorem splitSign_digit {d : Char} {ds : List Char} (h : d.isDigit = true) :
    Numeral.splitSign (d :: ds) = (false, d :: ds) := by
  unfold Numeral.splitSign
  split <;> simp_all

theorem splitSign_signed {s : Bool} {d : Char} (ds : List Char) (h : d.isDigit = true) :
    Numeral.splitSign (Double.signed s (d :: ds)) = (s, d :: ds) := by
  cases s with
  | true => rfl
  | false => exact splitSign_digit h

theorem splitFraction_pointText {fraction : List Char} (h : ∀ d ∈ fraction, d.isDigit = true) :
    Numeral.splitFraction (pointText fraction) = (fraction, []) := by
  by_cases hf : fraction = []
  · simp [hf, pointText, Numeral.splitFraction]
  · have hspan := span_digits [] h (by simp)
    rw [List.append_nil] at hspan
    simp [pointText, hf, Numeral.splitFraction, hspan.1, hspan.2]

theorem parse?_positional {whole fraction : List Char} {c : Nat} {e : Int} {s : Bool}
    (h : IsPositional whole fraction c e) :
    Numeral.parse? (Double.signed s (whole ++ pointText fraction)) =
      some ⟨s, whole, fraction, 0⟩ := by
  obtain ⟨d, ds, rfl⟩ := List.exists_cons_of_ne_nil h.whole_ne_nil
  have hsign := splitSign_signed (s := s) (ds ++ pointText fraction)
    (h.isDigit_whole d (by simp))
  have hspan := span_digits (pointText fraction) h.isDigit_whole
    (fun c hc => by rw [head_pointText c hc]; decide)
  simp only [List.cons_append] at hsign hspan ⊢
  simp [Numeral.parse?, hsign, hspan.1, hspan.2, splitFraction_pointText h.isDigit_fraction,
    Numeral.exponent?]

/-- The numeral that a positional text is has the value of the decimal it was made from. -/
theorem toDouble_positional {whole fraction : List Char} {c : Nat} {e : Int} {s : Bool}
    {m : Magnitude} (hc : c ≠ 0) (h : IsPositional whole fraction c e)
    (hm : Decimal.toDouble ⟨s, c, e⟩ = .finite s m) :
    (Numeral.mk s whole fraction 0).decimal.toDouble = .finite s m := by
  have hdecimal : (Numeral.mk s whole fraction 0).decimal =
      ⟨s, c * Nat.pow 10 e.toNat, 0 - ((-e).toNat : Int)⟩ := by
    simp only [Numeral.decimal, h.value, h.length_fraction]
  rw [hdecimal]
  cases e with
  | ofNat e =>
    have hzero : (0 - ((-Int.ofNat e).toNat : Int)) = .ofNat 0 := by simp
    rw [hzero]
    exact Decimal.toDouble_ofNat hc hm
  | negSucc e =>
    have hplaces : (0 - ((-Int.negSucc e).toNat : Int)) = .negSucc e := by
      simp [Int.negSucc_eq]
    rw [hplaces]
    simpa using hm

/-- The text of a finite number, taken apart. -/
theorem exists_chars (s : Bool) (m : Magnitude) : ∃ whole fraction c e,
    (Double.finite s m).chars = Double.signed s (whole ++ pointText fraction) ∧
      IsPositional whole fraction c e ∧
      (Numeral.mk s whole fraction 0).decimal.toDouble = .finite s m := by
  obtain ⟨whole, fraction, htext, hpos⟩ := exists_positional m.shortest.1 m.shortest.2
  refine ⟨whole, fraction, _, _, by rw [Double.chars, htext], hpos, ?_⟩
  by_cases hm : m.units = 0
  · have hzero : m = .zero := by
      obtain ⟨units, hr⟩ := m
      simp only at hm
      subst hm
      rfl
    have hshort : m.shortest = (0, 0) := by simp [Magnitude.shortest, hm]
    have hvalue := hpos.value
    rw [hshort] at hvalue
    simp [Numeral.decimal, hvalue, Decimal.toDouble, hzero]
  · have hshort := Magnitude.readsBack_shortest hm
    exact toDouble_positional hshort.1 hpos
      (Decimal.toDouble_sign s (Magnitude.readsBack_iff.mp hshort.2))

theorem read?_chars (s : Bool) (m : Magnitude) :
    Numeral.read? (Double.finite s m).chars = some (.finite s m) := by
  obtain ⟨whole, fraction, c, e, htext, hpos, hvalue⟩ := exists_chars s m
  rw [htext, Numeral.read?, parse?_positional hpos]
  exact congrArg some hvalue

end HomeAutomation
