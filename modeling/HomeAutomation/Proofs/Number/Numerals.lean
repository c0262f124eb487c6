import Mathlib.Data.List.TakeWhile
import HomeAutomation.Proofs.Number.ReadBack

/-! How numbers are written: an optional sign, digits with an optional point and at least one digit
before or behind it, and an optional exponent with digits. What is written so reads as a number, and
nothing else does. -/

namespace HomeAutomation.Numeral

def IsSign (cs : List Char) : Prop := cs = [] ∨ cs = ['-'] ∨ cs = ['+']

def AllDigits (cs : List Char) : Prop := ∀ c ∈ cs, c.isDigit = true

/-- A point with the digits behind it, or nothing. -/
def IsFraction (cs : List Char) : Prop := cs = [] ∨ ∃ ds, cs = '.' :: ds ∧ AllDigits ds

def IsExponent (cs : List Char) : Prop :=
  cs = [] ∨ ∃ e sign ds, cs = e :: (sign ++ ds) ∧ (e = 'e' ∨ e = 'E') ∧ IsSign sign ∧ ds ≠ [] ∧
    AllDigits ds

structure AreParts (sign whole fraction exponent : List Char) : Prop where
  /-- A point alone is no number. -/
  digit : whole ≠ [] ∨ 2 ≤ fraction.length
  sign : IsSign sign
  whole : AllDigits whole
  fraction : IsFraction fraction
  exponent : IsExponent exponent

def Written (cs : List Char) : Prop :=
  ∃ sign whole fraction exponent, cs = sign ++ (whole ++ (fraction ++ exponent)) ∧
    AreParts sign whole fraction exponent

section Heads

variable {cs rest : List Char}

theorem AllDigits.head? (h : AllDigits cs) : ∀ c ∈ cs.head?, c.isDigit = true :=
  fun c hc => h c (List.mem_of_mem_head? hc)

theorem IsFraction.head? (h : IsFraction cs) : ∀ c ∈ cs.head?, c = '.' := by
  rintro c hc
  rcases h with rfl | ⟨ds, rfl, -⟩
  · cases hc
  · exact (Option.some.inj hc).symm

theorem IsExponent.head? (h : IsExponent cs) : ∀ c ∈ cs.head?, c = 'e' ∨ c = 'E' := by
  rintro c hc
  rcases h with rfl | ⟨e, sign, ds, rfl, he, -⟩
  · cases hc
  · exact Option.some.inj hc ▸ he

theorem mem_head?_append {c : Char} (h : c ∈ (cs ++ rest).head?) :
    c ∈ cs.head? ∨ cs = [] ∧ c ∈ rest.head? := by
  cases cs with
  | nil => exact .inr ⟨rfl, h⟩
  | cons d ds => exact .inl h

end Heads

section Accepting

variable {sign whole fraction exponent rest : List Char}

theorem exists_splitSign (h : IsSign sign) (hrest : ∀ c ∈ rest.head?, c ≠ '-' ∧ c ≠ '+') :
    ∃ negative, splitSign (sign ++ rest) = (negative, rest) := by
  rcases h with rfl | rfl | rfl
  · refine ⟨false, ?_⟩
    rw [List.nil_append]
    unfold splitSign
    split
    · exact absurd rfl (hrest _ rfl).1
    · exact absurd rfl (hrest _ rfl).2
    · rfl
  · exact ⟨true, rfl⟩
  · exact ⟨false, rfl⟩

theorem exists_exponent? (h : IsExponent exponent) : ∃ n, exponent? exponent = some n := by
  rcases h with rfl | ⟨e, sign, ds, rfl, he, hsign, hne, hds⟩
  · exact ⟨0, rfl⟩
  · have hhead : ∀ c ∈ ds.head?, c ≠ '-' ∧ c ≠ '+' := by
      intro c hc
      have hc := hds.head? c hc
      constructor <;> rintro rfl <;> cases hc
    obtain ⟨negative, hsplit⟩ := exists_splitSign hsign hhead
    have hletter : (e == 'e' || e == 'E') = true := by simpa using he
    have hall : ds.all Char.isDigit = true := List.all_eq_true.mpr hds
    simp [exponent?, hsplit, hletter, hall, hne]

theorem splitFraction_append (h : IsFraction fraction)
    (hrest : ∀ c ∈ rest.head?, c ≠ '.' ∧ c.isDigit = false) :
    splitFraction (fraction ++ rest) = (fraction.tail, rest) := by
  rcases h with rfl | ⟨ds, rfl, hds⟩
  · rw [List.nil_append]
    unfold splitFraction
    split
    · exact absurd rfl (hrest _ rfl).1
    · rfl
  · have hspan := span_digits rest hds fun c hc => (hrest c hc).2
    exact Prod.ext hspan.1 hspan.2

theorem AreParts.exists_parse? (h : AreParts sign whole fraction exponent) :
    ∃ n, parse? (sign ++ (whole ++ (fraction ++ exponent))) = some n := by
  have hexponent : ∀ c ∈ exponent.head?, c ≠ '.' ∧ c.isDigit = false := by
    intro c hc
    rcases h.exponent.head? c hc with rfl | rfl <;> decide
  have hfraction : ∀ c ∈ (fraction ++ exponent).head?, c.isDigit = false := by
    intro c hc
    rcases mem_head?_append hc with hc | ⟨-, hc⟩
    · exact h.fraction.head? c hc ▸ rfl
    · exact (hexponent c hc).2
  have hwhole : ∀ c ∈ (whole ++ (fraction ++ exponent)).head?, c ≠ '-' ∧ c ≠ '+' := by
    intro c hc
    rcases mem_head?_append hc with hc | ⟨hwhole, hc⟩
    · have hc := h.whole.head? c hc
      constructor <;> rintro rfl <;> cases hc
    · have hne : fraction ≠ [] := by
        rintro rfl
        simpa [hwhole] using h.digit
      rcases mem_head?_append hc with hc | ⟨hnil, -⟩
      · obtain rfl := h.fraction.head? c hc
        decide
      · exact absurd hnil hne
  obtain ⟨negative, hsign⟩ := exists_splitSign h.sign hwhole
  obtain ⟨n, hn⟩ := exists_exponent? h.exponent
  have hspan := span_digits (fraction ++ exponent) h.whole hfraction
  have hdigit : (whole.isEmpty && fraction.tail.isEmpty) = false := by
    rcases h.digit with hne | hlength
    · simp [hne]
    · have hne : fraction.tail ≠ [] := by
        intro hnil
        have := congrArg List.length hnil
        simp only [List.length_tail, List.length_nil] at this
        omega
      simp [hne]
  simp only [parse?, hsign, hspan, splitFraction_append h.fraction hexponent, hdigit, hn]
  exact ⟨_, rfl⟩

end Accepting

section Rejecting

variable {cs : List Char}

theorem allDigits_takeWhile (cs : List Char) : AllDigits (cs.takeWhile Char.isDigit) :=
  fun _ hc => List.mem_takeWhile_imp hc

theorem isSign_splitSign (cs : List Char) :
    ∃ sign, IsSign sign ∧ cs = sign ++ (splitSign cs).2 := by
  unfold splitSign
  split
  · exact ⟨['-'], .inr (.inl rfl), rfl⟩
  · exact ⟨['+'], .inr (.inr rfl), rfl⟩
  · exact ⟨[], .inl rfl, rfl⟩

theorem isFraction_splitFraction (cs : List Char) : ∃ fraction, IsFraction fraction ∧
    (splitFraction cs).1 = fraction.tail ∧ cs = fraction ++ (splitFraction cs).2 := by
  unfold splitFraction
  split
  · rename_i cs
    refine ⟨'.' :: cs.takeWhile Char.isDigit, .inr ⟨_, rfl, allDigits_takeWhile cs⟩, rfl, ?_⟩
    rw [List.cons_append, List.takeWhile_append_dropWhile]
  · exact ⟨[], .inl rfl, rfl, rfl⟩

theorem isExponent_of_exponent? {n : Int} (h : exponent? cs = some n) : IsExponent cs := by
  cases cs with
  | nil => exact .inl rfl
  | cons e cs =>
    obtain ⟨sign, hsign, hcs⟩ := isSign_splitSign cs
    simp only [exponent?] at h
    split at h
    · rename_i hexp
      simp only [Bool.and_eq_true, Bool.or_eq_true, beq_iff_eq, Bool.not_eq_true',
        List.isEmpty_eq_false_iff, List.all_eq_true] at hexp
      exact .inr ⟨e, sign, _, congrArg (e :: ·) hcs, hexp.1.1, hsign, hexp.1.2, hexp.2⟩
    · cases h

theorem written_of_parse? {n : Numeral} (h : parse? cs = some n) : Written cs := by
  obtain ⟨sign, hsign, hcs⟩ := isSign_splitSign cs
  obtain ⟨fraction, hfraction, htail, hrest⟩ :=
    isFraction_splitFraction ((splitSign cs).2.dropWhile Char.isDigit)
  simp only [parse?, htail] at h
  split at h
  · cases h
  · rename_i hdigit
    obtain ⟨n, hn, -⟩ := Option.map_eq_some_iff.mp h
    refine ⟨sign, _, fraction, _, ?_, ?_, hsign, allDigits_takeWhile (splitSign cs).2, hfraction,
      isExponent_of_exponent? hn⟩
    · rw [← hrest, List.takeWhile_append_dropWhile]
      exact hcs
    · by_contra hnone
      simp only [not_or, not_not, not_le] at hnone
      have hnil : fraction.tail = [] := List.eq_nil_of_length_eq_zero (by
        rw [List.length_tail]
        omega)
      rw [hnone.1, hnil] at hdigit
      exact hdigit rfl

end Rejecting

/-- A text reads as a number exactly if it is written as one. -/
theorem exists_read?_iff {cs : List Char} : (∃ x, read? cs = some x) ↔ Written cs := by
  constructor
  · rintro ⟨x, hx⟩
    obtain ⟨n, hn, -⟩ := Option.map_eq_some_iff.mp hx
    exact written_of_parse? hn
  · rintro ⟨sign, whole, fraction, exponent, rfl, h⟩
    obtain ⟨n, hn⟩ := h.exists_parse?
    exact ⟨n.decimal.toDouble, by rw [read?, hn, Option.map_some]⟩

end HomeAutomation.Numeral
