import PropzaAmlak.Data.Months

/-! How many days lie between two dates, as the days of common years and the 29ths
of February among them. -/

namespace Date

variable {d e : Date} {n : Nat}

def IsLeapDay (d : Date) : Prop := d.month = 2 ∧ d.day = 29

instance : Decidable d.IsLeapDay := inferInstanceAs (Decidable (_ ∧ _))

/-- The day's number if every year were a common one, with the 29th of February
counted as the 28th. -/
def commonOrdinal (d : Date) : Nat :=
  365 * d.year + daysBeforeMonth 1 d.month + if d.month = 2 then min d.day 28 else d.day

theorem commonOrdinal_addMonths (h : d.addMonths (12 * n) = some e) : e.commonOrdinal = d.commonOrdinal + 365 * n := by
  obtain ⟨hindex, hday⟩ := addMonths_eq_some.mp h
  have hyear : e.year = d.year + n := by
    have hd := d.monthIndex_div
    have he := e.monthIndex_div
    omega
  have hmonth : e.month = d.month := by
    have hd := d.monthIndex_mod
    have he := e.monthIndex_mod
    omega
  have hlength := d.day_le.2
  rw [daysIn, monthIndex_div, monthIndex_mod, hyear, hmonth] at hday
  rw [commonOrdinal, commonOrdinal, hyear, hmonth]
  by_cases hfebruary : d.month = 2
  · have hbounds := daysInMonth_bounds (d.year + n) 2
    rw [hfebruary] at hday
    rw [if_pos hfebruary, if_pos hfebruary]
    omega
  · have hsame : daysInMonth (d.year + n) d.month = daysInMonth d.year d.month := by
      unfold daysInMonth
      split <;> simp_all
    rw [if_neg hfebruary, if_neg hfebruary]
    omega

theorem commonLength (year month : Nat) :
    (if month = 2 then min (daysInMonth year month) 28 else daysInMonth year month) = daysInMonth 1 month := by
  have hcommon : isLeap 1 = false := rfl
  split
  · rename_i hfebruary
    have hbounds := daysInMonth_bounds year 2
    rw [hfebruary]
    simp only [daysInMonth, hcommon]
    split <;> rfl
  · unfold daysInMonth
    split <;> simp_all

theorem commonOrdinal_last (hlast : e.day = daysInMonth e.year e.month) :
    e.commonOrdinal = 365 * ((e.monthIndex + 1) / 12) + daysBeforeMonth 1 ((e.monthIndex + 1) % 12 + 1) := by
  have hyear := e.monthIndex_div
  have hmonth := e.monthIndex_mod
  have hlength := commonLength e.year e.month
  rw [commonOrdinal, hlast, hlength]
  by_cases hdecember : e.month = 12
  · have hnext : (e.monthIndex + 1) / 12 = e.year + 1 := by omega
    have hjanuary : (e.monthIndex + 1) % 12 + 1 = 1 := by omega
    have hall : daysBeforeMonth 1 12 + daysInMonth 1 12 = 365 := rfl
    have hnone : daysBeforeMonth 1 1 = 0 := rfl
    rw [hnext, hjanuary, hdecember]
    omega
  · have hsame : (e.monthIndex + 1) / 12 = e.year := by omega
    have hnext : (e.monthIndex + 1) % 12 + 1 = e.month + 1 := by omega
    have hstep := @daysBeforeMonth_succ 1 _ e.month_le.1
    rw [hsame, hnext]
    omega

theorem commonOrdinal_yesterday (h : d.yesterday = some e) :
    d.commonOrdinal = e.commonOrdinal + if d.IsLeapDay then 0 else 1 := by
  have hlength := d.day_le.2
  have hmonths := d.month_le
  unfold yesterday at h
  split at h
  · rename_i hday
    obtain rfl := Option.some.inj h
    by_cases hfebruary : d.month = 2
    · have hbounds := daysInMonth_bounds d.year 2
      have hshort : daysInMonth d.year 2 ≤ 29 := by
        simp only [daysInMonth]
        split <;> omega
      rw [hfebruary] at hlength
      simp only [commonOrdinal, IsLeapDay, hfebruary, if_true, true_and]
      split <;> omega
    · simp only [commonOrdinal, IsLeapDay, hfebruary, if_false, false_and]
      omega
  · rename_i hfirst
    have hone : d.day = 1 := by
      have hpos := d.day_le.1
      omega
    have hcommon : ¬d.IsLeapDay := by
      rintro ⟨-, hday⟩
      omega
    rw [if_neg hcommon]
    split at h
    · rename_i hindex
      have hlast : e.day = daysInMonth e.year e.month := by
        obtain rfl := Option.some.inj h
        exact min_eq_right (daysIn_bounds _).2
      have hmonthIndex : e.monthIndex = d.monthIndex - 1 := by
        obtain rfl := Option.some.inj h
        exact inMonth_monthIndex
      rw [commonOrdinal_last hlast, hmonthIndex]
      have hprevious : d.monthIndex - 1 + 1 = d.monthIndex := by omega
      rw [hprevious, monthIndex_div, monthIndex_mod, commonOrdinal, hone]
      simp
    · cases h

theorem exists_yesterday (h : e.toordinal < d.toordinal) : ∃ f, d.yesterday = some f := by
  have hindex := e.monthIndex_bounds.1
  have hpos := e.day_le.1
  unfold yesterday
  split
  · exact ⟨_, rfl⟩
  · split
    · exact ⟨_, rfl⟩
    · rename_i hday hfirst
      have hle : d ≤ e := by
        rw [le_iff]
        omega
      exact absurd hle (Nat.not_le.mpr h)

/-- The days from `d` to `e` are those of common years and the leap days on the way. -/
theorem leapDays_between (h : d ≤ e) : ∃ leaps, e.toordinal + d.commonOrdinal = d.toordinal + e.commonOrdinal + leaps ∧
    (leaps = 0 ↔ ∀ x : Date, x.IsLeapDay → d < x → ¬x ≤ e) := by
  obtain ⟨k, hk⟩ : ∃ k, e.toordinal = d.toordinal + k := Nat.exists_eq_add_of_le h
  clear h
  induction k generalizing e with
  | zero =>
    obtain rfl := toordinal_injective (hk.trans (Nat.add_zero _))
    refine ⟨0, rfl, ?_⟩
    simp only [true_iff]
    intro x _ hlt hle
    exact absurd hle (Nat.not_le.mpr hlt)
  | succ k ih =>
    obtain ⟨f, hf⟩ := exists_yesterday (d := e) (e := d) (by omega)
    have hstep := yesterday_toordinal hf
    have hcommon := commonOrdinal_yesterday hf
    obtain ⟨leaps, hsum, hnone⟩ := ih (e := f) (by omega)
    have hbefore : ∀ x : Date, x ≤ e ↔ x = e ∨ x ≤ f := by
      intro x
      constructor
      · intro (hx : x.toordinal ≤ e.toordinal)
        by_cases hlast : x.toordinal = e.toordinal
        · exact .inl (toordinal_injective hlast)
        · have hearlier : x.toordinal ≤ f.toordinal := by omega
          exact .inr hearlier
      · rintro (rfl | (hx : x.toordinal ≤ f.toordinal))
        · exact Nat.le_refl _
        · have hlater : x.toordinal ≤ e.toordinal := by omega
          exact hlater
    have hlater : d < e := by
      have hlt : d.toordinal < e.toordinal := by omega
      exact hlt
    by_cases hleap : e.IsLeapDay
    · rw [if_pos hleap] at hcommon
      refine ⟨leaps + 1, by omega, ?_⟩
      simp only [Nat.add_eq_zero_iff, Nat.one_ne_zero, and_false, false_iff]
      intro hall
      exact hall e hleap hlater (Nat.le_refl _)
    · rw [if_neg hleap] at hcommon
      refine ⟨leaps, by omega, hnone.trans ?_⟩
      refine forall_congr' fun x => forall_congr' fun hx => forall_congr' fun _ => ?_
      rw [hbefore, not_or]
      have hne : x ≠ e := by
        rintro rfl
        exact hleap hx
      simp [hne]

end Date
