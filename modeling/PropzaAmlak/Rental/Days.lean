import PropzaAmlak.Rental.Schedule

/-! Days before and after a date, as `timedelta` counts them. -/

namespace Rental

variable {d e : Date}

theorem tomorrow_toordinal (he : tomorrow d = some e) : e.toordinal = d.toordinal + 1 := by
  unfold tomorrow at he
  split at he
  · obtain rfl := Option.some.inj he
    simp only [Date.toordinal]
    omega
  split at he
  · rename_i hday _
    obtain rfl := Option.some.inj he
    have hlast : d.day = Date.daysIn d.monthIndex := by
      have hle := d.day_le_daysIn
      rw [Date.daysIn, d.monthIndex_div, d.monthIndex_mod] at hle ⊢
      omega
    have hnext := Date.daysBefore_succ d.monthIndex_bounds.1
    have hbounds := Date.daysIn_bounds (d.monthIndex + 1)
    rw [Date.toordinal_eq, Date.toordinal_eq, Date.inMonth_monthIndex]
    simp only [Date.inMonth]
    omega
  · cases he

theorem exists_tomorrow (h : d < e) : ∃ c, tomorrow d = some c := by
  have hlater : ¬ e ≤ d := Nat.not_le_of_lt h
  unfold tomorrow
  split
  · exact ⟨_, rfl⟩
  rename_i hday
  split
  · exact ⟨_, rfl⟩
  -- the last day of the calendar
  have hbounds := e.monthIndex_bounds
  have hdayLe := e.day_le_daysIn
  have hlast : Date.daysIn d.monthIndex ≤ d.day := by
    rw [Date.daysIn, d.monthIndex_div, d.monthIndex_mod]
    omega
  rw [Date.le_iff] at hlater
  have hindex : e.monthIndex = d.monthIndex := by omega
  rw [hindex] at hdayLe
  omega

theorem exists_yesterday (h : d < e) : ∃ c, e.yesterday = some c := by
  have hearlier : ¬ e ≤ d := Nat.not_le_of_lt h
  unfold Date.yesterday
  split
  · exact ⟨_, rfl⟩
  split
  · exact ⟨_, rfl⟩
  have hbounds := d.monthIndex_bounds
  have hday := d.day_le.1
  rw [Date.le_iff] at hearlier
  omega

theorem tomorrow_eq_some : tomorrow d = some e ↔ e.toordinal = d.toordinal + 1 := by
  refine ⟨tomorrow_toordinal, fun hordinal => ?_⟩
  have hlt : d.toordinal < e.toordinal := by omega
  obtain ⟨c, hc⟩ := exists_tomorrow hlt
  rw [hc, Date.toordinal_injective ((tomorrow_toordinal hc).trans hordinal.symm)]

theorem yesterday_eq_some : d.yesterday = some e ↔ e.toordinal + 1 = d.toordinal := by
  refine ⟨Date.yesterday_toordinal, fun hordinal => ?_⟩
  have hlt : e.toordinal < d.toordinal := by omega
  obtain ⟨c, hc⟩ := exists_yesterday hlt
  have hsame := (Date.yesterday_toordinal hc).trans hordinal.symm
  rw [hc, Date.toordinal_injective (Nat.succ_injective hsame)]

/-- `d + timedelta(days=n)` -/
def addDays (d : Date) : Int → Option Date
  | .ofNat n => (fun day => Option.bind day tomorrow)^[n] (some d)
  | .negSucc n => (fun day => Option.bind day Date.yesterday)^[n + 1] (some d)

/-- Steps of `k` days each, where a date that far off has one before it. -/
theorem iterate_eq_some {step : Date → Option Date} {k : Int} {n : Nat}
    (hstep : ∀ {d e : Date}, step d = some e ↔ (e.toordinal : Int) = d.toordinal + k)
    (hprev : ∀ {n : Nat} {e : Date}, (e.toordinal : Int) = d.toordinal + (n + 1 : Nat) * k → ∃ c, step c = some e) :
    (fun day => Option.bind day step)^[n] (some d) = some e ↔ (e.toordinal : Int) = d.toordinal + n * k := by
  induction n generalizing e with
  | zero =>
    simp only [Function.iterate_zero, id_eq, Option.some.injEq, Int.ofNat_zero, zero_mul, add_zero, Nat.cast_inj]
    exact ⟨fun h => h ▸ rfl, fun h => Date.toordinal_injective h.symm⟩
  | succ n ih =>
    have hsucc : ((n + 1 : Nat) : Int) * k = n * k + k := by push_cast; ring
    rw [Function.iterate_succ_apply', Option.bind_eq_some_iff]
    constructor
    · rintro ⟨c, hc, he⟩
      rw [hstep.mp he, ih.mp hc, hsucc, add_assoc]
    · intro he
      obtain ⟨c, hc⟩ := hprev he
      have hce := hstep.mp hc
      exact ⟨c, ih.mpr (by omega), hc⟩

theorem addDays_eq_some {n : Int} : addDays d n = some e ↔ (e.toordinal : Int) = d.toordinal + n := by
  cases n with
  | ofNat n =>
    rw [addDays, iterate_eq_some (k := 1)]
    · simp
    · intro d e
      rw [tomorrow_eq_some]
      omega
    · intro n e he
      have hlt : d.toordinal < e.toordinal := by omega
      obtain ⟨c, hc⟩ := exists_yesterday hlt
      exact ⟨c, tomorrow_eq_some.mpr (Date.yesterday_toordinal hc).symm⟩
  | negSucc n =>
    rw [addDays, iterate_eq_some (k := -1)]
    · rw [Int.negSucc_eq]
      push_cast
      ring_nf
    · intro d e
      rw [yesterday_eq_some]
      omega
    · intro n e he
      have hlt : e.toordinal < d.toordinal := by omega
      obtain ⟨c, hc⟩ := exists_tomorrow hlt
      exact ⟨c, yesterday_eq_some.mpr (tomorrow_toordinal hc).symm⟩

end Rental
