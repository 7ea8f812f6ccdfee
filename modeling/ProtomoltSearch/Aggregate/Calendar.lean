import Mathlib

/-!
# Calendar buckets

The start of the calendar unit an instant lies in, in a fixed offset from UTC (`calendar.rs`). The
first seconds of the units and the number of the unit of a second are a Galois connection (`Ruler`),
and what holds of buckets is read off it. Only the checked steps of the source can leave 64 bits.
-/

namespace ProtomoltSearch.Aggregate

open Option Function

inductive CalendarInterval where
  | unspecified | minute | hour | day | week | month | quarter | year

def floorDiv (a b : ℤ) : ℤ :=
  let q := a.tdiv b
  if a.tmod b ≠ 0 ∧ decide (a < 0) ≠ decide (b < 0) then q - 1 else q

def floorMod (a b : ℤ) : ℤ := a - floorDiv a b * b

def daysFromCivil (y m d : ℤ) : ℤ :=
  let y := if m ≤ 2 then y - 1 else y
  let era := floorDiv y 400
  let yoe := y - era * 400
  let mp := (m + 9) % 12
  let doy := (153 * mp + 2) / 5 + d - 1
  let doe := yoe * 365 + yoe / 4 - yoe / 100 + doy
  era * 146097 + doe - 719468

def civilFromDays (z : ℤ) : ℤ × ℤ × ℤ :=
  let z := z + 719468
  let era := floorDiv z 146097
  let doe := z - era * 146097
  let yoe := (doe - doe / 1460 + doe / 36524 - doe / 146096) / 365
  let y := yoe + era * 400
  let doy := doe - (365 * yoe + yoe / 4 - yoe / 100)
  let mp := (5 * doy + 2) / 153
  let d := doy - (153 * mp + 2) / 5 + 1
  let m := if mp < 10 then mp + 3 else mp - 9
  (if m ≤ 2 then y + 1 else y, m, d)

/-- What checked arithmetic in 64 bits gives. -/
def checked (x : ℤ) : Option ℤ := if -2 ^ 63 ≤ x ∧ x < 2 ^ 63 then some x else none

def startSecs (secs days : ℤ) : CalendarInterval → Option ℤ
  | .unspecified => none
  | .minute => some (secs - floorMod secs 60)
  | .hour => some (secs - floorMod secs 3600)
  | .day => checked (days * 86400)
  | .week => checked ((days - floorMod (days + 3) 7) * 86400)
  | .month =>
    let (y, m, _) := civilFromDays days
    checked (daysFromCivil y m 1 * 86400)
  | .quarter =>
    let (y, m, _) := civilFromDays days
    checked (daysFromCivil y ((m - 1) / 3 * 3 + 1) 1 * 86400)
  | .year => checked (daysFromCivil (civilFromDays days).1 1 1 * 86400)

def bucketStart (micros : ℤ) (unit : CalendarInterval) (utcOffsetMinutes : ℤ) : Option ℤ := do
  let minutes ← checked (utcOffsetMinutes * 60)
  let offset ← checked (minutes * 1000000)
  let zoned ← checked (micros + offset)
  let secs := floorDiv zoned 1000000
  let start ← startSecs secs (floorDiv secs 86400) unit
  let start ← checked (start * 1000000)
  checked (start - offset)

lemma eq_of_checked (x y : ℤ) (h : checked x = some y) : x = y := by
  unfold checked at h
  split at h <;> simp_all

lemma checked_bind {x y : ℤ} {f : ℤ → Option ℤ} :
    (checked x).bind f = some y ↔ (checked x).isSome ∧ f x = some y := by
  unfold checked
  split <;> simp

lemma floorDiv_eq (a : ℤ) {b : ℤ} (hb : 0 < b) : floorDiv a b = a / b := by
  by_cases h : b ∣ a <;> by_cases ha : 0 ≤ a <;> simp [floorDiv, Int.tdiv_eq_ediv,
    Int.sign_eq_one_of_pos hb, ← Int.dvd_iff_tmod_eq_zero, h, ha, hb.not_gt]

/-- The marks of a ruler, and the number of the last one at or before a point. -/
structure Ruler (l u : ℤ → ℤ) : Prop where
  gc : GaloisConnection l u
  inj : Injective l

lemma Ruler.comp {l u l' u' : ℤ → ℤ} (h : Ruler l u) (h' : Ruler l' u') :
    Ruler (l' ∘ l) (u ∘ u') := ⟨h.gc.compose h'.gc, h'.inj.comp h.inj⟩

lemma Ruler.mul (c : ℤ) (hc : 0 < c) : Ruler (· * c) (· / c) :=
  ⟨fun _ _ => (Int.le_ediv_iff_mul_le hc).symm, mul_left_injective₀ hc.ne'⟩

lemma Ruler.add (c : ℤ) : Ruler (· - c) (· + c) :=
  ⟨fun _ _ => sub_le_iff_le_add, sub_left_injective⟩

/-! ## Civil dates -/

def yoeOf (doe : ℤ) : ℤ := (doe - doe / 1460 + doe / 36524 - doe / 146096) / 365

/-- The days before a year, counted from March of year zero. -/
def yearDay (y : ℤ) : ℤ := 365 * y + y / 4 - y / 100 + y / 400

lemma yoeOf_ends : ∀ y : ℕ, y < 400 → yoeOf (yearDay y) = y ∧ yoeOf (yearDay (y + 1) - 1) = y := by
  decide +kernel

lemma yoeOf_mono : Monotone yoeOf :=
  monotone_int_of_le_succ fun _ => Int.ediv_le_ediv (by norm_num) (by omega)

/-- A day of an era is in its year, as the first and the last day of each year are. -/
lemma yearDay_yoeOf {doe : ℤ} (h : 0 ≤ doe) (h' : doe < 146097) :
    ∃ y : ℕ, y < 400 ∧ yoeOf doe = y ∧ yearDay y ≤ doe ∧ doe < yearDay (y + 1) := by
  have hyoe : 0 ≤ yoeOf doe ∧ yoeOf doe < 400 := by
    unfold yoeOf
    omega
  obtain ⟨y, hy⟩ := Int.eq_ofNat_of_zero_le hyoe.1
  refine ⟨y, by omega, hy, ?_, ?_⟩ <;> by_contra! hdoe
  · cases y with
    | zero => simp [yearDay, h.not_gt] at hdoe
    | succ y =>
      push_cast at hy hdoe
      have := yoeOf_mono (Int.le_sub_one_of_lt hdoe)
      rw [hy, (yoeOf_ends y (by omega)).2] at this
      omega
  · rcases Nat.lt_or_ge (y + 1) 400 with hlt | _
    · have := yoeOf_mono hdoe
      have := (yoeOf_ends (y + 1) hlt).1
      push_cast at this
      omega
    · rw [show (y : ℤ) + 1 = 400 by omega] at hdoe
      exact absurd hdoe h'.not_ge

/-- The first day of a month, counted from March of year zero. -/
def monthDay (j : ℤ) : ℤ := yearDay (j / 12) + (153 * (j % 12) + 2) / 5 - 719468

lemma monthDay_eq (y : ℤ) {mp : ℤ} (h : 0 ≤ mp) (h' : mp ≤ 11) :
    monthDay (12 * y + mp) = yearDay y + (153 * mp + 2) / 5 - 719468 := by
  rw [monthDay, show (12 * y + mp) / 12 = y by omega, show (12 * y + mp) % 12 = mp by omega]

lemma daysFromCivil_eq {y m d : ℤ} (h : 1 ≤ m) (h' : m ≤ 12) :
    daysFromCivil y m d = monthDay (12 * y + m - 3) + d - 1 := by
  simp only [daysFromCivil, floorDiv_eq, Nat.ofNat_pos]
  split
  · rw [show 12 * y + m - 3 = 12 * (y - 1) + (m + 9) % 12 by omega, monthDay_eq, yearDay] <;> omega
  · rw [show 12 * y + m - 3 = 12 * y + (m + 9) % 12 by omega, monthDay_eq, yearDay] <;> omega

/-- The days in a month of the Gregorian calendar. -/
def monthLength (y m : ℤ) : ℤ :=
  if m = 2 then if y % 4 = 0 ∧ (y % 100 ≠ 0 ∨ y % 400 = 0) then 29 else 28
  else if m = 4 ∨ m = 6 ∨ m = 9 ∨ m = 11 then 30 else 31

lemma monthDay_succ {y m : ℤ} (h : 1 ≤ m) (h' : m ≤ 12) :
    monthDay (12 * y + m - 3 + 1) = monthDay (12 * y + m - 3) + monthLength y m := by
  unfold monthLength monthDay yearDay
  interval_cases m <;> simp <;> omega

lemma monthDay_strictMono : StrictMono monthDay := strictMono_int_of_lt_succ fun j => by
  have := @monthDay_succ ((j + 2) / 12) ((j + 2) % 12 + 1) (by omega) (by omega)
  rw [show 12 * ((j + 2) / 12) + ((j + 2) % 12 + 1) - 3 = j by omega] at this
  unfold monthLength at this
  grind

lemma civilFromDays_spec (z : ℤ) : let c := civilFromDays z
    1 ≤ c.2.1 ∧ c.2.1 ≤ 12 ∧ z = monthDay (12 * c.1 + c.2.1 - 3) + c.2.2 - 1 ∧ 1 ≤ c.2.2 ∧
      z < monthDay (12 * c.1 + c.2.1 - 3 + 1) := by
  simp only [civilFromDays, floorDiv_eq, Nat.ofNat_pos]
  generalize hera : (z + 719468) / 146097 = era
  generalize hdoe : z + 719468 - era * 146097 = doe
  obtain ⟨yoe, _, hyoe, hle, hnext⟩ := @yearDay_yoeOf doe (by omega) (by omega)
  rw [← yoeOf, hyoe]
  clear hera hyoe
  generalize hy : yoe + era * 400 = y
  generalize hdoy : doe - (365 * yoe + yoe / 4 - yoe / 100 : ℤ) = doy
  generalize hmp : (5 * doy + 2) / 153 = mp
  have hyear : yearDay y = 146097 * era + doe - doy ∧
      yearDay (y + 1) = 146097 * era + yearDay (yoe + 1) := by
    unfold yearDay
    omega
  unfold yearDay at hle
  have hmp' : 0 ≤ mp ∧ mp ≤ 11 := by
    unfold yearDay at hnext
    omega
  have hlast : z < monthDay (12 * y + mp + 1) := by
    rcases hmp'.2.lt_or_eq with h | h
    · rw [add_assoc, monthDay_eq y (by omega) h]
      omega
    · rw [h, show 12 * y + 11 + 1 = 12 * (y + 1) + 0 by ring, monthDay_eq (y + 1) le_rfl (by norm_num)]
      omega
  have hm : let m := if mp < 10 then mp + 3 else mp - 9
      1 ≤ m ∧ m ≤ 12 ∧ 12 * (if m ≤ 2 then y + 1 else y) + m - 3 = 12 * y + mp := by grind
  refine ⟨hm.1, hm.2.1, ?_⟩
  rw [hm.2.2, monthDay_eq y hmp'.1 hmp'.2]
  exact ⟨by omega, by omega, hlast⟩

lemma civilFromDays_daysFromCivil {y m d : ℤ} (hm : 1 ≤ m) (hm' : m ≤ 12) (hd : 1 ≤ d)
    (hd' : d ≤ monthLength y m) : civilFromDays (daysFromCivil y m d) = (y, m, d) := by
  obtain ⟨h₁, h₂, hz, _, hnext⟩ := civilFromDays_spec (daysFromCivil y m d)
  generalize civilFromDays (daysFromCivil y m d) = c at *
  obtain ⟨y', m', d'⟩ := c
  dsimp only at *
  have hsucc := @monthDay_succ y m hm hm'
  rw [daysFromCivil_eq hm hm'] at hz hnext
  have hlt : 12 * y + m - 3 < 12 * y' + m' - 3 + 1 := monthDay_strictMono.lt_iff_lt.1 (by omega)
  have hgt : 12 * y' + m' - 3 < 12 * y + m - 3 + 1 := monthDay_strictMono.lt_iff_lt.1 (by omega)
  obtain ⟨rfl, rfl⟩ : y' = y ∧ m' = m := by omega
  rw [show d' = d by omega]

/-- The month of a day, counted from January of year zero. -/
def monthOf (z : ℤ) : ℤ := 12 * (civilFromDays z).1 + ((civilFromDays z).2.1 - 1)

lemma ruler_month : Ruler (monthDay <| · - 2) monthOf where
  gc k z := by
    obtain ⟨-, -, _, _, hnext⟩ := civilFromDays_spec z
    unfold monthOf
    constructor <;> intro h
    · have := monthDay_strictMono.lt_iff_lt.1 (lt_of_le_of_lt h hnext)
      omega
    · have := monthDay_strictMono.monotone
        (show k - 2 ≤ 12 * (civilFromDays z).1 + (civilFromDays z).2.1 - 3 by omega)
      exact this.trans (by omega)
  inj _ _ h := sub_left_injective (monthDay_strictMono.injective h)

/-- The first month of a day's month, quarter or year is a mark of the ruler of months. -/
lemma daysFromCivil_monthOf (z : ℤ) {c : ℤ} (hc : c = 1 ∨ c = 3 ∨ c = 12) :
    daysFromCivil (civilFromDays z).1 (((civilFromDays z).2.1 - 1) / c * c + 1) 1 =
      monthDay (monthOf z / c * c - 2) := by
  obtain ⟨h, h', -⟩ := civilFromDays_spec z
  unfold monthOf
  rcases hc with rfl | rfl | rfl <;>
    rw [daysFromCivil_eq (by omega) (by omega), add_sub_cancel_right] <;> congr 1 <;> omega

/-! ## Buckets -/

/-- The number of the unit a second lies in, by its civil date from days on. -/
def period (secs : ℤ) : CalendarInterval → ℤ
  | .unspecified => secs
  | .minute => secs / 60
  | .hour => secs / 3600
  | .day => secs / 86400
  | .week => (secs / 86400 + 3) / 7
  | .month => monthOf (secs / 86400)
  | .quarter => monthOf (secs / 86400) / 3
  | .year => monthOf (secs / 86400) / 12

/-- **A unit starts at a mark of its ruler**, or the arithmetic refuses the mark. -/
theorem startSecs_eq (unit : CalendarInterval) : ∃ (l : ℤ → ℤ) (g : ℤ → Option ℤ),
    Ruler l (period · unit) ∧ (∀ x y, g x = some y → x = y) ∧
      ∀ secs, startSecs secs (secs / 86400) unit = g (l (period secs unit)) := by
  have hday := Ruler.mul 86400 (by norm_num)
  have hmonth := ruler_month.comp hday
  cases unit with
  | unspecified => exact ⟨id, fun _ => none, ⟨.id, injective_id⟩, by simp, fun _ => rfl⟩
  | minute | hour =>
    refine ⟨_, some, .mul _ (by norm_num), fun _ _ => some.inj, fun secs => ?_⟩
    simp [startSecs, floorMod, floorDiv_eq, period]
  | day => exact ⟨_, checked, hday, eq_of_checked, fun _ => rfl⟩
  | week =>
    refine ⟨_, checked, ((Ruler.mul 7 (by norm_num)).comp (.add 3)).comp hday, eq_of_checked,
      fun secs => ?_⟩
    rw [startSecs, floorMod, floorDiv_eq _ (by norm_num)]
    refine congrArg (fun x => checked (x * 86400)) ?_
    simp only [comp, period]
    ring
  | month =>
    refine ⟨_, checked, hmonth, eq_of_checked, fun secs => ?_⟩
    have := daysFromCivil_monthOf (secs / 86400) (.inl rfl)
    simp only [Int.ediv_one, mul_one, sub_add_cancel] at this
    simp only [startSecs, this]
    rfl
  | quarter =>
    refine ⟨_, checked, (Ruler.mul 3 (by norm_num)).comp hmonth, eq_of_checked, fun secs => ?_⟩
    simp only [startSecs, daysFromCivil_monthOf (secs / 86400) (.inr (.inl rfl))]
    rfl
  | year =>
    refine ⟨_, checked, (Ruler.mul 12 (by norm_num)).comp hmonth, eq_of_checked, fun secs => ?_⟩
    have := daysFromCivil_monthOf (secs / 86400) (.inr (.inr rfl))
    obtain ⟨h, h', -⟩ := civilFromDays_spec (secs / 86400)
    rw [show ((civilFromDays (secs / 86400)).2.1 - 1) / 12 * 12 + 1 = 1 by omega] at this
    simp only [startSecs, this]
    rfl

lemma bucketStart_eq_some {t off s o : ℤ} {unit : CalendarInterval} (ho : o = off * 60 * 1000000) :
    bucketStart t unit off = some s ↔
      (checked (off * 60)).isSome ∧ (checked o).isSome ∧ (checked (t + o)).isSome ∧ ∃ start,
        startSecs ((t + o) / 1000000) ((t + o) / 1000000 / 86400) unit = some start ∧
          (checked (start * 1000000)).isSome ∧ checked (start * 1000000 - o) = some s := by
  subst ho
  simp only [bucketStart, bind_eq_bind, checked_bind, floorDiv_eq, Nat.ofNat_pos]
  rw [bind_eq_some_iff]
  simp only [checked_bind]

/-- **The buckets of a calendar.** A bucket starts no later than what is in it, its start is in it,
starts are in the order of time, and instants share one exactly when their unit is the same; days and
civil dates are each other's inverse, and days count from the first of January 1970. -/
theorem bucketStart_spec : (∀ t unit off s, bucketStart t unit off = some s →
    s ≤ t ∧ bucketStart s unit off = some s ∧ ∀ t' s', bucketStart t' unit off = some s' →
      (t ≤ t' → s ≤ s') ∧ (s = s' ↔ period ((t + off * 60000000) / 1000000) unit =
        period ((t' + off * 60000000) / 1000000) unit)) ∧
    civilFromDays 0 = (1970, 1, 1) ∧
    (∀ z, daysFromCivil (civilFromDays z).1 (civilFromDays z).2.1 (civilFromDays z).2.2 = z) ∧
    ∀ y m d, 1 ≤ m → m ≤ 12 → 1 ≤ d → d ≤ monthLength y m →
      civilFromDays (daysFromCivil y m d) = (y, m, d) := by
  refine ⟨fun t unit off s h => ?_, rfl, fun z => ?_, fun y m d => civilFromDays_daysFromCivil⟩
  · obtain ⟨l, g, hruler, hg, hstart⟩ := startSecs_eq unit
    have hmicros := hruler.comp (.mul 1000000 (by norm_num))
    have ho : off * 60000000 = off * 60 * 1000000 := by ring
    generalize off * 60000000 = o at *
    have hmark {t s} (h : bucketStart t unit off = some s) :
        s + o = l (period ((t + o) / 1000000) unit) * 1000000 := by
      obtain ⟨-, -, -, start, hs, -, h₅⟩ := (bucketStart_eq_some ho).1 h
      rw [hstart] at hs
      rw [hg _ _ hs, ← eq_of_checked _ _ h₅, sub_add_cancel]
    have hs := hmark h
    refine ⟨?_, ?_, fun t' s' h' => ?_⟩
    · have := hmicros.gc.l_u_le (t + o)
      simp only [comp] at this
      omega
    · obtain ⟨h₁, h₂, h₃, start, hst, h₄, h₅⟩ := (bucketStart_eq_some ho).1 h
      rw [hstart] at hst
      obtain rfl := hg _ _ hst
      refine (bucketStart_eq_some ho).2 ⟨h₁, h₂, by rwa [hs], _, ?_, h₄, h₅⟩
      rw [hs, Int.mul_ediv_cancel _ (by norm_num), hstart, hruler.gc.l_u_l_eq_l, hst]
    · have hs' := hmark h'
      refine ⟨fun hle => ?_, fun he => hmicros.inj ?_, fun he => ?_⟩
      · have := hmicros.gc.monotone_l (hmicros.gc.monotone_u (show t + o ≤ t' + o by omega))
        simp only [comp] at this
        omega
      · simp only [comp]
        omega
      · rw [he] at hs
        omega
  · obtain ⟨h, h', hz, -⟩ := civilFromDays_spec z
    rw [daysFromCivil_eq h h', ← hz]

/-- The last second of the leap day of 2024 is in the month that starts on its first of February. -/
theorem bucketStart_spec_leapDay :
    bucketStart 1709251199000000 .month 0 = some 1706745600000000 ∧
      bucketStart 1706745600000000 .month 0 = some 1706745600000000 :=
  have h : bucketStart 1709251199000000 .month 0 = some 1706745600000000 := by decide +kernel
  ⟨h, (bucketStart_spec.1 _ _ _ _ h).2.1⟩

/-- The units of one kind lie in those of the other. -/
inductive Refines : CalendarInterval → CalendarInterval → Prop
  | hour : Refines .minute .hour
  | day : Refines .hour .day
  | week : Refines .day .week
  | month : Refines .day .month
  | quarter : Refines .month .quarter
  | year : Refines .quarter .year
  | trans {a b c : CalendarInterval} : Refines a b → Refines b c → Refines a c

lemma Refines.period {fine coarse : CalendarInterval} (h : Refines fine coarse) {a b : ℤ}
    (hab : period a fine = period b fine) : period a coarse = period b coarse := by
  induction h with
  | trans _ _ ih ih' => exact ih' (ih hab)
  | month => exact congrArg monthOf hab
  | _ =>
    simp only [Aggregate.period] at *
    omega

/-- **Buckets nest**: the coarse bucket of an instant is that of its finer bucket's start. -/
theorem bucketStart_refines {t off s : ℤ} {fine coarse : CalendarInterval} (h : Refines fine coarse)
    (hs : bucketStart t fine off = some s) : bucketStart s coarse off = bucketStart t coarse off := by
  obtain ⟨l, g, hruler, hg, hstart⟩ := startSecs_eq fine
  obtain ⟨l', g', -, -, hcoarse⟩ := startSecs_eq coarse
  obtain ⟨-, -, hzoned, start, hst, hmicros, hs⟩ := (bucketStart_eq_some rfl).1 hs
  rw [hstart] at hst
  have hsame : period start fine = period ((t + off * 60 * 1000000) / 1000000) fine := by
    rw [← hg _ _ hst]
    exact hruler.inj (hruler.gc.l_u_l_eq_l _)
  have hs : s + off * 60 * 1000000 = start * 1000000 := by
    rw [← eq_of_checked _ _ hs, sub_add_cancel]
  ext r
  rw [bucketStart_eq_some rfl, bucketStart_eq_some rfl, hcoarse, hcoarse, hs,
    Int.mul_ediv_cancel _ (by norm_num), h.period hsame]
  simp only [hzoned, hmicros]

theorem bucketStart_refines_sample : bucketStart (-1) .day 0 = some (-86400000000) ∧
    bucketStart (-86400000000) .month 0 = bucketStart (-1) .month 0 :=
  have h : bucketStart (-1) .day 0 = some (-86400000000) := by decide +kernel
  ⟨h, bucketStart_refines .month h⟩

end ProtomoltSearch.Aggregate
