import FlowCadence.Cron.Schedule
import FlowCadence.Proofs.Calendar.Date
import FlowCadence.Proofs.Cron.Search
/-! # Fire times

A pattern fires when a second begins whose reading on a clock and in the calendar has, for
each unit, a value that the pattern lists.  The search finds just that: the next fire time
after an instant is the first of the later ones, and there is none only if no later one
exists.  One after another, the next fire times are therefore all of the later ones.

## Key results

* `Pattern.matchesSecond_iff`: what the search tests is whether the pattern fires
* `Schedule.nextAfter_isFirst`: the next fire time is the first of the later ones
* `Schedule.exists_fires`: the later fire times as a list
* `Schedule.nextAfter_exact`: all of this for an expression that was parsed -/

namespace FlowCadence

/-- The day of the week of a date, from 1 for Sunday to 7 for Saturday. -/
def Date.weekday (d : Date) : Nat := ((d.dayNumber + 4) % 7).toNat + 1

/-- The weekday of a date is that of its day. -/
theorem Date.weekday_ofDayNumber (n : Nat) : (Date.ofDayNumber n).weekday = weekdayOf n := by
  rw [weekday, dayNumber_ofDayNumber, weekdayOf]
  omega

/-- What the calendar and a clock show when a second begins. -/
structure Reading where
  date : Date
  isValid : date.IsValid
  hour : Fin 24
  minute : Fin 60
  second : Fin 60

/-- The instant at which the second begins. -/
def Reading.instant (r : Reading) : Instant :=
  .ofSecond (r.date.dayNumber * 86400 + (r.hour * 3600 + r.minute * 60 + r.second : Nat))

/-- From 1970 on an instant has one reading. -/
theorem Reading.eq_of_instant {r r' : Reading} (h : r.instant = r'.instant)
    (hy : 1970 ≤ r.date.year) : r = r' := by
  have hsecond : r.date.dayNumber * 86400 + (r.hour * 3600 + r.minute * 60 + r.second : Nat)
      = r'.date.dayNumber * 86400 + (r'.hour * 3600 + r'.minute * 60 + r'.second : Nat) :=
    congrArg Instant.second h
  -- A time of the day is less than a day, so the days agree, and then the times do.
  have hday : r.date.dayNumber = r'.date.dayNumber := by omega
  have hnonneg := r.isValid.dayNumber_nonneg_iff.2 hy
  have hy' : 1970 ≤ r'.date.year := r'.isValid.dayNumber_nonneg_iff.1 (hday ▸ hnonneg)
  obtain ⟨n, hn⟩ := Int.eq_ofNat_of_zero_le hnonneg
  have hdate : r.date = r'.date := by
    rw [← r.isValid.ofDayNumber_eq hy hn, ← r'.isValid.ofDayNumber_eq hy' (hday ▸ hn)]
  -- The times of the day agree as numbers, so they agree in hours, minutes and seconds.
  have hhour : r.hour = r'.hour := by omega
  have hminute : r.minute = r'.minute := by omega
  have hsecond : r.second = r'.second := by omega
  cases r
  cases r'
  simp_all

namespace Instant

@[simp] theorem second_ofSecond (s : Int) : (ofSecond s).second = s := rfl

/-- An instant is before a second if it lies in an earlier one. -/
theorem before_ofSecond {t : Instant} {s : Int} : t.before (ofSecond s) ↔ t.second < s := by
  simp [before, ofSecond]

theorem before_irrefl (t : Instant) : ¬ t.before t := by
  unfold before
  omega

theorem before.trans {a b c : Instant} (h : a.before b) (h' : b.before c) : a.before c := by
  unfold before at *
  omega

end Instant

namespace Cron

namespace Pattern

/-- The pattern lists every value of a reading. -/
structure Lists (p : Pattern) (r : Reading) : Prop where
  second : (r.second : Nat) ∈ p.seconds
  minute : (r.minute : Nat) ∈ p.minutes
  hour : (r.hour : Nat) ∈ p.hours
  day : r.date.day ∈ p.daysOfMonth
  month : r.date.month ∈ p.months
  weekday : r.date.weekday ∈ p.weekdays
  year : r.date.year ∈ p.years

/-- A second begins whose reading the pattern lists. -/
def Fires (p : Pattern) (t : Instant) : Prop := ∃ r : Reading, r.instant = t ∧ p.Lists r

/-- The first fire time after an instant. -/
structure IsNext (p : Pattern) (t u : Instant) : Prop where
  fires : p.Fires u
  after : t.before u
  least : ∀ v, p.Fires v → t.before v → v = u ∨ u.before v

variable {p : Pattern}

/-- There is one first fire time at most. -/
theorem IsNext.unique {t u v : Instant} (hu : p.IsNext t u) (hv : p.IsNext t v) : u = v := by
  rcases hu.least v hv.fires hv.after with h | huv
  · exact h.symm
  · rcases hv.least u hu.fires hu.after with h | hvu
    · exact h
    · exact absurd (huv.trans hvu) (Instant.before_irrefl u)

/-- A pattern fires at an instant when it lists the reading of the instant. -/
theorem fires_instant_iff (hp : p.WellFormed) {r : Reading} : p.Fires r.instant ↔ p.Lists r := by
  constructor
  · rintro ⟨r', hinstant, hr'⟩
    rwa [← Reading.eq_of_instant hinstant (hp.years.bounds _ hr'.year).1]
  · exact fun h => ⟨r, rfl, h⟩

/-- A day matches when its date is listed. -/
theorem matchesDay_ofDayNumber {n : Nat} : p.matchesDay n = true ↔
    (Date.ofDayNumber n).year ∈ p.years ∧ (Date.ofDayNumber n).month ∈ p.months ∧
      (Date.ofDayNumber n).day ∈ p.daysOfMonth ∧
      (Date.ofDayNumber n).weekday ∈ p.weekdays := by
  simp only [matchesDay, Bool.and_eq_true, List.contains_iff_mem, Date.weekday_ofDayNumber,
    and_assoc]

/-- A fire time is the start of a second from 1970 on. -/
theorem Fires.exists_second (hp : p.WellFormed) {t : Instant} (h : p.Fires t) :
    ∃ x : Nat, t = .ofSecond x ∧ p.matchesSecond x = true ∧ x / 86400 < endDay := by
  obtain ⟨r, rfl, hr⟩ := h
  -- Its year is listed, so the day is one from 1970 on and before the end.
  have hyear := hp.years.bounds _ hr.year
  obtain ⟨n, hn⟩ := Int.eq_ofNat_of_zero_le (r.isValid.dayNumber_nonneg_iff.2 hyear.1)
  have hdate := r.isValid.ofDayNumber_eq hyear.1 hn
  have hend : n < endDay := by
    have := r.isValid.dayNumber_lt hyear.2
    have hle : Date.daysBeforeYear 1970 ≤ Date.daysBeforeYear (Unit.year.hi + 1) :=
      Date.daysBeforeYear_mono (by decide)
    rw [endDay]
    omega
  -- The second of the day.
  let s : Nat := r.hour * 3600 + r.minute * 60 + r.second
  have hs : s < 86400 := by omega
  refine ⟨n * 86400 + s, ?_, ?_, by omega⟩
  -- Its instant is that second.
  · rw [Reading.instant, hn]
    simp [s]
  -- Its date and its time are listed.
  · rw [matchesSecond, Bool.and_eq_true, show (n * 86400 + s) / 86400 = n by omega,
      show (n * 86400 + s) % 86400 = s by omega, matchesDay_ofDayNumber, hdate]
    refine ⟨⟨hr.year, hr.month, hr.day, hr.weekday⟩, ((matchesTime_iff hp).2 ?_).2⟩
    exact ⟨_, hr.hour, _, hr.minute, _, hr.second, rfl⟩

/-- What the search tests is whether the pattern fires. -/
theorem matchesSecond_iff (hp : p.WellFormed) {x : Nat} :
    p.matchesSecond x = true ↔ p.Fires (.ofSecond x) := by
  constructor
  · intro h
    rw [matchesSecond, Bool.and_eq_true, matchesDay_ofDayNumber] at h
    obtain ⟨⟨hyear, hmonth, hday, hweekday⟩, htime⟩ := h
    obtain ⟨h, hh, m, hm, s, hs, hx⟩ := (matchesTime_iff hp).1 ⟨by omega, htime⟩
    have hh' := (hp.hours.bounds h hh).2
    have hm' := (hp.minutes.bounds m hm).2
    have hs' := (hp.seconds.bounds s hs).2
    -- The reading of the second: the date of its day, and the time that the pattern lists.
    refine ⟨⟨_, Date.isValid_ofDayNumber (x / 86400), ⟨h, Nat.lt_succ_of_le hh'⟩,
      ⟨m, Nat.lt_succ_of_le hm'⟩, ⟨s, Nat.lt_succ_of_le hs'⟩⟩, ?_, ?_⟩
    -- The instant of this reading is the second.
    · rw [Reading.instant]
      dsimp only
      rw [Date.dayNumber_ofDayNumber, ← hx]
      congr 1
      omega
    · exact ⟨hs, hm, hh, hday, hmonth, hweekday, hyear⟩
  · intro h
    obtain ⟨y, hy, hmatch, -⟩ := h.exists_second hp
    -- The two seconds are the same instant, so they are one.
    have hxy : (x : Int) = y := congrArg Instant.second hy
    rwa [Int.ofNat_inj.1 hxy]

end Pattern

namespace Schedule

variable {s : Schedule} (hp : s.pattern.WellFormed)
include hp

/-- The search starts with the second behind the instant and leaves no fire time out. -/
theorem firstFrom_isFirst (t : Instant) :
    let start := (t.second + 1).toNat
    IsFirst (fun x => s.pattern.Fires (.ofSecond x) ∧ t.before (.ofSecond x))
      (s.pattern.firstFrom (endDay - start / 86400) (start / 86400) (start % 86400)) := by
  intro start
  refine (Pattern.firstFrom_isFirst hp _ _ _ (Nat.mod_lt _ (by decide))).congr fun x => ?_
  rw [Pattern.matchesSecond_iff hp, Instant.before_ofSecond]
  constructor
  -- What is found fires later than the instant.
  · rintro ⟨hle, -, hx⟩
    exact ⟨hx, by omega⟩
  · -- No fire time lies behind the days that are searched.
    rintro ⟨hx, hlt⟩
    obtain ⟨y, hy, -, hend⟩ := hx.exists_second hp
    have hxy : (x : Int) = y := congrArg Instant.second hy
    exact ⟨by omega, by omega, hx⟩

/-- The next fire time is the first of the later ones, and there is none when there is no
    later one. -/
theorem nextAfter_cases (t : Instant) :
    (∃ u, s.nextAfter t = some u ∧ s.pattern.IsNext t u) ∨
      (s.nextAfter t = none ∧ ∀ u, s.pattern.Fires u → ¬ t.before u) := by
  have hfirst := firstFrom_isFirst hp t
  rw [nextAfter]
  dsimp only at hfirst ⊢
  cases hfrom : s.pattern.firstFrom (endDay - (t.second + 1).toNat / 86400)
      ((t.second + 1).toNat / 86400) ((t.second + 1).toNat % 86400) with
  -- Nothing was found, so there is no later fire time.
  | none =>
    rw [hfrom] at hfirst
    refine .inr ⟨rfl, fun u hu ht => ?_⟩
    obtain ⟨x, rfl, -, -⟩ := hu.exists_second hp
    exact hfirst x ⟨hu, ht⟩
  -- What was found is the least.
  | some n =>
    rw [hfrom] at hfirst
    obtain ⟨⟨hn, ht⟩, hleast⟩ := hfirst
    refine .inl ⟨_, rfl, hn, ht, fun v hv htv => ?_⟩
    obtain ⟨x, rfl, -, -⟩ := hv.exists_second hp
    -- Another fire time is this one or comes later.
    rcases Nat.eq_or_lt_of_le (hleast x ⟨hv, htv⟩) with rfl | hlt
    · exact .inl rfl
    · exact .inr (Instant.before_ofSecond.2 (Int.ofNat_lt.2 hlt))

/-- The fire times after an instant are finitely many, and going on from each to the next
    leads through all of them in their order. -/
theorem exists_fires (t : Instant) :
    ∃ fires : List Instant, fires.Pairwise Instant.before ∧
      (∀ u, u ∈ fires ↔ s.pattern.Fires u ∧ t.before u) ∧
      ∀ count, s.fireTimes count t =
        (fires.take count).map some ++ if fires.length < count then [none] else [] := by
  -- Each fire time leaves fewer seconds until the end of the last year.
  generalize hleft : (endDay * 86400 - t.second).toNat = left
  induction left using Nat.strongRecOn generalizing t with
  | ind left ih =>
    rcases nextAfter_cases hp t with ⟨u, hnext, hu⟩ | ⟨hnone, hlast⟩
    · -- The next fire time comes first, and behind it come those that are later still.
      obtain ⟨x, hx, -, hend⟩ := hu.fires.exists_second hp
      have hlater : t.second < u.second := by
        have := hu.after
        rw [hx, Instant.before_ofSecond] at this
        rwa [hx]
      have hsecond : u.second = x := congrArg Instant.second hx
      obtain ⟨fires, hsorted, hmem, htimes⟩ := ih _ (by omega) u rfl
      refine ⟨u :: fires, List.pairwise_cons.2 ⟨fun v hv => ((hmem v).1 hv).2, hsorted⟩, ?_, ?_⟩
      -- A later fire time is the next one or comes behind it.
      · intro v
        rw [List.mem_cons, hmem]
        constructor
        · rintro (rfl | ⟨hv, huv⟩)
          · exact ⟨hu.fires, hu.after⟩
          · exact ⟨hv, hu.after.trans huv⟩
        · rintro ⟨hv, htv⟩
          exact (hu.least v hv htv).imp id fun huv => ⟨hv, huv⟩
      -- The list of the next fire times starts with this one.
      · intro count
        cases count with
        | zero => simp [fireTimes]
        | succ count => simp [fireTimes, hnext, htimes count]
    -- There is none, so the list is empty and ends at once.
    · refine ⟨[], .nil, fun u => ⟨nofun, fun ⟨hu, ht⟩ => (hlast u hu ht).elim⟩, fun count => ?_⟩
      cases count with
      | zero => rfl
      | succ count => simp [fireTimes, hnone]

omit hp

/-- The pattern of an expression that was parsed. -/
theorem ofChars_of_parse {text : String} (h : parse text = .ok s) :
    ∃ cs, normalize (Text.trim text) = .ok cs ∧ Pattern.ofChars cs = .ok s.pattern := by
  rw [parse] at h
  -- A blank text is refused.
  split at h
  · cases h
  · obtain ⟨cs, hcs, h⟩ := bind_eq_ok.1 h
    refine ⟨cs, hcs, ?_⟩
    split at h
    · next pattern hpattern =>
      cases h
      exact hpattern
    · cases h

/-- The next fire time of an expression is the first later one of those that its fields
    denote, and one after another they are all of the later ones. -/
theorem nextAfter_exact {text : String} (h : parse text = .ok s) :
    (∃ cs, normalize (Text.trim text) = .ok cs ∧ s.pattern.DenotedBy cs) ∧ ∀ t : Instant,
      (∀ u, s.nextAfter t = some u ↔ s.pattern.IsNext t u) ∧
      (s.nextAfter t = none ↔ ∀ u, s.pattern.Fires u → ¬ t.before u) ∧
      ∃ fires : List Instant, fires.Pairwise Instant.before ∧
        (∀ u, u ∈ fires ↔ s.pattern.Fires u ∧ t.before u) ∧
        ∀ count, s.fireTimes count t =
          (fires.take count).map some ++ if fires.length < count then [none] else [] := by
  obtain ⟨cs, hcs, hpattern⟩ := ofChars_of_parse h
  have hp := Pattern.wellFormed_of_ofChars hpattern
  refine ⟨⟨cs, hcs, Pattern.denotedBy_of_ofChars hpattern⟩, fun t => ⟨fun u => ?_, ?_,
    exists_fires hp t⟩⟩
  -- The next fire time is the first one, and that is unique.
  · rcases nextAfter_cases hp t with ⟨v, hnext, hv⟩ | ⟨hnone, hlast⟩
    · rw [hnext, Option.some.injEq]
      exact ⟨fun hvu => hvu ▸ hv, hv.unique⟩
    · rw [hnone]
      exact ⟨nofun, fun hu => absurd hu.after (hlast u hu.fires)⟩
  -- If there is a later fire time, there is a next one.
  · rcases nextAfter_cases hp t with ⟨v, hnext, hv⟩ | ⟨hnone, hlast⟩
    · rw [hnext]
      exact ⟨nofun, fun hlast => absurd hv.after (hlast v hv.fires)⟩
    · exact ⟨fun _ => hlast, fun _ => hnone⟩

/-- The start of a year. -/
private def newYear : Schedule :=
  ⟨"0 0 1 1 *", [0], [0], [0], [1], [1], interval 1 7, interval 1970 2100⟩

/-- The leap second at the end of 2016 is followed by a start of a year, and the last day of
    2100 is not. -/
theorem nextAfter_newYear :
    newYear.pattern.IsNext ⟨1483228799, 1500000000⟩ (.ofSecond 1483228800) ∧
      ∀ u, newYear.pattern.Fires u → ¬ Instant.before ⟨4133894400, 0⟩ u := by
  -- The expression is accepted, so the theorem speaks of its schedule.
  have hparse : (parse " 0 0 1 1 *").toOption = some newYear := by decide +kernel
  have hexact := nextAfter_exact (toOption_eq_some.1 hparse)
  refine ⟨((hexact.2 _).1 _).1 (by decide +kernel), ?_⟩
  exact (hexact.2 ⟨4133894400, 0⟩).2.1.1 (by decide +kernel)

end Schedule

end Cron

end FlowCadence
