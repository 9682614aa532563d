import FlowCadence.Proofs.Cron.ClassicWeekdays
/-! # Minute precision

An expression of five words has no seconds of its own: a zero is put in front of them.  The
grammar knows no borders between words, so it takes more than this zero for the seconds when
the first word goes on with it, as `-5` does.  With any other first word the expression fires
at the start of minutes only.

## Key results

* `Schedule.seconds_of_starts`: the zero in front is the whole field of the seconds
* `Schedule.keepsToMinutes_iff`: which schedules fire at the start of minutes only
* `Schedule.keepsToMinutes_of_five`: both for an expression of five words -/

namespace FlowCadence

/-- The second that a clock shows at an instant. -/
theorem Reading.second_of_instant (r : Reading) : r.instant.second % 60 = (r.second : Nat) := by
  rw [instant, Instant.second_ofSecond]
  have := r.second.isLt
  omega

namespace Cron

/-- A text that starts with no separator starts a field. -/
theorem Starts.of_head {cs : List Char} (hne : cs ≠ []) (hgap : NoGap cs)
    (h : ∀ c ∈ cs.head?, c ≠ '-' ∧ c ≠ '/' ∧ c ≠ ',') : Starts cs := by
  obtain ⟨c, ds, rfl⟩ := List.exists_cons_of_ne_nil hne
  obtain ⟨hdash, hstroke, hcomma⟩ := h c rfl
  exact ⟨c, ds, rfl, hgap c List.mem_cons_self, hdash, hstroke, hcomma⟩

namespace Schedule

variable {s : Schedule} {text minute hour day month weekday : String}

/-- All fire times are at the start of a minute. -/
def KeepsToMinutes (s : Schedule) : Prop :=
  ∀ t u : Instant, s.nextAfter t = some u → u.second % 60 = 0

/-- Every fire time is the next one after some instant. -/
theorem exists_nextAfter (hp : s.pattern.WellFormed) {u : Instant} (hu : s.pattern.Fires u) :
    ∃ t, s.nextAfter t = some u := by
  obtain ⟨x, rfl, -, -⟩ := hu.exists_second hp
  -- One second earlier is before it, and the search is started there.
  refine ⟨.ofSecond (x - 1), ?_⟩
  have hbefore : (Instant.ofSecond (x - 1)).before (.ofSecond x) := by
    rw [Instant.before_ofSecond, Instant.second_ofSecond]
    omega
  rcases nextAfter_cases hp (.ofSecond (x - 1)) with ⟨v, hnext, hv⟩ | ⟨-, hlast⟩
  · rw [hnext]
    rcases hv.least _ hu hbefore with hux | hvu
    · rw [hux]
    · -- No second begins between an instant and the next second.
      obtain ⟨y, rfl, -, -⟩ := hv.fires.exists_second hp
      have hyx := Instant.before_ofSecond.1 hvu
      have hxy := Instant.before_ofSecond.1 hv.after
      rw [Instant.second_ofSecond] at hyx hxy
      omega
  -- That there is no later fire time would be wrong, as this one is later.
  · exact absurd hbefore (hlast _ hu)

/-- A schedule that fires at all keeps to the start of minutes exactly when it lists no other
    second: what fires in one second of a minute fires in every second that is listed. -/
theorem keepsToMinutes_iff (hp : s.pattern.WellFormed) :
    s.KeepsToMinutes ↔ (∀ v ∈ s.pattern.seconds, v = 0) ∨ ∀ u, ¬ s.pattern.Fires u := by
  constructor
  -- If the schedule keeps to minutes and fires at all, no other second is listed.
  · intro hkeeps
    refine or_iff_not_imp_right.2 fun hfires v hv => ?_
    obtain ⟨u, r, -, hr⟩ := not_forall_not.1 hfires
    -- The same reading with another second that is listed fires as well.
    let r' : Reading := { r with second := ⟨v, Nat.lt_succ_of_le (hp.seconds.bounds v hv).2⟩ }
    have hfires' : s.pattern.Fires r'.instant :=
      ⟨r', rfl, hv, hr.minute, hr.hour, hr.day, hr.month, hr.weekday, hr.year⟩
    obtain ⟨t, ht⟩ := exists_nextAfter hp hfires'
    have hzero := hkeeps t _ ht
    rw [Reading.second_of_instant] at hzero
    exact Int.ofNat_eq_zero.1 hzero
  -- The other way round, what fires has a listed second.
  · intro h t u hnext
    have hu : s.pattern.Fires u := by
      rcases nextAfter_cases hp t with ⟨v, hnext', hv⟩ | ⟨hnone, -⟩
      · rw [hnext] at hnext'
        cases hnext'
        exact hv.fires
      · rw [hnext] at hnone
        cases hnone
    obtain ⟨r, rfl, hr⟩ := hu
    rcases h with hzero | hnever
    · rw [Reading.second_of_instant, hzero _ hr.second]
      rfl
    · exact absurd ⟨r, rfl, hr⟩ (hnever _)

/-- The zero in front of five words is the whole field of the seconds when the first word
    starts a field. -/
theorem seconds_of_starts (h : parse text = .ok s)
    (hwords : Text.words text = [minute, hour, day, month, weekday])
    (hstarts : Starts minute.toList) : s.pattern.seconds = [0] := by
  obtain ⟨cs, hcs, hpattern⟩ := ofChars_of_parse h
  rw [normalize, Text.words_trim, hwords] at hcs
  dsimp only at hcs
  -- The weekdays are rewritten, and the other four words are left as they are.
  split at hcs
  · next weekday' _ =>
    cases hcs
    obtain ⟨c₁, -, -, -, -, -, hseconds, -⟩ := Pattern.ofChars_eq_ok_iff.1 hpattern
    simp only [intercalate_cons_cons] at hseconds
    have hgap : NoGap ['0'] := by simp [NoGap, isGap]
    have hzero : readValues .second ['0'] = .ok ([0], []) := rfl
    rw [readValues_append hgap hzero (hstarts.append _)] at hseconds
    exact (Prod.mk.inj (Except.ok.inj hseconds)).1.symm
  -- The weekdays could not be rewritten, so the text was refused.
  · cases hcs

/-- An expression of five words fires at the start of minutes only, if its first word does not
    begin with a dash, a stroke or a comma.  In general it does exactly when no second but 0
    is listed or it never fires. -/
theorem keepsToMinutes_of_five (h : parse text = .ok s)
    (hwords : Text.words text = [minute, hour, day, month, weekday]) :
    ((∀ c ∈ minute.toList.head?, c ≠ '-' ∧ c ≠ '/' ∧ c ≠ ',') → s.KeepsToMinutes) ∧
      (s.KeepsToMinutes ↔
        (∀ v ∈ s.pattern.seconds, v = 0) ∨ ∀ u, ¬ s.pattern.Fires u) := by
  obtain ⟨cs, -, hpattern⟩ := ofChars_of_parse h
  -- Both parts rest on what the schedule lists.
  have hkeeps := keepsToMinutes_iff (Pattern.wellFormed_of_ofChars hpattern)
  refine ⟨fun hhead => hkeeps.2 (.inl fun v hv => ?_), hkeeps⟩
  have hmem : minute ∈ Text.words text := by simp [hwords]
  have hstarts := Starts.of_head (Text.of_mem_words hmem).1 (ClassicExpression.noGap_of_mem hmem)
    hhead
  rw [seconds_of_starts h hwords hstarts] at hv
  exact List.mem_singleton.1 hv

/-- Every quarter of an hour in the daytime. -/
theorem keepsToMinutes_quarters :
    ∃ s, parse "*/15 6-18 * * 1-5" = .ok s ∧ s.KeepsToMinutes := by
  -- The expression is accepted, and its words are the five.
  have hparse : (parse "*/15 6-18 * * 1-5").toOption.isSome := by decide +kernel
  obtain ⟨s, hs⟩ := Option.isSome_iff_exists.1 hparse
  have hwords : Text.words "*/15 6-18 * * 1-5" = ["*/15", "6-18", "*", "*", "1-5"] := by
    decide +kernel
  have hhead : ∀ c ∈ "*/15".toList.head?, c ≠ '-' ∧ c ≠ '/' ∧ c ≠ ',' := by
    intro c hc
    obtain rfl : '*' = c := Option.some.inj hc
    decide
  have hkeeps := keepsToMinutes_of_five (toOption_eq_some.1 hs) hwords
  exact ⟨s, toOption_eq_some.1 hs, hkeeps.1 hhead⟩

/-- The zero in front and `-5` are a range, and `**` makes up for the missing field. -/
private def glued : Schedule :=
  ⟨"-5 ** * * *", interval 0 5, interval 0 59, interval 0 23, interval 1 31, interval 1 12,
    interval 1 7, interval 1970 2100⟩

/-- A schedule of five words that fires in the second behind a quarter past ten. -/
theorem not_keepsToMinutes : ¬ ∀ (text : String) (s : Schedule), (Text.words text).length = 5 →
    parse text = .ok s → ∀ t u, s.nextAfter t = some u → u.second % 60 = 0 := by
  intro h
  -- What the expression is parsed to, and one of its fire times.
  have hparse : parse "-5 ** * * *" = .ok glued := toOption_eq_some.1 (by decide +kernel)
  have hnext : glued.nextAfter (.ofSecond 1772619300) = some (.ofSecond 1772619301) := by
    decide +kernel
  exact absurd (h _ glued (by decide) hparse _ _ hnext) (by decide)

end Schedule

end Cron

end FlowCadence
