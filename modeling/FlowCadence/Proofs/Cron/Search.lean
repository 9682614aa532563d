import FlowCadence.Cron.Schedule
import FlowCadence.Proofs.Cron.Denotation
/-! # The search for a match

The search goes through the days, and on a day that matches through the hours, minutes and
seconds of the pattern, and takes the first match that does not come too early.  Each level
goes through its values in ascending order, and what is found under a smaller value comes
before what is found under a greater one, so the first that is found is the least.

## Key results

* `IsFirst.findSome?`: one level of the search
* `Pattern.firstTime_isFirst`: the search within a day
* `Pattern.firstFrom_isFirst`: the search from day to day -/

namespace FlowCadence.Cron

/-- The least number with a property, or none when no number has it. -/
def IsFirst (P : Nat → Prop) : Option Nat → Prop
  | some t => P t ∧ ∀ u, P u → t ≤ u
  | none => ∀ u, ¬ P u

namespace IsFirst

variable {P Q : Nat → Prop} {o o' : Option Nat}

/-- Being first depends on the property alone. -/
theorem congr (h : IsFirst P o) (hpq : ∀ t, P t ↔ Q t) : IsFirst Q o := by
  rwa [show Q = P from funext fun t => propext (hpq t).symm]

/-- Among the numbers up from `start` a single one is the first, unless it comes too early. -/
theorem ite_lt (start t : Nat) :
    IsFirst (fun u => u = t ∧ start ≤ u) (if t < start then none else some t) := by
  split
  · next hlt => exact fun u hu => by omega
  · next hge => exact ⟨⟨rfl, by omega⟩, fun u hu => by omega⟩

/-- A level may be skipped when all that lies under it comes too early. -/
theorem ite_none {c : Prop} [Decidable c] (h : IsFirst P o) (hc : c → ∀ t, ¬ P t) :
    IsFirst P (if c then none else o) := by
  split
  · next hc' => exact hc hc'
  · exact h

/-- A level that is ruled out has nothing. -/
theorem ite_then {c : Prop} [Decidable c] (h : IsFirst P o) :
    IsFirst (fun t => c ∧ P t) (if c then o else none) := by
  split
  · next hc => exact h.congr fun t => (and_iff_right hc).symm
  · next hc => exact fun t ht => hc ht.1

/-- The first of shifted numbers is the first one, shifted. -/
theorem map_add (h : IsFirst P o) (c : Nat) :
    IsFirst (fun x => ∃ t, P t ∧ x = c + t) (o.map (c + ·)) := by
  cases o with
  | none => exact fun _ ⟨t, ht, _⟩ => h t ht
  | some t =>
    refine ⟨⟨t, h.1, rfl⟩, ?_⟩
    rintro _ ⟨u, hu, rfl⟩
    exact Nat.add_le_add_left (h.2 u hu) c

/-- The first of those with either property, where those with the one come earlier. -/
theorem or (h : IsFirst P o) (h' : IsFirst Q o') (hlt : ∀ s t, P s → Q t → s < t) :
    IsFirst (fun t => P t ∨ Q t) (o.or o') := by
  -- Nothing has the one property, so the other decides.
  cases o with
  | none =>
    refine h'.congr fun t => ⟨.inr, fun ht => ht.resolve_left (h t)⟩
  -- Something has the one property, and it comes earlier than all with the other.
  | some t =>
    refine ⟨.inl h.1, ?_⟩
    rintro u (hu | hu)
    · exact h.2 u hu
    · exact Nat.le_of_lt (hlt t u h.1 hu)

/-- The first of those under any value, where those under a smaller value come earlier. -/
theorem findSome? {P : Nat → Nat → Prop} {f : Nat → Option Nat} {xs : List Nat}
    (hsorted : xs.Pairwise (· < ·)) (hf : ∀ x, IsFirst (P x) (f x))
    (hlt : ∀ x y s t, x < y → P x s → P y t → s < t) :
    IsFirst (fun t => ∃ x ∈ xs, P x t) (xs.findSome? f) := by
  induction xs with
  | nil => exact fun t ⟨_, h, _⟩ => List.not_mem_nil h
  | cons x xs ih =>
    obtain ⟨hx, hsorted⟩ := List.pairwise_cons.1 hsorted
    -- What lies under the first value comes before what lies under the others.
    have hor := (hf x).or (ih hsorted) fun s t hs ⟨y, hy, ht⟩ => hlt x y s t (hx y hy) hs ht
    have hcons : (x :: xs).findSome? f = (f x).or (xs.findSome? f) := by
      rw [List.findSome?_cons]
      cases f x <;> rfl
    rw [hcons]
    exact hor.congr fun t => by simp

end IsFirst

namespace Pattern

variable {p : Pattern} (hp : p.WellFormed)
include hp

/-- A time of the day that matches has an hour, a minute and a second of the pattern. -/
theorem matchesTime_iff {t : Nat} : t < 86400 ∧ p.matchesTime t = true ↔
    ∃ h ∈ p.hours, ∃ m ∈ p.minutes, ∃ s ∈ p.seconds, t = h * 3600 + m * 60 + s := by
  simp only [matchesTime, Bool.and_eq_true, List.contains_iff_mem]
  constructor
  -- The time is split into hours, minutes and seconds, and each of them is listed.
  · rintro ⟨_, ⟨hh, hm⟩, hs⟩
    exact ⟨_, hh, _, hm, _, hs, by omega⟩
  -- The other way round, they are found again by dividing.
  · rintro ⟨h, hh, m, hm, s, hs, rfl⟩
    have hh' := (hp.hours.bounds h hh).2
    have hm' := (hp.minutes.bounds m hm).2
    have hs' := (hp.seconds.bounds s hs).2
    simp only [Unit.hi] at hh' hm' hs'
    rw [show (h * 3600 + m * 60 + s) / 3600 = h by omega,
      show (h * 3600 + m * 60 + s) / 60 % 60 = m by omega,
      show (h * 3600 + m * 60 + s) % 60 = s by omega]
    exact ⟨by omega, ⟨hh, hm⟩, hs⟩

/-- The first match within a day that is not before `start`. -/
theorem firstTime_isFirst (start : Nat) :
    IsFirst (fun t => (t < 86400 ∧ p.matchesTime t = true) ∧ start ≤ t) (p.firstTime start) := by
  -- No second and no minute goes over its hour.
  have hsec (s : Nat) (hs : s ∈ p.seconds) : s ≤ 59 := (hp.seconds.bounds s hs).2
  have hmin (m : Nat) (hm : m ∈ p.minutes) : m ≤ 59 := (hp.minutes.bounds m hm).2
  -- Level by level: what lies under a value ends before what lies under the next, and a value
  -- is passed over only if its last second comes too early.
  have hseconds (h m : Nat) : IsFirst
      (fun t => ∃ s ∈ p.seconds, t = h * 3600 + m * 60 + s ∧ start ≤ t)
      (p.seconds.findSome? fun s =>
        if h * 3600 + m * 60 + s < start then none else some (h * 3600 + m * 60 + s)) :=
    .findSome? hp.seconds.pairwise (fun s => .ite_lt start _) (by omega)
  have hminutes (h : Nat) := IsFirst.findSome? hp.minutes.pairwise
    (fun m => (hseconds h m).ite_none (c := h * 3600 + m * 60 + 59 < start) (by
      rintro hlt t ⟨s, hs, rfl, hle⟩
      have := hsec s hs
      omega))
    (by
      rintro m m' s t hlt ⟨_, hs, rfl, _⟩ ⟨_, _, rfl, _⟩
      have := hsec _ hs
      omega)
  -- Hours in the same way.
  have hhours := IsFirst.findSome? hp.hours.pairwise
    (fun h => (hminutes h).ite_none (c := h * 3600 + 3599 < start) (by
      rintro hlt t ⟨m, hm, s, hs, rfl, hle⟩
      have := hsec s hs
      have := hmin m hm
      omega))
    (by
      rintro h h' s t hlt ⟨_, hm, _, hs, rfl, _⟩ ⟨_, _, _, _, rfl, _⟩
      have := hsec _ hs
      have := hmin _ hm
      omega)
  -- What the levels find is what matches and does not come too early.
  refine hhours.congr fun t => ?_
  rw [matchesTime_iff hp]
  constructor
  · rintro ⟨h, hh, m, hm, s, hs, rfl, hle⟩
    exact ⟨⟨h, hh, m, hm, s, hs, rfl⟩, hle⟩
  · rintro ⟨⟨h, hh, m, hm, s, hs, rfl⟩, hle⟩
    exact ⟨h, hh, m, hm, s, hs, rfl, hle⟩

omit hp in
/-- The search looks at one day after another. -/
theorem firstFrom_succ (days n start : Nat) : p.firstFrom (days + 1) n start =
    ((if p.matchesDay n then p.firstTime start else none).map (n * 86400 + ·)).or
      (p.firstFrom days (n + 1) 0) := by
  rw [firstFrom]
  cases (if p.matchesDay n then p.firstTime start else none) <;> rfl

/-- The first match within some days that is not before the second `start` of the first. -/
theorem firstFrom_isFirst (days n start : Nat) (hstart : start < 86400) :
    IsFirst (fun x => n * 86400 + start ≤ x ∧ x / 86400 < n + days ∧ p.matchesSecond x = true)
      (p.firstFrom days n start) := by
  induction days generalizing n start with
  | zero => exact fun x hx => by omega
  | succ days ih =>
    -- What is found on the first day comes before all that is found on the days behind it.
    have hday := ((firstTime_isFirst hp start).ite_then (c := p.matchesDay n)).map_add (n * 86400)
    -- The next day is searched from its start.
    have hrest := ih (n + 1) 0 (by omega)
    rw [Nat.add_zero] at hrest
    have hor := hday.or hrest (by
      rintro _ t ⟨s, ⟨-, ⟨hs, -⟩, -⟩, rfl⟩ ⟨ht, -⟩
      omega)
    rw [firstFrom_succ]
    refine hor.congr fun x => ?_
    -- Within a day what matches is a time that matches on a day that does.
    have hday (s : Nat) (hs : s < 86400) : p.matchesSecond (n * 86400 + s) = true ↔
        p.matchesDay n = true ∧ p.matchesTime s = true := by
      rw [matchesSecond, Bool.and_eq_true, show (n * 86400 + s) / 86400 = n by omega,
        show (n * 86400 + s) % 86400 = s by omega]
    constructor
    -- What was found is a match.
    · rintro (⟨s, ⟨hn, ⟨hs, ht⟩, hle⟩, rfl⟩ | ⟨hle, hlt, hx⟩)
      · exact ⟨by omega, by omega, (hday s hs).2 ⟨hn, ht⟩⟩
      · exact ⟨by omega, by omega, hx⟩
    -- A match is on the first day or on a later one.
    · rintro ⟨hle, hlt, hx⟩
      by_cases hnext : (n + 1) * 86400 ≤ x
      · exact .inr ⟨by omega, by omega, hx⟩
      · -- The match is on the first day.
        obtain ⟨s, rfl⟩ := Nat.le.dest (Nat.le_trans (Nat.le_add_right _ start) hle)
        obtain ⟨hn, ht⟩ := (hday s (by omega)).1 hx
        have hs : s < 86400 := by omega
        have hle : start ≤ s := Nat.le_of_add_le_add_left hle
        exact .inl ⟨s, ⟨hn, ⟨hs, ht⟩, hle⟩, rfl⟩

end Pattern

end FlowCadence.Cron
