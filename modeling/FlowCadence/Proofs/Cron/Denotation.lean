import FlowCadence.Cron.Grammar
import FlowCadence.ForStd
/-! # What a field denotes

The values that a field lists are computed as lists, with refusals on the way.  Here each
item denotes a set of values of its unit.  The list of a field that is not refused is that
of the values its items denote, each once and in ascending order, and the pattern of a text
has for each unit the values that the field of the unit denotes.

## Key results

* `Item.mem_values`: the list of an item holds what the item denotes
* `mem_fieldValues`: the list of a field holds what its items denote
* `Pattern.denotedBy_of_ofChars`, `Pattern.wellFormed_of_ofChars`: the pattern of a text -/

namespace FlowCadence.Cron

variable {u : Unit}

/-! ### Lists of values -/

/-- An interval holds the numbers from its first to its last. -/
@[simp] theorem mem_interval {a b v : Nat} : v ∈ interval a b ↔ a ≤ v ∧ v ≤ b := by
  rw [interval, List.mem_range'_1]
  omega

/-- They are listed in ascending order. -/
theorem pairwise_interval (a b : Nat) : (interval a b).Pairwise (· < ·) :=
  List.pairwise_lt_range'

/-- Every so-many-th of an interval is counted from its first. -/
theorem mem_everyNth_interval {a b n v : Nat} :
    v ∈ everyNth n (interval a b) ↔ a ≤ v ∧ v ≤ b ∧ n ∣ v - a := by
  -- The interval is empty, or it starts with its first number.
  rcases Nat.lt_or_ge b a with hlt | hle
  · have hempty : interval a b = [] := by rw [interval, Nat.sub_eq_zero_of_le hlt]; rfl
    rw [hempty, everyNth]
    simp only [List.not_mem_nil, false_iff]
    omega
  · have hcons : interval a b = a :: interval (a + 1) b := by
      rw [interval, interval, show b + 1 - a = b + 1 - (a + 1) + 1 by omega, List.range'_succ]
    rw [hcons, everyNth, ← hcons, List.mem_filter, mem_interval, decide_eq_true_eq,
      Nat.dvd_iff_mod_eq_zero, and_assoc]

/-! ### Items -/

/-- The smallest and the largest value of a base. -/
def Base.Spans (u : Unit) : Base → (a b : Nat) → Prop
  | .all, a, b => a = u.lo ∧ b = u.hi
  | .range c d, a, b => a = c ∧ b = d
  | .point c, a, b => a = c ∧ b = c
  | .names s t, a, b => u.ofName s = .ok a ∧ u.ofName t = .ok b

/-- The values that an item denotes. -/
def Item.Denotes (u : Unit) (v : Nat) : Item → Prop
  | .every (.point a) step => a ≤ v ∧ v ≤ u.hi ∧ step ∣ v - a
  | .every base step => ∃ a b, base.Spans u a b ∧ a ≤ v ∧ v ≤ b ∧ step ∣ v - a
  | .plain base => ∃ a b, base.Spans u a b ∧ a ≤ v ∧ v ≤ b
  | .name s => u.ofName s = .ok v

/-- A base that is not refused lists the values between its bounds. -/
theorem Base.values_eq_interval {b : Base} {vs : List Nat} (h : b.values u = .ok vs) :
    ∃ lo hi, (∀ lo' hi', b.Spans u lo' hi' ↔ lo' = lo ∧ hi' = hi) ∧ vs = interval lo hi := by
  cases b with
  | all =>
    cases h
    exact ⟨_, _, fun _ _ => .rfl, rfl⟩
  | point a =>
    cases h
    exact ⟨a, a, fun _ _ => .rfl, by simp [interval]⟩
  | range a b =>
    rw [Base.values] at h
    split at h
    · cases h
      exact ⟨a, b, fun _ _ => .rfl, rfl⟩
    · cases h
  | names s t =>
    rw [Base.values] at h
    -- Both names stand for values, and the first of them is not the greater one.
    obtain ⟨a, hs, h⟩ := bind_eq_ok.1 h
    obtain ⟨b, ht, h⟩ := bind_eq_ok.1 h
    split at h
    · cases h
      exact ⟨a, b, fun a' b' => by simp [Base.Spans, hs, ht, eq_comm], rfl⟩
    · cases h

/-- A base lists the values between the ones it spans. -/
theorem Base.mem_values {b : Base} {vs : List Nat} (h : b.values u = .ok vs) {v : Nat} :
    v ∈ vs ↔ ∃ lo hi, b.Spans u lo hi ∧ lo ≤ v ∧ v ≤ hi := by
  obtain ⟨lo, hi, hspans, rfl⟩ := values_eq_interval h
  simp [hspans, and_assoc]

/-- With a step it lists those that are whole steps from the first. -/
theorem Base.mem_everyNth_values {b : Base} {vs : List Nat} (h : b.values u = .ok vs)
    {step v : Nat} : v ∈ everyNth step vs ↔
      ∃ lo hi, b.Spans u lo hi ∧ lo ≤ v ∧ v ≤ hi ∧ step ∣ v - lo := by
  obtain ⟨lo, hi, hspans, rfl⟩ := values_eq_interval h
  simp [hspans, and_assoc, mem_everyNth_interval]

/-- A value that is checked stays as it is. -/
theorem Unit.check_eq_ok {v w : Nat} (h : u.check v = .ok w) : w = v := by
  rw [Unit.check] at h
  split at h
  · cases h
  · split at h
    · cases h
    · exact (Except.ok.inj h).symm

/-- Checked values are the values that were to be checked. -/
theorem Unit.mapM_check {vs ws : List Nat} (h : vs.mapM u.check = .ok ws) : ws = vs := by
  induction vs generalizing ws with
  | nil => exact (Except.ok.inj h).symm
  | cons v vs ih =>
    rw [List.mapM_cons] at h
    obtain ⟨w, hw, h⟩ := bind_eq_ok.1 h
    obtain ⟨ws', hws, h⟩ := bind_eq_ok.1 h
    cases h
    rw [check_eq_ok hw, ih hws]

/-- The values of an item with a step that is not refused. -/
theorem Item.values_every {b : Base} {step : Nat} (h : 0 < step ∧ step ≤ u.hi) :
    (Item.every b step).values u =
      match b with
      | .point a => (fun a => everyNth step (interval a u.hi)) <$> u.check a
      | b => everyNth step <$> b.values u := by
  rw [Item.values.eq_def]
  simp only [if_neg (Nat.ne_of_gt h.1), if_neg (Nat.not_lt.2 h.2)]
  cases b <;> rfl

/-- An item with a step that is not refused has a step of the unit. -/
theorem Item.step_of_values {b : Base} {step : Nat} {vs : List Nat}
    (h : (Item.every b step).values u = .ok vs) : 0 < step ∧ step ≤ u.hi := by
  rw [Item.values.eq_def] at h
  dsimp only at h
  split at h
  · cases h
  · split at h
    · cases h
    · omega

/-- An item that is not refused lists what it denotes. -/
theorem Item.mem_values {i : Item} {vs : List Nat} (h : i.values u = .ok vs) {v : Nat} :
    v ∈ vs ↔ i.Denotes u v := by
  cases i with
  -- What the base lists is checked, which changes nothing.
  | plain b =>
    rw [Item.values] at h
    obtain ⟨ws, hws, h⟩ := bind_eq_ok.1 h
    rw [Unit.mapM_check h, Base.mem_values hws, Item.Denotes]
  | name s =>
    rw [Item.values] at h
    obtain ⟨w, hw, h⟩ := bind_eq_ok.1 h
    cases h
    simp [Item.Denotes, hw, eq_comm]
  -- The step is counted from the value itself, up to the end of the unit, or from the first of the
  -- base.
  | every b step =>
    rw [Item.values_every (Item.step_of_values h)] at h
    cases b with
    | point a =>
      obtain ⟨w, hw, rfl⟩ := map_eq_ok.1 h
      rw [Unit.check_eq_ok hw, mem_everyNth_interval, Item.Denotes]
    | all | range _ _ | names _ _ =>
      obtain ⟨ws, hws, rfl⟩ := map_eq_ok.1 h
      rw [Base.mem_everyNth_values hws, Item.Denotes]
      -- What is left to show is that this base is no single value.
      nofun

/-! ### Fields -/

/-- Items that are not refused are listed one by one. -/
theorem mapM_values_mem {is : List Item} {vss : List (List Nat)}
    (h : is.mapM (Item.values u) = .ok vss) {v : Nat} :
    (∃ vs ∈ vss, v ∈ vs) ↔ ∃ i ∈ is, i.Denotes u v := by
  induction is generalizing vss with
  | nil =>
    cases h
    simp
  | cons i is ih =>
    rw [List.mapM_cons] at h
    obtain ⟨vs, hvs, h⟩ := bind_eq_ok.1 h
    obtain ⟨vss', hvss, h⟩ := bind_eq_ok.1 h
    cases h
    simp [Item.mem_values hvs, ih hvss]

/-- A field lists the values of its unit that some item denotes. -/
theorem fieldValues_eq {is : List Item} {vs : List Nat} (h : fieldValues u is = .ok vs) :
    ∃ p, vs = (interval u.lo u.hi).filter p ∧ ∀ v, p v = true ↔ ∃ i ∈ is, i.Denotes u v := by
  rw [fieldValues] at h
  obtain ⟨vss, hvss, h⟩ := bind_eq_ok.1 h
  cases h
  exact ⟨_, rfl, fun v => by simp [← mapM_values_mem hvss]⟩

/-- A field that is not refused lists what its items denote, within the bounds of the unit. -/
theorem mem_fieldValues {is : List Item} {vs : List Nat} (h : fieldValues u is = .ok vs)
    {v : Nat} : v ∈ vs ↔ (u.lo ≤ v ∧ v ≤ u.hi) ∧ ∃ i ∈ is, i.Denotes u v := by
  obtain ⟨p, rfl, hp⟩ := fieldValues_eq h
  rw [List.mem_filter, mem_interval, hp]

/-- Values of a unit, each once and in ascending order. -/
structure IsField (u : Unit) (vs : List Nat) : Prop where
  pairwise : vs.Pairwise (· < ·)
  bounds : ∀ v ∈ vs, u.lo ≤ v ∧ v ≤ u.hi

/-- All values of a unit are a field of it. -/
theorem IsField.interval (u : Unit) : IsField u (interval u.lo u.hi) :=
  ⟨pairwise_interval _ _, fun _ hv => mem_interval.1 hv⟩

/-- Values that a field lists are within the unit, each once and in order. -/
theorem isField_of_fieldValues {is : List Item} {vs : List Nat} (h : fieldValues u is = .ok vs) :
    IsField u vs := by
  obtain ⟨p, rfl, -⟩ := fieldValues_eq h
  exact ⟨(pairwise_interval _ _).filter _, fun v hv => mem_interval.1 ((List.mem_filter.1 hv).1)⟩

/-! ### Patterns -/

/-- A field of the unit stands at the start of the text, and the values are those that it
    denotes. -/
def ReadsAs (u : Unit) (cs : List Char) (vs : List Nat) (rest : List Char) : Prop :=
  ∃ is, readField u cs = some (is, rest) ∧
    ∀ v, v ∈ vs ↔ (u.lo ≤ v ∧ v ≤ u.hi) ∧ ∃ i ∈ is, i.Denotes u v

/-- A field that is read lists what its items denote. -/
theorem readValues_eq_ok {cs rest : List Char} {vs : List Nat}
    (h : readValues u cs = .ok (vs, rest)) : ReadsAs u cs vs rest ∧ IsField u vs := by
  rw [readValues] at h
  split at h
  · cases h
  · next is cs' hread =>
    cases hvs : fieldValues u is with
    | error r => rw [hvs] at h; cases h
    | ok ws =>
      rw [hvs] at h
      cases h
      exact ⟨⟨is, hread, fun v => mem_fieldValues hvs⟩, isField_of_fieldValues hvs⟩

namespace Pattern

/-- The text is one field for each unit from the seconds to the weekdays, and the pattern
    has the values that they denote.  A field of years may follow; without one the pattern
    has all years. -/
def DenotedBy (p : Pattern) (cs : List Char) : Prop :=
  ∃ c₁ c₂ c₃ c₄ c₅ c₆, ReadsAs .second cs p.seconds c₁ ∧ ReadsAs .minute c₁ p.minutes c₂ ∧
    ReadsAs .hour c₂ p.hours c₃ ∧ ReadsAs .dayOfMonth c₃ p.daysOfMonth c₄ ∧
    ReadsAs .month c₄ p.months c₅ ∧ ReadsAs .weekday c₅ p.weekdays c₆ ∧
    (ReadsAs .year c₆ p.years [] ∨ c₆ = [] ∧ ∀ y, y ∈ p.years ↔ 1970 ≤ y ∧ y ≤ 2100)

/-- Each unit has values of the unit, each once and in ascending order. -/
structure WellFormed (p : Pattern) : Prop where
  seconds : IsField .second p.seconds
  minutes : IsField .minute p.minutes
  hours : IsField .hour p.hours
  daysOfMonth : IsField .dayOfMonth p.daysOfMonth
  months : IsField .month p.months
  weekdays : IsField .weekday p.weekdays
  years : IsField .year p.years

/-- A pattern is read when six fields are read one after another, and then one of years
    or nothing. -/
theorem ofChars_eq_ok_iff {cs : List Char} {p : Pattern} : ofChars cs = .ok p ↔
    ∃ c₁ c₂ c₃ c₄ c₅ c₆, readValues .second cs = .ok (p.seconds, c₁) ∧
      readValues .minute c₁ = .ok (p.minutes, c₂) ∧ readValues .hour c₂ = .ok (p.hours, c₃) ∧
      readValues .dayOfMonth c₃ = .ok (p.daysOfMonth, c₄) ∧
      readValues .month c₄ = .ok (p.months, c₅) ∧ readValues .weekday c₅ = .ok (p.weekdays, c₆) ∧
      (readValues .year c₆ = .ok (p.years, []) ∨
        c₆ = [] ∧ p.years = interval Unit.year.lo Unit.year.hi) := by
  constructor
  · intro h
    rw [ofChars] at h
    obtain ⟨⟨seconds, c₁⟩, h₁, h⟩ := bind_eq_ok.1 h
    obtain ⟨⟨minutes, c₂⟩, h₂, h⟩ := bind_eq_ok.1 h
    obtain ⟨⟨hours, c₃⟩, h₃, h⟩ := bind_eq_ok.1 h
    obtain ⟨⟨daysOfMonth, c₄⟩, h₄, h⟩ := bind_eq_ok.1 h
    obtain ⟨⟨months, c₅⟩, h₅, h⟩ := bind_eq_ok.1 h
    obtain ⟨⟨weekdays, c₆⟩, h₆, h⟩ := bind_eq_ok.1 h
    -- The years decide whether anything may follow; the other fields are as they were read.
    suffices hp : p.seconds = seconds ∧ p.minutes = minutes ∧ p.hours = hours ∧
        p.daysOfMonth = daysOfMonth ∧ p.months = months ∧ p.weekdays = weekdays ∧
        (readValues .year c₆ = .ok (p.years, []) ∨
          c₆ = [] ∧ p.years = interval Unit.year.lo Unit.year.hi) by
      obtain ⟨rfl, rfl, rfl, rfl, rfl, rfl, hyears⟩ := hp
      exact ⟨_, _, _, _, _, _, h₁, h₂, h₃, h₄, h₅, h₆, hyears⟩
    dsimp only at h
    split at h
    · next r hyears =>
      split at h
      · next hempty =>
        cases h
        exact ⟨rfl, rfl, rfl, rfl, rfl, rfl, .inl (by rw [hyears, ← List.isEmpty_iff.1 hempty])⟩
      · cases h
    · split at h
      · next hempty =>
        cases h
        exact ⟨rfl, rfl, rfl, rfl, rfl, rfl, .inr ⟨List.isEmpty_iff.1 hempty, rfl⟩⟩
      · cases h
  -- The other way round, every reading is the one that is given.
  · rintro ⟨c₁, c₂, c₃, c₄, c₅, c₆, h₁, h₂, h₃, h₄, h₅, h₆, hyears⟩
    refine bind_eq_ok.2 ⟨_, h₁, bind_eq_ok.2 ⟨_, h₂, bind_eq_ok.2 ⟨_, h₃, bind_eq_ok.2 ⟨_, h₄,
      bind_eq_ok.2 ⟨_, h₅, bind_eq_ok.2 ⟨_, h₆, ?_⟩⟩⟩⟩⟩⟩
    dsimp only
    rcases hyears with hyears | ⟨rfl, hyears⟩
    · rw [hyears]
      rfl
    · rw [← hyears]
      rfl

/-- The pattern that is read from a text is the one that its fields denote. -/
theorem denotedBy_of_ofChars {cs : List Char} {p : Pattern} (h : ofChars cs = .ok p) :
    p.DenotedBy cs := by
  obtain ⟨c₁, c₂, c₃, c₄, c₅, c₆, h₁, h₂, h₃, h₄, h₅, h₆, hyears⟩ := ofChars_eq_ok_iff.1 h
  refine ⟨c₁, c₂, c₃, c₄, c₅, c₆, (readValues_eq_ok h₁).1, (readValues_eq_ok h₂).1,
    (readValues_eq_ok h₃).1, (readValues_eq_ok h₄).1, (readValues_eq_ok h₅).1,
    (readValues_eq_ok h₆).1, ?_⟩
  rcases hyears with hyears | ⟨hend, hyears⟩
  · exact .inl (readValues_eq_ok hyears).1
  · exact .inr ⟨hend, fun y => by rw [hyears, mem_interval]; rfl⟩

/-- The pattern of a text has values of each unit. -/
theorem wellFormed_of_ofChars {cs : List Char} {p : Pattern} (h : ofChars cs = .ok p) :
    p.WellFormed := by
  obtain ⟨c₁, c₂, c₃, c₄, c₅, c₆, h₁, h₂, h₃, h₄, h₅, h₆, hyears⟩ := ofChars_eq_ok_iff.1 h
  refine ⟨(readValues_eq_ok h₁).2, (readValues_eq_ok h₂).2, (readValues_eq_ok h₃).2,
    (readValues_eq_ok h₄).2, (readValues_eq_ok h₅).2, (readValues_eq_ok h₆).2, ?_⟩
  rcases hyears with hyears | ⟨-, hyears⟩
  -- The years are read, or they are all of them.
  · exact (readValues_eq_ok hyears).2
  · exact hyears ▸ IsField.interval .year

end Pattern

end FlowCadence.Cron
