import FlowCadence.Execution.Deeds
/-! # What the tracker makes of executions

The tracker keeps one entry for each job, and the deeds that concern the job come in any
order.  As long as executions of one job do not overlap, the entry tells exactly what has
been done to the job since its last execution began: while that is under way, whether it
was asked to stop and whether it is to be forgotten; and from its end until the next one
begins, the state that it has ended in, or nothing if it was forgotten.

## Key results

* `record_of_underway`: the entry of an execution that is under way
* `stateOf_ne_running`: no entry runs that is not under way
* `record_of_finished`: the entry after an execution has finished
* `outcomes_tracked`: what is answered, and what can be read from the entry -/

namespace FlowCadence.Execution

variable {name : String} {d : Deed} {past : List Deed}

/-- The state that an execution under way ends in: a request to stop counts more than
    its result. -/
def outcome (name : String) (succeeded : Bool) (past : List Deed) : State :=
  if .interrupt name ∈ sinceBegin name past then .interrupted
  else if succeeded then .completed else .failed

/-- No execution ends by running. -/
theorem outcome_ne_running (name : String) (succeeded : Bool) (past : List Deed) :
    outcome name succeeded past ≠ .running := by
  rw [outcome]
  split
  · decide
  · cases succeeded <;> decide

/-! ### The deeds since the last beginning -/

/-- A beginning leaves nothing behind it yet. -/
theorem sinceBegin_begin (name : String) (past : List Deed) :
    sinceBegin name (.begin name :: past) = [] := by
  simp [sinceBegin]

/-- Any other deed joins those since the last beginning. -/
theorem sinceBegin_cons (h : d ≠ .begin name) :
    sinceBegin name (d :: past) = d :: sinceBegin name past := by
  simp [sinceBegin, h]

/-- A deed that concerns another job is no beginning, no end and no request. -/
theorem underway_cons_of_ne (h : d.name ≠ name) :
    Underway name (d :: past) ↔ Underway name past := by
  have hbegin : d ≠ .begin name := fun heq => h (congrArg Deed.name heq)
  have hfinish (succeeded : Bool) : d ≠ .finish name succeeded :=
    fun heq => h (congrArg Deed.name heq)
  simp [underway_cons_iff, hbegin, hfinish]

/-- A deed to another job does not count among those of this one. -/
theorem mem_sinceBegin_cons_of_ne (h : d.name ≠ name) {e : Deed} (he : e.name = name) :
    e ∈ sinceBegin name (d :: past) ↔ e ∈ sinceBegin name past := by
  have hbegin : d ≠ .begin name := fun heq => h (congrArg Deed.name heq)
  have hne : e ≠ d := fun heq => h (heq ▸ he)
  simp [sinceBegin_cons hbegin, hne]

/-- What has finished is not under way until it begins again. -/
theorem not_underway_of_finished {later : List Deed} (h : .begin name ∉ later) (succeeded : Bool)
    (past : List Deed) : ¬ Underway name (later ++ .finish name succeeded :: past) := by
  induction later with
  | nil => simp [underway_cons_iff]
  | cons d later ih =>
    obtain ⟨hd, hlater⟩ := List.ne_and_not_mem_of_not_mem_cons h
    rw [List.cons_append, underway_cons_iff]
    rintro (heq | ⟨-, hunderway⟩)
    · exact hd heq.symm
    · exact ih hlater hunderway

/-! ### The entry of a job -/

/-- While an execution is under way, its entry tells what has been asked of it. -/
theorem record_of_underway (h : Proper past) (hunderway : Underway name past) :
    (Tracker.after past).records[name]? =
      some ⟨.running, decide (.interrupt name ∈ sinceBegin name past),
        decide (.forget name ∈ sinceBegin name past)⟩ := by
  -- The deeds are taken off from the last one on.
  induction past with
  | nil => exact absurd hunderway (not_underway_nil name)
  | cons d past ih =>
    -- A beginning makes the entry, requests write to it, and deeds to other jobs pass by.
    by_cases hd : d.name = name
    · cases d with
      | begin other =>
        obtain rfl : other = name := hd
        refine (Tracker.getElem?_begin _ other other).trans ?_
        simp [sinceBegin_begin]
      | finish other succeeded =>
        obtain rfl : other = name := hd
        exact absurd hunderway (not_underway_of_finished List.not_mem_nil succeeded past)
      | interrupt other =>
        obtain rfl : other = name := hd
        have hbefore : Underway other past := by simpa [underway_cons_iff] using hunderway
        refine (Tracker.getElem?_interrupt _ other other).trans ?_
        simp [ih h.2 hbefore, sinceBegin_cons]
      | forget other =>
        obtain rfl : other = name := hd
        have hbefore : Underway other past := by simpa [underway_cons_iff] using hunderway
        refine (Tracker.getElem?_forget _ other other).trans ?_
        simp [ih h.2 hbefore, sinceBegin_cons]
    · have hbefore := ih h.2 ((underway_cons_of_ne hd).1 hunderway)
      have hrequests (e : Deed) (he : e.name = name) :
          e ∈ sinceBegin name (d :: past) ↔ e ∈ sinceBegin name past :=
        mem_sinceBegin_cons_of_ne hd he
      rw [Tracker.after, Tracker.getElem?_act_of_ne _ hd, hbefore]
      simp only [hrequests (.interrupt name) rfl, hrequests (.forget name) rfl]

/-- When an execution finishes, it is remembered in the state that it ends in, or not at all. -/
theorem act_finish (h : Proper past) (hunderway : Underway name past) (succeeded : Bool) :
    let acted := (Tracker.after past).act (.finish name succeeded)
    acted.2 = .ended (outcome name succeeded past) none ∧
      acted.1.stateOf name =
        if .forget name ∈ sinceBegin name past then none
        else some (outcome name succeeded past) := by
  intro acted
  have hrunning := record_of_underway h hunderway
  simp only [acted, Tracker.act, Tracker.finish_of_running hrunning, decide_eq_true_eq, outcome]
  refine ⟨trivial, ?_⟩
  rw [Tracker.stateOf]
  split
  · rw [Table.lookUp_erase, if_pos rfl, Option.map_none]
  · rw [Table.lookUp_insert, if_pos rfl, Option.map_some]

/-- No entry runs whose execution is not under way. -/
theorem stateOf_ne_running (h : Proper past) (hidle : ¬ Underway name past) :
    (Tracker.after past).stateOf name ≠ some .running := by
  induction past with
  | nil => simp [Tracker.after, Tracker.stateOf, Tracker.empty]
  | cons d past ih =>
    by_cases hd : d.name = name
    · cases d with
      | begin other =>
        obtain rfl : other = name := hd
        exact absurd (underway_cons_iff.2 (.inl rfl)) hidle
      | finish other succeeded =>
        obtain rfl : other = name := hd
        rw [Tracker.after, (act_finish h.2 h.1 succeeded).2]
        split
        · exact (Option.some_ne_none _).symm
        · exact fun heq => outcome_ne_running _ _ _ (Option.some.inj heq)
      | interrupt other =>
        obtain rfl : other = name := hd
        have hbefore : ¬ Underway other past := by simpa [underway_cons_iff] using hidle
        exact (Tracker.stateOf_interrupt _ other other).symm ▸ ih h.2 hbefore
      | forget other =>
        obtain rfl : other = name := hd
        have hbefore : ¬ Underway other past := by simpa [underway_cons_iff] using hidle
        have hforget := Tracker.stateOf_forget (Tracker.after past) other
        rw [Tracker.isRunning, decide_eq_false (ih h.2 hbefore)] at hforget
        exact hforget ▸ (Option.some_ne_none _).symm
    · rw [Tracker.after, Tracker.stateOf_act_of_ne _ hd]
      exact ih h.2 fun hbefore => hidle ((underway_cons_of_ne hd).2 hbefore)

/-- From its end until the next one begins, an execution is remembered in the state that it
    has ended in, unless it was forgotten. -/
theorem stateOf_of_finished {later : List Deed} (hbegin : .begin name ∉ later) {succeeded : Bool}
    (h : Proper (later ++ .finish name succeeded :: past)) :
    (Tracker.after (later ++ .finish name succeeded :: past)).stateOf name =
      if .forget name ∈ sinceBegin name (later ++ .finish name succeeded :: past) then none
      else some (outcome name succeeded past) := by
  induction later with
  | nil =>
    rw [List.nil_append, sinceBegin_cons (by simp), Tracker.after,
      (act_finish h.2 h.1 succeeded).2]
    simp
  | cons d later ih =>
    obtain ⟨hd, hlater⟩ := List.ne_and_not_mem_of_not_mem_cons hbegin
    have hidle := not_underway_of_finished hlater succeeded past
    have hbefore := ih hlater h.2
    rw [List.cons_append] at h ⊢
    generalize later ++ .finish name succeeded :: past = all at h hidle hbefore ⊢
    rw [sinceBegin_cons hd.symm]
    by_cases hname : d.name = name
    · cases d with
      | begin other =>
        obtain rfl : other = name := hname
        exact absurd rfl hd
      | finish other again =>
        -- Only what is under way finishes, and nothing has begun since.
        obtain rfl : other = name := hname
        exact absurd h.1 hidle
      | interrupt other =>
        obtain rfl : other = name := hname
        refine (Tracker.stateOf_interrupt _ other other).trans ?_
        simpa using hbefore
      | forget other =>
        obtain rfl : other = name := hname
        have hforget := Tracker.stateOf_forget (Tracker.after all) other
        rw [Tracker.isRunning, decide_eq_false (stateOf_ne_running h.2 hidle)] at hforget
        refine hforget.trans ?_
        simp
    · have hne : Deed.forget name ≠ d := fun heq => hname (heq ▸ rfl)
      rw [Tracker.after, Tracker.stateOf_act_of_ne _ hname, hbefore]
      simp [hne]

/-! ### Every run -/

/-- Let deeds be done to a new tracker such that executions of one job do not overlap and
    only what has begun finishes.  An execution that finishes is answered the state that its
    requests and its result call for, and never a fault; until the next one begins, the entry
    of the job tells that state, and it is gone exactly if the job was forgotten since the
    execution began.  A request to stop is heard exactly while an execution is under way.  No
    deed touches the entry of another job. -/
theorem outcomes_tracked (h : Proper past) (name : String) :
    (Underway name past → ∀ succeeded,
      let state : State :=
        if .interrupt name ∈ sinceBegin name past then .interrupted
        else if succeeded then .completed else .failed
      ((Tracker.after past).act (.finish name succeeded)).2 = .ended state none ∧
      ∀ later, .begin name ∉ later → Proper (later ++ .finish name succeeded :: past) →
        let all := later ++ .finish name succeeded :: past
        ((Tracker.after all).records[name]? = none ↔ .forget name ∈ sinceBegin name all) ∧
          ((Tracker.after all).records[name]? ≠ none →
            (Tracker.after all).stateOf name = some state)) ∧
    (((Tracker.after past).act (.interrupt name)).2 = .heard true ↔ Underway name past) ∧
    ∀ d : Deed, d.name ≠ name →
      (Tracker.after (d :: past)).records[name]? = (Tracker.after past).records[name]? := by
  refine ⟨fun hunderway succeeded => ⟨(act_finish h hunderway succeeded).1, ?_⟩, ?_, ?_⟩
  · intro later hbegin hproper all
    have hstate := stateOf_of_finished hbegin hproper
    have hentry : (Tracker.after all).records[name]? = none ↔
        (Tracker.after all).stateOf name = none := by
      rw [Tracker.stateOf, Option.map_eq_none_iff]
    by_cases hforgotten : .forget name ∈ sinceBegin name all
    · rw [if_pos hforgotten] at hstate
      have hnone := hentry.2 hstate
      exact ⟨iff_of_true hnone hforgotten, fun hsome => absurd hnone hsome⟩
    · rw [if_neg hforgotten] at hstate
      refine ⟨iff_of_false (fun hnone => ?_) hforgotten, fun _ => hstate⟩
      rw [hentry.1 hnone] at hstate
      cases hstate
  · by_cases hunderway : Underway name past
    · simp [Tracker.act, Tracker.isRunning, Tracker.stateOf, record_of_underway h hunderway,
        hunderway]
    · simp [Tracker.act, Tracker.isRunning, stateOf_ne_running h hunderway, hunderway]
  · exact fun d hd => Tracker.getElem?_act_of_ne _ hd

/-- Two jobs run side by side.  The first is asked to stop; the second is forgotten while it
    runs, and it goes when it finishes. -/
theorem outcomes_tracked_twoJobs :
    let past : List Deed :=
      [.interrupt "a", .forget "b", .begin "a", .finish "a" true, .begin "b", .begin "a"]
    let all : List Deed := .interrupt "a" :: .finish "b" true :: .finish "a" true :: past
    Proper all ∧ Underway "a" past ∧ Underway "b" past ∧
      ((Tracker.after past).act (.finish "a" true)).2 = .ended .interrupted none ∧
      (Tracker.after all).stateOf "a" = some .interrupted ∧
      (Tracker.after all).records["b"]? = none := by
  intro past all
  have hpast : Proper past := by decide
  have hall : Proper all := by decide
  obtain ⟨hends, -⟩ := outcomes_tracked hpast "a"
  obtain ⟨hanswer, hafterwards⟩ := hends (by decide) true
  obtain ⟨hforgotten, hkept⟩ := hafterwards [.interrupt "a", .finish "b" true] (by decide) hall
  have hremembered : (Tracker.after all).records["a"]? ≠ none :=
    fun hnone => absurd (hforgotten.1 hnone) (by decide)
  -- The second job finishes after the first one.
  have hlater : Proper (.finish "a" true :: past) := by decide
  obtain ⟨hends', -⟩ := outcomes_tracked hlater "b"
  obtain ⟨-, hafterwards'⟩ := hends' (by decide) true
  obtain ⟨hforgotten', -⟩ := hafterwards' [.interrupt "a"] (by decide) hall
  exact ⟨hall, by decide, by decide, hanswer, hkept hremembered, hforgotten'.2 (by decide)⟩

end FlowCadence.Execution
