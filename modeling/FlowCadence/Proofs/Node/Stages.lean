import FlowCadence.Node.Busy
import FlowCadence.Proofs.Node.Slot
/-! # Changes stage by stage

A change of the catalog goes through stages: the catalog takes it in, the node acts on it,
and then the catalog may have to be cleared and others told.  Something else may be under
way at the same time, and its stages come in between.

What such a run comes to is decided by what happens on the way.  Up to the first thing that
goes amiss the state is sound, and from there on it is doomed (`Course`).

## Key results

* `Course.right_iff`: a run comes out right exactly when nothing goes amiss in it
* `Changes.step`, `Reacts.step`, `Closes.step`: the stages of a change
* `step_pair`: the moves of a node with two activities under way at most -/

namespace FlowCadence.Node

variable {s : Setup} {r : Replies} {n : Node} {uri : String} {new : Option Spec}

/-! ### Runs -/

/-- What goes amiss in the course of a run decides how the run comes out. -/
structure Course (s : Setup) (Turns : Turn → Prop) (Amiss Sound Doomed Right : Busy → Prop) :
    Prop where
  keeps : ∀ b turn, Turns turn → Sound b → ¬ Amiss b →
    Sound (b.step { s with replies := turn.replies } turn.move)
  fails : ∀ b, Sound b → Amiss b → Doomed b
  stays : ∀ b turn, Turns turn → Doomed b →
    Doomed (b.step { s with replies := turn.replies } turn.move)
  right : ∀ b, b.underway = [] → Sound b → Right b ∧ ¬ Amiss b
  wrong : ∀ b, b.underway = [] → Doomed b → ¬ Right b

namespace Course

variable {Turns : Turn → Prop} {Amiss Sound Doomed Right : Busy → Prop}

/-- What is doomed is wrong when nothing is left to do. -/
theorem wrong_of_doomed (h : Course s Turns Amiss Sound Doomed Right) {turns : List Turn}
    (hturns : ∀ turn ∈ turns, Turns turn) {b : Busy} (hb : Doomed b)
    (hdone : (b.run s turns).underway = []) : ¬ Right (b.run s turns) := by
  induction turns generalizing b with
  | nil => exact h.wrong b hdone hb
  | cons turn turns ih =>
    have hnext := h.stays b turn (hturns turn List.mem_cons_self) hb
    exact ih (fun t ht => hturns t (List.mem_cons_of_mem _ ht)) hnext hdone

/-- From a sound state on, a run comes out right unless something goes amiss. -/
theorem right_iff (h : Course s Turns Amiss Sound Doomed Right) {turns : List Turn}
    (hturns : ∀ turn ∈ turns, Turns turn) {b : Busy} (hb : Sound b)
    (hdone : (b.run s turns).underway = []) :
    Right (b.run s turns) ↔ ∀ k, ¬ Amiss (b.run s (turns.take k)) := by
  induction turns generalizing b with
  -- No turn is left, so what the run came to is what it started from.
  | nil =>
    obtain ⟨hright, hno⟩ := h.right b hdone hb
    refine iff_of_true hright fun k => ?_
    rw [List.take_nil]
    exact hno
  | cons turn turns ih =>
    -- The first thing amiss decides; without one the state stays sound for the rest of the run.
    by_cases hamiss : Amiss b
    · have hwrong := h.wrong_of_doomed hturns (h.fails b hb hamiss) hdone
      exact iff_of_false hwrong fun hno => hno 0 hamiss
    · have hnext := h.keeps b turn (hturns turn List.mem_cons_self) hb hamiss
      have hrest := ih (fun t ht => hturns t (List.mem_cons_of_mem _ ht)) hnext hdone
      constructor
      · intro hright k
        cases k with
        | zero => exact hamiss
        | succ k => exact hrest.1 hright k
      · intro hno
        exact hrest.2 fun k => hno (k + 1)

end Course

/-- The turn does the next stage of an activity, on an engine that serves every call and with
    a catalog that answers with what the node's own holds. -/
structure Turn.Advances (turn : Turn) : Prop where
  engine : turn.replies.EngineServes
  catalog : turn.replies.CatalogServes
  stage : ∃ place, turn.move = .advance place

/-- Stages of the activities at these places, with collaborators that never fail. -/
def stagesAt (places : List Nat) : List Turn :=
  places.map fun place => ⟨.reliable, .advance place⟩

/-- Such turns advance activities. -/
theorem advances_stagesAt (places : List Nat) : ∀ turn ∈ stagesAt places, turn.Advances := by
  intro turn hturn
  obtain ⟨place, -, rfl⟩ := List.mem_map.1 hturn
  exact ⟨Replies.reliable_engineServes, Replies.reliable_catalogServes, place, rfl⟩

/-- No stage makes the node start or cease to lead. -/
theorem active_advance (b : Busy) (place : Nat) :
    (b.step s (.advance place)).node.active = b.node.active := by
  rw [Busy.step]
  split
  · rfl
  · exact active_activity_step s _ b.node

/-- With two activities under way at most, a move does nothing, or it advances one of them. -/
theorem step_pair {b : Busy} {p c : Option Activity} (hb : b.underway = p.toList ++ c.toList)
    (place : Nat) :
    b.step s (.advance place) = b ∨
    (∃ a ∈ p, b.step s (.advance place) =
      ⟨(a.step s b.node).1, (a.step s b.node).2.toList ++ c.toList⟩) ∨
    ∃ a ∈ c, b.step s (.advance place) =
      ⟨(a.step s b.node).1, p.toList ++ (a.step s b.node).2.toList⟩ := by
  -- A place is that of the first activity or of the second, or there is none at it.
  rw [Busy.step, hb]
  cases p with
  | none =>
    cases c with
    | none => simp
    | some a =>
      cases place with
      | zero => simp
      | succ place => simp
  | some a =>
    cases c with
    | none =>
      cases place with
      | zero => simp
      | succ place => simp
    | some c =>
      cases place with
      | zero => simp
      | succ place =>
        cases place with
        | zero => simp
        | succ place => simp

/-! ### The stages of a change -/

/-- A change of what the catalog holds under a uri, and what it holds then: a flow whose
    schedule can be used, or nothing. -/
inductive Changes (s : Setup) (uri : String) : Option Spec → Activity → Prop where
  | put {f : Flow} {sch : Cron.Schedule} (huri : f.uri.text = uri) (hsch : s.Schedules f sch) :
    Changes s uri (some (.flow f)) (.put (.flow f))
  | delete : Changes s uri none (.delete uri)

/-- The node is to act on a change that the catalog has taken in. -/
inductive Reacts (s : Setup) (uri : String) : Option Spec → Activity → Prop where
  | added {f : Flow} {sch : Cron.Schedule} (huri : f.uri.text = uri) (hsch : s.Schedules f sch)
    (others : List String) : Reacts s uri (some (.flow f)) (.react (.added (.flow f)) others)
  | updated {f : Flow} {sch : Cron.Schedule} (huri : f.uri.text = uri) (hsch : s.Schedules f sch)
    (others : List String) : Reacts s uri (some (.flow f)) (.react (.updated (.flow f)) others)
  | deleted (version : String) (others : List String) :
    Reacts s uri none (.react (.deleted uri version) others)

/-- The node has acted on a change, and what remains is to clear up and to tell others. -/
inductive Closes (uri : String) : Option Spec → Activity → Prop where
  | clear (version : String) (others : List String) : Closes uri none (.clear uri version others)
  | tell {new : Option Spec} (change : Catalog.Change) (others : List String) :
    Closes uri new (.tell change others)

/-- When others are to be told, nothing else is left to do. -/
theorem closes_tell (change : Catalog.Change) (others : List String) :
    ∀ a ∈ some (Activity.tell change others), Closes uri new a := by
  intro a ha
  cases ha
  exact .tell change others

/-- A change keeps its spec under the uri that it is about. -/
theorem Changes.keyed {a : Activity} (h : Changes s uri new a) (spec : Spec)
    (hspec : new = some spec) : spec.uri = uri := by
  cases h with
  | put huri hsch =>
    cases hspec
    exact huri
  | delete => cases hspec

/-- What a stage writes is the same for all engines that serve every call. -/
theorem slot_step_of_replies (hr : r.EngineServes) (a : Activity) (n : Node) (uri : String) :
    (a.step { s with replies := r } n).1.slot uri = written s uri (a.write? s n) (n.slot uri) :=
  slot_step (s := { s with replies := r }) hr a n uri

/-- The catalog takes a flow in before the node hears of it. -/
theorem step_put {f : Flow} {sch : Cron.Schedule} (huri : f.uri.text = uri)
    (hsch : s.Schedules f sch) (n : Node) :
    (Activity.step { s with replies := r } (.put (.flow f)) n).1.catalog.get? uri =
        some (.flow f) ∧
      (Activity.step { s with replies := r } (.put (.flow f)) n).1.slot uri = n.slot uri ∧
      ∃ b, (Activity.step { s with replies := r } (.put (.flow f)) n).2 = some b ∧
        Reacts s uri (some (.flow f)) b := by
  refine ⟨?_, rfl, _, rfl, ?_⟩
  · show ((n.catalog.put (.flow f)).1).get? uri = some (.flow f)
    rw [Catalog.getElem?_put]
    exact if_pos huri
  · -- It is an update if another version was there.
    show Reacts s uri _ (.react (if n.catalog.specs.contains f.uri.text then
      .updated (.flow f) else .added (.flow f)) n.catalog.listeners)
    split
    · exact .updated huri hsch _
    · exact .added huri hsch _

/-- The catalog lets a uri go before the node hears of it, and the node hears of it only if
    there was something to let go. -/
theorem step_delete (hkeyed : ∀ spec, n.catalog.get? uri = some spec → spec.uri = uri) :
    (Activity.step { s with replies := r } (.delete uri) n).1 = n.dropped uri ∧
      (Activity.step { s with replies := r } (.delete uri) n).2 =
        (n.catalog.get? uri).map fun spec =>
          .react (.deleted uri spec.version) n.catalog.listeners := by
  refine ⟨rfl, ?_⟩
  -- The spec names the uri under which it is kept, so that is what listeners hear of.
  cases hfound : n.catalog.get? uri with
  | none => simp [Activity.step, Catalog.delete, hfound]
  | some spec => simp [Activity.step, Catalog.delete, hfound, Catalog.remove, hkeyed spec hfound]

/-- The catalog takes a change in before the node hears of it.  It does not hear of the
    deletion of nothing. -/
theorem Changes.step {a : Activity} (h : Changes s uri new a)
    (hkeyed : ∀ spec, n.catalog.get? uri = some spec → spec.uri = uri) :
    (a.step { s with replies := r } n).1.catalog.get? uri = new ∧
      (a.step { s with replies := r } n).1.slot uri = n.slot uri ∧
      ((∃ b, (a.step { s with replies := r } n).2 = some b ∧ Reacts s uri new b) ∨
        ((a.step { s with replies := r } n).2 = none ∧ n.catalog.get? uri = new)) := by
  cases h with
  | put huri hsch =>
    obtain ⟨hcat, hslot, hrest⟩ := step_put (s := s) (r := r) huri hsch n
    exact ⟨hcat, hslot, .inl hrest⟩
  | delete =>
    obtain ⟨hnode, hrest⟩ := step_delete (s := s) (r := r) hkeyed
    rw [hnode, hrest]
    -- The catalog is empty under the uri, and the node hears of it only if it was not before.
    refine ⟨get?_dropped n uri, rfl, ?_⟩
    cases hfound : n.catalog.get? uri with
    | none => exact .inr ⟨rfl, rfl⟩
    | some spec => exact .inl ⟨_, rfl, .deleted _ _⟩

/-- Once a node that does its work itself has acted on a change, registry and engine hold what
    follows from it. -/
theorem Reacts.step {a : Activity} (h : Reacts s uri new a) (hr : r.EngineServes)
    (haside : n.aside s = false) :
    (a.step { s with replies := r } n).1.catalog = n.catalog ∧
      (a.step { s with replies := r } n).1.slot uri = settled s new ∧
      ∀ b ∈ (a.step { s with replies := r } n).2, Closes uri new b := by
  have hslot := slot_step_of_replies (s := s) hr a n uri
  cases h with
  | @added f sch huri hsch others =>
    refine ⟨by simp [Activity.step], ?_, ?_⟩
    · rw [hslot]
      simpa [Activity.write?, haside, written, Write.apply, Spec.uri, huri] using
        reconciled_of_schedules hsch _
    · exact closes_tell _ others
  | @updated f sch huri hsch others =>
    have hupdate := update_of_here (s := { s with replies := r }) haside f
    refine ⟨by simp [Activity.step, hupdate], ?_, ?_⟩
    · rw [hslot]
      simpa [Activity.write?, haside, written, Write.apply, Spec.flow?, huri] using
        reconciled_of_schedules hsch _
    · exact closes_tell _ others
  | deleted version others =>
    have hdelete : n.delete { s with replies := r } uri version =
        n.unschedule { s with replies := r } uri := by
      rw [delete, if_neg]
      exact Bool.not_eq_true _ ▸ haside
    refine ⟨by simp [Activity.step, hdelete], ?_, ?_⟩
    · rw [hslot]
      simp [Activity.write?, haside, written, Write.apply, settled, entry]
    · intro b hb
      simp only [Activity.step, Option.mem_def, Option.some.injEq] at hb
      subst hb
      split
      · exact .tell _ _
      · exact .clear _ _

/-- What remains then changes nothing more under the uri. -/
theorem Closes.step {a : Activity} (h : Closes uri new a) (hr : r.EngineServes)
    (hcat : n.catalog.get? uri = new) :
    (a.step { s with replies := r } n).1.catalog.get? uri = new ∧
      (a.step { s with replies := r } n).1.slot uri = n.slot uri ∧
      ∀ b ∈ (a.step { s with replies := r } n).2, Closes uri new b := by
  have hslot := slot_step_of_replies (s := s) hr a n uri
  refine ⟨?_, ?_, ?_⟩
  · cases h with
    | clear version others =>
      rw [Activity.step]
      split
      · simp [Catalog.getElem?_remove]
      · exact hcat
    | tell change others =>
      obtain ⟨trace, heq⟩ := tell_eq change others n
      rw [Activity.step, heq]
      exact hcat
  · cases h <;> exact hslot
  · cases h with
    | clear version others =>
      intro b hb
      rw [Activity.step] at hb
      split at hb
      · cases hb
        exact .tell _ _
      · cases hb
        exact .tell _ _
    | tell change others =>
      intro b hb
      cases hb

end FlowCadence.Node
