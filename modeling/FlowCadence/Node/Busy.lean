import FlowCadence.Node.Activity
/-! # Busy nodes

A node serves many callers at once.  What one of them asks for may take several
stages, and between two stages the node may turn to another caller.  A busy node is
a node with the activities that are under way; a move takes up a command or does
the next stage of an activity.  How the collaborators answer may change from one
move to the next.

A command that is carried out without a break is a run (`Busy.exists_run_obey`), so
whatever holds after every run holds after every sequence of commands. -/

namespace FlowCadence.Node

/-- What is done about a command at once, and what remains to be done. -/
def Command.begin (s : Setup) (n : Node) : Command → Node × Option Activity
  | .lead active => (n.lead s active, none)
  | .change c => (n, some (.react c []))
  | .notice m => (n, some (.notice m))
  | .schedule config listener => ((n.schedule s config listener).1, none)
  | .put spec => (n, some (.put spec))
  | .delete uri => (n, some (.delete uri))

/-- A node with the activities that are under way. -/
structure Busy where
  node : Node
  underway : List Activity
  deriving DecidableEq

/-- What a busy node can do next. -/
inductive Move where
  /-- A command is taken up. -/
  | accept (c : Command)
  /-- The activity at this place does its next stage. -/
  | advance (place : Nat)
  deriving DecidableEq

/-- A move, and how the collaborators answer while it is made. -/
structure Turn where
  replies : Replies
  move : Move

namespace Busy

/-- A node at its start, with nothing under way. -/
def start : Busy := ⟨.initial, []⟩

/-- The busy node after a move. -/
def step (s : Setup) (b : Busy) : Move → Busy
  | .accept c =>
    let (n, rest) := c.begin s b.node
    ⟨n, b.underway ++ rest.toList⟩
  | .advance place =>
    match b.underway[place]? with
    | none => b
    | some a =>
      let (n, rest) := a.step s b.node
      ⟨n, b.underway.take place ++ rest.toList ++ b.underway.drop (place + 1)⟩

/-- The busy node after turns. -/
def run (s : Setup) (b : Busy) (turns : List Turn) : Busy :=
  turns.foldl (fun b turn => b.step { s with replies := turn.replies } turn.move) b

end Busy

/-- A node can be found in this state, once it has been started. -/
def Reachable (s : Setup) (n : Node) : Prop := ∃ turns, (Busy.start.run s turns).node = n

namespace Busy

/-- What every move keeps, every run keeps. -/
theorem run_keeps {s : Setup} {P : Busy → Prop}
    (hstep : ∀ replies b move, P b → P (b.step { s with replies } move))
    {b : Busy} (hb : P b) (turns : List Turn) : P (b.run s turns) :=
  List.foldlRecOn turns _ hb fun _ h turn _ => hstep turn.replies _ turn.move h

/-- As long as nothing else is under way, an activity is done by moves of its own. -/
theorem exists_run_performWithin (s : Setup) {fuel : Nat} {a : Activity} (h : a.rank ≤ fuel)
    (n : Node) : ∃ turns, run s ⟨n, [a]⟩ turns = ⟨a.performWithin s id fuel n, []⟩ := by
  induction fuel generalizing a n with
  | zero => cases a <;> simp [Activity.rank] at h
  | succ fuel ih =>
    have hstep : step s ⟨n, [a]⟩ (.advance 0) = ⟨(a.step s n).1, (a.step s n).2.toList⟩ := by
      simp [step]
    cases hm : a.step s n with
    | mk m rest =>
      rw [hm] at hstep
      cases rest with
      | none =>
        refine ⟨[⟨s.replies, .advance 0⟩], ?_⟩
        rw [Activity.performWithin_of_none hm]
        exact hstep
      | some b =>
        have hrank := Activity.rank_step hm
        obtain ⟨turns, hturns⟩ := ih (show b.rank ≤ fuel by omega) m
        refine ⟨⟨s.replies, .advance 0⟩ :: turns, ?_⟩
        have hrun : run s ⟨n, [a]⟩ (⟨s.replies, .advance 0⟩ :: turns) = run s ⟨m, [b]⟩ turns :=
          congrArg (run s · turns) hstep
        rw [hrun, hturns, Activity.performWithin_of_some hm]

/-- A command that is carried out without a break is a run. -/
theorem exists_run_obey (s : Setup) (n : Node) (c : Command) :
    ∃ turns, run s ⟨n, []⟩ turns = ⟨n.obey s c, []⟩ := by
  have hactivity (a : Activity) (ha : c.begin s n = (n, some a)) :
      ∃ turns, run s ⟨n, []⟩ turns = ⟨a.perform s n, []⟩ := by
    obtain ⟨turns, hturns⟩ := exists_run_performWithin s (Nat.le_refl a.rank) n
    refine ⟨⟨s.replies, .accept c⟩ :: turns, ?_⟩
    have hrun : run s ⟨n, []⟩ (⟨s.replies, .accept c⟩ :: turns) = run s ⟨n, [a]⟩ turns := by
      simp [run, step, ha]
    rw [hrun]
    exact hturns
  cases c with
  | lead active => exact ⟨[⟨s.replies, .accept (.lead active)⟩], rfl⟩
  | schedule config listener => exact ⟨[⟨s.replies, .accept (.schedule config listener)⟩], rfl⟩
  | change c => exact hactivity _ rfl
  | notice m => exact hactivity _ rfl
  | put spec => exact hactivity _ rfl
  | delete uri => exact hactivity _ rfl

end Busy

end FlowCadence.Node
