import FlowCadence.Node.Activity
import FlowCadence.Node.Busy
import FlowCadence.Notice.Channel
/-! # The inbox loop

At every tick a leading node receives what other nodes have sent to the controller,
a bounded number of notices at a time, and handles it in order.  A node on standby
leaves the notices where they are.

The nodes of a cluster send notices through one channel, and each of them has an inbox loop that
reads it while the node leads.  A tick takes several steps: to see whether the node leads, to
receive, and to handle what was received, one notice after another and each stage by stage.
Others may act between any two steps: leadership may change, entries may be pushed, and the node
may turn to other activities.

What loops do goes on record.  With nothing in between, the steps of a tick are what `readInbox`
does (`Reader.exists_steps_readInbox`). -/

/-! ## A tick without a break -/

namespace FlowCadence.Node

/-- How many entries are received at a tick, at most. -/
def inboxLimit : Nat := 32

/-- One tick: what comes out of the inbox is handled by `handle`.  An inbox that
    cannot be read is an alert. -/
def drain {σ : Type} (receive : Nat → σ → σ × Except Fault (List Notice))
    (handle : Notice → Node → Node) (n : Node) (w : σ) : Node × σ :=
  if n.active then
    let n := n.call (.receive inboxLimit)
    match receive inboxLimit w with
    | (w, .ok notices) => (notices.foldl (fun n notice => handle notice n) n, w)
    | (w, .error fault) => (n.alert (.inboxNotRead fault), w)
  else (n, w)

/-- One tick at which every notice is handled without a break. -/
def readInbox {σ : Type} (s : Setup) (receive : Nat → σ → σ × Except Fault (List Notice))
    (n : Node) (w : σ) : Node × σ :=
  drain receive (fun notice n => n.obey s (.notice notice)) n w

end FlowCadence.Node

/-! ## Nodes that read one inbox -/

namespace FlowCadence

/-- The entries that the channel has lost at its near end, from one state of the store to
    another. -/
def Notice.departed (root : String) (k k' : KeyStore) : List KeyStore.Entry :=
  let entries := k.list (channelKey root)
  entries.take (entries.length - (k'.list (channelKey root)).length)

namespace Node

/-- Where an inbox loop stands. -/
inductive Poll where
  /-- Waiting for the next tick. -/
  | resting
  /-- A tick came: about to see whether the node leads. -/
  | waking
  /-- The node was found leading: about to receive. -/
  | asking
  /-- In the middle of a notice, or about to pass on the next one. -/
  | handling (current : Option Activity) (left : List Notice)
  /-- At the end. -/
  | stopped
  deriving DecidableEq

/-- What goes on record about an inbox loop. -/
inductive Poll.Event where
  /-- At a tick the node was found leading, or on standby. -/
  | looked (leads : Bool)
  /-- These entries were received. -/
  | took (entries : List KeyStore.Entry)
  /-- Nothing was received, and these entries are gone from the channel all the same. -/
  | missed (entries : List KeyStore.Entry)
  /-- A notice was passed on to be handled. -/
  | handed (m : Notice)
  deriving DecidableEq

namespace Poll

/-- The loop after a tick came. -/
def wake : Poll → Poll
  | .resting => .waking
  | poll => poll

/-- The loop after it was told to stop. -/
def quit : Poll → Poll
  | .resting => .stopped
  | poll => poll

/-- The notices that were received and are still to be passed on. -/
def left : Poll → List Notice
  | .handling _ left => left
  | .resting | .waking | .asking | .stopped => []

end Poll

/-- A node with its inbox loop. -/
structure Reader where
  setup : Setup
  busy : Busy
  poll : Poll

namespace Reader

/-- The node itself. -/
def node (r : Reader) : Node := r.busy.node

/-- The reader with its loop at another stage, and another state of the node. -/
def goTo (r : Reader) (poll : Poll) (n : Node) : Reader :=
  { r with busy := { r.busy with node := n }, poll }

@[simp] theorem poll_goTo (r : Reader) (poll : Poll) (n : Node) : (r.goTo poll n).poll = poll := rfl

/-- One step of the inbox loop, over a link to the store and with these replies to the node, and
    what goes on record about it. -/
def step (root : String) (link : KeyStore.Link) (replies : Replies) (r : Reader) (k : KeyStore) :
    Reader × KeyStore × List Poll.Event :=
  match r.poll with
  | .waking => (r.goTo (if r.node.active then .asking else .resting) r.node, k,
      [.looked r.node.active])
  | .asking =>
    let n := r.node.call (.receive inboxLimit)
    match Notice.receive link root inboxLimit k with
    | (k', .ok received) =>
      (r.goTo (.handling none received.notices) n, k', [.took (Notice.departed root k k')])
    | (k', .error fault) =>
      (r.goTo .resting (n.alert (.inboxNotRead fault)), k', [.missed (Notice.departed root k k')])
  | .handling none (m :: left) =>
    (r.goTo (.handling (some (.notice m)) left) r.node, k, [.handed m])
  | .handling none [] => (r.goTo .resting r.node, k, [])
  | .handling (some a) left =>
    let (n, rest) := a.step { r.setup with replies } r.node
    (r.goTo (.handling rest left) n, k, [])
  | .resting | .stopped => (r, k, [])

/-- Steps of the inbox loop with nothing in between. -/
def steps (root : String) (link : KeyStore.Link) :
    (fuel : Nat) → Reader → KeyStore → Reader × KeyStore
  | 0, r, k => (r, k)
  | fuel + 1, r, k =>
    let (r, k, _) := r.step root link r.setup.replies k
    steps root link fuel r k

/-- What is received at a tick, without the number of entries that were dropped. -/
def receive (root : String) (link : KeyStore.Link) (limit : Nat) (k : KeyStore) :
    KeyStore × Except Fault (List Notice) :=
  let (k, answer) := Notice.receive link root limit k
  (k, answer.map (·.notices))

variable (root : String) (link : KeyStore.Link)

/-- So many steps are some of them and then the others. -/
theorem steps_add (m n : Nat) (r : Reader) (k : KeyStore) :
    r.steps root link (m + n) k =
      steps root link n (r.steps root link m k).1 (r.steps root link m k).2 := by
  induction m generalizing r k with
  | zero =>
    rw [Nat.zero_add]
    rfl
  | succ m ih =>
    rw [Nat.succ_add]
    exact ih _ _

/-- A notice is handled by steps of the loop. -/
theorem exists_steps_performWithin {fuel : Nat} {a : Activity} (h : a.rank ≤ fuel) {r : Reader}
    {left : List Notice} (hr : r.poll = .handling (some a) left) (k : KeyStore) :
    ∃ count, r.steps root link count k =
      (r.goTo (.handling none left) (a.performWithin r.setup id fuel r.node), k) := by
  induction fuel generalizing a r with
  | zero => cases a <;> simp [Activity.rank] at h
  | succ fuel ih =>
    cases hm : a.step r.setup r.node with
    | mk m rest =>
      have hstep : r.step root link r.setup.replies k =
          (r.goTo (.handling rest left) m, k, []) := by
        simp only [step, hr, hm]
      cases rest with
      | none =>
        refine ⟨1, ?_⟩
        rw [Activity.performWithin_of_none hm, steps, hstep]
        rfl
      | some b =>
        have hrank := Activity.rank_step hm
        obtain ⟨count, hcount⟩ :=
          ih (show b.rank ≤ fuel by omega) (r := r.goTo (.handling (some b) left) m) rfl
        refine ⟨count + 1, ?_⟩
        rw [Activity.performWithin_of_some hm, steps, hstep]
        exact hcount

/-- Notices are handled one after another by steps of the loop, which then rests. -/
theorem exists_steps_handle {left : List Notice} {r : Reader} (hr : r.poll = .handling none left)
    (k : KeyStore) :
    ∃ count, r.steps root link count k =
      (r.goTo .resting (left.foldl (fun n m => n.obey r.setup (.notice m)) r.node), k) := by
  induction left generalizing r with
  | nil =>
    refine ⟨1, ?_⟩
    rw [steps, step, hr]
    rfl
  | cons m left ih =>
    have hbegin : r.step root link r.setup.replies k =
        (r.goTo (.handling (some (.notice m)) left) r.node, k, [.handed m]) := by
      rw [step, hr]
    obtain ⟨first, hfirst⟩ := exists_steps_performWithin root link
      (Nat.le_refl (Activity.notice m).rank)
      (r := r.goTo (.handling (some (.notice m)) left) r.node) rfl k
    obtain ⟨rest, hrest⟩ :=
      ih (r := r.goTo (.handling none left) (r.node.obey r.setup (.notice m))) rfl
    refine ⟨1 + first + rest, ?_⟩
    have hone : r.steps root link 1 k =
        (r.goTo (.handling (some (.notice m)) left) r.node, k) := by
      rw [steps, hbegin]
      rfl
    rw [steps_add, steps_add, hone, hfirst]
    exact hrest

/-- With nothing in between, the steps of a tick are what `readInbox` does. -/
theorem exists_steps_readInbox {r : Reader} (hr : r.poll = .waking) (k : KeyStore) :
    let (n, k') := readInbox r.setup (receive root link) r.node k
    ∃ count, r.steps root link count k = (r.goTo .resting n, k') := by
  have hlook : r.step root link r.setup.replies k =
      (r.goTo (if r.node.active then .asking else .resting) r.node, k,
        [.looked r.node.active]) := by
    rw [step, hr]
  unfold readInbox drain
  cases hactive : r.node.active with
  | false =>
    refine ⟨1, ?_⟩
    rw [steps, hlook, hactive]
    rfl
  | true =>
    have hasking : r.steps root link 1 k = (r.goTo .asking r.node, k) := by
      rw [steps, hlook, hactive]
      rfl
    simp only [if_true, receive]
    cases hreceive : Notice.receive link root inboxLimit k with
    | mk k' answer =>
      cases answer with
      | error fault =>
        refine ⟨1 + 1, ?_⟩
        rw [steps_add, hasking, steps, step]
        simp only [goTo, node, hreceive]
        rfl
      | ok received =>
        obtain ⟨count, hcount⟩ := exists_steps_handle root link
          (r := r.goTo (.handling none received.notices) (r.node.call (.receive inboxLimit))) rfl k'
        refine ⟨1 + 1 + count, ?_⟩
        have hreceived : r.steps root link (1 + 1) k =
            (r.goTo (.handling none received.notices) (r.node.call (.receive inboxLimit)), k') := by
          rw [steps_add, hasking, steps, step]
          simp only [goTo, node, hreceive]
          rfl
        rw [steps_add, hreceived]
        exact hcount

end Reader

/-- The readers of one channel, by their names, the store that holds it, and what went on record
    about their loops. -/
structure Readers (ι : Type) where
  readers : ι → Reader
  store : KeyStore
  log : List (ι × Poll.Event)

namespace Readers

variable {ι : Type}

/-- What can happen next. -/
inductive Move (ι : Type) where
  /-- A tick comes for a reader. -/
  | tick (i : ι)
  /-- A reader is told to stop. -/
  | quit (i : ι)
  /-- The loop of a reader takes a step, over a link to the store and with these replies to the
      node. -/
  | step (i : ι) (link : KeyStore.Link) (replies : Replies)
  /-- The node of a reader does something else, such as to take the lead or to step down. -/
  | work (i : ι) (turn : Turn)
  /-- A notice is sent over a link to the store. -/
  | send (link : KeyStore.Link) (m : Notice)
  /-- Somebody pushes an entry of any bytes to the channel. -/
  | push (entry : KeyStore.Entry)

/-- Nodes at their start, around a store that may hold entries already. -/
def start (crew : ι → Setup) (store : KeyStore) : Readers ι :=
  ⟨fun i => ⟨crew i, .start, .resting⟩, store, []⟩

variable [DecidableEq ι]

/-- The readers with another state of one of them. -/
def put (c : Readers ι) (i : ι) (r : Reader) : Readers ι :=
  { c with readers := fun j => if j = i then r else c.readers j }

/-- The state after a move, with the keys under `root`. -/
def step (root : String) (c : Readers ι) : Move ι → Readers ι
  | .tick i => c.put i { c.readers i with poll := (c.readers i).poll.wake }
  | .quit i => c.put i { c.readers i with poll := (c.readers i).poll.quit }
  | .step i link replies =>
    let (r, store, events) := (c.readers i).step root link replies c.store
    { c.put i r with store, log := c.log ++ events.map (i, ·) }
  | .work i turn =>
    let r := c.readers i
    c.put i { r with busy := r.busy.step { r.setup with replies := turn.replies } turn.move }
  | .send link m => { c with store := (Notice.send link root m c.store).1 }
  | .push entry => { c with store := c.store.append (Notice.channelKey root) entry }

/-- The state after moves. -/
def run (root : String) (c : Readers ι) (moves : List (Move ι)) : Readers ι :=
  moves.foldl (step root) c

end Readers

end Node

end FlowCadence
