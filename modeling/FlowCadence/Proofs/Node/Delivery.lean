import FlowCadence.Node.Polling
/-! # What the inbox delivers

Several loops pop from one channel while others push to it, and leadership comes and goes.  What
a step of a loop can do is a relation between the stages of the loop and what goes on record
(`Poll.Goes`, `Reader.step_goes`).  From it follows that a record falls into rounds, one for each
tick, and the rounds say what was popped, what was taken in and what was passed on.

Every notice that was popped is passed on, except those that were popped together with an entry
that is no text, or whose answer was lost on its way: these are gone.

## Key results

* `Notice.receive_cases`: what receiving takes out of the channel, and what it answers
* `Reader.step_goes`: what a step of a loop does to the channel and to its record
* `Poll.InRounds.goes`: a record that falls into rounds still does so after a step
* `Poll.Event.taken_eq_popped_iff`: what is lost between popping and taking in
* `Readers.inbox_delivers_iff`: what is popped at each tick, and when all of it is passed on
-/

namespace FlowCadence

namespace Notice

/-- The entries that are gone after some were dropped from the near end. -/
theorem departed_of_drop {root : String} {k k' : KeyStore} {n : Nat}
    (h : k'.list (channelKey root) = (k.list (channelKey root)).drop n) :
    departed root k k' = (k.list (channelKey root)).take n := by
  rw [departed, h, List.length_drop, List.take_eq_take_iff]
  omega

/-- Entries that are all texts are taken in with the notices that they hold. -/
theorem notices_ofTexts {entries : List KeyStore.Entry} {texts : List String}
    (h : entries.mapM KeyStore.Entry.text? = some texts) :
    (ofTexts texts).notices = entries.filterMap ofEntry := by
  have htexts : entries.map KeyStore.Entry.text? = texts.map some := mapM_eq_some_iff.1 h
  calc (ofTexts texts).notices
      = (texts.map some).filterMap (·.bind decode) := by
        rw [List.filterMap_map]
        rfl
    _ = entries.filterMap ofEntry := by
        rw [← htexts, List.filterMap_map]
        rfl

/-- Receiving takes the first entries out of the channel.  It answers with the notices among them
    if all of them are texts.  If it fails, then no entry is gone, or the answer was lost on its
    way, or one of the entries is no text. -/
theorem receive_cases (link : KeyStore.Link) (root : String) {limit : Nat} (hlimit : limit ≠ 0)
    (k : KeyStore) :
    ∃ n ≤ limit,
      (receive link root limit k).1.list (channelKey root) = (k.list (channelKey root)).drop n ∧
        let popped := (k.list (channelKey root)).take n
        ((∀ e ∈ popped, e.text? ≠ none) ∧ ∃ received,
            (receive link root limit k).2 = .ok received ∧
              received.notices = popped.filterMap ofEntry) ∨
          (∃ fault, (receive link root limit k).2 = .error fault) ∧
            (popped = [] ∨ (∃ e ∈ popped, e.text? = none) ∨ ∃ reason,
              link.fate (.pop (channelKey root) limit) = .unanswered reason) := by
  unfold receive
  rw [if_neg hlimit]
  cases link with
  | down reason => exact ⟨0, Nat.zero_le _, rfl, .inr ⟨⟨_, rfl⟩, .inl rfl⟩⟩
  | up fate =>
    have hlist := KeyStore.list_pop fate (channelKey root) limit k
    have hanswer := KeyStore.answer_pop fate (channelKey root) limit k
    dsimp only
    cases hs : KeyStore.send fate (.pop (channelKey root) limit) k with
    | mk k' answer =>
      rw [hs] at hlist hanswer
      cases hfate : fate (.pop (channelKey root) limit) with
      | answered =>
        rw [hfate] at hlist hanswer
        subst hanswer
        refine ⟨limit, Nat.le_refl _, ?_⟩
        -- The store has answered; what is left to see is whether the answer can be taken in.
        cases htexts : ((k.list (channelKey root)).take limit).mapM KeyStore.Entry.text? with
        | some texts =>
          simp only [htexts]
          have hsome : ∀ e ∈ (k.list (channelKey root)).take limit, e.text? ≠ none :=
            fun e he hnone => absurd (mapM_eq_none_iff.2 ⟨e, he, hnone⟩) (by simp [htexts])
          exact ⟨hlist, .inl ⟨hsome, _, rfl, notices_ofTexts htexts⟩⟩
        | none =>
          simp only [htexts]
          exact ⟨hlist, .inr ⟨⟨_, rfl⟩, .inr (.inl (mapM_eq_none_iff.1 htexts))⟩⟩
      | refused reason =>
        rw [hfate] at hlist hanswer
        subst hanswer
        exact ⟨0, Nat.zero_le _, hlist, .inr ⟨⟨_, rfl⟩, .inl rfl⟩⟩
      | unanswered reason =>
        rw [hfate] at hlist hanswer
        subst hanswer
        exact ⟨limit, Nat.le_refl _, hlist, .inr ⟨⟨_, rfl⟩, .inr (.inr ⟨reason, hfate⟩)⟩⟩

/-- Sending adds one entry to the far end of the channel, unless the command is refused. -/
theorem list_send (link : KeyStore.Link) (root : String) (m : Notice) (k : KeyStore) :
    (send link root m k).1.list (channelKey root) =
      k.list (channelKey root) ++
        if (link.fate (.push (channelKey root) m.encode)).carries = true
        then [KeyStore.Entry.ofText m.encode] else [] := by
  cases link with
  | down reason => simp [send, KeyStore.Link.fate, KeyStore.Fate.carries]
  | up fate =>
    refine Eq.trans ?_ (KeyStore.list_push fate (channelKey root) m.encode k)
    -- Whatever the store answers, its state is the one that the command left behind.
    rw [send]
    cases KeyStore.send fate (.push (channelKey root) m.encode) k with
    | mk k' answer => cases answer <;> rfl

end Notice

namespace Node

namespace Poll

/-! ### What goes on record -/

namespace Event

/-- The entries that the channel has lost. -/
def gone : Event → List KeyStore.Entry
  | .took entries | .missed entries => entries
  | .looked _ | .handed _ => []

/-- The entries that were received. -/
def received : Event → List KeyStore.Entry
  | .took entries => entries
  | .looked _ | .missed _ | .handed _ => []

/-- The entries that are gone though nothing was received. -/
def missed? : Event → Option (List KeyStore.Entry)
  | .missed entries => some entries
  | .looked _ | .took _ | .handed _ => none

/-- The notice that was passed on to be handled. -/
def handed? : Event → Option Notice
  | .handed m => some m
  | .looked _ | .took _ | .missed _ => none

/-- Passing on receives nothing. -/
theorem received_map_handed (ms : List Notice) :
    (ms.map Event.handed).flatMap received = [] := by
  simp [List.flatMap_map, received]

/-- No more notices are received than leave the channel. -/
theorem length_taken_le (record : List Event) :
    ((record.flatMap received).filterMap Notice.ofEntry).length ≤
      ((record.flatMap gone).filterMap Notice.ofEntry).length := by
  induction record with
  | nil => exact Nat.le_refl _
  | cons event record ih =>
    simp only [List.flatMap_cons, List.filterMap_append, List.length_append]
    have hevent : (event.received.filterMap Notice.ofEntry).length ≤
        (event.gone.filterMap Notice.ofEntry).length := by
      cases event with
      | took _ => exact Nat.le_refl _
      | looked _ | missed _ | handed _ => exact Nat.zero_le _
    omega

/-- All notices that leave the channel are received exactly when none is among the entries that
    are gone though nothing was received. -/
theorem taken_eq_popped_iff (record : List Event) :
    (record.flatMap received).filterMap Notice.ofEntry =
        (record.flatMap gone).filterMap Notice.ofEntry ↔
      ∀ lost ∈ record.filterMap missed?, ∀ e ∈ lost, Notice.ofEntry e = none := by
  induction record with
  | nil => exact iff_of_true rfl nofun
  | cons event record ih =>
    simp only [List.flatMap_cons, List.filterMap_append]
    cases event with
    | looked _ | handed _ => simpa [received, gone, missed?] using ih
    | took entries => simpa [received, gone, missed?] using ih
    | missed lost =>
      have hfewer := length_taken_le record
      have hmissed : (missed lost :: record).filterMap missed? =
          lost :: record.filterMap missed? := rfl
      rw [hmissed, List.forall_mem_cons, ← ih, ← List.filterMap_eq_nil_iff]
      simp only [received, gone, List.filterMap_nil, List.nil_append]
      constructor
      · intro h
        -- What was received behind these entries would have to make up for them.
        have hlength := congrArg List.length h
        rw [List.length_append] at hlength
        have hnil : lost.filterMap Notice.ofEntry = [] := List.length_eq_zero_iff.1 (by omega)
        rw [hnil, List.nil_append] at h
        exact ⟨hnil, h⟩
      · rintro ⟨hnil, h⟩
        rw [hnil, List.nil_append, h]

end Event

/-- What became of a tick. -/
inductive Round where
  /-- The node was on standby. -/
  | standby
  /-- Nothing was received, and these entries are gone. -/
  | failed (lost : List KeyStore.Entry)
  /-- These entries were received. -/
  | served (entries : List KeyStore.Entry)
  deriving DecidableEq

namespace Round

/-- What goes on record at a tick.  What was received is passed on to the last notice before the
    next tick. -/
def record : Round → List Event
  | .standby => [.looked false]
  -- Besides them only the markers of the tick stand in the record, and these drop out.
  | .failed lost => [.looked true, .missed lost]
  | .served entries =>
    .looked true :: .took entries :: (entries.filterMap Notice.ofEntry).map .handed

/-- The entries that the channel loses at a tick. -/
def gone : Round → List KeyStore.Entry
  | .standby => []
  | .failed entries | .served entries => entries

/-- What a tick can come to: not too many entries leave the channel, and those that are received
    are texts. -/
def IsSound (t : Round) : Prop :=
  t.gone.length ≤ inboxLimit ∧ ∀ entries, t = .served entries → ∀ e ∈ entries, e.text? ≠ none

/-- What is passed on at a tick are the notices among the entries that are received at it. -/
theorem handed_record (t : Round) :
    t.record.filterMap Event.handed? =
      (t.record.flatMap Event.received).filterMap Notice.ofEntry := by
  cases t with
  | standby | failed lost => rfl
  | served entries =>
    simp [record, Event.handed?, Event.received, List.filterMap_cons, List.filterMap_map,
      Event.received_map_handed, Function.comp_def]

/-- Over all ticks the same is passed on, in the same order. -/
theorem handed_records (rounds : List Round) :
    (rounds.flatMap record).filterMap Event.handed? =
      ((rounds.flatMap record).flatMap Event.received).filterMap Notice.ofEntry := by
  induction rounds with
  | nil => rfl
  | cons t rounds ih =>
    simp only [List.flatMap_cons, List.filterMap_append, List.flatMap_append, handed_record, ih]

end Round

/-- What is on record about a tick before anything was received at it. -/
def opened : Poll → List Event
  | .asking => [.looked true]
  | .resting | .waking | .handling .. | .stopped => []

/-- Whether a tick came at which nothing was received so far. -/
def pending : Poll → Nat
  | .waking | .asking => 1
  | .resting | .handling .. | .stopped => 0

/-- What a step of a loop can do. -/
inductive Goes : Poll → List Event → Poll → Prop where
  | look (leads : Bool) : Goes .waking [.looked leads] (if leads then .asking else .resting)
  | take {entries : List KeyStore.Entry} (h : entries.length ≤ inboxLimit)
      (htexts : ∀ e ∈ entries, e.text? ≠ none) :
    Goes .asking [.took entries] (.handling none (entries.filterMap Notice.ofEntry))
  | miss {lost : List KeyStore.Entry} (h : lost.length ≤ inboxLimit) :
    Goes .asking [.missed lost] .resting
  | pass (m : Notice) (left : List Notice) :
    Goes (.handling none (m :: left)) [.handed m] (.handling (some (.notice m)) left)
  | work (a : Activity) (rest : Option Activity) (left : List Notice) :
    Goes (.handling (some a) left) [] (.handling rest left)
  | rest : Goes (.handling none []) [] .resting
  | idle (poll : Poll) : Goes poll [] poll

/-- No step ends a loop. -/
theorem Goes.eq_stopped {poll poll' : Poll} {events : List Event} (h : poll.Goes events poll')
    (hstopped : poll' = .stopped) : poll = .stopped := by
  cases h with
  -- From waking it goes to asking or to rest; the other steps end in a state that the rule names.
  | look leads => cases leads <;> cases hstopped
  | take _ _ | miss _ | pass | work | rest => cases hstopped
  | idle => exact hstopped

/-- Nor does a tick. -/
theorem eq_stopped_of_wake {poll : Poll} (h : poll.wake = .stopped) : poll = .stopped := by
  cases poll with
  | resting => cases h
  | waking | asking | handling _ _ | stopped => exact h

/-- The record of a loop falls into rounds, not more of them than ticks came.  The last round may
    be short of the notices that are still to be passed on, and another one may have begun. -/
def InRounds (record : List Event) (poll : Poll) (ticks : Nat) : Prop :=
  ∃ rounds : List Round,
    record ++ poll.left.map .handed = rounds.flatMap Round.record ++ poll.opened ∧
      (∀ t ∈ rounds, t.IsSound) ∧ rounds.length + poll.pending ≤ ticks

namespace InRounds

variable {record events : List Event} {poll poll' : Poll} {ticks : Nat}

/-- A step closes a round, goes on with one or begins one. -/
theorem goes (h : InRounds record poll ticks) (hstep : poll.Goes events poll') :
    InRounds (record ++ events) poll' ticks := by
  obtain ⟨rounds, hrecord, hsound, hticks⟩ := h
  have hmore (t : Round) (ht : t.IsSound) : ∀ u ∈ rounds ++ [t], u.IsSound := by
    simpa [or_imp, forall_and, ht] using hsound
  cases hstep with
  | look leads =>
    cases leads with
    | true => exact ⟨rounds, by simpa [left, opened] using hrecord, hsound, hticks⟩
    | false =>
      -- The round is over as soon as it has begun.
      refine ⟨rounds ++ [.standby], ?_, hmore .standby ⟨Nat.zero_le _, nofun⟩, ?_⟩
      · simpa [left, opened, Round.record] using hrecord
      · simpa [pending] using hticks
  | @take entries hlength htexts =>
    -- All that was received counts for the round, though nothing was passed on so far: it is left.
    have hserved : (Round.served entries).IsSound := ⟨hlength, fun _ h => by cases h; exact htexts⟩
    refine ⟨rounds ++ [.served entries], ?_, hmore _ hserved, ?_⟩
    · simp only [left, opened, List.map_nil, List.append_nil] at hrecord
      simp [left, opened, Round.record, hrecord]
    · simpa [pending] using hticks
  | @miss lost hlength =>
    refine ⟨rounds ++ [.failed lost], ?_, hmore (.failed lost) ⟨hlength, nofun⟩, ?_⟩
    · simp only [left, opened, List.map_nil, List.append_nil] at hrecord
      simp [left, opened, Round.record, hrecord]
    · simpa [pending] using hticks
  | pass m left => exact ⟨rounds, by simpa [Poll.left, opened] using hrecord, hsound, hticks⟩
  | work a rest left => exact ⟨rounds, by simpa [Poll.left, opened] using hrecord, hsound, hticks⟩
  | rest => exact ⟨rounds, by simpa [left, opened] using hrecord, hsound, hticks⟩
  | idle => exact ⟨rounds, by simpa using hrecord, hsound, hticks⟩

/-- A tick lets a loop at rest begin another round. -/
theorem wake (h : InRounds record poll ticks) : InRounds record poll.wake (ticks + 1) := by
  obtain ⟨rounds, hrecord, hsound, hticks⟩ := h
  refine ⟨rounds, ?_, hsound, ?_⟩
  -- A loop that is not at rest misses the tick, and its state stays what it is.
  · cases poll <;> exact hrecord
  · cases poll <;> simp only [Poll.wake, pending] at hticks ⊢ <;> omega

/-- More ticks leave room for the same rounds. -/
theorem mono (h : InRounds record poll ticks) {ticks' : Nat} (hle : ticks ≤ ticks') :
    InRounds record poll ticks' := by
  obtain ⟨rounds, hrecord, hsound, hticks⟩ := h
  exact ⟨rounds, hrecord, hsound, Nat.le_trans hticks hle⟩

/-- A loop that is told to end leaves the round that it is in as it is. -/
theorem quit (h : InRounds record poll ticks) : InRounds record poll.quit ticks := by
  cases poll <;> exact h

/-- What was passed on, and then what is left to be, are the notices among the entries that were
    received. -/
theorem handed_eq (h : InRounds record poll ticks) :
    record.filterMap Event.handed? ++ poll.left =
      (record.flatMap Event.received).filterMap Notice.ofEntry := by
  obtain ⟨rounds, hrecord, -, -⟩ := h
  -- A round that has just begun has neither passed anything on nor received anything.
  have hopened : poll.opened.filterMap Event.handed? = [] ∧
      poll.opened.flatMap Event.received = [] := by
    cases poll <;> exact ⟨rfl, rfl⟩
  have hhanded := congrArg (List.filterMap Event.handed?) hrecord
  have hreceived := congrArg (List.flatMap Event.received) hrecord
  simp only [List.filterMap_append, List.filterMap_map, Function.comp_def, Event.handed?,
    List.filterMap_some, hopened.1, List.append_nil] at hhanded
  simp only [List.flatMap_append, Event.received_map_handed, hopened.2,
    List.append_nil] at hreceived
  rw [hhanded, hreceived, Round.handed_records]

end InRounds

end Poll

/-! ### Steps of a loop -/

/-- The command that a loop receives with. -/
def popping (root : String) : KeyStore.Command := .pop (Notice.channelKey root) inboxLimit

namespace Reader

/-- A step of a loop takes out of the channel what goes on record as gone.  Entries that are gone
    though nothing was received came with one that is no text, or the answer was lost. -/
theorem step_goes (root : String) (link : KeyStore.Link) (replies : Replies) (r : Reader)
    (k : KeyStore) :
    let (r', k', events) := r.step root link replies k
    r.poll.Goes events r'.poll ∧
      k.list (Notice.channelKey root) =
        events.flatMap Poll.Event.gone ++ k'.list (Notice.channelKey root) ∧
      ∀ lost, .missed lost ∈ events →
        lost = [] ∨ (∃ e ∈ lost, e.text? = none) ∨
          ∃ reason, link.fate (popping root) = .unanswered reason := by
  unfold step
  cases hpoll : r.poll with
  | resting | stopped => exact ⟨hpoll ▸ .idle _, rfl, nofun⟩
  | waking => exact ⟨.look _, rfl, by simp⟩
  | handling current left =>
    match current, left with
    | none, [] => exact ⟨.rest, rfl, nofun⟩
    | none, m :: left => exact ⟨.pass m left, rfl, by simp⟩
    | some a, left => exact ⟨.work a _ left, rfl, nofun⟩
  | asking =>
    -- What can happen to the channel is known from receiving: `n` entries are gone from its near
    -- end.
    obtain ⟨n, hn, hlist, hanswer⟩ :=
      Notice.receive_cases link root (show inboxLimit ≠ 0 from nofun) k
    have hlength : ((k.list (Notice.channelKey root)).take n).length ≤ inboxLimit := by
      rw [List.length_take]
      omega
    dsimp only at hanswer ⊢
    cases hreceive : Notice.receive link root inboxLimit k with
    | mk k' answer =>
      rw [hreceive] at hlist hanswer
      dsimp only at hlist hanswer
      have hdeparted := Notice.departed_of_drop hlist
      have hgone : k.list (Notice.channelKey root) =
          Notice.departed root k k' ++ k'.list (Notice.channelKey root) := by
        rw [hdeparted, hlist, List.take_append_drop]
      rw [← hdeparted] at hlength hanswer
      obtain ⟨htexts, received, rfl, hnotices⟩ | ⟨⟨fault, rfl⟩, hlost⟩ := hanswer
      · refine ⟨?_, by simpa [Poll.Event.gone] using hgone, by simp⟩
        rw [poll_goTo, hnotices]
        exact .take hlength htexts
      · refine ⟨.miss hlength, by simpa [Poll.Event.gone] using hgone, ?_⟩
        rintro lost hmem
        obtain rfl : lost = Notice.departed root k k' := by simpa using hmem
        exact hlost

end Reader

namespace Readers

variable {ι : Type}

/-! ### Runs -/

/-- The entries that the channel has lost, the first one first. -/
def gone (c : Readers ι) : List KeyStore.Entry := c.log.flatMap (·.2.gone)

variable [DecidableEq ι]

/-- What went on record about the loop of a reader. -/
def record (c : Readers ι) (i : ι) : List Poll.Event :=
  c.log.filterMap fun (j, event) => if j = i then some event else none

/-- The entries that were popped at the ticks of a reader. -/
def popped (c : Readers ι) (i : ι) : List KeyStore.Entry := (c.record i).flatMap Poll.Event.gone

/-- The entries that were popped at each tick of a reader at which nothing was received. -/
def missed (c : Readers ι) (i : ι) : List (List KeyStore.Entry) :=
  (c.record i).filterMap Poll.Event.missed?

/-- The notices that a reader has passed on to be handled. -/
def handed (c : Readers ι) (i : ι) : List Notice := (c.record i).filterMap Poll.Event.handed?

/-- What a reader has passed on, and then what it has left to pass on, are the notices among the
    entries that were popped at its ticks, each of them once and in their order. -/
def Delivers (c : Readers ι) (i : ι) : Prop :=
  c.handed i ++ (c.readers i).poll.left = (c.popped i).filterMap Notice.ofEntry

/-- The entries that a move adds to the channel. -/
def Move.pushed (root : String) : Move ι → List KeyStore.Entry
  | .send link m =>
    if (link.fate (.push (Notice.channelKey root) m.encode)).carries then [.ofText m.encode] else []
  | .push entry => [entry]
  | .tick _ | .quit _ | .step .. | .work .. => []

/-- A tick comes for this reader. -/
def Move.isTick (i : ι) : Move ι → Bool
  | .tick j => j = i
  | .quit _ | .step .. | .work .. | .send .. | .push _ => false

/-- The loop of this reader pops entries and the answer is lost on its way. -/
def Move.LosesAnswer (root : String) (i : ι) : Move ι → Prop
  | .step j link _ => j = i ∧ ∃ reason, link.fate (popping root) = .unanswered reason
  | .tick _ | .quit _ | .work .. | .send .. | .push _ => False

/-- The ticks that come for a reader. -/
def ticks (i : ι) (moves : List (Move ι)) : Nat := moves.countP (Move.isTick i)

/-- A move takes no tick back. -/
theorem ticks_le (i : ι) (moves : List (Move ι)) (move : Move ι) :
    ticks i moves ≤ ticks i (moves ++ [move]) := by
  rw [ticks, ticks, List.countP_append]
  exact Nat.le_add_right _ _

/-- What is new on record is about one reader. -/
theorem record_append {c c' : Readers ι} {i : ι} {events : List Poll.Event}
    (h : c'.log = c.log ++ events.map (i, ·)) (j : ι) :
    c'.record j = c.record j ++ if j = i then events else [] := by
  rw [record, h, List.filterMap_append, List.filterMap_map]
  congr 1
  by_cases hj : j = i
  · have own : (fun (k, event) => if k = j then some event else none) ∘ (i, ·) =
        (some : Poll.Event → _) := funext fun _ => if_pos hj.symm
    -- Of entries about one reader the projection to this reader keeps all.
    rw [if_pos hj, own, List.filterMap_some]
  · rw [if_neg hj, List.filterMap_eq_nil_iff]
    exact fun _ _ => if_neg (Ne.symm hj)

/-- What moves from the start come to: entries leave the channel in the order in which they were
    pushed, and every record falls into rounds.  Loops end when they are told to, and entries are
    lost with answers or with entries that are no texts. -/
structure Orderly (root : String) (store : KeyStore) (moves : List (Move ι)) (c : Readers ι) :
    Prop where
  channel : store.list (Notice.channelKey root) ++ moves.flatMap (Move.pushed root) =
    c.gone ++ c.store.list (Notice.channelKey root)
  rounds (i : ι) : Poll.InRounds (c.record i) (c.readers i).poll (ticks i moves)
  told (i : ι) : (c.readers i).poll = .stopped → .quit i ∈ moves
  lost (i : ι) (entries : List KeyStore.Entry) : (i, .missed entries) ∈ c.log →
    entries = [] ∨ (∃ e ∈ entries, e.text? = none) ∨ ∃ move ∈ moves, move.LosesAnswer root i

namespace Orderly

variable {root : String} {store : KeyStore} {moves : List (Move ι)} {c : Readers ι}

/-- At the start nothing is on record. -/
theorem start (root : String) (crew : ι → Setup) (store : KeyStore) :
    Orderly root store ([] : List (Move ι)) (Readers.start crew store) where
  channel := List.append_nil _
  rounds _ := ⟨[], rfl, nofun, Nat.le_refl _⟩
  told _ := nofun
  lost _ _ := nofun

/-- A reader comes to another state, and so may the store; what is new on record is about this
    reader. -/
theorem act (h : Orderly root store moves c) (move : Move ι) (i : ι) (r : Reader)
    (store' : KeyStore) (events : List Poll.Event)
    (hchannel : c.store.list (Notice.channelKey root) ++ move.pushed root =
      events.flatMap Poll.Event.gone ++ store'.list (Notice.channelKey root))
    (hrounds : Poll.InRounds (c.record i ++ events) r.poll (ticks i (moves ++ [move])))
    (htold : r.poll = .stopped → (c.readers i).poll = .stopped ∨ move = .quit i)
    (hlost : ∀ entries, .missed entries ∈ events →
      entries = [] ∨ (∃ e ∈ entries, e.text? = none) ∨ move.LosesAnswer root i) :
    Orderly root store (moves ++ [move])
      { c.put i r with store := store', log := c.log ++ events.map (i, ·) } where
  channel := by
    simp only [List.flatMap_append, List.flatMap_singleton, gone, List.flatMap_map]
    -- The entries behind the old channel cancel, so only the move is left to compare.
    rw [← List.append_assoc, h.channel, List.append_assoc, hchannel, gone, List.append_assoc]
  rounds j := by
    rw [record_append (c := c) rfl]
    by_cases hj : j = i
    · subst hj
      simpa [put] using hrounds
    · simpa [put, hj] using (h.rounds j).mono (ticks_le j moves move)
  told j hstopped := by
    by_cases hj : j = i
    · subst hj
      rcases htold (by simpa [put] using hstopped) with hbefore | rfl
      · exact List.mem_append_left _ (h.told j hbefore)
      · exact List.mem_append_right _ (List.mem_singleton_self _)
    · exact List.mem_append_left _ (h.told j (by simpa [put, hj] using hstopped))
  lost j entries hmem := by
    -- It was on record before, or it is new and about this reader.
    rcases List.mem_append.1 hmem with hbefore | hnew
    · exact (h.lost j entries hbefore).imp_right <| Or.imp_right fun ⟨before, hmove, hloses⟩ =>
        ⟨before, List.mem_append_left _ hmove, hloses⟩
    · obtain ⟨event, hevent, heq⟩ := List.mem_map.1 hnew
      obtain ⟨rfl, rfl⟩ := Prod.mk.inj heq
      exact (hlost entries hevent).imp_right <| Or.imp_right fun hloses =>
        ⟨move, List.mem_append_right _ (List.mem_singleton_self _), hloses⟩

/-- A reader comes to another state, and nothing goes on record about it. -/
theorem put (h : Orderly root store moves c) {move : Move ι} (hpushed : move.pushed root = [])
    {i : ι} {r : Reader} (hrounds : Poll.InRounds (c.record i) r.poll (ticks i (moves ++ [move])))
    (htold : r.poll = .stopped → (c.readers i).poll = .stopped ∨ move = .quit i) :
    Orderly root store (moves ++ [move]) (c.put i r) := by
  have hact := h.act move i r c.store [] (by simp [hpushed]) (by simpa using hrounds) htold nofun
  simpa [Readers.put] using hact

/-- The channel grows at its far end. -/
theorem feed (h : Orderly root store moves c) {move : Move ι} {store' : KeyStore}
    (hchannel : c.store.list (Notice.channelKey root) ++ move.pushed root =
      store'.list (Notice.channelKey root)) :
    Orderly root store (moves ++ [move]) { c with store := store' } where
  channel := by
    simp only [List.flatMap_append, List.flatMap_singleton]
    rw [← List.append_assoc, h.channel, List.append_assoc, hchannel]
    rfl
  rounds i := (h.rounds i).mono (ticks_le i moves move)
  told i hstopped := List.mem_append_left _ (h.told i hstopped)
  lost i entries hmem :=
    (h.lost i entries hmem).imp_right <| Or.imp_right fun ⟨before, hmove, hloses⟩ =>
      ⟨before, List.mem_append_left _ hmove, hloses⟩

/-- Whatever happens next, things stay so. -/
theorem step (h : Orderly root store moves c) (move : Move ι) :
    Orderly root store (moves ++ [move]) (c.step root move) := by
  cases move with
  | tick i =>
    -- The bound grows by one for the reader of the tick, and the pending round uses it up.
    have hticks : ticks i (moves ++ [.tick i]) = ticks i moves + 1 := by
      simp [ticks, Move.isTick]
    refine h.put rfl ?_ fun hstopped => .inl (Poll.eq_stopped_of_wake hstopped)
    rw [hticks]
    exact (h.rounds i).wake
  | quit i => exact h.put rfl ((h.rounds i).quit.mono (ticks_le i moves _)) fun _ => .inr rfl
  | step i link replies =>
    have hgoes := Reader.step_goes root link replies (c.readers i) c.store
    rw [Readers.step]
    cases hstep : (c.readers i).step root link replies c.store with
    | mk r rest =>
      obtain ⟨store', events⟩ := rest
      rw [hstep] at hgoes
      obtain ⟨hgoes, hchannel, hlost⟩ := hgoes
      refine h.act _ i r store' events ?_ (((h.rounds i).goes hgoes).mono (ticks_le i moves _))
        (fun hstopped => .inl ?_) fun entries hmem => ?_
      · simpa [Move.pushed] using hchannel
      · exact hgoes.eq_stopped hstopped
      · exact (hlost entries hmem).imp_right <| Or.imp_right fun hloses => ⟨rfl, hloses⟩
  | work i turn => exact h.put rfl ((h.rounds i).mono (ticks_le i moves _)) .inl
  | send link m => exact h.feed (Notice.list_send link root m c.store).symm
  | push entry => exact h.feed (KeyStore.list_append c.store _ entry).symm

/-- So they do over further moves. -/
theorem run (h : Orderly root store moves c) (more : List (Move ι)) :
    Orderly root store (moves ++ more) (c.run root more) := by
  induction more generalizing moves c with
  | nil =>
    rw [List.append_nil]
    exact h
  | cons move more ih =>
    have hmore := ih (h.step move)
    rw [List.append_assoc] at hmore
    exact hmore

end Orderly

/-- What was popped at the ticks of a reader has left the channel, so it takes in all notices that
    it popped exactly when no notice is among what it missed. -/
theorem Orderly.delivers_iff {root : String} {store : KeyStore} {moves : List (Move ι)}
    {c : Readers ι} (h : Orderly root store moves c) (i : ι) :
    c.Delivers i ↔ ∀ batch ∈ c.missed i, ∀ e ∈ batch, Notice.ofEntry e = none := by
  rw [Delivers, handed, (h.rounds i).handed_eq]
  exact Poll.Event.taken_eq_popped_iff (c.record i)

/-- What a reader missed was nothing, or held an entry that is no text, or was popped by a command
    whose answer was lost. -/
theorem Orderly.missed {root : String} {store : KeyStore} {moves : List (Move ι)}
    {c : Readers ι} (h : Orderly root store moves c) (i : ι) {batch : List KeyStore.Entry}
    (hbatch : batch ∈ c.missed i) :
    batch = [] ∨ (∃ e ∈ batch, e.text? = none) ∨ ∃ move ∈ moves, move.LosesAnswer root i := by
  obtain ⟨event, hevent, hmissed⟩ := List.mem_filterMap.1 hbatch
  -- An entry of the record comes from a place in the log that names the reader.
  obtain ⟨⟨j, event'⟩, hlog, heq⟩ := List.mem_filterMap.1 hevent
  dsimp only at heq
  split at heq
  · next hj =>
    subst hj
    cases heq
    cases event with
    | looked _ | took _ | handed _ => cases hmissed
    | missed entries =>
      cases hmissed
      exact h.lost j batch hlog
  · cases heq

/-- Whatever the channel holds and whatever is pushed to it, texts or not, and however ticks,
    changes of the lead and failures of the link fall:
    * entries leave the channel in the order in which they were pushed;
    * what a reader has passed on, and then what it has left to pass on, are the notices among the
      entries that were popped at its ticks, each once and in their order, exactly if no notice is
      among the entries that were popped at a tick at which nothing was received;
    * such entries came together with one that is no text, or the answer with them was lost;
    * the record of a reader falls into rounds, not more of them than ticks came: a tick on standby
      takes nothing, a tick that fails passes nothing on, at any other tick all notices that were
      received are passed on, and no tick takes more than `inboxLimit` entries;
    * a loop ends only if it was told to;
    * and with nothing in between a tick does what the node does when it reads its inbox. -/
theorem inbox_delivers_iff (root : String) (crew : ι → Setup) (store : KeyStore)
    (moves : List (Move ι)) :
    let c := (start crew store).run root moves
    store.list (Notice.channelKey root) ++ moves.flatMap (Move.pushed root) =
        c.gone ++ c.store.list (Notice.channelKey root) ∧
      (∀ i, c.Delivers i ↔ ∀ batch ∈ c.missed i, ∀ e ∈ batch, Notice.ofEntry e = none) ∧
      (∀ i, ∀ batch ∈ c.missed i, batch = [] ∨ (∃ e ∈ batch, e.text? = none) ∨
        ∃ move ∈ moves, move.LosesAnswer root i) ∧
      (∀ i, ∃ rounds : List Poll.Round,
        c.record i ++ (c.readers i).poll.left.map .handed =
            rounds.flatMap Poll.Round.record ++ (c.readers i).poll.opened ∧
          (∀ t ∈ rounds, t.IsSound) ∧ rounds.length ≤ ticks i moves) ∧
      (∀ i, (c.readers i).poll = .stopped → .quit i ∈ moves) ∧
      ∀ i link, (c.readers i).poll = .waking →
        let (n, store') := readInbox (c.readers i).setup (Reader.receive root link)
          (c.readers i).node c.store
        ∃ count, (c.readers i).steps root link count c.store =
          ((c.readers i).goTo .resting n, store') := by
  intro c
  have h : Orderly root store moves c := (Orderly.start root crew store).run moves
  refine ⟨h.channel, h.delivers_iff, fun i _ => h.missed i, fun i => ?_, h.told,
    fun i link hi => ?_⟩
  · obtain ⟨rounds, hrecord, hsound, hticks⟩ := h.rounds i
    exact ⟨rounds, hrecord, hsound, by omega⟩
  · exact Reader.exists_steps_readInbox root link hi c.store

/-- The only node of a cluster. -/
private def loneReader : Unit → Setup := fun _ => ⟨true, ∅, true, .reliable, fun _ => .zero⟩

/-- Entries are pushed to the channel, and then the node takes the lead and reads them. -/
private def afterPushes (entries : List KeyStore.Entry) : List (Move Unit) :=
  let sound : KeyStore.Link := .up fun _ => .answered
  entries.map .push ++
    [.work () ⟨.reliable, .accept (.lead true)⟩,
      .tick (), .step () sound .reliable, .step () sound .reliable, .step () sound .reliable,
      .step () sound .reliable]

/-- A notice as it may have been written by hand. -/
private def removalOfA : KeyStore.Entry :=
  .ofText ("[\"flow_spec_remove\",\"flow://A:1\"," ++
    "\"00000000000000000000000000000000\",\"controller\"]")

/-- Of entries that are texts only those that are no notices are dropped. -/
theorem inbox_delivers_texts :
    let c := (start loneReader .empty).run "tempora" (afterPushes [.ofText "no notice", removalOfA])
    c.Delivers () ∧ c.popped () = [.ofText "no notice", removalOfA] ∧
      c.handed () = [⟨.removed, "flow://A:1", .zero⟩] := by
  intro c
  have hrecord : c.record () = [.looked true, .took [.ofText "no notice", removalOfA],
      .handed ⟨.removed, "flow://A:1", .zero⟩] := by
    decide +kernel
  have hmissed : c.missed () = [] := by
    rw [missed, hrecord]
    rfl
  have h := inbox_delivers_iff "tempora" loneReader .empty
    (afterPushes [.ofText "no notice", removalOfA])
  refine ⟨(h.2.1 ()).2 ?_, ?_, ?_⟩
  · rw [hmissed]
    exact nofun
  · rw [popped, hrecord]
    rfl
  · rw [handed, hrecord]
    rfl

/-- Of entries one of which is no text none is passed on, though all of them are gone. -/
theorem not_inbox_delivers :
    let c := (start loneReader .empty).run "tempora"
      (afterPushes [removalOfA, ⟨⟨#[0xFF]⟩⟩, removalOfA])
    c.popped () = [removalOfA, ⟨⟨#[0xFF]⟩⟩, removalOfA] ∧ c.handed () = [] ∧
      c.store.list (Notice.channelKey "tempora") = [] ∧ ¬ c.Delivers () := by
  intro c
  have hrecord : c.record () =
      [.looked true, .missed [removalOfA, ⟨⟨#[0xFF]⟩⟩, removalOfA]] := by
    decide +kernel
  have h : Orderly "tempora" .empty _ c := (Orderly.start "tempora" loneReader .empty).run
    (afterPushes [removalOfA, ⟨⟨#[0xFF]⟩⟩, removalOfA])
  refine ⟨?_, ?_, by decide +kernel, ?_⟩
  · rw [popped, hrecord]
    rfl
  · rw [handed, hrecord]
    rfl
  · rw [h.delivers_iff, missed, hrecord]
    -- The first entry that is gone holds a notice.
    decide +kernel

end Readers

end Node

end FlowCadence
