import FlowCadence.Proofs.Node.Addition
/-! # Changes of different flows commute

What a node does about a change, it does under the uri of the spec that was added, changed or
deleted: it reads nothing but what it keeps under that uri, and it writes nothing elsewhere.
The engine and the catalog must not carry anything over either, so what they answer may hang
on the call and on what they have under the name or the uri, and on nothing more.

Two changes of different uris can then be told to the node in either order.  Only the record
and the order of the queued jobs show which was first.

## Key results

* `Confined`: an operation that keeps to a uri, both in what it reads and in what it writes
* `Confined.comp`, `Confined.choose`: such operations one after another, and a choice of them
* `Confined.commute`: operations that keep to different uris commute
* `confined_change`: what a node does about a change keeps to the uri of the change
* `changes_commute`: changes of different uris in either order -/

namespace FlowCadence

/-- The uri of the spec that was added, changed or deleted. -/
def Catalog.Change.uri : Catalog.Change → String
  | .added spec | .updated spec => spec.uri
  | .deleted uri _ => uri

namespace Node

/-- The engine answers by the call and by whether there is a job of that name, and the
    catalog by what it has under the uri. -/
structure Replies.Local (r : Replies) : Prop where
  install : ∀ n m : Node, ∀ job : ScheduledJob,
    n.jobs.contains job.name = m.jobs.contains job.name → r.install n job = r.install m job
  remove : ∀ n m : Node, ∀ name,
    n.jobs.contains name = m.jobs.contains name → r.remove n name = r.remove m name
  clear : ∀ n m : Node, ∀ uri,
    n.catalog.get? uri = m.catalog.get? uri → r.clear n uri = r.clear m uri

/-! ### What a node keeps under a uri -/

/-- What a node keeps under one uri: the flow it has scheduled, the trigger in the engine, the
    spec in the catalog and the latest execution. -/
structure Cell where
  flow : Option Flow
  job : Option ScheduledJob
  spec : Option Spec
  record : Option Execution.Record

/-- What a node keeps under a uri. -/
def cell (n : Node) (uri : String) : Cell where
  flow := n.registry[uri]?
  job := n.jobs[uri]?
  spec := n.catalog.get? uri
  record := n.executions.records[uri]?

/-- Nodes that keep the same, and have queued the same jobs in some order. -/
structure Agrees (n m : Node) : Prop where
  registry : n.registry = m.registry
  jobs : n.jobs = m.jobs
  catalog : n.catalog = m.catalog
  executions : n.executions = m.executions
  queued : n.queued.Perm m.queued

variable {s : Setup} {n m : Node} {uri uri' : String} {op op' : Node → Node}

/-- Nodes that keep the same under every uri agree, if they have queued the same jobs. -/
theorem Agrees.of_cells (hcells : ∀ a, n.cell a = m.cell a)
    (hlisteners : n.catalog.listeners = m.catalog.listeners) (hqueued : n.queued.Perm m.queued) :
    Agrees n m where
  registry := Std.ExtTreeMap.ext_getElem? fun {a} => congrArg Cell.flow (hcells a)
  jobs := Std.ExtTreeMap.ext_getElem? fun {a} => congrArg Cell.job (hcells a)
  catalog := by
    have hspecs : n.catalog.specs = m.catalog.specs :=
      Std.ExtTreeMap.ext_getElem? fun {a} => congrArg Cell.spec (hcells a)
    -- A catalog is its specs and its listeners.
    calc n.catalog = ⟨n.catalog.specs, n.catalog.listeners⟩ := rfl
      _ = ⟨m.catalog.specs, m.catalog.listeners⟩ := by rw [hspecs, hlisteners]
  executions := by
    have hrecords : n.executions.records = m.executions.records :=
      Std.ExtTreeMap.ext_getElem? fun {a} => congrArg Cell.record (hcells a)
    exact congrArg Execution.Tracker.mk hrecords
  queued := hqueued

/-- Whether there is a trigger is read off what is kept under the uri. -/
theorem contains_eq_of_cell (h : n.cell uri = m.cell uri) :
    n.jobs.contains uri = m.jobs.contains uri := by
  rw [Std.ExtTreeMap.contains_eq_isSome_getElem?, Std.ExtTreeMap.contains_eq_isSome_getElem?]
  exact congrArg (fun c => c.job.isSome) h

/-! ### Operations that keep to a uri -/

/-- An operation of a node that does its work itself keeps to a uri. -/
structure Confined (s : Setup) (uri : String) (op : Node → Node) : Prop where
  active : ∀ n, n.aside s = false → (op n).active = n.active
  listeners : ∀ n, n.aside s = false → (op n).catalog.listeners = n.catalog.listeners
  /-- Nothing is written under other uris. -/
  others : ∀ n a, n.aside s = false → uri ≠ a → (op n).cell a = n.cell a
  /-- What is written, and which jobs are queued, follows from what was there under the uri. -/
  own : ∀ n m, n.aside s = false → m.aside s = false → n.cell uri = m.cell uri →
    (op n).cell uri = (op m).cell uri ∧
      ∃ jobs, (op n).queued = n.queued ++ jobs ∧ (op m).queued = m.queued ++ jobs

namespace Confined

/-- The node goes on doing its work itself. -/
theorem aside (h : Confined s uri op) (hn : n.aside s = false) : (op n).aside s = false := by
  rw [Node.aside, h.active n hn]
  exact hn

/-- An operation keeps to a uri if it does the same as one that does. -/
theorem congr (h : Confined s uri op) (heq : ∀ n, n.aside s = false → op' n = op n) :
    Confined s uri op' where
  active n hn := by rw [heq n hn, h.active n hn]
  listeners n hn := by rw [heq n hn, h.listeners n hn]
  others n a hn hne := by rw [heq n hn, h.others n a hn hne]
  own n m hn hm hcell := by
    rw [heq n hn, heq m hm]
    exact h.own n m hn hm hcell

/-- An operation keeps to a uri if it makes what is kept there into something else. -/
theorem of_cell (g : Cell → Cell) (hactive : ∀ n, (op n).active = n.active)
    (hlisteners : ∀ n, (op n).catalog.listeners = n.catalog.listeners)
    (hqueued : ∀ n, (op n).queued = n.queued)
    (hcell : ∀ n a, (op n).cell a = if uri = a then g (n.cell a) else n.cell a) :
    Confined s uri op where
  active n _ := hactive n
  listeners n _ := hlisteners n
  others n a _ hne := by rw [hcell, if_neg hne]
  own n m _ _ hsame := by
    refine ⟨by rw [hcell, hcell, hsame], [], ?_, ?_⟩
    · rw [hqueued, List.append_nil]
    · rw [hqueued, List.append_nil]

/-- One operation after another. -/
theorem comp (h : Confined s uri op) (h' : Confined s uri op') :
    Confined s uri fun n => op' (op n) where
  active n hn := (h'.active (op n) (h.aside hn)).trans (h.active n hn)
  listeners n hn := (h'.listeners (op n) (h.aside hn)).trans (h.listeners n hn)
  others n a hn hne := (h'.others (op n) a (h.aside hn) hne).trans (h.others n a hn hne)
  -- The second one finds the same in both nodes, as the first one left the same.
  own n m hn hm hcell := by
    obtain ⟨hfirst, jobs, hqn, hqm⟩ := h.own n m hn hm hcell
    obtain ⟨hthen, jobs', hqn', hqm'⟩ := h'.own (op n) (op m) (h.aside hn) (h.aside hm) hfirst
    refine ⟨hthen, jobs ++ jobs', ?_, ?_⟩
    · rw [hqn', hqn, List.append_assoc]
    · rw [hqm', hqm, List.append_assoc]

/-- A choice between operations, by what is kept under the uri. -/
theorem choose {α : Type} (read : Node → α) (choice : α → Node → Node)
    (hread : ∀ n m, n.cell uri = m.cell uri → read n = read m)
    (h : ∀ a, Confined s uri (choice a)) : Confined s uri fun n => choice (read n) n where
  active n hn := (h (read n)).active n hn
  listeners n hn := (h (read n)).listeners n hn
  others n a hn hne := (h (read n)).others n a hn hne
  own n m hn hm hcell := by
    rw [← hread n m hcell]
    exact (h (read n)).own n m hn hm hcell

/-- Operations that keep to different uris commute. -/
theorem commute (h : Confined s uri op) (h' : Confined s uri' op') (hne : uri ≠ uri')
    (hn : n.aside s = false) : Agrees (op' (op n)) (op (op' n)) := by
  -- Neither of them sees whether the other was first.
  have hkept : (op' n).cell uri = n.cell uri := h'.others n uri hn hne.symm
  have hkept' : (op n).cell uri' = n.cell uri' := h.others n uri' hn hne
  obtain ⟨hcell, jobs, hqueued, hlater⟩ := h.own n (op' n) hn (h'.aside hn) hkept.symm
  obtain ⟨hcell', jobs', hqueued', hlater'⟩ := h'.own n (op n) hn (h.aside hn) hkept'.symm
  refine .of_cells (fun a => ?_) ?_ ?_
  · by_cases ha : uri = a
    -- Under the uri of the first operation the second one has changed nothing, and the other way
    -- round.
    · subst ha
      rw [h'.others (op n) uri (h.aside hn) hne.symm, hcell]
    · by_cases ha' : uri' = a
      · subst ha'
        rw [h.others (op' n) uri' (h'.aside hn) hne, hcell']
      -- Under any other uri neither has changed anything.
      · rw [h'.others (op n) a (h.aside hn) ha', h.others n a hn ha,
          h.others (op' n) a (h'.aside hn) ha, h'.others n a hn ha']
  · rw [h'.listeners (op n) (h.aside hn), h.listeners n hn, h.listeners (op' n) (h'.aside hn),
      h'.listeners n hn]
  -- The queues differ in the order of what the two have appended.
  · rw [hlater', hqueued, hlater, hqueued', List.append_assoc, List.append_assoc]
    exact List.perm_append_comm.append_left n.queued

end Confined

/-! ### What a node does about a change -/

/-- What goes on record is kept under no uri. -/
theorem confined_record (trace : Node → List Event) :
    Confined s uri fun n => { n with trace := trace n } :=
  .of_cell id (fun _ => rfl) (fun _ => rfl) (fun _ => rfl) fun n a => by split <;> rfl

/-- What is queued is kept under no uri. -/
theorem confined_enqueue (config : JobConfig) : Confined s uri (enqueue config) where
  active _ _ := rfl
  listeners _ _ := rfl
  others _ _ _ _ := rfl
  own _ _ _ _ hcell := ⟨hcell, [config], rfl, rfl⟩

/-- The node once the engine has answered that it removes the trigger of a uri if there is
    one, or does not. -/
def withdrawn (uri : String) (answer : Option Fault) (n : Node) : Node :=
  match answer with
  | some fault => n.alert (.notUnscheduled ⟨.scheduling, uri, fault⟩)
  | none => if n.jobs.contains uri then { n with jobs := n.jobs.erase uri } else n.alert .noTrigger

/-- Which of the two happens hangs on the trigger of that uri alone. -/
theorem confined_withdrawn (uri : String) (answer : Option Fault) :
    Confined s uri (withdrawn uri answer) := by
  cases answer with
  | some fault => exact confined_record _
  | none =>
    -- The engine removes a trigger if there is one.
    refine .choose (fun n => n.jobs.contains uri)
      (fun found n => if found then { n with jobs := n.jobs.erase uri } else n.alert .noTrigger)
      (fun n m => contains_eq_of_cell) fun found => ?_
    cases found with
    | false => exact confined_record _
    | true =>
      refine .of_cell (fun c => { c with job := none }) (fun _ => rfl) (fun _ => rfl)
        (fun _ => rfl) fun n a => ?_
      simp only [cell, if_true, Table.lookUp_erase]
      split <;> rfl

/-- Unscheduling a flow keeps to its uri. -/
theorem confined_unschedule (hlocal : s.replies.Local) (uri : String) :
    Confined s uri (unschedule s uri) := by
  -- The flow goes and its execution is forgotten, whatever the engine says.
  have hgone : Confined s uri fun n : Node => Node.call { n with
      registry := n.registry.erase uri
      executions := n.executions.forget uri } (.remove uri) := by
    refine .of_cell (fun c => { c with
      flow := none
      record := c.record.bind fun record =>
        if record.state = .running then some { record with fleeting := true } else none })
      (fun _ => rfl) (fun _ => rfl) (fun _ => rfl) fun n a => ?_
    simp only [cell, call, Table.lookUp_erase, Execution.Tracker.getElem?_forget]
    split <;> rfl
  -- The engine answers by whether there is a trigger of that name.
  have hread (n m : Node) (hcell : n.cell uri = m.cell uri) :
      s.replies.remove n uri = s.replies.remove m uri :=
    hlocal.remove n m uri (contains_eq_of_cell hcell)
  exact hgone.comp (.choose _ (withdrawn uri) hread (confined_withdrawn uri))

/-- A flow that is registered in vain leaves the registry again. -/
theorem confined_declined (f : Flow) (fault : Fault) :
    Confined s f.uri.text fun n => (n.enrol f).declined f fault := by
  refine .of_cell (fun c => { c with flow := none }) (fun _ => rfl) (fun _ => rfl) (fun _ => rfl)
    fun n a => ?_
  simp only [cell, declined, strike, enrol, alert, Table.lookUp_erase, Table.lookUp_insert]
  split <;> rfl

/-- The node once the engine has answered that it installs the trigger of a new flow, or does
    not. -/
def enrolled (s : Setup) (f : Flow) (sch : Cron.Schedule) (answer : Option Fault) (n : Node) :
    Node :=
  let asked := (n.enrol f).call (.install (triggerOf s f sch))
  match answer with
  | some fault => asked.declined f fault
  | none =>
    let served : Node := { asked with jobs := n.jobs.insert f.uri.text (triggerOf s f sch) }
    if (configOf s f).runsAtOnce then served.enqueue (configOf s f) else served

/-- A flow with a schedule that can be used is entered as the engine answers. -/
theorem addFlow_eq_enrolled (hn : n.aside s = false) {f : Flow} {sch : Cron.Schedule}
    (hc : (configOf s f).hasSchedule = true) (hsch : s.Schedules f sch) :
    n.addFlow s f = n.enrolled s f sch (n.engineAnswer s f (triggerOf s f sch)) := by
  rw [addFlow_of_scheduled hn hc]
  cases hanswer : n.engineAnswer s f (triggerOf s f sch) with
  | none => simp [register_of_served hsch hanswer, enrolled]
  | some fault => simp [register_of_failed hsch hanswer, enrolled]

/-- Once the engine has answered, all that is written is under the uri of the flow. -/
theorem confined_enrolled (f : Flow) (sch : Cron.Schedule) (answer : Option Fault) :
    Confined s f.uri.text (enrolled s f sch answer) := by
  cases answer with
  | some fault =>
    exact (confined_record fun n => n.trace ++ [.call (.install (triggerOf s f sch))]).comp
      (confined_declined f fault)
  | none =>
    -- The flow is registered and its trigger installed.
    have hserved : Confined s f.uri.text fun n : Node =>
        { (n.enrol f).call (.install (triggerOf s f sch)) with
          jobs := n.jobs.insert f.uri.text (triggerOf s f sch) } := by
      refine .of_cell (fun c => { c with flow := some f, job := some (triggerOf s f sch) })
        (fun _ => rfl) (fun _ => rfl) (fun _ => rfl) fun n a => ?_
      simp only [cell, enrol, call, Table.lookUp_insert]
      split <;> rfl
    unfold enrolled
    dsimp only
    -- It is queued as well, or not.
    split
    · exact hserved.comp (confined_enqueue _)
    · exact hserved

/-- Adding a flow keeps to its uri. -/
theorem confined_addFlow (hlocal : s.replies.Local) (f : Flow) :
    Confined s f.uri.text (addFlow s f) := by
  cases hc : (configOf s f).hasSchedule with
  | false => exact (confined_enqueue _).congr fun n hn => addFlow_of_unscheduled hn hc
  | true =>
    -- Whether the schedule can be used is known beforehand; what the engine says is not.
    -- It cannot be parsed, so the flow is declined.
    cases hsched : (configOf s f).schedule with
    | error fault =>
      refine (confined_declined f fault).congr fun n hn => ?_
      rw [addFlow_of_scheduled hn hc, register_of_refused hsched]
      simp
    | ok o =>
      cases o with
      -- There is an expression, so this cannot be.
      | none =>
        rw [JobConfig.schedule_eq_ok_none_iff, hc] at hsched
        cases hsched
      | some sch =>
        have hsch : s.Schedules f sch := (schedule_configOf_iff s f sch).1 hsched
        -- Entering the flow in the registry first does not change how the engine answers.
        have hread (n m : Node) (hcell : n.cell f.uri.text = m.cell f.uri.text) :
            n.engineAnswer s f (triggerOf s f sch) = m.engineAnswer s f (triggerOf s f sch) := by
          have hfound : n.jobs.contains f.uri.text = m.jobs.contains f.uri.text :=
            contains_eq_of_cell hcell
          exact hlocal.install _ _ (triggerOf s f sch) hfound
        exact (Confined.choose _ (enrolled s f sch) hread (confined_enrolled f sch)).congr
          fun n hn => addFlow_eq_enrolled hn hc hsch

/-- Adding a spec keeps to its uri. -/
theorem confined_add (hlocal : s.replies.Local) (spec : Spec) :
    Confined s spec.uri (add s spec) := by
  cases spec with
  | flow f => exact confined_addFlow hlocal f
  | topology t => exact confined_record (·.trace)

/-- Updating a flow keeps to its uri, as unscheduling and adding it do. -/
theorem confined_update (hlocal : s.replies.Local) (spec : Spec) :
    Confined s spec.uri (update s spec) := by
  cases spec with
  | flow f =>
    exact ((confined_unschedule hlocal f.uri.text).comp (confined_addFlow hlocal f)).congr
      fun n hn => update_of_here hn f
  | topology t => exact confined_record (·.trace)

/-- The node once its catalog has answered that it clears a uri, or does not. -/
def cleared (uri : String) (answer : Option Fault) (n : Node) : Node :=
  match answer with
  | none => (n.call (.clear uri)).dropped uri
  | some fault => (n.call (.clear uri)).alert (.notCleared ⟨.catalogCleanup, uri, fault⟩)

/-- What the stage of clearing does hangs on the answer of the catalog. -/
theorem step_clear_eq (s : Setup) (uri version : String) (others : List String) (n : Node) :
    Activity.step s (.clear uri version others) n =
      (n.cleared uri (s.replies.clear (n.call (.clear uri)) uri),
        some (.tell (.deleted uri version) others)) := by
  cases hanswer : s.replies.clear (n.call (.clear uri)) uri with
  | none => simp [Activity.step, hanswer, cleared, dropped]
  | some fault => simp [Activity.step, hanswer, cleared]

/-- Clearing a uri keeps to it. -/
theorem confined_clear (hlocal : s.replies.Local) (uri : String) :
    Confined s uri fun n => n.cleared uri (s.replies.clear (n.call (.clear uri)) uri) := by
  have hread (n m : Node) (hcell : n.cell uri = m.cell uri) :
      s.replies.clear (n.call (.clear uri)) uri = s.replies.clear (m.call (.clear uri)) uri := by
    have hspec : n.catalog.get? uri = m.catalog.get? uri := congrArg Cell.spec hcell
    exact hlocal.clear _ _ uri hspec
  refine .choose _ (cleared uri) hread fun answer => ?_
  cases answer with
  | none =>
    refine .of_cell (fun c => { c with spec := none }) (fun _ => rfl) (fun _ => rfl)
      (fun _ => rfl) fun n a => ?_
    simp only [cell, cleared, call, dropped, Catalog.getElem?_remove]
    split <;> rfl
  | some fault => exact confined_record fun n => (n.call (.clear uri)).trace ++ [_]

/-- A deleted flow is unscheduled, and then the catalog is cleared where there is one. -/
theorem confined_deleted (hlocal : s.replies.Local) (uri version : String) :
    Confined s uri (obey s · (.change (.deleted uri version))) := by
  have hgone := confined_unschedule hlocal uri
  -- With a catalog the flow is unscheduled, its uri is cleared, and nobody else is told.
  cases hc : s.catalogued with
  | false =>
    refine hgone.congr fun n hn => ?_
    rw [obey_change s _ n (by simp [Activity.step, hc])]
    simp [Activity.step, delete, hn]
  | true =>
    refine (hgone.comp (confined_clear hlocal uri)).congr fun n hn => ?_
    have hreact : Activity.step s (.react (.deleted uri version) []) n =
        (n.unschedule s uri, some (.clear uri version [])) := by
      simp [Activity.step, delete, hn, hc]
    rw [obey, Activity.perform, Activity.performAround, Activity.rank,
      Activity.performWithin_of_some hreact, Activity.performWithin_of_some (step_clear_eq ..),
      Activity.performWithin_of_none rfl]
    rfl

/-- Whatever a node does about a change, it does under the uri of the change. -/
theorem confined_change (hlocal : s.replies.Local) (c : Catalog.Change) :
    Confined s c.uri (obey s · (.change c)) := by
  cases c with
  | added spec => exact (confined_add hlocal spec).congr fun n _ => obey_change s _ n rfl
  | updated spec => exact (confined_update hlocal spec).congr fun n _ => obey_change s _ n rfl
  | deleted uri version => exact confined_deleted hlocal uri version

/-- Let a node do its work itself, let an engine answer by the call and by whether the job is
    installed, and a catalog by what it has under the uri.  If the node is told of two changes
    of different uris, then it makes no difference to what it keeps which one is first, and the
    same jobs are queued. -/
theorem changes_commute (hlocal : s.replies.Local) (hn : n.aside s = false)
    {c d : Catalog.Change} (hne : c.uri ≠ d.uri) :
    Agrees (n.obeyAll s [.change c, .change d]) (n.obeyAll s [.change d, .change c]) :=
  (confined_change hlocal c).commute (confined_change hlocal d) hne hn

/-- An engine that cannot remove what it does not have, and a catalog that cannot clear what
    it does not have. -/
private def strictReplies : Replies :=
  { Replies.reliable with
    remove := fun n name => if n.jobs.contains name then none else some ⟨.notFound, name⟩
    clear := fun n uri => if (n.catalog.get? uri).isSome then none else some ⟨.notFound, uri⟩ }

/-- What these answer hangs on what is there under the name or the uri. -/
private theorem local_strictReplies : strictReplies.Local where
  install _ _ _ _ := rfl
  remove n m name h := by simp only [strictReplies, h]
  clear n m uri h := by simp only [strictReplies, h]

/-- A flow that is to run once. -/
private def bareFlow (uri : Label) : Flow := ⟨uri, ⟨"1", Eq.refl false⟩, none, ∅⟩

/-- Both flows run, and only the order of the runs is another one. -/
theorem updates_commute :
    let c : Catalog.Change := .updated (.flow (bareFlow ⟨"flow://o", Eq.refl false⟩))
    let d : Catalog.Change := .added (.flow (bareFlow ⟨"flow://p", Eq.refl false⟩))
    let n : Node := initial.lead (.plain strictReplies) true
    let first := n.obeyAll (.plain strictReplies) [.change c, .change d]
    let second := n.obeyAll (.plain strictReplies) [.change d, .change c]
    first.queued ≠ second.queued ∧ first.trace ≠ n.trace ∧ Agrees first second :=
  ⟨by decide +kernel, by decide +kernel,
    changes_commute local_strictReplies (by decide +kernel) (by decide +kernel)⟩

end Node

end FlowCadence
