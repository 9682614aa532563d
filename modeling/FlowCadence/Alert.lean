import FlowCadence.Fault
/-! # Alerts

What a node reports about itself to whoever watches over it: trouble that it has
dealt with and that no caller is told of. -/

namespace FlowCadence

/-- How grave an alert is. -/
inductive Alert.Level where
  | warning
  | error
  deriving DecidableEq, Repr

/-- Trouble that a node reports. -/
inductive Alert where
  /-- The trigger of an added flow could not be installed. -/
  | notScheduled (failure : Failure)
  /-- A removed flow had no trigger. -/
  | noTrigger
  /-- The trigger of a removed flow could not be removed. -/
  | notUnscheduled (failure : Failure)
  /-- A deleted flow could not be removed from the catalog. -/
  | notCleared (failure : Failure)
  /-- The catalog could not be listed. -/
  | notListed (fault : Fault)
  /-- A notice could not be sent. -/
  | notForwarded (failure : Failure)
  /-- A notice arrived on standby. -/
  | noticeOnStandby
  /-- A flow that a notice names is not in the catalog. -/
  | noticeUnknown
  /-- A flow that a notice names could not be looked up. -/
  | noticeNotResolved (fault : Fault)
  /-- A notice of a removed flow does not name one. -/
  | removalMalformed (fault : Fault)
  /-- The node went on standby before it could act on a removal. -/
  | removalOnStandby
  /-- A removed flow could not be looked up. -/
  | removalNotReconciled (fault : Fault)
  /-- An execution came back that was not known to run. -/
  | outOfSync (fault : Fault)
  /-- A firing came back with a failure. -/
  | firingFailed (failure : Failure)
  /-- A firing broke off. -/
  | firingLost
  /-- An immediate run came back with a failure. -/
  | runFailed (failure : Failure)
  /-- The lease went to another holder, or ran out. -/
  | leaseLost
  | leaseNotAcquired (fault : Fault)
  | leaseNotRenewed (fault : Fault)
  | leaseNotReleased (fault : Fault)
  | inboxNotRead (fault : Fault)
  /-- What lay in the inbox is not a notice. -/
  | noticeMalformed
  /-- A hand-off that did not succeed is tried again. -/
  | handOffRetried (problem : String)
  deriving DecidableEq, Repr

namespace Alert

/-- How grave an alert is. -/
def level : Alert → Level
  | .notScheduled _ | .notListed _ | .firingFailed _ | .runFailed _ => .error
  | .noTrigger | .notUnscheduled _ | .notCleared _ | .notForwarded _ | .noticeOnStandby
  | .noticeUnknown | .noticeNotResolved _ | .removalMalformed _ | .removalOnStandby
  | .removalNotReconciled _ | .outOfSync _ | .firingLost | .leaseLost | .leaseNotAcquired _
  | .leaseNotRenewed _ | .leaseNotReleased _ | .inboxNotRead _ | .noticeMalformed
  | .handOffRetried _ => .warning

/-- The words of an alert. -/
def message : Alert → String
  | .notScheduled _ => "failed to schedule flow spec"
  | .noTrigger => "no scheduled job found for flow spec"
  | .notUnscheduled _ => "flow spec was not unscheduled cleanly"
  | .notCleared _ => "flow spec was not removed from catalog cleanly"
  | .notListed _ => "failed to enumerate catalog specs"
  | .notForwarded _ => "failed to forward spec event"
  | .noticeOnStandby => "ignoring forwarded spec event while standby"
  | .noticeUnknown => "forwarded flow spec is not in the catalog"
  | .noticeNotResolved _ => "failed to resolve forwarded flow spec"
  | .removalMalformed _ => "malformed forwarded removal"
  | .removalOnStandby => "leadership lost during forwarded removal, keeping schedule"
  | .removalNotReconciled _ => "failed to reconcile forwarded removal"
  | .outOfSync _ => "job execution state out of sync"
  | .firingFailed _ => "flow job failed"
  | .firingLost => "trigger firing task failed"
  | .runFailed _ => "failed to run job"
  | .leaseLost => "leadership lease lost"
  | .leaseNotAcquired _ => "failed to acquire leadership lease"
  | .leaseNotRenewed _ => "failed to renew leadership lease, stepping down"
  | .leaseNotReleased _ => "failed to release leadership lease"
  | .inboxNotRead _ => "failed to read controller inbox"
  | .noticeMalformed => "dropping malformed controller message"
  | .handOffRetried _ => "retrying flow run hand-off"

/-- The words of the trouble behind an alert. -/
def error? : Alert → Option String
  | .notScheduled f | .notUnscheduled f | .notCleared f | .notForwarded f | .firingFailed f
  | .runFailed f => some f.message
  | .notListed f | .noticeNotResolved f | .removalMalformed f | .removalNotReconciled f
  | .outOfSync f | .leaseNotAcquired f | .leaseNotRenewed f | .leaseNotReleased f
  | .inboxNotRead f => some f.message
  | .handOffRetried problem => some problem
  | .noTrigger | .noticeOnStandby | .noticeUnknown | .removalOnStandby | .leaseLost
  | .firingLost | .noticeMalformed => none

/-- The fault behind the trouble, where the trouble is a failure of the scheduler. -/
def cause? : Alert → Option Fault
  | .notScheduled f | .notUnscheduled f | .notCleared f | .notForwarded f | .firingFailed f
  | .runFailed f => some f.cause
  | _ => none

end Alert

end FlowCadence
