import TagScript.Host

/-! The end of a queue, and giving up holds. -/

namespace TagScript.Queue

variable {η : Type}

def carryOut (action : StopAction) : RunM η Unit :=
  match action with
  | .release queue => RunM.release queue
  | .notify label => RunM.emit (.stopped label)

/-- Asks for something at the end of a queue; at once if it has stopped. -/
def atEnd (ref : QueueRef) (action : StopAction) : RunM η Unit := do
  if (← RunM.queue ref).isStopped then carryOut action
  else RunM.modifyQueue ref fun queue => { queue with onStop := queue.onStop ++ [action] }

def cancelTimer (timer : TimerId) : RunM η Unit :=
  RunM.update fun world => { world with scheduler := world.scheduler.cancel timer }

/-- Stops a queue for good: its entries are dropped, its timer is cancelled, it is no longer live, and
those who wait for its end are told. -/
def stop (host : Host) (ref : QueueRef) : RunM η Unit := do
  let queue ← RunM.queue ref
  if queue.isStopped then return
  RunM.modifyQueue ref Queue.close
  queue.timer.forM cancelTimer
  let _ ← RunM.updateGet (World.removeLive ref)
  host.remark queue.id "Queue completed."
  queue.onStop.forM carryOut

def releaseHold (id : String) : RunM η Bool := do
  match (← RunM.world).liveQueue? id with
  | none => return false
  | some ref =>
    RunM.modifyQueue ref Queue.release
    let left := (← RunM.queue ref).holds
    RunM.log .trace s!"Released hold on '{id}' ({left} left)."
    return true

end TagScript.Queue
