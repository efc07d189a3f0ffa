import Webserver.Proofs.ConnectionEnds

/-! What one step of the process does, said once: a constructor for each branch that
succeeds, with its guards. The invariants are case analyses over it. -/

namespace Webserver
open Library

universe u
variable {α : Type u}

def Event.isHandler : Event α → Bool
  | .close | .error | .read _ | .write _ => true
  | _ => false

def Event.isCall : Event α → Bool
  | .send .. | .sendFile .. | .shutdown => true
  | _ => false

def Caller.functor : Caller → Option Functor
  | .tested (.send data len) => some (.sendInLoop data len)
  | .tested (.sendFile fileDescriptor offset count) => some (.sendFileInLoop fileDescriptor offset count)
  | .shuttingDown => some .shutdownInLoop
  | .tested .shutdown | .outside => none

theorem Caller.functor_acts {caller : Caller} {functor : Functor} (bound : caller.functor = some functor) :
    caller ≠ .outside ∧ functor.isNotification = false ∧ functor ≠ .connectEstablished := by
  cases caller with
  | outside => cases bound
  | tested request =>
    cases request with
    | shutdown => cases bound
    | _ =>
      cases bound
      simp [Functor.isNotification]
  | shuttingDown =>
    cases bound
    simp [Functor.isNotification]

namespace Process

/-- The first functor of the batch has run; a `sendInLoop` has read the memory of its data. -/
abbrev executed [OfNat α 0] (process : Process α) (functor : Functor) (rest : List Functor) (result : IoResult) : Process α :=
  { process with
    conn := (process.conn.popped rest).execute functor result
    dangling := process.dangling || process.dangles functor }

inductive LoopMove [OfNat α 0] (before : Process α) : Event α → Process α → Prop where
  | poll (revents : Mask) (registered : (before.conn.loop_.poller_.epollfd_ before.conn.channel_.fd_).isSome = true) :
      LoopMove before (.poll revents) { before with dispatch := .close revents }
  | passes (event : Event α) (next : Dispatch) (handles : event.isHandler = true) (position : before.dispatch ≠ .idle)
      (onward : ∀ revents, next ≠ .close revents) : LoopMove before event { before with dispatch := next }
  | closes (revents : Mask) (position : before.dispatch = .close revents) (closed : Channel.closes revents = true) :
      LoopMove before .close { before with dispatch := .error revents }.handleClose
  | ends (revents : Mask) (received : Option (List α)) (position : before.dispatch = .read revents)
      (reads : Channel.reads revents = true) (closed : readCloses received = true) :
      LoopMove before (.read received)
        { before with dispatch := .write revents, conn := before.conn.filled received }.handleClose
  | delivers (revents : Mask) (received : Option (List α)) (conn : TcpConnection α)
      (position : before.dispatch = .read revents) (open_ : readCloses received = false)
      (same : conn = before.conn.filled received ∨ conn = (before.conn.filled received).invoke .message) :
      LoopMove before (.read received) { before with dispatch := .write revents, conn := conn }
  | writes (revents : Mask) (result : IoResult) (position : before.dispatch = .write revents)
      (fits : result.fits before.conn.outputBuffer_.readableBytes = true) :
      LoopMove before (.write result) { before with dispatch := .idle, conn := before.conn.handleWrite result }
  | swapFunctors (between : before.conn.loop_.callingPendingFunctors_ = false) :
      LoopMove before .swapFunctors
        { before with conn := { before.conn with loop_ := before.conn.loop_.swapFunctors } }
  | destroys (result : IoResult) (rest : List Functor)
      (queue : before.conn.loop_.functors = .connectDestroyed :: rest) :
      LoopMove before (.runFunctor result) { before with conn := before.conn.popped rest }.connectDestroyed
  | runs (result : IoResult) (functor : Functor) (rest : List Functor)
      (queue : before.conn.loop_.functors = functor :: rest) (keeps : functor ≠ .connectDestroyed)
      (fits : result.fits ((before.conn.popped rest).request functor) = true) :
      LoopMove before (.runFunctor result) (before.executed functor rest result)
  | endFunctors (finished : before.conn.loop_.functors = []) :
      LoopMove before .endFunctors { before with conn := { before.conn with loop_ := before.conn.loop_.endFunctors } }
  | refuses (event : Event α) (calls : event.isCall = true) (refused : before.conn.state_ ≠ .kConnected) :
      LoopMove before event before
  | sends (data len : Nat) (result : IoResult) (connected : before.conn.state_ = .kConnected)
      (held : before.holds data len = true) (fits : result.fits len = true) :
      LoopMove before (.send data len result)
        { before with conn := before.conn.sendInLoop (before.conn.read data len) result }
  | sendsFile (fileDescriptor offset count : Nat) (result : IoResult) (connected : before.conn.state_ = .kConnected)
      (fits : result.fits (before.conn.range fileDescriptor offset count).length = true) :
      LoopMove before (.sendFile fileDescriptor offset count result)
        { before with conn := before.conn.sendFileInLoop fileDescriptor offset count result }
  | shuts (connected : before.conn.state_ = .kConnected) :
      LoopMove before .shutdown { before with conn := (before.conn.setState .kDisconnecting).shutdownInLoop }

inductive Move [OfNat α 0] (before : Process α) : Event α → Process α → Prop where
  | loop (event : Event α) (after : Process α) (free : before.destroying = false)
      (moved : LoopMove before event after) : Move before event after
  | refuses (thread : Nat) (request : Request) (refused : before.conn.state_ ≠ .kConnected) :
      Move before (.call thread request) before
  | calls (thread : Nat) (request : Request) (outside : before.callers thread = .outside)
      (given : before.given request = true) (connected : before.conn.state_ = .kConnected) :
      Move before (.call thread request)
        { before with callers := Function.update before.callers thread (.tested request) }
  | queues (thread : Nat) (functor : Functor) (caller : Caller) (position : before.callers thread = caller)
      (bound : caller.functor = some functor) :
      Move before (.proceed thread)
        { before with
          conn := before.conn.queueFromThread functor
          callers := Function.update before.callers thread .outside }
  | setsState (thread : Nat) (position : before.callers thread = .tested .shutdown) :
      Move before (.proceed thread)
        { before with
          conn := before.conn.setState .kDisconnecting
          callers := Function.update before.callers thread .shuttingDown }
  | stores (address : Nat) (byte : α) :
      Move before (.store address byte)
        { before with
          conn := { before.conn with memory := Function.update before.conn.memory address byte }
          freed := Function.update before.freed address false }
  | discards (data len : Nat) (held : before.holds data len = true) :
      Move before (.discard data len)
        { before with freed := fun address => before.freed address || (data ≤ address && address < data + len) }
  | removes (waits : 0 < before.server.removals) :
      Move before .removeConnectionInLoop
        { before with server := { before.server with removals := before.server.removals - 1 } }.removeConnectionInLoop
  | destroysServer : Move before .destroyServer before.destroyServer
  | leaves (busy : before.destroying = true) :
      Move before .leaveConnected
        { before with conn := before.conn.leaveConnected.remove, destroying := false, destroyed := true }

theorem runFunctor_cases [OfNat α 0] {before after : Process α} {result : IoResult}
    (stepped : before.runFunctor result = some after) : LoopMove before (.runFunctor result) after := by
  simp only [runFunctor] at stepped
  split at stepped
  next none => cases stepped
  next functor rest queue =>
    split at stepped
    next destroys =>
      cases stepped
      exact .destroys result rest (destroys ▸ queue)
    next keeps =>
      split at stepped <;> cases stepped
      next fits => exact .runs result functor rest queue keeps fits

theorem read_cases [OfNat α 0] {before after : Process α} {received : Option (List α)}
    (stepped : before.loopStep (.read received) = some after) : LoopMove before (.read received) after := by
  simp only [loopStep] at stepped
  split at stepped
  next revents position =>
    split at stepped
    next unread =>
      cases stepped
      exact .passes _ _ rfl (by simp [position]) (by simp)
    next reads =>
      split at stepped <;> cases stepped
      unfold Process.handleRead
      simp only
      split
      next closed =>
        rw [TcpConnection.handleRead_closes _ _ closed]
        exact .ends revents received position (by simpa using reads) closed
      next open_ =>
        have open_ : readCloses received = false := by simpa using open_
        exact .delivers revents received _ position open_ (before.conn.handleRead_delivers received open_)
  next other => cases stepped

theorem loopStep_cases [OfNat α 0] {event : Event α} {before after : Process α}
    (stepped : before.loopStep event = some after) : LoopMove before event after := by
  cases event with
  | poll revents =>
    simp only [loopStep] at stepped
    split at stepped <;> cases stepped
    next enabled =>
      simp only [Bool.and_eq_true] at enabled
      exact .poll revents enabled.2
  | close =>
    simp only [loopStep] at stepped
    split at stepped <;> cases stepped
    next revents position =>
      split
      next closed => exact .closes revents position closed
      next open_ => exact .passes _ _ rfl (by simp [position]) (by simp)
  | error =>
    simp only [loopStep] at stepped
    split at stepped <;> cases stepped
    next revents position => exact .passes _ _ rfl (by simp [position]) (by simp)
  | read received => exact read_cases stepped
  | write result =>
    simp only [loopStep] at stepped
    split at stepped
    next revents position =>
      split at stepped
      next unready =>
        cases stepped
        exact .passes _ _ rfl (by simp [position]) (by simp)
      next ready =>
        split at stepped <;> cases stepped
        next fits => exact .writes revents result position fits
    next other => cases stepped
  | swapFunctors =>
    simp only [loopStep] at stepped
    split at stepped <;> cases stepped
    next enabled =>
      simp only [Bool.and_eq_true, Bool.not_eq_true'] at enabled
      exact .swapFunctors enabled.1
  | runFunctor result => exact runFunctor_cases stepped
  | endFunctors =>
    simp only [loopStep] at stepped
    split at stepped <;> cases stepped
    next enabled =>
      simp only [Bool.and_eq_true, List.isEmpty_iff] at enabled
      exact .endFunctors enabled.2
  | send data len result =>
    simp only [loopStep, TcpConnection.send] at stepped
    split at stepped <;> cases stepped
    next enabled =>
      obtain ⟨held, fits⟩ := Bool.and_eq_true_iff.mp enabled
      split
      next connected => exact .sends data len result connected held fits
      next refused => exact .refuses _ rfl refused
  | sendFile fileDescriptor offset count result =>
    simp only [loopStep, TcpConnection.sendFile, TcpConnection.connected, decide_eq_true_eq] at stepped
    split at stepped <;> cases stepped
    next fits =>
      split
      next connected => exact .sendsFile fileDescriptor offset count result connected fits
      next refused => exact .refuses _ rfl refused
  | shutdown =>
    simp only [loopStep, TcpConnection.shutdown] at stepped
    cases stepped
    split
    next connected => exact .shuts connected
    next refused => exact .refuses _ rfl refused
  | _ => cases stepped

theorem proceed_cases [OfNat α 0] {before after : Process α} {thread : Nat}
    (stepped : before.proceed thread = some after) : Move before (.proceed thread) after := by
  simp only [proceed] at stepped
  split at stepped <;> cases stepped
  next data len position => exact .queues thread _ _ position rfl
  next fileDescriptor offset count position => exact .queues thread _ _ position rfl
  next position => exact .setsState thread position
  next position => exact .queues thread _ _ position rfl

theorem step_cases [OfNat α 0] {event : Event α} {before after : Process α} (stepped : before.step event = some after) :
    Move before event after := by
  have loop (stepped : (if before.destroying then none else before.loopStep event) = some after) :
      Move before event after := by
    split at stepped
    next busy => cases stepped
    next free => exact .loop event after (by simpa using free) (loopStep_cases stepped)
  cases event with
  | call thread request =>
    simp only [step] at stepped
    split at stepped
    next enabled =>
      split at stepped <;> cases stepped
      next connected => exact .calls thread request enabled.1 enabled.2 connected
      next refused => exact .refuses thread request refused
    next disabled => cases stepped
  | proceed thread => exact proceed_cases stepped
  | store address byte =>
    cases stepped
    exact .stores address byte
  | discard data len =>
    simp only [step] at stepped
    split at stepped <;> cases stepped
    next held => exact .discards data len held
  | removeConnectionInLoop =>
    simp only [step] at stepped
    split at stepped <;> cases stepped
    next enabled =>
      simp only [Bool.and_eq_true, decide_eq_true_eq] at enabled
      exact .removes enabled.2
  | destroyServer =>
    simp only [step] at stepped
    split at stepped <;> cases stepped
    exact .destroysServer
  | leaveConnected =>
    simp only [step] at stepped
    split at stepped <;> cases stepped
    next busy => exact .leaves busy
  | _ => exact loop stepped

end Process
end Webserver
