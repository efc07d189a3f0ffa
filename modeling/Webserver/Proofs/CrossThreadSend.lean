import Webserver.Library.Mailbox
import Webserver.Proofs.ProcessInvariant

/-! `send` from any thread: the stream consists of whole messages, each thread's in
the order of its calls, as long as no queued message is overwritten or freed before
its functor has run. -/

namespace Webserver
open Library

universe u
variable {α : Type u}

namespace Process

/-- Sends, events that do not close the connection and no fatal socket error. -/
def isSending : Event α → Bool
  | .poll revents => !Channel.closes revents
  | .read received => !readCloses received
  | .write result | .runFunctor result | .send _ _ result => !result.isFault
  | .call _ (.send _ _) => true
  | .sendFile .. | .shutdown | .call .. | .destroyServer => false
  | _ => true

/-- A sender is another thread, or the loop thread itself. -/
abbrev Sender := Option Nat

/-- The record of the accepted calls of `send`, with the content of their buffers at the call. -/
def record (event : Event α) (process : Process α) (called : List (Sender × List α)) : List (Sender × List α) :=
  match event with
  | .send data len _ =>
    if process.conn.state_ = .kConnected then called ++ [(none, process.conn.read data len)] else called
  | .call thread (.send data len) =>
    if process.conn.state_ = .kConnected then called ++ [(some thread, process.conn.read data len)] else called
  | _ => called

def sending [OfNat α 0] : Machine (Process α × List (Sender × List α)) (Event α) := machine.watch record

/-- The buffer that a functor will read. -/
def Reads (functor : Functor) (address : Nat) : Prop :=
  match functor with
  | .sendInLoop data len => data ≤ address ∧ address < data + len
  | _ => False

/-- The functor is queued, or a thread is about to queue it. -/
def Pending (process : Process α) (functor : Functor) : Prop :=
  functor ∈ process.conn.work ∨ ∃ thread, (process.callers thread).functor = some functor

/-- No store changes and no discard frees a byte of a `send` that is under way or still queued. -/
def Untouched (event : Event α) (process : Process α) : Prop :=
  match event with
  | .store address byte => byte = process.conn.memory address ∨ ∀ functor, Pending process functor → ¬Reads functor address
  | .discard data len =>
    ∀ functor, Pending process functor → ∀ address, Reads functor address → ¬(data ≤ address ∧ address < data + len)
  | _ => True

def contents (conn : TcpConnection α) (functors : List Functor) : List (List α) :=
  functors.filterMap fun
    | .sendInLoop data len => some (conn.read data len)
    | _ => none

def handed (conn : TcpConnection α) : Caller → List (List α)
  | .tested (.send data len) => [conn.read data len]
  | _ => []

def underWay (process : Process α) : Sender → List (List α)
  | none => []
  | some thread => handed process.conn (process.callers thread)

/-- The mailbox of the connection's messages. -/
structure Delivers (process : Process α) (called : List (Sender × List α)) (box : Mailbox Sender (List α)) : Prop where
  called : box.called = called
  pending : box.pending = underWay process
  queued : box.queued.map Prod.snd = contents process.conn process.conn.work
  foreign : ofSender none box.queued = []
  stream : process.conn.stream = (box.delivered.map Prod.snd).flatten

structure SendsOnly (process : Process α) : Prop where
  sound : Sound process
  state_ : process.conn.state_ = .kConnecting ∨ process.conn.state_ = .kConnected
  work : ∀ functor ∈ process.conn.work, functor = .connectEstablished ∨ ∃ data len, functor = .sendInLoop data len
  callers : ∀ thread, process.callers thread = .outside ∨ ∃ data len, process.callers thread = .tested (.send data len)
  dispatch : ∀ revents, process.dispatch = .close revents → Channel.closes revents = false
  removals : process.server.removals = 0
  destroying : process.destroying = false

inductive Sent (event : Event α) (before after : Process α) : Prop where
  | quiet (unrecorded : ∀ called, record event before called = called)
      (stream : after.conn.stream = before.conn.stream) (memory : after.conn.memory = before.conn.memory)
      (work : after.conn.work = before.conn.work ∨ before.conn.work = .connectEstablished :: after.conn.work)
      (callers : after.callers = before.callers)
  | direct (data len : Nat) (result : IoResult) (sends : event = .send data len result)
      (connected : before.conn.state_ = .kConnected)
      (stream : after.conn.stream = before.conn.stream ++ before.conn.read data len)
      (memory : after.conn.memory = before.conn.memory) (work : after.conn.work = before.conn.work)
      (callers : after.callers = before.callers)
  | call (thread data len : Nat) (calls : event = .call thread (.send data len)) (held : before.holds data len = true)
      (connected : before.conn.state_ = .kConnected) (outside : before.callers thread = .outside)
      (conn : after.conn = before.conn)
      (callers : after.callers = Function.update before.callers thread (.tested (.send data len)))
  | handOver (thread data len : Nat) (unrecorded : ∀ called, record event before called = called)
      (inside : before.callers thread = .tested (.send data len))
      (stream : after.conn.stream = before.conn.stream) (memory : after.conn.memory = before.conn.memory)
      (work : after.conn.work = before.conn.work ++ [.sendInLoop data len])
      (callers : after.callers = Function.update before.callers thread .outside)
  | deliver (data len : Nat) (unrecorded : ∀ called, record event before called = called)
      (stream : after.conn.stream = before.conn.stream ++ before.conn.read data len)
      (memory : after.conn.memory = before.conn.memory)
      (work : before.conn.work = .sendInLoop data len :: after.conn.work) (callers : after.callers = before.callers)
  | store (address : Nat) (byte : α) (stores : event = .store address byte)
      (stream : after.conn.stream = before.conn.stream)
      (memory : after.conn.memory = Function.update before.conn.memory address byte)
      (work : after.conn.work = before.conn.work) (callers : after.callers = before.callers)

structure Open (before after : Process α) : Prop where
  state_ : after.conn.state_ = before.conn.state_ ∨ after.conn.state_ = .kConnected
  dispatch : ∀ revents, after.dispatch = .close revents → Channel.closes revents = false
  removals : after.server.removals = before.server.removals
  destroying : after.destroying = before.destroying

theorem Sent.frame {event : Event α} {before after : Process α} (unrecorded : ∀ called, record event before called = called)
    (frame : TcpConnection.Frame [] before.conn after.conn) (stream : after.conn.stream = before.conn.stream)
    (callers : after.callers = before.callers) : Sent event before after :=
  .quiet unrecorded stream frame.memory (.inl (by simpa using frame.work)) callers

private theorem record_refused {event : Event α} {process : Process α} (refused : process.conn.state_ ≠ .kConnected)
    (called : List (Sender × List α)) : record event process called = called := by
  unfold record
  split <;> simp [refused]

private theorem record_handler {event : Event α} (handles : event.isHandler = true) (process : Process α)
    (called : List (Sender × List α)) : record event process called = called := by
  cases event <;> first | rfl | cases handles

private theorem execute_sent [OfNat α 0] {before : Process α} (only : SendsOnly before) {functor : Functor}
    {rest : List Functor}
    (queue : before.conn.loop_.functors = functor :: rest) {result : IoResult} (healthy : result.isFault = false)
    (keeps : functor ≠ .connectDestroyed) :
    Sent (.runFunctor result) before (before.executed functor rest result) ∧
      Open before (before.executed functor rest result) := by
  have work := before.conn.work_pop functor rest queue
  cases informs : functor.isNotification with
  | true =>
    simp only [informs, if_true, List.nil_append] at work
    obtain ⟨callback, same, _⟩ := (before.conn.popped rest).execute_notification functor result informs
    rw [executed, same]
    exact ⟨.quiet (fun _ => rfl) rfl rfl (.inl work.symm) rfl, .inl rfl, only.dispatch, rfl, rfl⟩
  | false =>
    simp only [informs, Bool.false_eq_true, if_false, List.singleton_append] at work
    rcases only.work functor (by simp [work]) with rfl | ⟨data, len, rfl⟩
    · have began := TcpConnection.Began.connectEstablished (before.conn.popped rest)
      refine ⟨.quiet (fun _ => rfl) rfl rfl (.inr ?_) rfl, .inr began.state_, only.dispatch, rfl, rfl⟩
      rw [work]
      exact congrArg _ began.work.symm
    · have frame := TcpConnection.Frame.sendInLoop (before.conn.popped rest) (before.conn.read data len) result
      refine ⟨.deliver data len (fun _ => rfl) ?_ frame.memory ?_ rfl, .inl frame.state_, only.dispatch, rfl, rfl⟩
      · exact (before.conn.popped rest).sendInLoop_stream _ result healthy
      · rw [work]
        exact congrArg _ (frame.work.trans (List.append_nil _)).symm

private theorem loopStep_sent [OfNat α 0] {event : Event α} {before after : Process α} (only : SendsOnly before)
    (sends : isSending event = true) (moved : LoopMove before event after) :
    Sent event before after ∧ Open before after := by
  cases moved with
  | poll revents registered =>
    refine ⟨.frame (fun _ => rfl) (.refl _) rfl rfl, .inl rfl, ?_, rfl, rfl⟩
    intro others same
    cases same
    simpa [isSending] using sends
  | passes _ next handles position onward =>
    refine ⟨.frame (record_handler handles before) (.refl _) rfl rfl, .inl rfl, ?_, rfl, rfl⟩
    intro revents same
    exact absurd same (onward revents)
  | closes revents position closed =>
    rw [only.dispatch revents position] at closed
    cases closed
  | ends revents received position reads closed => simp [isSending, closed] at sends
  | delivers revents received conn position open_ same =>
    rcases same with rfl | rfl
    · exact ⟨.frame (fun _ => rfl) (.filled _ _) rfl rfl, .inl rfl, by simp, rfl, rfl⟩
    · exact ⟨.frame (fun _ => rfl) ((TcpConnection.Frame.filled _ _).trans (.invoke _ _ rfl)) rfl rfl,
        .inl rfl, by simp, rfl, rfl⟩
  | writes revents result position =>
    have frame := TcpConnection.Frame.handleWrite before.conn result
    exact ⟨.frame (fun _ => rfl) frame (before.conn.handleWrite_stream result) rfl, .inl frame.state_, by simp,
      rfl, rfl⟩
  | swapFunctors between =>
    have work := before.conn.work_swap (only.sound.batch between)
    exact ⟨.quiet (fun _ => rfl) rfl rfl (.inl work) rfl, .inl rfl, only.dispatch, rfl, rfl⟩
  | destroys result rest queue =>
    have member : .connectDestroyed ∈ before.conn.work := by
      rw [before.conn.work_pop _ rest queue]
      exact List.mem_cons_self
    rcases only.work _ member with same | ⟨data, len, same⟩ <;> cases same
  | runs result functor rest queue keeps =>
    exact execute_sent only queue (by simpa [isSending] using sends) keeps
  | endFunctors finished =>
    exact ⟨.quiet (fun _ => rfl) rfl rfl (.inl rfl) rfl, .inl rfl, only.dispatch, rfl, rfl⟩
  | refuses _ calls refused =>
    exact ⟨.frame (record_refused refused) (.refl _) rfl rfl, .inl rfl, only.dispatch, rfl, rfl⟩
  | sends data len result connected held =>
    have frame := TcpConnection.Frame.sendInLoop before.conn (before.conn.read data len) result
    have healthy : result.isFault = false := by simpa [isSending] using sends
    exact ⟨.direct data len result rfl connected (before.conn.sendInLoop_stream _ result healthy) frame.memory
      (frame.work.trans (List.append_nil _)) rfl, .inl frame.state_, only.dispatch, rfl, rfl⟩
  | sendsFile | shuts => cases sends

theorem step_sent [OfNat α 0] {event : Event α} {before after : Process α} (only : SendsOnly before)
    (sends : isSending event = true) (stepped : before.step event = some after) :
    Sent event before after ∧ Open before after := by
  cases step_cases stepped with
  | loop _ _ free moved => exact loopStep_sent only sends moved
  | refuses thread request refused =>
    exact ⟨.frame (record_refused refused) (.refl _) rfl rfl, .inl rfl, only.dispatch, rfl, rfl⟩
  | calls thread request outside given connected =>
    cases request with
    | send data len => exact ⟨.call thread data len rfl given connected outside rfl rfl, .inl rfl, only.dispatch, rfl, rfl⟩
    | sendFile | shutdown => cases sends
  | queues thread functor caller position bound =>
    rcases only.callers thread with outside | ⟨data, len, inside⟩
    · exact absurd (position.symm.trans outside) (Caller.functor_acts bound).1
    · cases position.symm.trans inside
      cases bound
      have queues := TcpConnection.Queues.queueFromThread before.conn (.sendInLoop data len) rfl
      exact ⟨.handOver thread data len (fun _ => rfl) inside rfl rfl queues.work rfl, .inl rfl, only.dispatch, rfl, rfl⟩
  | setsState thread position =>
    rcases only.callers thread with outside | ⟨data, len, inside⟩
    · cases position.symm.trans outside
    · cases position.symm.trans inside
  | stores address byte =>
    exact ⟨.store address byte rfl rfl rfl rfl rfl, .inl rfl, only.dispatch, rfl, rfl⟩
  | discards data len held => exact ⟨.quiet (fun _ => rfl) rfl rfl (.inl rfl) rfl, .inl rfl, only.dispatch, rfl, rfl⟩
  | removes waits => exact absurd only.removals (Nat.ne_of_gt waits)
  | destroysServer => cases sends
  | leaves busy =>
    rw [only.destroying] at busy
    cases busy

theorem SendsOnly.step [OfNat α 0] {event : Event α} {before after : Process α} (only : SendsOnly before)
    (sent : Sent event before after) (open_ : Open before after) (stepped : before.step event = some after) :
    SendsOnly after := by
  refine ⟨only.sound.step stepped, ?_, ?_, ?_, open_.dispatch, open_.removals.trans only.removals,
    open_.destroying.trans only.destroying⟩
  · rcases open_.state_ with same | connected
    · rw [same]
      exact only.state_
    · exact .inr connected
  · intro functor member
    cases sent with
    | quiet unrecorded stream memory work callers =>
      rcases work with work | work
      · exact only.work functor (work ▸ member)
      · exact only.work functor (work ▸ List.mem_cons_of_mem _ member)
    | direct data len result sends connected stream memory work callers => exact only.work functor (work ▸ member)
    | call thread data len calls held connected outside conn callers => exact only.work functor (conn ▸ member)
    | handOver thread data len unrecorded inside stream memory work callers =>
      rw [work, List.mem_append, List.mem_singleton] at member
      exact member.elim (only.work functor) fun same => .inr ⟨data, len, same⟩
    | deliver data len unrecorded stream memory work callers =>
      exact only.work functor (work ▸ List.mem_cons_of_mem _ member)
    | store address byte stores stream memory work callers => exact only.work functor (work ▸ member)
  · intro thread
    have moved (other : Nat) (caller : Caller) (callers : after.callers = Function.update before.callers other caller)
        (shape : caller = .outside ∨ ∃ data len, caller = .tested (.send data len)) :
        after.callers thread = .outside ∨ ∃ data len, after.callers thread = .tested (.send data len) := by
      rw [callers]
      by_cases same : thread = other
      · subst thread
        simpa using shape
      · simpa [same] using only.callers thread
    cases sent with
    | quiet unrecorded stream memory work callers => exact callers ▸ only.callers thread
    | direct data len result sends connected stream memory work callers => exact callers ▸ only.callers thread
    | call other data len calls held connected outside conn callers => exact moved other _ callers (.inr ⟨data, len, rfl⟩)
    | handOver other data len unrecorded inside stream memory work callers => exact moved other _ callers (.inl rfl)
    | deliver data len unrecorded stream memory work callers => exact callers ▸ only.callers thread
    | store address byte stores stream memory work callers => exact callers ▸ only.callers thread

def SameRead (first second : TcpConnection α) (functor : Functor) : Prop :=
  ∀ data len, functor = .sendInLoop data len → first.read data len = second.read data len

theorem SameRead.memory {first second : TcpConnection α} (same : first.memory = second.memory) (functor : Functor) :
    SameRead first second functor :=
  fun data len _ => by simp [TcpConnection.read, same]

theorem SameRead.store {before after : TcpConnection α} {address : Nat} {byte : α} {functor : Functor}
    (memory : after.memory = Function.update before.memory address byte) (apart : ¬Reads functor address) :
    SameRead after before functor := by
  rintro data len rfl
  apply List.map_congr_left
  intro offset member
  rw [memory, Function.update_of_ne]
  intro same
  have inside := List.mem_range.mp member
  exact apart ⟨by omega, by omega⟩

private theorem contents_eq {before after : TcpConnection α} {functors : List Functor}
    (reads : ∀ functor ∈ functors, SameRead after before functor) : contents after functors = contents before functors := by
  apply List.filterMap_congr
  intro functor member
  cases functor with
  | sendInLoop data len => exact congrArg some (reads _ member data len rfl)
  | _ => rfl

private theorem handed_eq {before after : TcpConnection α} {caller : Caller}
    (reads : ∀ data len, caller = .tested (.send data len) → SameRead after before (.sendInLoop data len)) :
    handed after caller = handed before caller := by
  unfold handed
  split
  next data len => rw [reads data len rfl data len rfl]
  next other => rfl

private theorem underWay_eq {before after : Process α} (callers : after.callers = before.callers)
    (reads : ∀ thread data len, before.callers thread = .tested (.send data len) →
      SameRead after.conn before.conn (.sendInLoop data len)) : underWay after = underWay before := by
  funext sender
  cases sender with
  | none => rfl
  | some thread =>
    simp only [underWay, callers]
    exact handed_eq (reads thread)

private theorem underWay_move {before after : Process α} {thread : Nat} {caller : Caller}
    (callers : after.callers = Function.update before.callers thread caller)
    (memory : after.conn.memory = before.conn.memory) :
    underWay after = Function.update (underWay before) (some thread) (handed before.conn caller) := by
  funext sender
  cases sender with
  | none => rfl
  | some other =>
    simp only [underWay, callers]
    rw [handed_eq fun _ _ _ => .memory memory _]
    by_cases same : other = thread
    · subst same
      rw [Function.update_self, Function.update_self]
    · rw [Function.update_of_ne same, Function.update_of_ne (by simpa using same)]
      rfl

theorem Delivers.unchanged {before after : Process α} {called : List (Sender × List α)} {box : Mailbox Sender (List α)}
    (delivers : Delivers before called box) (stream : after.conn.stream = before.conn.stream)
    (content : contents after.conn after.conn.work = contents before.conn before.conn.work)
    (way : underWay after = underWay before) : Delivers after called box :=
  ⟨delivers.called, delivers.pending.trans way.symm, delivers.queued.trans content.symm, delivers.foreign,
    stream.trans delivers.stream⟩

/-- Each step keeps the mailbox, or does to it what it does to the messages. -/
theorem Sent.delivers {event : Event α} {before after : Process α} {called : List (Sender × List α)}
    {box : Mailbox Sender (List α)} (untouched : Untouched event before) (delivers : Delivers before called box)
    (sent : Sent event before after) : ∃ next, Delivers after (record event before called) next := by
  cases sent with
  | quiet unrecorded stream memory work callers =>
    rw [unrecorded]
    refine ⟨box, delivers.unchanged stream ?_ (underWay_eq callers fun _ _ _ _ => .memory memory _)⟩
    rw [contents_eq fun functor _ => .memory memory functor]
    rcases work with work | work <;> rw [work]
    rfl
  | direct data len result sends connected stream memory work callers =>
    subst sends
    refine ⟨box.direct none (before.conn.read data len) delivers.foreign (by rw [delivers.pending]; rfl), ?_, ?_, ?_, ?_, ?_⟩
    · simp [Mailbox.direct, record, connected, delivers.called]
    · exact delivers.pending.trans (underWay_eq callers fun _ _ _ _ => .memory memory _).symm
    · rw [work, contents_eq fun functor _ => .memory memory functor]
      exact delivers.queued
    · exact delivers.foreign
    · simp [Mailbox.direct, stream, delivers.stream]
  | call thread data len calls held connected outside conn callers =>
    subst calls
    have idle : box.pending (some thread) = [] := by
      rw [delivers.pending]
      simp only [underWay, outside, handed]
    refine ⟨box.call (some thread) (before.conn.read data len) idle, ?_, ?_, ?_, ?_, ?_⟩
    · simp [Mailbox.call, record, connected, delivers.called]
    · rw [underWay_move callers (by rw [conn]), ← delivers.pending]
      rfl
    · rw [conn]
      exact delivers.queued
    · exact delivers.foreign
    · rw [conn]
      exact delivers.stream
  | handOver thread data len unrecorded inside stream memory work callers =>
    rw [unrecorded]
    have waits : box.pending (some thread) = [before.conn.read data len] := by
      rw [delivers.pending]
      simp only [underWay, inside, handed]
    refine ⟨box.enqueue (some thread) (before.conn.read data len) waits, delivers.called, ?_, ?_, ?_, ?_⟩
    · rw [underWay_move callers memory, ← delivers.pending]
      rfl
    · rw [work, contents_eq fun functor _ => .memory memory functor, contents, List.filterMap_append]
      simp only [Mailbox.enqueue, List.map_append, delivers.queued]
      rfl
    · simp [Mailbox.enqueue, delivers.foreign]
    · exact stream.trans delivers.stream
  | deliver data len unrecorded stream memory work callers =>
    rw [unrecorded]
    have queued : box.queued.map Prod.snd = before.conn.read data len :: contents before.conn after.conn.work := by
      rw [delivers.queued, work]
      rfl
    obtain ⟨message, rest, first, content, later⟩ := List.map_eq_cons_iff.mp queued
    have foreign := delivers.foreign
    rw [first, show message :: rest = [message] ++ rest from rfl, ofSender_append] at foreign
    refine ⟨box.deliver message rest first, delivers.called, ?_, ?_, (List.append_eq_nil_iff.mp foreign).2, ?_⟩
    · exact delivers.pending.trans (underWay_eq callers fun _ _ _ _ => .memory memory _).symm
    · rw [contents_eq fun functor _ => .memory memory functor]
      exact later
    · simp [Mailbox.deliver, stream, delivers.stream, content]
  | store address byte stores stream memory work callers =>
    subst stores
    have reads : (∀ functor ∈ before.conn.work, SameRead after.conn before.conn functor) ∧
        ∀ thread data len, before.callers thread = .tested (.send data len) →
          SameRead after.conn before.conn (.sendInLoop data len) := by
      rcases untouched with same | apart
      · rw [same, Function.update_eq_self] at memory
        exact ⟨fun functor _ => .memory memory functor, fun _ _ _ _ => .memory memory _⟩
      · exact ⟨fun functor member => .store memory (apart functor (.inl member)),
          fun thread data len position => .store memory (apart _ (.inr ⟨thread, by rw [position]; rfl⟩))⟩
    refine ⟨box, delivers.unchanged stream ?_ (underWay_eq callers reads.2)⟩
    rw [work]
    exact contents_eq reads.1

/-- What a functor or a call of `send` will read is not freed, and nothing freed has been read. -/
structure Backed (process : Process α) : Prop where
  held : ∀ functor, Pending process functor → ∀ address, Reads functor address → process.freed address = false
  defined : process.dangling = false

theorem Sent.pending {event : Event α} {before after : Process α} (sent : Sent event before after) {functor : Functor}
    (pending : Pending after functor) : Pending before functor ∨
      ∃ thread data len, event = .call thread (.send data len) ∧ functor = .sendInLoop data len ∧
        before.holds data len = true := by
  have same (callers : after.callers = before.callers) (queued : functor ∈ after.conn.work → functor ∈ before.conn.work) :
      Pending before functor := pending.imp queued (callers ▸ id)
  cases sent with
  | quiet unrecorded stream memory work callers =>
    refine .inl (same callers fun member => ?_)
    rcases work with work | work
    · exact work ▸ member
    · exact work ▸ List.mem_cons_of_mem _ member
  | direct data len result sends connected stream memory work callers => exact .inl (same callers (work ▸ id))
  | call thread data len calls held connected outside conn callers =>
    rcases pending with queued | ⟨other, bound⟩
    · exact .inl (.inl (conn ▸ queued))
    · by_cases own : other = thread
      · subst own
        rw [callers, Function.update_self] at bound
        cases bound
        exact .inr ⟨other, data, len, calls, rfl, held⟩
      · rw [callers, Function.update_of_ne own] at bound
        exact .inl (.inr ⟨other, bound⟩)
  | handOver thread data len unrecorded inside stream memory work callers =>
    left
    rcases pending with queued | ⟨other, bound⟩
    · rw [work, List.mem_append, List.mem_singleton] at queued
      rcases queued with queued | rfl
      · exact .inl queued
      · exact .inr ⟨thread, by rw [inside]; rfl⟩
    · by_cases own : other = thread
      · subst own
        rw [callers, Function.update_self] at bound
        cases bound
      · rw [callers, Function.update_of_ne own] at bound
        exact .inr ⟨other, bound⟩
  | deliver data len unrecorded stream memory work callers =>
    exact .inl (same callers fun member => work ▸ List.mem_cons_of_mem _ member)
  | store address byte stores stream memory work callers => exact .inl (same callers (work ▸ id))

private theorem holds_iff {process : Process α} {data len : Nat} :
    process.holds data len = true ↔ ∀ address, Reads (.sendInLoop data len) address → process.freed address = false := by
  simp only [holds, List.all_eq_true, List.mem_range, Bool.not_eq_true']
  constructor
  · rintro all address ⟨above, below⟩
    obtain ⟨offset, rfl⟩ := Nat.exists_eq_add_of_le above
    exact all offset (by omega)
  · intro all offset inside
    exact all (data + offset) ⟨by omega, by omega⟩

theorem Backed.step [OfNat α 0] {event : Event α} {before after : Process α} (backed : Backed before)
    (untouched : Untouched event before) (sent : Sent event before after) (stepped : before.step event = some after) :
    Backed after := by
  have remains := step_remains stepped
  refine ⟨?_, ?_⟩
  · intro functor pending address reads
    have held : before.freed address = false := by
      rcases sent.pending pending with old | ⟨thread, data, len, _, rfl, held⟩
      · exact backed.held functor old address reads
      · exact holds_iff.mp held address reads
    apply Bool.eq_false_iff.mpr
    intro freed
    rcases remains.freed address freed with old | ⟨data, len, rfl, inside⟩
    · rw [held] at old
      cases old
    · rcases sent.pending pending with old | ⟨thread, data, len, calls, _⟩
      · exact untouched functor old address reads inside
      · cases calls
  · apply Bool.eq_false_iff.mpr
    intro dangling
    rcases remains.dangling dangling with old | ⟨functor, member, dangles⟩
    · rw [backed.defined] at old
      cases old
    · cases functor with
      | sendInLoop data len =>
        have held := holds_iff.mpr (backed.held _ (.inl member))
        simp [Process.dangles, held] at dangles
      | _ => cases dangles

private theorem newConnection_backed [OfNat α 0] (setup : Setup α) (sameLoop : Bool) : Backed (newConnection setup sameLoop) :=
  ⟨fun _ _ _ _ => rfl, rfl⟩

private theorem newConnection_sendsOnly [OfNat α 0] (setup : Setup α) (sameLoop : Bool) :
    SendsOnly (newConnection setup sameLoop) := by
  refine ⟨newConnection_sound setup sameLoop, ?_, ?_, fun _ => .inl rfl, ?_, rfl, rfl⟩
  · cases sameLoop with
    | true => exact .inr rfl
    | false => exact .inl rfl
  · cases sameLoop with
    | true =>
      intro functor member
      cases member
    | false =>
      intro functor member
      exact .inl (List.mem_singleton.mp member)
  · intro revents position
    cases position

private theorem newConnection_delivers [OfNat α 0] (setup : Setup α) (sameLoop : Bool) :
    Delivers (newConnection setup sameLoop) [] Mailbox.empty := by
  have empty : (Buffer.new : Buffer α).readable = [] := Buffer.readable_new _
  refine ⟨rfl, ?_, ?_, rfl, ?_⟩
  · funext sender
    cases sender <;> rfl
  · cases sameLoop <;> rfl
  · cases sameLoop <;> exact empty

/-- As long as no message is changed or freed before its functor has run, nothing freed is
read, and the stream is an interleaving of whole messages as they were at the calls,
each thread's in call order. -/
theorem cross_thread_send [OfNat α 0] (setup : Setup α) (sameLoop : Bool) (events : List (Event α))
    (sends : ∀ event ∈ events, isSending event = true) (process : Process α) (called : List (Sender × List α))
    (reached : sending.run events (newConnection setup sameLoop, []) = some (process, called))
    (untouched : sending.Along (fun event state => Untouched event state.1) events (newConnection setup sameLoop, [])) :
    process.dangling = false ∧
    ∃ messages : List (Sender × List α), process.conn.stream = (messages.map Prod.snd).flatten ∧
      (∀ sender, ofSender sender messages <+: ofSender sender called) ∧
      ((∀ functor ∈ process.conn.loop_.waiting, ∀ data len, functor ≠ .sendInLoop data len) →
        (∀ thread, process.callers thread = .outside) →
        ∀ sender, ofSender sender messages = ofSender sender called) := by
  let invariant (state : Process α × List (Sender × List α)) : Prop :=
    SendsOnly state.1 ∧ Backed state.1 ∧ ∃ box, Delivers state.1 state.2 box
  have preserved (event before after) (good : isSending event = true ∧ Untouched event before.1) (kept : invariant before)
      (stepped : sending.step event before = some after) : invariant after := by
    obtain ⟨only, backed, box, delivers⟩ := kept
    obtain ⟨moved, recorded⟩ := Machine.watch_step.mp stepped
    obtain ⟨sent, open_⟩ := step_sent only good.1 moved
    exact ⟨only.step sent open_ moved, backed.step good.2 sent moved, recorded ▸ sent.delivers good.2 delivers⟩
  obtain ⟨only, backed, box, delivers⟩ : invariant (process, called) := Machine.run_invariant preserved reached
    ((Machine.along_of_forall sends _).and untouched)
    ⟨newConnection_sendsOnly setup sameLoop, newConnection_backed setup sameLoop, _, newConnection_delivers setup sameLoop⟩
  have same : box.called = called := delivers.called
  refine ⟨backed.defined, box.delivered, delivers.stream, fun sender => same ▸ box.delivered_prefix sender, ?_⟩
  intro drained outside sender
  have none : contents process.conn process.conn.work = [] := by
    apply List.filterMap_eq_nil_iff.mpr
    intro functor member
    have other := drained functor (List.mem_of_mem_filter member)
    cases functor with
    | sendInLoop data len => exact absurd rfl (other data len)
    | _ => rfl
  have queued : box.queued = [] := List.map_eq_nil_iff.mp (delivers.queued.trans none)
  have pending : box.pending sender = [] := by
    rw [delivers.pending]
    cases sender with
    | none => rfl
    | some thread => simp only [underWay, outside thread, handed]
  have ordered := box.ordered sender
  rw [queued, pending, same, List.append_nil] at ordered
  simpa [ofSender] using ordered

set_option maxRecDepth 20000 in
/-- Two threads and the loop thread, all delivered; then a buffer is freed. -/
theorem cross_thread_send_three :
    ∃ process : Process UInt8, ∃ called,
      sending.run ([.store 1 6, .swapFunctors, .runFunctor (.count 0), .endFunctors, .call 1 (.send 0 2), .call 2 (.send 4 1),
        .proceed 2, .send 8 1 (.count 0), .proceed 1, .swapFunctors, .runFunctor (.count 0), .runFunctor (.count 0),
        .endFunctors] ++ [.discard 0 2])
        (newConnection ⟨7, fun address => UInt8.ofNat address, fun _ => [], true, true, 16⟩ false, []) = some (process, called) ∧
      process.conn.stream = [8, 4, 0, 6] ∧ process.dangling = false ∧
      ∃ messages : List (Sender × List UInt8), process.conn.stream = (messages.map Prod.snd).flatten ∧
        ∀ sender, ofSender sender messages <+: ofSender sender called := by
  obtain ⟨⟨process, called⟩, reached, same⟩ := Option.map_eq_some_iff.mp
    (show (sending.run ([.store 1 6, .swapFunctors, .runFunctor (.count 0), .endFunctors, .call 1 (.send 0 2),
        .call 2 (.send 4 1), .proceed 2, .send 8 1 (.count 0), .proceed 1, .swapFunctors, .runFunctor (.count 0),
        .runFunctor (.count 0), .endFunctors] ++ [.discard 0 2])
        (newConnection (⟨7, fun address => UInt8.ofNat address, fun _ => [], true, true, 16⟩ : Setup UInt8) false, [])).map
          (fun state => state.1.conn.stream) = some [8, 4, 0, 6] by decide +kernel)
  obtain ⟨defined, messages, stream, ordered, _⟩ := cross_thread_send _ false _ (by decide) process called reached (by
    refine Machine.along_append.mpr ⟨⟨.inr ?_, fun _ _ => by simp [Machine.Along, Untouched]⟩, ?_⟩
    · rintro functor (queued | ⟨thread, bound⟩)
      · rw [List.mem_singleton.mp queued]
        exact id
      · cases bound
    · intro middle delivered
      -- Nothing is queued any more, and both threads have returned.
      have rest : middle.1.conn.work = [] ∧ middle.1.callers = Function.update (Function.update (Function.update
          (Function.update (fun _ => .outside) 1 (.tested (.send 0 2))) 2 (.tested (.send 4 1))) 2 .outside) 1 .outside := by
        cases delivered
        exact ⟨rfl, rfl⟩
      refine ⟨?_, fun _ _ => trivial⟩
      rintro functor (queued | ⟨thread, bound⟩)
      · rw [rest.1] at queued
        cases queued
      · rw [rest.2] at bound
        by_cases one : thread = 1
        · subst one
          cases bound
        · by_cases two : thread = 2
          · subst two
            cases bound
          · simp only [Function.update_of_ne one, Function.update_of_ne two] at bound
            cases bound)
  exact ⟨process, called, reached, same, defined, messages, stream, ordered⟩

/-- A thread that reuses its buffer after `send` has returned changes the message, and one
that frees it has the loop read freed memory. -/
theorem queued_send_reads_later :
    (∃ process : Process UInt8, ∃ called,
      sending.run [.swapFunctors, .runFunctor (.count 0), .endFunctors, .call 1 (.send 0 1), .proceed 1, .store 0 9,
        .swapFunctors, .runFunctor (.count 1)]
        (newConnection ⟨7, fun _ => 5, fun _ => [], true, true, 16⟩ false, []) = some (process, called) ∧
      called = [(some 1, [5])] ∧ process.conn.stream = [9] ∧
      ¬∃ messages : List (Sender × List UInt8), process.conn.stream = (messages.map Prod.snd).flatten ∧
        ∀ sender, ofSender sender messages <+: ofSender sender called) ∧
    ∃ process : Process UInt8, ∃ called,
      sending.run [.swapFunctors, .runFunctor (.count 0), .endFunctors, .call 1 (.send 0 1), .proceed 1, .discard 0 1,
        .swapFunctors, .runFunctor (.count 1)]
        (newConnection ⟨7, fun _ => 5, fun _ => [], true, true, 16⟩ false, []) = some (process, called) ∧
      process.dangling = true := by
  constructor
  · obtain ⟨⟨process, called⟩, reached, same⟩ := Option.map_eq_some_iff.mp
      (show (sending.run [.swapFunctors, .runFunctor (.count 0), .endFunctors, .call 1 (.send 0 1), .proceed 1, .store 0 9,
          .swapFunctors, .runFunctor (.count 1)]
          (newConnection (⟨7, fun _ => 5, fun _ => [], true, true, 16⟩ : Setup UInt8) false, [])).map
            (fun state => (state.2, state.1.conn.stream)) = some ([(some 1, [5])], [9]) by decide +kernel)
    obtain ⟨rfl, stream⟩ := Prod.mk.inj same
    refine ⟨process, _, reached, rfl, stream, ?_⟩
    intro ⟨messages, whole, ordered⟩
    have nine : 9 ∈ (messages.map Prod.snd).flatten := by rw [← whole, stream]; exact List.mem_singleton_self 9
    obtain ⟨content, member, inside⟩ := List.mem_flatten.mp nine
    obtain ⟨⟨sender, content⟩, sent, rfl⟩ := List.mem_map.mp member
    have own : content ∈ ofSender sender messages :=
      List.mem_map.mpr ⟨(sender, content), List.mem_filter.mpr ⟨sent, by simp⟩, rfl⟩
    have called := (ordered sender).subset own
    rw [ofSender_single] at called
    split at called
    · rw [List.mem_singleton.mp called] at inside
      exact absurd inside (by simp)
    · cases called
  · obtain ⟨⟨process, called⟩, reached, same⟩ := Option.map_eq_some_iff.mp
      (show (sending.run [.swapFunctors, .runFunctor (.count 0), .endFunctors, .call 1 (.send 0 1), .proceed 1, .discard 0 1,
          .swapFunctors, .runFunctor (.count 1)]
          (newConnection (⟨7, fun _ => 5, fun _ => [], true, true, 16⟩ : Setup UInt8) false, [])).map
            (fun state => state.1.dangling) = some true by decide +kernel)
    exact ⟨process, called, reached, same⟩

end Process
end Webserver
