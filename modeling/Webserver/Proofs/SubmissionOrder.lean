import Webserver.Proofs.OutputStream

/-! The order of submission across `send` and `sendFile`. The unfinished transfers
are recorded in the order of their calls: the stream keeps that order as long as
bytes are only moved for the oldest call that is not finished. -/

namespace Webserver
open Library

universe u
variable {α : Type u}

namespace LoopThread

/-- `owed` are the functors of the unfinished transfers, in the order of their calls. -/
structure Ledger (α : Type u) where
  submitted : List (List α)
  owed : List Functor

/-- Put what a functor leaves in the place of its first occurrence. -/
def settle (functor : Functor) (left : List Functor) : List Functor → List Functor
  | [] => []
  | other :: others => if other = functor then left ++ others else other :: settle functor left others

def Ledger.note (call : LoopCall α) (conn : TcpConnection α) (ledger : Ledger α) : Ledger α where
  submitted := submit call conn ledger.submitted
  owed :=
    match call with
    | .sendFile fileDescriptor offset count result =>
      if conn.connected then ledger.owed ++ conn.requeued fileDescriptor offset count result else ledger.owed
    | .runFunctor result =>
      match conn.loop_.functors with
      | .sendFileInLoop fileDescriptor offset count :: _ =>
        settle (.sendFileInLoop fileDescriptor offset count) (conn.requeued fileDescriptor offset count result) ledger.owed
      | _ => ledger.owed
    | _ => ledger.owed

def audited [OfNat α 0] : Machine (TcpConnection α × Ledger α) (LoopCall α) := machine.watch Ledger.note

def opened [OfNat α 0] (setup : Setup α) : TcpConnection α × Ledger α :=
  ((TcpConnection.new setup).connectEstablished, ⟨[], []⟩)

/-- Bytes are moved only for the oldest call that is not finished. -/
def InTurn (call : LoopCall α) (state : TcpConnection α × Ledger α) : Prop :=
  match call with
  | .send buf _ => buf = [] ∨ state.1.work = []
  | .sendFile _ _ _ result => state.1.sentNow result = 0 ∨ state.1.work = []
  | .runFunctor result => state.1.sentNow result = 0 ∨
      ∀ functor ∈ state.1.loop_.functors.head?, functor.isSendFile = true → state.2.owed.head? = some functor
  | _ => True

instance (call : LoopCall α) (state : TcpConnection α × Ledger α) : Decidable (InTurn call state) :=
  match call with
  | .send _ _ | .sendFile _ _ _ _ => inferInstanceAs (Decidable (_ ∨ _))
  | .runFunctor result => inferInstanceAs (Decidable (state.1.sentNow result = 0 ∨
      ∀ functor ∈ state.1.loop_.functors.head?, functor.isSendFile = true → state.2.owed.head? = some functor))
  | .shutdown | .handleWrite _ | .swapFunctors | .endFunctors => isTrue trivial

private theorem settle_perm (functor : Functor) (left owed others : List Functor) (queued : owed.Perm (functor :: others)) :
    (settle functor left owed).Perm (others ++ left) := by
  induction owed generalizing others with
  | nil => exact absurd queued.length_eq (by simp)
  | cons other rest ih =>
    unfold settle
    split
    next same =>
      subst other
      exact (List.perm_append_comm.trans (queued.cons_inv.append_right left))
    next different =>
      have member : other ∈ others := by
        have either := queued.subset List.mem_cons_self
        exact (List.mem_cons.mp either).resolve_left different
      have shorter : rest.Perm (functor :: others.erase other) := by
        refine List.Perm.cons_inv (queued.trans ?_)
        exact ((List.perm_cons_erase member).cons functor).trans (.swap _ _ _)
      apply ((ih _ shorter).cons other).trans
      exact (List.perm_cons_erase member).symm.append_right left

private theorem settle_flatten (value : Functor → List α) (functor : Functor) (left owed : List Functor)
    (same : (left.map value).flatten = value functor) :
    ((settle functor left owed).map value).flatten = (owed.map value).flatten := by
  induction owed with
  | nil => rfl
  | cons other rest ih =>
    unfold settle
    split
    next found => rw [List.map_append, List.flatten_append, same, found, List.map_cons, List.flatten_cons]
    next different => rw [List.map_cons, List.flatten_cons, ih, List.map_cons, List.flatten_cons]

/-- What is queued is what is owed, and everything submitted is in the stream or owed, in order. -/
structure InOrder (files : Nat → List α) (state : TcpConnection α × Ledger α) : Prop where
  orderly : Orderly state.1
  disk : state.1.files = files
  connected : state.1.state_ = .kConnected
  queued : state.2.owed.Perm state.1.work
  stream : state.1.stream ++ (state.2.owed.map (tail files)).flatten = state.2.submitted.flatten

private theorem opened_inOrder [OfNat α 0] (setup : Setup α) : InOrder setup.files (opened setup) where
  orderly := (established_whole setup).regular.orderly
  disk := rfl
  connected := rfl
  queued := .refl _
  stream := by simpa [opened, established] using (established_whole setup).stream

theorem Ledger.note_quiet (call : LoopCall α) (conn : TcpConnection α) (ledger : Ledger α)
    (given : accepts call conn = none) (other : ∀ result, call ≠ .runFunctor result) : note call conn ledger = ledger := by
  cases call with
  | sendFile fileDescriptor offset count result =>
    have refused : conn.connected = false := by simpa [accepts] using given
    simp [note, submit, accepts, refused]
  | runFunctor result => exact absurd rfl (other result)
  | _ => simp [note, submit, given]

theorem Ledger.note_inform (conn : TcpConnection α) (ledger : Ledger α) (functor : Functor) (rest : List Functor)
    (result : IoResult) (queue : conn.loop_.functors = functor :: rest) (informs : functor.isNotification = true) :
    note (.runFunctor result) conn ledger = ledger := by
  cases functor with
  | sendFileInLoop => cases informs
  | _ => simp [note, submit, accepts, queue]

private theorem tail_split (conn : TcpConnection α) (fileDescriptor offset count : Nat) (result : IoResult)
    (enough : offset + count ≤ (conn.files fileDescriptor).length)
    (fits : result.fits (conn.range fileDescriptor offset count).length = true) :
    (conn.range fileDescriptor offset count).take (conn.sentNow result) ++
      ((conn.requeued fileDescriptor offset count result).map (tail conn.files)).flatten =
        conn.range fileDescriptor offset count := by
  rcases (requeued_tail conn fileDescriptor offset count result enough fits).2 with ⟨finished, whole⟩ | ⟨rest, _, same, whole⟩
  · simp [finished, whole]
  · simp [same, whole]

theorem Effect.inOrder {files : Nat → List α} {call : LoopCall α} {before after : TcpConnection α × Ledger α}
    (turn : InTurn call before) (order : InOrder files before) (effect : Effect call before.1 after.1)
    (noted : after.2 = Ledger.note call before.1 before.2) :
    after.2.owed.Perm after.1.work ∧
    after.1.stream ++ (after.2.owed.map (tail files)).flatten = after.2.submitted.flatten := by
  have owed_nil (none : before.1.work = []) : before.2.owed = [] := List.Perm.eq_nil (none ▸ order.queued)
  cases effect with
  | quiet given other stream work =>
    rw [noted, Ledger.note_quiet call before.1 before.2 given other, stream, work]
    exact ⟨order.queued, order.stream⟩
  | inform functor rest result called queue informs stream work =>
    subst called
    rw [noted, Ledger.note_inform before.1 before.2 functor rest result queue informs, stream, work]
    exact ⟨order.queued, order.stream⟩
  | block data result called connected stream work =>
    subst called
    have submitted : after.2.submitted = before.2.submitted ++ [data] := by
      simp [noted, Ledger.note, submit, accepts, connected]
    have owed : after.2.owed = before.2.owed := by simp [noted, Ledger.note]
    rw [owed, work, submitted, stream, List.flatten_append, ← order.stream]
    refine ⟨order.queued, ?_⟩
    rcases turn with nothing | none
    · simp [nothing]
    · simp [owed_nil none]
  | start fileDescriptor offset count result called connected transfer =>
    subst called
    have submitted : after.2.submitted = before.2.submitted ++ [before.1.range fileDescriptor offset count] := by
      simp [noted, Ledger.note, submit, accepts, connected]
    have owed : after.2.owed = before.2.owed ++ before.1.requeued fileDescriptor offset count result := by
      simp [noted, Ledger.note, connected]
    have split := tail_split before.1 fileDescriptor offset count result transfer.enough transfer.fits
    rw [order.disk] at split
    rw [owed, transfer.work, submitted, transfer.stream, List.flatten_append, ← order.stream, List.flatten_singleton]
    refine ⟨order.queued.append_right _, ?_⟩
    rcases turn with nothing | none
    · simpa [nothing] using split
    · simpa [owed_nil none] using split
  | resume fileDescriptor offset count result others rest called queue work transfer =>
    subst called
    have submitted : after.2.submitted = before.2.submitted := by simp [noted, Ledger.note, submit, accepts]
    have owed : after.2.owed = settle (.sendFileInLoop fileDescriptor offset count)
        (before.1.requeued fileDescriptor offset count result) before.2.owed := by
      simp [noted, Ledger.note, queue]
    have split := tail_split before.1 fileDescriptor offset count result transfer.enough transfer.fits
    rw [order.disk] at split
    rw [owed, transfer.work, submitted, transfer.stream, ← order.stream]
    refine ⟨settle_perm _ _ _ _ (work ▸ order.queued), ?_⟩
    have first : tail files (.sendFileInLoop fileDescriptor offset count) = before.1.range fileDescriptor offset count := by
      rw [tail, TcpConnection.range, order.disk]
    rcases turn with nothing | oldest
    · simp only [nothing, List.take_zero, List.nil_append] at split
      rw [nothing, List.take_zero, List.append_nil, settle_flatten _ _ _ _ (split.trans first.symm)]
    · obtain ⟨later, aged⟩ := List.head?_eq_some_iff.mp (oldest _ (by rw [queue]; rfl) rfl)
      simp only [aged, settle, if_true, List.map_append, List.flatten_append, List.map_cons, List.flatten_cons, first]
      conv_rhs => rw [← split]
      simp only [List.append_assoc]

theorem step_inOrder [OfNat α 0] {files : Nat → List α} {call : LoopCall α} {before after : TcpConnection α × Ledger α}
    (allowed : Allowed call before.1) (other : call ≠ .shutdown) (turn : InTurn call before)
    (order : InOrder files before) (stepped : audited.step call before = some after) : InOrder files after := by
  obtain ⟨moved, noted⟩ := Machine.watch_step.mp stepped
  obtain ⟨orderly, same, effect⟩ := step_effect call before.1 after.1 order.orderly allowed moved
  have output := step_output call before.1 after.1 order.orderly moved
  obtain ⟨queued, stream⟩ := effect.inOrder turn order noted
  exact ⟨orderly, same.trans order.disk, (step_state output other).trans order.connected, queued, stream⟩

/-- While bytes are only moved for the oldest unfinished call, the kernel receives
what was submitted in the order of the calls. -/
theorem submission_order [OfNat α 0] (setup : Setup α) (calls : List (LoopCall α))
    (connected : .shutdown ∉ calls) (healthy : ∀ call ∈ calls, call.isFault = false)
    (enough : ∀ fileDescriptor offset count result, .sendFile fileDescriptor offset count result ∈ calls →
      offset + count ≤ (setup.files fileDescriptor).length)
    (conn : TcpConnection α) (ledger : Ledger α)
    (reached : audited.run calls (opened setup) = some (conn, ledger))
    (inTurn : audited.Along InTurn calls (opened setup)) :
    conn.accepted <+: ledger.submitted.flatten := by
  let good (call : LoopCall α) : Prop := call ≠ .shutdown ∧ call.isFault = false ∧
    ∀ fileDescriptor offset count result, call = .sendFile fileDescriptor offset count result →
      offset + count ≤ (setup.files fileDescriptor).length
  have plain : audited.Along (fun call _ => good call) calls (opened setup) := by
    refine Machine.along_of_forall (fun call member => ⟨?_, healthy call member, ?_⟩) _
    · intro same
      exact connected (same ▸ member)
    · intro _ _ _ _ same
      exact enough _ _ _ _ (same ▸ member)
  have order : InOrder setup.files (conn, ledger) := by
    refine Machine.run_invariant ?_ reached (plain.and inTurn) (opened_inOrder setup)
    intro call before after ⟨⟨other, sound, stored⟩, turn⟩ order stepped
    have allowed : Allowed call before.1 :=
      ⟨sound, order.disk ▸ stored, fun same => absurd same other⟩
    exact step_inOrder allowed other turn order stepped
  rw [← order.stream, TcpConnection.stream, List.append_assoc]
  exact List.prefix_append _ _

/-- A transfer that finishes in the functor queue before the next call. -/
theorem submission_order_resumed :
    ∃ conn : TcpConnection UInt8, ∃ ledger,
      audited.run [.sendFile 0 0 3 (.count 1), .swapFunctors, .runFunctor (.count 2), .endFunctors, .send [9] (.count 1)]
        (opened ⟨7, fun _ => 0, fun _ => [1, 2, 3], true, true, 16⟩) = some (conn, ledger) ∧
      conn.accepted = [1, 2, 3, 9] ∧ conn.accepted <+: ledger.submitted.flatten := by
  obtain ⟨⟨conn, ledger⟩, reached, accepted⟩ := Option.map_eq_some_iff.mp
    (show (audited.run [.sendFile 0 0 3 (.count 1), .swapFunctors, .runFunctor (.count 2), .endFunctors, .send [9] (.count 1)]
        (opened (⟨7, fun _ => 0, fun _ => [1, 2, 3], true, true, 16⟩ : Setup UInt8))).map
          (fun state => state.1.accepted) = some [1, 2, 3, 9] by decide +kernel)
  refine ⟨conn, ledger, reached, accepted, ?_⟩
  refine submission_order _ _ (by decide) (by decide) ?_ conn ledger reached (by decide +kernel)
  intro fileDescriptor offset count result member
  simp only [List.mem_cons, LoopCall.sendFile.injEq, reduceCtorEq, List.not_mem_nil, or_false] at member
  obtain ⟨rfl, rfl, rfl, -⟩ := member
  decide

/-- A `send` after an unfinished `sendFile` is written directly, before the rest of the file. -/
theorem send_overtakes_sendFile :
    ∃ conn : TcpConnection UInt8, ∃ submitted,
      recorded.run [.sendFile 0 0 3 (.count 1), .send [9] (.count 1)]
        (established ⟨7, fun _ => 0, fun _ => [1, 2, 3], true, true, 16⟩) = some (conn, submitted) ∧
      conn.accepted = [1, 9] ∧ submitted = [[1, 2, 3], [9]] ∧ ¬conn.accepted <+: submitted.flatten := by
  obtain ⟨⟨conn, submitted⟩, reached, same⟩ := Option.map_eq_some_iff.mp
    (show (recorded.run [.sendFile 0 0 3 (.count 1), .send [9] (.count 1)]
        (established (⟨7, fun _ => 0, fun _ => [1, 2, 3], true, true, 16⟩ : Setup UInt8))).map
          (fun state => (state.1.accepted, state.2)) = some ([1, 9], [[1, 2, 3], [9]]) by decide +kernel)
  obtain ⟨accepted, rfl⟩ := Prod.mk.inj same
  refine ⟨conn, _, reached, accepted, rfl, ?_⟩
  rw [accepted]
  decide

end LoopThread
end Webserver
