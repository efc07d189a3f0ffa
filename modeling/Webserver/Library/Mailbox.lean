import Mathlib.Data.List.Basic

/-! Messages of many senders through one queue. A sender calls, hands its message
over and may then call again; a message may also be delivered directly. The
delivered messages of each sender keep the order of its calls. -/

namespace Webserver.Library

universe u v
variable {τ : Type u} {β : Type v} [DecidableEq τ]

/-- The messages of one sender, in order. -/
def ofSender (sender : τ) (messages : List (τ × β)) : List β :=
  (messages.filter fun message => message.1 = sender).map Prod.snd

@[simp]
theorem ofSender_append (sender : τ) (first rest : List (τ × β)) :
    ofSender sender (first ++ rest) = ofSender sender first ++ ofSender sender rest := by
  simp [ofSender]

@[simp]
theorem ofSender_single (sender other : τ) (message : β) :
    ofSender sender [(other, message)] = if other = sender then [message] else [] := by
  by_cases same : other = sender <;> simp [ofSender, same]

/-- `pending` is what each sender has called with and not handed over yet. -/
structure Mailbox (τ : Type u) (β : Type v) [DecidableEq τ] where
  called : List (τ × β)
  pending : τ → List β
  queued : List (τ × β)
  delivered : List (τ × β)
  ordered : ∀ sender,
    ofSender sender delivered ++ ofSender sender queued ++ pending sender = ofSender sender called

namespace Mailbox

def empty : Mailbox τ β := ⟨[], fun _ => [], [], [], fun _ => rfl⟩

/-- A sender with nothing under way delivers by itself. -/
def direct (box : Mailbox τ β) (sender : τ) (message : β) (alone : ofSender sender box.queued = [])
    (idle : box.pending sender = []) : Mailbox τ β where
  called := box.called ++ [(sender, message)]
  pending := box.pending
  queued := box.queued
  delivered := box.delivered ++ [(sender, message)]
  ordered other := by
    have ordered := box.ordered other
    by_cases same : sender = other
    · subst other
      simp only [alone, idle, List.append_nil] at ordered
      simp [alone, idle, ordered]
    · simpa [same] using ordered

def call (box : Mailbox τ β) (sender : τ) (message : β) (idle : box.pending sender = []) : Mailbox τ β where
  called := box.called ++ [(sender, message)]
  pending := Function.update box.pending sender [message]
  queued := box.queued
  delivered := box.delivered
  ordered other := by
    have ordered := box.ordered other
    by_cases same : sender = other
    · subst other
      simp only [idle, List.append_nil] at ordered
      simp [ordered]
    · simpa [same, Ne.symm same] using ordered

def enqueue (box : Mailbox τ β) (sender : τ) (message : β) (waits : box.pending sender = [message]) : Mailbox τ β where
  called := box.called
  pending := Function.update box.pending sender []
  queued := box.queued ++ [(sender, message)]
  delivered := box.delivered
  ordered other := by
    have ordered := box.ordered other
    by_cases same : sender = other
    · subst other
      simpa [waits] using ordered
    · simpa [same, Ne.symm same] using ordered

def deliver (box : Mailbox τ β) (message : τ × β) (rest : List (τ × β)) (first : box.queued = message :: rest) :
    Mailbox τ β where
  called := box.called
  pending := box.pending
  queued := rest
  delivered := box.delivered ++ [message]
  ordered sender := by
    rw [← box.ordered sender, first, show message :: rest = [message] ++ rest from rfl, ofSender_append, ofSender_append]
    simp only [List.append_assoc]

theorem delivered_prefix (box : Mailbox τ β) (sender : τ) :
    ofSender sender box.delivered <+: ofSender sender box.called := by
  rw [← box.ordered sender, List.append_assoc]
  exact List.prefix_append _ _

end Mailbox
end Webserver.Library
