import Mathlib.Data.List.Induction

/-!
# Chunked uploads

An upload names a target, sends its content in chunks and commits. What a receiver has to do is a
machine on the target and the content staged so far (`apply`); what a sender may rely on is a
statement about the history of events: the target is the one named last, and the pending content is
the concatenation of the chunks since the last event that was not a chunk. `foldl_apply` says that
the two are the same.
-/

set_option autoImplicit false

namespace Upload

inductive Event (α β : Type) where
  | start (target : α)
  | chunk (bs : List β)
  | commit

variable {α β : Type}

namespace Event

def target? : Event α β → Option α
  | start t => some t
  | _ => none

def isChunk : Event α β → Bool
  | chunk _ => true
  | _ => false

def bytes : Event α β → List β
  | chunk bs => bs
  | _ => []

end Event

/-- The receiver: the target, and the content staged for it. -/
def apply (s : α × List β) : Event α β → α × List β
  | .start t => (t, [])
  | .chunk bs => (s.1, s.2 ++ bs)
  | .commit => (s.1, [])

/-- The target that was named last, or `d`. -/
def target (d : α) (es : List (Event α β)) : α := (es.reverse.findSome? Event.target?).getD d

/-- The content that a commit would find: the chunks at the end of the history, in order. -/
def pending (es : List (Event α β)) : List β :=
  (es.reverse.takeWhile Event.isChunk).reverse.flatMap Event.bytes

/-- **What is staged is what the history says.** -/
theorem foldl_apply (d : α) (es : List (Event α β)) :
    es.foldl apply (d, []) = (target d es, pending es) := by
  induction es using List.reverseRecOn with
  | nil => rfl
  | append_singleton es e ih =>
    rw [List.foldl_append, ih]
    cases e with
    | start t => simp [apply, target, pending, Event.isChunk, List.findSome?_cons, Event.target?]
    | chunk bs =>
      simp [apply, target, pending, Event.isChunk, Event.bytes, List.findSome?_cons, Event.target?,
        List.takeWhile_cons]
    | commit => simp [apply, target, pending, Event.isChunk, List.findSome?_cons, Event.target?]

end Upload
