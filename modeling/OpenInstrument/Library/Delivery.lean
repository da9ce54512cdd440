import Mathlib.Algebra.BigOperators.Group.List.Basic
import Mathlib.Algebra.Order.Group.Multiset

/-! # Messages in flight

Parties put out results and send each other messages, which are delivered in any order.  What is owed is
what was put out together with what each message in flight will still lead to.  Sending adds to what is
owed, and taking a message out of flight moves its share from the messages to the party that handles it.
-/

/-- What the parties have put out, and the messages that are not delivered yet. -/
structure Network (Output Message : Type*) where
  output : List Output
  inFlight : List Message

namespace Network

variable {Output Message : Type*}

def empty : Network Output Message := ⟨[], []⟩

def send (net : Network Output Message) (output : List Output) (messages : List Message) :
    Network Output Message :=
  ⟨net.output ++ output, net.inFlight ++ messages⟩

def take (net : Network Output Message) (index : Nat) : Option (Message × Network Output Message) :=
  net.inFlight[index]?.map fun message => (message, ⟨net.output, net.inFlight.eraseIdx index⟩)

/-- What was put out and what the messages in flight are due to lead to. -/
def owed (due : Message → Multiset Output) (net : Network Output Message) : Multiset Output :=
  ↑net.output + (net.inFlight.map due).sum

variable {due : Message → Multiset Output} {net rest : Network Output Message} {message : Message}
  {index : Nat}

@[simp] theorem owed_empty : owed due empty = 0 := rfl

theorem owed_send (net : Network Output Message) (output : List Output) (messages : List Message) :
    owed due (net.send output messages) = owed due net + (↑output + (messages.map due).sum) := by
  simp only [owed, send, List.map_append, List.sum_append, ← Multiset.coe_add]
  exact add_add_add_comm _ _ _ _

theorem mem_of_take (taken : net.take index = some (message, rest)) :
    message ∈ net.inFlight ∧ ∀ other ∈ rest.inFlight, other ∈ net.inFlight := by
  obtain ⟨held, found, same⟩ := Option.map_eq_some_iff.mp taken
  cases same
  exact ⟨List.mem_of_getElem? found, fun other member => List.mem_of_mem_eraseIdx member⟩

theorem owed_take (taken : net.take index = some (message, rest)) :
    owed due net = owed due rest + due message := by
  obtain ⟨held, found, same⟩ := Option.map_eq_some_iff.mp taken
  cases same
  obtain ⟨bound, here⟩ := List.getElem?_eq_some_iff.mp found
  have order := List.getElem_cons_eraseIdx_perm bound
  rw [here] at order
  have sums : (net.inFlight.map due).sum = due message + ((net.inFlight.eraseIdx index).map due).sum :=
    ((order.map due).sum_eq).symm
  simp only [owed, sums]
  rw [add_assoc, add_comm (due message)]

/-- Once nothing is in flight, what is owed was put out. -/
theorem owed_of_delivered (delivered : net.inFlight = []) : owed due net = ↑net.output := by
  simp [owed, delivered]

end Network
