import Iso8583Switch.Engine.Turns

/-!
# The flow of transactions

What decides who may answer whom is a small part of the engine: the guard, the
NAT table, which thread still holds a context or a responder, and which replies
are under way.  `Flow` is that part and `Move` says what can happen to it.  All
else (routing, screening, health, the ledger, the STIP database, time) only
decides which move is taken, and a flow may take any.

A flow forgets where in its loop body a thread is.  It keeps

* `fronted`: the responder that an ingress worker holds before the guard;
* `carried`: the accepted context that an ingress worker may still forward;
* `tasks`: the accepted context that an HSM task may still forward;
* `reclaim`: the egress STAN whose NAT entry the reaper is about to drop;
* `handling`: the reply that a worker has translated and not yet matched.

A move is about the custody of responders, that is the guard and the contexts
in front of it, or about the traffic between the guard and the bank.  `Move` is
the only description of a step that the invariants are proved from.  That the
engine makes no other moves is `Engine.step_flow`.
-/

namespace Iso8583Switch

open Text Function

/-- A context behind the guard that may still be sent. -/
structure Carried where
  serial : Serial
  key : String
  tx : UniversalPaymentEvent
  /-- The egress STAN, once there is one. -/
  egress : Option String

structure Flow where
  guard : DashMap String ActiveTransaction
  nat : DashMap String String
  trace : List Event
  fronted : Nat → Option Responder
  carried : Nat → Option Carried
  tasks : Serial → Option UniversalPaymentEvent
  reclaim : Option String
  inbox : List Packet
  handling : Nat → Option (Packet × String)

/-! ## Kinds of events -/

/-- Events that say nothing about who answers whom. -/
def Event.neutral : Event → Bool
  | .appended _ | .posted _ | .decided _ _ => true
  | _ => false

/-- Events that say nothing about the guard and the responders. -/
def Event.quiet : Event → Bool
  | .received _ _ | .inserted _ _ _ | .responded _ _ _ | .marked _ | .timedOut _ _
  | .evicted _ _ => false
  | _ => true

theorem Event.quiet_of_neutral {e : Event} (h : e.neutral = true) : e.quiet = true := by
  cases e <;> first | rfl | cases h

/-- The message to a responder, if there is one. -/
def answers (responder : Option Responder) (source : Source) (reply : UniversalPaymentEvent) :
    List Event :=
  match responder with
  | some r => [.responded r source reply]
  | none => []

/-- The 0420 of a timeout, if it was sent. -/
def reversals (i : Serial) (sent : Option (RouteDestination × ChannelId))
    (reversal : UniversalPaymentEvent) : List Event :=
  match sent with
  | some (destination, channel) => [.placed ⟨.reaper i, destination, channel, reversal⟩]
  | none => []

/-- The key that a reply is matched under when the NAT table is `nat`. -/
def replyKey (nat : DashMap String String) (reply : Transaction) : String :=
  formatKey reply.rrn ((nat.get reply.stan).getD reply.stan) reply.acquirerId

/-! ## Moves -/

/-- What a section does to the entry that it has locked: the entry it leaves,
the events, the egress STAN left to collect and the replies still in hand. -/
inductive Touch (v : Flow) (key : String) (entry : ActiveTransaction) :
    ActiveTransaction → List Event → Option String → (Nat → Option (Packet × String)) → Prop where
  | mark (tx : UniversalPaymentEvent) :
      Touch v key entry { entry with state := .reversedPending }
        [.marked entry.serial, .posted tx] v.reclaim v.handling
  | record {w : Nat} {c : Carried} {e : String} :
      v.carried w = some c → c.key = key → c.egress = some e →
      Touch v key entry { entry with egressStan := some e } [] v.reclaim v.handling
  | close (reply : UniversalPaymentEvent) :
      Touch v key entry { entry with responder := none, state := .completed }
        (answers entry.responder (.unrouted entry.serial) reply) v.reclaim v.handling
  | timeOut (sent : Option (RouteDestination × ChannelId)) :
      entry.state = .upstreamSent → v.reclaim = none →
      Touch v key entry { entry with state := .reversed, egressStan := none, responder := none }
        (answers entry.responder (.reaper entry.serial) (Engine.timeoutReply entry) ++
          .timedOut entry.serial (Engine.autoReversal entry) ::
            reversals entry.serial sent (Engine.autoReversal entry))
        entry.egressStan v.handling
  | complete {w : Nat} {p : Packet} :
      v.handling w = some (p, key) → entry.state ≠ .reversed →
      Touch v key entry { entry with state := .completed, responder := none }
        (.handled p (some entry.serial) :: .appended p.transaction ::
          answers entry.responder (.bank entry.serial p) (Engine.approval p))
        v.reclaim (update v.handling w none)
  | completeUnjournaled {w : Nat} {p : Packet} :
      v.handling w = some (p, key) → entry.state ≠ .reversed →
      Touch v key entry { entry with state := .completed } [.handled p (some entry.serial)]
        v.reclaim (update v.handling w none)

/-- The guard and the responders. -/
inductive Custody (v : Flow) : Flow → Prop where
  | receive {w : Nat} (tx : UniversalPaymentEvent) (answerable : Bool) :
      v.fronted w = none →
      Custody v { v with
        trace := v.trace ++ [.received tx answerable]
        fronted := update v.fronted w (if answerable then some v.trace.length else none) }
  | answerFront {w : Nat} {source : Source} (reply : UniversalPaymentEvent) :
      source.front = true →
      Custody v { v with
        trace := v.trace ++ answers (v.fronted w) source reply
        fronted := update v.fronted w none }
  | dropFront (w : Nat) : Custody v { v with fronted := update v.fronted w none }
  | insert {w : Nat} (tx : UniversalPaymentEvent) (now : Nat) :
      v.guard.get tx.guardKey = none → v.carried w = none →
      Custody v { v with
        guard := v.guard.put tx.guardKey
          { createdAt := now, state := .upstreamSent, responder := v.fronted w,
            transactionData := toPb tx, egressStan := none, serial := v.trace.length }
        trace := v.trace ++ [.inserted tx.guardKey tx (v.fronted w)]
        fronted := update v.fronted w none
        carried := update v.carried w (some ⟨v.trace.length, tx.guardKey, tx, none⟩) }
  | touch {key : String} {entry entry' : ActiveTransaction} {l : List Event}
      {reclaim : Option String} {handling : Nat → Option (Packet × String)} :
      v.guard.get key = some entry → Touch v key entry entry' l reclaim handling →
      Custody v { v with
        guard := v.guard.put key entry'
        trace := v.trace ++ l
        reclaim := reclaim
        handling := handling }
  | evict {key : String} {entry : ActiveTransaction} :
      v.guard.get key = some entry →
      Custody v { v with
        guard := v.guard.remove key
        trace := v.trace ++ [.evicted key entry.serial] }

/-- Between the guard and the bank. -/
inductive Traffic (v : Flow) : Flow → Prop where
  | note (l : List Event) (neutral : ∀ e ∈ l, e.neutral = true) :
      Traffic v { v with trace := v.trace ++ l }
  | dispatch {w : Nat} {c : Carried} :
      v.carried w = some c → c.egress = none →
      Traffic v { v with
        carried := update v.carried w none
        tasks := update v.tasks c.serial (some c.tx) }
  | dismiss (w : Nat) (l : List Event) (neutral : ∀ e ∈ l, e.neutral = true) :
      Traffic v { v with trace := v.trace ++ l, carried := update v.carried w none }
  | number {w : Nat} {c : Carried} (e : String) :
      v.carried w = some c → c.egress = none →
      Traffic v { v with
        nat := v.nat.put e c.tx.stan
        trace := v.trace ++ [.numbered c.serial e]
        carried := update v.carried w
          (some { c with tx := { c.tx with stan := e }, egress := some e }) }
  | place {w : Nat} {c : Carried} {e : String} (d : RouteDestination) (ch : ChannelId) :
      v.carried w = some c → c.egress = some e →
      Traffic v { v with
        trace := v.trace ++ [.posted c.tx, .placed ⟨.ingress c.serial, d, ch, c.tx⟩]
        carried := update v.carried w none }
  | translatePin {i : Serial} {tx : UniversalPaymentEvent} (pin : Bytes) :
      v.tasks i = some tx →
      Traffic v { v with tasks := update v.tasks i (some { tx with pinBlock := pin }) }
  | dropTask (i : Serial) (l : List Event) (neutral : ∀ e ∈ l, e.neutral = true) :
      Traffic v { v with trace := v.trace ++ l, tasks := update v.tasks i none }
  | placeTask {i : Serial} {tx : UniversalPaymentEvent} (d : RouteDestination)
      (ch : ChannelId) :
      v.tasks i = some tx →
      Traffic v { v with
        trace := v.trace ++ [.placed ⟨.hsm i, d, ch, tx⟩]
        tasks := update v.tasks i none }
  | collect {e : String} :
      v.reclaim = some e → Traffic v { v with nat := v.nat.remove e, reclaim := none }
  | reply (p : Packet) :
      Traffic v { v with trace := v.trace ++ [.replied p], inbox := v.inbox ++ [p] }
  | translate {w : Nat} {p : Packet} {rest : List Packet} :
      v.inbox = p :: rest → v.handling w = none →
      Traffic v { v with
        nat := v.nat.remove p.transaction.stan
        inbox := rest
        handling := update v.handling w (some (p, replyKey v.nat p.transaction)) }
  | discard {w : Nat} {p : Packet} {key : String} :
      v.handling w = some (p, key) →
      (∀ entry, v.guard.get key = some entry → entry.state = .reversed) →
      Traffic v { v with
        trace := v.trace ++ [.handled p none]
        handling := update v.handling w none }
  | probe (d : RouteDestination) (ch : ChannelId) (tx : UniversalPaymentEvent) :
      Traffic v { v with trace := v.trace ++ [.placed ⟨.probe, d, ch, tx⟩] }

inductive Move (v v' : Flow) : Prop where
  | custody : Custody v v' → Move v v'
  | traffic : Traffic v v' → Move v v'

/-! ## Reachable flows -/

namespace Flow

/-- A flow in which nothing has happened. -/
structure Initial (v : Flow) : Prop where
  guard : v.guard = ∅
  nat : v.nat = ∅
  trace : v.trace = []
  fronted : ∀ w, v.fronted w = none
  carried : ∀ w, v.carried w = none
  tasks : ∀ i, v.tasks i = none
  reclaim : v.reclaim = none
  inbox : v.inbox = []
  handling : ∀ w, v.handling w = none

/-- The events that a move adds to the trace. -/
def newEvents (v v' : Flow) : List Event := v'.trace.drop v.trace.length

/-- A condition on the flow before a move, for each event that the move adds. -/
abbrev Discipline := Flow → Event → Prop

/-- The flows of all runs whose moves meet a discipline. -/
abbrev Reachable (Q : Discipline) : Flow → Prop :=
  Transition.Reachable Initial fun v v' => Move v v' ∧ ∀ e ∈ newEvents v v', Q v e

/-- The discipline that every move meets. -/
def Free : Discipline := fun _ _ => True

theorem Reachable.free {Q : Discipline} {v : Flow} (h : Reachable Q v) : Reachable Free v :=
  h.mono fun _ _ ⟨hmove, _⟩ => ⟨hmove, fun _ _ => trivial⟩

/-- What a move that adds `l` meets. -/
theorem newEvents_eq {v v' : Flow} {l : List Event} (h : v'.trace = v.trace ++ l) :
    newEvents v v' = l := by
  rw [newEvents, h, List.drop_left]

end Flow

/-! ## What the kinds of moves leave alone -/

theorem Custody.trace_append {v v' : Flow} (h : Custody v v') : ∃ l, v'.trace = v.trace ++ l := by
  cases h
  case dropFront => exact ⟨[], (List.append_nil _).symm⟩
  all_goals exact ⟨_, rfl⟩

/-- Traffic does not touch the guard and the responders. -/
theorem Traffic.guard {v v' : Flow} (h : Traffic v v') : v'.guard = v.guard := by
  cases h <;> rfl

theorem Traffic.fronted {v v' : Flow} (h : Traffic v v') : v'.fronted = v.fronted := by
  cases h <;> rfl

theorem Traffic.quiet {v v' : Flow} (h : Traffic v v') :
    ∃ l, v'.trace = v.trace ++ l ∧ ∀ e ∈ l, e.quiet = true := by
  cases h
  case note l neutral => exact ⟨l, rfl, fun e he => Event.quiet_of_neutral (neutral e he)⟩
  case dismiss l neutral => exact ⟨l, rfl, fun e he => Event.quiet_of_neutral (neutral e he)⟩
  case dropTask l neutral => exact ⟨l, rfl, fun e he => Event.quiet_of_neutral (neutral e he)⟩
  case dispatch => exact ⟨[], (List.append_nil _).symm, by simp⟩
  case translatePin => exact ⟨[], (List.append_nil _).symm, by simp⟩
  case collect => exact ⟨[], (List.append_nil _).symm, by simp⟩
  case translate => exact ⟨[], (List.append_nil _).symm, by simp⟩
  all_goals exact ⟨_, rfl, by simp [Event.quiet]⟩

/-- The history only grows. -/
theorem Move.trace_append {v v' : Flow} (h : Move v v') : ∃ l, v'.trace = v.trace ++ l := by
  cases h with
  | custody h => exact h.trace_append
  | traffic h =>
      obtain ⟨l, hl, -⟩ := h.quiet
      exact ⟨l, hl⟩

end Iso8583Switch
