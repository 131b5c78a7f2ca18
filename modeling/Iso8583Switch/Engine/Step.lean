import Iso8583Switch.Engine.Sections

/-!
# The step function of the engine

An action names the thread that moves and, where the section needs one, its
input.  `step` is `none` when the thread is not at a point where it can take
that input.  Every interleaving of the threads is a list of actions.
-/

namespace Iso8583Switch

/-- What a section takes from outside the shared memory. -/
inductive Input where
  | run
  /-- The context that the ingress channel yields. -/
  | receive (tx : UniversalPaymentEvent) (answerable : Bool)
  /-- The iterator meets this entry next. -/
  | visit (key : String)
  /-- The iterator passes where this entry was. -/
  | skip (key : String)
  /-- Whether the blocking call of the section succeeds. -/
  | outcome (ok : Bool)
  | verifiedMac (result : Option Bool)
  | verifiedPin (result : Option Bool)
  | translatedPin (result : Option String)

inductive Action where
  | tick (ms : Nat)
  | storeStip (stip : StipEngine)
  | storeCrdb (crdb : CrdbEngine)
  | storeRouter (router : BinTrie)
  | pollSanctions (cache : DashMap String String)
  | ingress (w : Nat) (input : Input)
  | hsm (i : Serial) (input : Input)
  | reaper (input : Input)
  | reply (w : Nat) (input : Input)
  | bank (packet : Packet)
  | probe (node : String) (secs : Nat) (ok : Bool)

namespace Engine

/-- The worker of a context that the guard accepted. -/
def carryStep (s : Engine) (w : Nat) (i : Serial) (key : String) (ctx : TransactionContext) :
    Stage → Input → Option Engine
  | .inserted, .outcome ok =>
      if ctx.needsHsm then some (s.sendToHsm w i ctx ok)
      else some (s.journalRequest w i key ctx ok)
  | .journaled, .run => some (s.routeRequest w i key ctx)
  | .routed destination channel, .run => some (s.natOutbound w i key ctx destination channel)
  | .unrouted, .run => some ((s.declineUnrouted key ctx.transaction).setIngress w (.evicting key))
  | .numbered destination channel, .run =>
      some (s.recordEgressStan w i key ctx destination channel)
  | .recorded destination channel, .outcome ok =>
      some (s.sendEgress w i key ctx destination channel ok)
  | .failed, .outcome ok => some (s.stipFallback w i key ctx ok)
  | .debiting profile, .run => some (s.stipDebit w i key ctx profile)
  | .decided, .outcome ok => some (s.stipAnswer w i ctx ok)
  | _, _ => none

/-- The scan of a reversal. -/
def scanStep (s : Engine) (w : Nat) (ctx : TransactionContext) (origStan : String) (scan : Scan)
    (marked : List Serial) : Input → Option Engine
  | .visit key =>
      match s.guard.get key with
      | some entry =>
          if key ∈ scan.seen then none
          else some (s.visitReversal w ctx origStan scan marked key entry)
      | none => none
  | .skip key =>
      if key ∈ scan.todo ∧ (s.guard.get key).isNone then
        some (s.setIngress w (.scanning ctx origStan (scan.drop key) marked))
      else none
  | .run => if scan.todo = [] then some (s.finishReversal w ctx marked) else none
  | _ => none

def ingressStep (s : Engine) (w : Nat) (input : Input) : Option Engine :=
  match s.ingress w, input with
  | .idle, .receive tx answerable => some (s.receive w tx answerable)
  | .received ctx, .run => some (s.complianceInterceptor w ctx)
  | .cleared ctx, .run => some (s.tspDetokenizer w ctx)
  | .detokenized ctx, .run => some (s.riskPreScreen w ctx)
  | .screened ctx, .run => some (s.dispatch w ctx)
  | .scanning ctx origStan scan marked, input => s.scanStep w ctx origStan scan marked input
  | .carrying i key ctx stage, input => s.carryStep w i key ctx stage input
  | .evicting key, .run => some ((s.evict key).setIngress w .idle)
  | _, _ => none

def hsmStep (s : Engine) (i : Serial) (input : Input) : Option Engine :=
  match s.hsm i, input with
  | .spawned ctx, .run => some (s.setHsm i (hsmRoute s.mem ctx))
  | .awaitingMac ctx route, .verifiedMac result =>
      some (s.setHsm i (afterVerifyMac ctx route result))
  | .awaitingPin ctx (.internalCrdb pvv) macValid, .verifiedPin result =>
      some (s.setHsm i (afterVerifyPin ctx (.internalCrdb pvv) macValid result))
  | .awaitingPin ctx (.externalNode node failover) _, .translatedPin result =>
      some (s.setHsm i (afterTranslatePin ctx (.externalNode node failover) result))
  | .resolving ctx route, .run => some (s.setHsm i (.checked ctx true (targetCh s.mem route)))
  | .checked ctx false _, .run => some (s.declineHsm i ctx)
  | .checked ctx true target, .outcome ok => some (s.journalHsm i ctx target ok)
  | .sending ctx destination channel, .outcome ok =>
      some (s.sendHsm i ctx destination channel ok)
  | _, _ => none

def reaperStep (s : Engine) (input : Input) : Option Engine :=
  match s.reaper, input with
  | .asleep, .run => some (s.setReaper (.expiring (.start s.guard.keys) []))
  | .expiring scan toReverse, .visit key =>
      match s.guard.get key with
      | some entry =>
          if key ∈ scan.seen then none
          else some (s.setReaper (.expiring (scan.meet key)
            (if s.expired entry then toReverse ++ [key] else toReverse)))
      | none => none
  | .expiring scan toReverse, .skip key =>
      if key ∈ scan.todo ∧ (s.guard.get key).isNone then
        some (s.setReaper (.expiring (scan.drop key) toReverse))
      else none
  | .expiring scan toReverse, .run =>
      if scan.todo = [] then some (s.setReaper (.reversing toReverse)) else none
  | .reversing (key :: rest), .outcome ok =>
      let (s, egressStan, didReverse) := s.reverseSection key ok
      some (s.setReaper (.reclaiming key egressStan didReverse rest))
  | .reversing [], .run => some (s.setReaper (.pruning (.start s.guard.keys) []))
  | .reclaiming key egressStan didReverse rest, .run =>
      some ((s.collectNat egressStan).setReaper (.evicting key didReverse rest))
  | .evicting key didReverse rest, .run =>
      some ((if didReverse then s.evict key else s).setReaper (.reversing rest))
  | .pruning scan staleKeys, .visit key =>
      match s.guard.get key with
      | some entry =>
          if key ∈ scan.seen then none
          else some (s.setReaper (.pruning (scan.meet key)
            (if s.stale entry then staleKeys ++ [key] else staleKeys)))
      | none => none
  | .pruning scan staleKeys, .skip key =>
      if key ∈ scan.todo ∧ (s.guard.get key).isNone then
        some (s.setReaper (.pruning (scan.drop key) staleKeys))
      else none
  | .pruning scan staleKeys, .run =>
      if scan.todo = [] then some (s.setReaper (.removing staleKeys)) else none
  | .removing (key :: rest), .run => some ((s.evict key).setReaper (.removing rest))
  | .removing [], .run => some (s.setReaper .asleep)
  | _, _ => none

def replyStep (s : Engine) (w : Nat) (input : Input) : Option Engine :=
  match s.repliers w, input with
  | .idle, .run =>
      match s.bankReply with
      | packet :: rest => some (s.natInbound w packet rest)
      | [] => none
  | .translated packet key, .outcome ok => some (s.replySection w packet key ok)
  | .evicting key, .run => some ((s.evict key).setReply w .idle)
  | _, _ => none

def step (s : Engine) : Action → Option Engine
  | .tick ms => some { s with now := s.now + ms }
  | .storeStip stip => some { s with mem := { s.mem with stip := stip } }
  | .storeCrdb crdb => some { s with mem := { s.mem with crdb := crdb } }
  | .storeRouter router => some { s with mem := { s.mem with router := router } }
  | .pollSanctions cache => some { s with compliance := ⟨cache⟩ }
  | .ingress w input => s.ingressStep w input
  | .hsm i input => s.hsmStep i input
  | .reaper input => s.reaperStep input
  | .reply w input => s.replyStep w input
  | .bank packet => some ({ s with bankReply := s.bankReply ++ [packet] }.log (.replied packet))
  | .probe node secs ok =>
      (s.mem.egressChannels.get node).map fun channel => s.probe node channel secs ok

/-! ## The reaper in outline -/

end Engine

/-- The key that the first pass is about to reverse. -/
def ReaperPc.target : ReaperPc → Option String
  | .reversing (key :: _) => some key
  | _ => none

def ReaperPc.reclaim : ReaperPc → Option String
  | .reclaiming _ egressStan _ _ => egressStan
  | _ => none

namespace Engine

/-- A step of the reaper without its iterations: where it was, where it goes, and the
state in between, in which the shared memory is as the step leaves it. -/
inductive ReaperTurn (s : Engine) : Input → ReaperPc → ReaperPc → Engine → Prop where
  | walk {input : Input} {pc pc' : ReaperPc} : pc.target = none → pc.reclaim = none →
      pc'.reclaim = none → ReaperTurn s input pc pc' s
  | reverse {key : String} {ok : Bool} {rest : List String} :
      ReaperTurn s (.outcome ok) (.reversing (key :: rest))
        (.reclaiming key (s.reverseSection key ok).2.1 (s.reverseSection key ok).2.2 rest)
        (s.reverseSection key ok).1
  | collect {key : String} {egressStan : Option String} {didReverse : Bool} {rest : List String} :
      ReaperTurn s .run (.reclaiming key egressStan didReverse rest)
        (.evicting key didReverse rest) (s.collectNat egressStan)
  | evict {key : String} {pc pc' : ReaperPc} : pc.target = none → pc.reclaim = none →
      pc'.reclaim = none → ReaperTurn s .run pc pc' (s.evict key)

theorem reaperStep_turn {s t : Engine} {input : Input} (h : s.reaperStep input = some t) :
    ∃ pc u, s.ReaperTurn input s.reaper pc u ∧ t = u.setReaper pc := by
  unfold reaperStep at h
  split at h
  case h_1 hpc | h_6 hpc | h_13 hpc =>
    cases h
    rw [hpc]
    exact ⟨_, _, .walk rfl rfl rfl, rfl⟩
  case h_2 hpc | h_9 hpc =>
    split at h
    · split at h <;> cases h
      rw [hpc]
      exact ⟨_, _, .walk rfl rfl rfl, rfl⟩
    · cases h
  case h_3 hpc | h_4 hpc | h_10 hpc | h_11 hpc =>
    split at h <;> cases h
    rw [hpc]
    exact ⟨_, _, .walk rfl rfl rfl, rfl⟩
  case h_5 hpc => cases h; rw [hpc]; exact ⟨_, _, .reverse, rfl⟩
  case h_7 hpc => cases h; rw [hpc]; exact ⟨_, _, .collect, rfl⟩
  case h_8 key didReverse rest hpc =>
    cases h
    rw [hpc]
    cases didReverse with
    | false => exact ⟨_, _, .walk rfl rfl rfl, rfl⟩
    | true => exact ⟨_, _, .evict rfl rfl rfl, rfl⟩
  case h_12 hpc => cases h; rw [hpc]; exact ⟨_, _, .evict rfl rfl rfl, rfl⟩
  case h_14 => cases h

/-- A step of a reply worker: where it was, and the state behind the step. -/
inductive ReplyTurn (s : Engine) (w : Nat) : Input → ReplyPc → Engine → Prop where
  | translate {packet : Packet} {rest : List Packet} : s.bankReply = packet :: rest →
      ReplyTurn s w .run .idle (s.natInbound w packet rest)
  | late {packet : Packet} {key : String} {ok : Bool} {entry : ActiveTransaction} :
      s.guard.get key = some entry → entry.state = .reversed →
      ReplyTurn s w (.outcome ok) (.translated packet key)
        ((s.log (.handled packet none)).setReply w (.evicting key))
  | unknown {packet : Packet} {key : String} {ok : Bool} : s.guard.get key = none →
      ReplyTurn s w (.outcome ok) (.translated packet key)
        ((s.log (.handled packet none)).setReply w .idle)
  | complete {packet : Packet} {key : String} {entry : ActiveTransaction} :
      s.guard.get key = some entry → entry.state ≠ .reversed →
      ReplyTurn s w (.outcome true) (.translated packet key)
        (((((s.log (.handled packet (some entry.serial))).setGuard key
          { entry with state := .completed, responder := none }).log
            (.appended packet.transaction)).respond entry.responder (.bank entry.serial packet)
              (approval packet)).setReply w (.evicting key))
  | completeUnjournaled {packet : Packet} {key : String} {entry : ActiveTransaction} :
      s.guard.get key = some entry → entry.state ≠ .reversed →
      ReplyTurn s w (.outcome false) (.translated packet key)
        (((s.log (.handled packet (some entry.serial))).setGuard key
          { entry with state := .completed }).setReply w .idle)
  | evict {key : String} : ReplyTurn s w .run (.evicting key) ((s.evict key).setReply w .idle)

theorem replyStep_turn {s t : Engine} {w : Nat} {input : Input}
    (h : s.replyStep w input = some t) : s.ReplyTurn w input (s.repliers w) t := by
  unfold replyStep at h
  split at h
  case h_1 hpc =>
    split at h <;> cases h
    next packet rest hreplies => exact hpc ▸ .translate hreplies
  case h_2 packet key ok hpc =>
    cases h
    rw [hpc, replySection]
    split
    next entry hget =>
      split
      next hstate => exact .late hget hstate
      next hstate =>
        cases ok with
        | true => exact .complete hget hstate
        | false => exact .completeUnjournaled hget hstate
    next hnone => exact .unknown hnone
  case h_3 key hpc =>
    cases h
    exact hpc ▸ .evict
  case h_4 => cases h

/-- The events that a step adds to the trace. -/
def newEvents (s t : Engine) : List Event := t.trace.drop s.trace.length

/-- The states of all runs whose steps meet a discipline. -/
abbrev Reachable (P : Engine → Action → Prop) : Engine → Prop :=
  Transition.Reachable Initial (Transition.Steps step P)

end Engine

end Iso8583Switch
