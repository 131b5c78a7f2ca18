import Iso8583Switch.Engine.Step
import Iso8583Switch.Hsm.HsmClient

/-!
# The engine and its HSM client

The HSM thread of `SwitchEngine::start` connects once, and runs every context that it is
handed in a task of its own.  All tasks share the client.  A task makes one call for the MAC
and one for the PIN at most, and these are numbered by the instance that the task is for.

Where the HSM cannot be reached there is no client, and then every send to the thread fails.
A task whose call panics stays where it is.
-/

namespace Iso8583Switch

open Text

inductive Check where
  | mac
  | pin
deriving DecidableEq

/-- The call that the task of an instance makes. -/
def Check.call (i : Serial) : Check → CallId
  | .mac => 2 * i
  | .pin => 2 * i + 1

/-- The request that a task has come to make, or waits for. -/
def HsmPc.calling : HsmPc → Option (Check × HsmRequest)
  | .awaitingMac ctx _ =>
      ctx.transaction.macData.map fun mac =>
        (.mac, .verifyMac mac (fromUtf8Lossy ctx.transaction.fpan))
  | .awaitingPin ctx (.internalCrdb pvv) _ =>
      some (.pin, .verifyPin (fromUtf8Lossy ctx.transaction.pinBlock)
        (fromUtf8Lossy ctx.transaction.fpan) pvv)
  | .awaitingPin ctx (.externalNode _ _) _ =>
      some (.pin, .translatePin (fromUtf8Lossy ctx.transaction.pinBlock)
        (fromUtf8Lossy ctx.transaction.fpan))
  | _ => none

def HsmVerdict.isSuccess : HsmVerdict → Option Bool
  | .success ok => some ok
  | .translated _ => none

def HsmVerdict.pinBlock : HsmVerdict → Option String
  | .success _ => none
  | .translated pinBlock => some pinBlock

/-- What the task goes on with. -/
def HsmRequest.returned (result : Except String HsmVerdict) : HsmRequest → Input
  | .verifyMac _ _ => .verifiedMac (result.toOption.bind HsmVerdict.isSuccess)
  | .verifyPin _ _ _ => .verifiedPin (result.toOption.bind HsmVerdict.isSuccess)
  | .translatePin _ _ => .translatedPin (result.toOption.bind HsmVerdict.pinBlock)

/-- The results of calls are not up to the engine. -/
def Action.takesResult : Action → Bool
  | .hsm _ (.verifiedMac _) | .hsm _ (.verifiedPin _) | .hsm _ (.translatedPin _) => true
  | _ => false

structure SecuredEngine where
  engine : Engine
  client : HsmClient

inductive SecuredAction where
  | engine (a : Action)
  | client (a : HsmClient.HsmAction)
  /-- The task of an instance makes its call. -/
  | call (i : Serial)
  /-- It takes the result. -/
  | take (i : Serial)

namespace SecuredEngine

def connected (engine : Engine) : SecuredEngine := ⟨engine, .connect⟩

/-- The step of the engine that an action takes. -/
def moves (z : SecuredEngine) : SecuredAction → Option Action
  | .engine a => if a.takesResult then none else some a
  | .take i =>
      match (z.engine.hsm i).calling with
      | some (check, request) =>
          match z.client.calls (check.call i) with
          | .finished result => some (.hsm i (request.returned result))
          | _ => none
      | none => none
  | .client _ | .call _ => none

/-- The step of the client. -/
def exchanges (z : SecuredEngine) : SecuredAction → Option HsmClient.HsmAction
  | .client (.begin _ _) => none
  | .client a => some a
  | .call i =>
      (z.engine.hsm i).calling.map fun (check, request) => .begin (check.call i) request
  | .engine _ | .take _ => none

def step (z : SecuredEngine) (a : SecuredAction) : Option SecuredEngine :=
  match a with
  | .engine _ | .take _ =>
      ((z.moves a).bind z.engine.step).map fun engine => { z with engine }
  | .client _ | .call _ =>
      ((z.exchanges a).bind z.client.step).map fun client => { z with client }

end SecuredEngine

end Iso8583Switch
