import Iso8583Switch.Library.DashMap
import Iso8583Switch.Library.Text
import Iso8583Switch.Library.Transition
import Mathlib.Data.UInt
import Mathlib.Logic.Function.Basic

/-!
# The HSM client

switch-core/src/hsm_client.rs.  Any number of HSM tasks share one connection.  A call
takes a header of four digits, puts the sending half of a oneshot channel in the
correlation map under it, and hands its message to the writer.  The reader looks up
the header of a response and sends the response to whatever call is there.

A thread may stop between any two accesses to what is shared, so each of these is a
step of its own.  A call is named by a number of its own, which the code does not
have, and so is the call that a message was made for.  The HSM answers what it was
asked in any order and whenever it likes, with the header of the message.  A send that
waits for room in the channel is one that is not taken yet.
-/

namespace Iso8583Switch

open Text Function

abbrev CallId := Nat

/-- payment-proto/src/thales.rs. -/
structure ThalesMessage where
  header : String
  command : String
  payload : String
deriving DecidableEq

/-- A message or a response, with the call whose message it is or answers. -/
structure Exchange where
  call : CallId
  message : ThalesMessage
deriving DecidableEq

/-! ## The three calls -/

inductive HsmRequest where
  | verifyPin (pinBlock pan pvv : String)
  | translatePin (pinBlock pan : String)
  | verifyMac (mac pan : String)
deriving DecidableEq

/-- What a call returns if it returns a value. -/
inductive HsmVerdict where
  | success (ok : Bool)
  | translated (pinBlock : String)
deriving DecidableEq

/-- The twelve digits before the last one, or `none` where the slice panics. -/
def formattedPan (pan : String) : Option String :=
  if 12 ≤ len pan then
    -- At twelve bytes `pan.len() - 13` underflows.
    if len pan = 12 then none else slice pan (len pan - 13) (len pan - 1)
  else some pan

namespace HsmRequest

def pan : HsmRequest → String
  | .verifyPin _ pan _ | .translatePin _ pan | .verifyMac _ pan => pan

def command : HsmRequest → String
  | .verifyPin _ _ _ => "DA"
  | .translatePin _ _ => "CA"
  | .verifyMac _ _ => "M0"

def payload (formattedPan : String) : HsmRequest → String
  | .verifyPin pinBlock _ pvv =>
      "AWK1234567890123" ++ pinBlock ++ "01" ++ formattedPan ++ "PVK1234567890123" ++ pvv
  | .translatePin pinBlock _ =>
      "AWK1234567890123" ++ "ZWK1234567890123" ++ "12" ++ pinBlock ++ "01" ++ formattedPan
  | .verifyMac mac _ => "MAK1234567890123" ++ mac ++ formattedPan

def message (header : String) (request : HsmRequest) : Option ThalesMessage :=
  (formattedPan request.pan).map fun p => ⟨header, request.command, request.payload p⟩

def startsWith (code payload : String) : Bool := (asBytes code).isPrefixOf (asBytes payload)

/-- What the call makes of a response. -/
def interpret (resp : ThalesMessage) : HsmRequest → Except String HsmVerdict
  | .verifyPin _ _ _ =>
      if resp.command = "DB" && startsWith "00" resp.payload then .ok (.success true)
      else if resp.command = "DB" && startsWith "05" resp.payload then .ok (.success false)
      else .error "Invalid Verify PIN DB HSM Response"
  | .translatePin _ _ =>
      if resp.command = "CB" && startsWith "00" resp.payload then
        .ok (.translated (String.ofList (resp.payload.toList.drop 2)))
      else .error "Failed to translate PIN"
  | .verifyMac _ _ =>
      if resp.command = "M1" && startsWith "00" resp.payload then .ok (.success true)
      else if resp.command = "M1" && startsWith "05" resp.payload then .ok (.success false)
      else .error "Invalid Verify MAC HSM Response"

/-- The error after two seconds. -/
def timeoutError : HsmRequest → String
  | .verifyPin _ _ _ => "Timeout awaiting HSM DB response"
  | .translatePin _ _ => "Timeout or fail awaiting HSM CB response"
  | .verifyMac _ _ => "Timeout awaiting HSM M1 response"

end HsmRequest

/-! ## The state -/

inductive CallPc where
  | absent
  | headed (request : HsmRequest) (header : String)
  | inserted (request : HsmRequest) (header : String)
  | awaiting (request : HsmRequest) (header : String)
  /-- The call has given up and is about to remove its header. -/
  | removing (header : String) (error : String)
  | finished (result : Except String HsmVerdict)
  | panicked

inductive ReaderPc where
  | idle
  | sending (call : CallId) (response : Exchange)
  | dead

structure HsmClient where
  counter : UInt32
  /-- A oneshot sender, by the call that has the receiver. -/
  correlationMap : DashMap String CallId
  queue : List Exchange
  writerAlive : Bool
  /-- What the HSM has and has not answered. -/
  asked : List Exchange
  answers : List Exchange
  reader : ReaderPc
  /-- What is in the oneshot channel of a call. -/
  delivered : CallId → Option Exchange
  calls : CallId → CallPc

namespace HsmClient

/-- `HsmClient::connect`. -/
def connect : HsmClient where
  counter := 0
  correlationMap := ∅
  queue := []
  writerAlive := true
  asked := []
  answers := []
  reader := .idle
  delivered := fun _ => none
  calls := fun _ => .absent

def setCall (s : HsmClient) (c : CallId) (pc : CallPc) : HsmClient :=
  { s with calls := update s.calls c pc }

/-- The sender of the call is in the map or with the reader. -/
def senderLives (s : HsmClient) (c : CallId) (header : String) : Bool :=
  s.correlationMap.get header = some c ||
    match s.reader with
    | .sending c' _ => c' = c
    | _ => false

/-! ## The steps -/

inductive HsmAction where
  | begin (c : CallId) (request : HsmRequest)
  | insert (c : CallId)
  | dispatch (c : CallId)
  /-- The writer takes a message, and the write succeeds or not. -/
  | write (ok : Bool)
  /-- The HSM answers the message at a position. -/
  | answer (n : Nat) (command payload : String)
  | read
  | readError
  | send
  | receive (c : CallId)
  /-- The sender is dropped without a response. -/
  | lose (c : CallId)
  | timeout (c : CallId)
  | remove (c : CallId)

def nextHeader (counter : UInt32) : String := zeroPadded 4 (counter.toNat % 10000)

/-- The writer task is gone when a write has failed, and the channel is closed. -/
def dispatch (s : HsmClient) (c : CallId) (request : HsmRequest) (header : String) : HsmClient :=
  match request.message header with
  | some msg =>
      if s.writerAlive then
        { s with queue := s.queue ++ [Exchange.mk c msg] }.setCall c (.awaiting request header)
      else s.setCall c (.removing header "HSM Dispatch Channel Closed")
  | none => s.setCall c .panicked

/-- A lost sender counts as a timeout for `translate_pin` only. -/
def lose (s : HsmClient) (c : CallId) (request : HsmRequest) (header : String) : HsmClient :=
  match request with
  | .translatePin _ _ => s.setCall c (.removing header request.timeoutError)
  | _ => s.setCall c (.finished (.error "Receiver dropped"))

/-- The reader takes a response off the socket, and the sender out of the map. -/
def read (s : HsmClient) (response : Exchange) (rest : List Exchange) : HsmClient :=
  match s.correlationMap.get response.message.header with
  | some c =>
      { s with
        answers := rest
        correlationMap := s.correlationMap.remove response.message.header
        reader := .sending c response }
  | none => { s with answers := rest }

def step (s : HsmClient) : HsmAction → Option HsmClient
  | .begin c request =>
      match s.calls c with
      | .absent =>
          some ({ s with counter := s.counter + 1 }.setCall c
            (.headed request (nextHeader s.counter)))
      | _ => none
  | .insert c =>
      match s.calls c with
      | .headed request header =>
          some ({ s with correlationMap := s.correlationMap.put header c }.setCall c
            (.inserted request header))
      | _ => none
  | .dispatch c =>
      match s.calls c with
      | .inserted request header => some (s.dispatch c request header)
      | _ => none
  | .write ok =>
      match s.writerAlive, s.queue with
      | true, e :: rest =>
          if ok then some { s with queue := rest, asked := s.asked ++ [e] }
          else some { s with queue := [], writerAlive := false }
      | _, _ => none
  | .answer n command payload =>
      (s.asked[n]?).map fun e =>
        { s with
          asked := s.asked.eraseIdx n
          answers := s.answers ++ [⟨e.call, ⟨e.message.header, command, payload⟩⟩] }
  | .read =>
      match s.reader, s.answers with
      | .idle, response :: rest => some (s.read response rest)
      | _, _ => none
  | .readError =>
      match s.reader with
      | .idle => some { s with reader := .dead }
      | _ => none
  | .send =>
      match s.reader with
      -- If the call has given up, nobody takes the response out of the channel.
      | .sending c response =>
          some { s with reader := .idle, delivered := update s.delivered c (some response) }
      | _ => none
  | .receive c =>
      match s.calls c, s.delivered c with
      | .awaiting request _, some response =>
          some (s.setCall c (.finished (request.interpret response.message)))
      | _, _ => none
  | .lose c =>
      match s.calls c, s.delivered c with
      | .awaiting request header, none =>
          if s.senderLives c header then none else some (s.lose c request header)
      | _, _ => none
  | .timeout c =>
      match s.calls c, s.delivered c with
      | .awaiting request header, none =>
          some (s.setCall c (.removing header request.timeoutError))
      | _, _ => none
  | .remove c =>
      match s.calls c with
      | .removing header error =>
          some ({ s with correlationMap := s.correlationMap.remove header }.setCall c
            (.finished (.error error)))
      | _ => none

abbrev Reachable (P : HsmClient → HsmAction → Prop) : HsmClient → Prop :=
  Transition.Reachable (· = connect) (Transition.Steps step P)

end HsmClient

end Iso8583Switch
