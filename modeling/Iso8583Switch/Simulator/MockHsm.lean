import Iso8583Switch.Hsm.HsmClient

/-!
# The mock HSM

src/bin/mock_hsm.rs of the simulator, behind the codec.  The HSM answers the messages of a
connection one by one.  It cuts payloads at fixed byte offsets, so a slice may panic, and
then it answers nothing more.
-/

namespace Iso8583Switch

open Text

namespace MockHsm

def reversed (text : String) : String := String.ofList text.toList.reverse

/-- Behind the source key, the target key and the length. -/
def pinBlockStart : Nat := 16 + 16 + 2

/-- The payload of the answer to `CA`. -/
def translatePin (p : String) : Option String :=
  if pinBlockStart + 16 ≤ len p then
    (slice p pinBlockStart (pinBlockStart + 16)).map fun pinBlock => "00" ++ reversed pinBlock
  else some "01"

/-- The payload of the answer to `DA`. -/
def verifyPin (payload : String) : Option String :=
  if 16 + 16 + 2 + 12 + 16 + 4 ≤ len payload then
    (slice payload (len payload - 4) (len payload)).map fun pvv =>
      if pvv = "9999" then "05" else "00"
  else some "01"

/-- The answer, or `none` where it panics. -/
def processHsmCommand (msg : ThalesMessage) : Option ThalesMessage :=
  match msg.command with
  | "CA" => (translatePin msg.payload).map fun p => { msg with command := "CB", payload := p }
  | "DA" => (verifyPin msg.payload).map fun p => { msg with command := "DB", payload := p }
  | "M0" => some { msg with command := "M1", payload := "00" }
  | _ =>
      msg.command.toList.head?.map fun c =>
        { msg with command := String.ofList [c] ++ "B", payload := "15" }

end MockHsm

/-- The HSM at the other end is the mock. -/
def HsmClient.AnsweredByMock (s : HsmClient) (a : HsmAction) : Prop :=
  ∀ n command payload e, a = .answer n command payload → s.asked[n]? = some e →
    MockHsm.processHsmCommand e.message = some ⟨e.message.header, command, payload⟩

end Iso8583Switch
