import Iso8583Switch.Dialect.Universal
import Iso8583Switch.Hsm.HsmClient
import Iso8583Switch.Library.Framing

/-!
# The codec of the HSM connection

payment-proto/src/thales.rs.  A message is its header, its command and its payload
behind their length as a `u16`.  `decode` cuts the text at fixed byte offsets, so a
slice may panic.
-/

namespace Iso8583Switch

open Text Framing PrefixedLog

/-- How a call of the codec ends without a result. -/
inductive ThalesFailure where
  /-- What `from_utf8` says of these bytes. -/
  | invalidUtf8 (data : Bytes)
  | invalidData (text : String)
  | panicked
deriving DecidableEq

namespace ThalesMessage

/-- `payload_len`. -/
def length (item : ThalesMessage) : Nat := len item.header + len item.command + len item.payload

def bytes (item : ThalesMessage) : Bytes :=
  asBytes item.header ++ asBytes item.command ++ asBytes item.payload

end ThalesMessage

namespace ThalesCodec

/-- `&msg_str[a..b]`. -/
def cut (msgStr : String) (a b : Nat) : Except ThalesFailure String :=
  match slice msgStr a b with
  | some part => .ok part
  | none => .error .panicked

/-- What is made of the bytes of a frame. -/
def message (data : Bytes) : Except ThalesFailure ThalesMessage :=
  match fromUtf8 data with
  | .error _ => .error (.invalidUtf8 data)
  | .ok msgStr =>
      if len msgStr < 6 then .error (.invalidData "Thales message too short")
      else do
        let header ← cut msgStr 0 4
        let command ← cut msgStr 4 6
        let payload ← cut msgStr 6 (len msgStr)
        .ok ⟨header, command, payload⟩

def decode : Decoder ThalesFailure ThalesMessage := fun src =>
  match splitFrame src with
  | (none, src) => (.ok none, src)
  | (some data, src) => ((message data).map some, src)

/-- The result, and what is in `dst` afterwards. -/
def encode (item : ThalesMessage) (dst : Bytes) : Except ThalesFailure Unit × Bytes :=
  let payloadLen := item.length
  if 65535 < payloadLen then (.error (.invalidData "Message too long"), dst)
  else (.ok (), dst ++ (beBytes 2 payloadLen ++ item.bytes))

/-- The buffer after these messages, whatever `encode` says of them. -/
def encodeAll (items : List ThalesMessage) : Bytes :=
  items.foldl (fun dst item => (encode item dst).2) []

end ThalesCodec

end Iso8583Switch
