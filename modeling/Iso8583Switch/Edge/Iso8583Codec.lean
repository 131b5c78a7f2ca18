import Iso8583Switch.Edge.UpstreamClient
import Iso8583Switch.Library.Framing

/-!
# The codec of the sockets

edge-ingress/src/codec.rs and edge-egress/src/client.rs have the same codec, each its
own: the bytes of a message behind their length as a `u16`.  `decode` never fails, and
`encode` never does.
-/

namespace Iso8583Switch

open Framing

/-- The crates that have an `Iso8583Codec`. -/
inductive CodecCrate where
  | edgeIngress
  | edgeEgress

namespace EdgeIngress

def decode {ε : Type} : Decoder ε Bytes := fun src =>
  let (payload, src) := splitFrame src
  (.ok payload, src)

/-- What is in `dst` afterwards. -/
def encode (item dst : Bytes) : Bytes := dst ++ codecEncode item

end EdgeIngress

namespace EdgeEgress

def decode {ε : Type} : Decoder ε Bytes := fun src =>
  let (payload, src) := splitFrame src
  (.ok payload, src)

/-- What is in `dst` afterwards. -/
def encode (item dst : Bytes) : Bytes := dst ++ codecEncode item

end EdgeEgress

namespace CodecCrate

def decode {ε : Type} : CodecCrate → Decoder ε Bytes
  | .edgeIngress => EdgeIngress.decode
  | .edgeEgress => EdgeEgress.decode

def encode : CodecCrate → Bytes → Bytes → Bytes
  | .edgeIngress => EdgeIngress.encode
  | .edgeEgress => EdgeEgress.encode

/-- The buffer after these payloads. -/
def encodeAll (crate : CodecCrate) (payloads : List Bytes) : Bytes :=
  payloads.foldl (fun dst item => crate.encode item dst) []

end CodecCrate

end Iso8583Switch
