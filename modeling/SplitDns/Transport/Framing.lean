import SplitDns.Transport.Stream
import SplitDns.Message.Word
import SplitDns.Failure

/-!
# Framed messages

On a stream a message follows its length, which is written in two octets.
-/

namespace SplitDns.Framing

inductive Fault where
  | tooLong (size : Nat)
  | writeLength (cause : StreamFault)
  | writeMessage (cause : StreamFault)
  | readLength (cause : StreamFault)
  | readBody (cause : StreamFault)
  deriving DecidableEq, Repr, Inhabited

namespace Fault

/-- The failure of an exchange with a server; silence is a timeout. -/
def failure (server : Text) : Fault → Failure
  | tooLong size => .invalidRequest s!"DNS message too large for TCP framing: {size} bytes"
  | writeLength .stalled | writeMessage .stalled | readLength .stalled | readBody .stalled =>
    .timeout (String.ofList server)
  | writeLength cause => .transport s!"Failed to write length prefix: {cause.text}"
  | writeMessage cause => .transport s!"Failed to write DNS message: {cause.text}"
  | readLength cause => .transport s!"Failed to read response length: {cause.text}"
  | readBody cause => .transport s!"Failed to read response body: {cause.text}"

end Fault

def send (message : Bytes) : Exchange Fault Unit :=
  if 65535 < message.length then Exchange.fail (.tooLong message.length)
  else do
    Exchange.mapError .writeLength
      (Exchange.write (Word.octets16 (UInt16.ofNat message.length)))
    Exchange.mapError .writeMessage (Exchange.write message)

def receive : Exchange Fault Bytes := do
  let size ← Exchange.mapError .readLength (Exchange.read 2)
  match size with
  | [a, b] => Exchange.mapError .readBody (Exchange.read (Word.ofOctets16 a b).toNat)
  | _ => Exchange.fail (.readLength .endOfStream)

/-- One message out and one message in. -/
def exchange (message : Bytes) : Exchange Fault Bytes := do
  send message
  receive

end SplitDns.Framing
