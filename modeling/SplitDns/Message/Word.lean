import SplitDns.Text.Basic

/-!
# Words on the wire

Numbers of two and four octets, most significant octet first.
-/

namespace SplitDns.Word

def ofOctets16 (a b : UInt8) : UInt16 :=
  a.toUInt16 <<< 8 ||| b.toUInt16

def octets16 (w : UInt16) : Bytes :=
  [(w >>> 8).toUInt8, w.toUInt8]

def ofOctets32 (a b c d : UInt8) : UInt32 :=
  a.toUInt32 <<< 24 ||| b.toUInt32 <<< 16 ||| c.toUInt32 <<< 8 ||| d.toUInt32

def octets32 (w : UInt32) : Bytes :=
  [(w >>> 24).toUInt8, (w >>> 16).toUInt8, (w >>> 8).toUInt8, w.toUInt8]

end SplitDns.Word
