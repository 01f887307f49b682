import Mathlib.Algebra.Group.Int.Defs
import Mathlib.Algebra.Group.Nat.Defs
import Mathlib.Data.List.Basic

/-!
# Status codes and byte strings

`OtlpStatus` is `otlp_status_t` of `status.h`. C strings and buffers are lists of bytes; a C string
is the bytes before its terminating NUL.
-/

namespace OtlpC

/-- `otlp_status_t`: the result of every fallible function. -/
inductive OtlpStatus where
  | ok
  | errInvalidArgument
  | errNomem
  | errNull
  | errOverflow
  | errUtf8
  | errNetwork
  | errTimeout
  | errDns
  | errConnect
  | errWrite
  | errRead
  | errProtocol
  | errInvalidResponse
  | errHttpStatus
  | errThrottled
  | errServer
  | errBufferFull
  | errShutdown
  | errWouldblock
  | errNotImplemented
deriving Repr, DecidableEq

abbrev Bytes := List UInt8

/-- The bytes of an ASCII literal. -/
def ascii (s : String) : Bytes := s.toList.map fun c => UInt8.ofNat c.toNat

def decimalDigits : List Bytes := [ascii "0123456789"]

/-- The digits of a hexadecimal number, in either case. -/
def hexDigits : List Bytes := [ascii "0123456789abcdef", ascii "0123456789ABCDEF"]

/-- `SIZE_MAX` with a 64-bit `size_t`. -/
abbrev sizeMax : ℕ := 2 ^ 64 - 1

end OtlpC
