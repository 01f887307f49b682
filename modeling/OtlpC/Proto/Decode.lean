import Mathlib.Data.Int.Notation
import OtlpC.Status

/-!
# The protobuf reader

`protobuf_decode.c`. A reader is the bytes from its position to the end; a read returns the reader it
leaves and, when it succeeds, the value. A key that is cut short leaves the reader at the end.
-/

namespace OtlpC.Proto

def wireVarint : ℕ := 0
def wireFixed64 : ℕ := 1
def wireLen : ℕ := 2
def wireFixed32 : ℕ := 5

/-- The `while` of `otlp_pb_read_key` and `otlp_pb_read_varint`. -/
def varintLoop (v : UInt64) (shift : ℕ) : Bytes → Bytes × Option UInt64
  | [] => ([], none)
  | b :: r =>
    let v := v ||| ((b &&& 0x7f).toUInt64 <<< UInt64.ofNat shift)
    if b &&& 0x80 == 0 then (r, some v)
    else if 64 ≤ shift + 7 then (r, none)
    else varintLoop v (shift + 7) r

def otlpPbReadVarint (r : Bytes) : Bytes × Option UInt64 := varintLoop 0 0 r

/-- The field number and the wire type. -/
def otlpPbReadKey (r : Bytes) : Bytes × Option (ℕ × ℕ) :=
  match varintLoop 0 0 r with
  | (r, none) => (r, none)
  | (r, some key) =>
    let field := (key >>> 3).toNat % 2 ^ 32
    if field = 0 then (r, none) else (r, some (field, (key &&& 7).toNat))

def otlpPbReadLen (r : Bytes) : Bytes × Option Bytes :=
  match otlpPbReadVarint r with
  | (r, none) => (r, none)
  | (r, some v) => if r.length < v.toNat then (r, none) else (r.drop v.toNat, some (r.take v.toNat))

/-- The reader after the value, when it could be skipped. -/
def otlpPbSkip (r : Bytes) (wireType : ℕ) : Option Bytes :=
  if wireType = wireVarint then
    match otlpPbReadVarint r with
    | (_, none) => none
    | (r, some _) => some r
  else if wireType = wireFixed64 then if r.length < 8 then none else some (r.drop 8)
  else if wireType = wireLen then
    match otlpPbReadLen r with
    | (_, none) => none
    | (r, some _) => some r
  else if wireType = wireFixed32 then if r.length < 4 then none else some (r.drop 4)
  else none

/-! ### PartialSuccess -/

def partialSuccessField : ℕ := 1
/-- `OTLP_EPS_FIELDS[OTLP_EPS_FI_REJECTED].number`. -/
def rejectedField : ℕ := 1
/-- `OTLP_EPS_FIELDS[OTLP_EPS_FI_ERROR_MESSAGE].number`. -/
def errorMessageField : ℕ := 2

/-- The outputs of `otlp_exporter_otel_decode_partial_success`. -/
structure PartialSuccess where
  rejected : ℤ
  errorMessage : Option Bytes
deriving Repr, DecidableEq

/-- `(int64_t) v`. -/
def toInt64 (v : UInt64) : ℤ := if v.toNat < 2 ^ 63 then v.toNat else (v.toNat : ℤ) - 2 ^ 64

/-- The `for (;;)` of `decode_partial_success_sub`; every round reads a byte, so that as many rounds as
there are bytes, and one, are never used up. -/
def decodeSubLoop : ℕ → PartialSuccess → Bytes → Option PartialSuccess
  | 0, _, _ => none
  | rounds + 1, ps, r =>
    match otlpPbReadKey r with
    | (r, none) => if r.isEmpty then some ps else none
    | (r, some (field, wt)) =>
      if field = rejectedField ∧ wt = wireVarint then
        match otlpPbReadVarint r with
        | (_, none) => none
        | (r, some v) => decodeSubLoop rounds { ps with rejected := toInt64 v } r
      else if field = errorMessageField ∧ wt = wireLen then
        match otlpPbReadLen r with
        | (_, none) => none
        | (r, some data) => decodeSubLoop rounds { ps with errorMessage := some data } r
      else
        match otlpPbSkip r wt with
        | none => none
        | some r => decodeSubLoop rounds ps r

def decodePartialSuccessSub (ps : PartialSuccess) (sub : Bytes) : Option PartialSuccess :=
  decodeSubLoop (sub.length + 1) ps sub

def decodeLoop : ℕ → PartialSuccess → Bool → Bytes → Option PartialSuccess
  | 0, _, _, _ => none
  | rounds + 1, ps, found, r =>
    match otlpPbReadKey r with
    | (r, none) => if r.isEmpty && found then some ps else none
    | (r, some (field, wt)) =>
      if field = partialSuccessField ∧ wt = wireLen then
        match otlpPbReadLen r with
        | (_, none) => none
        | (r, some sub) =>
          match decodePartialSuccessSub ps sub with
          | none => none
          | some ps => decodeLoop rounds ps true r
      else
        match otlpPbSkip r wt with
        | none => none
        | some r => decodeLoop rounds ps found r

/-- The outputs when a partial_success submessage is present. -/
def otlpExporterOtelDecodePartialSuccess (body : Bytes) : Option PartialSuccess :=
  decodeLoop (body.length + 1) { rejected := 0, errorMessage := none } false body

end OtlpC.Proto
