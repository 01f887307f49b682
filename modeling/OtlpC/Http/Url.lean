import OtlpC.Lib.Numerals
import OtlpC.Status

/-!
# Collector URLs

`otlp_http_parse_url` of `http_client.c`: `http://host[:port][/path]` into host, port and path.
-/

namespace OtlpC.Http

abbrev cr : UInt8 := 0x0d
abbrev lf : UInt8 := 0x0a
abbrev space : UInt8 := 0x20
abbrev slash : UInt8 := 0x2f
abbrev colon : UInt8 := 0x3a

def otlpHttpHostMax : ℕ := 256
def otlpHttpPathMax : ℕ := 256

structure OtlpHttpUrl where
  host : Bytes
  port : ℕ
  path : Bytes
deriving Repr, DecidableEq

def isDigit (c : UInt8) : Bool := 0x30 ≤ c && c ≤ 0x39

def digitValue (c : UInt8) : ℕ := c.toNat - 0x30

/-- What `isDigit` accepts are the ten digits, and `digitValue` is what they stand for. -/
theorem valueOf_decimalDigits (c : UInt8) :
    Numerals.valueOf decimalDigits c = if isDigit c then some (digitValue c) else none := by
  have hall : ∀ n : Fin 256, Numerals.valueOf decimalDigits (UInt8.ofNat n) =
      if isDigit (UInt8.ofNat n) then some (digitValue (UInt8.ofNat n)) else none := by decide +kernel
  simpa using hall ⟨c.toNat, c.toNat_lt⟩

def parseUint16Loop (v : ℕ) : Bytes → Option ℕ
  | [] => some v
  | c :: s =>
    if !isDigit c then none
    else if 65535 < v * 10 + digitValue c then none
    else parseUint16Loop (v * 10 + digitValue c) s

def parseUint16 (s : Bytes) : Option ℕ :=
  match parseUint16Loop 0 s with
  | none => none
  | some v => if s.isEmpty then none else some v

def hasCrLf (s : Bytes) : Bool := s.any fun c => c == cr || c == lf

theorem hasCrLf_eq_false {s : Bytes} : hasCrLf s = false ↔ cr ∉ s ∧ lf ∉ s := by
  simp only [hasCrLf, List.any_eq_false, Bool.or_eq_true, beq_iff_eq, not_or]
  constructor
  · intro h
    exact ⟨fun hmem => (h cr hmem).1 rfl, fun hmem => (h lf hmem).2 rfl⟩
  · rintro ⟨hcr, hlf⟩ c hmem
    exact ⟨fun hc => hcr (hc ▸ hmem), fun hc => hlf (hc ▸ hmem)⟩

/-- The path of a URL whose host and port have been read: what is left of it, or `/`. -/
def parsePath (host : Bytes) (port : ℕ) (p : Bytes) : Except OtlpStatus OtlpHttpUrl :=
  if p.isEmpty then .ok { host, port, path := [slash] }
  else if otlpHttpPathMax ≤ p.length then .error .errInvalidArgument
  else .ok { host, port, path := p }

def otlpHttpParseUrl (url : Bytes) : Except OtlpStatus OtlpHttpUrl :=
  if hasCrLf url then .error .errInvalidArgument
  else if url.take 7 ≠ ascii "http://" then .error .errInvalidArgument
  else
    let hostStart := url.drop 7
    if hostStart.isEmpty || hostStart.head? == some slash then .error .errInvalidArgument
    else
      let host := hostStart.takeWhile fun c => c != colon && c != slash
      let hostEnd := hostStart.dropWhile fun c => c != colon && c != slash
      if host.length = 0 || otlpHttpHostMax ≤ host.length then .error .errInvalidArgument
      else if hostEnd.head? == some colon then
        let portStart := hostEnd.drop 1
        match parseUint16 (portStart.takeWhile (· != slash)) with
        | none => .error .errInvalidArgument
        | some port => parsePath host port (portStart.dropWhile (· != slash))
      else parsePath host 80 hostEnd

example : otlpHttpParseUrl (ascii "http://collector:4318/v1/traces") =
    .ok { host := ascii "collector", port := 4318, path := ascii "/v1/traces" } := by rfl

/-- The host and the path of an accepted URL are pieces of it, or the path is `/`. -/
theorem otlpHttpParseUrl_noCrLf {url : Bytes} {u : OtlpHttpUrl} (h : otlpHttpParseUrl url = .ok u) :
    hasCrLf u.host = false ∧ hasCrLf u.path = false := by
  have hpath : ∀ {host : Bytes} {port : ℕ} {p : Bytes}, hasCrLf host = false → hasCrLf p = false →
      parsePath host port p = .ok u → hasCrLf u.host = false ∧ hasCrLf u.path = false := by
    intro host port p hhost hp hok
    unfold parsePath at hok
    split at hok
    · cases hok
      exact ⟨hhost, rfl⟩
    · split at hok
      · contradiction
      · cases hok
        exact ⟨hhost, hp⟩
  have hpiece : ∀ {s t : Bytes}, s.Sublist t → hasCrLf t = false → hasCrLf s = false := by
    intro s t hsub ht
    rw [hasCrLf_eq_false] at ht ⊢
    exact ⟨fun hmem => ht.1 (hsub.subset hmem), fun hmem => ht.2 (hsub.subset hmem)⟩
  unfold otlpHttpParseUrl at h
  split at h
  · contradiction
  next hurl =>
  rw [Bool.not_eq_true] at hurl
  have hstart := hpiece (List.drop_sublist 7 url) hurl
  split at h
  · contradiction
  simp only at h
  split at h
  · contradiction
  split at h
  · contradiction
  have hhost := hpiece (List.takeWhile_sublist fun c => c != colon && c != slash) hstart
  have hend := hpiece (List.dropWhile_sublist fun c => c != colon && c != slash) hstart
  split at h
  · split at h
    · contradiction
    · exact hpath hhost (hpiece ((List.dropWhile_sublist _).trans (List.drop_sublist 1 _)) hend) h
  · exact hpath hhost hend h

theorem otlpHttpParseUrl_eq_ok {url : Bytes} {u : OtlpHttpUrl} (h : otlpHttpParseUrl url = .ok u) :
    u.host ≠ [] ∧ u.host.length < otlpHttpHostMax := by
  have hpath : ∀ {host : Bytes} {port : ℕ} {p : Bytes}, parsePath host port p = .ok u →
      u.host = host := by
    intro host port p hp
    unfold parsePath at hp
    split at hp
    · cases hp; rfl
    · split at hp
      · contradiction
      · cases hp; rfl
  have hhost : ∀ {host : Bytes}, ¬(host.length = 0 || otlpHttpHostMax ≤ host.length) = true →
      host ≠ [] ∧ host.length < otlpHttpHostMax := by
    intro host hne
    simp only [Bool.or_eq_true, decide_eq_true_eq, not_or, Nat.not_le] at hne
    exact ⟨fun hnil => hne.1 (by rw [hnil, List.length_nil]), hne.2⟩
  unfold otlpHttpParseUrl at h
  split at h
  · contradiction
  split at h
  · contradiction
  simp only at h
  split at h
  · contradiction
  split at h
  · contradiction
  next hlen =>
  split at h
  · split at h
    · contradiction
    · rw [hpath h]
      exact hhost hlen
  · rw [hpath h]
    exact hhost hlen

end OtlpC.Http
