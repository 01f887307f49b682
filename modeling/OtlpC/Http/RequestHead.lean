import Mathlib.Algebra.GroupWithZero.Nat
import OtlpC.Http.Request

/-!
# The head of a request

What `build_request` makes of a configuration (`buildRequest_eq`), and how a server reads it: the bytes up to
the first blank line are the request line and the header lines, each as given, and the body follows
(`buildRequest_framed`).
-/

namespace OtlpC.Http

open Occurrence

/-! ### The head block -/

def headerLength (h : OtlpHttpHeader) : ℕ := (h.name.getD []).length + (h.value.getD []).length + 4

/-- The length of the head block of a request with a body of `bodyLen` bytes. -/
def headLength (url : OtlpHttpUrl) (userAgent : Bytes) (headers : List OtlpHttpHeader) (bodyLen : ℕ) : ℕ :=
  url.path.length + url.host.length + userAgent.length + (headers.map headerLength).sum +
    (decimal bodyLen).length + 120

theorem appendHead_eq (head text : Bytes) : appendHead head text =
    if head.length + text.length < headMax then .ok (head ++ text) else .error .errOverflow := by
  unfold appendHead
  split
  · next hfull => rw [if_neg (by omega)]
  · next hfits => rw [if_pos (by omega)]

def headerLines (headers : List OtlpHttpHeader) : Bytes :=
  headers.flatMap fun h => h.name.getD [] ++ ascii ": " ++ h.value.getD [] ++ crlf

theorem headerLine_length (h : OtlpHttpHeader) :
    (h.name.getD [] ++ ascii ": " ++ h.value.getD [] ++ crlf).length = headerLength h := by
  have hsep : (ascii ": ").length = 2 := by decide
  have hend : crlf.length = 2 := rfl
  simp only [List.length_append, hsep, hend, headerLength]
  omega

theorem appendHeaders_eq {head : Bytes} {headers : List OtlpHttpHeader} (hhead : head.length < headMax) :
    appendHeaders head headers = if head.length + (headers.map headerLength).sum < headMax then
      .ok (head ++ headerLines headers) else .error .errOverflow := by
  induction headers generalizing head with
  | nil => simp [appendHeaders, headerLines, hhead]
  | cons h headers ih =>
    have hline := headerLine_length h
    have hlength : (head ++ (h.name.getD [] ++ ascii ": " ++ h.value.getD [] ++ crlf)).length =
        head.length + headerLength h := by
      rw [List.length_append, hline]
    rw [appendHeaders, appendHead_eq, hline, List.map_cons, List.sum_cons]
    by_cases hfits : head.length + headerLength h < headMax
    · rw [if_pos hfits]
      dsimp only
      rw [ih (by rw [hlength]; exact hfits), hlength, Nat.add_assoc, headerLines, headerLines,
        List.flatMap_cons, List.append_assoc head]
    · rw [if_neg hfits, if_neg (by omega)]

theorem headerLines_length (headers : List OtlpHttpHeader) :
    (headerLines headers).length = (headers.map headerLength).sum := by
  induction headers with
  | nil => rfl
  | cons h headers ih =>
    rw [headerLines, List.flatMap_cons, List.length_append, headerLine_length, List.map_cons, List.sum_cons,
      ← ih, headerLines]

/-- The request line and the fixed headers before the extra ones. -/
def headStart (url : OtlpHttpUrl) (userAgent : Bytes) : Bytes :=
  ascii "POST " ++ url.path ++ ascii " HTTP/1.1" ++ crlf ++ ascii "Host: " ++ url.host ++ crlf ++
    ascii "User-Agent: " ++ userAgent ++ crlf

/-- The fixed headers after the extra ones, and the blank line. -/
def headEnd (bodyLen : ℕ) : Bytes :=
  ascii "Content-Type: application/x-protobuf" ++ crlf ++ ascii "Content-Length: " ++ decimal bodyLen ++
    crlf ++ ascii "Connection: keep-alive" ++ crlf ++ crlf

theorem headStart_length (url : OtlpHttpUrl) (userAgent : Bytes) :
    (headStart url userAgent).length = url.path.length + url.host.length + userAgent.length + 38 := by
  have hpost : (ascii "POST ").length = 5 := by decide
  have hversion : (ascii " HTTP/1.1").length = 9 := by decide
  have hhost : (ascii "Host: ").length = 6 := by decide
  have hagent : (ascii "User-Agent: ").length = 12 := by decide
  have hend : crlf.length = 2 := rfl
  simp only [headStart, List.length_append, hpost, hversion, hhost, hagent, hend]
  omega

theorem headEnd_length (bodyLen : ℕ) : (headEnd bodyLen).length = (decimal bodyLen).length + 82 := by
  have htype : (ascii "Content-Type: application/x-protobuf").length = 36 := by decide
  have hlength : (ascii "Content-Length: ").length = 16 := by decide
  have hconnection : (ascii "Connection: keep-alive").length = 22 := by decide
  have hend : crlf.length = 2 := rfl
  simp only [headEnd, List.length_append, htype, hlength, hconnection, hend]
  omega

/-- **What `build_request` makes of a configuration** whose extra headers are allowed. -/
theorem buildRequest_eq {url : OtlpHttpUrl} {userAgent : Bytes} {headers : List OtlpHttpHeader}
    {body : Bytes} (hheaders : headers.all headerAllowed = true) (hbody : body.length < 2 ^ 63)
    (mallocOk : Bool) : buildRequest url (some userAgent) headers body mallocOk =
      if hasCrLf userAgent then .error .errInvalidArgument
      else if headMax ≤ headLength url userAgent headers body.length then .error .errOverflow
      else if mallocOk then
        .ok (headStart url userAgent ++ headerLines headers ++ headEnd body.length ++ body)
      else .error .errNomem := by
  have hstart := headStart_length url userAgent
  have hlines := headerLines_length headers
  have hend := headEnd_length body.length
  have htotal : headLength url userAgent headers body.length =
      (headStart url userAgent).length + (headers.map headerLength).sum + (headEnd body.length).length := by
    rw [hstart, hend, headLength]
    omega
  unfold buildRequest
  dsimp only
  rw [Option.getD_some, hheaders, Bool.not_true, if_neg Bool.false_ne_true]
  split
  · rfl
  have hfoldStart : ascii "POST " ++ url.path ++ ascii " HTTP/1.1" ++ crlf ++ ascii "Host: " ++ url.host ++
      crlf ++ ascii "User-Agent: " ++ userAgent ++ crlf = headStart url userAgent := rfl
  have hfoldEnd : ascii "Content-Type: application/x-protobuf" ++ crlf ++ ascii "Content-Length: " ++
      decimal body.length ++ crlf ++ ascii "Connection: keep-alive" ++ crlf ++ crlf =
        headEnd body.length := rfl
  rw [hfoldStart, hfoldEnd, appendHead_eq, List.length_nil, Nat.zero_add, List.nil_append]
  by_cases hfirst : (headStart url userAgent).length < headMax
  · rw [if_pos hfirst]
    dsimp only
    rw [appendHeaders_eq hfirst]
    by_cases hsecond : (headStart url userAgent).length + (headers.map headerLength).sum < headMax
    · rw [if_pos hsecond]
      dsimp only
      rw [appendHead_eq, List.length_append, hlines]
      by_cases hthird : headLength url userAgent headers body.length < headMax
      · rw [if_pos (htotal ▸ hthird), if_neg (Nat.not_le.2 hthird)]
        dsimp only
        rw [if_neg]
        · cases mallocOk <;> rfl
        · -- the head block adds less than 1024 bytes
          simp only [List.length_append, hlines, ← htotal, Nat.not_lt, sizeMax]
          have hsmall : headMax = 1024 := rfl
          omega
      · rw [if_neg (htotal ▸ hthird), if_pos (Nat.not_lt.1 hthird)]
    · rw [if_neg hsecond, if_pos (by omega)]
  · rw [if_neg hfirst, if_pos (by omega)]

/-! ### How it is read -/

theorem appendHead_eq_ok {head text out : Bytes} (h : appendHead head text = .ok out) :
    out = head ++ text := by
  unfold appendHead at h
  split at h
  · contradiction
  · exact (Except.ok.inj h).symm

theorem appendHeaders_eq_ok {head out : Bytes} {headers : List OtlpHttpHeader}
    (h : appendHeaders head headers = .ok out) : out = head ++ headerLines headers := by
  induction headers generalizing head with
  | nil => rw [← Except.ok.inj h, headerLines, List.flatMap_nil, List.append_nil]
  | cons hd headers ih =>
    rw [appendHeaders] at h
    split at h
    · contradiction
    next head' hline =>
      rw [ih h, appendHead_eq_ok hline, headerLines, headerLines, List.flatMap_cons, List.append_assoc head]

theorem buildRequest_eq_ok {url : OtlpHttpUrl} {userAgent : Option Bytes} {headers : List OtlpHttpHeader}
    {body req : Bytes} {mallocOk : Bool} (h : buildRequest url userAgent headers body mallocOk = .ok req) :
    hasCrLf (userAgent.getD (ascii "otlp-c")) = false ∧ headers.all headerAllowed = true ∧
      req = headStart url (userAgent.getD (ascii "otlp-c")) ++ headerLines headers ++ headEnd body.length ++
        body := by
  unfold buildRequest at h
  dsimp only at h
  split at h
  · cases h
  next hagent =>
  split at h
  · cases h
  next hheaders =>
  split at h
  · cases h
  next start hstart =>
  split at h
  · cases h
  next lines hlines =>
  split at h
  · cases h
  next head hhead =>
  split at h
  · cases h
  split at h
  · cases h
  refine ⟨by simpa using hagent, by simpa using hheaders, ?_⟩
  rw [← Except.ok.inj h, appendHead_eq_ok hhead, appendHeaders_eq_ok hlines, appendHead_eq_ok hstart]
  rfl

/-- The lines of the head that a server should read. -/
def requestLines (url : OtlpHttpUrl) (userAgent : Bytes) (headers : List OtlpHttpHeader) (bodyLen : ℕ) :
    List Bytes :=
  [ascii "POST " ++ url.path ++ ascii " HTTP/1.1", ascii "Host: " ++ url.host,
    ascii "User-Agent: " ++ userAgent] ++
  headers.map (fun h => h.name.getD [] ++ ascii ": " ++ h.value.getD []) ++
  [ascii "Content-Type: application/x-protobuf", ascii "Content-Length: " ++ decimal bodyLen,
    ascii "Connection: keep-alive"]

theorem flatMap_requestLines (url : OtlpHttpUrl) (userAgent : Bytes) (headers : List OtlpHttpHeader)
    (bodyLen : ℕ) : headStart url userAgent ++ headerLines headers ++ headEnd bodyLen =
      ((requestLines url userAgent headers bodyLen).flatMap fun w => w ++ crlf) ++ crlf := by
  simp [requestLines, headStart, headerLines, headEnd, List.flatMap_map]

theorem decimal_noCr (n : ℕ) : cr ∉ decimal n := by
  intro hmem
  obtain ⟨c, hc, heq⟩ := List.mem_map.1 hmem
  have hdigit := Nat.isDigit_of_mem_toDigits (by decide) (by decide) hc
  simp only [Char.isDigit, Bool.and_eq_true, decide_eq_true_eq] at hdigit
  have hlow : 48 ≤ c.toNat := hdigit.1
  have hhigh : c.toNat ≤ 57 := hdigit.2
  have hval := congrArg UInt8.toNat heq
  rw [UInt8.toNat_ofNat_of_lt' (lt_of_le_of_lt hhigh (by decide))] at hval
  have hcr : cr.toNat = 13 := rfl
  omega

theorem headerAllowed_noCr {h : OtlpHttpHeader} (hallowed : headerAllowed h = true) :
    cr ∉ h.name.getD [] ++ ascii ": " ++ h.value.getD [] := by
  unfold headerAllowed at hallowed
  split at hallowed
  · contradiction
  next name hname =>
  simp only [Bool.and_eq_true, Bool.not_eq_true', hasCrLf_eq_false] at hallowed
  have hsep : cr ∉ ascii ": " := by decide
  rw [hname, Option.getD_some, List.mem_append, List.mem_append, not_or, not_or]
  exact ⟨⟨hallowed.1.2.1, hsep⟩, hallowed.2.1⟩

theorem line_ok {label value : Bytes} (hlabel : cr ∉ label ∧ label ≠ []) (hvalue : cr ∉ value) :
    cr ∉ label ++ value ∧ label ++ value ≠ [] := by
  rw [List.mem_append, not_or]
  exact ⟨⟨hlabel.1, hvalue⟩, List.append_ne_nil_of_left_ne_nil hlabel.2 value⟩

theorem requestLines_noCr {url : OtlpHttpUrl} (hhost : cr ∉ url.host) (hpath : cr ∉ url.path) {userAgent : Bytes}
    (hagent : hasCrLf userAgent = false) {headers : List OtlpHttpHeader}
    (hheaders : headers.all headerAllowed = true) (bodyLen : ℕ) :
    ∀ w ∈ requestLines url userAgent headers bodyLen, cr ∉ w ∧ w ≠ [] := by
  rw [hasCrLf_eq_false] at hagent
  intro w hw
  simp only [requestLines, List.mem_append, List.mem_cons, List.not_mem_nil, or_false, List.mem_map] at hw
  rcases hw with ((rfl | rfl | rfl) | ⟨h, hmem, rfl⟩) | rfl | rfl | rfl
  · rw [List.append_assoc]
    refine line_ok (by decide) ?_
    rw [List.mem_append, not_or]
    exact ⟨hpath, by decide⟩
  · exact line_ok (by decide) hhost
  · exact line_ok (by decide) hagent.1
  · exact ⟨headerAllowed_noCr (List.all_eq_true.1 hheaders h hmem), by simp [ascii]⟩
  · decide
  · exact line_ok (by decide) (decimal_noCr bodyLen)
  · decide

theorem requestLines_ok {s : Bytes} {url : OtlpHttpUrl} (hurl : otlpHttpParseUrl s = .ok url)
    {userAgent : Bytes} (hagent : hasCrLf userAgent = false) {headers : List OtlpHttpHeader}
    (hheaders : headers.all headerAllowed = true) (bodyLen : ℕ) :
    ∀ w ∈ requestLines url userAgent headers bodyLen, cr ∉ w ∧ w ≠ [] := by
  obtain ⟨hhost, hpath⟩ := otlpHttpParseUrl_noCrLf hurl
  rw [hasCrLf_eq_false] at hhost hpath
  exact requestLines_noCr hhost.1 hpath.1 hagent hheaders bodyLen

/-- **A request reads back as it was meant.** Up to the first blank line stand the request line and the header
lines with the given contents, in order and uncut, and what follows is the body. -/
theorem buildRequest_framed {s : Bytes} {url : OtlpHttpUrl} (hurl : otlpHttpParseUrl s = .ok url)
    {userAgent : Option Bytes} {headers : List OtlpHttpHeader} {body req : Bytes} {mallocOk : Bool}
    (hreq : buildRequest url userAgent headers body mallocOk = .ok req) :
    ∃ off, findSubstring req crlfcrlf = some off ∧
      splitPair cr lf (req.take off) =
        requestLines url (userAgent.getD (ascii "otlp-c")) headers body.length ∧
      req.drop (off + 4) = body := by
  obtain ⟨hagent, hheaders, rfl⟩ := buildRequest_eq_ok hreq
  have hlines := requestLines_ok hurl hagent hheaders body.length
  rw [flatMap_requestLines, List.append_assoc]
  obtain ⟨off, hfirst, hsplit, hdrop⟩ :=
    exists_firstAt_lines (show cr ≠ lf by decide) hlines (List.append_ne_nil_of_right_ne_nil _ (List.cons_ne_nil _ _)) body
  exact ⟨off, findSubstring_eq_some.2 hfirst, hsplit, hdrop⟩

/-- Two extra headers, one without a value, and a body that begins with a blank line. -/
theorem buildRequest_framed_two_headers :
    ∃ url req off, otlpHttpParseUrl (ascii "http://collector/v1/logs") = .ok url ∧
      buildRequest url (some (ascii "agent")) [⟨some (ascii "X-Key"), some (ascii "a: b")⟩,
        ⟨some (ascii "X-Empty"), none⟩] (crlf ++ crlf ++ ascii "body") true = .ok req ∧
      findSubstring req crlfcrlf = some off ∧
      splitPair cr lf (req.take off) = [ascii "POST /v1/logs HTTP/1.1", ascii "Host: collector",
        ascii "User-Agent: agent", ascii "X-Key: a: b", ascii "X-Empty: ",
        ascii "Content-Type: application/x-protobuf", ascii "Content-Length: 8",
        ascii "Connection: keep-alive"] ∧
      req.drop (off + 4) = crlf ++ crlf ++ ascii "body" := by
  have hurl : otlpHttpParseUrl (ascii "http://collector/v1/logs") =
      .ok { host := ascii "collector", port := 80, path := ascii "/v1/logs" } := by decide +kernel
  have hok : (buildRequest { host := ascii "collector", port := 80, path := ascii "/v1/logs" }
      (some (ascii "agent")) [⟨some (ascii "X-Key"), some (ascii "a: b")⟩, ⟨some (ascii "X-Empty"), none⟩]
      (crlf ++ crlf ++ ascii "body") true).toBool = true := by decide +kernel
  cases hreq : buildRequest { host := ascii "collector", port := 80, path := ascii "/v1/logs" }
      (some (ascii "agent")) [⟨some (ascii "X-Key"), some (ascii "a: b")⟩, ⟨some (ascii "X-Empty"), none⟩]
      (crlf ++ crlf ++ ascii "body") true with
  | error st =>
    rw [hreq] at hok
    contradiction
  | ok req =>
    obtain ⟨off, hoff, hsplit, hbody⟩ := buildRequest_framed hurl hreq
    exact ⟨_, req, off, hurl, hreq, hoff, hsplit.trans (by decide +kernel), hbody⟩

end OtlpC.Http
