import OtlpC.Exporter.Invariants
import OtlpC.Http.RequestHead

/-!
# Which configurations can be sent

`otlp_exporter_create` and `build_request` check a configuration separately. What the second check refuses
beyond the first (`buildRequest_eq`) is a user agent with CR or LF, and a head block that does not fit its
buffer.
-/

namespace OtlpC.Exporter

open Http

variable {ι : Type*}

/-! ### What an exporter can send -/

/-- `build_request` fails only for want of memory. -/
def SentUnlessNomem (url : OtlpHttpUrl) (userAgent : Bytes) (headers : List OtlpHttpHeader) (body : Bytes) :
    Prop :=
  ∀ mallocOk st, buildRequest url (some userAgent) headers body mallocOk = .error st →
    mallocOk = false ∧ st = .errNomem

theorem Created.headers_sendable {cap : ℕ} {o : OtlpExporterOpts} {e : OtlpExporter ι cap} (h : Created o e) :
    e.httpHeaders.all headerAllowed = true := by
  rw [h.httpHeaders_eq, List.all_map]
  refine Eq.trans (List.all_congr rfl fun hd => ?_) h.headersAllowed
  cases hname : hd.name <;> simp [headerAllowed, hname]

theorem sentUnlessNomem_iff {url : OtlpHttpUrl} {userAgent : Bytes} {headers : List OtlpHttpHeader}
    {body : Bytes} (hheaders : headers.all headerAllowed = true) (hbody : body.length < 2 ^ 63) :
    SentUnlessNomem url userAgent headers body ↔
      hasCrLf userAgent = false ∧ headLength url userAgent headers body.length < headMax := by
  unfold SentUnlessNomem
  simp only [buildRequest_eq hheaders hbody]
  constructor
  · intro hsent
    have hcrlf : hasCrLf userAgent = false := by
      by_contra hbad
      rw [Bool.not_eq_false] at hbad
      have hfail := hsent true .errInvalidArgument
      rw [if_pos hbad] at hfail
      exact absurd (hfail rfl).1 (by decide)
    refine ⟨hcrlf, ?_⟩
    by_contra hlong
    have hfail := hsent true .errOverflow
    rw [hcrlf, if_neg Bool.false_ne_true, if_pos (Nat.not_lt.1 hlong)] at hfail
    exact absurd (hfail rfl).1 (by decide)
  · rintro ⟨hcrlf, hfits⟩ mallocOk st hfail
    rw [hcrlf, if_neg (by simp), if_neg (Nat.not_le.2 hfits)] at hfail
    cases mallocOk with
    | true => simp at hfail
    | false => exact ⟨rfl, by simpa using hfail.symm⟩

/-- **An accepted configuration can be sent** exactly when its user agent has neither CR nor LF and the head
block of the request fits its buffer. -/
theorem sendable_iff {opts : OtlpExporterOpts} {env : CreateEnv}
    {e : OtlpExporter ι (normalizeOpts opts).queueCapacity}
    (hcreate : otlpExporterCreate ι opts env = some e) (s : Signal) {body : Bytes}
    (hbody : body.length < 2 ^ 63) :
    SentUnlessNomem (e.sig s).url e.userAgent e.httpHeaders body ↔
      hasCrLf e.userAgent = false ∧
        headLength (e.sig s).url e.userAgent e.httpHeaders body.length < headMax :=
  sentUnlessNomem_iff (created_of_create hcreate).headers_sendable hbody

theorem sendable_iff_plain : ∃ e, otlpExporterCreate ℕ (plainOpts 1 1) .fine = some e ∧
    SentUnlessNomem (e.sig .log).url e.userAgent e.httpHeaders [1, 2, 3] := by
  have hcreate : (otlpExporterCreate ℕ (plainOpts 1 1) .fine).isSome = true := by decide +kernel
  obtain ⟨e, hcreate⟩ := Option.isSome_iff_exists.1 hcreate
  have hfits : ∀ e ∈ otlpExporterCreate ℕ (plainOpts 1 1) .fine, hasCrLf e.userAgent = false ∧
      headLength (e.sig .log).url e.userAgent e.httpHeaders 3 < headMax := by decide +kernel
  exact ⟨e, hcreate, (sendable_iff hcreate .log (by decide)).2 (hfits e hcreate)⟩

/-- An exporter is created with a user agent that ends in CR and LF, and no request can be built for it. -/
theorem userAgent_not_sendable :
    ∃ e, otlpExporterCreate ℕ { plainOpts 1 1 with userAgent := some (ascii "agent" ++ crlf) } .fine = some e ∧
      buildRequest (e.sig .span).url (some e.userAgent) e.httpHeaders [] true =
        .error .errInvalidArgument := by
  have hfails : (otlpExporterCreate ℕ
      { plainOpts 1 1 with userAgent := some (ascii "agent" ++ crlf) } .fine).map (fun e =>
        buildRequest (e.sig .span).url (some e.userAgent) e.httpHeaders [] true) =
      some (.error .errInvalidArgument) := by decide +kernel
  exact Option.map_eq_some_iff.1 hfails

end OtlpC.Exporter
