import OtlpC.Env.Config

/-!
# The base endpoint from the environment

`otlp_env_apply_endpoint` writes the endpoint of each signal into the storage and publishes it before it looks
at the next. A base that is no URL is written over the endpoint of the traces before that is found out, and a
base of 245 bytes has room for the path of the traces but not for that of the metrics.
-/

namespace OtlpC.Env

open Context (CString CharBuf)
open Http (slash otlpHttpParseUrl IsUrl IsPort IsPath)
open Occurrence (FirstAt)

/-! ### What is asked for -/

/-- The endpoint of a signal that the options denote. -/
def denote (opts : OtlpExporterOpts) (st : OtlpEnvStorage) (signal : Signal) : Option CString :=
  match opts.endpointOf signal with
  | .elsewhere s => s
  | .storage source => some (st.endpointOf source).text

/-- The value's scheme, host and port: all of it up to the first slash behind the first `://`. -/
def IsBase (value base : Bytes) : Prop :=
  ∃ i rest, FirstAt schemeEnd value i ∧ value = base ++ rest ∧ i + 3 ≤ base.length ∧
    slash ∉ base.drop (i + 3) ∧ (rest = [] ∨ ∃ t, rest = slash :: t)

/-- The endpoints are set together, or the options denote what they denoted. -/
def Atomic (opts : OtlpExporterOpts) (st : OtlpEnvStorage) (value : CString) : Prop :=
  ∃ status opts' st', otlpEnvApplyEndpoint (some opts) (some value) (some st) =
      (status, some opts', some st') ∧
    ((status = .ok ∧ ∃ base, IsBase value.bytes base ∧
        ∀ signal, (denote opts' st' signal).map CString.bytes = some (base ++ signal.path)) ∨
      (status ≠ .ok ∧ ∀ signal, denote opts' st' signal = denote opts st signal))

/-! ### The base -/

variable {value : CString} {base : Bytes}

theorem isBase_of_baseOf (h : baseOf value.bytes = some base) : IsBase value.bytes base := by
  obtain ⟨i, hfind, hbase⟩ := Option.map_eq_some_iff.1 h
  have hfirst := Http.findSubstring_eq_some.1 hfind
  have hle : i + 3 ≤ value.bytes.length := hfirst.occurs.le (by decide)
  have hlen : (value.bytes.take (i + 3)).length = i + 3 := by
    rw [List.length_take, min_eq_left hle]
  refine ⟨i, (value.bytes.drop (i + 3)).dropWhile (· != slash), hfirst, ?_, ?_, ?_,
    Http.dropWhile_ne_cases slash _⟩
  · rw [← hbase, List.append_assoc, List.takeWhile_append_dropWhile, List.take_append_drop]
  · rw [← hbase, List.length_append, hlen]
    exact Nat.le_add_right _ _
  · rw [← hbase, List.drop_left' hlen]
    exact fun hmem => by simpa using List.mem_takeWhile_imp hmem

theorem IsBase.no_nul (h : IsBase value.bytes base) : 0 ∉ base := by
  obtain ⟨i, rest, -, hvalue, -⟩ := h
  intro hmem
  refine value.no_nul ?_
  rw [hvalue]
  exact List.mem_append_left _ hmem

theorem path_eq (signal : Signal) : ∃ t, signal.path = slash :: t ∧ (slash :: t).length < Http.otlpHttpPathMax ∧
    (Http.cr ∉ signal.path ∧ Http.lf ∉ signal.path) ∧ 0 ∉ signal.path := by
  cases signal with
  | traces => exact ⟨ascii "v1/traces", by decide⟩
  | metrics => exact ⟨ascii "v1/metrics", by decide⟩
  | logs => exact ⟨ascii "v1/logs", by decide⟩

theorem firstAt_unique {needle hay : Bytes} {i j : ℕ} (hi : FirstAt needle hay i) (hj : FirstAt needle hay j) :
    i = j := by
  rcases Nat.lt_trichotomy i j with hlt | heq | hgt
  · exact absurd hi.occurs (hj.first i hlt)
  · exact heq
  · exact absurd hj.occurs (hi.first j hgt)

theorem append_slash_inj {a b s t : Bytes} (ha : slash ∉ a) (hb : slash ∉ b)
    (h : a ++ slash :: s = b ++ slash :: t) : a = b := by
  have htake {l r : Bytes} (hl : slash ∉ l) : (l ++ slash :: r).takeWhile (· != slash) = l := by
    have hall : ∀ c ∈ l, (c != slash) = true := by
      intro c hc
      rw [bne_iff_ne]
      rintro rfl
      exact hl hc
    rw [List.takeWhile_append_of_pos hall]
    simp
  rw [← htake ha, h, htake hb]

theorem isPort_no_slash {port : Bytes} {n : ℕ} (h : IsPort port n) : slash ∉ port := by
  cases h with
  | absent => exact List.not_mem_nil
  | given hne hdigits hle =>
    intro hmem
    rcases List.mem_cons.1 hmem with heq | hmem
    · exact absurd heq (by decide)
    · exact absurd ((Http.numeral_eq_some_iff.1 hdigits).1 slash hmem) (by decide)

/-- **A base that makes a URL with one path makes one with every path.** -/
theorem IsBase.parse_other (h : IsBase value.bytes base) {a b : Signal} {u : Http.OtlpHttpUrl}
    (hparse : otlpHttpParseUrl (base ++ a.path) = .ok u) : ∃ u', otlpHttpParseUrl (base ++ b.path) = .ok u' := by
  obtain ⟨i, rest, hfirst, hvalue, hle, hslash, -⟩ := h
  obtain ⟨s, ha, -, -, -⟩ := path_eq a
  obtain ⟨t, hb, hlt, hclean, -⟩ := path_eq b
  obtain ⟨hcrlf, hlength, hbytes, port, path, hurl, hport, hpath⟩ := IsUrl.of_parse hparse
  -- the scheme of the URL is that of the value
  have hscheme : FirstAt schemeEnd (base ++ a.path) 4 := by
    have hhttp : FirstAt schemeEnd (ascii "http://") 4 := ⟨by decide, by decide⟩
    rw [hurl, List.append_assoc, List.append_assoc]
    exact hhttp.append (by decide) _
  rw [hvalue] at hfirst
  have hi : i = 4 := firstAt_unique ((hfirst.of_append hle).append (by decide) a.path) hscheme
  subst hi
  have hseven : 7 ≤ base.length := hle
  have htake : base.take 7 = ascii "http://" := by
    have h7 : (base ++ a.path).take 7 = ascii "http://" := by
      rw [hurl, List.append_assoc, List.append_assoc]
      exact List.take_left' rfl
    rwa [List.take_append_of_le_length hseven] at h7
  have hbase : base = ascii "http://" ++ base.drop 7 := by rw [← htake, List.take_append_drop]
  have hhost : slash ∉ u.host ++ port := by
    rw [List.mem_append, not_or]
    exact ⟨hbytes.2, isPort_no_slash hport⟩
  -- what is left of both are the same bytes before the same slash
  have hrest : base.drop 7 ++ slash :: s = (u.host ++ port) ++ path := by
    have hall : ascii "http://" ++ (base.drop 7 ++ slash :: s) = ascii "http://" ++ ((u.host ++ port) ++ path) := by
      rw [← List.append_assoc, ← hbase, ← ha, hurl]
      simp only [List.append_assoc]
    exact List.append_cancel_left hall
  have hparts : base.drop 7 = u.host ++ port := by
    rcases hpath.cases_slash with hnil | ⟨p, hcons⟩
    · rw [hnil, List.append_nil] at hrest
      exact absurd (hrest ▸ List.mem_append_right _ List.mem_cons_self) hhost
    · rw [hcons] at hrest
      exact append_slash_inj hslash hhost hrest
  have hnocr : Http.cr ∉ base ∧ Http.lf ∉ base :=
    ⟨fun hmem => hcrlf.1 (List.mem_append_left _ hmem), fun hmem => hcrlf.2 (List.mem_append_left _ hmem)⟩
  refine ⟨{ u with path := b.path }, IsUrl.parse ⟨⟨?_, ?_⟩, hlength, hbytes, port, b.path, ?_, hport, ?_⟩⟩
  · rw [List.mem_append, not_or]
    exact ⟨hnocr.1, hclean.1⟩
  · rw [List.mem_append, not_or]
    exact ⟨hnocr.2, hclean.2⟩
  · rw [hbase, hparts]
    simp only [List.append_assoc]
  · rw [hb]
    exact .given hlt

/-! ### The loop -/

variable {opts : OtlpExporterOpts} {st : OtlpEnvStorage}

/-- The endpoint of a signal at this base. -/
def endpointText (base : Bytes) (signal : Signal) (h : base.length + signal.path.length < endpointMax) :
    CharBuf endpointMax :=
  copyString (base ++ signal.path) (by rwa [List.length_append])

theorem endpointText_bytes (hnul : 0 ∉ base) {signal : Signal}
    (h : base.length + signal.path.length < endpointMax) :
    (endpointText base signal h).text.bytes = base ++ signal.path := by
  obtain ⟨-, -, -, -, hpath⟩ := path_eq signal
  have hall : 0 ∉ base ++ signal.path := by
    rw [List.mem_append, not_or]
    exact ⟨hnul, hpath⟩
  refine List.takeWhile_eq_self_iff.2 fun c hc => ?_
  rw [bne_iff_ne]
  rintro rfl
  exact hall hc

theorem applySignals_overflow {signal : Signal} {signals : List Signal}
    (h : ¬base.length + signal.path.length < endpointMax) :
    applySignals base (signal :: signals) opts st = (.errOverflow, opts, st) := by
  rw [applySignals, dif_pos (by omega)]

/-- A round whose endpoint is no URL has written it. -/
theorem applySignals_invalid {signal : Signal} {signals : List Signal} (hnul : 0 ∉ base)
    (h : base.length + signal.path.length < endpointMax) {e : OtlpStatus}
    (hparse : otlpHttpParseUrl (base ++ signal.path) = .error e) :
    applySignals base (signal :: signals) opts st =
      (.errInvalidArgument, opts, st.setEndpoint (endpointText base signal h) signal) := by
  have hbytes := endpointText_bytes hnul h
  rw [← hbytes] at hparse
  rw [applySignals, dif_neg (by omega)]
  dsimp only
  rw [show copyString (base ++ signal.path) _ = endpointText base signal h from rfl, hparse]

theorem applySignals_ok {signal : Signal} {signals : List Signal} (hnul : 0 ∉ base)
    (h : base.length + signal.path.length < endpointMax) {u : Http.OtlpHttpUrl}
    (hparse : otlpHttpParseUrl (base ++ signal.path) = .ok u) :
    applySignals base (signal :: signals) opts st =
      applySignals base signals (opts.publish signal) (st.setEndpoint (endpointText base signal h) signal) := by
  have hbytes := endpointText_bytes hnul h
  rw [← hbytes] at hparse
  rw [applySignals, dif_neg (by omega)]
  dsimp only
  rw [show copyString (base ++ signal.path) _ = endpointText base signal h from rfl, hparse]

theorem path_length : Signal.traces.path.length = 10 ∧ Signal.metrics.path.length = 11 ∧
    Signal.logs.path.length = 8 := by decide

/-- A base with room for all three paths that makes a URL is published for every signal. -/
theorem applySignals_all (hbase : IsBase value.bytes base) (hlen : base.length ≤ 244) {u : Http.OtlpHttpUrl}
    (hparse : otlpHttpParseUrl (base ++ Signal.traces.path) = .ok u) :
    ∃ opts' st', applySignals base [.traces, .metrics, .logs] opts st = (.ok, opts', st') ∧
      ∀ signal, (denote opts' st' signal).map CString.bytes = some (base ++ signal.path) := by
  have hnul := hbase.no_nul
  obtain ⟨htraces, hmetrics, hlogs⟩ := path_length
  have hmax : endpointMax = 256 := rfl
  obtain ⟨u₂, hmetricsUrl⟩ := hbase.parse_other (b := .metrics) hparse
  obtain ⟨u₃, hlogsUrl⟩ := hbase.parse_other (b := .logs) hparse
  have h₁ : base.length + Signal.traces.path.length < endpointMax := by omega
  have h₂ : base.length + Signal.metrics.path.length < endpointMax := by omega
  have h₃ : base.length + Signal.logs.path.length < endpointMax := by omega
  refine ⟨_, _, by
    rw [applySignals_ok hnul h₁ hparse, applySignals_ok hnul h₂ hmetricsUrl, applySignals_ok hnul h₃ hlogsUrl]
    rfl, fun signal => ?_⟩
  cases signal with
  | traces => exact congrArg some (endpointText_bytes hnul h₁)
  | metrics => exact congrArg some (endpointText_bytes hnul h₂)
  | logs => exact congrArg some (endpointText_bytes hnul h₃)

/-- What the loop does with a base: it is too long, no URL, too long for the metrics, or applied. -/
theorem applySignals_cases (hbase : IsBase value.bytes base) (opts : OtlpExporterOpts) (st : OtlpEnvStorage) :
    (245 < base.length ∧ applySignals base [.traces, .metrics, .logs] opts st = (.errOverflow, opts, st)) ∨
    (base.length ≤ 245 ∧ ∃ dst : CharBuf endpointMax, dst.text.bytes = base ++ Signal.traces.path ∧
      (((∀ u, otlpHttpParseUrl (base ++ Signal.traces.path) ≠ .ok u) ∧
          applySignals base [.traces, .metrics, .logs] opts st =
            (.errInvalidArgument, opts, st.setEndpoint dst .traces)) ∨
        ((∃ u, otlpHttpParseUrl (base ++ Signal.traces.path) = .ok u) ∧ base.length = 245 ∧
          applySignals base [.traces, .metrics, .logs] opts st =
            (.errOverflow, opts.publish .traces, st.setEndpoint dst .traces)) ∨
        ((∃ u, otlpHttpParseUrl (base ++ Signal.traces.path) = .ok u) ∧ base.length ≤ 244 ∧
          ∃ opts' st', applySignals base [.traces, .metrics, .logs] opts st = (.ok, opts', st') ∧
            ∀ signal, (denote opts' st' signal).map CString.bytes = some (base ++ signal.path)))) := by
  have hnul := hbase.no_nul
  obtain ⟨htraces, hmetrics, -⟩ := path_length
  have hmax : endpointMax = 256 := rfl
  by_cases hlen : base.length ≤ 245
  · have hroom : base.length + Signal.traces.path.length < endpointMax := by omega
    refine .inr ⟨hlen, endpointText base .traces hroom, endpointText_bytes hnul hroom, ?_⟩
    cases hparse : otlpHttpParseUrl (base ++ Signal.traces.path) with
    | error e => exact .inl ⟨fun u h => (by cases h), applySignals_invalid hnul hroom hparse⟩
    | ok u =>
      by_cases hedge : base.length = 245
      · refine .inr (.inl ⟨⟨u, rfl⟩, hedge, ?_⟩)
        rw [applySignals_ok hnul hroom hparse, applySignals_overflow (by omega)]
      · exact .inr (.inr ⟨⟨u, rfl⟩, by omega, applySignals_all hbase (by omega) hparse⟩)
  · exact .inl ⟨Nat.not_le.1 hlen, applySignals_overflow (by omega)⟩

/-! ### Atomicity -/

/-- Writing the endpoint of the traces at this base changes no string that the options denote. -/
def NotSeen (opts : OtlpExporterOpts) (st : OtlpEnvStorage) (base : Bytes) : Prop :=
  ∀ signal, opts.endpointOf signal = .storage .traces → st.endpoint.text.bytes = base ++ Signal.traces.path

/-- The base has room and makes a URL, or is refused before anything is written, or what is written makes no
difference to the options. -/
def Settled (opts : OtlpExporterOpts) (st : OtlpEnvStorage) (base : Bytes) : Prop :=
  245 < base.length ∨
    if (otlpHttpParseUrl (base ++ Signal.traces.path)).isOk then
      base.length ≤ 244 ∨ (NotSeen opts st base ∧
        (denote opts st .traces).map CString.bytes = some (base ++ Signal.traces.path))
    else NotSeen opts st base

theorem cstring_ext {a b : CString} (h : a.bytes = b.bytes) : a = b := by
  obtain ⟨_, _⟩ := a
  obtain ⟨_, _⟩ := b
  cases h
  rfl

theorem denote_set_iff {dst : CharBuf endpointMax} (hdst : dst.text.bytes = base ++ Signal.traces.path) :
    (∀ signal, denote opts (st.setEndpoint dst .traces) signal = denote opts st signal) ↔ NotSeen opts st base := by
  constructor
  · intro h signal hptr
    have hsignal := h signal
    unfold denote at hsignal
    rw [hptr] at hsignal
    rw [← hdst]
    exact congrArg CString.bytes (Option.some.inj hsignal).symm
  · intro h signal
    have hsignal := h signal
    unfold denote
    cases hptr : opts.endpointOf signal with
    | elsewhere s => rfl
    | storage source =>
      cases source with
      | traces => exact congrArg some (cstring_ext (hdst.trans (hsignal hptr).symm))
      | metrics => rfl
      | logs => rfl

theorem denote_publish_iff {dst : CharBuf endpointMax} (hdst : dst.text.bytes = base ++ Signal.traces.path) :
    (∀ signal, denote (opts.publish .traces) (st.setEndpoint dst .traces) signal = denote opts st signal) ↔
      NotSeen opts st base ∧ (denote opts st .traces).map CString.bytes = some (base ++ Signal.traces.path) := by
  have htraces : denote (opts.publish .traces) (st.setEndpoint dst .traces) .traces = some dst.text := rfl
  have hmetrics : denote (opts.publish .traces) (st.setEndpoint dst .traces) .metrics =
      denote opts (st.setEndpoint dst .traces) .metrics := rfl
  have hlogs : denote (opts.publish .traces) (st.setEndpoint dst .traces) .logs =
      denote opts (st.setEndpoint dst .traces) .logs := rfl
  constructor
  · intro h
    have hdenoted : denote opts st .traces = some dst.text := (h .traces).symm.trans htraces
    refine ⟨denote_set_iff hdst |>.1 fun signal => ?_, ?_⟩
    · cases signal with
      | traces =>
        rw [hdenoted]
        unfold denote at hdenoted ⊢
        cases hptr : opts.endpointOf .traces with
        | elsewhere s =>
          rw [hptr] at hdenoted
          exact hdenoted
        | storage source =>
          rw [hptr] at hdenoted
          cases source with
          | traces => rfl
          | metrics => exact hdenoted
          | logs => exact hdenoted
      | metrics => exact hmetrics.symm.trans (h .metrics)
      | logs => exact hlogs.symm.trans (h .logs)
    · rw [hdenoted, Option.map_some, hdst]
  · rintro ⟨hseen, hsame⟩ signal
    have hset := (denote_set_iff hdst).2 hseen
    cases signal with
    | traces =>
      obtain ⟨s, hs, hbytes⟩ := Option.map_eq_some_iff.1 hsame
      rw [htraces, hs, cstring_ext (hbytes.trans hdst.symm)]
    | metrics => exact hmetrics.trans (hset .metrics)
    | logs => exact hlogs.trans (hset .logs)

theorem exists_outcome {status : OtlpStatus} {P : OtlpStatus → OtlpExporterOpts → OtlpEnvStorage → Prop} :
    (∃ s o t, (status, some opts, some st) = (s, some o, some t) ∧ P s o t) ↔ P status opts st := by
  constructor
  · rintro ⟨s, o, t, heq, h⟩
    simp only [Prod.mk.injEq, Option.some.injEq] at heq
    obtain ⟨rfl, rfl, rfl⟩ := heq
    exact h
  · exact fun h => ⟨status, opts, st, rfl, h⟩

/-- **The endpoint is applied atomically exactly when the base is settled.** -/
theorem endpoint_atomic_iff (opts : OtlpExporterOpts) (st : OtlpEnvStorage) (value : CString)
    (hne : value.bytes ≠ []) :
    Atomic opts st value ↔ ∀ base, baseOf value.bytes = some base → Settled opts st base := by
  have hzero : ¬(value.byteAt 0 == 0) = true := by simpa using Context.byteAt_zero_ne.2 hne
  unfold Atomic otlpEnvApplyEndpoint
  dsimp only
  rw [if_neg hzero]
  cases hbase : baseOf value.bytes with
  | none =>
    dsimp only
    rw [exists_outcome]
    exact ⟨fun _ base h => (by cases h), fun _ => .inr ⟨by decide, fun _ => rfl⟩⟩
  | some base =>
    have his := isBase_of_baseOf hbase
    have hforall : (∀ b, some base = some b → Settled opts st b) ↔ Settled opts st base :=
      ⟨fun h => h base rfl, fun h b hb => Option.some.inj hb ▸ h⟩
    rw [hforall]
    dsimp only
    rcases applySignals_cases his opts st with ⟨hlong, hrun⟩ | ⟨hshort, dst, hdst, ⟨hbad, hrun⟩ |
      ⟨⟨u, hgood⟩, hedge, hrun⟩ | ⟨⟨u, hgood⟩, hroom, opts', st', hrun, hall⟩⟩
    · rw [hrun, exists_outcome]
      dsimp only
      exact ⟨fun _ => .inl hlong, fun _ => .inr ⟨by decide, fun _ => rfl⟩⟩
    · have hnot : ¬(otlpHttpParseUrl (base ++ Signal.traces.path)).isOk = true := by
        cases hparse : otlpHttpParseUrl (base ++ Signal.traces.path) with
        | error e => exact Bool.false_ne_true
        | ok u => exact absurd hparse (hbad u)
      rw [hrun, exists_outcome]
      dsimp only
      rw [denote_set_iff hdst, Settled, if_neg hnot]
      constructor
      · rintro (⟨hok, -⟩ | ⟨-, hseen⟩)
        · exact absurd hok (by decide)
        · exact .inr hseen
      · rintro (hlong | hseen)
        · omega
        · exact .inr ⟨by decide, hseen⟩
    · have hurl : (otlpHttpParseUrl (base ++ Signal.traces.path)).isOk = true := by
        rw [hgood]
        rfl
      rw [hrun, exists_outcome]
      dsimp only
      rw [denote_publish_iff hdst, Settled, if_pos hurl]
      constructor
      · rintro (⟨hok, -⟩ | ⟨-, hseen⟩)
        · exact absurd hok (by decide)
        · exact .inr (.inr hseen)
      · rintro (hlong | hroom | hseen)
        · omega
        · omega
        · exact .inr ⟨by decide, hseen⟩
    · have hurl : (otlpHttpParseUrl (base ++ Signal.traces.path)).isOk = true := by
        rw [hgood]
        rfl
      rw [hrun, exists_outcome, Settled, if_pos hurl]
      exact ⟨fun _ => .inr (.inl hroom), fun _ => .inl ⟨rfl, base, his, hall⟩⟩

/-- A host of 238 letters, so that the base has 245 bytes. -/
def longHost : CString where
  bytes := ascii "http://" ++ List.replicate 238 0x61
  no_nul := by decide +kernel

/-- A collector on this machine. -/
def localhost : CString where
  bytes := ascii "http://localhost:4318"
  no_nul := by decide +kernel

theorem endpoint_atomic_iff_localhost : Atomic .zero .zero localhost ↔
    ∀ base, baseOf localhost.bytes = some base → Settled .zero .zero base :=
  endpoint_atomic_iff .zero .zero localhost (by decide +kernel)

/-- The endpoint of the traces is set, and an error is returned. -/
theorem long_host_published : ¬∀ opts st (value : CString), value.bytes ≠ [] → Atomic opts st value := by
  intro h
  obtain ⟨status, opts', st', hrun, hok | ⟨-, hsame⟩⟩ := h .zero .zero longHost (by decide +kernel)
  · have hstatus : (otlpEnvApplyEndpoint (some .zero) (some longHost) (some .zero)).1 = .errOverflow := by
      decide +kernel
    rw [hrun, hok.1] at hstatus
    cases hstatus
  · have hset : (otlpEnvApplyEndpoint (some .zero) (some longHost) (some .zero)).2.1.map (·.endpoint) =
        some (.storage .traces) := by decide +kernel
    rw [hrun, Option.map_some, Option.some.injEq] at hset
    have htraces := hsame .traces
    unfold denote at htraces
    rw [show opts'.endpointOf .traces = .storage .traces from hset] at htraces
    cases htraces

end OtlpC.Env
