import OtlpC.Http.Framing
import OtlpC.Http.Request

/-!
# The grammar of collector URLs

What `otlp_http_parse_url` accepts, as a grammar: `http://`, a host, a port that may be left out and a path that
may be left out. The parser accepts the strings of the grammar, returns their parts, and reads back what it
returned once that is written out again.
-/

namespace OtlpC.Http

open Numerals

/-- What may stand between the host and the path, and the port that it denotes. -/
inductive IsPort : Bytes → ℕ → Prop where
  | absent : IsPort [] 80
  | given {digits : Bytes} {n : ℕ} (hne : digits ≠ []) (hdigits : numeral decimalDigits 10 0 digits = some n)
      (hle : n ≤ 65535) : IsPort (colon :: digits) n

/-- What may stand at the end, and the path that it denotes. -/
inductive IsPath : Bytes → Bytes → Prop where
  | absent : IsPath [] [slash]
  | given {p : Bytes} (hlt : (slash :: p).length < otlpHttpPathMax) : IsPath (slash :: p) (slash :: p)

/-- The string is a URL with the given parts. -/
structure IsUrl (url : Bytes) (u : OtlpHttpUrl) : Prop where
  noCrLf : cr ∉ url ∧ lf ∉ url
  host_length : 1 ≤ u.host.length ∧ u.host.length ≤ otlpHttpHostMax - 1
  host_bytes : colon ∉ u.host ∧ slash ∉ u.host
  parts : ∃ port path, url = ascii "http://" ++ u.host ++ port ++ path ∧ IsPort port u.port ∧ IsPath path u.path

/-- `http://host:port` followed by the path. -/
def formatUrl (u : OtlpHttpUrl) : Bytes := ascii "http://" ++ u.host ++ (colon :: decimal u.port) ++ u.path

/-! ### Numbers -/

theorem le_foldl_digits (s : Bytes) (v : ℕ) : v ≤ s.foldl (fun n c => n * 10 + digitValue c) v := by
  induction s generalizing v with
  | nil => exact le_rfl
  | cons c s ih =>
    rw [List.foldl_cons]
    have := ih (v * 10 + digitValue c)
    omega

/-- Once a prefix denotes too much, so does the whole. -/
theorem parseUint16Loop_eq_some {v n : ℕ} {s : Bytes} (hv : v ≤ 65535) : parseUint16Loop v s = some n ↔
    (∀ c ∈ s, isDigit c = true) ∧ s.foldl (fun n c => n * 10 + digitValue c) v = n ∧ n ≤ 65535 := by
  induction s generalizing v with
  | nil =>
    rw [parseUint16Loop, Option.some.injEq, List.foldl_nil]
    constructor
    · rintro rfl
      exact ⟨fun c hc => absurd hc List.not_mem_nil, rfl, hv⟩
    · rintro ⟨-, h, -⟩
      exact h
  | cons c s ih =>
    rw [parseUint16Loop, List.forall_mem_cons, List.foldl_cons]
    by_cases hc : isDigit c = true
    · rw [if_neg (by simpa using hc)]
      split
      · next hlarge =>
        have hle := le_foldl_digits s (v * 10 + digitValue c)
        constructor
        · intro h
          cases h
        · rintro ⟨-, h, hn⟩
          omega
      · next hsmall =>
        rw [ih (Nat.not_lt.1 hsmall)]
        simp [hc]
    · rw [if_pos (by simpa using hc)]
      simp [hc]

/-- **`parse_uint16`** reads the decimal numbers of 16 bits, with any zeros in front. -/
theorem parseUint16_eq_some {s : Bytes} {n : ℕ} : parseUint16 s = some n ↔
    s ≠ [] ∧ (∀ c ∈ s, isDigit c = true) ∧ decimalNumber s = n ∧ n ≤ 65535 := by
  have hloop := @parseUint16Loop_eq_some 0 n s (by decide)
  rw [decimalNumber, ← hloop, parseUint16]
  cases s with
  | nil => simp [parseUint16Loop]
  | cons c s => cases parseUint16Loop 0 (c :: s) <;> simp

theorem toNat_ofNat_digit {c : Char} (hc : c.isDigit = true) :
    isDigit (UInt8.ofNat c.toNat) = true ∧ digitValue (UInt8.ofNat c.toNat) = c.toNat - 48 := by
  rw [Char.isDigit_iff_toNat] at hc
  change 48 ≤ c.toNat ∧ c.toNat ≤ 57 at hc
  have hbyte : (UInt8.ofNat c.toNat).toNat = c.toNat := by
    rw [UInt8.toNat_ofNat']
    omega
  constructor
  · simp only [isDigit, Bool.and_eq_true, decide_eq_true_eq, UInt8.le_iff_toNat_le, hbyte]
    exact hc
  · rw [digitValue, hbyte]

theorem decimalNumber_decimal (n : ℕ) :
    decimal n ≠ [] ∧ (∀ c ∈ decimal n, isDigit c = true) ∧ decimalNumber (decimal n) = n := by
  have hdigits : ∀ c ∈ Nat.toDigits 10 n, c.isDigit = true := fun c hc =>
    Nat.isDigit_of_mem_toDigits (by decide) (by decide) hc
  refine ⟨?_, ?_, ?_⟩
  · simp [decimal, Nat.toDigits_ne_nil]
  · intro c hc
    obtain ⟨d, hd, rfl⟩ := List.mem_map.1 hc
    exact (toNat_ofNat_digit (hdigits d hd)).1
  · have hvalue : ∀ (cs : List Char) (v : ℕ), (∀ c ∈ cs, c.isDigit = true) →
        (cs.map fun c => UInt8.ofNat c.toNat).foldl (fun n c => n * 10 + digitValue c) v =
          Nat.ofDigitChars 10 cs v := by
      intro cs
      induction cs with
      | nil => intro v _; simp
      | cons c cs ih =>
        intro v hcs
        rw [List.forall_mem_cons] at hcs
        rw [List.map_cons, List.foldl_cons, (toNat_ofNat_digit hcs.1).2, ih _ hcs.2, Nat.ofDigitChars_cons,
          Nat.mul_comm]
        rfl
    rw [decimalNumber, decimal, hvalue _ 0 hdigits, Nat.ofDigitChars_ten_toDigits]

/-! ### Scans -/

theorem dropWhile_ne_cases {α : Type} [BEq α] [LawfulBEq α] (x : α) (s : List α) :
    s.dropWhile (· != x) = [] ∨ ∃ t, s.dropWhile (· != x) = x :: t := by
  cases hdrop : s.dropWhile (· != x) with
  | nil => exact .inl rfl
  | cons y t =>
    have hy := List.head_dropWhile_not (· != x) (l := s) (by rw [hdrop]; exact List.cons_ne_nil _ _)
    simp only [hdrop, List.head_cons, bne_eq_false_iff_eq] at hy
    exact .inr ⟨t, by rw [hy]⟩

theorem hostEnd_cases (s : Bytes) : s.dropWhile (fun c => c != colon && c != slash) = [] ∨
    (∃ t, s.dropWhile (fun c => c != colon && c != slash) = colon :: t) ∨
    ∃ t, s.dropWhile (fun c => c != colon && c != slash) = slash :: t := by
  cases hdrop : s.dropWhile (fun c => c != colon && c != slash) with
  | nil => exact .inl rfl
  | cons y t =>
    have hy := List.head_dropWhile_not (fun c => c != colon && c != slash) (l := s)
      (by rw [hdrop]; exact List.cons_ne_nil _ _)
    simp only [hdrop, List.head_cons, Bool.and_eq_false_iff, bne_eq_false_iff_eq] at hy
    rcases hy with rfl | rfl
    · exact .inr (.inl ⟨t, rfl⟩)
    · exact .inr (.inr ⟨t, rfl⟩)

theorem host_bytes_takeWhile (s : Bytes) : colon ∉ s.takeWhile (fun c => c != colon && c != slash) ∧
    slash ∉ s.takeWhile (fun c => c != colon && c != slash) :=
  ⟨fun h => by simpa using List.mem_takeWhile_imp h, fun h => by simpa using List.mem_takeWhile_imp h⟩

theorem parsePath_eq_ok {host p : Bytes} {port : ℕ} {u : OtlpHttpUrl} (hp : p = [] ∨ ∃ t, p = slash :: t) :
    parsePath host port p = .ok u ↔ u.host = host ∧ u.port = port ∧ IsPath p u.path := by
  rcases hp with rfl | ⟨t, rfl⟩
  · rw [parsePath, if_pos List.isEmpty_nil, Except.ok.injEq]
    constructor
    · rintro rfl
      exact ⟨rfl, rfl, .absent⟩
    · rintro ⟨rfl, rfl, hpath⟩
      obtain ⟨host, port, path⟩ := u
      cases hpath
      rfl
  · rw [parsePath, if_neg (by simp)]
    constructor
    · intro h
      split at h
      · contradiction
      · next hlt =>
        cases h
        exact ⟨rfl, rfl, .given (Nat.not_le.1 hlt)⟩
    · rintro ⟨rfl, rfl, hpath⟩
      obtain ⟨host, port, path⟩ := u
      cases hpath with
      | given hlt => rw [if_neg (Nat.not_le.2 hlt)]

/-! ### The parser -/

theorem scan_host {host rest : Bytes} (hhost : colon ∉ host ∧ slash ∉ host)
    (hrest : rest = [] ∨ (∃ t, rest = colon :: t) ∨ ∃ t, rest = slash :: t) :
    (host ++ rest).takeWhile (fun c => c != colon && c != slash) = host ∧
      (host ++ rest).dropWhile (fun c => c != colon && c != slash) = rest := by
  have hall : ∀ c ∈ host, (c != colon && c != slash) = true := by
    intro c hc
    simp only [Bool.and_eq_true, bne_iff_ne]
    exact ⟨fun heq => hhost.1 (heq ▸ hc), fun heq => hhost.2 (heq ▸ hc)⟩
  rw [List.takeWhile_append_of_pos hall, List.dropWhile_append_of_pos hall]
  rcases hrest with rfl | ⟨t, rfl⟩ | ⟨t, rfl⟩ <;> simp

theorem scan_port {digits path : Bytes} (hdigits : ∀ c ∈ digits, isDigit c = true)
    (hpath : path = [] ∨ ∃ t, path = slash :: t) :
    (digits ++ path).takeWhile (· != slash) = digits ∧ (digits ++ path).dropWhile (· != slash) = path := by
  have hall : ∀ c ∈ digits, (c != slash) = true := by
    intro c hc
    rw [bne_iff_ne]
    rintro rfl
    exact absurd (hdigits slash hc) (by decide)
  rw [List.takeWhile_append_of_pos hall, List.dropWhile_append_of_pos hall]
  rcases hpath with rfl | ⟨t, rfl⟩ <;> simp

theorem IsPath.cases_slash {p path : Bytes} (h : IsPath p path) : p = [] ∨ ∃ t, p = slash :: t := by
  cases h with
  | absent => exact .inl rfl
  | given hlt => exact .inr ⟨_, rfl⟩

theorem IsUrl.of_parse {url : Bytes} {u : OtlpHttpUrl} (h : otlpHttpParseUrl url = .ok u) : IsUrl url u := by
  have hhost := otlpHttpParseUrl_eq_ok h
  unfold otlpHttpParseUrl at h
  split at h
  · contradiction
  next hcrlf =>
  split at h
  · contradiction
  next hscheme =>
  rw [not_not] at hscheme
  simp only at h
  split at h
  · contradiction
  split at h
  · contradiction
  have hurl : url = ascii "http://" ++ ((url.drop 7).takeWhile (fun c => c != colon && c != slash) ++
      (url.drop 7).dropWhile (fun c => c != colon && c != slash)) := by
    rw [List.takeWhile_append_dropWhile, ← hscheme, List.take_append_drop]
  have hbytes := host_bytes_takeWhile (url.drop 7)
  have hend := hostEnd_cases (url.drop 7)
  generalize (url.drop 7).takeWhile (fun c => c != colon && c != slash) = host at h hurl hbytes
  generalize (url.drop 7).dropWhile (fun c => c != colon && c != slash) = hostEnd at h hurl hend
  have hlength : 1 ≤ u.host.length ∧ u.host.length ≤ otlpHttpHostMax - 1 :=
    ⟨List.length_pos_iff.2 hhost.1, Nat.le_sub_one_of_lt hhost.2⟩
  have hnone := hasCrLf_eq_false.1 (Bool.not_eq_true _ ▸ hcrlf)
  split at h
  · next hcolon =>
    obtain ⟨t, rfl⟩ : ∃ t, hostEnd = colon :: t := by
      rcases hend with rfl | ⟨t, rfl⟩ | ⟨t, rfl⟩
      · cases hcolon
      · exact ⟨t, rfl⟩
      · exact absurd hcolon (by simp [slash, colon])
    rw [List.drop_one, List.tail_cons] at h
    split at h
    · contradiction
    next port hport =>
    obtain ⟨hne, hdigits, hvalue, hle⟩ := parseUint16_eq_some.1 hport
    obtain ⟨rfl, rfl, hpath⟩ := (parsePath_eq_ok (dropWhile_ne_cases slash t)).1 h
    have hport : IsPort (colon :: t.takeWhile (· != slash)) u.port :=
      .given hne (numeral_eq_some_iff.2 ⟨hdigits, hvalue⟩) hle
    refine ⟨hnone, hlength, hbytes, _, _, ?_, hport, hpath⟩
    rw [List.append_assoc _ _ (t.dropWhile (· != slash)), List.cons_append, List.takeWhile_append_dropWhile,
      List.append_assoc]
    exact hurl
  · next hcolon =>
    have hend : hostEnd = [] ∨ ∃ t, hostEnd = slash :: t := by
      rcases hend with rfl | ⟨t, rfl⟩ | ⟨t, rfl⟩
      · exact .inl rfl
      · exact absurd rfl hcolon
      · exact .inr ⟨t, rfl⟩
    obtain ⟨rfl, hport, hpath⟩ := (parsePath_eq_ok hend).1 h
    refine ⟨hnone, hlength, hbytes, [], hostEnd, ?_, hport ▸ .absent, hpath⟩
    rw [List.append_nil, List.append_assoc]
    exact hurl

theorem IsUrl.parse {url : Bytes} {u : OtlpHttpUrl} (h : IsUrl url u) : otlpHttpParseUrl url = .ok u := by
  obtain ⟨host, portNumber, pathText⟩ := u
  obtain ⟨hcrlf, ⟨hpos, hlt⟩, hbytes, port, path, rfl, hport, hpath⟩ := h
  dsimp only at *
  have hslash := hpath.cases_slash
  have hrest : port ++ path = [] ∨ (∃ t, port ++ path = colon :: t) ∨ ∃ t, port ++ path = slash :: t := by
    cases hport with
    | absent => exact hslash.imp id .inr
    | given => exact .inr (.inl ⟨_, rfl⟩)
  obtain ⟨htake, hdrop⟩ := scan_host hbytes hrest
  have hstart : ¬((host ++ (port ++ path)).isEmpty || (host ++ (port ++ path)).head? == some slash) = true := by
    obtain ⟨c, rest, rfl⟩ := List.exists_cons_of_length_pos hpos
    have hc : c ≠ slash := fun heq => hbytes.2 (heq ▸ List.mem_cons_self)
    simpa using hc
  have hlength : ¬(host.length = 0 || otlpHttpHostMax ≤ host.length) = true := by
    have hmax : 0 < otlpHttpHostMax := by decide
    simp only [Bool.or_eq_true, decide_eq_true_eq]
    omega
  have hcr : ¬hasCrLf (ascii "http://" ++ host ++ port ++ path) = true := by
    rw [Bool.not_eq_true]
    exact hasCrLf_eq_false.2 hcrlf
  unfold otlpHttpParseUrl
  rw [if_neg hcr]
  rw [List.append_assoc, List.append_assoc, List.take_left' (by rfl), if_neg (not_not.2 rfl), List.drop_left' (by rfl)]
  simp only [htake, hdrop]
  rw [if_neg hstart, if_neg hlength]
  cases hport with
  | absent =>
    rw [List.nil_append, if_neg, parsePath_eq_ok hslash]
    · exact ⟨rfl, rfl, hpath⟩
    · rcases hslash with rfl | ⟨t, rfl⟩ <;> simp [slash, colon]
  | given hne hnumeral hle =>
    obtain ⟨hdigits, hvalue⟩ := numeral_eq_some_iff.1 hnumeral
    obtain ⟨htakePort, hdropPort⟩ := scan_port hdigits hslash
    rw [List.cons_append, if_pos (by simp), List.drop_one, List.tail_cons, htakePort, hdropPort,
      parseUint16_eq_some.2 ⟨hne, hdigits, hvalue, hle⟩]
    exact (parsePath_eq_ok hslash).2 ⟨rfl, rfl, hpath⟩

theorem IsPort.decimal {port : Bytes} {n : ℕ} (h : IsPort port n) : IsPort (colon :: decimal n) n := by
  have hle : n ≤ 65535 := by
    cases h with
    | absent => decide
    | given _ _ hle => exact hle
  obtain ⟨hne, hdigits, hvalue⟩ := decimalNumber_decimal n
  exact .given hne (numeral_eq_some_iff.2 ⟨hdigits, hvalue⟩) hle

theorem IsPath.self {p path : Bytes} (h : IsPath p path) : IsPath path path := by
  cases h with
  | absent => exact .given (by decide)
  | given hlt => exact .given hlt

theorem notMem_decimal {c : UInt8} (hc : isDigit c = false) (n : ℕ) : c ∉ decimal n := by
  intro hmem
  rw [(decimalNumber_decimal n).2.1 c hmem] at hc
  cases hc

theorem IsUrl.format {url : Bytes} {u : OtlpHttpUrl} (h : IsUrl url u) : IsUrl (formatUrl u) u := by
  obtain ⟨hhost, hpathText⟩ := otlpHttpParseUrl_noCrLf h.parse
  rw [hasCrLf_eq_false] at hhost hpathText
  obtain ⟨-, hlength, hbytes, port, path, -, hport, hpath⟩ := h
  refine ⟨?_, hlength, hbytes, _, _, rfl, hport.decimal, hpath.self⟩
  have hport : ∀ c, isDigit c = false → c ≠ colon → c ∉ colon :: decimal u.port := fun c hc hne hmem =>
    (List.mem_cons.1 hmem).elim hne (notMem_decimal hc u.port)
  simp only [formatUrl, List.mem_append, not_or]
  exact ⟨⟨⟨⟨by decide, hhost.1⟩, hport cr (by decide) (by decide)⟩, hpathText.1⟩,
    ⟨⟨by decide, hhost.2⟩, hport lf (by decide) (by decide)⟩, hpathText.2⟩

/-- **The parser accepts the grammar and nothing else**, returns the parts of the URL, and returns them again
when it reads them written out. -/
theorem otlpHttpParseUrl_grammar (url : Bytes) (u : OtlpHttpUrl) :
    (otlpHttpParseUrl url = .ok u ↔ IsUrl url u) ∧
    (otlpHttpParseUrl url = .ok u → otlpHttpParseUrl (formatUrl u) = .ok u) :=
  ⟨⟨IsUrl.of_parse, IsUrl.parse⟩, fun h => (IsUrl.of_parse h).format.parse⟩

theorem otlpHttpParseUrl_grammar_leading_zeros :
    otlpHttpParseUrl (ascii "http://collector:04318") =
      .ok { host := ascii "collector", port := 4318, path := ascii "/" } ∧
    otlpHttpParseUrl (formatUrl { host := ascii "collector", port := 4318, path := ascii "/" }) =
      .ok { host := ascii "collector", port := 4318, path := ascii "/" } := by
  have hparse : otlpHttpParseUrl (ascii "http://collector:04318") =
      .ok { host := ascii "collector", port := 4318, path := ascii "/" } := by rfl
  exact ⟨hparse, (otlpHttpParseUrl_grammar _ _).2 hparse⟩

end OtlpC.Http
