import OtlpC.Http.HeaderBlock
import OtlpC.Lib.SkipScan

/-!
# Where header lines start

The header scan ends a line at any CR and goes on two bytes behind it, and the status line ends at the first LF.
So a position behind a CRLF is taken for the start of a line unless it stands behind an even number of CR in a
row, and a position behind a CR alone may be taken for one. The scan looks for its four fields at the lines of
the block exactly when no field name stands at such a position (`fieldStart_iff`).
-/

namespace OtlpC.Http

open Occurrence SkipScan

inductive ScanField where
  | contentLength
  | transferEncoding
  | retryAfter
  | connection
deriving Repr, DecidableEq

def ScanField.name : ScanField → Bytes
  | .contentLength => ascii "Content-Length:"
  | .transferEncoding => ascii "Transfer-Encoding:"
  | .retryAfter => ascii "Retry-After:"
  | .connection => ascii "Connection:"

/-- What the scan makes of a field, by the text behind its name. -/
def ScanField.act (s : HeaderScan) (text : Bytes) : ScanField → Option HeaderScan
  | .contentLength =>
    match contentLengthLoop 0 (skipSpaces text) with
    | none => none
    | some val =>
      if s.contentLength.isSome && s.contentLength != some val then none
      else some { s with contentLength := some val }
  | .transferEncoding =>
    some { s with
      teSeen := true
      teChunked := s.teChunked ||
        ((skipSpaces text).length == 7 && startsWithCi (skipSpaces text) (ascii "chunked")) }
  | .retryAfter =>
    some { s with retryAfterMs := min (retryAfterLoop 10 0 (skipSpaces text)) otlpRetryAfterMaxS * 1000 }
  | .connection =>
    if startsWithCi (skipSpaces text) (ascii "close") then some { s with keepaliveEligible := false }
    else if 10 ≤ (skipSpaces text).length && startsWithCi (skipSpaces text) (ascii "keep-alive") then
      some { s with keepaliveEligible := true }
    else some s

def fieldNames : List Bytes :=
  [ascii "Content-Length:", ascii "Transfer-Encoding:", ascii "Retry-After:", ascii "Connection:"]

def scanFrom (head : Bytes) : ℕ := (head.takeWhile (· != lf)).length + 1

/-- Where the `while (hdr < hdr_end)` of the scan has a line start. -/
def lineStarts (head : Bytes) : List ℕ :=
  starts cr (head.drop (scanFrom head)).length (scanFrom head) (head.drop (scanFrom head))

def lineAt (head : Bytes) (p : ℕ) : Bytes := (head.drop p).takeWhile (· != cr)

/-- The scan takes `p` for the start of this field: it has a line start there, the name matches there, and the line is
handled as the field it names, whatever the lines before have said. -/
structure TakenAt (head : Bytes) (field : ScanField) (p : ℕ) : Prop where
  start : p ∈ lineStarts head
  named : startsWithCi (lineAt head p) field.name = true
  acts : ∀ s, headerLine s (lineAt head p) = field.act s ((lineAt head p).drop field.name.length)

/-- A line of the block starts at `p`, behind a CRLF. -/
def AfterCrlf (head : Bytes) (p : ℕ) : Prop := ∃ e, p = e + 2 ∧ OccursAt [cr, lf] head e

/-- The name of a field stands at `p`. -/
def FieldAt (head : Bytes) (p : ℕ) : Prop := ∃ name ∈ fieldNames, startsWithCi (head.drop p) name = true

/-- No field name stands behind a status line that is ended by an LF alone, and at a field name two bytes behind a
CR that CR is followed by an LF exactly when an even number of CR stand directly before it. -/
def FieldsAligned (head : Bytes) : Prop :=
  (FieldAt head (scanFrom head) → AfterCrlf head (scanFrom head)) ∧
    ∀ e ≥ scanFrom head, head[e]? = some cr → FieldAt head (e + 2) →
      (head[e + 1]? = some lf ↔ endRun cr (head.take e) % 2 = 0)

/-! ### The line handler -/

section Handler

variable {line : Bytes} {field : ScanField}

theorem mem_fieldNames {name : Bytes} : name ∈ fieldNames ↔ ∃ field : ScanField, field.name = name := by
  constructor
  · intro hname
    rcases List.mem_cons.1 hname with rfl | hname
    · exact ⟨.contentLength, rfl⟩
    rcases List.mem_cons.1 hname with rfl | hname
    · exact ⟨.transferEncoding, rfl⟩
    rcases List.mem_cons.1 hname with rfl | hname
    · exact ⟨.retryAfter, rfl⟩
    · exact ⟨.connection, (List.mem_singleton.1 hname).symm⟩
  · rintro ⟨field, rfl⟩
    cases field <;> decide

theorem ScanField.name_mem (field : ScanField) : field.name ∈ fieldNames := mem_fieldNames.2 ⟨field, rfl⟩

theorem startsWithCi_name {name name' : Bytes} (h : startsWithCi line name = true)
    (h' : startsWithCi line name' = true) (hle : name.length ≤ name'.length) : startsWithCi name' name = true := by
  rw [startsWithCi, beq_iff_eq] at h h' ⊢
  rw [List.map_take, ← h', ← List.map_take, List.take_take, Nat.min_eq_left hle]
  exact h

/-- A line starts with the name of one field at most. -/
theorem ScanField.eq_of_startsWithCi {other : ScanField} (h : startsWithCi line field.name = true)
    (h' : startsWithCi line other.name = true) : other = field := by
  have hapart : ∀ f g : ScanField, startsWithCi g.name f.name = true → g = f := by
    intro f g
    cases f <;> cases g <;> decide
  rcases Nat.le_total field.name.length other.name.length with hle | hle
  · exact hapart _ _ (startsWithCi_name h h' hle)
  · exact (hapart _ _ (startsWithCi_name h' h hle)).symm

theorem headerLine_field (h : startsWithCi line field.name = true) (s : HeaderScan) :
    headerLine s line = field.act s (line.drop field.name.length) := by
  have hother : ∀ other : ScanField, other ≠ field → ¬startsWithCi line other.name = true :=
    fun other hne h' => hne (ScanField.eq_of_startsWithCi h h')
  have hlength : .contentLength ≠ field → ¬startsWithCi line (ascii "Content-Length:") = true := hother _
  have hcoding : .transferEncoding ≠ field → ¬startsWithCi line (ascii "Transfer-Encoding:") = true := hother _
  have hretry : .retryAfter ≠ field → ¬startsWithCi line (ascii "Retry-After:") = true := hother _
  unfold headerLine
  cases field with
  | contentLength =>
    rw [if_pos (show startsWithCi line (ascii "Content-Length:") = true from h)]
    rfl
  | transferEncoding =>
    rw [if_neg (hlength (by decide)), if_pos (show startsWithCi line (ascii "Transfer-Encoding:") = true from h)]
    rfl
  | retryAfter =>
    rw [if_neg (hlength (by decide)), if_neg (hcoding (by decide)),
      if_pos (show startsWithCi line (ascii "Retry-After:") = true from h)]
    rfl
  | connection =>
    rw [if_neg (hlength (by decide)), if_neg (hcoding (by decide)), if_neg (hretry (by decide)),
      if_pos (show startsWithCi line (ascii "Connection:") = true from h)]
    rfl

theorem headerLine_other (h : ∀ field : ScanField, ¬startsWithCi line field.name = true) (s : HeaderScan) :
    headerLine s line = some s := by
  have hlength : ¬startsWithCi line (ascii "Content-Length:") = true := h .contentLength
  have hcoding : ¬startsWithCi line (ascii "Transfer-Encoding:") = true := h .transferEncoding
  have hretry : ¬startsWithCi line (ascii "Retry-After:") = true := h .retryAfter
  have hconnection : ¬startsWithCi line (ascii "Connection:") = true := h .connection
  rw [headerLine, if_neg hlength, if_neg hcoding, if_neg hretry, if_neg hconnection]

end Handler

theorem takenAt_iff {head : Bytes} {field : ScanField} {p : ℕ} :
    TakenAt head field p ↔ p ∈ lineStarts head ∧ startsWithCi (lineAt head p) field.name = true :=
  ⟨fun h => ⟨h.start, h.named⟩, fun h => ⟨h.1, h.2, headerLine_field h.2⟩⟩

/-! ### The lines of the scan -/

/-- What is left of a header block: nothing, or bytes that end with a CRLF which no CR stands before. -/
def NoCut (hdr : Bytes) : Prop := hdr = [] ∨ ∃ pre, hdr = pre ++ [cr, lf] ∧ pre.getLast? ≠ some cr

theorem NoCut.next {a b : Bytes} (h : NoCut (a ++ cr :: b)) : NoCut (b.drop 1) := by
  obtain hnil | ⟨pre, hpre, hlast⟩ := h
  · exact absurd hnil (by simp)
  obtain ⟨a', rfl, hb⟩ | ⟨c, rfl, hc⟩ := List.append_eq_append_iff.1 hpre
  · cases a' with
    | nil =>
      rw [List.nil_append, List.cons.injEq] at hb
      exact .inl (by rw [hb.2]; rfl)
    | cons z a' =>
      rw [List.cons_append, List.cons.injEq] at hb
      obtain ⟨rfl, rfl⟩ := hb
      cases a' with
      | nil => simp at hlast
      | cons y a' =>
        refine .inr ⟨a', rfl, fun hend => hlast ?_⟩
        have hne : a' ≠ [] := fun hnil => by simp [hnil] at hend
        rw [List.getLast?_append, List.getLast?_cons_cons, List.getLast?_cons, ← hend]
        simp [List.getLast?_eq_some_getLast hne]
  · -- the CR is the one that ends the block
    cases c with
    | nil =>
      rw [List.nil_append, List.cons.injEq] at hc
      exact .inl (by rw [← hc.2]; rfl)
    | cons z c =>
      rw [List.cons_append, List.cons.injEq] at hc
      have hmem : cr ∈ [lf] := by rw [hc.2]; simp
      exact absurd hmem (by decide)

theorem headerScan_eq_foldlM {head : Bytes} {rounds p : ℕ} (h : HeaderScan) (hrounds : (head.drop p).length ≤ rounds)
    (hcut : NoCut (head.drop p)) :
    headerScan rounds h (head.drop p) =
      (starts cr rounds p (head.drop p)).foldlM (fun h q => headerLine h (lineAt head q)) h := by
  induction rounds generalizing p h with
  | zero => rfl
  | succ rounds ih =>
    rw [headerScan, starts]
    by_cases hmem : cr ∈ head.drop p
    · obtain ⟨a, b, hsplit, ha⟩ := List.eq_append_cons_of_mem hmem
      have hline : (head.drop p).takeWhile (· != cr) = a := by rw [hsplit, takeWhile_of_notMem ha]
      have hnext : head.drop (p + a.length + 2) = b.drop 1 := by
        rw [Nat.add_assoc, ← List.drop_drop, hsplit, ← List.drop_drop, List.drop_left]
        rfl
      have hlen : (head.drop p).length = a.length + b.length + 1 := by
        rw [hsplit, List.length_append, List.length_cons]
        omega
      have hlineAt : lineAt head p = a := hline
      have hrest : (head.drop p).drop (a.length + 2) = head.drop (p + a.length + 2) := by
        rw [List.drop_drop, Nat.add_assoc]
      have hempty : ¬(head.drop p).isEmpty = true := by
        rw [hsplit]
        simp
      dsimp only
      rw [if_neg hempty, hline, if_neg (by omega), if_neg (by omega), List.foldlM_cons, hlineAt, hrest]
      cases headerLine h a with
      | none => rfl
      | some h' =>
        exact ih h' (by rw [hnext, List.length_drop]; omega) (by rw [hnext]; exact (hsplit ▸ hcut).next)
    · obtain hnil | ⟨pre, hpre, -⟩ := hcut
      · rw [hnil]
        rfl
      · exact absurd (by rw [hpre]; simp) hmem

/-! ### A header block -/

section HeaderBlock

variable {buf head name : Bytes} {i p : ℕ}

theorem head_split (h : findSubstring buf crlfcrlf = some i) :
    ∃ a, lf ∉ a ∧ buf.take (i + 4) = a ++ lf :: (buf.take (i + 4)).drop (scanFrom (buf.take (i + 4))) ∧
      scanFrom (buf.take (i + 4)) = a.length + 1 ∧
      NoCut ((buf.take (i + 4)).drop (scanFrom (buf.take (i + 4)))) := by
  have hblock := take_of_findSubstring h
  generalize buf.take (i + 4) = head at hblock ⊢
  generalize buf.take i = pre at hblock
  subst hblock
  have hsplit : ∀ a b, lf ∉ a → pre ++ crlfcrlf = a ++ lf :: b →
      scanFrom (pre ++ crlfcrlf) = a.length + 1 ∧ (pre ++ crlfcrlf).drop (a.length + 1) = b := by
    intro a b ha heq
    rw [scanFrom, heq, takeWhile_of_notMem ha, ← List.drop_drop, List.drop_left]
    exact ⟨rfl, rfl⟩
  by_cases hmem : lf ∈ pre
  · obtain ⟨a, b, rfl, ha⟩ := List.eq_append_cons_of_mem hmem
    have heq : a ++ lf :: b ++ crlfcrlf = a ++ lf :: (b ++ crlfcrlf) := by
      rw [List.append_assoc, List.cons_append]
    obtain ⟨hfrom, hrest⟩ := hsplit a (b ++ crlfcrlf) ha heq
    rw [hfrom, hrest]
    exact ⟨a, ha, heq, rfl, .inr ⟨b ++ [cr, lf], by simp [crlfcrlf], by simp [show ¬lf = cr by decide]⟩⟩
  · -- the status line is all there is
    have ha : lf ∉ pre ++ [cr] := by simpa using ⟨hmem, by decide⟩
    have heq : pre ++ crlfcrlf = pre ++ [cr] ++ lf :: [cr, lf] := by simp [crlfcrlf]
    obtain ⟨hfrom, hrest⟩ := hsplit (pre ++ [cr]) [cr, lf] ha heq
    rw [hfrom, hrest]
    exact ⟨pre ++ [cr], ha, heq, rfl, .inr ⟨[], rfl, by simp⟩⟩

theorem startsWithCi_length {s : Bytes} (h : startsWithCi s name = true) : name.length ≤ s.length := by
  rw [startsWithCi, beq_iff_eq] at h
  have hlen := congrArg List.length h
  rw [List.length_map, List.length_map, List.length_take] at hlen
  omega

theorem startsWithCi_takeWhile (hname : cr ∉ name.map toLower) (s : Bytes) :
    startsWithCi (s.takeWhile (· != cr)) name = startsWithCi s name := by
  rw [startsWithCi, startsWithCi, List.take_takeWhile]
  by_cases hmem : cr ∈ s.take name.length
  · -- a CR among the bytes compared, or fewer bytes than the name has
    have hright : (s.take name.length).map toLower ≠ name.map toLower := fun heq =>
      hname (heq ▸ List.mem_map.2 ⟨cr, hmem, rfl⟩)
    have hleft : ((s.take name.length).takeWhile (· != cr)).map toLower ≠ name.map toLower := by
      intro heq
      have hlen := congrArg List.length heq
      obtain ⟨a, b, hsplit, ha⟩ := List.eq_append_cons_of_mem hmem
      have htake := congrArg List.length hsplit
      rw [hsplit, takeWhile_of_notMem ha, List.length_map, List.length_map] at hlen
      rw [List.length_take, List.length_append, List.length_cons] at htake
      omega
    rw [beq_false_of_ne hleft, beq_false_of_ne hright]
  · have hall : ∀ z ∈ s.take name.length, (z != cr) = true :=
      fun z hz => bne_iff_ne.2 fun heq => hmem (heq ▸ hz)
    rw [List.takeWhile_eq_self_iff.2 hall]

theorem fieldName_ok (h : name ∈ fieldNames) : cr ∉ name.map toLower ∧ 11 ≤ name.length := by
  revert name
  decide

theorem occursAt_crlf {e : ℕ} : OccursAt [cr, lf] head e ↔ head[e]? = some cr ∧ head[e + 1]? = some lf := by
  rw [OccursAt, List.cons_prefix_iff]
  constructor
  · rintro ⟨l, hdrop, hlf⟩
    rw [← List.head?_drop, ← List.head?_drop, ← List.drop_drop, hdrop]
    refine ⟨rfl, ?_⟩
    obtain ⟨t, rfl⟩ := hlf
    rfl
  · rintro ⟨hcr, hlf⟩
    rw [← List.head?_drop] at hcr hlf
    rw [← List.drop_drop] at hlf
    cases hdrop : head.drop e with
    | nil => rw [hdrop] at hcr; simp at hcr
    | cons z l =>
      rw [hdrop, List.head?_cons, Option.some.injEq] at hcr
      rw [hdrop] at hlf
      refine ⟨l, by rw [hcr], ?_⟩
      cases l with
      | nil => simp at hlf
      | cons y l =>
        simp only [List.drop_succ_cons, List.drop_zero, List.head?_cons, Option.some.injEq] at hlf
        rw [hlf]
        exact List.prefix_append [lf] l

theorem FieldAt.cr_mem (hhead : head = head.take i ++ crlfcrlf) (h : FieldAt head p) : cr ∈ head.drop p := by
  obtain ⟨name, hname, hstarts⟩ := h
  have hlen := startsWithCi_length hstarts
  have hlong := (fieldName_ok hname).2
  have htotal := congrArg List.length hhead
  have hfour : crlfcrlf.length = 4 := rfl
  rw [List.length_append, hfour] at htotal
  rw [List.length_drop] at hlen
  rw [hhead, List.drop_append_of_le_length (by omega)]
  exact List.mem_append_right _ (by decide)

/-- **Which positions the scan takes for line starts**, at a field name: the one behind the first LF, and the ones
two bytes behind a CR with an even number of CR directly before it. -/
theorem mem_lineStarts (h : findSubstring buf crlfcrlf = some i) (hfield : FieldAt (buf.take (i + 4)) p) :
    p ∈ lineStarts (buf.take (i + 4)) ↔ p = scanFrom (buf.take (i + 4)) ∨
      ∃ e ≥ scanFrom (buf.take (i + 4)), p = e + 2 ∧ (buf.take (i + 4))[e]? = some cr ∧
        endRun cr ((buf.take (i + 4)).take e) % 2 = 0 := by
  obtain ⟨a, ha, hsplit, hfrom, -⟩ := head_split h
  have hhead : buf.take (i + 4) = (buf.take (i + 4)).take i ++ crlfcrlf := by
    conv_lhs => rw [take_of_findSubstring h]
    rw [List.take_take, Nat.min_eq_left (by omega)]
  have hcr := hfield.cr_mem hhead
  generalize buf.take (i + 4) = head at hsplit hfrom hcr ⊢
  have hentry : ∀ e, head[scanFrom head + e]? = (head.drop (scanFrom head))[e]? := fun e =>
    List.getElem?_drop.symm
  have hrun : ∀ e, endRun cr (head.take (scanFrom head + e)) = endRun cr ((head.drop (scanFrom head)).take e) := by
    intro e
    have htake : head.take (scanFrom head + e) = a ++ lf :: (head.drop (scanFrom head)).take e := by
      rw [List.take_add]
      conv_lhs => rw [show head.take (scanFrom head) = a ++ [lf] by
        rw [hfrom, hsplit, List.take_length_add_append]; rfl]
      rw [List.append_assoc, List.singleton_append]
    rw [htake, endRun_append_of_ne (by decide)]
  rw [lineStarts, mem_starts (Nat.le_refl _)]
  constructor
  · rintro ⟨rfl | ⟨e, rfl, hfound⟩, -⟩
    · exact .inl rfl
    · refine .inr ⟨scanFrom head + e, Nat.le_add_right _ _, rfl, ?_⟩
      rw [hentry, hrun]
      exact hfound
  · rintro (rfl | ⟨e, he, rfl, hfound⟩)
    · rw [Nat.sub_self]
      exact ⟨.inl rfl, hcr⟩
    · obtain ⟨e', rfl⟩ := Nat.exists_eq_add_of_le he
      rw [hentry, hrun] at hfound
      refine ⟨.inr ⟨e', rfl, hfound⟩, ?_⟩
      rw [List.drop_drop, show scanFrom head + (scanFrom head + e' + 2 - scanFrom head) =
        scanFrom head + e' + 2 by omega]
      exact hcr

/-- A line start at a field name stands behind the status line's CRLF, or behind a later one. -/
theorem afterCrlf_iff (h : findSubstring buf crlfcrlf = some i) :
    AfterCrlf (buf.take (i + 4)) p ↔
      p = scanFrom (buf.take (i + 4)) ∧ AfterCrlf (buf.take (i + 4)) (scanFrom (buf.take (i + 4))) ∨
      ∃ e ≥ scanFrom (buf.take (i + 4)), p = e + 2 ∧ (buf.take (i + 4))[e]? = some cr ∧
        (buf.take (i + 4))[e + 1]? = some lf := by
  obtain ⟨a, ha, hsplit, hfrom, -⟩ := head_split h
  generalize buf.take (i + 4) = head at hsplit hfrom ⊢
  constructor
  · rintro ⟨e, rfl, hocc⟩
    have hcrlf := occursAt_crlf.1 hocc
    rcases Nat.lt_or_ge e (scanFrom head) with hlt | hge
    · -- the first LF ends the status line
      have hfirst : a.length ≤ e + 1 := by
        by_contra hshort
        have hlf := hcrlf.2
        rw [hsplit, List.getElem?_append_left (by omega)] at hlf
        exact ha (List.mem_of_getElem? hlf)
      have hne : e ≠ a.length := by
        rintro rfl
        have hcr := hcrlf.1
        rw [hsplit, List.getElem?_append_right (Nat.le_refl _), Nat.sub_self, List.getElem?_cons_zero,
          Option.some.injEq] at hcr
        exact absurd hcr (by decide)
      have heq : e + 2 = scanFrom head := by omega
      exact .inl ⟨heq, heq ▸ ⟨e, rfl, hocc⟩⟩
    · exact .inr ⟨e, hge, rfl, hcrlf⟩
  · rintro (⟨rfl, hstart⟩ | ⟨e, -, rfl, hcrlf⟩)
    · exact hstart
    · exact ⟨e, rfl, occursAt_crlf.2 hcrlf⟩

/-- The scan takes a field name for a field exactly at a line start. -/
theorem lineStarts_aligned_iff (h : findSubstring buf crlfcrlf = some i) :
    (∀ p, FieldAt (buf.take (i + 4)) p →
      (p ∈ lineStarts (buf.take (i + 4)) ↔ AfterCrlf (buf.take (i + 4)) p)) ↔
        FieldsAligned (buf.take (i + 4)) := by
  constructor
  · intro haligned
    refine ⟨fun hfield => ?_, fun e he hcr hfield => ?_⟩
    · exact (haligned _ hfield).1 ((mem_lineStarts h hfield).2 (.inl rfl))
    · have hat := haligned _ hfield
      rw [mem_lineStarts h hfield, afterCrlf_iff h] at hat
      constructor
      · intro hlf
        rcases hat.2 (.inr ⟨e, he, rfl, hcr, hlf⟩) with heq | ⟨e', -, heq, -, hrun⟩
        · omega
        · rwa [show e = e' by omega]
      · intro hrun
        rcases hat.1 (.inr ⟨e, he, rfl, hcr, hrun⟩) with ⟨heq, -⟩ | ⟨e', -, heq, -, hlf⟩
        · omega
        · rwa [show e = e' by omega]
  · rintro ⟨hfirst, hlater⟩ p hfield
    rw [mem_lineStarts h hfield, afterCrlf_iff h]
    constructor
    · rintro (rfl | ⟨e, he, rfl, hcr, hrun⟩)
      · exact .inl ⟨rfl, hfirst hfield⟩
      · exact .inr ⟨e, he, rfl, hcr, (hlater e he hcr hfield).2 hrun⟩
    · rintro (⟨rfl, -⟩ | ⟨e, he, rfl, hcr, hlf⟩)
      · exact .inl rfl
      · exact .inr ⟨e, he, rfl, hcr, (hlater e he hcr hfield).1 hlf⟩

theorem headerScan_lines (h : findSubstring buf crlfcrlf = some i) :
    ∃ hdr, (buf.take (i + 4)).dropWhile (· != lf) = lf :: hdr ∧ ∀ s, headerScan hdr.length s hdr =
      (lineStarts (buf.take (i + 4))).foldlM (fun s p => headerLine s (lineAt (buf.take (i + 4)) p)) s := by
  obtain ⟨a, ha, hsplit, hfrom, hcut⟩ := head_split h
  refine ⟨(buf.take (i + 4)).drop (scanFrom (buf.take (i + 4))), ?_, fun s => ?_⟩
  · generalize buf.take (i + 4) = head at hsplit hfrom ⊢
    have hdrop : ∀ b, (a ++ lf :: b).dropWhile (· != lf) = lf :: b := by
      intro b
      have hall : ∀ z ∈ a, (z != lf) = true := fun z hz => bne_iff_ne.2 fun heq => ha (heq ▸ hz)
      rw [List.dropWhile_append, List.dropWhile_eq_nil_iff.2 hall]
      rfl
    exact (congrArg _ hsplit).trans (hdrop _)
  · exact headerScan_eq_foldlM s (Nat.le_refl _) hcut

/-- **Fields are looked for at line starts.** The scan of a complete header block handles the lines at its line
starts, of which those that are taken for no field change nothing; and it takes a position for the start of a field
exactly when that stands behind a CRLF and the name stands there, for all positions and fields, exactly when no field
name stands at a position that the scan gets wrong. -/
theorem fieldStart_iff (h : findSubstring buf crlfcrlf = some i) :
    (∃ hdr, (buf.take (i + 4)).dropWhile (· != lf) = lf :: hdr ∧ ∀ s, headerScan hdr.length s hdr =
      (lineStarts (buf.take (i + 4))).foldlM (fun s p => headerLine s (lineAt (buf.take (i + 4)) p)) s) ∧
    (∀ p ∈ lineStarts (buf.take (i + 4)), (∀ field, ¬TakenAt (buf.take (i + 4)) field p) →
      ∀ s, headerLine s (lineAt (buf.take (i + 4)) p) = some s) ∧
    ((∀ p field, TakenAt (buf.take (i + 4)) field p ↔
      AfterCrlf (buf.take (i + 4)) p ∧ startsWithCi ((buf.take (i + 4)).drop p) field.name = true) ↔
        FieldsAligned (buf.take (i + 4))) := by
  refine ⟨headerScan_lines h, fun p hp hnone => headerLine_other fun field hnamed =>
    hnone field (takenAt_iff.2 ⟨hp, hnamed⟩), ?_⟩
  rw [← lineStarts_aligned_iff h]
  have htaken : ∀ p field, TakenAt (buf.take (i + 4)) field p ↔
      p ∈ lineStarts (buf.take (i + 4)) ∧ startsWithCi ((buf.take (i + 4)).drop p) field.name = true := by
    intro p field
    rw [takenAt_iff, lineAt, startsWithCi_takeWhile (fieldName_ok field.name_mem).1]
  constructor
  · rintro hall p ⟨name, hname, hstarts⟩
    obtain ⟨field, rfl⟩ := mem_fieldNames.1 hname
    have hat := hall p field
    rw [htaken p field] at hat
    simpa [hstarts] using hat
  · intro hall p field
    rw [htaken p field, and_congr_left_iff]
    exact fun hstarts => hall p ⟨_, field.name_mem, hstarts⟩

instance : Decidable (AfterCrlf head p) :=
  decidable_of_iff (2 ≤ p ∧ OccursAt [cr, lf] head (p - 2))
    ⟨fun h => ⟨p - 2, by omega, h.2⟩, fun ⟨e, he, hocc⟩ => by subst he; exact ⟨by omega, hocc⟩⟩

instance {field : ScanField} : Decidable (TakenAt head field p) := decidable_of_iff _ takenAt_iff.symm

instance : Decidable (FieldAt head p) := inferInstanceAs (Decidable (∃ name ∈ fieldNames, _))

instance : Decidable (FieldsAligned head) :=
  decidable_of_iff ((FieldAt head (scanFrom head) → AfterCrlf head (scanFrom head)) ∧
      ∀ e < head.length, scanFrom head ≤ e → head[e]? = some cr → FieldAt head (e + 2) →
        (head[e + 1]? = some lf ↔ endRun cr (head.take e) % 2 = 0))
    (and_congr_right fun _ => forall_congr' fun _ =>
      ⟨fun h hge hcr => h (List.getElem?_eq_some_iff.1 hcr).1 hge hcr, fun h _ => h⟩)

end HeaderBlock

/-- A CR alone in a value, and no field name two bytes behind it. -/
theorem fieldStart_iff_bare_cr :
    ∃ buf i, findSubstring buf crlfcrlf = some i ∧ buf = ascii "HTTP/1.1 200 OK\r\nX: a\rb\r\nRetry-After: 3\r\n\r\n" ∧
      (∀ p field, TakenAt (buf.take (i + 4)) field p ↔
        AfterCrlf (buf.take (i + 4)) p ∧ startsWithCi ((buf.take (i + 4)).drop p) field.name = true) ∧
      TakenAt (buf.take (i + 4)) .retryAfter 25 := by
  have hfind : findSubstring (ascii "HTTP/1.1 200 OK\r\nX: a\rb\r\nRetry-After: 3\r\n\r\n") crlfcrlf = some 39 := by
    decide +kernel
  have haligned := (fieldStart_iff hfind).2.2.2 (by decide +kernel)
  exact ⟨_, _, hfind, rfl, haligned, (haligned 25 .retryAfter).2 (by decide +kernel)⟩

/-- A field name two bytes behind a CR in a value is taken for a field, so that the length in the value of another
header frames the body; and a field behind two CR and an LF is not looked at, so that the response with its length
is not complete. -/
theorem field_in_value_taken :
    (∃ buf i p, findSubstring buf crlfcrlf = some i ∧ TakenAt (buf.take (i + 4)) .contentLength p ∧
      ¬AfterCrlf (buf.take (i + 4)) p ∧
      (otlpHttpRespParse buf false).2 = .complete ⟨200, 0, true, i + 4, 0⟩) ∧
    ∃ buf i p, findSubstring buf crlfcrlf = some i ∧ ¬TakenAt (buf.take (i + 4)) .contentLength p ∧
      AfterCrlf (buf.take (i + 4)) p ∧
      startsWithCi ((buf.take (i + 4)).drop p) ScanField.contentLength.name = true ∧
      (otlpHttpRespParse buf false).2 = .needMore :=
  ⟨⟨ascii "HTTP/1.1 200 OK\r\nX: a\rbContent-Length: 0\r\n\r\n", 40, 23, by decide +kernel⟩,
    ⟨ascii "HTTP/1.1 200 OK\r\nX: a\r\r\nContent-Length: 0\r\n\r\n", 41, 24, by decide +kernel⟩⟩

end OtlpC.Http
