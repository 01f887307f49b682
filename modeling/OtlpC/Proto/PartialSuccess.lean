import OtlpC.Proto.Reading

/-!
# PartialSuccess

The two loops of `otlp_exporter_otel_decode_partial_success` over the fields of a response. Both walk the complete
fields at the start of what they are given and end at the first key that is none; they take that for the end of the
message when nothing follows it.
-/

namespace OtlpC.Proto

open Proto3

/-! ### Walks -/

/-- The loops of the decoder walk `bs` to its end: complete fields, and then nothing or a key that is none. -/
inductive Walked : Bytes → List Field → Prop where
  | done {bs : Bytes} (h : bs = [] ∨ BadKey bs) : Walked bs []
  | field {key bs rest : Bytes} {f : Field} {fs : List Field} (hkey : IsKey key f.number f.wireType)
      (hnumber : f.number % 2 ^ 32 ≠ 0) (hvalue : IsValue bs f) (h : Walked rest fs) :
      Walked (key ++ (bs ++ rest)) (f :: fs)

theorem Walked.of_message {bs : Bytes} {fs : List Field} (h : IsMessage bs fs) (hnumbers : ∀ f ∈ fs, f.number < 2 ^ 29) :
    Walked bs fs := by
  induction h with
  | nil => exact .done (.inl rfl)
  | @cons key bs rest f fs hkey hvalue hfs ih =>
    rw [List.forall_mem_cons] at hnumbers
    have hne : f.number ≠ 0 := hkey.choose_spec.2.2.2
    exact .field hkey (by omega) hvalue (ih hnumbers.2)

/-! ### The submessage -/

/-- What a field of a PartialSuccess changes. -/
def subStep (ps : PartialSuccess) : Field → PartialSuccess
  | .varint n v => if n % 2 ^ 32 = rejectedField then { ps with rejected := toInt64 v } else ps
  | .len n p => if n % 2 ^ 32 = errorMessageField then { ps with errorMessage := some p } else ps
  | _ => ps

/-- The part of a round of `decode_partial_success_sub` after the key. -/
def subRound (ps : PartialSuccess) (field wt : ℕ) (r : Bytes) : Option (PartialSuccess × Bytes) :=
  if field = rejectedField ∧ wt = wireVarint then
    match otlpPbReadVarint r with
    | (_, none) => none
    | (r, some v) => some ({ ps with rejected := toInt64 v }, r)
  else if field = errorMessageField ∧ wt = wireLen then
    match otlpPbReadLen r with
    | (_, none) => none
    | (r, some data) => some ({ ps with errorMessage := some data }, r)
  else (otlpPbSkip r wt).map fun r => (ps, r)

theorem decodeSubLoop_key {r rest : Bytes} {field wt : ℕ} (hkey : otlpPbReadKey r = (rest, some (field, wt)))
    (rounds : ℕ) (ps : PartialSuccess) : decodeSubLoop (rounds + 1) ps r =
      (subRound ps field wt rest).bind fun x => decodeSubLoop rounds x.1 x.2 := by
  rw [decodeSubLoop, hkey, subRound]
  dsimp only
  split
  · rcases otlpPbReadVarint rest with ⟨r, _ | v⟩ <;> rfl
  · split
    · rcases otlpPbReadLen rest with ⟨r, _ | data⟩ <;> rfl
    · cases otlpPbSkip rest wt <;> rfl

theorem subStep_skipped (ps : PartialSuccess) {f : Field}
    (hrejected : ¬(f.number % 2 ^ 32 = rejectedField ∧ f.wireType = wireVarint))
    (hmessage : ¬(f.number % 2 ^ 32 = errorMessageField ∧ f.wireType = wireLen)) : subStep ps f = ps := by
  cases f with
  | varint n v => exact if_neg fun h => hrejected ⟨h, rfl⟩
  | len n p => exact if_neg fun h => hmessage ⟨h, rfl⟩
  | i64 n v | i32 n v => rfl

theorem subRound_some {ps ps' : PartialSuccess} {n t : ℕ} {r rest : Bytes} :
    subRound ps (n % 2 ^ 32) t r = some (ps', rest) ↔
      ∃ p f, r = p ++ rest ∧ IsValue p f ∧ f.number = n ∧ f.wireType = t ∧ ps' = subStep ps f := by
  unfold subRound
  split
  · next h =>
    obtain ⟨hn, rfl⟩ := h
    constructor
    · intro hread
      split at hread
      · cases hread
      · next r' v heq =>
        cases hread
        obtain ⟨k, rfl, hk⟩ := otlpPbReadVarint_some.1 heq
        exact ⟨k, .varint n v, rfl, .varint hk, rfl, rfl, (if_pos hn).symm⟩
    · rintro ⟨p, f, rfl, hp, rfl, ht, rfl⟩
      cases hp with
      | varint hv =>
        rw [otlpPbReadVarint_eq hv]
        exact congrArg (fun ps => some (ps, rest)) (if_pos hn).symm
      | i64 | len | i32 => cases ht
  · next hrejected =>
    split
    · next h =>
      obtain ⟨hn, rfl⟩ := h
      constructor
      · intro hread
        split at hread
        · cases hread
        · next r' data heq =>
          cases hread
          obtain ⟨l, v, rfl, hl, hv⟩ := otlpPbReadLen_some.1 heq
          exact ⟨l ++ data, .len n data, (List.append_assoc _ _ _).symm, .len hl hv, rfl, rfl, (if_pos hn).symm⟩
      · rintro ⟨p, f, rfl, hp, rfl, ht, rfl⟩
        cases hp with
        | len hl hv =>
          rw [List.append_assoc, (@otlpPbReadLen_some _ rest _).2 ⟨_, _, rfl, hl, hv⟩]
          exact congrArg (fun ps => some (ps, rest)) (if_pos hn).symm
        | varint | i64 | i32 => cases ht
    · next hmessage =>
      simp only [Option.map_eq_some_iff, Prod.mk.injEq, otlpPbSkip_some n]
      constructor
      · rintro ⟨_, ⟨p, f, rfl, hp, rfl, rfl⟩, rfl, rfl⟩
        exact ⟨p, f, rfl, hp, rfl, rfl, (subStep_skipped ps hrejected hmessage).symm⟩
      · rintro ⟨p, f, rfl, hp, rfl, rfl, rfl⟩
        exact ⟨rest, ⟨p, f, rfl, hp, rfl, rfl⟩, (subStep_skipped ps hrejected hmessage).symm, rfl⟩

theorem length_rest_lt {key p rest : Bytes} {n t : ℕ} (hkey : IsKey key n t) :
    rest.length < (key ++ (p ++ rest)).length := by
  have hpos := List.length_pos_iff.2 hkey.ne_nil
  rw [List.length_append, List.length_append]
  omega

/-- The loop on a message that it walks to the end. -/
theorem decodeSubLoop_walked {bs : Bytes} {fs : List Field} (h : Walked bs fs) {rounds : ℕ} (hrounds : bs.length < rounds)
    (ps : PartialSuccess) : decodeSubLoop rounds ps bs = some (fs.foldl subStep ps) := by
  induction h generalizing rounds ps with
  | done h =>
    obtain ⟨rounds, rfl⟩ : ∃ k, rounds = k + 1 := ⟨rounds - 1, by omega⟩
    rw [decodeSubLoop, otlpPbReadKey_end h]
    rfl
  | @field key p rest f fs hkey hnumber hvalue h ih =>
    obtain ⟨rounds, rfl⟩ : ∃ k, rounds = k + 1 := ⟨rounds - 1, by omega⟩
    have hlt := @length_rest_lt key p rest _ _ hkey
    rw [decodeSubLoop_key (otlpPbReadKey_eq hkey hnumber _), subRound_some.2 ⟨p, f, rfl, hvalue, rfl, rfl, rfl⟩]
    exact ih (by omega) _

theorem exists_walked_of_decodeSubLoop {rounds : ℕ} {ps ps' : PartialSuccess} {bs : Bytes}
    (h : decodeSubLoop rounds ps bs = some ps') : ∃ fs, Walked bs fs := by
  induction rounds generalizing ps bs with
  | zero => cases h
  | succ rounds ih =>
    rcases otlpPbReadKey_cases bs with ⟨key, n, t, r, rfl, hkey, hnumber, hread⟩ | ⟨hend, hread⟩ | ⟨r, hr, hread⟩
    · rw [decodeSubLoop_key hread] at h
      obtain ⟨⟨ps₁, rest⟩, hround, hloop⟩ := Option.bind_eq_some_iff.1 h
      obtain ⟨p, f, rfl, hp, rfl, rfl, -⟩ := subRound_some.1 hround
      obtain ⟨fs, hfs⟩ := ih hloop
      exact ⟨f :: fs, .field hkey hnumber hp hfs⟩
    · exact ⟨[], .done hend⟩
    · rw [decodeSubLoop, hread] at h
      dsimp only at h
      rw [if_neg (by simpa using hr)] at h
      cases h

/-- **`decode_partial_success_sub`** accepts what it walks to the end. -/
theorem decodePartialSuccessSub_isSome (ps : PartialSuccess) (bs : Bytes) :
    (decodePartialSuccessSub ps bs).isSome ↔ ∃ fs, Walked bs fs := by
  constructor
  · intro h
    obtain ⟨ps', hps'⟩ := Option.isSome_iff_exists.1 h
    exact exists_walked_of_decodeSubLoop hps'
  · rintro ⟨fs, hfs⟩
    rw [decodePartialSuccessSub, decodeSubLoop_walked hfs (Nat.lt_succ_self _)]
    rfl

/-! ### The response -/

def isPartialSuccess : Field → Bool
  | .len n _ => n % 2 ^ 32 = partialSuccessField
  | _ => false

/-- What a field of a response changes, if it is accepted. -/
def responseStep (ps : PartialSuccess) (f : Field) : Option PartialSuccess :=
  match f with
  | .len n p => if n % 2 ^ 32 = partialSuccessField then decodePartialSuccessSub ps p else some ps
  | _ => some ps

/-- The part of a round of `otlp_exporter_otel_decode_partial_success` after the key. -/
def responseRound (ps : PartialSuccess) (found : Bool) (field wt : ℕ) (r : Bytes) :
    Option (PartialSuccess × Bool × Bytes) :=
  if field = partialSuccessField ∧ wt = wireLen then
    match otlpPbReadLen r with
    | (_, none) => none
    | (r, some sub) => (decodePartialSuccessSub ps sub).map fun ps => (ps, true, r)
  else (otlpPbSkip r wt).map fun r => (ps, found, r)

theorem decodeLoop_key {r rest : Bytes} {field wt : ℕ} (hkey : otlpPbReadKey r = (rest, some (field, wt)))
    (rounds : ℕ) (ps : PartialSuccess) (found : Bool) : decodeLoop (rounds + 1) ps found r =
      (responseRound ps found field wt rest).bind fun x => decodeLoop rounds x.1 x.2.1 x.2.2 := by
  rw [decodeLoop, hkey, responseRound]
  dsimp only
  by_cases hfield : field = partialSuccessField ∧ wt = wireLen
  · rw [if_pos hfield, if_pos hfield]
    rcases otlpPbReadLen rest with ⟨r', - | sub⟩
    · rfl
    · dsimp only
      cases decodePartialSuccessSub ps sub <;> rfl
  · rw [if_neg hfield, if_neg hfield]
    cases otlpPbSkip rest wt <;> rfl

theorem response_skipped (ps : PartialSuccess) {f : Field}
    (h : ¬(f.number % 2 ^ 32 = partialSuccessField ∧ f.wireType = wireLen)) :
    responseStep ps f = some ps ∧ isPartialSuccess f = false := by
  cases f with
  | len n p =>
    have hn : ¬n % 2 ^ 32 = partialSuccessField := fun hn => h ⟨hn, rfl⟩
    exact ⟨if_neg hn, decide_eq_false hn⟩
  | varint n v | i64 n v | i32 n v => exact ⟨rfl, rfl⟩

theorem responseRound_eq {p : Bytes} {f : Field} (hp : IsValue p f) (ps : PartialSuccess) (found : Bool) (rest : Bytes) :
    responseRound ps found (f.number % 2 ^ 32) f.wireType (p ++ rest) =
      (responseStep ps f).map fun ps => (ps, found || isPartialSuccess f, rest) := by
  unfold responseRound
  split
  · next h =>
    cases hp with
    | @len l p n v hl hv =>
      have hn : n % 2 ^ 32 = partialSuccessField := h.1
      rw [List.append_assoc, (@otlpPbReadLen_some _ rest _).2 ⟨_, _, rfl, hl, hv⟩, responseStep, if_pos hn,
        isPartialSuccess, decide_eq_true hn, Bool.or_true]
    | varint | i64 | i32 => cases h.2
  · next h =>
    obtain ⟨hstep, hpartial⟩ := response_skipped ps h
    rw [(otlpPbSkip_some f.number).2 ⟨p, f, rfl, hp, rfl, rfl⟩, hstep, hpartial, Bool.or_false]
    rfl

theorem exists_value_of_responseRound {ps ps' : PartialSuccess} {found found' : Bool} {n t : ℕ} {r rest : Bytes}
    (h : responseRound ps found (n % 2 ^ 32) t r = some (ps', found', rest)) :
    ∃ p f, r = p ++ rest ∧ IsValue p f ∧ f.number = n ∧ f.wireType = t := by
  unfold responseRound at h
  split at h
  · next heq =>
    obtain ⟨-, rfl⟩ := heq
    split at h
    · cases h
    · next r' sub hread =>
      obtain ⟨ps', -, hx⟩ := Option.map_eq_some_iff.1 h
      cases hx
      obtain ⟨l, v, rfl, hl, hv⟩ := otlpPbReadLen_some.1 hread
      exact ⟨l ++ sub, .len n sub, (List.append_assoc _ _ _).symm, .len hl hv, rfl, rfl⟩
  · obtain ⟨r', hskip, hx⟩ := Option.map_eq_some_iff.1 h
    cases hx
    exact (otlpPbSkip_some n).1 hskip

theorem decodeLoop_walked {bs : Bytes} {fs : List Field} (h : Walked bs fs) {rounds : ℕ} (hrounds : bs.length < rounds)
    (ps : PartialSuccess) (found : Bool) : decodeLoop rounds ps found bs =
      (fs.foldlM responseStep ps).bind fun ps => if found || fs.any isPartialSuccess then some ps else none := by
  induction h generalizing rounds ps found with
  | done h =>
    obtain ⟨rounds, rfl⟩ : ∃ k, rounds = k + 1 := ⟨rounds - 1, by omega⟩
    rw [decodeLoop, otlpPbReadKey_end h]
    simp
  | @field key p rest f fs hkey hnumber hvalue h ih =>
    obtain ⟨rounds, rfl⟩ : ∃ k, rounds = k + 1 := ⟨rounds - 1, by omega⟩
    have hlt := @length_rest_lt key p rest _ _ hkey
    rw [decodeLoop_key (otlpPbReadKey_eq hkey hnumber _), responseRound_eq hvalue, List.foldlM_cons]
    cases responseStep ps f with
    | none => rfl
    | some ps =>
      simp only [Option.map_some, Option.bind_some, Option.bind_eq_bind, List.any_cons]
      rw [ih (by omega) ps, Bool.or_assoc]
      rfl

theorem exists_walked_of_decodeLoop {rounds : ℕ} {ps ps' : PartialSuccess} {found : Bool} {bs : Bytes}
    (h : decodeLoop rounds ps found bs = some ps') : ∃ fs, Walked bs fs := by
  induction rounds generalizing ps found bs with
  | zero => cases h
  | succ rounds ih =>
    rcases otlpPbReadKey_cases bs with ⟨key, n, t, r, rfl, hkey, hnumber, hread⟩ | ⟨hend, hread⟩ | ⟨r, hr, hread⟩
    · rw [decodeLoop_key hread] at h
      obtain ⟨⟨ps₁, found₁, rest⟩, hround, hloop⟩ := Option.bind_eq_some_iff.1 h
      obtain ⟨p, f, rfl, hp, rfl, rfl⟩ := exists_value_of_responseRound hround
      obtain ⟨fs, hfs⟩ := ih hloop
      exact ⟨f :: fs, .field hkey hnumber hp hfs⟩
    · exact ⟨[], .done hend⟩
    · rw [decodeLoop, hread] at h
      dsimp only at h
      rw [if_neg (by simp [hr])] at h
      cases h

/-- **The decoder** on a response that it walks to the end. -/
theorem otlpExporterOtelDecodePartialSuccess_walked {body : Bytes} {fs : List Field} (h : Walked body fs) :
    otlpExporterOtelDecodePartialSuccess body = (fs.foldlM responseStep { rejected := 0, errorMessage := none }).bind
      fun ps => if fs.any isPartialSuccess then some ps else none :=
  decodeLoop_walked h (Nat.lt_succ_self _) _ false

/-! ### Well-formed responses -/

/-- A well-formed response: its fields, and those of its `partial_success` submessages. -/
structure IsResponse (body : Bytes) (fs : List Field) (subs : List (List Field)) : Prop where
  message : IsMessage body fs
  numbers : ∀ f ∈ fs, f.number < 2 ^ 29
  submessages : List.Forall₂ IsMessage (lens 1 fs) subs
  subnumbers : ∀ gs ∈ subs, ∀ g ∈ gs, g.number < 2 ^ 29

/-- The last occurrence of each member wins. -/
theorem foldl_subStep {gs : List Field} (hnumbers : ∀ g ∈ gs, g.number < 2 ^ 29) (ps : PartialSuccess) :
    gs.foldl subStep ps = {
      rejected := ((varints 1 gs).getLast?.map toInt64).getD ps.rejected
      errorMessage := (lens 2 gs).getLast?.or ps.errorMessage } := by
  induction gs generalizing ps with
  | nil => rfl
  | cons g gs ih =>
    rw [List.forall_mem_cons] at hnumbers
    have hmod : g.number % 2 ^ 32 = g.number := Nat.mod_eq_of_lt (hnumbers.1.trans (by decide))
    rw [List.foldl_cons, ih hnumbers.2]
    cases g with
    | varint n v =>
      by_cases hn : n = 1
      · simp [subStep, hn, rejectedField, List.getLast?_cons]
      · have hstep : subStep ps (.varint n v) = ps := if_neg fun h => hn (hmod.symm.trans h)
        simp [hstep, hn]
    | len n p =>
      by_cases hn : n = 2
      · simp [subStep, hn, errorMessageField, List.getLast?_cons]
      · have hstep : subStep ps (.len n p) = ps := if_neg fun h => hn (hmod.symm.trans h)
        simp [hstep, hn]
    | i64 n v | i32 n v => rfl

theorem foldlM_responseStep {fs : List Field} {subs : List (List Field)} (hnumbers : ∀ f ∈ fs, f.number < 2 ^ 29)
    (hsubs : List.Forall₂ IsMessage (lens 1 fs) subs) (hsubnumbers : ∀ gs ∈ subs, ∀ g ∈ gs, g.number < 2 ^ 29)
    (ps : PartialSuccess) : fs.foldlM responseStep ps = some (subs.flatten.foldl subStep ps) ∧
      fs.any isPartialSuccess = !(lens 1 fs).isEmpty := by
  induction fs generalizing subs ps with
  | nil =>
    cases hsubs
    exact ⟨rfl, rfl⟩
  | cons f fs ih =>
    rw [List.forall_mem_cons] at hnumbers
    have hmod : f.number % 2 ^ 32 = f.number := Nat.mod_eq_of_lt (hnumbers.1.trans (by decide))
    rw [List.foldlM_cons, List.any_cons]
    cases f with
    | len n p =>
      by_cases hn : n = 1
      · subst hn
        rw [lens_cons_len, if_pos rfl] at hsubs ⊢
        cases hsubs with
        | @cons _ gs _ subs hgs hsubs =>
          rw [List.forall_mem_cons] at hsubnumbers
          have hstep : responseStep ps (.len 1 p) = some (gs.foldl subStep ps) := by
            rw [responseStep, if_pos (by decide), decodePartialSuccessSub]
            exact decodeSubLoop_walked (Walked.of_message hgs hsubnumbers.1) (Nat.lt_succ_self _) ps
          obtain ⟨hfold, -⟩ := ih hnumbers.2 hsubs hsubnumbers.2 (gs.foldl subStep ps)
          rw [hstep, List.flatten_cons, List.foldl_append]
          exact ⟨hfold, rfl⟩
      · have hne : ¬n % 2 ^ 32 = partialSuccessField := fun h => hn (hmod.symm.trans h)
        have hstep : responseStep ps (.len n p) = some ps := if_neg hne
        have hpartial : isPartialSuccess (.len n p) = false := decide_eq_false hne
        rw [lens_cons_len, if_neg hn] at hsubs ⊢
        rw [hstep, hpartial, Bool.false_or]
        exact ih hnumbers.2 hsubs hsubnumbers ps
    | varint n v | i64 n v | i32 n v => exact ih hnumbers.2 hsubs hsubnumbers ps

/-- **A well-formed response** is decoded as its `partial_success` submessages, merged: nothing when there is none,
else the last occurrence of each member in any of them. -/
theorem otlpExporterOtelDecodePartialSuccess_response {body : Bytes} {fs : List Field} {subs : List (List Field)}
    (h : IsResponse body fs subs) : otlpExporterOtelDecodePartialSuccess body =
      if lens 1 fs = [] then none
      else some {
        rejected := toInt64 (lastD (varints 1 subs.flatten) 0)
        errorMessage := (lens 2 subs.flatten).getLast? } := by
  obtain ⟨hfold, hany⟩ := foldlM_responseStep h.numbers h.submessages h.subnumbers { rejected := 0, errorMessage := none }
  have hflat : ∀ g ∈ subs.flatten, g.number < 2 ^ 29 := by
    intro g hg
    obtain ⟨gs, hgs, hg⟩ := List.mem_flatten.1 hg
    exact h.subnumbers gs hgs g hg
  have hrejected : ((varints 1 subs.flatten).getLast?.map toInt64).getD 0 =
      toInt64 (lastD (varints 1 subs.flatten) 0) := by
    rw [lastD]
    cases (varints 1 subs.flatten).getLast? <;> rfl
  rw [otlpExporterOtelDecodePartialSuccess_walked (.of_message h.message h.numbers), hfold, hany, Option.bind_some,
    foldl_subStep hflat, hrejected, Option.or_none]
  by_cases hnone : lens 1 fs = []
  · simp [hnone]
  · simp [hnone]

theorem otlpExporterOtelDecodePartialSuccess_two_reports :
    otlpExporterOtelDecodePartialSuccess (message [.varint 9 300, .len 1 (message [.varint 1 5, .len 2 (ascii "full")]),
      .i32 2 0, .len 1 (message [.varint 1 7])]) = some { rejected := 7, errorMessage := some (ascii "full") } := by
  have hresponse : IsResponse (message [.varint 9 300, .len 1 (message [.varint 1 5, .len 2 (ascii "full")]),
      .i32 2 0, .len 1 (message [.varint 1 7])])
      [.varint 9 300, .len 1 (message [.varint 1 5, .len 2 (ascii "full")]), .i32 2 0, .len 1 (message [.varint 1 7])]
      [[.varint 1 5, .len 2 (ascii "full")], [.varint 1 7]] := by
    refine ⟨isMessage_message (by simp) (by decide), by simp [Field.number], ?_, by simp [Field.number]⟩
    exact .cons (isMessage_message (by simp) (by decide)) (.cons (isMessage_message (by simp) (by decide)) .nil)
  rw [otlpExporterOtelDecodePartialSuccess_response hresponse]
  decide

/-! ### Malformed responses -/

/-- The body is not a sequence of complete fields, or one of its `partial_success` submessages is not. -/
def Malformed (body : Bytes) : Prop := ¬∃ fs subs, IsMessage body fs ∧ List.Forall₂ IsMessage (lens 1 fs) subs

/-- The body is a sequence of complete fields but for a bad key at its very end, if any; it has a field that is read
as a `partial_success`, and so are all of these. -/
def CompleteToLastKey (body : Bytes) : Prop :=
  ∃ fs, Walked body fs ∧ (∃ f ∈ fs, isPartialSuccess f = true) ∧
    ∀ n p, Field.len n p ∈ fs → n % 2 ^ 32 = partialSuccessField → ∃ gs, Walked p gs

theorem foldlM_responseStep_isSome (fs : List Field) (ps : PartialSuccess) : (fs.foldlM responseStep ps).isSome ↔
    ∀ n p, Field.len n p ∈ fs → n % 2 ^ 32 = partialSuccessField → ∃ gs, Walked p gs := by
  induction fs generalizing ps with
  | nil => simp
  | cons f fs ih =>
    have hskip : (∀ n p, Field.len n p = f → ¬n % 2 ^ 32 = partialSuccessField) → responseStep ps f = some ps →
        (((f :: fs).foldlM responseStep ps).isSome ↔
          ∀ n p, Field.len n p ∈ f :: fs → n % 2 ^ 32 = partialSuccessField → ∃ gs, Walked p gs) := by
      intro hother hstep
      rw [List.foldlM_cons, hstep]
      refine (ih ps).trans ⟨fun h n p hmem hn => ?_, fun h n p hmem => h n p (List.mem_cons_of_mem f hmem)⟩
      rcases List.mem_cons.1 hmem with heq | hmem
      · exact absurd hn (hother n p heq)
      · exact h n p hmem hn
    cases f with
    | len n p =>
      by_cases hn : n % 2 ^ 32 = partialSuccessField
      · have hsub := decodePartialSuccessSub_isSome ps p
        rw [List.foldlM_cons, responseStep, if_pos hn]
        cases hdecode : decodePartialSuccessSub ps p with
        | none =>
          rw [hdecode] at hsub
          constructor
          · intro h
            cases h
          · intro h
            exact absurd (hsub.2 (h n p List.mem_cons_self hn)) Bool.false_ne_true
        | some ps' =>
          rw [hdecode] at hsub
          refine (ih ps').trans ⟨fun h m q hmem hm => ?_, fun h m q hmem => h m q (List.mem_cons_of_mem _ hmem)⟩
          rcases List.mem_cons.1 hmem with heq | hmem
          · cases heq
            exact hsub.1 rfl
          · exact h m q hmem hm
      · refine hskip (fun m q heq => ?_) (if_neg hn)
        cases heq
        exact hn
    | varint n v | i64 n v | i32 n v => exact hskip (fun m q heq => by cases heq) rfl

/-- **What the decoder accepts**, well formed or not. -/
theorem otlpExporterOtelDecodePartialSuccess_isSome {body : Bytes} :
    (otlpExporterOtelDecodePartialSuccess body).isSome ↔ CompleteToLastKey body := by
  have hwalked : ∀ fs, Walked body fs → ((otlpExporterOtelDecodePartialSuccess body).isSome ↔
      (∃ f ∈ fs, isPartialSuccess f = true) ∧
        ∀ n p, Field.len n p ∈ fs → n % 2 ^ 32 = partialSuccessField → ∃ gs, Walked p gs) := by
    intro fs hfs
    have hsteps := foldlM_responseStep_isSome fs { rejected := 0, errorMessage := none }
    rw [otlpExporterOtelDecodePartialSuccess_walked hfs, ← hsteps, ← List.any_eq_true]
    cases fs.foldlM responseStep { rejected := 0, errorMessage := none } with
    | none => simp
    | some ps => cases fs.any isPartialSuccess <;> simp
  constructor
  · intro h
    obtain ⟨ps, hps⟩ := Option.isSome_iff_exists.1 h
    obtain ⟨fs, hfs⟩ := exists_walked_of_decodeLoop hps
    exact ⟨fs, hfs, (hwalked fs hfs).1 h⟩
  · rintro ⟨fs, hfs, hrest⟩
    exact (hwalked fs hfs).2 hrest

/-- Complete fields and then a bad key, with nothing after it. -/
def Cut (bs : Bytes) (fs : List Field) : Prop := ∃ front tail, bs = front ++ tail ∧ IsMessage front fs ∧ BadKey tail

/-- All that is wrong with the body is a bad key at its end, or at the end of one of its `partial_success`
submessages, of which it has one at least. -/
def BadKeyAtEnd (body : Bytes) : Prop :=
  ∃ fs, Walked body fs ∧ (∃ f ∈ fs, isPartialSuccess f = true) ∧
    (∀ n p, Field.len n p ∈ fs → n % 2 ^ 32 = partialSuccessField → ∃ gs, Walked p gs) ∧
    (Cut body fs ∨ ∃ p ∈ lens 1 fs, ∃ gs, Cut p gs)

theorem Walked.message_or_cut {bs : Bytes} {fs : List Field} (h : Walked bs fs) : IsMessage bs fs ∨ Cut bs fs := by
  induction h with
  | done h =>
    rcases h with rfl | h
    · exact .inl .nil
    · exact .inr ⟨[], _, rfl, .nil, h⟩
  | field hkey hnumber hvalue h ih =>
    rcases ih with ih | ⟨front, tail, rfl, hfront, htail⟩
    · exact .inl (.cons hkey hvalue ih)
    · refine .inr ⟨_, tail, ?_, .cons hkey hvalue hfront, htail⟩
      simp only [List.append_assoc]

theorem exists_forall₂ {α β : Type} {R : α → β → Prop} {xs : List α} (h : ∀ x ∈ xs, ∃ y, R x y) :
    ∃ ys, List.Forall₂ R xs ys := by
  induction xs with
  | nil => exact ⟨[], .nil⟩
  | cons x xs ih =>
    rw [List.forall_mem_cons] at h
    obtain ⟨y, hy⟩ := h.1
    obtain ⟨ys, hys⟩ := ih h.2
    exact ⟨y :: ys, .cons hy hys⟩

theorem mem_lens {n : ℕ} {p : Bytes} {fs : List Field} (h : p ∈ lens n fs) : Field.len n p ∈ fs := by
  obtain ⟨f, hf, hp⟩ := List.mem_filterMap.1 h
  cases f with
  | len m q =>
    simp only [Option.ite_none_right_eq_some, Option.some.injEq] at hp
    obtain ⟨rfl, rfl⟩ := hp
    exact hf
  | varint m v | i64 m v | i32 m v => cases hp

/-- **A malformed body** is accepted when all that is wrong with it is a bad key at an end. -/
theorem malformed_isSome_iff {body : Bytes} (hmalformed : Malformed body) :
    (otlpExporterOtelDecodePartialSuccess body).isSome ↔ BadKeyAtEnd body := by
  rw [otlpExporterOtelDecodePartialSuccess_isSome]
  constructor
  · rintro ⟨fs, hfs, hfound, hsubs⟩
    refine ⟨fs, hfs, hfound, hsubs, or_iff_not_imp_left.2 fun hcut => ?_⟩
    by_contra hnone
    have hmessages : ∀ p ∈ lens 1 fs, ∃ gs, IsMessage p gs := by
      intro p hp
      obtain ⟨gs, hgs⟩ := hsubs 1 p (mem_lens hp) rfl
      exact ⟨gs, hgs.message_or_cut.resolve_right fun hgs => hnone ⟨p, hp, gs, hgs⟩⟩
    obtain ⟨subs, hsubs⟩ := exists_forall₂ hmessages
    exact hmalformed ⟨fs, subs, hfs.message_or_cut.resolve_right hcut, hsubs⟩
  · rintro ⟨fs, hfs, hfound, hsubs, -⟩
    exact ⟨fs, hfs, hfound, hsubs⟩

/-! ### Reading a message from its start -/

/-- What the reader finds at the start of a message. -/
theorem isMessage_read {bs : Bytes} {fs : List Field} (h : IsMessage bs fs) (hne : bs ≠ []) :
    ∃ key t r rest gs, otlpPbReadKey bs = (r, key) ∧ (∀ x, key = some x → x.2 = t) ∧ otlpPbSkip r t = some rest ∧
      r ≠ [] ∧ IsMessage rest gs := by
  cases h with
  | nil => exact absurd rfl hne
  | @cons key p rest f fs hkey hvalue hfs =>
    have hskip := (@otlpPbSkip_some (p ++ rest) rest _ f.number).2 ⟨p, f, rfl, hvalue, rfl, rfl⟩
    obtain ⟨v, hv, hn, ht, -⟩ := hkey
    refine ⟨_, _, p ++ rest, rest, fs, otlpPbReadKey_varint hv _, fun x hx => ?_, hskip,
      List.append_ne_nil_of_left_ne_nil hvalue.ne_nil _, hfs⟩
    split at hx
    · cases hx
    · rw [← Option.some.inj hx]
      exact ht

end OtlpC.Proto
