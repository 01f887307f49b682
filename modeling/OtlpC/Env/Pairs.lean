import OtlpC.Env.Config

/-!
# Lists of pairs from the environment

`kv_foreach` walks a string segment by segment, and its callbacks copy what they are given into the storage.
What ends up there are the pairs of the segments between the commas, each split at its first `=`, or nothing
is published.
-/

namespace OtlpC.Env

open Context (CString CharBuf)

/-! ### The walk -/

/-- The pairs of a string: its segments between commas, split at their first `=`; a segment without one, or with an
empty key, has none. -/
noncomputable def pairsOf (value : Bytes) : List OtlpEnvPair := (value.splitOn comma).filterMap segmentPair

/-- The callback on each of the pairs, up to its first error. -/
def forPairs {σ : Type} (cb : OtlpEnvPair → σ → OtlpStatus × σ) : List OtlpEnvPair → σ → OtlpStatus × σ
  | [], s => (.ok, s)
  | pair :: pairs, s =>
    match cb pair s with
    | (.ok, s) => forPairs cb pairs s
    | failed => failed

theorem segmentPair_eq_some {segment key val : Bytes} :
    segmentPair segment = some ⟨key, val⟩ ↔ segment = key ++ equals :: val ∧ equals ∉ key ∧ key ≠ [] := by
  have hsplit := List.takeWhile_append_dropWhile (p := fun c : UInt8 => c != equals) (l := segment)
  have hnot : equals ∉ segment.takeWhile (· != equals) := fun h => by simpa using List.mem_takeWhile_imp h
  constructor
  · intro h
    unfold segmentPair at h
    rcases Http.dropWhile_ne_cases equals segment with hnil | ⟨rest, hcons⟩
    · rw [hnil] at h
      cases h
    · rw [hcons] at h hsplit
      dsimp only at h
      split_ifs at h with hkey
      cases h
      exact ⟨hsplit.symm, hnot, fun hnil => hkey (List.isEmpty_iff.2 hnil)⟩
  · rintro ⟨rfl, hkey, hne⟩
    have hall : ∀ c ∈ key, (c != equals) = true := by
      intro c hc
      rw [bne_iff_ne]
      rintro rfl
      exact hkey hc
    unfold segmentPair
    rw [List.dropWhile_append_of_pos hall, List.takeWhile_append_of_pos hall]
    simp [hne]

theorem pairsOf_cut {segment rest : Bytes} (h : comma ∉ segment) :
    pairsOf (segment ++ comma :: rest) = (segmentPair segment).toList ++ pairsOf rest := by
  unfold pairsOf
  rw [List.splitOn_append_cons_self_of_not_mem h, List.filterMap_cons]
  cases segmentPair segment <;> rfl

theorem pairsOf_last {segment : Bytes} (h : comma ∉ segment) :
    pairsOf segment = (segmentPair segment).toList := by
  unfold pairsOf
  rw [List.splitOn_eq_singleton h, List.filterMap_cons]
  cases segmentPair segment <;> rfl

@[simp] theorem pairsOf_nil : pairsOf [] = [] := pairsOf_last List.not_mem_nil

theorem pairsOf_eq (value : Bytes) :
    pairsOf value = (segmentPair (value.takeWhile (· != comma))).toList ++
      pairsOf ((value.dropWhile (· != comma)).drop 1) := by
  have hsplit := List.takeWhile_append_dropWhile (p := fun c : UInt8 => c != comma) (l := value)
  have hnot : comma ∉ value.takeWhile (· != comma) := fun h => by simpa using List.mem_takeWhile_imp h
  rcases Http.dropWhile_ne_cases comma value with hnil | ⟨rest, hcons⟩
  · rw [hnil, List.append_nil] at hsplit
    rw [hnil, List.drop_nil, pairsOf_nil, List.append_nil, ← pairsOf_last hnot, hsplit]
  · rw [hcons] at hsplit ⊢
    rw [List.drop_one, List.tail_cons, ← pairsOf_cut hnot, hsplit]

/-- **The walk gives the callback the pairs of the string**, in their order. -/
theorem kvForeach_eq {σ : Type} (cb : OtlpEnvPair → σ → OtlpStatus × σ) (value : Bytes) (s : σ) :
    kvForeach cb value s = forPairs cb (pairsOf value) s := by
  fun_induction kvForeach cb value s with
  | case1 s => simp [forPairs]
  | case2 seg s hne segment next hnone ih =>
    rw [ih, pairsOf_eq seg, hnone]
    rfl
  | case3 seg s hne segment next pair hpair s' hok ih =>
    rw [ih, pairsOf_eq seg, hpair, Option.toList_some, List.singleton_append, forPairs, hok]
  | case4 seg s hne segment pair hpair hfailed =>
    rw [pairsOf_eq seg, hpair, Option.toList_some, List.singleton_append, forPairs]
    split
    · next s' hok => exact absurd hok (hfailed s')
    · rfl

/-! ### The storage -/

def OtlpEnvPair.Fits (pair : OtlpEnvPair) : Prop := pair.key.length < keyMax ∧ pair.val.length < valueMax

def OtlpEnvPair.NoNul (pair : OtlpEnvPair) : Prop := 0 ∉ pair.key ∧ 0 ∉ pair.val

/-- The rows in use have the pairs, and each item points to its own row. -/
structure Filled (t : PairStore) (pairs : List OtlpEnvPair) : Prop where
  n_eq : t.n = pairs.length
  le_max : pairs.length ≤ maxPairs
  row : ∀ i (hi : i < pairs.length) (hmax : i < maxPairs), t.items[i] = (⟨i, hmax⟩, ⟨i, hmax⟩) ∧
    t.keys[i].text.bytes = pairs[i].key ∧ t.vals[i].text.bytes = pairs[i].val

theorem copyString_bytes {max : ℕ} {s : Bytes} (h : s.length < max) (hnul : 0 ∉ s) :
    (copyString s h).text.bytes = s := by
  refine List.takeWhile_eq_self_iff.2 fun c hc => ?_
  rw [bne_iff_ne]
  rintro rfl
  exact hnul hc

theorem Filled.empty (t : PairStore) : Filled { t with n := 0 } [] where
  n_eq := rfl
  le_max := Nat.zero_le _
  row i hi := absurd hi (Nat.not_lt_zero i)

theorem storePair_of_fits {t : PairStore} {pair : OtlpEnvPair} (hn : t.n < maxPairs)
    (h : pair.key.length < keyMax ∧ pair.val.length < valueMax) : storePair pair t = (.ok, {
      keys := t.keys.set t.n (copyString pair.key h.1)
      vals := t.vals.set t.n (copyString pair.val h.2)
      items := t.items.set t.n (⟨t.n, hn⟩, ⟨t.n, hn⟩)
      n := t.n + 1 }) := by
  rw [storePair, dif_pos hn, dif_pos h]

theorem Filled.store {t : PairStore} {pairs : List OtlpEnvPair} {pair : OtlpEnvPair} (h : Filled t pairs)
    (hroom : pairs.length < maxPairs) (hfits : pair.Fits) (hnul : pair.NoNul) :
    ∃ t', storePair pair t = (.ok, t') ∧ Filled t' (pairs ++ [pair]) := by
  have hn : t.n < maxPairs := h.n_eq ▸ hroom
  refine ⟨_, storePair_of_fits hn hfits, ?_, ?_, fun i hi hmax => ?_⟩
  · rw [List.length_append, List.length_singleton, ← h.n_eq]
  · rw [List.length_append, List.length_singleton]
    exact hroom
  · rw [List.length_append, List.length_singleton] at hi
    by_cases hlast : i = pairs.length
    · subst hlast
      simp only [h.n_eq, Vector.getElem_set_self, List.getElem_concat_length, true_and]
      exact ⟨copyString_bytes _ hnul.1, copyString_bytes _ hnul.2⟩
    · have hlt : i < pairs.length := by omega
      have hne : t.n ≠ i := by
        rw [h.n_eq]
        exact Ne.symm hlast
      simp only [Vector.getElem_set_ne _ _ hne, List.getElem_append_left hlt]
      exact h.row i hlt hmax

/-- A pair that does not fit, or comes when all rows are in use, is refused. -/
theorem Filled.refuse {t : PairStore} {pairs : List OtlpEnvPair} {pair : OtlpEnvPair} (h : Filled t pairs)
    (hnot : ¬(pairs.length < maxPairs ∧ pair.Fits)) : storePair pair t = (.errOverflow, t) := by
  unfold storePair
  by_cases hn : t.n < maxPairs
  · rw [dif_pos hn, dif_neg]
    exact fun hfits => hnot ⟨h.n_eq ▸ hn, hfits⟩
  · rw [dif_neg hn]

def WithinLimits (pairs : List OtlpEnvPair) : Prop := pairs.length ≤ maxPairs ∧ ∀ pair ∈ pairs, pair.Fits

/-- **The pairs are stored exactly when they are within the limits.** -/
theorem Filled.forPairs {t : PairStore} {stored pairs : List OtlpEnvPair} (h : Filled t stored)
    (hnul : ∀ pair ∈ pairs, pair.NoNul) :
    ((stored.length + pairs.length ≤ maxPairs ∧ ∀ pair ∈ pairs, pair.Fits) →
        ∃ t', forPairs storePair pairs t = (.ok, t') ∧ Filled t' (stored ++ pairs)) ∧
      (¬(stored.length + pairs.length ≤ maxPairs ∧ ∀ pair ∈ pairs, pair.Fits) →
        (Env.forPairs storePair pairs t).1 = .errOverflow) := by
  induction pairs generalizing t stored with
  | nil =>
    refine ⟨fun _ => ⟨t, rfl, by rwa [List.append_nil]⟩, fun hnot => absurd ⟨h.le_max, ?_⟩ hnot⟩
    exact fun pair hpair => absurd hpair List.not_mem_nil
  | cons pair pairs ih =>
    rw [List.forall_mem_cons] at hnul
    rw [List.forall_mem_cons, List.length_cons]
    by_cases hroom : stored.length < maxPairs ∧ pair.Fits
    · obtain ⟨t', hstore, hfilled⟩ := h.store hroom.1 hroom.2 hnul.1
      obtain ⟨hok, hoverflow⟩ := ih hfilled hnul.2
      rw [List.length_append, List.length_singleton] at hok hoverflow
      rw [Env.forPairs, hstore]
      dsimp only
      constructor
      · rintro ⟨hle, -, hfits⟩
        obtain ⟨t'', hrun, hfilled'⟩ := hok ⟨by omega, hfits⟩
        rw [List.append_assoc] at hfilled'
        exact ⟨t'', hrun, hfilled'⟩
      · exact fun hnot => hoverflow fun hwithin => hnot ⟨by omega, hroom.2, hwithin.2⟩
    · rw [Env.forPairs, h.refuse hroom]
      refine ⟨?_, fun _ => rfl⟩
      rintro ⟨hle, hfits, -⟩
      exact absurd ⟨by omega, hfits⟩ hroom

/-- A callback that works on a part of the state walks as one on the part. -/
theorem forPairs_part {σ τ : Type} {cb : OtlpEnvPair → σ → OtlpStatus × σ} {part : OtlpEnvPair → τ → OtlpStatus × τ}
    {get : σ → τ} {set : τ → σ → σ} (hset : ∀ s, set (get s) s = s) (hget : ∀ t s, get (set t s) = t)
    (hsetset : ∀ t t' s, set t' (set t s) = set t' s)
    (hcb : ∀ pair s, cb pair s = ((part pair (get s)).1, set (part pair (get s)).2 s)) (pairs : List OtlpEnvPair)
    (s : σ) : forPairs cb pairs s =
      ((forPairs part pairs (get s)).1, set (forPairs part pairs (get s)).2 s) := by
  induction pairs generalizing s with
  | nil => rw [forPairs, forPairs, hset]
  | cons pair pairs ih =>
    rw [forPairs, forPairs, hcb]
    generalize part pair (get s) = r
    obtain ⟨status, t⟩ := r
    by_cases hok : status = .ok
    · subst hok
      dsimp only
      rw [ih, hget, hsetset]
    · cases status <;> first | exact absurd rfl hok | rfl

theorem forPairs_attrsOne (pairs : List OtlpEnvPair) (st : OtlpEnvStorage) :
    forPairs attrsOne pairs st =
      ((forPairs storePair pairs st.attrs).1, { st with attrs := (forPairs storePair pairs st.attrs).2 }) :=
  @forPairs_part _ _ attrsOne storePair OtlpEnvStorage.attrs (fun attrs st => { st with attrs }) (fun _ => rfl)
    (fun _ _ => rfl) (fun _ _ _ => rfl) (fun _ _ => rfl) pairs st

theorem forPairs_headersOne (pairs : List OtlpEnvPair) (st : OtlpEnvStorage) :
    forPairs headersOne pairs st = ((forPairs storePair pairs st.httpHeaders).1,
      { st with httpHeaders := (forPairs storePair pairs st.httpHeaders).2 }) :=
  @forPairs_part _ _ headersOne storePair OtlpEnvStorage.httpHeaders
    (fun httpHeaders st => { st with httpHeaders }) (fun _ => rfl) (fun _ _ => rfl) (fun _ _ _ => rfl)
    (fun _ _ => rfl) pairs st

/-! ### What the options say -/

/-- The first `n` items of the array, with the strings they point to. -/
def PairStore.list (t : PairStore) (n : ℕ) : List OtlpEnvPair :=
  (t.items.toList.take n).map fun item => ⟨t.keys[item.1].text.bytes, t.vals[item.2].text.bytes⟩

theorem Filled.list_eq {t : PairStore} {pairs : List OtlpEnvPair} (h : Filled t pairs) : t.list t.n = pairs := by
  unfold PairStore.list
  rw [h.n_eq]
  have hle := h.le_max
  have hlen : ((t.items.toList.take pairs.length).map fun item =>
      (⟨t.keys[item.1].text.bytes, t.vals[item.2].text.bytes⟩ : OtlpEnvPair)).length = pairs.length := by
    rw [List.length_map, List.length_take, Vector.length_toList]
    omega
  refine List.ext_getElem hlen fun i hi hi' => ?_
  obtain ⟨hitem, hkey, hval⟩ := h.row i hi' (by omega)
  rw [List.getElem_map, List.getElem_take, Vector.getElem_toList, hitem]
  rw [OtlpEnvPair.mk.injEq]
  exact ⟨hkey, hval⟩

/-- The resource attributes that the options point to, when they are in the storage. -/
def OtlpExporterOpts.storedAttributes (opts : OtlpExporterOpts) (st : OtlpEnvStorage) :
    Option (List OtlpEnvPair) :=
  match opts.resourceAttributes with
  | .storage => some (st.attrs.list opts.nResourceAttributes)
  | .elsewhere _ => none

def OtlpExporterOpts.storedHeaders (opts : OtlpExporterOpts) (st : OtlpEnvStorage) : Option (List OtlpEnvPair) :=
  match opts.httpHeaders with
  | .storage => some (st.httpHeaders.list opts.nHttpHeaders)
  | .elsewhere _ => none

theorem mem_intercalate {sep l : Bytes} {ls : List Bytes} (hl : l ∈ ls) {c : UInt8} (hc : c ∈ l) :
    c ∈ sep.intercalate ls := by
  induction ls with
  | nil => exact absurd hl List.not_mem_nil
  | cons head ls ih =>
    cases ls with
    | nil =>
      obtain rfl := List.mem_singleton.1 hl
      simpa using hc
    | cons next ls =>
      rw [List.intercalate_cons_cons]
      rcases List.mem_cons.1 hl with rfl | hl
      · exact List.mem_append_left _ (List.mem_append_left _ hc)
      · exact List.mem_append_right _ (ih hl)

theorem pairsOf_noNul {value : CString} {pair : OtlpEnvPair} (h : pair ∈ pairsOf value.bytes) : pair.NoNul := by
  unfold pairsOf at h
  obtain ⟨segment, hsegment, hpair⟩ := List.mem_filterMap.1 h
  have hsub : ∀ c ∈ segment, c ∈ value.bytes := by
    intro c hc
    have hmem := @mem_intercalate [comma] _ _ hsegment _ hc
    rwa [List.intercalate_splitOn] at hmem
  obtain ⟨key, val⟩ := pair
  obtain ⟨rfl, -, -⟩ := segmentPair_eq_some.1 hpair
  exact ⟨fun h => value.no_nul (hsub 0 (List.mem_append_left _ h)),
    fun h => value.no_nul (hsub 0 (List.mem_append_right _ (List.mem_cons_of_mem _ h)))⟩

/-! ### The parsers -/

section Parsers

variable {opts : OtlpExporterOpts} {st : OtlpEnvStorage} {value : CString}

theorem forPairs_within (h : WithinLimits (pairsOf value.bytes)) (t : PairStore) :
    ∃ t', forPairs storePair (pairsOf value.bytes) { t with n := 0 } = (.ok, t') ∧
      t'.n = (pairsOf value.bytes).length ∧ t'.list (pairsOf value.bytes).length = pairsOf value.bytes := by
  obtain ⟨t', hrun, hfilled⟩ := ((Filled.empty t).forPairs fun _ hpair => pairsOf_noNul hpair).1
    ⟨by simpa using h.1, h.2⟩
  rw [List.nil_append] at hfilled
  exact ⟨t', hrun, hfilled.n_eq, hfilled.n_eq ▸ hfilled.list_eq⟩

theorem forPairs_beyond (h : ¬WithinLimits (pairsOf value.bytes)) (t : PairStore) :
    (forPairs storePair (pairsOf value.bytes) { t with n := 0 }).1 = .errOverflow :=
  ((Filled.empty t).forPairs fun _ hpair => pairsOf_noNul hpair).2
    fun hwithin => h ⟨by simpa using hwithin.1, hwithin.2⟩

theorem byteAt_zero_beq (hne : value.bytes ≠ []) : ¬(value.byteAt 0 == 0) = true := by
  rw [beq_iff_eq]
  exact bne_iff_ne.1 (Context.byteAt_zero_ne.2 hne)

def OtlpExporterOpts.withAttributes (opts : OtlpExporterOpts) (n : ℕ) : OtlpExporterOpts :=
  { opts with resourceAttributes := .storage, nResourceAttributes := n }

def OtlpExporterOpts.withHeaders (opts : OtlpExporterOpts) (n : ℕ) : OtlpExporterOpts :=
  { opts with httpHeaders := .storage, nHttpHeaders := n }

theorem resourceAttrs_ok (hne : value.bytes ≠ []) (h : WithinLimits (pairsOf value.bytes)) :
    ∃ st', otlpEnvApplyResourceAttrs (some opts) (some value) (some st) =
        (.ok, some (opts.withAttributes (pairsOf value.bytes).length), some st') ∧
      (opts.withAttributes (pairsOf value.bytes).length).storedAttributes st' = some (pairsOf value.bytes) := by
  obtain ⟨t', hrun, hn, hlist⟩ := forPairs_within h st.attrs
  have hwalk : kvForeach attrsOne value.bytes { st with attrs.n := 0 } = (.ok, { st with attrs := t' }) := by
    rw [kvForeach_eq, forPairs_attrsOne, hrun]
  refine ⟨{ st with attrs := t' }, ?_, congrArg some hlist⟩
  rw [otlpEnvApplyResourceAttrs]
  dsimp only
  rw [if_neg (byteAt_zero_beq hne), hwalk]
  dsimp only
  rw [hn]
  rfl

theorem resourceAttrs_overflow (hne : value.bytes ≠ []) (h : ¬WithinLimits (pairsOf value.bytes)) :
    ∃ st', otlpEnvApplyResourceAttrs (some opts) (some value) (some st) =
      (.errOverflow, some opts, some st') := by
  have hwalk := kvForeach_eq attrsOne value.bytes { st with attrs.n := 0 }
  rw [forPairs_attrsOne, forPairs_beyond h] at hwalk
  rw [otlpEnvApplyResourceAttrs]
  dsimp only
  rw [if_neg (byteAt_zero_beq hne), hwalk]
  exact ⟨_, rfl⟩

theorem otlpHeaders_ok (hne : value.bytes ≠ []) (h : WithinLimits (pairsOf value.bytes)) :
    ∃ st', otlpEnvApplyOtlpHeaders (some opts) (some value) (some st) =
        (.ok, some (opts.withHeaders (pairsOf value.bytes).length), some st') ∧
      (opts.withHeaders (pairsOf value.bytes).length).storedHeaders st' = some (pairsOf value.bytes) := by
  obtain ⟨t', hrun, hn, hlist⟩ := forPairs_within h st.httpHeaders
  have hwalk : kvForeach headersOne value.bytes { st with httpHeaders.n := 0 } =
      (.ok, { st with httpHeaders := t' }) := by
    rw [kvForeach_eq, forPairs_headersOne, hrun]
  refine ⟨{ st with httpHeaders := t' }, ?_, congrArg some hlist⟩
  rw [otlpEnvApplyOtlpHeaders]
  dsimp only
  rw [if_neg (byteAt_zero_beq hne), hwalk]
  dsimp only
  rw [hn]
  rfl

theorem otlpHeaders_overflow (hne : value.bytes ≠ []) (h : ¬WithinLimits (pairsOf value.bytes)) :
    ∃ st', otlpEnvApplyOtlpHeaders (some opts) (some value) (some st) = (.errOverflow, some opts, some st') := by
  have hwalk := kvForeach_eq headersOne value.bytes { st with httpHeaders.n := 0 }
  rw [forPairs_headersOne, forPairs_beyond h] at hwalk
  rw [otlpEnvApplyOtlpHeaders]
  dsimp only
  rw [if_neg (byteAt_zero_beq hne), hwalk]
  exact ⟨_, rfl⟩

end Parsers

/-! ### Joined pairs -/

def joinText (pairs : List (CString × CString)) : Bytes :=
  [comma].intercalate (pairs.map fun pair => pair.1.bytes ++ equals :: pair.2.bytes)

theorem mem_of_mem_intercalate {sep : Bytes} {ls : List Bytes} {c : UInt8} (h : c ∈ sep.intercalate ls) :
    c ∈ sep ∨ ∃ l ∈ ls, c ∈ l := by
  induction ls with
  | nil => simp at h
  | cons head ls ih =>
    cases ls with
    | nil => exact .inr ⟨head, List.mem_singleton.2 rfl, by simpa using h⟩
    | cons next ls =>
      rw [List.intercalate_cons_cons, List.mem_append, List.mem_append] at h
      rcases h with (hhead | hsep) | hrest
      · exact .inr ⟨head, List.mem_cons_self, hhead⟩
      · exact .inl hsep
      · exact (ih hrest).imp id fun ⟨l, hl, hc⟩ => ⟨l, List.mem_cons_of_mem _ hl, hc⟩

def joinPairs (pairs : List (CString × CString)) : CString where
  bytes := joinText pairs
  no_nul h := by
    rcases mem_of_mem_intercalate h with hsep | ⟨l, hl, hmem⟩
    · exact absurd hsep (by decide)
    · obtain ⟨pair, -, rfl⟩ := List.mem_map.1 hl
      rcases List.mem_append.1 hmem with hkey | hval
      · exact pair.1.no_nul hkey
      · rcases List.mem_cons.1 hval with heq | hval
        · exact absurd heq (by decide)
        · exact pair.2.no_nul hval

/-- The pairs can be told apart once they are joined. -/
def Separable (pairs : List (CString × CString)) : Prop :=
  ∀ pair ∈ pairs, pair.1.bytes ≠ [] ∧ comma ∉ pair.1.bytes ∧ equals ∉ pair.1.bytes ∧ comma ∉ pair.2.bytes

def asFound (pairs : List (CString × CString)) : List OtlpEnvPair :=
  pairs.map fun pair => ⟨pair.1.bytes, pair.2.bytes⟩

/-- **What is joined is found again.** -/
theorem pairsOf_join {pairs : List (CString × CString)} (h : Separable pairs) :
    pairsOf (joinPairs pairs).bytes = asFound pairs := by
  by_cases hnil : pairs = []
  · subst hnil
    exact pairsOf_nil
  · have hsplit : (joinPairs pairs).bytes.splitOn comma =
        pairs.map fun pair => pair.1.bytes ++ equals :: pair.2.bytes := by
      refine List.splitOn_intercalate comma (fun l hl => ?_) fun hmap => hnil (List.map_eq_nil_iff.1 hmap)
      obtain ⟨pair, hpair, rfl⟩ := List.mem_map.1 hl
      obtain ⟨-, hkey, -, hval⟩ := h pair hpair
      rw [List.mem_append, List.mem_cons, not_or, not_or]
      exact ⟨hkey, by decide, hval⟩
    rw [pairsOf, hsplit, List.filterMap_map]
    have hpair : ∀ pair ∈ pairs, (segmentPair ∘ fun pair : CString × CString =>
        pair.1.bytes ++ equals :: pair.2.bytes) pair = some ⟨pair.1.bytes, pair.2.bytes⟩ := by
      intro pair hmem
      obtain ⟨hne, -, hkey, -⟩ := h pair hmem
      exact segmentPair_eq_some.2 ⟨rfl, hkey, hne⟩
    rw [List.filterMap_congr hpair, List.filterMap_eq_map']
    rfl

theorem joinPairs_ne_nil {pairs : List (CString × CString)} (h : pairs ≠ []) : (joinPairs pairs).bytes ≠ [] := by
  obtain ⟨pair, rest, rfl⟩ := List.exists_cons_of_ne_nil h
  intro hnil
  have hmem : equals ∈ (joinPairs (pair :: rest)).bytes :=
    mem_intercalate List.mem_cons_self (List.mem_append_right _ List.mem_cons_self)
  rw [hnil] at hmem
  exact absurd hmem List.not_mem_nil

/-- **Both lists are parsed as the pairs of their segments**, or refused with the options as they were; a segment has
a pair when there is an `=` in it, its first one, with a key before it; and joined pairs are parsed as what was
joined. -/
theorem env_pairs_parsed :
    (∀ segment key val, segmentPair segment = some ⟨key, val⟩ ↔
      segment = key ++ equals :: val ∧ equals ∉ key ∧ key ≠ []) ∧
    (∀ opts st (value : CString), value.bytes ≠ [] →
      (WithinLimits (pairsOf value.bytes) →
        (∃ opts' st', otlpEnvApplyResourceAttrs (some opts) (some value) (some st) =
            (.ok, some opts', some st') ∧ opts'.storedAttributes st' = some (pairsOf value.bytes)) ∧
          ∃ opts' st', otlpEnvApplyOtlpHeaders (some opts) (some value) (some st) =
            (.ok, some opts', some st') ∧ opts'.storedHeaders st' = some (pairsOf value.bytes)) ∧
      (¬WithinLimits (pairsOf value.bytes) →
        (∃ st', otlpEnvApplyResourceAttrs (some opts) (some value) (some st) =
            (.errOverflow, some opts, some st')) ∧
          ∃ st', otlpEnvApplyOtlpHeaders (some opts) (some value) (some st) =
            (.errOverflow, some opts, some st'))) ∧
    ∀ pairs, Separable pairs → WithinLimits (asFound pairs) →
      pairsOf (joinPairs pairs).bytes = asFound pairs ∧
        (pairs ≠ [] → ∀ opts st,
          (∃ opts' st', otlpEnvApplyResourceAttrs (some opts) (some (joinPairs pairs)) (some st) =
              (.ok, some opts', some st') ∧ opts'.storedAttributes st' = some (asFound pairs)) ∧
            ∃ opts' st', otlpEnvApplyOtlpHeaders (some opts) (some (joinPairs pairs)) (some st) =
              (.ok, some opts', some st') ∧ opts'.storedHeaders st' = some (asFound pairs)) := by
  refine ⟨fun segment key val => segmentPair_eq_some, fun opts st value hne => ⟨fun h => ?_, fun h => ?_⟩,
    fun pairs hsep hwithin => ?_⟩
  · exact ⟨⟨_, resourceAttrs_ok hne h⟩, _, otlpHeaders_ok hne h⟩
  · exact ⟨resourceAttrs_overflow hne h, otlpHeaders_overflow hne h⟩
  · have hpairs := pairsOf_join hsep
    refine ⟨hpairs, fun hnil opts st => ?_⟩
    have hne := joinPairs_ne_nil hnil
    rw [← hpairs] at hwithin ⊢
    exact ⟨⟨_, resourceAttrs_ok hne hwithin⟩, _, otlpHeaders_ok hne hwithin⟩

/-- `service.version=1.2` and `a=x=y`, as resource attributes. -/
theorem env_pairs_parsed_two : ∃ opts' st',
    otlpEnvApplyResourceAttrs (some .zero) (some (joinPairs
      [(⟨ascii "service.version", by decide⟩, ⟨ascii "1.2", by decide⟩),
        (⟨ascii "a", by decide⟩, ⟨ascii "x=y", by decide⟩)])) (some .zero) = (.ok, some opts', some st') ∧
      opts'.storedAttributes st' =
        some [⟨ascii "service.version", ascii "1.2"⟩, ⟨ascii "a", ascii "x=y"⟩] := by
  have hsep : Separable [(⟨ascii "service.version", by decide⟩, ⟨ascii "1.2", by decide⟩),
      (⟨ascii "a", by decide⟩, ⟨ascii "x=y", by decide⟩)] := by
    unfold Separable
    simp only [List.forall_mem_cons]
    decide
  have hwithin : WithinLimits [⟨ascii "service.version", ascii "1.2"⟩, ⟨ascii "a", ascii "x=y"⟩] := by
    refine ⟨by decide, ?_⟩
    simp only [List.forall_mem_cons, OtlpEnvPair.Fits]
    decide
  exact ((env_pairs_parsed.2.2 _ hsep hwithin).2 (List.cons_ne_nil _ _) .zero .zero).1

end OtlpC.Env
