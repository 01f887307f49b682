import OtlpC.Proto.BufferMemory

/-!
# Append operations that fail

An `otlp_pb_*` operation is a sequence of `buf_append` calls that stops at the first one that fails. One call fails
without a trace, but what the calls before it appended stays: an operation is atomic just when its first call fails
or none does.
-/

namespace OtlpC.Proto

open Api

/-! ### The operations -/

/-- A call of one of the functions that append. -/
inductive PbOp where
  | varint (v : UInt64)
  | fixed64 (v : UInt64)
  | fixed32 (v : UInt32)
  | bytes (data : PbData)
  | string (str : Option Bytes)
  | tag (fieldNumber wireType : UInt32)
  | fieldVarint (fieldNum : UInt32) (value : UInt64)
  | fieldFixed64 (fieldNum : UInt32) (value : UInt64)
  | fieldFixed32 (fieldNum value : UInt32)
  | fieldString (fieldNum : UInt32) (str : Option Bytes)
  | fieldBytes (fieldNum : UInt32) (data : PbData)
  | fieldMessage (fieldNum : UInt32) (data : PbData)

def PbOp.run : PbOp → Enc
  | varint v => otlpPbVarint v
  | fixed64 v => otlpPbFixed64 v
  | fixed32 v => otlpPbFixed32 v
  | bytes data => otlpPbBytes data
  | string str => otlpPbString str
  | tag n w => otlpPbTag n w
  | fieldVarint n v => otlpPbFieldVarint n v
  | fieldFixed64 n v => otlpPbFieldFixed64 n v
  | fieldFixed32 n v => otlpPbFieldFixed32 n v
  | fieldString n str => otlpPbFieldString n str
  | fieldBytes n data => otlpPbFieldBytes n data
  | fieldMessage n data => otlpPbFieldMessage n data

/-! ### Their calls of `buf_append` -/

def varintData (v : UInt64) : PbData := .bytes (clearLast (varintTmp 10 v))

def fixed64Data (v : UInt64) : PbData := .bytes ((List.range 8).map fun i => (v >>> (UInt64.ofNat i * 8)).toUInt8)

def fixed32Data (v : UInt32) : PbData := .bytes ((List.range 4).map fun i => (v >>> (UInt32.ofNat i * 8)).toUInt8)

def tagCalls (fieldNumber wireType : UInt32) : Except OtlpStatus (List PbData) :=
  if fieldNumber = 0 then .error .errInvalidArgument
  else if wireType ≠ otlpPbWireVarint ∧ wireType ≠ otlpPbWireFixed64 ∧ wireType ≠ otlpPbWireLen ∧
      wireType ≠ otlpPbWireFixed32 then .error .errInvalidArgument
  else .ok [varintData (fieldNumber.toUInt64 <<< 3 ||| wireType.toUInt64)]

def bytesCalls (data : PbData) : List PbData :=
  varintData (UInt64.ofNat data.len) :: if data.len ≠ 0 then [data] else []

/-- The tag and the value, which is left out when it is the default. -/
def fieldCalls (isDefault : Bool) (fieldNum wireType : UInt32) (value : List PbData) :
    Except OtlpStatus (List PbData) :=
  if isDefault then .ok [] else (tagCalls fieldNum wireType).map (· ++ value)

def strData (str : Option Bytes) : PbData := (str.map PbData.bytes).getD (.null 0)

/-- What an operation passes to `buf_append`, in order, or the status with which it returns before that. -/
def PbOp.calls : PbOp → Except OtlpStatus (List PbData)
  | varint v => .ok [varintData v]
  | fixed64 v => .ok [fixed64Data v]
  | fixed32 v => .ok [fixed32Data v]
  | bytes data => .ok (bytesCalls data)
  | string str => .ok (bytesCalls (strData str))
  | tag n w => tagCalls n w
  | fieldVarint n v => fieldCalls (v == 0) n otlpPbWireVarint [varintData v]
  | fieldFixed64 n v => fieldCalls (v == 0) n otlpPbWireFixed64 [fixed64Data v]
  | fieldFixed32 n v => fieldCalls (v == 0) n otlpPbWireFixed32 [fixed32Data v]
  | fieldString n str => fieldCalls ((strData str).len == 0) n otlpPbWireLen (bytesCalls (strData str))
  | fieldBytes n data => fieldCalls (data.len == 0) n otlpPbWireLen (bytesCalls data)
  | fieldMessage n data =>
    fieldCalls (data.len == 0) n otlpPbWireLen [varintData (UInt64.ofNat data.len), data]

def runCalls : Except OtlpStatus (List PbData) → Enc
  | .error st => .fail st
  | .ok ds => .each bufAppend ds

theorem andThen_apply (f g : Enc) (h : Heap) (b : PbBuf) :
    (f >> g) h b = if (f h b).1 = .ok then g (f h b).2.2 (f h b).2.1 else f h b := by
  rcases hf : f h b with ⟨st, b', h'⟩
  simp only [HAndThen.hAndThen, AndThen.andThen, hf]
  cases st <;> rfl

theorem andThen_done (f : Enc) : (f >> Enc.done) = f := by
  funext h b
  rw [andThen_apply]
  split
  · next hok => exact Prod.ext hok.symm rfl
  · rfl

theorem andThen_assoc (f g k : Enc) : ((f >> g) >> k) = (f >> (g >> k)) := by
  funext h b
  simp only [andThen_apply]
  split
  · rfl
  · rfl

theorem done_andThen (f : Enc) : (Enc.done >> f) = f := by
  funext h b
  rw [andThen_apply]
  rfl

theorem fail_andThen {st : OtlpStatus} (hst : st ≠ .ok) (f : Enc) : (Enc.fail st >> f) = .fail st := by
  funext h b
  rw [andThen_apply]
  exact if_neg hst

theorem each_append {α : Type} (f : α → Enc) (xs ys : List α) :
    Enc.each f (xs ++ ys) = (Enc.each f xs >> Enc.each f ys) := by
  induction xs with
  | nil => exact (done_andThen _).symm
  | cons x xs ih =>
    change (f x >> Enc.each f (xs ++ ys)) = ((f x >> Enc.each f xs) >> Enc.each f ys)
    rw [ih, andThen_assoc]

theorem each_singleton {α : Type} (f : α → Enc) (x : α) : Enc.each f [x] = f x := andThen_done (f x)

theorem tag_eq_runCalls (n w : UInt32) : otlpPbTag n w = runCalls (tagCalls n w) := by
  unfold otlpPbTag tagCalls
  split
  · rfl
  · split
    · rfl
    · exact (each_singleton bufAppend _).symm

theorem bytes_eq_each (data : PbData) : otlpPbBytes data = .each bufAppend (bytesCalls data) := by
  unfold otlpPbBytes bytesCalls Enc.onlyIf
  by_cases hlen : data.len = 0
  · simp only [hlen, ne_eq, not_true_eq_false, decide_false, Bool.false_eq_true, if_false]
    rfl
  · simp only [hlen, ne_eq, not_false_eq_true, decide_true, if_true]
    change _ = (bufAppend _ >> Enc.each bufAppend [data])
    rw [each_singleton]
    rfl

theorem tag_andThen_each (n w : UInt32) (value : List PbData) :
    (otlpPbTag n w >> Enc.each bufAppend value) = runCalls ((tagCalls n w).map (· ++ value)) := by
  rw [tag_eq_runCalls]
  unfold tagCalls
  split
  · exact fail_andThen (by decide) _
  · split
    · exact fail_andThen (by decide) _
    · exact (each_append bufAppend _ value).symm

theorem field_eq_runCalls {isDefault : Prop} [Decidable isDefault] (n w : UInt32) (value : List PbData) :
    (if isDefault then Enc.done else otlpPbTag n w >> Enc.each bufAppend value) =
      runCalls (fieldCalls (decide isDefault) n w value) := by
  unfold fieldCalls
  by_cases hdefault : isDefault
  · rw [if_pos hdefault, if_pos (decide_eq_true hdefault)]
    rfl
  · rw [if_neg hdefault, if_neg (by simpa using hdefault)]
    exact tag_andThen_each n w value

/-- **The operations make these calls.** -/
theorem PbOp.run_eq (op : PbOp) : op.run = runCalls op.calls := by
  cases op with
  | varint v => exact (each_singleton bufAppend (varintData v)).symm
  | fixed64 v => exact (each_singleton bufAppend (fixed64Data v)).symm
  | fixed32 v => exact (each_singleton bufAppend (fixed32Data v)).symm
  | bytes data => exact bytes_eq_each data
  | string str => exact bytes_eq_each (strData str)
  | tag n w => exact tag_eq_runCalls n w
  | fieldVarint n v =>
    change (if v = 0 then Enc.done else otlpPbTag n otlpPbWireVarint >> otlpPbVarint v) = _
    rw [show otlpPbVarint v = .each bufAppend [varintData v] from (each_singleton bufAppend _).symm]
    exact field_eq_runCalls n otlpPbWireVarint _
  | fieldFixed64 n v =>
    change (if v = 0 then Enc.done else otlpPbTag n otlpPbWireFixed64 >> otlpPbFixed64 v) = _
    rw [show otlpPbFixed64 v = .each bufAppend [fixed64Data v] from (each_singleton bufAppend _).symm]
    exact field_eq_runCalls n otlpPbWireFixed64 _
  | fieldFixed32 n v =>
    change (if v = 0 then Enc.done else otlpPbTag n otlpPbWireFixed32 >> otlpPbFixed32 v) = _
    rw [show otlpPbFixed32 v = .each bufAppend [fixed32Data v] from (each_singleton bufAppend _).symm]
    exact field_eq_runCalls n otlpPbWireFixed32 _
  | fieldString n str =>
    rcases str with - | - | ⟨c, cs⟩
    · rfl
    · rfl
    · change (otlpPbTag n otlpPbWireLen >> otlpPbBytes (.bytes (c :: cs))) = _
      rw [bytes_eq_each]
      exact tag_andThen_each n otlpPbWireLen _
  | fieldBytes n data =>
    change (if data.len = 0 then Enc.done else otlpPbTag n otlpPbWireLen >> otlpPbBytes data) = _
    rw [bytes_eq_each]
    exact field_eq_runCalls n otlpPbWireLen _
  | fieldMessage n data =>
    change (if data.len = 0 then Enc.done
      else otlpPbTag n otlpPbWireLen >> (otlpPbVarint (UInt64.ofNat data.len) >> bufAppend data)) = _
    have hvalue : (otlpPbVarint (UInt64.ofNat data.len) >> bufAppend data) =
        .each bufAppend [varintData (UInt64.ofNat data.len), data] := by
      change _ = (bufAppend _ >> Enc.each bufAppend [data])
      rw [each_singleton]
      rfl
    rw [hvalue]
    exact field_eq_runCalls n otlpPbWireLen _

/-! ### On the memory of the buffer -/

section Memory

-- what the cells of a new block hold
variable (junk : ℕ → UInt8)

def memAppendAll : List PbData → Heap → PbMem → OtlpStatus × PbMem × Heap
  | [], h, m => (.ok, m, h)
  | d :: ds, h, m =>
    match memAppend junk d h m with
    | (.ok, m, h) => memAppendAll ds h m
    | r => r

/-- The operation on a buffer in memory. -/
def PbOp.runMem (op : PbOp) (h : Heap) (m : PbMem) : OtlpStatus × PbMem × Heap :=
  match op.calls with
  | .error st => (st, m, h)
  | .ok ds => memAppendAll junk ds h m

theorem memAppendAll_cons (d : PbData) (ds : List PbData) (h : Heap) (m : PbMem) :
    memAppendAll junk (d :: ds) h m =
      if (memAppend junk d h m).1 = .ok then
        memAppendAll junk ds (memAppend junk d h m).2.2 (memAppend junk d h m).2.1
      else memAppend junk d h m := by
  rw [memAppendAll]
  rcases memAppend junk d h m with ⟨st, m', h'⟩
  cases st <;> rfl

theorem viewed_memAppendAll (ds : List PbData) (h : Heap) (m : PbMem) :
    viewed (memAppendAll junk ds h m) = Enc.each bufAppend ds h m.view := by
  induction ds generalizing h m with
  | nil => rfl
  | cons d ds ih =>
    have hstep := viewed_memAppend junk d h m
    change _ = (bufAppend d >> Enc.each bufAppend ds) h m.view
    rw [memAppendAll_cons, andThen_apply, ← hstep]
    change _ = if (memAppend junk d h m).1 = .ok then _ else _
    split
    · exact ih _ _
    · rfl

/-- **An operation does to the memory what the encoder's does to the bytes in use.** -/
theorem PbOp.viewed_runMem (op : PbOp) (h : Heap) (m : PbMem) : viewed (op.runMem junk h m) = op.run h m.view := by
  rw [op.run_eq, runMem]
  cases op.calls with
  | error st => rfl
  | ok ds => exact viewed_memAppendAll junk ds h m

end Memory

/-! ### What the calls need -/

/-- `data` may be NULL only when the length is 0. -/
def PbData.given : PbData → Bool
  | bytes _ => true
  | null len => len == 0

/-- The blocks that are asked for when appending this many bytes, time after time; `none` when a size is too large. -/
def blocksFor : ℕ → ℕ → List ℕ → Option (List ℕ)
  | _, _, [] => some []
  | cap, len, n :: ns =>
    (blockFor cap len n).bind fun c => (blocksFor (c.getD cap) (len + n) ns).map (c.toList ++ ·)

/-- The allocator grants the blocks. -/
def grantsAll (h : Heap) : List ℕ → Bool
  | [] => true
  | c :: cs => (otlpMalloc h c).1.isSome && grantsAll (otlpMalloc h c).2 cs

/-- The data can be appended to a buffer with `len` bytes in use. -/
structure CanAppend (h : Heap) (cap len : ℕ) (ds : List PbData) : Prop where
  given : ∀ d ∈ ds, d.given = true
  granted : ∃ cs, blocksFor cap len (ds.map PbData.len) = some cs ∧ grantsAll h cs = true

/-- The first of the calls is refused, or none is. -/
def PbOp.Whole (op : PbOp) (h : Heap) (cap len : ℕ) : Prop :=
  ∀ d ds, op.calls = .ok (d :: ds) → CanAppend h cap len [d] → CanAppend h cap len (d :: ds)

theorem grantsAll_toList (h : Heap) (c : Option ℕ) (cs : List ℕ) :
    grantsAll h (c.toList ++ cs) = ((grantBlock h c).1 && grantsAll (grantBlock h c).2 cs) := by
  cases c with
  | none => rfl
  | some c => rfl

theorem canAppend_cons {h : Heap} {cap len : ℕ} {d : PbData} {ds : List PbData} :
    CanAppend h cap len (d :: ds) ↔ d.given = true ∧ ∃ c, blockFor cap len d.len = some c ∧
      (grantBlock h c).1 = true ∧ CanAppend (grantBlock h c).2 (c.getD cap) (len + d.len) ds := by
  constructor
  · rintro ⟨hgiven, cs, hblocks, hgranted⟩
    rw [List.map_cons, blocksFor, Option.bind_eq_some_iff] at hblocks
    obtain ⟨c, hc, hblocks⟩ := hblocks
    obtain ⟨rest, hrest, rfl⟩ := Option.map_eq_some_iff.1 hblocks
    rw [grantsAll_toList, Bool.and_eq_true] at hgranted
    obtain ⟨hgiven, hgivenAll⟩ := List.forall_mem_cons.1 hgiven
    exact ⟨hgiven, c, hc, hgranted.1, hgivenAll, rest, hrest, hgranted.2⟩
  · rintro ⟨hgiven, c, hc, hgrant, hgivenAll, rest, hrest, hgranted⟩
    refine ⟨List.forall_mem_cons.2 ⟨hgiven, hgivenAll⟩, c.toList ++ rest, ?_, ?_⟩
    · rw [List.map_cons, blocksFor, hc, Option.bind_some, hrest]
      rfl
    · rw [grantsAll_toList, hgrant, hgranted]
      rfl

theorem canAppend_nil (h : Heap) (cap len : ℕ) : CanAppend h cap len [] :=
  ⟨fun _ hd => absurd hd List.not_mem_nil, [], rfl, rfl⟩

theorem blockFor_zero (b : PbBuf) : blockFor b.cap b.bytes.length 0 = some none := by
  unfold blockFor
  rw [if_neg (Nat.not_lt_zero _)]
  exact if_pos b.le_cap

theorem bufAppend_cases (d : PbData) (h : Heap) (b : PbBuf) :
    (∃ c b', d.given = true ∧ blockFor b.cap b.bytes.length d.len = some c ∧ (grantBlock h c).1 = true ∧
        bufAppend d h b = (.ok, b', (grantBlock h c).2) ∧ b'.cap = c.getD b.cap ∧
        b'.bytes.length = b.bytes.length + d.len) ∨
      ((∀ ds, ¬CanAppend h b.cap b.bytes.length (d :: ds)) ∧ ∃ st h', st ≠ .ok ∧ bufAppend d h b = (st, b, h')) := by
  unfold bufAppend
  by_cases hlen : d.len = 0
  · have hgiven : d.given = true := by
      cases d with
      | bytes bs => rfl
      | null len => exact beq_iff_eq.2 hlen
    rw [if_pos hlen]
    exact .inl ⟨none, b, hgiven, hlen ▸ blockFor_zero b, rfl, rfl, rfl, by omega⟩
  · rw [if_neg hlen]
    cases d with
    | null len =>
      refine .inr ⟨fun ds hcan => ?_, .errNull, h, by decide, rfl⟩
      exact hlen (beq_iff_eq.1 (canAppend_cons.1 hcan).1)
    | bytes bs =>
      dsimp only
      cases hblock : blockFor b.cap b.bytes.length bs.length with
      | none =>
        rw [bufReserve_tooLarge hblock]
        refine .inr ⟨fun ds hcan => ?_, .errOverflow, h, by decide, rfl⟩
        obtain ⟨-, c, hc, -⟩ := canAppend_cons.1 hcan
        exact absurd (hblock.symm.trans hc) (Option.some_ne_none c).symm
      | some c =>
        rcases bufReserve_of_blockFor (h := h) hblock with ⟨hgrant, r, hr, hcap⟩ | ⟨hgrant, hr⟩
        · rw [hr]
          exact .inl ⟨c, _, rfl, hblock, hgrant, rfl, hcap, List.length_append⟩
        · rw [hr]
          refine .inr ⟨fun ds hcan => ?_, .errNomem, _, by decide, rfl⟩
          obtain ⟨-, c', hc', hgrant', -⟩ := canAppend_cons.1 hcan
          obtain rfl := Option.some.inj (hblock.symm.trans hc')
          rw [hgrant] at hgrant'
          cases hgrant'

theorem length_le_each (ds : List PbData) (h : Heap) (b : PbBuf) :
    b.bytes.length ≤ (Enc.each bufAppend ds h b).2.1.bytes.length := by
  induction ds generalizing h b with
  | nil => exact le_rfl
  | cons d ds ih =>
    change _ ≤ ((bufAppend d >> Enc.each bufAppend ds) h b).2.1.bytes.length
    rw [andThen_apply]
    rcases bufAppend_cases d h b with ⟨c, b', -, -, -, hok, -, hlen⟩ | ⟨-, st, h', hst, hfail⟩
    · rw [hok, if_pos rfl]
      have hle := ih (grantBlock h c).2 b'
      dsimp only
      omega
    · rw [hfail, if_neg hst]

theorem each_ok_iff (ds : List PbData) (h : Heap) (b : PbBuf) :
    (Enc.each bufAppend ds h b).1 = .ok ↔ CanAppend h b.cap b.bytes.length ds := by
  induction ds generalizing h b with
  | nil => exact iff_of_true rfl (canAppend_nil h _ _)
  | cons d ds ih =>
    change ((bufAppend d >> Enc.each bufAppend ds) h b).1 = .ok ↔ _
    rw [andThen_apply]
    rcases bufAppend_cases d h b with ⟨c, b', hgiven, hc, hgrant, hok, hcap, hlen⟩ | ⟨hcannot, st, h', hst, hfail⟩
    · rw [hok, if_pos rfl, ih, canAppend_cons, hcap, hlen]
      constructor
      · intro hcan
        exact ⟨hgiven, c, hc, hgrant, hcan⟩
      · rintro ⟨-, c', hc', -, hcan⟩
        obtain rfl := Option.some.inj (hc.symm.trans hc')
        exact hcan
    · rw [hfail, if_neg hst]
      exact iff_of_false hst (hcannot ds)

/-- When the first call appends something, a failure leaves the bytes as they were just when it is the first call's. -/
theorem each_atomic_iff {d : PbData} (hd : 0 < d.len) (ds : List PbData) (h : Heap) (b : PbBuf) :
    ((Enc.each bufAppend (d :: ds) h b).1 ≠ .ok → (Enc.each bufAppend (d :: ds) h b).2.1.bytes = b.bytes) ↔
      (CanAppend h b.cap b.bytes.length [d] → CanAppend h b.cap b.bytes.length (d :: ds)) := by
  rw [← each_ok_iff (d :: ds)]
  change (((bufAppend d >> Enc.each bufAppend ds) h b).1 ≠ .ok →
    ((bufAppend d >> Enc.each bufAppend ds) h b).2.1.bytes = b.bytes) ↔
      (_ → ((bufAppend d >> Enc.each bufAppend ds) h b).1 = .ok)
  rw [andThen_apply]
  rcases bufAppend_cases d h b with ⟨c, b', hgiven, hc, hgrant, hok, -, hlen⟩ | ⟨hcannot, st, h', hst, hfail⟩
  · rw [hok, if_pos rfl]
    dsimp only
    have hcan : CanAppend h b.cap b.bytes.length [d] :=
      canAppend_cons.2 ⟨hgiven, c, hc, hgrant, canAppend_nil _ _ _⟩
    have hle := length_le_each ds (grantBlock h c).2 b'
    constructor
    · intro hsame _
      by_contra hne
      rw [hsame hne] at hle
      omega
    · intro hwhole hne
      exact absurd (hwhole hcan) hne
  · rw [hfail, if_neg hst]
    exact iff_of_true (fun _ => rfl) fun hcan => absurd hcan (hcannot [])

theorem clearLast_ne_nil {bs : Bytes} (hbs : bs ≠ []) : clearLast bs ≠ [] := by
  rcases bs with - | ⟨b, - | ⟨c, cs⟩⟩
  · exact absurd rfl hbs
  · exact List.cons_ne_nil _ _
  · exact List.cons_ne_nil _ _

theorem varintData_pos (v : UInt64) : 0 < (varintData v).len :=
  List.length_pos_iff.2 (clearLast_ne_nil (List.cons_ne_nil _ _))

theorem tagCalls_pos {n w : UInt32} {d : PbData} {ds : List PbData} (hcalls : tagCalls n w = .ok (d :: ds)) :
    0 < d.len := by
  unfold tagCalls at hcalls
  split at hcalls
  · cases hcalls
  · split at hcalls
    · cases hcalls
    · cases hcalls
      exact varintData_pos _

theorem fieldCalls_pos {isDefault : Bool} {n w : UInt32} {value : List PbData} {d : PbData} {ds : List PbData}
    (hcalls : fieldCalls isDefault n w value = .ok (d :: ds)) : 0 < d.len := by
  unfold fieldCalls at hcalls
  split at hcalls
  · cases hcalls
  · rcases htag : tagCalls n w with st | - | ⟨t, ts⟩
    · rw [htag] at hcalls
      cases hcalls
    · unfold tagCalls at htag
      split_ifs at htag
      cases htag
    · rw [htag] at hcalls
      cases hcalls
      exact tagCalls_pos htag

/-- The first call of an operation appends something: a varint or the bytes of a number. -/
theorem PbOp.first_pos {op : PbOp} {d : PbData} {ds : List PbData} (hcalls : op.calls = .ok (d :: ds)) :
    0 < d.len := by
  cases op with
  | varint v =>
    cases hcalls
    exact varintData_pos v
  | fixed64 v =>
    cases hcalls
    exact Nat.succ_pos _
  | fixed32 v =>
    cases hcalls
    exact Nat.succ_pos _
  | bytes data =>
    cases hcalls
    exact varintData_pos _
  | string str =>
    cases hcalls
    exact varintData_pos _
  | tag n w => exact tagCalls_pos hcalls
  | fieldVarint n v => exact fieldCalls_pos hcalls
  | fieldFixed64 n v => exact fieldCalls_pos hcalls
  | fieldFixed32 n v => exact fieldCalls_pos hcalls
  | fieldString n str => exact fieldCalls_pos hcalls
  | fieldBytes n data => exact fieldCalls_pos hcalls
  | fieldMessage n data => exact fieldCalls_pos hcalls

theorem PbOp.run_atomic_iff (op : PbOp) (h : Heap) (b : PbBuf) :
    ((op.run h b).1 ≠ .ok → (op.run h b).2.1.bytes = b.bytes) ↔ op.Whole h b.cap b.bytes.length := by
  rw [op.run_eq]
  unfold Whole
  cases hcalls : op.calls with
  | error st => exact iff_of_true (fun _ => rfl) fun d ds hne => by cases hne
  | ok ds =>
    cases ds with
    | nil => exact iff_of_true (fun _ => rfl) fun d ds hne => by cases hne
    | cons d ds =>
      refine (each_atomic_iff (first_pos hcalls) ds h b).trans ⟨?_, fun hwhole => hwhole d ds rfl⟩
      intro hwhole d' ds' heq
      cases heq
      exact hwhole

theorem view_bytes_eq_iff (m m' : PbMem) :
    m'.view.bytes = m.view.bytes ↔ m'.len = m.len ∧ m'.data.cells.take m.len = m.data.cells.take m.len := by
  constructor
  · intro hbytes
    have hlen := congrArg List.length hbytes
    rw [m'.length_view, m.length_view] at hlen
    refine ⟨hlen, ?_⟩
    rw [← hlen]
    exact hbytes.trans (by rw [hlen]; rfl)
  · rintro ⟨hlen, hcells⟩
    change m'.data.cells.take m'.len = _
    rw [hlen]
    exact hcells

/-- **An operation that fails leaves the length and the bytes in use as they were if and only if its first call is
refused or none is.** -/
theorem append_atomic_iff (junk : ℕ → UInt8) (op : PbOp) (h : Heap) (m : PbMem) :
    ((op.runMem junk h m).1 ≠ .ok → (op.runMem junk h m).2.1.len = m.len ∧
        (op.runMem junk h m).2.1.data.cells.take m.len = m.data.cells.take m.len) ↔
      op.Whole h m.data.cap m.len := by
  have hview := op.viewed_runMem junk h m
  have hiff := op.run_atomic_iff h m.view
  rw [← hview, m.length_view] at hiff
  rw [← view_bytes_eq_iff]
  exact hiff

/-- The length prefix of a NULL pointer stays. -/
theorem null_bytes_leave_prefix : ¬∀ (junk : ℕ → UInt8) (op : PbOp) (h : Heap) (m : PbMem),
    (op.runMem junk h m).1 ≠ .ok → (op.runMem junk h m).2.1.len = m.len ∧
      (op.runMem junk h m).2.1.data.cells.take m.len = m.data.cells.take m.len := by
  intro hall
  have hrun := hall (fun _ => 0) (.bytes (.null 5)) .granting (.inline fun _ => 0)
  exact absurd (hrun (by decide +kernel)).1 (by decide +kernel)

end OtlpC.Proto
