import OtlpC.Proto.Encode

/-!
# The memory of an encode buffer

`struct otlp_pb_buf` with the cells that `data` points at: the array `sbo` of the structure until more is appended
than it holds, then a block of the heap. `PbMem.view` forgets where the bytes are, and `bufAppend` is what
`memAppend` does as seen through it.
-/

namespace OtlpC.Proto

open Api

/-! ### Growth -/

/-- The block that `buf_reserve` asks for, if it asks for one; `none` when the size is too large. -/
def blockFor (cap len additional : ℕ) : Option (Option ℕ) :=
  if sizeMax - len < additional then none
  else if len + additional ≤ cap then some none
  else (growCap 64 (len + additional) (if cap = 0 then otlpPbSboSize else cap)).map some

def grantBlock (h : Heap) : Option ℕ → Bool × Heap
  | none => (true, h)
  | some size => ((otlpMalloc h size).1.isSome, (otlpMalloc h size).2)

section Reserve

variable {ρ : Type} {h : Heap} {cap len n : ℕ} {keep : len + n ≤ cap → ρ}
  {move : ∀ newCap, ¬len + n ≤ cap → growCap 64 (len + n) (if cap = 0 then otlpPbSboSize else cap) = some newCap →
    newCap ≤ ptrdiffMax → ρ}

theorem reserve_tooLarge (hblock : blockFor cap len n = none) :
    reserve h cap len n keep move = (.error .errOverflow, h) := by
  unfold blockFor at hblock
  unfold reserve
  by_cases hmax : sizeMax - len < n
  · rw [if_pos hmax]
  · rw [if_neg hmax] at hblock ⊢
    by_cases hroom : len + n ≤ cap
    · rw [if_pos hroom] at hblock
      cases hblock
    · rw [if_neg hroom, Option.map_eq_none_iff] at hblock
      rw [dif_neg hroom]
      split
      · rfl
      · next hgrow =>
        rw [hblock] at hgrow
        cases hgrow

/-- Where the room is: where it was, or in the block that the allocator grants. -/
theorem reserve_of_blockFor {c : Option ℕ} (hblock : blockFor cap len n = some c) :
    ((grantBlock h c).1 = true ∧ ∃ r, reserve h cap len n keep move = (.ok r, (grantBlock h c).2) ∧
      ((c = none ∧ ∃ hroom, r = keep hroom) ∨ ∃ newCap hroom hgrow hfits, c = some newCap ∧
        r = move newCap hroom hgrow hfits)) ∨
      ((grantBlock h c).1 = false ∧ reserve h cap len n keep move = (.error .errNomem, (grantBlock h c).2)) := by
  unfold blockFor at hblock
  unfold reserve
  by_cases hmax : sizeMax - len < n
  · rw [if_pos hmax] at hblock
    cases hblock
  · rw [if_neg hmax] at hblock ⊢
    by_cases hroom : len + n ≤ cap
    · rw [if_pos hroom] at hblock
      cases hblock
      rw [dif_pos hroom]
      exact .inl ⟨rfl, _, rfl, .inl ⟨rfl, hroom, rfl⟩⟩
    · rw [if_neg hroom, Option.map_eq_some_iff] at hblock
      obtain ⟨newCap, hgrow', rfl⟩ := hblock
      rw [dif_neg hroom]
      split
      · next hgrow =>
        rw [hgrow'] at hgrow
        cases hgrow
      · next hgrow =>
        rw [hgrow'] at hgrow
        cases hgrow
        unfold grantBlock
        rcases hmalloc : otlpMalloc h newCap with ⟨_ | c, h'⟩
        · exact .inr ⟨by simp [hmalloc], by simp [hmalloc]⟩
        · exact .inl ⟨by simp [hmalloc], _, by simp only [hmalloc], .inr ⟨newCap, hroom, hgrow', c.fits, rfl, rfl⟩⟩

end Reserve

theorem bufReserve_tooLarge {h : Heap} {b : PbBuf} {n : ℕ} (hblock : blockFor b.cap b.bytes.length n = none) :
    bufReserve h b n = (.error .errOverflow, h) := reserve_tooLarge hblock

theorem bufReserve_of_blockFor {h : Heap} {b : PbBuf} {n : ℕ} {c : Option ℕ}
    (hblock : blockFor b.cap b.bytes.length n = some c) :
    ((grantBlock h c).1 = true ∧ ∃ r, bufReserve h b n = (.ok r, (grantBlock h c).2) ∧ r.cap = c.getD b.cap) ∨
      ((grantBlock h c).1 = false ∧ bufReserve h b n = (.error .errNomem, (grantBlock h c).2)) := by
  rcases reserve_of_blockFor hblock with ⟨hgrant, r, hr, ⟨rfl, _, rfl⟩ | ⟨_, _, _, _, rfl, rfl⟩⟩ | hrefused
  · exact .inl ⟨hgrant, _, hr, rfl⟩
  · exact .inl ⟨hgrant, _, hr, rfl⟩
  · exact .inr hrefused

/-! ### Cells -/

def memcpy (dst : Bytes) (i : ℕ) (src : Bytes) : Bytes := dst.take i ++ src ++ dst.drop (i + src.length)

theorem length_memcpy {dst src : Bytes} {i : ℕ} (hroom : i + src.length ≤ dst.length) :
    (memcpy dst i src).length = dst.length := by
  simp only [memcpy, List.length_append, List.length_take, List.length_drop]
  omega

theorem take_memcpy {dst src : Bytes} {i : ℕ} (hroom : i + src.length ≤ dst.length) :
    (memcpy dst i src).take (i + src.length) = dst.take i ++ src := by
  have hlen : (dst.take i ++ src).length = i + src.length := by
    rw [List.length_append, List.length_take]
    omega
  rw [memcpy, ← hlen, List.take_left]

/-- Where `data` points, with the cells there; it says what `cap` and `owns_heap` are. -/
inductive PbStorage where
  | null
  | sbo (cells : Bytes) (size : cells.length = otlpPbSboSize)
  | heap (cells : Bytes) (fits : cells.length ≤ ptrdiffMax)

namespace PbStorage

def cells : PbStorage → Bytes
  | null => []
  | sbo cells _ => cells
  | heap cells _ => cells

def cap (s : PbStorage) : ℕ := s.cells.length

def ownsHeap : PbStorage → Bool
  | heap _ _ => true
  | _ => false

theorem cap_le (s : PbStorage) : s.cap ≤ ptrdiffMax := by
  cases s with
  | null => exact Nat.zero_le _
  | sbo cells size =>
    change cells.length ≤ _
    rw [size]
    decide
  | heap cells fits => exact fits

/-- The bytes of `src` written into the storage. -/
def write (s : PbStorage) (i : ℕ) (src : Bytes) (hroom : i + src.length ≤ s.cap) : PbStorage :=
  match s, hroom with
  | null, _ => null
  | sbo cells size, hroom => sbo (memcpy cells i src) ((length_memcpy hroom).trans size)
  | heap cells fits, hroom => heap (memcpy cells i src) ((length_memcpy hroom).trans_le fits)

theorem cells_write {s : PbStorage} {i : ℕ} {src : Bytes} (hroom : i + src.length ≤ s.cap) :
    (s.write i src hroom).cells = memcpy s.cells i src := by
  cases s with
  | null =>
    obtain ⟨rfl, hsrc⟩ : i = 0 ∧ src.length = 0 := Nat.add_eq_zero_iff.1 (Nat.le_zero.1 hroom)
    obtain rfl := List.length_eq_zero_iff.1 hsrc
    rfl
  | sbo cells size => rfl
  | heap cells fits => rfl

theorem cap_write {s : PbStorage} {i : ℕ} {src : Bytes} (hroom : i + src.length ≤ s.cap) :
    (s.write i src hroom).cap = s.cap := by
  unfold cap
  rw [cells_write hroom, length_memcpy hroom]

end PbStorage

/-- `struct otlp_pb_buf`. -/
structure PbMem where
  data : PbStorage
  len : ℕ
  le_cap : len ≤ data.cap

/-- The buffer of the encoder that lies in these cells. -/
def PbMem.view (m : PbMem) : PbBuf :=
  ⟨m.data.cells.take m.len, m.data.cap, by rw [List.length_take]; exact Nat.min_le_right _ _, m.data.cap_le⟩

theorem PbMem.length_view (m : PbMem) : m.view.bytes.length = m.len := by
  change (m.data.cells.take m.len).length = m.len
  rw [List.length_take]
  exact Nat.min_eq_left m.le_cap

theorem PbBuf.eq_of {b c : PbBuf} (hbytes : b.bytes = c.bytes) (hcap : b.cap = c.cap) : b = c := by
  cases b
  cases c
  cases hbytes
  cases hcap
  rfl

/-! ### The functions -/

section Memory

-- what the cells of a new block hold
variable (junk : ℕ → UInt8)

/-- A block of `size` cells with `kept` at its start. -/
def newBlock (size : ℕ) (kept : Bytes) : Bytes := memcpy ((List.range size).map junk) 0 kept

/-- The buffer outgrows `sbo`: only the bytes in use are copied. `otlp_realloc` copies the whole of the old block. -/
def PbMem.kept (m : PbMem) : Bytes :=
  if !m.data.ownsHeap && decide (0 < m.data.cap) then m.data.cells.take m.len else m.data.cells

variable {junk} in
theorem length_newBlock {size : ℕ} {kept : Bytes} (hkept : kept.length ≤ size) :
    (newBlock junk size kept).length = size := by
  have hlen : ((List.range size).map junk).length = size := by simp
  rw [newBlock, length_memcpy (by omega), hlen]

theorem PbMem.length_kept (m : PbMem) : m.kept.length ≤ m.data.cap := by
  unfold kept
  split
  · rw [List.length_take]
    exact Nat.min_le_right _ _
  · exact le_rfl

variable {junk} in
/-- Either way the bytes in use are in the new block. -/
theorem PbMem.take_newBlock (m : PbMem) (size : ℕ) :
    (newBlock junk size m.kept).take m.len = m.data.cells.take m.len := by
  have hlen : m.len ≤ m.kept.length := by
    unfold kept
    split
    · rw [List.length_take]
      exact Nat.le_min.2 ⟨le_rfl, m.le_cap⟩
    · exact m.le_cap
  have hkept : m.kept.take m.len = m.data.cells.take m.len := by
    unfold kept
    split
    · rw [List.take_take, Nat.min_self]
    · rfl
  rw [newBlock, memcpy, List.take_zero, List.nil_append, List.take_append_of_le_length hlen, hkept]

theorem PbMem.kept_le {m : PbMem} {additional newCap rounds start : ℕ} (hroom : ¬m.len + additional ≤ m.data.cap)
    (hgrow : growCap rounds (m.len + additional) start = some newCap) : m.kept.length ≤ newCap := by
  have hneed := le_growCap hgrow
  have hkept := m.length_kept
  omega

def PbMem.inline : PbMem :=
  ⟨.sbo ((List.range otlpPbSboSize).map junk) (by rw [List.length_map, List.length_range]), 0, Nat.zero_le _⟩

/-- `otlp_pb_buf_init`. -/
def memInit (h : Heap) (initialCap : ℕ) : OtlpStatus × PbMem × Heap :=
  if otlpPbSboSize < initialCap then
    match otlpMalloc h initialCap with
    | (none, h) => (.errNomem, .inline junk, h)
    | (some c, h) =>
      (.ok, ⟨.heap (newBlock junk initialCap []) ((length_newBlock (Nat.zero_le _)).trans_le c.fits), 0,
        Nat.zero_le _⟩, h)
  else (.ok, .inline junk, h)

def memReserve (h : Heap) (m : PbMem) (additional : ℕ) :
    Except OtlpStatus { s : PbStorage // m.len + additional ≤ s.cap } × Heap :=
  reserve h m.data.cap m.len additional (fun hroom => ⟨m.data, hroom⟩) fun newCap hroom hgrow hfits =>
    ⟨.heap (newBlock junk newCap m.kept) ((length_newBlock (PbMem.kept_le hroom hgrow)).trans_le hfits),
      (le_growCap hgrow).trans (length_newBlock (PbMem.kept_le hroom hgrow)).ge⟩

def memAppend (data : PbData) (h : Heap) (m : PbMem) : OtlpStatus × PbMem × Heap :=
  if data.len = 0 then (.ok, m, h)
  else
    match data with
    | .null _ => (.errNull, m, h)
    | .bytes bs =>
      match memReserve junk h m bs.length with
      | (.error st, h) => (st, m, h)
      | (.ok s, h) =>
        (.ok, ⟨s.1.write m.len bs s.2, m.len + bs.length, s.2.trans (PbStorage.cap_write s.2).ge⟩, h)

/-! ### Through the view -/

variable {junk} in
theorem memReserve_tooLarge {h : Heap} {m : PbMem} {n : ℕ} (hblock : blockFor m.data.cap m.len n = none) :
    memReserve junk h m n = (.error .errOverflow, h) := reserve_tooLarge hblock

variable {junk} in
theorem memReserve_of_blockFor {h : Heap} {m : PbMem} {n : ℕ} {c : Option ℕ}
    (hblock : blockFor m.data.cap m.len n = some c) :
    ((grantBlock h c).1 = true ∧ ∃ s, memReserve junk h m n = (.ok s, (grantBlock h c).2) ∧
      s.1.cap = c.getD m.data.cap ∧ s.1.cells.take m.len = m.data.cells.take m.len) ∨
      ((grantBlock h c).1 = false ∧ memReserve junk h m n = (.error .errNomem, (grantBlock h c).2)) := by
  rcases reserve_of_blockFor hblock with ⟨hgrant, s, hs, ⟨rfl, _, rfl⟩ | ⟨size, hroom, hgrow, _, rfl, rfl⟩⟩ | hrefused
  · exact .inl ⟨hgrant, _, hs, rfl, rfl⟩
  · exact .inl ⟨hgrant, _, hs, length_newBlock (PbMem.kept_le hroom hgrow), m.take_newBlock size⟩
  · exact .inr hrefused

def viewed (r : OtlpStatus × PbMem × Heap) : OtlpStatus × PbBuf × Heap := (r.1, r.2.1.view, r.2.2)

theorem view_inline : (PbMem.inline junk).view = .inline := by
  refine PbBuf.eq_of rfl ?_
  change ((List.range otlpPbSboSize).map junk).length = otlpPbSboSize
  rw [List.length_map, List.length_range]

theorem viewed_memInit (h : Heap) (initialCap : ℕ) :
    viewed (memInit junk h initialCap) = otlpPbBufInit h initialCap := by
  unfold memInit otlpPbBufInit
  split
  · rcases hmalloc : otlpMalloc h initialCap with ⟨_ | c, h'⟩
    · exact Prod.ext rfl (Prod.ext (view_inline junk) rfl)
    · exact Prod.ext rfl (Prod.ext (PbBuf.eq_of rfl (length_newBlock (Nat.zero_le _))) rfl)
  · exact Prod.ext rfl (Prod.ext (view_inline junk) rfl)

/-- **What `buf_append` does to the memory is what the encoder's does to the bytes in use.** -/
theorem viewed_memAppend (data : PbData) (h : Heap) (m : PbMem) :
    viewed (memAppend junk data h m) = bufAppend data h m.view := by
  unfold memAppend bufAppend
  by_cases hlen : data.len = 0
  · rw [if_pos hlen, if_pos hlen]
    rfl
  · rw [if_neg hlen, if_neg hlen]
    cases data with
    | null len => rfl
    | bytes bs =>
      have hview : blockFor m.view.cap m.view.bytes.length bs.length = blockFor m.data.cap m.len bs.length := by
        rw [m.length_view]
        rfl
      dsimp only
      cases hblock : blockFor m.data.cap m.len bs.length with
      | none =>
        rw [memReserve_tooLarge hblock, bufReserve_tooLarge (hview.trans hblock)]
        rfl
      | some c =>
        rcases @memReserve_of_blockFor junk h m _ _ hblock with ⟨hgrant, s, hs, hcap, hcells⟩ | ⟨hgrant, hs⟩
        · rcases bufReserve_of_blockFor (h := h) (hview.trans hblock) with ⟨-, r, hr, hcap'⟩ | ⟨hgrant', -⟩
          · rw [hs, hr]
            refine Prod.ext rfl (Prod.ext (PbBuf.eq_of ?_ ?_) rfl)
            · change ((s.1.write m.len bs s.2).cells).take (m.len + bs.length) = m.data.cells.take m.len ++ bs
              rw [PbStorage.cells_write s.2, take_memcpy s.2, hcells]
            · change (s.1.write m.len bs s.2).cap = r.cap
              rw [PbStorage.cap_write s.2, hcap, hcap']
              rfl
          · rw [hgrant] at hgrant'
            cases hgrant'
        · rcases bufReserve_of_blockFor (h := h) (hview.trans hblock) with ⟨hgrant', -⟩ | ⟨-, hr⟩
          · rw [hgrant] at hgrant'
            cases hgrant'
          · rw [hs, hr]
            rfl

end Memory

end OtlpC.Proto
