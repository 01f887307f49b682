import OtlpC.Api.Tracer
import OtlpC.Lib.Steps

/-!
# One tracer, shared by any number of threads

`fill_random_bytes` as each thread runs it: the load and every compare-and-swap of `tracer_prng_next` on the state
of the generator is one indivisible step of the thread that makes it, and what the code computes up to the next
access is part of the step. The state is a plain word here, which nothing keeps from being zero, and the retry is
there to be taken.

`written`, `retries` and `returned` record the history: the words that were packed into identifiers, how often the
retry was entered, and what the calls have returned.
-/

namespace OtlpC.Api.Threads

open Api

/-! ### The generator can be undone -/

/-- A linear map that only takes zero to zero takes no two words to one. -/
theorem injective_of_linear {f : UInt64 → UInt64} (hlinear : ∀ x y, f (x ^^^ y) = f x ^^^ f y)
    (hne : ∀ s ≠ 0, f s ≠ 0) : Function.Injective f := by
  intro x y h
  by_contra hxy
  apply hne (x ^^^ y) (mt UInt64.xor_eq_zero_iff.1 hxy)
  rw [hlinear, h, UInt64.xor_self]

theorem xor_shiftLeft_injective {k : UInt64} (hk : Nat.Coprime (2 ^ 64) (2 ^ (k.toNat % 64) - 1)) :
    Function.Injective fun s : UInt64 => s ^^^ (s <<< k) := by
  refine injective_of_linear (fun x y => ?_) fun s hs => ne_xor_shiftLeft hk hs
  rw [UInt64.shiftLeft_xor]
  ac_rfl

theorem xor_shiftRight_injective : Function.Injective fun s : UInt64 => s ^^^ (s >>> 7) := by
  refine injective_of_linear (fun x y => ?_) fun s hs => ne_xor_shiftRight hs
  rw [UInt64.shiftRight_xor]
  ac_rfl

theorem mul_odd_injective {c : UInt64} (hc : Nat.Coprime (2 ^ 64) c.toNat) :
    Function.Injective fun s : UInt64 => c * s := by
  intro x y h
  by_contra hxy
  have hsub : x - y ≠ 0 := by
    intro hzero
    apply hxy
    rw [← UInt64.sub_add_cancel x y, hzero, UInt64.zero_add]
  apply ne_mul_odd hc hsub
  have hmul : c * x = c * y := h
  rw [UInt64.mul_sub, hmul, UInt64.sub_self]

theorem xorshift64s_injective : Function.Injective xorshift64s := by
  have hmul : Function.Injective fun s : UInt64 => 0x2545F4914F6CDD1D * s := mul_odd_injective (by decide +kernel)
  have hfirst : Function.Injective fun s : UInt64 => s ^^^ (s <<< 13) := xor_shiftLeft_injective (by decide +kernel)
  have hlast : Function.Injective fun s : UInt64 => s ^^^ (s <<< 17) := xor_shiftLeft_injective (by decide +kernel)
  exact hmul.comp (hlast.comp (xor_shiftRight_injective.comp hfirst))

/-! ### The threads -/

/-- The next access of a thread inside `fill_random_bytes` for `8 * words` bytes, of which it has written `out`. -/
inductive FillPc where
  | idle
  /-- `old = load(prng_state)` -/
  | load (words : ℕ) (out : Bytes)
  /-- `cas(prng_state, &old, new)` -/
  | cas (words : ℕ) (out : Bytes) (old : UInt64)

/-- What a call of `fill_random_bytes` has returned. -/
structure Filled (T : Type*) where
  thread : T
  words : ℕ
  out : Bytes

structure Shared (T : Type*) where
  prngState : UInt64
  pc : T → FillPc
  written : List UInt64
  retries : ℕ
  returned : List (Filled T)

/-- A thread calls `fill_random_bytes` or makes its next access. -/
inductive Act (T : Type*) where
  | fill (p : T) (words : ℕ)
  | access (p : T) (casMaySucceed : Bool)

variable {T : Type*} [DecidableEq T]

def Shared.init (seed : UInt64) : Shared T :=
  { prngState := seed, pc := fun _ => .idle, written := [], retries := 0, returned := [] }

def Shared.setPc (s : Shared T) (p : T) (pc : FillPc) : Shared T := { s with pc := Function.update s.pc p pc }

/-- `fill_random_bytes` from the test of its `while` on, up to the next access. -/
def Shared.goOn (s : Shared T) (p : T) (words : ℕ) (out : Bytes) : Shared T :=
  if out.length < 8 * words then s.setPc p (.load words out)
  else if 0 < 8 * words ∧ out.all (· == 0) = true then
    Shared.setPc { s with retries := s.retries + 1 } p (.load words [])
  else Shared.setPc { s with returned := s.returned ++ [⟨p, words, out⟩] } p .idle

/-- The next access of thread `p`; a weak compare-and-swap may fail although the state is `old`. -/
def accessStep (s : Shared T) (p : T) (casMaySucceed : Bool) : Option (Shared T) :=
  match s.pc p with
  | .idle => none
  | .load words out => some (s.setPc p (.cas words out s.prngState))
  | .cas words out old =>
    let new := xorshift64s old
    if casMaySucceed && s.prngState == old then
      some (Shared.goOn { s with prngState := new, written := s.written ++ [new] } p words
        (out ++ (putU64Be new).toList))
    else some (s.setPc p (.cas words out s.prngState))

def step (s : Shared T) : Act T → Option (Shared T)
  | .fill p words =>
    match s.pc p with
    | .idle => some (s.goOn p words [])
    | _ => none
  | .access p casMaySucceed => accessStep s p casMaySucceed

@[simp] theorem setPc_prngState (s : Shared T) (p : T) (pc : FillPc) : (s.setPc p pc).prngState = s.prngState := rfl
@[simp] theorem setPc_pc (s : Shared T) (p : T) (pc : FillPc) : (s.setPc p pc).pc = Function.update s.pc p pc := rfl

theorem setPc_pc_self (s : Shared T) (p : T) (pc : FillPc) : (s.setPc p pc).pc p = pc := Function.update_self ..

/-! ### Words -/

def OfWords (n : ℕ) (out : Bytes) : Prop :=
  ∃ ws : List UInt64, ws.length = n ∧ (∀ v ∈ ws, v ≠ 0) ∧ out = ws.flatMap fun v => (putU64Be v).toList

theorem ofWords_nil : OfWords 0 [] := ⟨[], rfl, List.forall_mem_nil _, rfl⟩

theorem OfWords.snoc {n : ℕ} {out : Bytes} (h : OfWords n out) {v : UInt64} (hv : v ≠ 0) :
    OfWords (n + 1) (out ++ (putU64Be v).toList) := by
  obtain ⟨ws, rfl, hws, rfl⟩ := h
  refine ⟨ws ++ [v], by simp, fun w hw => ?_, by simp⟩
  rcases List.mem_append.1 hw with hw | hw
  · exact hws w hw
  · rwa [List.mem_singleton.1 hw]

theorem OfWords.length_eq {n : ℕ} {out : Bytes} (h : OfWords n out) : out.length = 8 * n := by
  obtain ⟨ws, rfl, -, rfl⟩ := h
  induction ws with
  | nil => rfl
  | cons v ws ih =>
    rw [List.flatMap_cons, List.length_append, ih, Vector.length_toList, List.length_cons]
    omega

/-- The first word alone keeps the bytes from being all zero. -/
theorem OfWords.not_all_zero {n : ℕ} {out : Bytes} (h : OfWords n out) :
    ¬(0 < 8 * n ∧ out.all (· == 0) = true) := by
  rintro ⟨hpos, hzero⟩
  obtain ⟨ws, rfl, hws, rfl⟩ := h
  cases ws with
  | nil => cases hpos
  | cons v ws =>
    have hfirst := putU64Be_ne_zero (hws v List.mem_cons_self)
    rw [otlpIdIsAllZero] at hfirst
    rw [List.flatMap_cons, List.all_append, hfirst, Bool.false_and] at hzero
    cases hzero

theorem OfWords.exists_ne_zero {n : ℕ} {out : Bytes} (h : OfWords n out) (hn : 0 < n) : ∃ b ∈ out, b ≠ 0 := by
  by_contra hnone
  apply h.not_all_zero
  refine ⟨by omega, List.all_eq_true.2 fun b hb => beq_iff_eq.2 ?_⟩
  by_contra hne
  exact hnone ⟨b, hb, hne⟩

/-! ### The invariant -/

/-- What a thread has written, and what it holds, at its program counter. -/
def PcOk : FillPc → Prop
  | .idle => True
  | .load words out => ∃ n < words, OfWords n out
  | .cas words out old => (∃ n < words, OfWords n out) ∧ old ≠ 0

structure Inv (s : Shared T) : Prop where
  prngState : s.prngState ≠ 0
  pc : ∀ p, PcOk (s.pc p)
  written : ∀ v ∈ s.written, v ≠ 0
  retries : s.retries = 0
  returned : ∀ r ∈ s.returned, OfWords r.words r.out

omit [DecidableEq T] in
theorem inv_init {seed : UInt64} (hseed : seed ≠ 0) : Inv (Shared.init seed : Shared T) where
  prngState := hseed
  pc := fun _ => trivial
  written := List.forall_mem_nil _
  retries := rfl
  returned := List.forall_mem_nil _

theorem Inv.setPc {s : Shared T} (h : Inv s) (p : T) {pc : FillPc} (hpc : PcOk pc) : Inv (s.setPc p pc) where
  prngState := h.prngState
  pc := fun q => by
    rw [setPc_pc, Function.update_apply]
    split
    · exact hpc
    · exact h.pc q
  written := h.written
  retries := h.retries
  returned := h.returned

/-- The `while` ends with all words written, and the retry is not taken. -/
theorem goOn_eq {s : Shared T} {words n : ℕ} {out : Bytes} (p : T) (hout : OfWords n out) (hn : n ≤ words) :
    s.goOn p words out = if n < words then s.setPc p (.load words out)
      else Shared.setPc { s with returned := s.returned ++ [⟨p, words, out⟩] } p .idle := by
  rw [Shared.goOn, hout.length_eq]
  by_cases hlt : n < words
  · rw [if_pos hlt, if_pos (by omega)]
  · obtain rfl : n = words := by omega
    rw [if_neg hlt, if_neg (by omega), if_neg hout.not_all_zero]

theorem Inv.goOn {s : Shared T} (h : Inv s) {words n : ℕ} {out : Bytes} (p : T) (hout : OfWords n out)
    (hn : n ≤ words) : Inv (s.goOn p words out) := by
  rw [goOn_eq p hout hn]
  split
  · next hlt => exact h.setPc p ⟨n, hlt, hout⟩
  · next hnot =>
    obtain rfl : n = words := by omega
    have hreturned : Inv { s with returned := s.returned ++ [⟨p, n, out⟩] } := by
      refine { h with returned := fun r hr => ?_ }
      rcases List.mem_append.1 hr with hr | hr
      · exact h.returned r hr
      · rw [List.mem_singleton.1 hr]
        exact hout
    exact hreturned.setPc p trivial

theorem step_inv {s t : Shared T} {a : Act T} (h : Inv s) (hstep : step s a = some t) : Inv t := by
  cases a with
  | fill p words =>
    rw [step] at hstep
    split at hstep
    · cases hstep
      exact h.goOn p ofWords_nil (Nat.zero_le _)
    · cases hstep
  | access p casMaySucceed =>
    rw [step, accessStep] at hstep
    have hpc := h.pc p
    split at hstep
    · cases hstep
    · next words out heq =>
      rw [heq] at hpc
      cases hstep
      exact h.setPc p ⟨hpc, h.prngState⟩
    · next words out old heq =>
      rw [heq] at hpc
      obtain ⟨⟨n, hn, hout⟩, hold⟩ := hpc
      have hnew := xorshift64s_ne_zero hold
      dsimp only at hstep
      split at hstep
      · cases hstep
        have hdrawn : Inv { s with prngState := xorshift64s old, written := s.written ++ [xorshift64s old] } := by
          refine { h with prngState := hnew, written := fun v hv => ?_ }
          rcases List.mem_append.1 hv with hv | hv
          · exact h.written v hv
          · rwa [List.mem_singleton.1 hv]
        exact hdrawn.goOn p (hout.snoc hnew) hn
      · cases hstep
        exact h.setPc p ⟨⟨n, hn, hout⟩, h.prngState⟩

theorem run_inv {s t : Shared T} {as : List (Act T)} (h : Inv s) (hrun : Steps.run step s as = some t) : Inv t :=
  Steps.run_invariant (fun _ _ _ h hstep => step_inv h hstep) h hrun

/-! ### The words are the states of the generator, one after the other -/

/-- No state is drawn twice and none is lost. -/
structure InOrder (seed : UInt64) (s : Shared T) : Prop where
  prngState : s.prngState = xorshift64s^[s.written.length] seed
  written : s.written = (List.range s.written.length).map fun i => xorshift64s^[i + 1] seed

omit [DecidableEq T] in
theorem inOrder_init (seed : UInt64) : InOrder seed (Shared.init seed : Shared T) := ⟨rfl, rfl⟩

theorem InOrder.setPc {seed : UInt64} {s : Shared T} (h : InOrder seed s) (p : T) (pc : FillPc) :
    InOrder seed (s.setPc p pc) := ⟨h.prngState, h.written⟩

theorem InOrder.goOn {seed : UInt64} {s : Shared T} (h : InOrder seed s) (p : T) (words : ℕ) (out : Bytes) :
    InOrder seed (s.goOn p words out) := by
  unfold Shared.goOn
  split
  · exact h.setPc p _
  · split <;> exact ⟨h.prngState, h.written⟩

theorem step_inOrder {seed : UInt64} {s t : Shared T} {a : Act T} (h : InOrder seed s)
    (hstep : step s a = some t) : InOrder seed t := by
  cases a with
  | fill p words =>
    rw [step] at hstep
    split at hstep
    · cases hstep
      exact h.goOn p words []
    · cases hstep
  | access p casMaySucceed =>
    rw [step, accessStep] at hstep
    split at hstep
    · cases hstep
    · cases hstep
      exact h.setPc p _
    · next words out old heq =>
      dsimp only at hstep
      split at hstep
      · next hwon =>
        cases hstep
        rw [Bool.and_eq_true, beq_iff_eq] at hwon
        have hnew : xorshift64s old = xorshift64s^[s.written.length + 1] seed := by
          rw [Function.iterate_succ_apply', ← h.prngState, hwon.2]
        apply InOrder.goOn
        constructor
        · rw [List.length_append, List.length_singleton]
          exact hnew
        · rw [List.length_append, List.length_singleton, List.range_succ, List.map_append, ← h.written, hnew]
          rfl
      · cases hstep
        exact h.setPc p _

/-- **The words that all threads together draw** are the states behind the seed, in order. -/
theorem run_inOrder {seed : UInt64} {s : Shared T} {as : List (Act T)}
    (hrun : Steps.run step (Shared.init seed) as = some s) : InOrder seed s :=
  Steps.run_invariant (fun _ _ _ h hstep => step_inOrder h hstep) (inOrder_init seed) hrun

/-! ### A call that no other thread interleaves with -/

theorem step_load {s : Shared T} {p : T} {words : ℕ} {out : Bytes} (hpc : s.pc p = .load words out) (b : Bool) :
    step s (.access p b) = some (s.setPc p (.cas words out s.prngState)) := by
  rw [step, accessStep, hpc]

theorem step_cas_won {s : Shared T} {p : T} {words : ℕ} {out : Bytes} {old : UInt64} (hpc : s.pc p = .cas words out old)
    (hold : s.prngState = old) : step s (.access p true) = some
      (Shared.goOn { s with prngState := xorshift64s old, written := s.written ++ [xorshift64s old] } p words
        (out ++ (putU64Be (xorshift64s old)).toList)) := by
  have hwon : (true && s.prngState == old) = true := by simp [hold]
  rw [step, accessStep, hpc]
  exact if_pos hwon

theorem run_goOn_alone {s : Shared T} {p : T} {n k : ℕ} {out : Bytes} {prng : PrngState} (hout : OfWords k out)
    (hprng : s.prngState = prng.1) : ∃ as ws, Steps.run step (s.goOn p (k + n) out) as = some { s with
      prngState := (fillWords prng n).2.1
      pc := Function.update s.pc p .idle
      written := s.written ++ ws
      returned := s.returned ++ [⟨p, k + n, out ++ (fillWords prng n).1.toList⟩] } := by
  induction n generalizing s k out prng with
  | zero =>
    refine ⟨[], [], ?_⟩
    rw [Nat.add_zero, goOn_eq p hout (Nat.le_refl k), if_neg (lt_irrefl k), Steps.run_nil]
    simp [Shared.setPc, fillWords, hprng]
  | succ n ih =>
    have hnew : xorshift64s prng.1 ≠ 0 := xorshift64s_ne_zero prng.2
    -- the load and the compare-and-swap of the next word
    let loaded := (s.setPc p (.load (k + 1 + n) out)).setPc p (.cas (k + 1 + n) out prng.1)
    have hload : step (s.setPc p (.load (k + 1 + n) out)) (.access p true) = some loaded := by
      rw [step_load (setPc_pc_self s p _), setPc_prngState, hprng]
    have hcas := step_cas_won (s := loaded) (setPc_pc_self _ p _) hprng
    obtain ⟨as, ws, hrun⟩ := @ih
      { loaded with prngState := xorshift64s prng.1, written := s.written ++ [xorshift64s prng.1] }
      (k + 1) (out ++ (putU64Be (xorshift64s prng.1)).toList) (tracerPrngNext prng) (hout.snoc hnew) rfl
    refine ⟨.access p true :: .access p true :: as, xorshift64s prng.1 :: ws, ?_⟩
    rw [show k + (n + 1) = k + 1 + n by omega, goOn_eq p hout (by omega), if_pos (by omega)]
    refine (Steps.run_cons_eq_some.2 ⟨_, hload, Steps.run_cons_eq_some.2 ⟨_, hcas, hrun⟩⟩).trans ?_
    simp [loaded, Shared.setPc, fillWords, tracerPrngNext, Vector.toList_cast, Vector.toList_append]

/-- **One thread alone** runs `fillRandomBytes`. -/
theorem run_fill_alone {s : Shared T} {p : T} {prng : PrngState} (hidle : s.pc p = .idle)
    (hprng : s.prngState = prng.1) (words : ℕ) : ∃ as ws, Steps.run step s (.fill p words :: as) = some { s with
      prngState := (fillRandomBytes prng words).2.1
      written := s.written ++ ws
      returned := s.returned ++ [⟨p, words, (fillRandomBytes prng words).1.toList⟩] } := by
  obtain ⟨as, ws, hrun⟩ := @run_goOn_alone T _ s p words 0 [] prng ofWords_nil hprng
  refine ⟨as, ws, ?_⟩
  rw [Nat.zero_add] at hrun
  rw [Steps.run_cons, step, hidle]
  dsimp only
  rw [Option.bind_some, hrun, fillRandomBytes, dif_neg (fillWords_not_all_zero prng words), ← hidle,
    Function.update_eq_self]
  rfl

end OtlpC.Api.Threads
