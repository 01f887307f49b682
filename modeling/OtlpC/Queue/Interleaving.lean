import OtlpC.Lib.Steps
import OtlpC.Queue.Ring

/-!
# The MPSC ring, shared by any number of producers and one consumer

Every atomic load, store and compare-and-swap of `mpsc_queue_push` and `mpsc_queue_pop`, and every
access to a slot's `data`, is one indivisible step of the thread that makes it. A thread's program
counter names the access it makes next and carries the locals it still needs; what the code computes
between two accesses is part of the step before.

`calls`, `claims` and `returned` record the history: the push calls begun, the pushes that won the
compare-and-swap on `head` (in that order), and what the pops returned.
-/

namespace OtlpC.Queue

/-- The next access of a thread inside `mpsc_queue_push`. -/
inductive PushPc (α : Type*) where
  | idle
  /-- `h = load(head)`, at the call and in the last branch of the loop. -/
  | loadHead (item : α)
  /-- `seq = load(slot->seq)` -/
  | loadSeq (item : α) (h : ℕ)
  /-- `cas(head, &h, h + 1)` -/
  | cas (item : α) (h : ℕ)
  /-- `slot->data = item` -/
  | writeData (item : α) (h : ℕ)
  /-- `store(slot->seq, h + 1)` -/
  | storeSeq (item : α) (h : ℕ)

/-- The next access of the consumer inside `mpsc_queue_pop`. -/
inductive PopPc (α : Type*) where
  | idle
  | loadTail
  | loadSeq (t : ℕ)
  | readData (t : ℕ)
  | storeSeq (t : ℕ) (data : Option α)
  | storeTail (t : ℕ) (data : Option α)

structure Shared (P α : Type*) where
  q : MpscQueue α
  prod : P → PushPc α
  cons : PopPc α
  calls : List (P × α)
  claims : List (P × α)
  returned : List (Option α)

/-- A thread begins a call or makes its next access. -/
inductive Act (P α : Type*) where
  | push (p : P) (item : α)
  | produce (p : P) (casMaySucceed : Bool)
  | pop
  | consume

variable {P α : Type*} [DecidableEq P]

def Shared.init (q : MpscQueue α) : Shared P α :=
  { q, prod := fun _ => .idle, cons := .idle, calls := [], claims := [], returned := [] }

/-- Thread `p` is at `pc` now. -/
def Shared.setProd (s : Shared P α) (p : P) (pc : PushPc α) : Shared P α :=
  { s with prod := Function.update s.prod p pc }

/-- The next access of producer `p`; a weak compare-and-swap may fail although `head` is `h`. -/
def produceStep (s : Shared P α) (p : P) (casMaySucceed : Bool) : Option (Shared P α) :=
  match s.prod p with
  | .idle => none
  | .loadHead item => some (s.setProd p (.loadSeq item s.q.head))
  | .loadSeq item h =>
    let diff := diff64 (s.q.slots (h &&& s.q.mask)).seq h
    if diff = 0 then some (s.setProd p (.cas item h))
    else if diff < 0 then some (s.setProd p .idle)
    else some (s.setProd p (.loadHead item))
  | .cas item h =>
    if casMaySucceed && s.q.head == h then
      some (({ s with q := { s.q with head := u64 (h + 1) }, claims := s.claims ++ [(p, item)] } :
        Shared P α).setProd p (.writeData item h))
    else some (s.setProd p (.loadSeq item s.q.head))
  | .writeData item h =>
    some (({ s with q := s.q.writeData (h &&& s.q.mask) item } : Shared P α).setProd p
      (.storeSeq item h))
  | .storeSeq _ h =>
    some (({ s with q := s.q.storeSeq (h &&& s.q.mask) (u64 (h + 1)) } : Shared P α).setProd p .idle)

/-- The next access of the consumer. -/
def consumeStep (s : Shared P α) : Option (Shared P α) :=
  match s.cons with
  | .idle => none
  | .loadTail => some { s with cons := .loadSeq s.q.tail }
  | .loadSeq t =>
    if diff64 (s.q.slots (t &&& s.q.mask)).seq (u64 (t + 1)) ≠ 0 then
      some { s with cons := .idle, returned := s.returned ++ [none] }
    else some { s with cons := .readData t }
  | .readData t => some { s with cons := .storeSeq t (s.q.slots (t &&& s.q.mask)).data }
  | .storeSeq t data =>
    some { s with q := s.q.storeSeq (t &&& s.q.mask) (u64 (t + s.q.mask + 1)), cons := .storeTail t data }
  | .storeTail t data =>
    some { s with
      q := { s.q with tail := u64 (t + 1) }, cons := .idle, returned := s.returned ++ [data] }

def step (s : Shared P α) : Act P α → Option (Shared P α)
  | .push p item =>
    match s.prod p with
    | .idle => some ({ s with calls := s.calls ++ [(p, item)] }.setProd p (.loadHead item))
    | _ => none
  | .produce p casMaySucceed => produceStep s p casMaySucceed
  | .pop =>
    match s.cons with
    | .idle => some { s with cons := .loadTail }
    | _ => none
  | .consume => consumeStep s

@[simp] theorem setProd_q (s : Shared P α) (p : P) (pc : PushPc α) : (s.setProd p pc).q = s.q := rfl
@[simp] theorem setProd_prod (s : Shared P α) (p : P) (pc : PushPc α) :
    (s.setProd p pc).prod = Function.update s.prod p pc := rfl
@[simp] theorem setProd_cons (s : Shared P α) (p : P) (pc : PushPc α) :
    (s.setProd p pc).cons = s.cons := rfl
@[simp] theorem setProd_calls (s : Shared P α) (p : P) (pc : PushPc α) :
    (s.setProd p pc).calls = s.calls := rfl
@[simp] theorem setProd_claims (s : Shared P α) (p : P) (pc : PushPc α) :
    (s.setProd p pc).claims = s.claims := rfl
@[simp] theorem setProd_returned (s : Shared P α) (p : P) (pc : PushPc α) :
    (s.setProd p pc).returned = s.returned := rfl

/-! ### A call that no other thread interleaves with -/

theorem run_pop_alone {s : Shared P α} (hidle : s.cons = .idle) :
    ∃ n, Steps.run step s (.pop :: List.replicate n .consume) = some { s with
      q := (mpscQueuePop s.q).1, returned := s.returned ++ [(mpscQueuePop s.q).2] } := by
  by_cases hdiff : diff64 (s.q.slots (s.q.tail &&& s.q.mask)).seq (u64 (s.q.tail + 1)) = 0
  · exact ⟨5, by simp [Steps.run, List.replicate, step, consumeStep, mpscQueuePop, hidle, hdiff]⟩
  · exact ⟨2, by simp [Steps.run, List.replicate, step, consumeStep, mpscQueuePop, hidle, hdiff]⟩

/-- What a push call leaves behind: the claims grow when it returned `OTLP_OK`. -/
def Shared.pushed (s : Shared P α) (p : P) (item : α) (r : MpscQueue α × OtlpStatus) : Shared P α :=
  Shared.setProd
    { s with
      q := r.1
      claims := if r.2 = OtlpStatus.ok then s.claims ++ [(p, item)] else s.claims } p .idle

theorem step_cas_won {s : Shared P α} {p : P} (item : α) (h : ℕ) {b : Bool}
    (hpc : s.prod p = .cas item h) (hwin : (b && s.q.head == h) = true) :
    step s (.produce p b) = some
      (({ s with q := { s.q with head := u64 (h + 1) }, claims := s.claims ++ [(p, item)] } :
        Shared P α).setProd p (.writeData item h)) := by
  simp only [step, produceStep, hpc, hwin, if_true]

theorem step_writeData {s : Shared P α} {p : P} (item : α) (h : ℕ) {b : Bool}
    (hpc : s.prod p = .writeData item h) :
    step s (.produce p b) = some (({ s with q := s.q.writeData (h &&& s.q.mask) item } :
      Shared P α).setProd p (.storeSeq item h)) := by
  simp only [step, produceStep, hpc]

theorem step_storeSeq {s : Shared P α} {p : P} (item : α) (h : ℕ) {b : Bool}
    (hpc : s.prod p = .storeSeq item h) :
    step s (.produce p b) = some (({ s with q := s.q.storeSeq (h &&& s.q.mask) (u64 (h + 1)) } :
      Shared P α).setProd p .idle) := by
  simp only [step, produceStep, hpc]

theorem run_pushLoop_alone {s : Shared P α} {p : P} {item : α} {h : ℕ} {rounds : List Bool}
    {r : MpscQueue α × OtlpStatus} (hpc : s.prod p = .loadSeq item h)
    (hloop : pushLoop s.q item h rounds = some r) :
    ∃ bs : List Bool, Steps.run step s (bs.map (Act.produce p)) = some (s.pushed p item r) := by
  induction rounds generalizing s h with
  | nil => simp [pushLoop] at hloop
  | cons b rounds ih =>
    rw [pushLoop] at hloop
    split at hloop
    · next hdiff =>
      have hcas : step s (.produce p b) = some (s.setProd p (.cas item h)) := by
        simp [step, produceStep, hpc, hdiff]
      split at hloop
      · next hwin =>
        rw [Option.some.injEq] at hloop
        subst hloop
        have hwon := step_cas_won item h (s := s.setProd p (.cas item h)) (p := p)
          (b := b) (by simp) hwin
        have hwrite := step_writeData item h (b := b)
          (s := ({ s with q := { s.q with head := u64 (h + 1) }, claims := s.claims ++ [(p, item)] } :
            Shared P α).setProd p (.writeData item h)) (p := p) (by simp)
        refine ⟨[b, b, b, b], ?_⟩
        simp only [List.map_cons, List.map_nil, Steps.run_cons, hcas, Option.bind_some, hwon]
        simp only [Shared.setProd, Function.update_idem] at hwrite ⊢
        rw [hwrite, Option.bind_some, step_storeSeq item h (by simp)]
        simp [Shared.pushed, Shared.setProd]
      · next hlost =>
        have hfail : step (s.setProd p (.cas item h)) (.produce p b) =
            some (s.setProd p (.loadSeq item s.q.head)) := by
          simp only [step, produceStep, setProd_prod, Function.update_self, setProd_q, hlost]
          simp [Shared.setProd]
        have hq : (s.setProd p (.loadSeq item s.q.head)).q = s.q := rfl
        obtain ⟨bs, hbs⟩ := ih (s := s.setProd p (.loadSeq item s.q.head)) (by simp) (hq ▸ hloop)
        refine ⟨b :: b :: bs, ?_⟩
        simp only [List.map_cons, Steps.run_cons, hcas, Option.bind_some, hfail]
        simpa [Shared.pushed, Shared.setProd] using hbs
    · split at hloop
      · next hdiff hneg =>
        rw [Option.some.injEq] at hloop
        subst hloop
        refine ⟨[b], ?_⟩
        simp [Steps.run_cons, step, produceStep, hpc, hdiff, hneg, Shared.pushed, Shared.setProd]
      · next hdiff hneg =>
        have hagain : step s (.produce p b) = some (s.setProd p (.loadHead item)) := by
          simp only [step, produceStep, hpc, hdiff, hneg, if_false]
        have hload : step (s.setProd p (.loadHead item)) (.produce p b) =
            some (s.setProd p (.loadSeq item s.q.head)) := by
          simp [step, produceStep, Shared.setProd]
        have hq : (s.setProd p (.loadSeq item s.q.head)).q = s.q := rfl
        obtain ⟨bs, hbs⟩ := ih (s := s.setProd p (.loadSeq item s.q.head)) (by simp) (hq ▸ hloop)
        refine ⟨b :: b :: bs, ?_⟩
        simp only [List.map_cons, Steps.run_cons, hagain, Option.bind_some, hload]
        simpa [Shared.pushed, Shared.setProd] using hbs

theorem run_push_alone {s : Shared P α} {p : P} {item : α} {rounds : List Bool}
    {r : MpscQueue α × OtlpStatus} (hidle : s.prod p = .idle)
    (hpush : mpscQueuePush s.q item rounds = some r) :
    ∃ bs : List Bool, Steps.run step s (.push p item :: bs.map (Act.produce p)) =
      some (Shared.pushed { s with calls := s.calls ++ [(p, item)] } p item r) := by
  have hbegin : step s (.push p item) =
      some (Shared.setProd { s with calls := s.calls ++ [(p, item)] } p (.loadHead item)) := by
    simp only [step, hidle]
  obtain ⟨bs, hbs⟩ := run_pushLoop_alone (h := s.q.head) (r := r)
    (s := Shared.setProd { s with calls := s.calls ++ [(p, item)] } p (.loadSeq item s.q.head)) (p := p)
    (by simp) hpush
  refine ⟨true :: bs, ?_⟩
  simp only [List.map_cons, Steps.run_cons, hbegin, Option.bind_some]
  have hload : step (Shared.setProd { s with calls := s.calls ++ [(p, item)] } p (.loadHead item))
      (.produce p true) =
      some (Shared.setProd { s with calls := s.calls ++ [(p, item)] } p (.loadSeq item s.q.head)) := by
    simp [step, produceStep, Shared.setProd]
  rw [hload, Option.bind_some, hbs]
  simp [Shared.pushed, Shared.setProd]

end OtlpC.Queue
