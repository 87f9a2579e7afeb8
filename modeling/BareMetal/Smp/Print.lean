import BareMetal.Uart
import Mathlib.Data.List.Basic

/-!
# Printing under the spinlock

`src/smp/spinlock.c` takes the lock with an `amoswap.w` in a retry loop, which
swaps the register it tests back in; `src/smp/smp_print.c` wraps each printer
in one `spin_lock` and one `spin_unlock`.

The harts are interleaved one access at a time, in any order.  `Inv` says that
the lock word is the number of harts that own the lock, that the retry register
holds 1, and that the UART has been sent whole calls plus the part of the
owner's call that it has got through.
-/

namespace BareMetal
namespace Smp

open Machine Uart

abbrev NHART : Nat := 2

instance : NeZero NHART := ⟨Nat.succ_ne_zero 1⟩

abbrev HartId := Fin NHART

/-! ## The calls -/

/-- The calls of `smp_print.c`. -/
inductive Call
  | lockedPuts (s : List UInt8)
  | lockedPrintKv (label : List UInt8) (v : Word) (hex : BitVec 32)
  | lockedPrintLine2 (a : List UInt8) (va : Word) (b : List UInt8) (vb : Word) (hex : BitVec 32)
  deriving DecidableEq

/-- `if (hex) uart_put_hex(v); else uart_put_dec(v);` -/
def putNumber (hex : BitVec 32) (v : Word) : List Op :=
  if hex ≠ 0 then uartPutHex v else uartPutDec v

/-- What a call does between `spin_lock` and `spin_unlock`. -/
def Call.body : Call → List Op
  | .lockedPuts s => uartPuts s
  | .lockedPrintKv label v hex =>
      uartPuts label ++ uartPutc 0x3d ++ putNumber hex v ++ uartPutc 0x0a
  | .lockedPrintLine2 a va b vb hex =>
      uartPuts a ++ uartPutc 0x3d ++ putNumber hex va ++ uartPutc 0x20 ++
        uartPuts b ++ uartPutc 0x3d ++ putNumber hex vb ++ uartPutc 0x0a

/-- The bytes a call prints. -/
def Call.printed (c : Call) : List UInt8 :=
  sent c.body

/-- Where a hart is inside a call.  `old` is the register of the retry loop. -/
inductive CallPc
  | li
  | swap (old : Word)
  | bnez (old : Word)
  | body (ops : List Op)
  | fence
  | unlock
  deriving DecidableEq

/-- What an access changes outside the hart. -/
inductive Access
  | none
  | lock (v : BitVec 32)
  | thr (c : UInt8)
  deriving DecidableEq

/-- One access of a call, given the lock word and whether the transmitter is
ready.  The call is over when there is no next position. -/
def CallPc.step (c : Call) (lock : BitVec 32) (thre : Bool) : CallPc → Option CallPc × Access
  | .li => (some (.swap 1), .none)
  | .swap old => (some (.bnez (lock.signExtend 64)), .lock (old.setWidth 32))
  | .bnez old => (some (if old ≠ 0 then .swap old else .body c.body), .none)
  | .body [] => (some .fence, .none)
  | .body (.waitThre :: ops) => (some (.body (if thre then ops else .waitThre :: ops)), .none)
  | .body (.thr b :: ops) => (some (.body ops), .thr b)
  | .fence => (some .unlock, .none)
  | .unlock => (none, .lock 0)

/-! ## The harts together -/

/-- A hart: the call it is in, and the calls it will make after that. -/
structure Printer where
  current : Option (Call × CallPc)
  todo : List Call

/-- The harts, the lock word `uart_lock.locked`, and the bytes the UART has
been sent. -/
structure System where
  harts : HartId → Printer
  lock : BitVec 32
  out : List UInt8

/-- One step of one hart, with the state of the transmitter it would see. -/
structure Event where
  hart : HartId
  thre : Bool

def Access.run (s : System) : Access → System
  | .none => s
  | .lock v => { s with lock := v }
  | .thr c => { s with out := s.out ++ [c] }

def System.setHart (s : System) (i : HartId) (p : Printer) : System :=
  { s with harts := Function.update s.harts i p }

/-- A hart goes on with its call, or makes the next one. -/
def step (s : System) (e : Event) : System :=
  let p := s.harts e.hart
  match p.current with
  | some (c, pc) =>
      let out := pc.step c s.lock e.thre
      (out.2.run s).setHart e.hart { p with current := out.1.map fun pc => (c, pc) }
  | none =>
      match p.todo with
      | [] => s
      | c :: todo => s.setHart e.hart ⟨some (c, .li), todo⟩

def run (s : System) (events : List Event) : System :=
  events.foldl step s

/-- The lock is free and nothing has been sent. -/
def start (calls : HartId → List Call) : System where
  harts := fun i => ⟨none, calls i⟩
  lock := 0
  out := []

/-! ## The invariant -/

/-- The hart has won the swap and has not stored the 0 yet. -/
def CallPc.owns : CallPc → Bool
  | .li | .swap _ => false
  | .bnez old => old == 0
  | .body _ | .fence | .unlock => true

/-- The hart is between the return of `spin_lock` and the store of
`spin_unlock`. -/
def CallPc.critical : CallPc → Bool
  | .body _ | .fence | .unlock => true
  | _ => false

/-- The register of the retry loop holds what it should. -/
def CallPc.RegOk : CallPc → Prop
  | .swap old => old = 1
  | .bnez old => old = 0 ∨ old = 1
  | _ => True

/-- `part` is what the owner has printed of its call. -/
def CallPc.Printed (c : Call) (part : List UInt8) : CallPc → Prop
  | .li | .swap _ | .bnez _ => part = []
  | .body ops => part ++ sent ops = c.printed
  | .fence | .unlock => part = c.printed

theorem CallPc.Printed.isPrefix {c : Call} {part : List UInt8} {pc : CallPc}
    (hpc : pc.Printed c part) : part <+: c.printed := by
  cases pc with
  | li | swap | bnez =>
      rw [show part = [] from hpc]
      exact List.nil_prefix
  | body ops => exact ⟨sent ops, hpc⟩
  | fence | unlock =>
      rw [show part = c.printed from hpc]

theorem CallPc.owns_of_critical {pc : CallPc} (hpc : pc.critical = true) : pc.owns = true := by
  cases pc <;> first | rfl | cases hpc

namespace Printer

variable (p : Printer)

def owns : Bool :=
  p.current.any fun (_, pc) => pc.owns

def critical : Bool :=
  p.current.any fun (_, pc) => pc.critical

/-- The calls the hart has not finished. -/
def calls : List Call :=
  p.current.toList.map Prod.fst ++ p.todo

theorem owns_of_critical (hp : p.critical = true) : p.owns = true := by
  obtain ⟨current, todo⟩ := p
  cases current with
  | none => exact hp
  | some at' => exact CallPc.owns_of_critical hp

end Printer

/-- The calls of one hart in a list of finished calls. -/
def callsOf (i : HartId) (order : List (HartId × Call)) : List Call :=
  (order.filter fun p => p.1 = i).map Prod.snd

theorem callsOf_concat (i : HartId) (order : List (HartId × Call)) (j : HartId) (c : Call) :
    callsOf i (order ++ [(j, c)]) = callsOf i order ++ if j = i then [c] else [] := by
  rw [callsOf, List.filter_append, List.map_append, callsOf]
  by_cases hji : j = i
  · simp [hji]
  · simp [hji]

/-- The blocks that a list of finished calls has printed. -/
def blocks (order : List (HartId × Call)) : List UInt8 :=
  order.flatMap fun p => p.2.printed

theorem blocks_concat (order : List (HartId × Call)) (i : HartId) (c : Call) :
    blocks (order ++ [(i, c)]) = blocks order ++ c.printed := by
  simp [blocks]

/-- `order` are the finished calls in the order they were printed, `owner` has
the lock and has printed `part` of its call. -/
structure Inv (calls : HartId → List Call) (order : List (HartId × Call)) (owner : Option HartId)
    (part : List UInt8) (s : System) : Prop where
  regs : ∀ {i c pc}, (s.harts i).current = some (c, pc) → pc.RegOk
  owns : ∀ i, (s.harts i).owns = true ↔ owner = some i
  lock : s.lock = if owner.isSome then 1 else 0
  out : s.out = blocks order ++ part
  progress : ∀ {i c pc}, owner = some i → (s.harts i).current = some (c, pc) → pc.Printed c part
  free : owner = none → part = []
  account : ∀ i, calls i = callsOf i order ++ (s.harts i).calls

section Steps

variable {calls : HartId → List Call} {order order' : List (HartId × Call)}
variable {owner owner' : Option HartId} {part part' : List UInt8} {s : System}

theorem start_inv (calls : HartId → List Call) : Inv calls [] none [] (start calls) := by
  refine ⟨?_, ?_, rfl, rfl, ?_, fun _ => rfl, fun i => rfl⟩
  · intro i c pc hat
    cases hat
  · intro i
    simp [start, Printer.owns]
  · intro i c pc howner
    cases howner

/-- One hart moves on within its call.  Only the facts about this hart and the
shared words need to be shown. -/
theorem Inv.move (hs : Inv calls order owner part s) {i : HartId} {c : Call} {pc : CallPc}
    {todo : List Call} {lock : BitVec 32} {out : List UInt8} (hreg : pc.RegOk)
    (howns : pc.owns = true ↔ owner' = some i)
    (hother : ∀ j, j ≠ i → (owner' = some j ↔ owner = some j))
    (hlock : lock = if owner'.isSome then 1 else 0) (hout : out = blocks order ++ part')
    (hpart : owner' = some i → pc.Printed c part') (hkeep : owner' ≠ some i → part' = part)
    (hfree : owner' = none → owner = none) (hcalls : c :: todo = (s.harts i).calls) :
    Inv calls order owner' part'
      ⟨Function.update s.harts i ⟨some (c, pc), todo⟩, lock, out⟩ := by
  refine ⟨?_, fun j => ?_, hlock, hout, ?_, ?_, fun j => ?_⟩
  · intro j c' pc' hat
    by_cases hj : j = i
    · subst hj
      simp only [Function.update_self, Option.some.injEq, Prod.mk.injEq] at hat
      obtain ⟨-, rfl⟩ := hat
      exact hreg
    · simp only [Function.update_of_ne hj] at hat
      exact hs.regs hat
  · by_cases hj : j = i
    · subst hj
      simpa [Printer.owns] using howns
    · simp only [Function.update_of_ne hj]
      rw [hs.owns j, hother j hj]
  · intro j c' pc' howner hat
    by_cases hj : j = i
    · subst hj
      simp only [Function.update_self, Option.some.injEq, Prod.mk.injEq] at hat
      obtain ⟨rfl, rfl⟩ := hat
      exact hpart howner
    · simp only [Function.update_of_ne hj] at hat
      have hkept : part' = part := hkeep (by rw [howner]; simpa using hj)
      rw [hkept]
      exact hs.progress ((hother j hj).mp howner) hat
  · intro hnone
    have hkept : part' = part := hkeep (by rw [hnone]; simp)
    rw [hkept]
    exact hs.free (hfree hnone)
  · by_cases hj : j = i
    · subst hj
      rw [hs.account j, ← hcalls]
      simp [Printer.calls]
    · simp only [Function.update_of_ne hj]
      exact hs.account j

/-- A call has released the lock. -/
theorem Inv.release (hs : Inv calls order owner part s) {i : HartId} {c : Call}
    (hcurrent : (s.harts i).current = some (c, .unlock)) :
    Inv calls (order ++ [(i, c)]) none []
      ⟨Function.update s.harts i ⟨none, (s.harts i).todo⟩, 0, s.out⟩ := by
  have howner : owner = some i := by
    rw [← hs.owns i, Printer.owns, hcurrent]
    rfl
  have hpart : part = c.printed := hs.progress howner hcurrent
  refine ⟨?_, fun j => ?_, rfl, ?_, ?_, fun _ => rfl, fun j => ?_⟩
  · intro j c' pc' hat
    by_cases hj : j = i
    · subst hj
      simp at hat
    · simp only [Function.update_of_ne hj] at hat
      exact hs.regs hat
  · by_cases hj : j = i
    · subst hj
      simp [Printer.owns]
    · have hnot : ¬ (s.harts j).owns = true := by
        rw [hs.owns j, howner]
        simpa using Ne.symm hj
      simpa [Function.update_of_ne hj] using hnot
  · rw [blocks_concat, List.append_nil, ← hpart]
    exact hs.out
  · intro j c' pc' hnone
    cases hnone
  · rw [callsOf_concat, hs.account j]
    by_cases hj : j = i
    · subst hj
      simp [Printer.calls, hcurrent]
    · simp [Function.update_of_ne hj, Ne.symm hj]

theorem Inv.owns_at (hs : Inv calls order owner part s) {i : HartId} {c : Call} {pc : CallPc}
    (hcurrent : (s.harts i).current = some (c, pc)) : pc.owns = true ↔ owner = some i := by
  rw [← hs.owns i, Printer.owns, hcurrent]
  rfl

/-- A hart moves on and neither takes nor releases the lock. -/
theorem Inv.stay (hs : Inv calls order owner part s) {i : HartId} {c : Call} {pc next : CallPc}
    {out : List UInt8} (hcurrent : (s.harts i).current = some (c, pc)) (hreg : next.RegOk)
    (howns : next.owns = pc.owns) (hout : out = blocks order ++ part')
    (hpart : owner = some i → next.Printed c part') (hkeep : owner ≠ some i → part' = part) :
    Inv calls order owner part'
      ⟨Function.update s.harts i ⟨some (c, next), (s.harts i).todo⟩, s.lock, out⟩ := by
  refine hs.move hreg ?_ (fun j _ => Iff.rfl) hs.lock hout hpart hkeep id ?_
  · rw [howns]
    exact hs.owns_at hcurrent
  · rw [Printer.calls, hcurrent]
    rfl

/-- The swap either finds the lock free and takes it, or finds and leaves 1. -/
theorem Inv.swap (hs : Inv calls order owner part s) {i : HartId} {c : Call} {old : Word}
    (hcurrent : (s.harts i).current = some (c, .swap old)) :
    ∃ owner', Inv calls order owner' part
      ⟨Function.update s.harts i ⟨some (c, .bnez (s.lock.signExtend 64)), (s.harts i).todo⟩,
        old.setWidth 32, s.out⟩ := by
  have hone : old = 1 := hs.regs hcurrent
  have hwritten : old.setWidth 32 = (1 : BitVec 32) := by
    rw [hone]
    decide
  have hnot : owner ≠ some i := by
    intro howner
    have howns := (hs.owns_at hcurrent).mpr howner
    cases howns
  have hcalls : c :: (s.harts i).todo = (s.harts i).calls := by
    rw [Printer.calls, hcurrent]
    rfl
  cases howner : owner with
  | none =>
      have hlock : s.lock = 0 := by
        rw [hs.lock, howner]
        rfl
      have hread : s.lock.signExtend 64 = 0 := by
        rw [hlock]
        decide
      rw [hread]
      refine ⟨some i, hs.move (Or.inl rfl) (by simp [CallPc.owns]) (fun j hj => ?_) hwritten
        hs.out (fun _ => hs.free howner) (fun _ => rfl) (by simp) hcalls⟩
      rw [howner]
      simpa using Ne.symm hj
  | some j =>
      have hlock : s.lock = 1 := by
        rw [hs.lock, howner]
        rfl
      have hread : s.lock.signExtend 64 = 1 := by
        rw [hlock]
        decide
      rw [hread]
      rw [howner] at hnot
      refine ⟨some j, hs.move (Or.inr rfl) ?_ (fun k _ => by rw [howner]) hwritten
        hs.out (fun hi => absurd hi hnot) (fun _ => rfl) (by simp) hcalls⟩
      exact ⟨fun howns => absurd howns (by decide), fun hi => absurd hi hnot⟩

/-- A step inside a call. -/
theorem step_of_call {e : Event} {c : Call} {pc : CallPc} {next : Option CallPc}
    {access : Access} (hcurrent : (s.harts e.hart).current = some (c, pc))
    (hpc : pc.step c s.lock e.thre = (next, access)) :
    step s e = (access.run s).setHart e.hart
      ⟨next.map fun pc => (c, pc), (s.harts e.hart).todo⟩ := by
  simp only [step, hcurrent, hpc]

/-- A hart that is not in a call makes the next one, if there is one. -/
theorem step_inv_of_idle (hs : Inv calls order owner part s) {e : Event}
    (hcurrent : (s.harts e.hart).current = none) : Inv calls order owner part (step s e) := by
  have hnot : owner ≠ some e.hart := by
    rw [ne_eq, ← hs.owns e.hart, Printer.owns, hcurrent]
    simp
  cases htodo : (s.harts e.hart).todo with
  | nil =>
      have hsame : step s e = s := by simp only [step, hcurrent, htodo]
      rw [hsame]
      exact hs
  | cons c todo =>
      have hnext : step s e = s.setHart e.hart ⟨some (c, .li), todo⟩ := by
        simp only [step, hcurrent, htodo]
      rw [hnext]
      refine hs.move trivial ?_ (fun j _ => Iff.rfl) hs.lock hs.out
        (fun hi => absurd hi hnot) (fun _ => rfl) id ?_
      · exact ⟨fun howns => absurd howns (by decide), fun hi => absurd hi hnot⟩
      · simp [Printer.calls, hcurrent, htodo]

/-- Printing adds what it sends to the part of the owner's call. -/
theorem step_inv_of_body (hs : Inv calls order owner part s) {e : Event} {c : Call}
    {ops : List Op} (hcurrent : (s.harts e.hart).current = some (c, .body ops)) :
    ∃ part', Inv calls order owner part' (step s e) := by
  have howner : owner = some e.hart := (hs.owns_at hcurrent).mp rfl
  have hbody : part ++ sent ops = c.printed := hs.progress howner hcurrent
  have hmine : ∀ part', owner ≠ some e.hart → part' = part := fun _ hnot => absurd howner hnot
  cases ops with
  | nil =>
      rw [step_of_call hcurrent rfl]
      rw [sent_nil, List.append_nil] at hbody
      exact ⟨part, hs.stay hcurrent trivial rfl hs.out (fun _ => hbody) (hmine part)⟩
  | cons op ops =>
      cases op with
      | waitThre =>
          rw [step_of_call hcurrent rfl]
          refine ⟨part, hs.stay hcurrent trivial rfl hs.out (fun _ => ?_) (hmine part)⟩
          cases e.thre with
          | true => exact hbody
          | false => exact hbody
      | thr b =>
          rw [step_of_call hcurrent rfl]
          have hsent : part ++ [b] ++ sent ops = c.printed := by
            rw [List.append_assoc]
            exact hbody
          have hout : s.out ++ [b] = blocks order ++ (part ++ [b]) := by
            rw [hs.out, List.append_assoc]
          exact ⟨part ++ [b], hs.stay hcurrent trivial rfl hout (fun _ => hsent) (hmine _)⟩

/-- Every step of every hart keeps the invariant. -/
theorem step_inv (hs : Inv calls order owner part s) (e : Event) :
    ∃ order' owner' part', Inv calls order' owner' part' (step s e) := by
  cases hcurrent : (s.harts e.hart).current with
  | none => exact ⟨order, owner, part, step_inv_of_idle hs hcurrent⟩
  | some at' =>
      obtain ⟨c, pc⟩ := at'
      cases pc with
      | li =>
          have hprogress := fun howner => hs.progress (i := e.hart) howner hcurrent
          rw [step_of_call hcurrent rfl]
          exact ⟨order, owner, part, hs.stay hcurrent rfl rfl hs.out hprogress fun _ => rfl⟩
      | swap old =>
          obtain ⟨owner', hinv⟩ := hs.swap hcurrent
          rw [step_of_call hcurrent rfl]
          exact ⟨order, owner', part, hinv⟩
      | bnez old =>
          have hprogress := fun howner => hs.progress (i := e.hart) howner hcurrent
          rw [step_of_call hcurrent rfl]
          refine ⟨order, owner, part, ?_⟩
          rcases hs.regs hcurrent with rfl | rfl
          · refine hs.stay hcurrent trivial rfl hs.out (fun howner => ?_) fun _ => rfl
            rw [show part = [] from hprogress howner]
            rfl
          · exact hs.stay hcurrent rfl rfl hs.out hprogress fun _ => rfl
      | body ops =>
          obtain ⟨part', hinv⟩ := step_inv_of_body hs hcurrent
          exact ⟨order, owner, part', hinv⟩
      | fence =>
          have hprogress := fun howner => hs.progress (i := e.hart) howner hcurrent
          rw [step_of_call hcurrent rfl]
          exact ⟨order, owner, part, hs.stay hcurrent trivial rfl hs.out hprogress fun _ => rfl⟩
      | unlock =>
          rw [step_of_call hcurrent rfl]
          exact ⟨order ++ [(e.hart, c)], none, [], hs.release hcurrent⟩

end Steps

/-- The invariant holds in every state of every interleaving. -/
theorem run_inv (calls : HartId → List Call) (events : List Event) :
    ∃ order owner part, Inv calls order owner part (run (start calls) events) := by
  have hkept : ∀ s : System, (∃ order owner part, Inv calls order owner part s) → ∀ e ∈ events,
      ∃ order owner part, Inv calls order owner part (step s e) := by
    rintro s ⟨order, owner, part, hs⟩ e -
    exact step_inv hs e
  exact List.foldlRecOn events step ⟨[], none, [], start_inv calls⟩ hkept

/-! ## A call alone -/

/-- One step of hart 0 with the transmitter ready. -/
def ready : Event := ⟨0, true⟩

/-- What hart 0 prints when it makes one call and the other hart does nothing:
four steps up to the lock, the body, and three steps to release it. -/
def alone (c : Call) : List UInt8 :=
  (run (start fun i => if i = 0 then [c] else [])
    (List.replicate (4 + c.body.length + 3) ready)).out

theorem run_ready_succ (s : System) (n : Nat) :
    run s (List.replicate (n + 1) ready) = run (step s ready) (List.replicate n ready) :=
  rfl

/-- The body of a call that has the lock prints its bytes. -/
theorem run_body {s : System} {c : Call} (ops : List Op)
    (hcurrent : (s.harts 0).current = some (c, .body ops)) :
    (run s (List.replicate (ops.length + 3) ready)).out = s.out ++ sent ops := by
  induction ops generalizing s with
  | nil =>
      -- the call of `spin_unlock`, its fence and its store
      have hfence : ((step s ready).harts 0).current = some (c, .fence) := by
        rw [step_of_call (e := ready) hcurrent rfl]
        rfl
      have hunlock : ((step (step s ready) ready).harts 0).current = some (c, .unlock) := by
        rw [step_of_call (e := ready) hfence rfl]
        rfl
      calc (run s (List.replicate 3 ready)).out
          = (step (step (step s ready) ready) ready).out := rfl
        _ = (step (step s ready) ready).out := by
            rw [step_of_call (e := ready) hunlock rfl]
            rfl
        _ = (step s ready).out := by
            rw [step_of_call (e := ready) hfence rfl]
            rfl
        _ = s.out ++ sent [] := by
            rw [step_of_call (e := ready) hcurrent rfl, sent_nil, List.append_nil]
            rfl
  | cons op ops ih =>
      rw [List.length_cons, Nat.add_right_comm, run_ready_succ]
      cases op with
      | waitThre =>
          rw [ih]
          · rw [step_of_call (e := ready) hcurrent rfl, sent_waitThre]
            rfl
          · rw [step_of_call (e := ready) hcurrent rfl]
            rfl
      | thr b =>
          rw [ih]
          · rw [step_of_call (e := ready) hcurrent rfl, sent_thr, List.append_cons]
            rfl
          · rw [step_of_call (e := ready) hcurrent rfl]
            rfl

theorem alone_eq_printed (c : Call) : alone c = c.printed := by
  have hbody := run_body (s := run (start fun i => if i = 0 then [c] else [])
    (List.replicate 4 ready)) (c := c) c.body rfl
  calc alone c
      = (run (run (start fun i => if i = 0 then [c] else []) (List.replicate 4 ready))
          (List.replicate (c.body.length + 3) ready)).out := by
        rw [alone, Nat.add_assoc, List.replicate_add, run, List.foldl_append]
        rfl
    _ = c.printed := hbody

/-! ## Main result -/

/-- Locked printing in every interleaving: the lock word is 0 or 1, at most one
hart is in its critical section, a retry swaps in 1, and the output is a
sequence of whole calls, each printed as it would be alone, followed by the
part that the owner has printed of its call.  The finished calls of each hart
are the first calls of its program, in order. -/
theorem locked_output (calls : HartId → List Call) (events : List Event) :
    let s := run (start calls) events
    (s.lock = 0 ∨ s.lock = 1) ∧
    (∀ i j, (s.harts i).critical = true → (s.harts j).critical = true → i = j) ∧
    (∀ i c old, (s.harts i).current = some (c, .swap old) → old = 1) ∧
    ∃ (order : List (HartId × Call)) (part : List UInt8),
      s.out = (order.flatMap fun p => alone p.2) ++ part ∧
      (∀ i, calls i = callsOf i order ++ (s.harts i).calls) ∧
      (part = [] ∨ ∃ i c pc, (s.harts i).current = some (c, pc) ∧ pc.owns = true ∧
        part <+: alone c) := by
  obtain ⟨order, owner, part, hs⟩ := run_inv calls events
  dsimp only
  generalize run (start calls) events = s at hs
  refine ⟨?_, fun i j hi hj => ?_, fun i c old hat => hs.regs hat, order, part, ?_, hs.account, ?_⟩
  · rw [hs.lock]
    cases owner with
    | none => exact Or.inl rfl
    | some i => exact Or.inr rfl
  · have hfirst := (hs.owns i).mp (Printer.owns_of_critical _ hi)
    have hsecond := (hs.owns j).mp (Printer.owns_of_critical _ hj)
    exact Option.some.inj (hfirst.symm.trans hsecond)
  · simp only [alone_eq_printed]
    exact hs.out
  · cases howner : owner with
    | none => exact Or.inl (hs.free howner)
    | some i =>
        have howns := (hs.owns i).mpr howner
        cases hcurrent : (s.harts i).current with
        | none =>
            rw [Printer.owns, hcurrent] at howns
            cases howns
        | some at' =>
            obtain ⟨c, pc⟩ := at'
            refine Or.inr ⟨i, c, pc, hcurrent, (hs.owns_at hcurrent).mpr howner, ?_⟩
            rw [alone_eq_printed]
            exact (hs.progress howner hcurrent).isPrefix

end Smp
end BareMetal
