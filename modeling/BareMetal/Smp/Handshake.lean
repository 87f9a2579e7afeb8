import BareMetal.Smp.BootSteps

/-!
# The boot handshake

`smp_release` reads 0 until hart 0 has cleared BSS and stamped
`t_release_cycles`, so hart 1 is still waiting until then; from then on hart 0
stores only to its own stack, to the lock and to its own two variables.
`hart1_done` is 0 until hart 1 has made all its other stores, so a hart 0 that
has read something else finds a parked hart 1 and its final values.

`Inv` collects what the two harts know of each other.
-/

namespace BareMetal
namespace Smp
namespace Boot

open Machine Uart

/-! ## The invariant -/

/-- A store covers a byte. -/
def Covered (st : Store) (a : Nat) : Prop :=
  st.addr ≤ a ∧ a < st.addr + st.width

/-- The bytes that are hart 1's alone: its results, the done flag and its
stack. -/
def Image.Hart1Byte (im : Image) (a : Nat) : Prop :=
  (∃ x : Var, (x.isResult = true ∨ x = .hart1Done) ∧ im.Covers x a) ∨
    (im.base 1 ≤ a ∧ a < im.base 2)

/-- Hart 0 does not overwrite with the later store what hart 1 may have written
with the earlier one. -/
def Kept (im : Image) (earlier later : Write) : Prop :=
  earlier.hart = 1 → later.hart = 0 → ∀ a, im.Hart1Byte a → ¬ Covered later.store a

/-- The store has a byte of the variable. -/
def Image.touches (im : Image) (x : Var) (st : Store) : Bool :=
  st.addr < im.addr x + x.width ∧ im.addr x < st.addr + st.width

/-- The stores of hart 1 that touch a variable. -/
def State.storesTo (s : State) (im : Image) (x : Var) : List Write :=
  s.stores.filter fun w => w.hart = 1 ∧ im.touches x w.store

/-- What holds between two steps of the machine. -/
structure Inv (im : Image) (s : State) : Prop where
  zone0 : (s.harts 0).pc.OnHart0
  zone1 : (s.harts 1).pc.OnHart1
  sp0 : (s.harts 0).pc ≠ .start → (s.harts 0).sp = im.base 1
  sp1 : (s.harts 1).pc ≠ .start → (s.harts 1).sp = im.base 2
  closed : (s.harts 0).pc.index ≤ RELEASE →
    (∀ a, im.Covers .smpRelease a → s.mem a = 0) ∧ (s.harts 1).pc.Waiting
  parked : (s.harts 1).pc.index ≤ PARKED
  undone : (s.harts 1).pc.index < PARKED →
    ∀ a, im.Covers .hart1Done a → a < (s.harts 0).pc.clearedTo im → s.mem a = 0
  seen : REPORT ≤ (s.harts 0).pc.index ∨ (s.harts 0).SawDone → (s.harts 1).pc.index = PARKED
  cleared : ∀ a, im.bssStart ≤ a → a < (s.harts 0).pc.clearedTo im →
    ∃ w ∈ s.stores, w.hart = 0 ∧ Covered w.store a
  stamped : 8 < (s.harts 0).pc.index → ∃ v, ⟨0, storeVar im .tReleaseCycles v⟩ ∈ s.stores
  silent : ∀ w ∈ s.stores, w.hart = 1 → (s.harts 1).pc.inFn .hart1Main
  order : s.stores.Pairwise (Kept im)
  stores : ∀ {x}, x.isResult = true → s.storesTo im x =
    if storedAt x < (s.harts 1).pc.index then [⟨1, storeVar im x ((s.harts 1).loc.result x)⟩]
    else []
  values : ∀ {x}, x.isResult = true → storedAt x < (s.harts 1).pc.index →
    loadVar im s.mem x = (s.harts 1).loc.result x
  loads : ∀ {x v}, (0, x, v) ∈ s.loads → x.isResult = true →
    (s.harts 1).pc.index = PARKED ∧ v = (s.harts 1).loc.result x

theorem boot_inv {im : Image} {mem : ByteMem} {sp : HartId → Nat} {loc : HartId → Locals}
    (hrelease : loadLE mem (im.addr .smpRelease) 4 = 0) : Inv im (boot mem sp loc) where
  zone0 := trivial
  zone1 := trivial
  sp0 := fun hstart => absurd rfl hstart
  sp1 := fun hstart => absurd rfl hstart
  closed := fun _ => ⟨bytes_zero_iff.mpr hrelease, trivial⟩
  parked := by simp [boot, Pc.index]
  undone := by
    intro _ a hdone hlow
    have hbss := (im.varsInBss (x := .hart1Done) (by decide)).1
    exact absurd (lt_of_le_of_lt (hbss.trans hdone.1) hlow) (lt_irrefl _)
  seen := by simp [boot, Pc.index, REPORT, HartState.SawDone]
  cleared := fun a hlow hhigh => absurd (lt_of_le_of_lt hlow hhigh) (lt_irrefl _)
  stamped := by simp [boot, Pc.index]
  silent := by simp [boot]
  order := List.Pairwise.nil
  stores := by simp [boot, State.storesTo, Pc.index]
  values := by simp [boot, Pc.index]
  loads := by simp [boot]

section Apply

variable {im : Image} {s : State} {i j : HartId} {h' : HartState} {eff : Effect}

@[simp] theorem apply_harts_self : (s.apply i h' eff).harts i = h' :=
  Function.update_self ..

theorem apply_harts_of_ne (hj : j ≠ i) : (s.apply i h' eff).harts j = s.harts j :=
  Function.update_of_ne hj ..

theorem apply_mem {a : Nat} (h : ∀ st, eff.store = some st → Apart a 1 st.addr st.width) :
    (s.apply i h' eff).mem a = s.mem a := by
  cases hst : eff.store with
  | none => simp only [State.apply, hst, Option.elim_none]
  | some st =>
      simp only [State.apply, hst, Option.elim_some]
      exact Store.run_of_apart (h st hst)

theorem apply_loadVar {x : Var}
    (h : ∀ st, eff.store = some st → Apart (im.addr x) x.width st.addr st.width) :
    loadVar im (s.apply i h' eff).mem x = loadVar im s.mem x := by
  cases hst : eff.store with
  | none => simp only [State.apply, hst, Option.elim_none]
  | some st =>
      simp only [State.apply, hst, Option.elim_some]
      exact loadVar_of_apart (h st hst)

theorem mem_apply_stores {w : Write} :
    w ∈ (s.apply i h' eff).stores ↔ w ∈ s.stores ∨ ∃ st, eff.store = some st ∧ w = ⟨i, st⟩ := by
  simp [State.apply, eq_comm]

theorem mem_apply_loads {k : HartId} {x : Var} {v : Word} :
    (k, x, v) ∈ (s.apply i h' eff).loads ↔
      (k, x, v) ∈ s.loads ∨ (k = i ∧ eff.load = some (x, v)) := by
  simp [State.apply, eq_comm, and_comm]

/-- A step that does not touch a variable, or is not hart 1's, adds no store of
hart 1 to it. -/
theorem storesTo_apply {x : Var}
    (h : ∀ st, eff.store = some st → i = 1 → Apart (im.addr x) x.width st.addr st.width) :
    (s.apply i h' eff).storesTo im x = s.storesTo im x := by
  rw [State.storesTo, State.storesTo]
  cases hst : eff.store with
  | none => simp [State.apply, hst]
  | some st =>
      have hnot : ¬ (i = 1 ∧ im.touches x st = true) := by
        rintro ⟨hi, htouch⟩
        have hapart := h st hst hi
        simp only [Image.touches, decide_eq_true_eq] at htouch
        unfold Apart at hapart
        omega
      simp [State.apply, hst, hnot]

/-- Hart 1's stores are not in a step of hart 0. -/
theorem mem_stores_of_hart1 {w : Write} (hw : w ∈ (s.apply 0 h' eff).stores) (hone : w.hart = 1) :
    w ∈ s.stores := by
  rcases mem_apply_stores.mp hw with hold | ⟨st, -, rfl⟩
  · exact hold
  · exact absurd hone Fin.zero_ne_one

theorem storesTo_apply_hart0 {x : Var} : (s.apply 0 h' eff).storesTo im x = s.storesTo im x :=
  storesTo_apply fun _ _ hi => absurd hi Fin.zero_ne_one

end Apply

section Keeps

variable {im : Image} {s : State} {h' : HartState} {eff : Effect}

theorem Pc.Waiting.outside {pc : Pc} (hwait : pc.Waiting) :
    ¬ pc.inFn .hart1Main ∧ pc.index = 0 := by
  cases pc <;> first | exact ⟨id, rfl⟩ | exact hwait.elim

/-- Hart 1 is in `hart1_main` only after the release. -/
theorem Inv.released (hs : Inv im s) (hin : (s.harts 1).pc.inFn .hart1Main) :
    RELEASE < (s.harts 0).pc.index := by
  by_contra hnot
  obtain ⟨-, hwait⟩ := hs.closed (Nat.le_of_not_lt hnot)
  exact hwait.outside.1 hin

theorem clearedTo_of_index {pc : Pc} (hpc : pc.index ≠ 0) : pc.clearedTo im = im.bssEnd := by
  cases pc <;> first | rfl | exact absurd rfl hpc

/-- A done flag other than 0 is hart 1's. -/
theorem Inv.parked_of_done (hs : Inv im s) (hend : (s.harts 0).pc.clearedTo im ≥ im.bssEnd)
    (hdone : loadVar im s.mem .hart1Done ≠ 0) : (s.harts 1).pc.index = PARKED := by
  by_contra hnot
  have hbefore : (s.harts 1).pc.index < PARKED := lt_of_le_of_ne hs.parked hnot
  refine hdone (loadVar_eq_zero fun a ha => hs.undone hbefore a ha ?_)
  have hbss := (im.varsInBss (x := .hart1Done) (by decide)).2
  exact lt_of_lt_of_le ha.2 (hbss.trans hend)

/-- Hart 0's stores outside the clearing loop are not to hart 1's bytes. -/
theorem Target.not_hart1Byte {st : Store} (ht : Target im 0 Var.ofHart0 st) {a : Nat}
    (ha : im.Hart1Byte a) : ¬ Covered st a := by
  rintro ⟨hlow, hhigh⟩
  rcases ha with ⟨x, hx, hcovers⟩ | ⟨hbase, htop⟩
  · have hnot : ¬ x.ofHart0 := by
      rintro (rfl | rfl | rfl) <;> exact absurd hx (by decide)
    have hapart := hcovers.apart (ht.apart_var hnot)
    unfold Apart at hapart
    omega
  · have hapart := ht.apart_slice (j := 1) (by decide)
    have htop' : im.base 2 = im.base 1 + HART_STACK_SIZE := by
      simp only [Image.base, HART_STACK_SIZE]
    unfold Apart at hapart
    simp only [Fin.val_one] at hapart
    omega

theorem Inv.step0 (hs : Inv im s) (hst : Step0 im s.mem (s.harts 0) h' eff) :
    Inv im (s.apply 0 h' eff) := by
  have hother : (s.apply 0 h' eff).harts 1 = s.harts 1 := apply_harts_of_ne (by decide)
  have hapart : ∀ {x : Var}, x.isResult = true ∨ x = .hart1Done → ∀ st, eff.store = some st →
      Apart (im.addr x) x.width st.addr st.width := by
    intro x hx st heff
    refine (hst.target heff).apart_var ?_
    rintro (rfl | rfl | rfl) <;> exact absurd hx (by decide)
  have hbefore : h'.pc.index ≤ RELEASE → (s.harts 0).pc.index ≤ RELEASE := fun hle =>
    Nat.le_of_not_lt fun hlt => absurd (hst.released hlt) (Nat.not_lt.mpr hle)
  refine
    { zone0 := ?zone0, zone1 := ?zone1, sp0 := ?sp0, sp1 := ?sp1, closed := ?closed,
      parked := ?parked, undone := ?undone, seen := ?seen, cleared := ?cleared,
      stamped := ?stamped, silent := ?silent, order := ?order, stores := ?stores,
      values := ?values, loads := ?loads }
  all_goals try simp only [apply_harts_self, hother]
  case zone0 => exact hst.zone
  case zone1 => exact hs.zone1
  case sp0 => exact hst.sp
  case sp1 => exact hs.sp1
  case closed =>
    intro hle
    obtain ⟨hzero, hwait⟩ := hs.closed (hbefore hle)
    refine ⟨fun a ha => ?_, hwait⟩
    rw [apply_mem fun st heff => ha.apart (hst.release heff hle)]
    exact hzero a ha
  case parked => exact hs.parked
  case undone =>
    intro hlt a ha hcleared
    rw [apply_mem fun st heff => ha.apart (hapart (Or.inr rfl) st heff)]
    exact hs.undone hlt a ha (hcleared.trans_le hst.cleared)
  case seen =>
    rintro (hreport | hsaw)
    · exact hs.seen (hst.report hreport)
    · rcases hst.sawDone hsaw with hold | hdone
      · exact hs.seen (Or.inr hold)
      · refine hs.parked_of_done ?_ hdone
        have hinC : h'.pc.index ≠ 0 := by
          rw [hsaw.1]
          decide
        rw [ge_iff_le, ← clearedTo_of_index hinC]
        exact hst.cleared
  case cleared =>
    intro a hlow hhigh
    obtain ⟨w, hw, hcovers⟩ := hs.cleared a hlow (hhigh.trans_le hst.cleared)
    exact ⟨w, mem_apply_stores.mpr (Or.inl hw), hcovers⟩
  case stamped =>
    intro hpast
    rcases hst.stamped hpast with hold | ⟨v, heff⟩
    · obtain ⟨v, hv⟩ := hs.stamped hold
      exact ⟨v, mem_apply_stores.mpr (Or.inl hv)⟩
    · exact ⟨v, mem_apply_stores.mpr (Or.inr ⟨_, heff, rfl⟩)⟩
  case silent => exact fun w hw hone => hs.silent w (mem_stores_of_hart1 hw hone) hone
  case order =>
    rw [State.apply, List.pairwise_append]
    refine ⟨hs.order, ?_, ?_⟩
    · cases eff.store <;> simp
    · intro v _ w hw _ _ a ha
      obtain ⟨st, heff, rfl⟩ := List.mem_map.mp hw
      exact (hst.target (Option.mem_toList.mp heff)).not_hart1Byte ha
  case stores =>
    intro x hx
    rw [storesTo_apply_hart0]
    exact hs.stores hx
  case values =>
    intro x hx hpast
    rw [apply_loadVar (hapart (Or.inl hx))]
    exact hs.values hx hpast
  case loads =>
    intro x v hload hx
    rcases mem_apply_loads.mp hload with hold | ⟨-, hnew⟩
    · exact hs.loads hold hx
    · obtain ⟨hreport, rfl⟩ := hst.load hnew hx
      have hparked := hs.seen (Or.inl hreport)
      refine ⟨hparked, hs.values hx ?_⟩
      rw [hparked]
      cases x <;> decide

/-- A zero byte stays 0 when zeros are stored. -/
theorem run_zeros {m : ByteMem} {t0 a : Nat} :
    (⟨t0, 8, 0⟩ : Store).run m a = if t0 ≤ a ∧ a < t0 + 8 then 0 else m a := by
  simp only [Store.run, storeLE, writeBytes, Nat.zero_div]
  rfl

theorem Inv.clear (hs : Inv im s) {t0 : Nat} (hpc : (s.harts 0).pc = .bssStore t0) :
    Inv im (s.apply 0 { s.harts 0 with pc := .bssLoop (t0 + 8) }
      ⟨some ⟨t0, 8, 0⟩, none, none⟩) := by
  generalize hh' : ({ s.harts 0 with pc := Pc.bssLoop (t0 + 8) } : HartState) = h'
  have hpc' : h'.pc = .bssLoop (t0 + 8) := by rw [← hh']
  have hother : (s.apply 0 h' ⟨some ⟨t0, 8, 0⟩, none, none⟩).harts 1 = s.harts 1 :=
    apply_harts_of_ne (by decide)
  obtain ⟨hzero, hwait⟩ := hs.closed (by rw [hpc]; exact Nat.zero_le _)
  obtain ⟨hout, hindex⟩ := hwait.outside
  have hmem : ∀ a, (s.apply 0 h' ⟨some ⟨t0, 8, 0⟩, none, none⟩).mem a =
      if t0 ≤ a ∧ a < t0 + 8 then 0 else s.mem a := fun a => run_zeros
  refine
    { zone0 := ?zone0, zone1 := ?zone1, sp0 := ?sp0, sp1 := ?sp1, closed := ?closed,
      parked := ?parked, undone := ?undone, seen := ?seen, cleared := ?cleared,
      stamped := ?stamped, silent := ?silent, order := ?order, stores := ?stores,
      values := ?values, loads := ?loads }
  all_goals try simp only [apply_harts_self, hother, hpc']
  case zone0 => trivial
  case zone1 => exact hs.zone1
  case sp0 =>
    intro _
    rw [← hh']
    exact hs.sp0 (by rw [hpc]; exact Pc.noConfusion)
  case sp1 => exact hs.sp1
  case closed =>
    refine fun _ => ⟨fun a ha => ?_, hwait⟩
    rw [hmem, hzero a ha, ite_self]
  case parked => exact hs.parked
  case undone =>
    intro hlt a ha hbelow
    rw [hmem]
    split
    · rfl
    · refine hs.undone hlt a ha ?_
      rw [hpc]
      simp only [Pc.clearedTo] at hbelow ⊢
      omega
  case seen =>
    rintro (hreport | hsaw)
    · exact absurd hreport (by simp [Pc.index, REPORT])
    · rw [HartState.SawDone, hpc'] at hsaw
      exact absurd hsaw.1 (by simp [Pc.index])
  case cleared =>
    intro a hlow hbelow
    simp only [Pc.clearedTo] at hbelow
    by_cases hold : a < t0
    · obtain ⟨w, hw, hcovers⟩ := hs.cleared a hlow (by rw [hpc]; exact hold)
      exact ⟨w, mem_apply_stores.mpr (Or.inl hw), hcovers⟩
    · refine ⟨_, mem_apply_stores.mpr (Or.inr ⟨_, rfl, rfl⟩), rfl, ?_⟩
      exact ⟨Nat.le_of_not_lt hold, hbelow⟩
  case stamped =>
    intro hpast
    exact absurd hpast (Nat.not_lt_zero _)
  case silent => exact fun w hw hone => hs.silent w (mem_stores_of_hart1 hw hone) hone
  case order =>
    rw [State.apply, List.pairwise_append]
    refine ⟨hs.order, by simp, ?_⟩
    intro v hv w _ hone
    exact absurd (hs.silent v hv hone) hout
  case stores =>
    intro x hx
    rw [storesTo_apply_hart0]
    exact hs.stores hx
  case values =>
    intro x hx hpast
    rw [hindex] at hpast
    exact absurd hpast (Nat.not_lt_zero _)
  case loads =>
    intro x v hload hx
    rcases mem_apply_loads.mp hload with hold | ⟨-, hnew⟩
    · exact hs.loads hold hx
    · cases hnew

theorem Inv.step1 (hs : Inv im s) (hst : Step1 im s.mem (s.harts 1) h' eff) :
    Inv im (s.apply 1 h' eff) := by
  have hother : (s.apply 1 h' eff).harts 0 = s.harts 0 := apply_harts_of_ne (by decide)
  have hstays : (s.harts 1).pc.index = PARKED → h'.pc.index = PARKED := fun hparked =>
    le_antisymm hst.parked (hparked ▸ hst.index)
  refine
    { zone0 := ?zone0, zone1 := ?zone1, sp0 := ?sp0, sp1 := ?sp1, closed := ?closed,
      parked := ?parked, undone := ?undone, seen := ?seen, cleared := ?cleared,
      stamped := ?stamped, silent := ?silent, order := ?order, stores := ?stores,
      values := ?values, loads := ?loads }
  all_goals try simp only [apply_harts_self, hother]
  case zone0 => exact hs.zone0
  case zone1 => exact hst.zone
  case sp0 => exact hs.sp0
  case sp1 => exact hst.sp
  case closed =>
    intro hle
    obtain ⟨hzero, hwait⟩ := hs.closed hle
    refine ⟨fun a ha => ?_, hst.waiting hwait (loadVar_eq_zero hzero)⟩
    rw [apply_mem fun st heff => absurd (hst.target heff).2 hwait.outside.1]
    exact hzero a ha
  case parked => exact hst.parked
  case undone =>
    intro hlt a ha hbelow
    rw [apply_mem fun st heff => ha.apart (hst.unstored (Or.inr rfl) (Nat.le_of_lt_succ hlt) heff)]
    exact hs.undone (hst.index.trans_lt hlt) a ha hbelow
  case seen => exact fun hseen => hstays (hs.seen hseen)
  case cleared =>
    intro a hlow hhigh
    obtain ⟨w, hw, hcovers⟩ := hs.cleared a hlow hhigh
    exact ⟨w, mem_apply_stores.mpr (Or.inl hw), hcovers⟩
  case stamped =>
    intro hpast
    obtain ⟨v, hv⟩ := hs.stamped hpast
    exact ⟨v, mem_apply_stores.mpr (Or.inl hv)⟩
  case silent =>
    intro w hw hone
    rcases mem_apply_stores.mp hw with hold | ⟨st, heff, rfl⟩
    · exact hst.inMain (hs.silent w hold hone)
    · exact hst.inMain (hst.target heff).2
  case order =>
    rw [State.apply, List.pairwise_append]
    refine ⟨hs.order, ?_, ?_⟩
    · cases eff.store <;> simp
    · intro v _ w hw _ hzero
      obtain ⟨st, -, rfl⟩ := List.mem_map.mp hw
      exact absurd hzero.symm Fin.zero_ne_one
  case stores =>
    intro x hx
    by_cases hpast : storedAt x < h'.pc.index
    · obtain ⟨hsame, ⟨hold, hapart⟩ | ⟨hnew, heff⟩⟩ := hst.stored hx hpast
      · rw [storesTo_apply fun st heff _ => hapart st heff, hs.stores hx, if_pos hold, if_pos hpast,
          hsame]
      · have hbefore : s.storesTo im x = [] := by
          rw [hs.stores hx, if_neg (Nat.not_lt.mpr hnew)]
        have htouch : im.touches x (storeVar im x ((s.harts 1).loc.result x)) = true := by
          have hwidth : 0 < x.width := by cases x <;> decide
          simp [Image.touches, storeVar, hwidth]
        rw [if_pos hpast, hsame]
        rw [State.storesTo] at hbefore ⊢
        simp only [State.apply, heff, List.filter_append, hbefore, List.nil_append]
        simp [htouch]
    · rw [if_neg hpast, storesTo_apply fun st heff _ =>
        hst.unstored (Or.inl hx) (Nat.le_of_not_lt hpast) heff, hs.stores hx, if_neg]
      exact fun hold => hpast (hold.trans_le hst.index)
  case values =>
    intro x hx hpast
    obtain ⟨hsame, ⟨hold, hapart⟩ | ⟨-, heff⟩⟩ := hst.stored hx hpast
    · rw [apply_loadVar hapart, hsame]
      exact hs.values hx hold
    · rw [hsame]
      simp only [State.apply, heff, Option.elim_some]
      exact loadVar_storeVar_self hx
  case loads =>
    intro x v hload hx
    rcases mem_apply_loads.mp hload with hold | ⟨hone, -⟩
    · obtain ⟨hparked, rfl⟩ := hs.loads hold hx
      have hpast : storedAt x < h'.pc.index := by
        rw [hstays hparked]
        cases x <;> decide
      exact ⟨hstays hparked, (hst.stored hx hpast).1.symm⟩
    · exact absurd hone Fin.zero_ne_one

theorem running_ne_start {h : HartState} (hrunning : h.running im = true) : h.pc ≠ .start := by
  intro hpc
  rw [HartState.running, hpc] at hrunning
  cases hrunning

theorem Pc.OnHart1.inMain {h : HartState} (hzone : h.pc.OnHart1)
    (hrunning : h.running im = true) : h.pc.inFn .hart1Main := by
  rw [HartState.running] at hrunning
  cases hpc : h.pc with
  | inC fn n call =>
      rw [hpc] at hzone
      cases fn with
      | smpMain => exact hzone.elim
      | hart1Main => rfl
  | start | dispatch | bssLoop | bssStore | wait | poll | test =>
      rw [hpc] at hrunning
      cases hrunning

/-- Every step of the machine keeps the invariant. -/
theorem step_inv (hs : Inv im s) (e : Event) : Inv im (step im s e) := by
  have hexec0 : ∀ thre cycle, Inv im (step im s (.exec 0 thre cycle)) := by
    intro thre cycle
    rcases exec_hart0 hs.zone0 hs.sp0 with hst | ⟨t0, hpc, hout⟩
    · exact hs.step0 hst
    · rw [step, hout]
      exact hs.clear hpc
  have hexec1 : ∀ thre cycle, Inv im (step im s (.exec 1 thre cycle)) := by
    intro thre cycle
    exact hs.step1 (exec_hart1 hs.zone1 hs.sp1)
  cases e with
  | exec i thre cycle =>
      rcases Fin.exists_fin_two.mp ⟨i, rfl⟩ with rfl | rfl
      · exact hexec0 thre cycle
      · exact hexec1 thre cycle
  | spill i depth b =>
      rw [step]
      split
      case isFalse => exact hs
      case isTrue hguard =>
        obtain ⟨hrunning, hdeep, hfits⟩ := hguard
        rcases Fin.exists_fin_two.mp ⟨i, rfl⟩ with rfl | rfl
        · have hsp := hs.sp0 (running_ne_start hrunning)
          exact hs.step0 (step0_of_spill hs.zone0 hsp hdeep hfits b)
        · have hsp := hs.sp1 (running_ne_start hrunning)
          have hmain := hs.zone1.inMain hrunning
          exact hs.step1 (step1_of_spill hs.zone1 hsp hmain hs.parked hdeep hfits b)

/-- What has been loaded stays recorded. -/
theorem run_loads {entry : HartId × Var × Word} (hentry : entry ∈ s.loads) (events : List Event) :
    entry ∈ (run im s events).loads := by
  refine List.foldlRecOn (motive := fun s => entry ∈ s.loads) events (step im) hentry ?_
  intro s hs e _
  cases e with
  | exec i thre cycle => exact List.mem_append_left _ hs
  | spill i depth b =>
      rw [step]
      split
      · exact List.mem_append_left _ hs
      · exact hs

theorem Pc.OnHart0.inMain {pc : Pc} (hzone : pc.OnHart0) (hindex : pc.index ≠ 0) :
    pc.inFn .smpMain := by
  cases pc with
  | inC fn n call =>
      cases fn with
      | smpMain => rfl
      | hart1Main => exact hzone.elim
  | start | dispatch | bssLoop | bssStore | wait | poll | test => exact absurd rfl hindex

/-- Every state of every interleaving keeps the invariant. -/
theorem run_keeps (hs : Inv im s) (events : List Event) : Inv im (run im s events) :=
  List.foldlRecOn events (step im) hs fun _ hs e _ => step_inv hs e

end Keeps

/-! ## Main result -/

/-- The boot handshake, in every interleaving from an image in which
`smp_release` reads 0.  When hart 1 is in `hart1_main`, hart 0 is in `smp_main`
behind the release: it has stored to every byte of BSS and to
`t_release_cycles`.  No store of hart 0 covers a byte of hart 1's once hart 1
has stored anything.  And a value of a result that hart 0 has loaded is the one
that hart 1 has stored there, in a single store, and is still there however the
run goes on. -/
theorem boot_handshake (im : Image) (mem : ByteMem) (sp : HartId → Nat) (loc : HartId → Locals)
    (hrelease : loadLE mem (im.addr .smpRelease) 4 = 0) (events more : List Event) :
    let s := run im (boot mem sp loc) events
    let later := run im s more
    ((s.harts 1).pc.inFn .hart1Main →
      (s.harts 0).pc.inFn .smpMain ∧ RELEASE < (s.harts 0).pc.index ∧
      (∀ a, im.bssStart ≤ a → a < im.bssEnd → ∃ w ∈ s.stores, w.hart = 0 ∧ Covered w.store a) ∧
      ∃ v, ⟨0, storeVar im .tReleaseCycles v⟩ ∈ s.stores) ∧
    s.stores.Pairwise (Kept im) ∧
    ∀ x v, x.isResult = true → (0, x, v) ∈ s.loads →
      later.storesTo im x = [⟨1, storeVar im x v⟩] ∧ s.storesTo im x = [⟨1, storeVar im x v⟩] ∧
      loadVar im later.mem x = v := by
  have hs : Inv im (run im (boot mem sp loc) events) := run_keeps (boot_inv hrelease) events
  dsimp only
  generalize run im (boot mem sp loc) events = s at hs
  have hlater : Inv im (run im s more) := run_keeps hs more
  refine ⟨fun hin => ?_, hs.order, fun x v hx hload => ?_⟩
  · have hpast := hs.released hin
    have hindex : (s.harts 0).pc.index ≠ 0 := Nat.ne_of_gt (lt_of_le_of_lt (Nat.zero_le _) hpast)
    refine ⟨hs.zone0.inMain hindex, hpast, fun a hlow hhigh => hs.cleared a hlow ?_,
      hs.stamped (lt_trans (by decide) hpast)⟩
    rw [clearedTo_of_index hindex]
    exact hhigh
  · have hpast : ∀ n, n = PARKED → storedAt x < n := by
      rintro n rfl
      cases x <;> decide
    obtain ⟨hparked, hv⟩ := hs.loads hload hx
    obtain ⟨hparked', hv'⟩ := hlater.loads (run_loads hload more) hx
    refine ⟨?_, ?_, ?_⟩
    · rw [hlater.stores hx, if_pos (hpast _ hparked'), hv']
    · rw [hs.stores hx, if_pos (hpast _ hparked), hv]
    · rw [hlater.values hx (hpast _ hparked'), hv']

/-- The image of the recorded run, with the variables before the stacks. -/
def sampleAddr : Var → Nat
  | .uartLock => 0x80000800
  | .smpRelease => 0x80000804
  | .tReleaseCycles => 0x80000808
  | .t1EntryCycles => 0x80000810
  | .t1PrintedCycles => 0x80000818
  | .t1Sp => 0x80000820
  | .hart1Done => 0x80000828

def sampleImage : Image where
  bssStart := 0x80000800
  bssEnd := 0x80002830
  hartStacks := 0x80000830
  addr := sampleAddr
  frame := fun i => if i = 0 then 0x30 else 0x20
  varsApart := by
    intro x y hxy
    cases x <;> cases y <;>
      first | exact absurd rfl hxy | exact Or.inl (by decide) | exact Or.inr (by decide)
  stacksApart := by
    intro x
    cases x <;> exact Or.inl (by decide)
  varsInBss := by
    intro x _
    cases x <;> decide
  stacksInBss := by decide
  frameFits := by decide

/-- BSS is full of ones but for the release flag. -/
def sampleMem : ByteMem :=
  fun a => if 0x80000804 ≤ a ∧ a < 0x80000808 then 0 else 0xff

def sampleLocals : HartId → Locals :=
  fun _ => ⟨0, 0, 0, 0, 0, 0, 0, 0, 0, 0, 0, 0, 0, 0⟩

/-- Hart 1 polls once before hart 0 starts to clear.  Hart 0 runs until it waits
for the done flag, hart 1 through `hart1_main`, and hart 0 up to its last line. -/
def bringUp : List Event :=
  List.replicate 5 (.exec 1 true 0) ++ List.replicate 2406 (.exec 0 true 1000) ++
    List.replicate 277 (.exec 1 true 2000) ++ List.replicate 4 (.exec 1 true 3000) ++
    List.replicate 796 (.exec 0 true 4000)

/-- Where the harts are after `n` steps, and how often they have loaded. -/
def bringUpAt (n : Nat) : Nat × Nat × Word × Nat :=
  let s := run sampleImage (boot sampleMem (fun _ => 0) sampleLocals) (bringUp.take n)
  ((s.harts 0).pc.index, (s.harts 1).pc.index, loadVar sampleImage s.mem .uartLock,
    s.loads.length)

/-- Hart 0 has printed its report.  The places on the way come first: the kernel
evaluates a run from its end, and goes no further back than to a state that it
has been asked for. -/
theorem bringUp_reports :
    (List.range 14).map (fun k => bringUpAt (250 * k)) =
      (0, 0, 0xffffffff, 0) :: List.replicate 8 (0, 0, 0, 1) ++
        [(5, 0, 1, 1), (13, 7, 1, 3), (24, 14, 1, 5), (31, 14, 1, 8), (43, 14, 1, 14)] ∧
    let s := run sampleImage (boot sampleMem (fun _ => 0) sampleLocals) bringUp
    (s.harts 0).pc.index = 47 ∧ (s.harts 1).pc.inFn .hart1Main ∧
      (0, .t1EntryCycles, 2000) ∈ s.loads ∧ (0, .t1PrintedCycles, 3000) ∈ s.loads := by
  decide +kernel

/-- A whole run, from an early poll of hart 1 to the report of hart 0. -/
theorem bringUp_handshake :
    let s := run sampleImage (boot sampleMem (fun _ => 0) sampleLocals) bringUp
    (s.harts 0).pc.index = 47 ∧ (s.harts 1).pc.inFn .hart1Main ∧
      (∀ a, 0x80000800 ≤ a → a < 0x80002830 → ∃ w ∈ s.stores, w.hart = 0 ∧ Covered w.store a) ∧
      s.stores.Pairwise (Kept sampleImage) ∧
      s.storesTo sampleImage .t1EntryCycles = [⟨1, storeVar sampleImage .t1EntryCycles 2000⟩] ∧
      ∀ more, loadVar sampleImage (run sampleImage s more).mem .t1EntryCycles = 2000 ∧
        loadVar sampleImage (run sampleImage s more).mem .t1PrintedCycles = 3000 := by
  have hshake := boot_handshake sampleImage sampleMem (fun _ => 0) sampleLocals
    (by decide +kernel) bringUp
  have hreports := bringUp_reports.2
  dsimp only at hshake hreports ⊢
  generalize run sampleImage (boot sampleMem (fun _ => 0) sampleLocals) bringUp = s
    at hshake hreports ⊢
  obtain ⟨hreport, hmain, hentry, hprinted⟩ := hreports
  obtain ⟨hstarted, hkept, hresults⟩ := hshake []
  obtain ⟨-, -, hcleared, -⟩ := hstarted hmain
  obtain ⟨-, hstores, -⟩ := hresults _ _ rfl hentry
  refine ⟨hreport, hmain, hcleared, hkept, hstores, fun more => ?_⟩
  obtain ⟨-, -, hlater⟩ := hshake more
  exact ⟨(hlater _ _ rfl hentry).2.2, (hlater _ _ rfl hprinted).2.2⟩

end Boot
end Smp
end BareMetal
