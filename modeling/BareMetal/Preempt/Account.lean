import BareMetal.Preempt.Runs
import BareMetal.Switch.Stamps

/-!
# What the preempt report measures

`ptrap_handler` accounts for the latency of its own trap at once, and for the
cost of a switch one trap later, when the exit stamps are in memory;
`account_final_switch` in `preempt_report` adds the last switch.

`Accounted` is the bookkeeping invariant of a run: which traps have been added
to which statistic, and whose stamps wait in the statics and in memory to be
paired.  `measurement_exact` reads the report off it: minimum, maximum and sum
over all ticks and over all switches, each once and with its own two stamps.
-/

namespace BareMetal
namespace Preempt

open Machine Switch

/-! ## Running statistics -/

/-- The statistic of a list of values. -/
def Stat.ofList (vs : List Word) : Stat :=
  vs.foldl Stat.add .empty

theorem Stat.ofList_append (vs : List Word) (v : Word) :
    Stat.ofList (vs ++ [v]) = (Stat.ofList vs).add v := by
  rw [ofList, List.foldl_append]
  rfl

/-- `st` is the minimum, the maximum and the sum modulo 2^64 of `vs`. -/
structure Stat.Exact (vs : List Word) (st : Stat) : Prop where
  min : IsLeast {v | v ∈ vs} st.min
  max : IsGreatest {v | v ∈ vs} st.max
  sum : st.sum = vs.sum

theorem le_allOnes (v : Word) : v ≤ ~~~ 0#64 := by
  rw [BitVec.le_def]
  have hv := v.isLt
  have hones : (~~~ 0#64).toNat = 2 ^ 64 - 1 := by decide
  omega

theorem zero_le_word (v : Word) : 0#64 ≤ v := by
  rw [BitVec.le_def]
  exact Nat.zero_le _

/-- The first value becomes minimum, maximum and sum. -/
theorem Stat.exact_singleton (v : Word) : Stat.Exact [v] (Stat.empty.add v) := by
  have hmin : (Stat.empty.add v).min = v := by
    show (if v < ~~~ 0#64 then v else ~~~ 0#64) = v
    split
    · rfl
    · next hlt => exact BitVec.le_antisymm (BitVec.not_lt.mp hlt) (le_allOnes v)
  have hmax : (Stat.empty.add v).max = v := by
    show (if 0#64 < v then v else 0#64) = v
    split
    · rfl
    · next hlt => exact BitVec.le_antisymm (zero_le_word v) (BitVec.not_lt.mp hlt)
  refine ⟨?_, ?_, ?_⟩
  · rw [hmin]
    constructor
    · exact List.mem_singleton_self v
    · intro w hw
      rw [List.mem_singleton.mp hw]
      exact BitVec.le_refl v
  · rw [hmax]
    constructor
    · exact List.mem_singleton_self v
    · intro w hw
      rw [List.mem_singleton.mp hw]
      exact BitVec.le_refl v
  · show 0#64 + v = [v].sum
    rw [List.sum_singleton, BitVec.zero_add]

/-- One more value keeps an exact statistic exact. -/
theorem Stat.Exact.add {vs : List Word} {st : Stat} (hst : Stat.Exact vs st) (v : Word) :
    Stat.Exact (vs ++ [v]) (st.add v) := by
  refine ⟨?_, ?_, ?_⟩
  · show IsLeast _ (if v < st.min then v else st.min)
    split
    · next hlt =>
      constructor
      · exact List.mem_append_right vs (List.mem_singleton_self v)
      · intro w hw
        rcases List.mem_append.mp hw with hold | hnew
        · exact BitVec.le_trans (BitVec.le_of_lt hlt) (hst.min.2 hold)
        · rw [List.mem_singleton.mp hnew]
          exact BitVec.le_refl v
    · next hlt =>
      constructor
      · exact List.mem_append_left [v] hst.min.1
      · intro w hw
        rcases List.mem_append.mp hw with hold | hnew
        · exact hst.min.2 hold
        · rw [List.mem_singleton.mp hnew]
          exact BitVec.not_lt.mp hlt
  · show IsGreatest _ (if st.max < v then v else st.max)
    split
    · next hlt =>
      constructor
      · exact List.mem_append_right vs (List.mem_singleton_self v)
      · intro w hw
        rcases List.mem_append.mp hw with hold | hnew
        · exact BitVec.le_trans (hst.max.2 hold) (BitVec.le_of_lt hlt)
        · rw [List.mem_singleton.mp hnew]
          exact BitVec.le_refl v
    · next hlt =>
      constructor
      · exact List.mem_append_left [v] hst.max.1
      · intro w hw
        rcases List.mem_append.mp hw with hold | hnew
        · exact hst.max.2 hold
        · rw [List.mem_singleton.mp hnew]
          exact BitVec.not_lt.mp hlt
  · show st.sum + v = (vs ++ [v]).sum
    rw [List.sum_append, List.sum_singleton, hst.sum]

/-- Started from the static initialisers, a statistic is exact as soon as it
has seen a value. -/
theorem Stat.ofList_exact {vs : List Word} (hvs : vs ≠ []) : Stat.Exact vs (Stat.ofList vs) := by
  induction vs using List.reverseRecOn with
  | nil => exact absurd rfl hvs
  | append_singleton vs v ih =>
      rw [Stat.ofList_append]
      by_cases hempty : vs = []
      · subst hempty
        exact Stat.exact_singleton v
      · exact (ih hempty).add v

/-! ## The C half, once more -/

/-- `account_final_switch`, on the memory it runs in. -/
def accountFinalSwitch (L : Layout) (g : Globals) (m : Mem) : Globals :=
  { g with
    swc := g.swc.add (m L.exitCycles - g.gEntryCycles)
    swt := g.swt.add (m L.exitMtime - g.gEntryMtime)
    swn := g.swn + 1 }

/-- The part of the statics the report prints, after a handler call. -/
structure Measured (L : Layout) (g : Globals) (h : Hart) (deadline : Word) (g' : Globals) :
    Prop where
  ticks : g'.ticks = g.ticks + 1
  armed : g'.deadline = deadline
  lat : g'.lat = g.lat.add (h.mem (addr (h.regs .a0) TF_MTIME) - g.deadline)
  swc : g'.swc = (closeSwitch L g h.mem).swc
  swt : g'.swt = (closeSwitch L g h.mem).swt
  swn : g'.swn = (closeSwitch L g h.mem).swn
  havePrev : g'.havePrev = true
  entryCycles : g'.gEntryCycles =
    Function.update h.mem CLINT_MTIMECMP deadline (addr (h.regs .a0) TF_CYCLE)
  entryMtime : g'.gEntryMtime =
    Function.update h.mem CLINT_MTIMECMP deadline (addr (h.regs .a0) TF_MTIME)

/-- Choosing the next context touches no measurement. -/
theorem chooseNext_measurements {g : Globals} {out : Globals × Ctx}
    (hout : chooseNext g = some out) :
    out.1.deadline = g.deadline ∧ out.1.lat = g.lat ∧ out.1.swc = g.swc ∧ out.1.swt = g.swt ∧
      out.1.swn = g.swn := by
  rw [chooseNext] at hout
  split at hout
  · obtain rfl := Option.some.inj hout
    exact ⟨rfl, rfl, rfl, rfl, rfl⟩
  · obtain ⟨next, -, rfl⟩ := Option.map_eq_some_iff.mp hout
    exact ⟨rfl, rfl, rfl, rfl, rfl⟩

/-- Closing out a switch does not read or write the other measurements. -/
theorem closeSwitch_measurements (L : Layout) (g : Globals) (ticks : Word) (lat : Stat)
    (m : Mem) :
    let g' := closeSwitch L { g with ticks := ticks, lat := lat } m
    g'.lat = lat ∧ g'.swc = (closeSwitch L g m).swc ∧ g'.swt = (closeSwitch L g m).swt ∧
      g'.swn = (closeSwitch L g m).swn := by
  simp only [closeSwitch]
  cases g.havePrev with
  | false => exact ⟨rfl, rfl, rfl, rfl⟩
  | true => exact ⟨rfl, rfl, rfl, rfl⟩

/-- What a handler call adds to the statistics. -/
theorem ptrapHandler_measured {L : Layout} {g : Globals} {h : Hart} {readings : List Word}
    {out : Globals × Ctx × Hart} (hout : ptrapHandler L g h readings = some out) :
    ∃ deadline, nextDeadline readings = some deadline ∧ Measured L g h deadline out.1 := by
  have hticks : out.1.ticks = g.ticks + 1 := (ptrapHandler_eq_some hout).2.2.ticks
  rw [ptrapHandler] at hout
  split at hout
  · cases hout
  · obtain ⟨armed, harmed, hrest⟩ := Option.bind_eq_some_iff.mp hout
    obtain ⟨deadline, hdeadline, rfl⟩ := Option.map_eq_some_iff.mp harmed
    obtain ⟨next, hnext, rfl⟩ := Option.map_eq_some_iff.mp hrest
    obtain ⟨hdl, hlat, hswc, hswt, hswn⟩ := chooseNext_measurements hnext
    obtain ⟨hlat', hswc', hswt', hswn'⟩ := closeSwitch_measurements L g (g.ticks + 1)
      (g.lat.add (h.mem (addr (h.regs .a0) TF_MTIME) - g.deadline)) h.mem
    exact ⟨deadline, hdeadline, hticks, hdl, hlat.trans hlat', hswc.trans hswc',
      hswt.trans hswt', hswn.trans hswn', rfl, rfl, rfl⟩

/-! ## Which traps are in which statistic -/

/-- The bookkeeping after the traps `ts`: all latencies and all switches but
the last are accounted for, and the last trap's entry and exit stamps wait. -/
structure Accounted (L : Layout) (readings : List Word) (ts : List (Tick (List Word)))
    (s : State Globals Ctx) : Prop where
  ticks : s.g.ticks = BitVec.ofNat 64 ts.length
  deadline : s.g.deadline = deadlineOf (lastEnv readings ts)
  lat : s.g.lat = Stat.ofList (latencies id readings ts)
  swc : s.g.swc = Stat.ofList (ts.dropLast.map Tick.cycles)
  swt : s.g.swt = Stat.ofList (ts.dropLast.map Tick.duration)
  swn : s.g.swn = BitVec.ofNat 64 (ts.length - 1)
  havePrev : s.g.havePrev = decide (ts ≠ [])
  waiting : ∀ {t}, t ∈ ts.getLast? → Stamped (switcher L) s.hart.mem t ∧
    s.g.gEntryCycles = t.entryCycle ∧ s.g.gEntryMtime = t.entryTime

/-- Nothing is accounted for when `preempt_init` returns. -/
theorem start_accounted {L : Layout} {fns : List Word} {h : Hart} {readings : List Word}
    {s : State Globals Ctx} (hs : start L fns h readings = some s) :
    Accounted L readings [] s := by
  obtain ⟨out, hout, rfl⟩ := Option.map_eq_some_iff.mp hs
  obtain ⟨armed, harmed, rfl⟩ := Option.map_eq_some_iff.mp hout
  obtain ⟨deadline, hdeadline, rfl⟩ := Option.map_eq_some_iff.mp harmed
  refine ⟨rfl, ?_, rfl, rfl, rfl, rfl, rfl, ?_⟩
  · show deadline = deadlineOf readings
    rw [deadlineOf, hdeadline, Option.getD_some]
  · intro t ht
    cases ht

/-- Closing out a switch pairs the two stamps of the last trap. -/
theorem closeSwitch_accounted {L : Layout} {readings : List Word}
    {ts : List (Tick (List Word))} {s : State Globals Ctx} {m : Mem}
    (hs : Accounted L readings ts s)
    (hm : ∀ {t}, t ∈ ts.getLast? → Stamped (switcher L) m t) :
    (closeSwitch L s.g m).swc = Stat.ofList (ts.map Tick.cycles) ∧
      (closeSwitch L s.g m).swt = Stat.ofList (ts.map Tick.duration) ∧
      (closeSwitch L s.g m).swn = BitVec.ofNat 64 ts.length := by
  rcases List.eq_nil_or_concat' ts with rfl | ⟨before, t, rfl⟩
  · have hprev : s.g.havePrev = false := hs.havePrev
    rw [closeSwitch, if_neg (by rw [hprev]; exact Bool.false_ne_true)]
    exact ⟨hs.swc, hs.swt, hs.swn⟩
  · have hlast : t ∈ (before ++ [t]).getLast? := by
      rw [List.getLast?_concat]
      rfl
    obtain ⟨-, hcycle, hmtime⟩ := hs.waiting hlast
    have hstamped := hm hlast
    have hprev : s.g.havePrev = true := by
      rw [hs.havePrev]
      exact decide_eq_true (List.append_ne_nil_of_right_ne_nil before (List.cons_ne_nil t []))
    have hswc := hs.swc
    have hswt := hs.swt
    have hswn := hs.swn
    rw [List.dropLast_concat] at hswc hswt
    rw [List.length_append, List.length_singleton, Nat.add_sub_cancel] at hswn
    rw [closeSwitch, if_pos hprev]
    refine ⟨?_, ?_, ?_⟩
    · show s.g.swc.add (m L.exitCycles - s.g.gEntryCycles) = _
      rw [List.map_append, List.map_singleton, Stat.ofList_append, hswc, hcycle,
        show m L.exitCycles = t.exitCycle from hstamped.cycles]
      rfl
    · show s.g.swt.add (m L.exitMtime - s.g.gEntryMtime) = _
      rw [List.map_append, List.map_singleton, Stat.ofList_append, hswt, hmtime,
        show m L.exitMtime = t.exitTime from hstamped.mtime]
      rfl
    · show s.g.swn + 1 = _
      rw [hswn, List.length_append, List.length_singleton, BitVec.ofNat_add]
      rfl

/-- One tick adds its own latency and the switch before it. -/
theorem tick_accounted {L : Layout} (hL : L.Separate) (hne : L.exitCycles ≠ L.exitMtime)
    {fresh : Ctx → Option Snap} {readings : List Word} {ts : List (Tick (List Word))}
    {s s' : State Globals Ctx} {t : Tick (List Word)}
    (hinv : Inv (switcher L) (Installed L) fresh s) (hs : Accounted L readings ts s)
    (htick : (switcher L).tick s t = some s') : Accounted L readings (ts ++ [t]) s' := by
  have hW := lawful hL
  obtain ⟨out, hout, hg, -, hhart, -, -⟩ := (switcher L).tick_eq_some htick
  have hhandler : ptrapHandler L s.g ((switcher L).entered s.hart t) t.env = some out := hout
  obtain ⟨deadline, hdeadline, hmeas⟩ := ptrapHandler_measured hhandler
  have ha0 := entered_a0 hW t hinv.scratch
  obtain ⟨hmtime, hcycle⟩ := entered_stamps hW t hinv.scratch
  obtain ⟨hswc, hswt, hswn⟩ := closeSwitch_accounted hs
    fun hlast => entered_stamped hW t hinv.scratch (hs.waiting hlast).1
  -- the handler rearms the timer before it keeps the entry stamps
  have hcmp : ∀ off, off < 280 → off % 8 = 0 →
      addr ((switcher L).frame s.running) off ≠ CLINT_MTIMECMP := by
    intro off hoff hmod
    have hwords : TF_WORDS = 35 := rfl
    exact (ne_addr_of_not_inArea (hL.mtimecmp s.running) (i := off / 8) (by omega)
      (by omega)).symm
  refine ⟨?_, ?_, ?_, ?_, ?_, ?_, ?_, ?_⟩
  · rw [hg, hmeas.ticks, hs.ticks, List.length_append, List.length_singleton,
      BitVec.ofNat_add]
    rfl
  · rw [hg, hmeas.armed, lastEnv_append, deadlineOf, hdeadline, Option.getD_some]
  · rw [hg, hmeas.lat, ha0, hmtime, hs.lat, hs.deadline, latencies_append,
      Stat.ofList_append]
    rfl
  · rw [hg, hmeas.swc, hswc, List.dropLast_concat]
  · rw [hg, hmeas.swt, hswt, List.dropLast_concat]
  · rw [hg, hmeas.swn, hswn, List.length_append, List.length_singleton, Nat.add_sub_cancel]
  · rw [hg, hmeas.havePrev]
    exact (decide_eq_true (List.append_ne_nil_of_right_ne_nil ts (List.cons_ne_nil t []))).symm
  · intro t' ht'
    rw [List.getLast?_concat] at ht'
    obtain rfl := Option.some.inj ht'
    refine ⟨?_, ?_, ?_⟩
    · rw [hhart]
      exact left_stamped hW hne _ _ t
    · rw [hg, hmeas.entryCycles, ha0, Function.update_of_ne (hcmp _ (by decide) (by decide)),
        hcycle]
    · rw [hg, hmeas.entryMtime, ha0, Function.update_of_ne (hcmp _ (by decide) (by decide)),
        hmtime]

/-- The bookkeeping after every run. -/
theorem run_accounted {L : Layout} (hL : L.Separate) (hne : L.exitCycles ≠ L.exitMtime)
    {fns : List Word} {h : Hart} {readings : List Word} {s₀ s : State Globals Ctx}
    {ts : List (Tick (List Word))} (hstart : start L fns h readings = some s₀)
    (hrun : runAll (switcher L).tick s₀ ts = some s) : Accounted L readings ts s := by
  have hboth : Inv (switcher L) (Installed L) (L.fresh s₀.g.table.nTasks) s ∧
      Accounted L readings ([] ++ ts) s :=
    runAll_history (H := fun js s => Inv (switcher L) (Installed L)
        (L.fresh s₀.g.table.nTasks) s ∧ Accounted L readings js s)
      (fun hH htick => ⟨tick_inv (lawful hL) hH.1 htick, tick_accounted hL hne hH.1 hH.2 htick⟩)
      ⟨start_inv hL hstart, start_accounted hstart⟩ hrun
  exact hboth.2

/-- Along every run, at every handler exit: with `k` ticks taken, `ticks` is
`k` and `swn` is `k - 1`.  When `account_final_switch` has run, in whatever
memory the boot context has left it, `swn` is `k`, and the report's three
statistics are those of all latencies and of all switches. -/
theorem measurement_exact {L : Layout} (hL : L.Separate) (hne : L.exitCycles ≠ L.exitMtime)
    {fns : List Word} {h : Hart} {readings : List Word} {s₀ s : State Globals Ctx}
    {ts : List (Tick (List Word))} (hts : ts ≠ []) (other : Mem)
    (hstart : start L fns h readings = some s₀)
    (hrun : runAll (switcher L).tick s₀ ts = some s) :
    let final := accountFinalSwitch L s.g (s.hart.clobberMem (switcher L).Kept other).mem
    s.g.ticks = BitVec.ofNat 64 ts.length ∧ s.g.swn = BitVec.ofNat 64 (ts.length - 1) ∧
      final.ticks = BitVec.ofNat 64 ts.length ∧ final.swn = BitVec.ofNat 64 ts.length ∧
      Stat.Exact (latencies id readings ts) final.lat ∧
      Stat.Exact (ts.map Tick.cycles) final.swc ∧
      Stat.Exact (ts.map Tick.duration) final.swt := by
  have hs := run_accounted hL hne hstart hrun
  have hprev : s.g.havePrev = true := by
    rw [hs.havePrev]
    exact decide_eq_true hts
  -- with a switch waiting, the final accounting is what the next trap would do
  have hfinal : ∀ m, accountFinalSwitch L s.g m = closeSwitch L s.g m := by
    intro m
    rw [closeSwitch, if_pos hprev]
    rfl
  obtain ⟨hswc, hswt, hswn⟩ := closeSwitch_accounted
    (m := (s.hart.clobberMem (switcher L).Kept other).mem) hs
    fun hlast => clobberMem_stamped (hs.waiting hlast).1 other
  dsimp only
  refine ⟨hs.ticks, hs.swn, hs.ticks, ?_, ?_, ?_, ?_⟩
  · rw [hfinal, hswn]
  · show Stat.Exact _ s.g.lat
    rw [hs.lat]
    exact Stat.ofList_exact (latencies_ne_nil id readings hts)
  · rw [hfinal, hswc]
    exact Stat.ofList_exact fun hnil => hts (List.map_eq_nil_iff.mp hnil)
  · rw [hfinal, hswt]
    exact Stat.ofList_exact fun hnil => hts (List.map_eq_nil_iff.mp hnil)

/-- Two ticks of the sample machine: latencies 2 and 4, and two switches of 90
cycles each. -/
theorem two_ticks_measured :
    ∃ s₀ s, start sampleLayout [0x80000600] sampleHart [0, 1] = some s₀ ∧
      runAll (switcher sampleLayout).tick s₀
        [sampleTick 0 10002 500, sampleTick 0 20008 1000] = some s ∧
      s.g.ticks = 2 ∧ s.g.swn = 1 ∧
      (accountFinalSwitch sampleLayout s.g s.hart.mem).swn = 2 ∧
      Stat.Exact [2, 4] (accountFinalSwitch sampleLayout s.g s.hart.mem).lat ∧
      Stat.Exact [90, 90] (accountFinalSwitch sampleLayout s.g s.hart.mem).swc := by
  obtain ⟨s₀, s, hstart, hrun, -⟩ :=
    single_task_twice (sampleTick 0 10002 500) (sampleTick 0 20008 1000) (by decide) (by decide)
  obtain ⟨hticks, hswn, -, hfinal, hlat, hswc, -⟩ :=
    measurement_exact sampleLayout_separate (by decide) (List.cons_ne_nil _ _) s.hart.mem
      hstart hrun
  rw [Hart.clobberMem_self] at hfinal hlat hswc
  have hlatencies : latencies id [0, 1]
      [sampleTick 0 10002 500, sampleTick 0 20008 1000] = [2, 4] := by
    decide
  rw [hlatencies] at hlat
  exact ⟨s₀, s, hstart, hrun, hticks, hswn, hfinal, hlat, hswc⟩

end Preempt
end BareMetal
