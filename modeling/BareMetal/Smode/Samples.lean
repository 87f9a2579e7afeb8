import BareMetal.Smode.Runs
import BareMetal.Switch.Stamps

/-!
# The sample arrays of the smode report

`strap_handler` keeps one latency and one switch cost per tick in three arrays
of `N_TICKS` elements, the cost one trap late; `account_final_switch` in
`sched_report` stores the last one.  The stores are described as data
(`SampleStore`), so that "every store is in bounds" is a statement about the
stores and not about the values they leave.

`Sampled` is the bookkeeping invariant.  It speaks of the *counted* traps, the
first `N_TICKS` of the run: a stray trap after them disarms the timer again and
changes neither the arrays nor the two counters, but its exit path overwrites
the exit stamps that `account_final_switch` has yet to read.
-/

namespace BareMetal
namespace Smode

open Machine Switch

/-! ## Stores into the arrays -/

/-- The three sample arrays. -/
inductive SampleArray
  | lat | swc | swt
  deriving DecidableEq, Repr

/-- One store into a sample array. -/
structure SampleStore where
  array : SampleArray
  index : Word
  value : Word

/-- The contents of the arrays. -/
def Globals.samples (g : Globals) : SampleArray → Word → Word
  | .lat => g.lat
  | .swc => g.swc
  | .swt => g.swt

/-- The arrays after a list of stores, in order. -/
def storeSamples (a : SampleArray → Word → Word) : List SampleStore → SampleArray → Word → Word
  | [] => a
  | w :: ws =>
      storeSamples (Function.update a w.array (Function.update (a w.array) w.index w.value)) ws

/-- The two stores for a switch whose exit stamps are in memory. -/
def switchStores (im : Image) (g : Globals) (m : Mem) : List SampleStore :=
  [⟨.swc, g.swn, m im.exitCycles - g.gEntryCycles⟩,
   ⟨.swt, g.swn, m im.exitMtime - g.gEntryMtime⟩]

/-- The stores of one call of `strap_handler`. -/
def handlerStores (im : Image) (g : Globals) (h : Hart) : List SampleStore :=
  if N_TICKS ≤ g.ticks then []
  else
    ⟨.lat, g.ticks, h.mem (addr (h.regs .a0) TF_MTIME) - g.timer.deadline⟩ ::
      if g.havePrev then switchStores im g h.mem else []

/-- `account_final_switch`, on the memory it runs in. -/
def accountFinalSwitch (im : Image) (g : Globals) (m : Mem) : Globals :=
  { g with
    swc := Function.update g.swc g.swn (m im.exitCycles - g.gEntryCycles)
    swt := Function.update g.swt g.swn (m im.exitMtime - g.gEntryMtime)
    swn := g.swn + 1 }

/-- `account_final_switch` makes exactly the two stores of a switch. -/
theorem accountFinalSwitch_samples (im : Image) (g : Globals) (m : Mem) :
    (accountFinalSwitch im g m).samples = storeSamples g.samples (switchStores im g m) := by
  ext array : 1
  cases array <;> rfl

/-! ## One call of the handler -/

section Handler

variable {im : Image} {smode : Bool} {g : Globals} {h : Hart} {env : Env}
variable {out : Globals × Ctx × Hart}

/-- A trap past the quota only disarms the timer. -/
theorem strapHandler_stray (hquota : N_TICKS ≤ g.ticks)
    (hout : strapHandler im smode g h env = some out) :
    ∃ timer, out.1 = { g with timer := timer, done := true } := by
  rw [strapHandler] at hout
  split at hout
  · cases hout
  · obtain ⟨off, -, rfl⟩ := Option.map_eq_some_iff.mp hout
    exact ⟨off.1, rfl⟩

/-- What a counted trap does to the bookkeeping. -/
structure Counted (im : Image) (g : Globals) (h : Hart) (env : Env)
    (out : Globals × Ctx × Hart) : Prop where
  ticks : out.1.ticks = g.ticks + 1
  lat : out.1.lat = Function.update g.lat g.ticks
    (h.mem (addr (h.regs .a0) TF_MTIME) - g.timer.deadline)
  swc : out.1.swc = (closeSwitch im g h.mem).swc
  swt : out.1.swt = (closeSwitch im g h.mem).swt
  swn : out.1.swn = (closeSwitch im g h.mem).swn
  havePrev : out.1.havePrev = true
  entryCycles : out.1.gEntryCycles = out.2.2.mem (addr (h.regs .a0) TF_CYCLE)
  entryMtime : out.1.gEntryMtime = out.2.2.mem (addr (h.regs .a0) TF_MTIME)
  ended : N_TICKS ≤ g.ticks + 1 → out.1.done = true
  rearmed : g.ticks + 1 < N_TICKS →
    out.1.done = g.done ∧ nextDeadline env.readings = some out.1.timer.deadline

/-- Closing out a switch does not read or write the other samples. -/
theorem closeSwitch_samples (im : Image) (g : Globals) (lat : Word → Word) (m : Mem) :
    let g' := closeSwitch im { g with lat := lat } m
    g'.lat = lat ∧ g'.swc = (closeSwitch im g m).swc ∧ g'.swt = (closeSwitch im g m).swt ∧
      g'.swn = (closeSwitch im g m).swn ∧ g'.ticks = g.ticks ∧ g'.done = g.done := by
  simp only [closeSwitch]
  cases g.havePrev with
  | false => exact ⟨rfl, rfl, rfl, rfl, rfl, rfl⟩
  | true => exact ⟨rfl, rfl, rfl, rfl, rfl, rfl⟩

theorem strapHandler_counted (hlt : g.ticks < N_TICKS)
    (hout : strapHandler im smode g h env = some out) : Counted im g h env out := by
  have hquota : ¬ N_TICKS ≤ g.ticks := BitVec.not_le.mpr hlt
  rw [strapHandler] at hout
  split at hout
  · cases hout
  obtain ⟨next, hnext, rfl⟩ := Option.map_eq_some_iff.mp hout
  obtain ⟨hlat, hswc, hswt, hswn, hticks, hdone⟩ := closeSwitch_samples im g
    (Function.update g.lat g.ticks (h.mem (addr (h.regs .a0) TF_MTIME) - g.timer.deadline)) h.mem
  generalize closeSwitch im _ h.mem = closed at hnext hlat hswc hswt hswn hticks hdone
  have hadd : closed.ticks + 1 = g.ticks + 1 := by rw [hticks]
  split at hnext
  · next hlast =>
    obtain ⟨off, -, rfl⟩ := Option.map_eq_some_iff.mp hnext
    refine ⟨hadd, hlat, hswc, hswt, hswn, rfl, rfl, rfl, fun _ => rfl, fun hmore => ?_⟩
    rw [hticks] at hlast
    exact absurd hmore (BitVec.not_lt.mpr hlast)
  · next hmore =>
    obtain ⟨armed, harmed, hrest⟩ := Option.bind_eq_some_iff.mp hnext
    obtain ⟨task, -, rfl⟩ := Option.map_eq_some_iff.mp hrest
    obtain ⟨deadline, hdeadline, hmap⟩ := Option.bind_eq_some_iff.mp harmed
    obtain ⟨h', -, rfl⟩ := Option.map_eq_some_iff.mp hmap
    refine ⟨hadd, hlat, hswc, hswt, hswn, rfl, rfl, rfl, fun hlast => ?_,
      fun _ => ⟨hdone, hdeadline⟩⟩
    rw [hticks] at hmore
    exact absurd hlast hmore

/-- The handler changes the arrays by its stores and in no other way. -/
theorem strapHandler_samples (hout : strapHandler im smode g h env = some out) :
    out.1.samples = storeSamples g.samples (handlerStores im g h) := by
  by_cases hquota : N_TICKS ≤ g.ticks
  · obtain ⟨timer, hg⟩ := strapHandler_stray hquota hout
    rw [handlerStores, if_pos hquota, hg]
    ext array : 1
    cases array <;> rfl
  · have hc := strapHandler_counted (BitVec.not_le.mp hquota) hout
    rw [handlerStores, if_neg hquota]
    ext array : 1
    cases hprev : g.havePrev with
    | false =>
        have hclosed : closeSwitch im g h.mem = g := by
          rw [closeSwitch, if_neg (by rw [hprev]; exact Bool.false_ne_true)]
        cases array with
        | lat => exact hc.lat
        | swc => exact hc.swc.trans (by rw [hclosed]; rfl)
        | swt => exact hc.swt.trans (by rw [hclosed]; rfl)
    | true =>
        have hswc := hc.swc
        have hswt := hc.swt
        rw [closeSwitch, if_pos hprev] at hswc hswt
        cases array with
        | lat => exact hc.lat
        | swc => exact hswc
        | swt => exact hswt

end Handler

/-! ## The counted traps -/

/-- An array holds a list from its first element on. -/
def Holds (a : Word → Word) (vs : List Word) : Prop :=
  ∀ i v, vs[i]? = some v → a (BitVec.ofNat 64 i) = v

theorem Holds.append {a : Word → Word} {vs : List Word} (ha : Holds a vs)
    (hlen : vs.length < 2 ^ 64) (v : Word) :
    Holds (Function.update a (BitVec.ofNat 64 vs.length) v) (vs ++ [v]) := by
  intro i w hi
  by_cases hlast : i = vs.length
  · rw [hlast, List.getElem?_concat_length] at hi
    rw [hlast, Function.update_self, Option.some.inj hi]
  · have hlt : i < vs.length := by
      have hbound := (List.getElem?_eq_some_iff.mp hi).1
      rw [List.length_append, List.length_singleton] at hbound
      omega
    have hne : BitVec.ofNat 64 i ≠ BitVec.ofNat 64 vs.length := by
      intro heq
      have hnat := congrArg BitVec.toNat heq
      rw [BitVec.toNat_ofNat, BitVec.toNat_ofNat, Nat.mod_eq_of_lt (by omega),
        Nat.mod_eq_of_lt hlen] at hnat
      exact hlast hnat
    rw [List.getElem?_append_left hlt] at hi
    rw [Function.update_of_ne hne]
    exact ha i w hi

/-- `N_TICKS`, as a number of traps. -/
def quota : Nat := N_TICKS.toNat

theorem quota_eq : quota = 200 := rfl

/-- The traps the report counts. -/
def counted (ts : List (Tick Env)) : List (Tick Env) :=
  ts.take quota

theorem length_counted_le (ts : List (Tick Env)) : (counted ts).length ≤ 200 := by
  rw [counted, List.length_take, quota_eq]
  exact Nat.min_le_left _ _

theorem counted_append {ts : List (Tick Env)} (hlt : ts.length < 200) (t : Tick Env) :
    counted (ts ++ [t]) = counted ts ++ [t] := by
  have hboth : (ts ++ [t]).length ≤ 200 := by
    rw [List.length_append, List.length_singleton]
    omega
  rw [counted, counted, quota_eq, List.take_of_length_le hboth,
    List.take_of_length_le (by omega)]

theorem counted_stray {ts : List (Tick Env)} (hge : 200 ≤ ts.length) (t : Tick Env) :
    counted (ts ++ [t]) = counted ts := by
  rw [counted, counted, quota_eq, List.take_append_of_le_length hge]

/-- A count below the quota is one the handler's comparison sees as such. -/
theorem ofNat_lt_N_TICKS {n : Nat} (hn : n ≤ 200) :
    BitVec.ofNat 64 n < N_TICKS ↔ n < 200 := by
  have hquota : N_TICKS.toNat = 200 := rfl
  rw [BitVec.lt_def, BitVec.toNat_ofNat, hquota, Nat.mod_eq_of_lt (by omega)]

/-- The bookkeeping after the traps `ts`. -/
structure Sampled (im : Image) (smode : Bool) (env : Env) (ts : List (Tick Env))
    (s : State Globals Ctx) : Prop where
  ticks : s.g.ticks = BitVec.ofNat 64 (counted ts).length
  swn : s.g.swn = BitVec.ofNat 64 ((counted ts).length - 1)
  lat : Holds s.g.lat (latencies Env.readings env (counted ts))
  swc : Holds s.g.swc ((counted ts).dropLast.map Tick.cycles)
  swt : Holds s.g.swt ((counted ts).dropLast.map Tick.duration)
  havePrev : s.g.havePrev = decide (counted ts ≠ [])
  done : s.g.done = decide (200 ≤ (counted ts).length)
  deadline : (counted ts).length < 200 →
    s.g.timer.deadline = deadlineOf (lastEnv env (counted ts)).readings
  waiting : ∀ {t}, t ∈ (counted ts).getLast? →
    s.g.gEntryCycles = t.entryCycle ∧ s.g.gEntryMtime = t.entryTime
  stamped : ∀ {t}, t ∈ ts.getLast? → Stamped (switcher im smode) s.hart.mem t

/-- The arrays are empty when `sched_init` returns. -/
theorem start_sampled {im : Image} {smode hasSstc : Bool} {fns : List Word} {h : Hart}
    {env : Env} {s : State Globals Ctx} (hs : start im smode hasSstc fns h env = some s) :
    Sampled im smode env [] s := by
  obtain ⟨out, hout, rfl⟩ := Option.map_eq_some_iff.mp hs
  obtain ⟨armed, harmed, rfl⟩ := Option.map_eq_some_iff.mp hout
  obtain ⟨deadline, hdeadline, hmap⟩ := Option.bind_eq_some_iff.mp harmed
  obtain ⟨h', -, rfl⟩ := Option.map_eq_some_iff.mp hmap
  have hnone : ∀ a : Word → Word, Holds a [] := by
    intro a i v hi
    cases hi
  refine ⟨rfl, rfl, hnone _, hnone _, hnone _, rfl, rfl, fun _ => ?_, ?_, ?_⟩
  · show deadline = deadlineOf env.readings
    rw [deadlineOf, hdeadline, Option.getD_some]
  · intro t ht
    cases ht
  · intro t ht
    cases ht

/-- Closing out a switch pairs the two stamps of the last counted trap. -/
theorem closeSwitch_sampled {im : Image} {smode : Bool} {env : Env} {ts : List (Tick Env)}
    {s : State Globals Ctx} {m : Mem} (hs : Sampled im smode env ts s)
    (hm : ∀ {t}, t ∈ (counted ts).getLast? → Stamped (switcher im smode) m t) :
    Holds (closeSwitch im s.g m).swc ((counted ts).map Tick.cycles) ∧
      Holds (closeSwitch im s.g m).swt ((counted ts).map Tick.duration) ∧
      (closeSwitch im s.g m).swn = BitVec.ofNat 64 (counted ts).length := by
  obtain ⟨-, hswn, -, hswc, hswt, hhave, -, -, hwaiting, -⟩ := hs
  have hle := length_counted_le ts
  generalize counted ts = c at hm hswn hswc hswt hhave hwaiting hle ⊢
  rcases List.eq_nil_or_concat' c with rfl | ⟨before, t, rfl⟩
  · have hprev : s.g.havePrev = false := hhave
    rw [closeSwitch, if_neg (by rw [hprev]; exact Bool.false_ne_true)]
    exact ⟨hswc, hswt, hswn⟩
  · have hlast : t ∈ (before ++ [t]).getLast? := by
      rw [List.getLast?_concat]
      rfl
    obtain ⟨hcycle, hmtime⟩ := hwaiting hlast
    have hstamped := hm hlast
    have hprev : s.g.havePrev = true := by
      rw [hhave]
      exact decide_eq_true (List.append_ne_nil_of_right_ne_nil before (List.cons_ne_nil t []))
    rw [List.dropLast_concat] at hswc hswt
    rw [List.length_append, List.length_singleton] at hle
    rw [List.length_append, List.length_singleton, Nat.add_sub_cancel] at hswn
    -- the switch goes to the element behind the ones that are there
    have hindex : ∀ f : Tick Env → Word, s.g.swn = BitVec.ofNat 64 (before.map f).length := by
      intro f
      rw [hswn, List.length_map]
    have hbound : ∀ f : Tick Env → Word, (before.map f).length < 2 ^ 64 := by
      intro f
      rw [List.length_map]
      omega
    rw [closeSwitch, if_pos hprev]
    refine ⟨?_, ?_, ?_⟩
    · show Holds (Function.update s.g.swc s.g.swn (m im.exitCycles - s.g.gEntryCycles)) _
      rw [List.map_append, List.map_singleton, hindex Tick.cycles, hcycle,
        show m im.exitCycles = t.exitCycle from hstamped.cycles]
      exact hswc.append (hbound _) t.cycles
    · show Holds (Function.update s.g.swt s.g.swn (m im.exitMtime - s.g.gEntryMtime)) _
      rw [List.map_append, List.map_singleton, hindex Tick.duration, hmtime,
        show m im.exitMtime = t.exitTime from hstamped.mtime]
      exact hswt.append (hbound _) t.duration
    · show s.g.swn + 1 = _
      rw [hswn, List.length_append, List.length_singleton, BitVec.ofNat_add]
      rfl

/-- Below the quota every trap of the run is counted. -/
theorem counted_of_lt {ts : List (Tick Env)} (hlt : (counted ts).length < 200) :
    counted ts = ts ∧ ts.length < 200 := by
  rw [counted, List.length_take, quota_eq] at hlt
  have hts : ts.length < 200 := by omega
  rw [counted, quota_eq]
  exact ⟨List.take_of_length_le (by omega), hts⟩

section OneTick

variable {im : Image} (him : im.Separate) {smode : Bool} {fresh : Ctx → Option Snap}
variable {env : Env} {ts : List (Tick Env)} {s s' : State Globals Ctx} {t : Tick Env}

/-- A stray trap leaves the arrays and both counters alone. -/
theorem tick_stray (hs : Sampled im smode env ts s) (hge : ¬ (counted ts).length < 200)
    (htick : (switcher im smode).tick s t = some s') :
    ∃ timer, s'.g = { s.g with timer := timer, done := true } := by
  obtain ⟨out, hout, hg, -, -, -, -⟩ := (switcher im smode).tick_eq_some htick
  have hquota : N_TICKS ≤ s.g.ticks := by
    apply BitVec.not_lt.mp
    rw [hs.ticks, ofNat_lt_N_TICKS (length_counted_le ts)]
    exact hge
  rw [hg]
  exact strapHandler_stray hquota hout

include him

/-- A trap below the quota adds its own latency and the switch before it. -/
theorem tick_counted (hne : im.exitCycles ≠ im.exitMtime)
    (hinv : Inv (switcher im smode) (Installed im smode) fresh s)
    (hs : Sampled im smode env ts s) (hlt : (counted ts).length < 200)
    (htick : (switcher im smode).tick s t = some s') : Sampled im smode env (ts ++ [t]) s' := by
  have hW := lawful him smode
  obtain ⟨hall, hshort⟩ := counted_of_lt hlt
  obtain ⟨out, hout, hg, -, hhart, -, -⟩ := (switcher im smode).tick_eq_some htick
  have hhandler : strapHandler im smode s.g ((switcher im smode).entered s.hart t) t.env
      = some out := hout
  have hbelow : s.g.ticks < N_TICKS := by
    rw [hs.ticks, ofNat_lt_N_TICKS (length_counted_le ts)]
    exact hlt
  have hc := strapHandler_counted hbelow hhandler
  have ha0 := entered_a0 hW t hinv.scratch
  obtain ⟨hmtime, hcycle⟩ := entered_stamps hW t hinv.scratch
  have hframes := hW.handler_frames (entered_ok hW t hinv.ok) hout s.running
  obtain ⟨hswc, hswt, hswn⟩ := closeSwitch_sampled hs
    fun hlast => entered_stamped hW t hinv.scratch (hs.stamped (by rwa [hall] at hlast))
  have hnext : s.g.ticks + 1 = BitVec.ofNat 64 ((counted ts).length + 1) := by
    rw [hs.ticks, BitVec.ofNat_add]
    rfl
  have hquota := ofNat_lt_N_TICKS (n := (counted ts).length + 1) (by omega)
  have hdone := hs.done
  have hdeadline := hs.deadline hlt
  have hcat := counted_append hshort t
  rw [← hnext] at hquota
  refine ⟨?_, ?_, ?_, ?_, ?_, ?_, ?_, ?_, ?_, ?_⟩
  · rw [hcat, hg, hc.ticks, hnext, List.length_append, List.length_singleton]
  · rw [hcat, hg, hc.swn, hswn, List.length_append, List.length_singleton, Nat.add_sub_cancel]
  · rw [hcat, hg, hc.lat, ha0, hmtime, hs.ticks, hdeadline, latencies_append,
      ← length_latencies Env.readings env (counted ts)]
    apply hs.lat.append
    rw [length_latencies]
    omega
  · rw [hcat, hg, hc.swc, List.dropLast_concat]
    exact hswc
  · rw [hcat, hg, hc.swt, List.dropLast_concat]
    exact hswt
  · rw [hcat, hg, hc.havePrev]
    exact (decide_eq_true
      (List.append_ne_nil_of_right_ne_nil (counted ts) (List.cons_ne_nil t []))).symm
  · rw [hcat, hg, List.length_append, List.length_singleton]
    by_cases hlast : (counted ts).length + 1 < 200
    · rw [(hc.rearmed (hquota.mpr hlast)).1, hdone, decide_eq_false (by omega),
        decide_eq_false (by omega)]
    · rw [hc.ended (BitVec.not_lt.mp fun h => hlast (hquota.mp h)), decide_eq_true (by omega)]
  · rw [hcat, List.length_append, List.length_singleton, lastEnv_append]
    intro hmore
    rw [hg, deadlineOf, (hc.rearmed (hquota.mpr hmore)).2, Option.getD_some]
  · intro t' ht'
    rw [hcat, List.getLast?_concat] at ht'
    obtain rfl := Option.some.inj ht'
    rw [hg, hc.entryCycles, hc.entryMtime, ha0]
    constructor
    · exact (hframes _ (inArea_addr (i := 34) (by decide) rfl)).trans hcycle
    · exact (hframes _ (inArea_addr (i := 33) (by decide) rfl)).trans hmtime
  · intro t' ht'
    rw [List.getLast?_concat] at ht'
    obtain rfl := Option.some.inj ht'
    rw [hhart]
    exact left_stamped hW hne _ _ t

/-- One trap, counted or stray, keeps the bookkeeping. -/
theorem tick_sampled (hne : im.exitCycles ≠ im.exitMtime)
    (hinv : Inv (switcher im smode) (Installed im smode) fresh s)
    (hs : Sampled im smode env ts s)
    (htick : (switcher im smode).tick s t = some s') : Sampled im smode env (ts ++ [t]) s' := by
  by_cases hlt : (counted ts).length < 200
  · exact tick_counted him hne hinv hs hlt htick
  · obtain ⟨timer, hg⟩ := tick_stray hs hlt htick
    obtain ⟨out, -, -, -, hhart, -, -⟩ := (switcher im smode).tick_eq_some htick
    have hfull : 200 ≤ ts.length := by
      rw [counted, List.length_take, quota_eq] at hlt
      omega
    have hsame := counted_stray hfull t
    refine ⟨?_, ?_, ?_, ?_, ?_, ?_, ?_, ?_, ?_, ?_⟩
    · rw [hsame, hg]
      exact hs.ticks
    · rw [hsame, hg]
      exact hs.swn
    · rw [hsame, hg]
      exact hs.lat
    · rw [hsame, hg]
      exact hs.swc
    · rw [hsame, hg]
      exact hs.swt
    · rw [hsame, hg]
      exact hs.havePrev
    · rw [hsame, hg]
      exact (decide_eq_true (by omega)).symm
    · rw [hsame]
      intro hmore
      exact absurd hmore hlt
    · rw [hsame, hg]
      exact hs.waiting
    · intro t' ht'
      rw [List.getLast?_concat] at ht'
      obtain rfl := Option.some.inj ht'
      rw [hhart]
      exact left_stamped (lawful him smode) hne _ _ t

end OneTick

/-- The bookkeeping after every run, stray traps included. -/
theorem run_sampled {im : Image} (him : im.Separate) (hne : im.exitCycles ≠ im.exitMtime)
    {smode hasSstc : Bool} {fns : List Word} {h : Hart} {env : Env} {s₀ s : State Globals Ctx}
    {ts : List (Tick Env)} (hstart : start im smode hasSstc fns h env = some s₀)
    (hrun : runAll (switcher im smode).tick s₀ ts = some s) : Sampled im smode env ts s := by
  have hboth : Inv (switcher im smode) (Installed im smode) (im.fresh s₀.g.table.nTasks) s ∧
      Sampled im smode env ([] ++ ts) s :=
    runAll_history (H := fun js s => Inv (switcher im smode) (Installed im smode)
        (im.fresh s₀.g.table.nTasks) s ∧ Sampled im smode env js s)
      (fun hH htick => ⟨tick_inv (lawful him smode) hH.1 htick,
        tick_sampled him hne hH.1 hH.2 htick⟩)
      ⟨start_inv him hstart, start_sampled hstart⟩ hrun
  exact hboth.2

/-! ## The report -/

/-- The index a switch is stored at is in bounds. -/
theorem switchStores_bounded {im : Image} {g : Globals} (hswn : g.swn < N_TICKS) (m : Mem)
    {w : SampleStore} (hw : w ∈ switchStores im g m) : w.index < N_TICKS := by
  rw [switchStores, List.mem_cons, List.mem_singleton] at hw
  rcases hw with rfl | rfl
  · exact hswn
  · exact hswn

/-- The number of stored switches is below the quota in every run. -/
theorem Sampled.swn_lt {im : Image} {smode : Bool} {env : Env} {ts : List (Tick Env)}
    {s : State Globals Ctx} (hs : Sampled im smode env ts s) : s.g.swn < N_TICKS := by
  have hle := length_counted_le ts
  rw [hs.swn, ofNat_lt_N_TICKS (by omega)]
  omega

/-- Every store of a handler call is in bounds. -/
theorem handlerStores_bounded {im : Image} {g : Globals} (hswn : g.swn < N_TICKS) (h : Hart)
    {w : SampleStore} (hw : w ∈ handlerStores im g h) : w.index < N_TICKS := by
  rw [handlerStores] at hw
  split at hw
  · cases hw
  · next hquota =>
    rcases List.mem_cons.mp hw with rfl | hrest
    · exact BitVec.not_le.mp hquota
    · split at hrest
      · exact switchStores_bounded hswn h.mem hrest
      · cases hrest

/-- When the run is over, the quota is met. -/
theorem Sampled.full {im : Image} {smode : Bool} {env : Env} {ts : List (Tick Env)}
    {s : State Globals Ctx} (hs : Sampled im smode env ts s) (hdone : s.g.done = true) :
    (counted ts).length = 200 ∧ 200 ≤ ts.length ∧ (counted ts).dropLast = ts.take 199 := by
  have hle := length_counted_le ts
  have hge : 200 ≤ (counted ts).length := by
    apply of_decide_eq_true
    rw [← hs.done]
    exact hdone
  have hfull : (counted ts).length = 200 := by omega
  refine ⟨hfull, ?_, ?_⟩
  · rw [counted, List.length_take, quota_eq] at hfull
    omega
  · rw [List.dropLast_eq_take, hfull, counted, List.take_take, quota_eq]
    rfl

/-- When the run is over, `account_final_switch` stores the last switch. -/
theorem finalSwitch_stored {im : Image} {smode : Bool} {env : Env} {ts : List (Tick Env)}
    {s : State Globals Ctx} (hs : Sampled im smode env ts s) (hdone : s.g.done = true)
    (other : Mem) :
    let final := accountFinalSwitch im s.g (s.hart.clobberMem (switcher im smode).Kept other).mem
    200 ≤ ts.length ∧ final.swn = N_TICKS ∧
      Holds final.swc ((ts.take 199).map Tick.cycles) ∧
      Holds final.swt ((ts.take 199).map Tick.duration) ∧
      (ts.length = 200 →
        Holds final.swc (ts.map Tick.cycles) ∧ Holds final.swt (ts.map Tick.duration)) := by
  obtain ⟨hfull, hlen, hdrop⟩ := hs.full hdone
  have hswn : s.g.swn = BitVec.ofNat 64 199 := by
    rw [hs.swn, hfull]
  -- the last store is behind the 199 switches that are already there
  have hkept : ∀ (a : Word → Word) (v : Word) (f : Tick Env → Word),
      Holds a ((counted ts).dropLast.map f) →
      Holds (Function.update a s.g.swn v) ((ts.take 199).map f) := by
    intro a v f ha i w hi
    have hlt : i < 199 := by
      have hbound := (List.getElem?_eq_some_iff.mp hi).1
      rw [List.length_map, List.length_take] at hbound
      omega
    have hne : BitVec.ofNat 64 i ≠ s.g.swn := by
      rw [hswn]
      intro heq
      have hnat := congrArg BitVec.toNat heq
      rw [BitVec.toNat_ofNat, BitVec.toNat_ofNat, Nat.mod_eq_of_lt (by omega)] at hnat
      omega
    rw [Function.update_of_ne hne]
    rw [hdrop] at ha
    exact ha i w hi
  refine ⟨hlen, ?_, hkept _ _ Tick.cycles hs.swc, hkept _ _ Tick.duration hs.swt, ?_⟩
  · show s.g.swn + 1 = N_TICKS
    rw [hswn]
    rfl
  · intro hexact
    have hall : counted ts = ts := by
      rw [counted, quota_eq, List.take_of_length_le (by omega)]
    have hprev : s.g.havePrev = true := by
      rw [hs.havePrev]
      apply decide_eq_true
      intro hnil
      rw [hnil, List.length_nil] at hfull
      omega
    obtain ⟨hswc, hswt, -⟩ := closeSwitch_sampled
      (m := (s.hart.clobberMem (switcher im smode).Kept other).mem) hs
      fun hlast => clobberMem_stamped (hs.stamped (by rwa [hall] at hlast)) other
    rw [closeSwitch, if_pos hprev, hall] at hswc hswt
    exact ⟨hswc, hswt⟩

/-- Along every run, stray traps included: `ticks` stays within the quota; the
next trap, whichever it is, changes the arrays by stores below `N_TICKS` only,
and not at all, nor the counters, when the quota is met; the latencies are
those of the counted traps.  When the run is over, `account_final_switch`
stores in bounds and brings `swn` to `N_TICKS`; the switches are those of the
counted traps, the last of them too when no stray trap was taken. -/
theorem sample_arrays_faithful {im : Image} (him : im.Separate)
    (hne : im.exitCycles ≠ im.exitMtime) (smode hasSstc : Bool) {fns : List Word} {h : Hart}
    {env : Env} {s₀ s : State Globals Ctx} {ts : List (Tick Env)}
    (hstart : start im smode hasSstc fns h env = some s₀)
    (hrun : runAll (switcher im smode).tick s₀ ts = some s) (other : Mem) :
    let m := (s.hart.clobberMem (switcher im smode).Kept other).mem
    let final := accountFinalSwitch im s.g m
    s.g.ticks ≤ N_TICKS ∧
      Holds s.g.lat (latencies Env.readings env (ts.take quota)) ∧
      (∀ t s', (switcher im smode).tick s t = some s' →
        let stores := handlerStores im s.g ((switcher im smode).entered s.hart t)
        s'.g.samples = storeSamples s.g.samples stores ∧
          (∀ w ∈ stores, w.index < N_TICKS) ∧
          (s.g.ticks = N_TICKS →
            s'.g.samples = s.g.samples ∧ s'.g.ticks = s.g.ticks ∧ s'.g.swn = s.g.swn)) ∧
      (s.g.done = true →
        200 ≤ ts.length ∧
        final.samples = storeSamples s.g.samples (switchStores im s.g m) ∧
        (∀ w ∈ switchStores im s.g m, w.index < N_TICKS) ∧
        final.swn = N_TICKS ∧ final.ticks = s.g.ticks ∧
        Holds final.swc ((ts.take 199).map Tick.cycles) ∧
        Holds final.swt ((ts.take 199).map Tick.duration) ∧
        (ts.length = 200 →
          Holds final.swc (ts.map Tick.cycles) ∧ Holds final.swt (ts.map Tick.duration))) := by
  have hs := run_sampled him hne hstart hrun
  refine ⟨?_, hs.lat, fun t s' htick => ?_, fun hdone => ?_⟩
  · have hle := length_counted_le ts
    rw [hs.ticks, BitVec.le_def, BitVec.toNat_ofNat, Nat.mod_eq_of_lt (by omega)]
    exact hle
  · obtain ⟨out, hout, hg, -, -, -, -⟩ := (switcher im smode).tick_eq_some htick
    have hhandler : strapHandler im smode s.g ((switcher im smode).entered s.hart t) t.env
        = some out := hout
    refine ⟨?_, fun w hw => handlerStores_bounded hs.swn_lt _ hw, fun hquota => ?_⟩
    · rw [hg]
      exact strapHandler_samples hhandler
    · have hmet : N_TICKS ≤ s.g.ticks := by
        rw [hquota]
        exact BitVec.le_refl _
      obtain ⟨timer, hstray⟩ := strapHandler_stray hmet hhandler
      rw [hg, hstray]
      refine ⟨?_, rfl, rfl⟩
      ext array : 1
      cases array <;> rfl
  · obtain ⟨hlen, hswn, hswc, hswt, hlast⟩ := finalSwitch_stored hs hdone other
    exact ⟨hlen, accountFinalSwitch_samples im s.g _,
      fun w hw => switchStores_bounded hs.swn_lt _ hw, hswn, rfl, hswc, hswt, hlast⟩

/-- A full run in S-mode without Sstc, without a stray trap: all 200 switches
are in the arrays. -/
theorem full_run_sampled :
    ∃ s₀ s, start sampleImage true false [0x80000600] sampleHart (sampleEnv 0 1) = some s₀ ∧
      runAll (switcher sampleImage true).tick s₀
        (List.replicate 200 (sampleTick 0 10002 500)) = some s ∧
      (accountFinalSwitch sampleImage s.g s.hart.mem).swn = N_TICKS ∧
      Holds (accountFinalSwitch sampleImage s.g s.hart.mem).swc (List.replicate 200 90) := by
  have him := sampleImage_separate
  have harm : (nextDeadline (sampleEnv 0 1).readings).isSome := by decide
  obtain ⟨s₀, hstart, hready⟩ :=
    start_returns him true false (List.cons_ne_nil 0x80000600 []) sampleHart harm
  have hticks : ∀ t ∈ List.replicate 200 (sampleTick 0 10002 500),
      (nextDeadline t.env.readings).isSome := by
    intro t ht
    rw [List.eq_of_mem_replicate ht]
    decide
  obtain ⟨s, hrun, -⟩ := sched_run_returns him hready hticks
  have hdistinct : sampleImage.exitCycles ≠ sampleImage.exitMtime := by decide
  have hdone : s.g.done = true := by
    rw [(run_sampled him hdistinct hstart hrun).done, counted, List.length_take,
      List.length_replicate]
    rfl
  obtain ⟨-, -, -, hreport⟩ :=
    sample_arrays_faithful him hdistinct true false hstart hrun s.hart.mem
  obtain ⟨-, -, -, hswn, -, -, -, hall⟩ := hreport hdone
  rw [Hart.clobberMem_self] at hswn hall
  obtain ⟨hswc, -⟩ := hall (List.length_replicate)
  rw [List.map_replicate] at hswc
  exact ⟨s₀, s, hstart, hrun, hswn, hswc⟩

end Smode
end BareMetal
