import BareMetal.McounterenTmUGate.Handlers

/-!
# The verdict of the mcounteren.TM lab

A run of the M-mode handler either enters the next phase, and then no check has failed
until there, or is the last one.  So the finisher word can only be written by the third
run, whatever traps have come in between (`verdict_sound`).

The invariant `Inv` keeps the runs of the handler in step with `mtmu_m_phase`, and
`mcounteren.TM` with the payload that is running.  It also bounds `fails`, which is an
`int`: an environment call from U-mode needs a payload, and a payload needs a new phase,
so that a continuation cannot be entered twice without a handoff.
-/

namespace BareMetal
namespace McounterenTmUGate

open Machine

/-! ## Checks -/

namespace Report

variable (r : Report) (cond : Bool) (msg : String)

@[simp] theorem feed_fails (v : Word) : (r.feed v).fails = r.fails := by
  rw [feed]

@[simp] theorem feed_failed (v : Word) : (r.feed v).failed = r.failed := by
  rw [feed]

@[simp] theorem feedOk_fails : r.feedOk.fails = r.fails := by
  rw [feedOk, feed_fails]

/-- No failure behind a check: it held, and there was none before it. -/
@[simp] theorem check_fails_eq_zero :
    (r.check cond msg).fails = 0 ↔ cond = true ∧ r.fails = 0 := by
  cases cond <;> simp [check]

/-- The FAIL lines are as many as `fails` says. -/
def Counted : Prop :=
  r.failed.length = r.fails

/-- `r'` is `r` behind at most `n` checks: a failure is never taken back. -/
structure Behind (n : Nat) (r r' : Report) : Prop where
  counted : r.Counted → r'.Counted
  fails_le : r'.fails ≤ r.fails + n
  fails_eq_zero : r'.fails = 0 → r.fails = 0

variable {r} {r' : Report} {n : Nat}

theorem Behind.refl (r : Report) : Behind 0 r r :=
  ⟨id, le_rfl, id⟩

theorem Behind.trans {r'' : Report} {m : Nat} (h : Behind n r r') (h' : Behind m r' r'') :
    Behind (n + m) r r'' := by
  have hle := h.fails_le
  have hle' := h'.fails_le
  exact ⟨h'.counted ∘ h.counted, by omega, h.fails_eq_zero ∘ h'.fails_eq_zero⟩

theorem Behind.mono {m : Nat} (h : Behind n r r') (hm : n ≤ m) : Behind m r r' :=
  ⟨h.counted, h.fails_le.trans (by omega), h.fails_eq_zero⟩

theorem Behind.check (h : Behind n r r') : Behind (n + 1) r (r'.check cond msg) := by
  have hle := h.fails_le
  refine ⟨fun hr => ?_, ?_, fun hzero => ?_⟩
  · have hcounted := h.counted hr
    unfold Counted at hcounted ⊢
    cases cond <;> simp [Report.check, hcounted]
  · cases cond <;> simp only [Report.check] <;> simp <;> omega
  · rw [check_fails_eq_zero] at hzero
    exact h.fails_eq_zero hzero.2

theorem Behind.feed (h : Behind n r r') (v : Word) : Behind n r (r'.feed v) := by
  refine ⟨fun hr => ?_, ?_, fun hzero => ?_⟩
  · have hcounted := h.counted hr
    unfold Counted at hcounted ⊢
    rw [feed_failed, feed_fails, hcounted]
  · rw [feed_fails]
    exact h.fails_le
  · rw [feed_fails] at hzero
    exact h.fails_eq_zero hzero

theorem Behind.feedOk (h : Behind n r r') : Behind n r r'.feedOk :=
  h.feed _

end Report

/-! ## The invariant -/

def Phase.index : Phase → Nat
  | .a => 0
  | .b => 1
  | .c => 2

/-- The failed checks there can be at a location since the last run of the handler that
has entered a phase. -/
def Loc.spent : Loc → Nat
  | .driver _ => 0
  | .payload _ => 0
  | .done _ k => k
  | .unexpected => 14
  | .stopped => 20

/-- The mode a location is in. -/
def Loc.priv : Loc → Priv
  | .payload _ => .user
  | .stopped => .machine
  | _ => .supervisor

/-- TM is as phase `n` wants it. -/
def gateOk (n : Nat) (mcounteren : Word) : Prop :=
  (n = 1 → mcounteren &&& MCOUNTEREN_TM = 0) ∧ (n = 2 → mcounteren &&& MCOUNTEREN_TM ≠ 0)

section Invariant

variable (sites : Sites)

/-- The `i`-th run of the handler as it should be: entered in phase `i`, by an `ecall` of
S-mode at its site, and left with TM as the next phase wants it. -/
structure Handled.Expected (i : Nat) (h : Handled) : Prop where
  phase : h.phase = i
  mcause : h.mcause = 9
  mepc : h.mepc = sites.sEcallSite
  gate : gateOk (i + 1) h.mcounteren

/-- There were `n` runs of the handler, all as they should be. -/
structure Ordered (n : Nat) (handled : List Handled) : Prop where
  length : handled.length = n
  expected : ∀ i (h : Handled), handled[i]? = some h → h.Expected sites i

theorem Ordered.append {n : Nat} {handled : List Handled} (ho : Ordered sites n handled)
    {h : Handled} (hh : h.Expected sites n) : Ordered sites (n + 1) (handled ++ [h]) := by
  refine ⟨by simp [ho.length], fun i k hk => ?_⟩
  rcases Nat.lt_or_ge i n with hlt | hge
  · rw [List.getElem?_append_left (by rw [ho.length]; exact hlt)] at hk
    exact ho.expected i k hk
  · rw [List.getElem?_append_right (by rw [ho.length]; exact hge), ho.length] at hk
    obtain ⟨hi, rfl⟩ : i - n = 0 ∧ h = k := by simpa [List.getElem?_singleton] using hk
    obtain rfl : i = n := by omega
    exact hh

/-- While the hart has not stopped. -/
structure Running (s : State) : Prop where
  ordered : Ordered sites s.mPhase s.handled
  unwritten : s.finisher = none
  gate : gateOk s.mPhase s.mcounteren
  payload : ∀ p, s.loc = .driver p ∨ s.loc = .payload p → s.mPhase = p.index
  phase : s.mPhase ≤ 2

structure Inv (s : State) : Prop where
  running : s.loc ≠ .stopped → Running sites s
  passed : s.finisher ≠ none → Ordered sites 3 s.handled ∧ s.report.fails = 0
  writes : ∀ i ∈ s.histWrites, i < MTMU_HIST_N
  counted : s.report.Counted
  priv : s.priv = s.loc.priv
  fails : s.report.fails ≤ 5 + s.loc.spent
  place : ∀ p k, s.loc = .done p k → k ≤ (doneCode sites p).length

end Invariant

/-! ## One step -/

section Steps

variable {sites : Sites} {hw : Warl} {s : State}

theorem keepHist_writes (s : State) (h : ∀ i ∈ s.histWrites, i < MTMU_HIST_N) :
    ∀ i ∈ (keepHist s).histWrites, i < MTMU_HIST_N := by
  unfold keepHist
  split
  · next hroom =>
    intro i hi
    rcases List.mem_append.mp hi with hold | hnew
    · exact h i hold
    · rw [List.mem_singleton.mp hnew]
      exact hroom
  · exact h

/-- What the dispatcher can do: it writes its own records, and resumes behind the
trap, in a continuation, or in `mtmu_unexpected`. -/
theorem mtmuHandle_cases (sites : Sites) (s : State) :
    ∃ regs badCause badSig spp,
      (mtmuHandle sites s).1 = { keepHist s with regs, badCause, badSig, spp } ∧
      ((s.regs 0 = 2 ∧ (mtmuHandle sites s).2 = .next ∧ spp = (keepHist s).spp) ∨
        (s.regs 0 = 8 ∧ (∃ p, (mtmuHandle sites s).2 = .done p) ∧ spp = .supervisor) ∨
        ((mtmuHandle sites s).2 = .unexpected ∧ spp = .supervisor)) := by
  unfold mtmuHandle
  dsimp only
  by_cases hillegal : s.regs 0 = 2
  · rw [if_pos hillegal]
    exact ⟨_, _, _, _, rfl, .inl ⟨hillegal, rfl, rfl⟩⟩
  · rw [if_neg hillegal]
    by_cases hecall : s.regs 0 = 8
    · rw [if_pos hecall]
      split
      · exact ⟨_, _, _, _, rfl, .inr (.inl ⟨hecall, ⟨.a, rfl⟩, rfl⟩)⟩
      · split
        · exact ⟨_, _, _, _, rfl, .inr (.inl ⟨hecall, ⟨.b, rfl⟩, rfl⟩)⟩
        · split
          · exact ⟨_, _, _, _, rfl, .inr (.inl ⟨hecall, ⟨.c, rfl⟩, rfl⟩)⟩
          · exact ⟨_, _, _, _, rfl, .inr (.inr ⟨rfl, rfl⟩)⟩
    · rw [if_neg hecall]
      exact ⟨_, _, _, _, rfl, .inr (.inr ⟨rfl, rfl⟩)⟩

/-- What no S-mode trap touches. -/
structure Kept (s s' : State) : Prop where
  report : s'.report = s.report
  handled : s'.handled = s.handled
  finisher : s'.finisher = s.finisher
  mPhase : s'.mPhase = s.mPhase
  mcounteren : s'.mcounteren = s.mcounteren

theorem keepHist_kept (s : State) : Kept s (keepHist s) ∧ (keepHist s).spp = s.spp := by
  unfold keepHist
  split
  · exact ⟨⟨rfl, rfl, rfl, rfl, rfl⟩, rfl⟩
  · exact ⟨⟨rfl, rfl, rfl, rfl, rfl⟩, rfl⟩

/-- What an S-mode trap can do. -/
theorem mtmuTrapEntry_cases (sites : Sites) (f : Frame) (s : State) :
    Kept s (mtmuTrapEntry sites f s) ∧
      ((∀ i ∈ s.histWrites, i < MTMU_HIST_N) →
        ∀ i ∈ (mtmuTrapEntry sites f s).histWrites, i < MTMU_HIST_N) ∧
      (((mtmuTrapEntry sites f s).loc = s.loc ∧ (mtmuTrapEntry sites f s).priv = s.priv) ∨
        (f.scause = 8 ∧ (∃ p, (mtmuTrapEntry sites f s).loc = .done p 0) ∧
          (mtmuTrapEntry sites f s).priv = .supervisor) ∨
        ((mtmuTrapEntry sites f s).loc = .unexpected ∧
          (mtmuTrapEntry sites f s).priv = .supervisor)) := by
  obtain ⟨regs, badCause, badSig, spp, hstate, hresume⟩ :=
    mtmuHandle_cases sites { s with regs := record s.regs f, spp := s.priv }
  obtain ⟨hkept, hspp⟩ := keepHist_kept { s with regs := record s.regs f, spp := s.priv }
  unfold mtmuTrapEntry
  dsimp only
  rw [hstate]
  refine ⟨⟨hkept.report, hkept.handled, hkept.finisher, hkept.mPhase, hkept.mcounteren⟩,
    keepHist_writes { s with regs := record s.regs f, spp := s.priv }, ?_⟩
  rcases hresume with ⟨-, hnext, hpriv⟩ | ⟨hcause, ⟨p, hdone⟩, hpriv⟩ | ⟨hbad, hpriv⟩
  · rw [hnext, hpriv, hspp]
    exact .inl ⟨rfl, rfl⟩
  · rw [hdone, hpriv]
    exact .inr (.inl ⟨hcause, ⟨p, rfl⟩, rfl⟩)
  · rw [hbad, hpriv]
    exact .inr (.inr ⟨rfl, rfl⟩)

/-- The handler, or a part of it, ends in a `wfi` loop behind at most `n` checks. -/
structure Ends (n : Nat) (s s' : State) : Prop where
  loc : s'.loc = .stopped
  priv : s'.priv = .machine
  histWrites : s'.histWrites = s.histWrites
  report : Report.Behind n s.report s'.report

/-- The handler, or a part of it, enters phase `next` in the driver of `p`, which it does
only if nothing has failed until there. -/
structure Enters (n next : Nat) (p : Phase) (s s' : State) : Prop where
  loc : s'.loc = .driver p
  priv : s'.priv = .supervisor
  mPhase : s'.mPhase = next
  histWrites : s'.histWrites = s.histWrites
  finisher : s'.finisher = s.finisher
  report : Report.Behind n s.report s'.report
  fails : s'.report.fails = 0
  gate : gateOk next s'.mcounteren

/-- `arm` ends, or enters the phase it is for. -/
theorem arm_cases (hw : Warl) (scMsg : String) (value : Word) (set : Bool) (tmMsg : String) {next : Nat}
    (p : Phase) (s : State)
    (hgate : ∀ mc, decide (mc &&& MCOUNTEREN_TM ≠ 0) = set → gateOk next mc) :
    (Ends 2 s (arm hw scMsg value set tmMsg next p s) ∧
        (arm hw scMsg value set tmMsg next p s).finisher = s.finisher) ∨
      Enters 2 next p s (arm hw scMsg value set tmMsg next p s) := by
  have hreport : ∀ c c' : Bool, Report.Behind 2 s.report
      ((s.report.check c scMsg).feedOk.check c' tmMsg).feedOk := fun c c' =>
    ((((Report.Behind.refl s.report).check c scMsg).feedOk).check c' tmMsg).feedOk
  unfold arm
  dsimp only
  split
  · exact .inl ⟨⟨rfl, rfl, rfl, hreport _ _⟩, rfl⟩
  · next hfails =>
    have hzero := not_not.mp hfails
    have htm := hzero
    rw [Report.feedOk_fails, Report.check_fails_eq_zero, beq_iff_eq] at htm
    exact .inr ⟨rfl, rfl, rfl, rfl, rfl, hreport _ _, hzero, hgate _ htm.1⟩

/-- `restore` ends, and writes the finisher word only if nothing has failed. -/
theorem restore_cases (hw : Warl) (s : State) :
    Ends 4 s (restore hw s) ∧
      ((restore hw s).finisher = s.finisher ∨ (restore hw s).report.fails = 0) := by
  unfold restore
  dsimp only
  refine ⟨⟨rfl, rfl, rfl, ?_⟩, ?_⟩
  · exact ((((((((Report.Behind.refl s.report).check _ _).feedOk).check _ _).feedOk).check _
      _).feedOk).check _ _).feedOk
  · split
    · next hzero => exact .inr hzero
    · exact .inl rfl

/-- What is reported before the handler looks at the phase. -/
def entryReport (sites : Sites) (s : State) : Report :=
  (((s.report.check (s.mCause = 9) "M-mode: trap is not an S-mode ecall (cause 9)").feed
    s.mCause).check (s.mEpc = sites.sEcallSite)
      "M-mode: mepc is not at the S-mode ecall site").feedOk

theorem entryReport_behind (sites : Sites) (s : State) :
    Report.Behind 2 s.report (entryReport sites s) :=
  ((((Report.Behind.refl s.report).check _ _).feed _).check _ _).feedOk

theorem entryReport_fails (h : (entryReport sites s).fails = 0) :
    s.mCause = 9 ∧ s.mEpc = sites.sEcallSite := by
  rw [entryReport, Report.feedOk_fails, Report.check_fails_eq_zero, Report.feed_fails,
    Report.check_fails_eq_zero] at h
  exact ⟨of_decide_eq_true h.2.1, of_decide_eq_true h.1⟩

theorem mtmuMHandle_eq (sites : Sites) (hw : Warl) (s : State) :
    mtmuMHandle sites hw s =
      if s.mPhase = 0 then
        arm hw "M-mode: scounteren.TM did not stay set" 0 false
          "M-mode: mcounteren.TM did not clear" 1 .b { s with report := entryReport sites s }
      else if s.mPhase = 1 then
        arm hw "M-mode: scounteren.TM did not stay set through phase B" MCOUNTEREN_TM true
          "M-mode: mcounteren.TM did not set" 2 .c { s with report := entryReport sites s }
      else if s.mPhase = 2 then restore hw { s with report := entryReport sites s }
      else { s with report := entryReport sites s, loc := .stopped, priv := .machine } := by
  unfold mtmuMHandle entryReport
  dsimp only

theorem Ends.of_entry {n : Nat} {s' : State}
    (h : Ends n { s with report := entryReport sites s } s') : Ends (2 + n) s s' :=
  ⟨h.loc, h.priv, h.histWrites, (entryReport_behind sites s).trans h.report⟩

theorem Enters.of_entry {n next : Nat} {p : Phase} {s' : State}
    (h : Enters n next p { s with report := entryReport sites s } s') :
    Enters (2 + n) next p s s' ∧ s.mCause = 9 ∧ s.mEpc = sites.sEcallSite :=
  ⟨⟨h.loc, h.priv, h.mPhase, h.histWrites, h.finisher,
    (entryReport_behind sites s).trans h.report, h.fails, h.gate⟩,
    entryReport_fails (h.report.fails_eq_zero h.fails)⟩

/-- What a run of the handler can do: end without a word, enter the next phase, or be the
one of phase 2 and end without a failure. -/
theorem mtmuMHandle_cases (sites : Sites) (hw : Warl) (hphase : s.mPhase ≤ 2) :
    (Ends 6 s (mtmuMHandle sites hw s) ∧ (mtmuMHandle sites hw s).finisher = s.finisher) ∨
      (s.mCause = 9 ∧ s.mEpc = sites.sEcallSite ∧
        ((∃ p n, p.index = s.mPhase + 1 ∧
            Enters n (s.mPhase + 1) p s (mtmuMHandle sites hw s)) ∨
          (s.mPhase = 2 ∧ Ends 6 s (mtmuMHandle sites hw s) ∧
            (mtmuMHandle sites hw s).report.fails = 0))) := by
  rw [mtmuMHandle_eq]
  have hclear : ∀ mc : Word, decide (mc &&& MCOUNTEREN_TM ≠ 0) = false → gateOk 1 mc := by
    intro mc hmc
    exact ⟨fun _ => by simpa using hmc, fun h => absurd h (by decide)⟩
  have hset : ∀ mc : Word, decide (mc &&& MCOUNTEREN_TM ≠ 0) = true → gateOk 2 mc := by
    intro mc hmc
    exact ⟨fun h => absurd h (by decide), fun _ => by simpa using hmc⟩
  split
  · next hzero =>
    rcases arm_cases hw "M-mode: scounteren.TM did not stay set" 0 false
        "M-mode: mcounteren.TM did not clear" .b { s with report := entryReport sites s } hclear
      with ⟨hends, hfinisher⟩ | henters
    · exact .inl ⟨⟨hends.loc, hends.priv, hends.histWrites,
        hends.of_entry.report.mono (by omega)⟩, hfinisher⟩
    · obtain ⟨henters, hcause, hepc⟩ := henters.of_entry
      have hnext : s.mPhase + 1 = 1 := by omega
      rw [hnext]
      exact .inr ⟨hcause, hepc, .inl ⟨.b, _, rfl, henters⟩⟩
  · split
    · next hone =>
      rcases arm_cases hw "M-mode: scounteren.TM did not stay set through phase B"
          MCOUNTEREN_TM true "M-mode: mcounteren.TM did not set" .c
          { s with report := entryReport sites s } hset with ⟨hends, hfinisher⟩ | henters
      · exact .inl ⟨⟨hends.loc, hends.priv, hends.histWrites,
          hends.of_entry.report.mono (by omega)⟩, hfinisher⟩
      · obtain ⟨henters, hcause, hepc⟩ := henters.of_entry
        have hnext : s.mPhase + 1 = 2 := by omega
        rw [hnext]
        exact .inr ⟨hcause, hepc, .inl ⟨.c, _, rfl, henters⟩⟩
    · split
      · next htwo =>
        obtain ⟨hends, hfinisher⟩ := restore_cases hw { s with report := entryReport sites s }
        rcases hfinisher with hfinisher | hfails
        · exact .inl ⟨hends.of_entry, hfinisher⟩
        · obtain ⟨hcause, hepc⟩ := entryReport_fails (hends.report.fails_eq_zero hfails)
          exact .inr ⟨hcause, hepc, .inr ⟨htwo, hends.of_entry, hfails⟩⟩
      · omega

/-- A statement touches the report, behind one check at most, and the samples. -/
theorem exec_eq (c : Stmt) (s : State) :
    ∃ report sample0 sample1, c.exec s = { s with report, sample0, sample1 } ∧
      Report.Behind 1 s.report report := by
  cases c with
  | check cond msg => exact ⟨_, _, _, rfl, (Report.Behind.refl s.report).check _ _⟩
  | feed v => exact ⟨_, _, _, rfl, ((Report.Behind.refl s.report).feed _).mono (by omega)⟩
  | sample i => exact ⟨_, _, _, rfl, (Report.Behind.refl s.report).mono (by omega)⟩

theorem doneCode_length (sites : Sites) (p : Phase) : (doneCode sites p).length ≤ 14 := by
  cases p
  · show 13 ≤ 14
    omega
  · show 14 ≤ 14
    omega
  · show 13 ≤ 14
    omega

/-- A step outside M-mode that keeps the verdict keeps the invariant, if the new location
fits the mode, the phase and the failures so far. -/
theorem Inv.of_kept (h : Inv sites s) (hloc : s.loc ≠ .stopped) {s' : State} (hkept : Kept s s')
    (hwrites : ∀ i ∈ s'.histWrites, i < MTMU_HIST_N) (hpriv : s'.priv = s'.loc.priv)
    (hfails : s.report.fails ≤ 5 + s'.loc.spent)
    (hpayload : ∀ p, s'.loc = .driver p ∨ s'.loc = .payload p → s.mPhase = p.index)
    (hplace : ∀ p k, s'.loc = .done p k → k ≤ (doneCode sites p).length) : Inv sites s' := by
  have hrunning := h.running hloc
  obtain ⟨hreport, hhandled, hfinisher, hphase, hmcounteren⟩ := hkept
  have hunwritten : s'.finisher = none := hfinisher.trans hrunning.unwritten
  refine ⟨fun _ => ⟨?_, hunwritten, ?_, ?_, ?_⟩, fun hwritten => absurd hunwritten hwritten,
    hwrites, ?_, hpriv, ?_, hplace⟩
  · rw [hphase, hhandled]
    exact hrunning.ordered
  · rw [hphase, hmcounteren]
    exact hrunning.gate
  · rw [hphase]
    exact hpayload
  · rw [hphase]
    exact hrunning.phase
  · rw [hreport]
    exact h.counted
  · rw [hreport]
    exact hfails

theorem Inv.drop (h : Inv sites s) {p : Phase} (hloc : s.loc = .driver p) :
    Inv sites { s with loc := .payload p, priv := .user, spp := .user } := by
  have hstopped : s.loc ≠ .stopped := by
    rw [hloc]
    exact Loc.noConfusion
  have hfails := h.fails
  rw [hloc] at hfails
  refine h.of_kept hstopped ⟨rfl, rfl, rfl, rfl, rfl⟩ h.writes rfl hfails ?_
    fun q k hk => nomatch hk
  rintro q (hq | hq)
  · nomatch hq
  · obtain rfl : p = q := Loc.payload.inj hq
    exact (h.running hstopped).payload p (.inl hloc)

theorem Inv.stmt (h : Inv sites s) {p : Phase} {k : Nat} (hloc : s.loc = .done p k) {c : Stmt}
    (hc : (doneCode sites p)[k]? = some c) :
    Inv sites { c.exec s with loc := .done p (k + 1) } := by
  have hrunning : Running sites s := h.running (by rw [hloc]; exact Loc.noConfusion)
  have hk : k < (doneCode sites p).length := (List.getElem?_eq_some_iff.mp hc).1
  obtain ⟨report, sample0, sample1, hexec, hreport⟩ := exec_eq c s
  have hfails := h.fails
  rw [hloc] at hfails
  rw [hexec]
  refine ⟨fun _ => ⟨hrunning.ordered, hrunning.unwritten, hrunning.gate, ?_, hrunning.phase⟩,
    fun hwritten => absurd hrunning.unwritten hwritten, h.writes, hreport.counted h.counted, ?_, ?_,
    ?_⟩
  · rintro q (hq | hq) <;> nomatch hq
  · rw [h.priv, hloc]
    rfl
  · have hle := hreport.fails_le
    show report.fails ≤ 5 + (k + 1)
    have hbefore : s.report.fails ≤ 5 + k := hfails
    omega
  · intro q j hj
    obtain ⟨rfl, rfl⟩ : p = q ∧ k + 1 = j := Loc.done.inj hj
    exact hk

/-- In U-mode the hart is in a payload. -/
theorem Inv.payload_of_user (h : Inv sites s) (huser : s.priv = .user) :
    ∃ p, s.loc = .payload p := by
  have hpriv := h.priv
  rw [huser] at hpriv
  cases hloc : s.loc with
  | payload p => exact ⟨p, rfl⟩
  | driver p => rw [hloc] at hpriv; nomatch hpriv
  | done p k => rw [hloc] at hpriv; nomatch hpriv
  | unexpected => rw [hloc] at hpriv; nomatch hpriv
  | stopped => rw [hloc] at hpriv; nomatch hpriv

/-- A location outside M-mode, behind as many failures as `mtmu_unexpected` allows. -/
theorem Inv.fails_le (h : Inv sites s) (hloc : s.loc ≠ .stopped) : s.report.fails ≤ 19 := by
  have hfails := h.fails
  cases hs : s.loc with
  | driver p => rw [hs, Loc.spent] at hfails; omega
  | payload p => rw [hs, Loc.spent] at hfails; omega
  | unexpected => rw [hs, Loc.spent] at hfails; omega
  | stopped => exact absurd hs hloc
  | done p k =>
      have hplace := h.place p k hs
      have hlength := doneCode_length sites p
      rw [hs, Loc.spent] at hfails
      omega

theorem Inv.sTrap (h : Inv sites s) (hloc : s.loc ≠ .stopped) {f : Frame}
    (huser : f.scause = 8 → s.priv = .user) : Inv sites (mtmuTrapEntry sites f s) := by
  obtain ⟨hkept, hwrites, hwhere⟩ := mtmuTrapEntry_cases sites f s
  generalize mtmuTrapEntry sites f s = s' at hkept hwrites hwhere ⊢
  rcases hwhere with ⟨hloc', hpriv⟩ | ⟨hcause, ⟨p, hloc'⟩, hpriv⟩ | ⟨hloc', hpriv⟩
  · -- behind the trap, where the hart has been before
    refine h.of_kept hloc hkept (hwrites h.writes) ?_ ?_ ?_ ?_
    · rw [hpriv, hloc']
      exact h.priv
    · rw [hloc']
      exact h.fails
    · rw [hloc']
      exact (h.running hloc).payload
    · rw [hloc']
      exact h.place
  · -- a continuation, from a payload: nothing has failed since the phase was entered
    obtain ⟨q, hq⟩ := h.payload_of_user (huser hcause)
    have hfails := h.fails
    rw [hq] at hfails
    refine h.of_kept hloc hkept (hwrites h.writes) ?_ ?_ ?_ ?_
    · rw [hpriv, hloc']
      rfl
    · rw [hloc']
      exact hfails
    · rw [hloc']
      rintro r (hr | hr) <;> nomatch hr
    · intro r k hk
      obtain ⟨rfl, rfl⟩ : p = r ∧ 0 = k := Loc.done.inj (hloc'.symm.trans hk)
      exact Nat.zero_le _
  · refine h.of_kept hloc hkept (hwrites h.writes) ?_ ?_ ?_ ?_
    · rw [hpriv, hloc']
      rfl
    · rw [hloc']
      exact h.fails_le hloc
    · rw [hloc']
      rintro r (hr | hr) <;> nomatch hr
    · intro r k hk
      nomatch hloc'.symm.trans hk

/-- The end of the run, with the last run of the handler recorded. -/
theorem Inv.of_ends (h : Inv sites s) (hloc : s.loc ≠ .stopped) {s' : State} (hends : Ends 6 s s')
    {handled : List Handled}
    (hpassed : s'.finisher ≠ none → Ordered sites 3 handled ∧ s'.report.fails = 0) :
    Inv sites { s' with handled } := by
  have hle := h.fails_le hloc
  have hbound := hends.report.fails_le
  refine ⟨fun hrun => absurd hends.loc hrun, hpassed, ?_, hends.report.counted h.counted, ?_, ?_,
    ?_⟩
  · show ∀ i ∈ s'.histWrites, i < MTMU_HIST_N
    rw [hends.histWrites]
    exact h.writes
  · show s'.priv = s'.loc.priv
    rw [hends.priv, hends.loc]
    rfl
  · show s'.report.fails ≤ 5 + s'.loc.spent
    rw [hends.loc, Loc.spent]
    omega
  · intro p k hk
    nomatch hends.loc.symm.trans hk

/-- The next phase, with the run of the handler recorded that has entered it. -/
theorem Inv.of_enters (h : Inv sites s) (hrunning : Running sites s) {s' : State} {n : Nat}
    {p : Phase} (hp : p.index = s.mPhase + 1) (henters : Enters n (s.mPhase + 1) p s s')
    {handled : List Handled} (hordered : Ordered sites (s.mPhase + 1) handled) :
    Inv sites { s' with handled } := by
  have hphase := henters.mPhase
  have hunwritten : s'.finisher = none := henters.finisher.trans hrunning.unwritten
  refine ⟨fun _ => ⟨?_, hunwritten, ?_, ?_, ?_⟩, fun hwritten => absurd hunwritten hwritten, ?_,
    henters.report.counted h.counted, ?_, ?_, ?_⟩
  · show Ordered sites s'.mPhase handled
    rw [hphase]
    exact hordered
  · show gateOk s'.mPhase s'.mcounteren
    rw [hphase]
    exact henters.gate
  · show ∀ q, s'.loc = .driver q ∨ s'.loc = .payload q → s'.mPhase = q.index
    rw [henters.loc, hphase]
    rintro q (hq | hq)
    · obtain rfl : p = q := Loc.driver.inj hq
      exact hp.symm
    · nomatch hq
  · show s'.mPhase ≤ 2
    rw [hphase, ← hp]
    cases p <;> decide
  · show ∀ i ∈ s'.histWrites, i < MTMU_HIST_N
    rw [henters.histWrites]
    exact h.writes
  · show s'.priv = s'.loc.priv
    rw [henters.priv, henters.loc]
    rfl
  · show s'.report.fails ≤ 5 + s'.loc.spent
    rw [henters.fails]
    exact Nat.zero_le _
  · intro q k hk
    nomatch henters.loc.symm.trans hk

theorem Inv.mTrap (h : Inv sites s) (hloc : s.loc ≠ .stopped) (mcause mepc : Word) :
    Inv sites (mtmuMtTrapEntry sites hw mcause mepc s) := by
  have hrunning := h.running hloc
  have hcases := @mtmuMHandle_cases
    { s with mCause := mcause, mEpc := mepc, mCount := s.mCount + 1 } sites hw hrunning.phase
  unfold mtmuMtTrapEntry
  dsimp only at hcases ⊢
  generalize mtmuMHandle sites hw
    { s with mCause := mcause, mEpc := mepc, mCount := s.mCount + 1 } = s' at hcases ⊢
  rcases hcases with ⟨hends, hfinisher⟩ | ⟨hcause, hepc, ⟨p, n, hp, henters⟩ | ⟨htwo, hends, hfails⟩⟩
  · refine h.of_ends hloc ⟨hends.loc, hends.priv, hends.histWrites, hends.report⟩ fun hwritten => ?_
    exact absurd (hfinisher.trans hrunning.unwritten) hwritten
  · refine h.of_enters hrunning hp ⟨henters.loc, henters.priv, henters.mPhase, henters.histWrites,
      henters.finisher, henters.report, henters.fails, henters.gate⟩ ?_
    exact hrunning.ordered.append sites ⟨rfl, hcause, hepc, henters.gate⟩
  · refine h.of_ends hloc ⟨hends.loc, hends.priv, hends.histWrites, hends.report⟩ fun _ => ?_
    have hordered := hrunning.ordered
    rw [htwo] at hordered ⊢
    refine ⟨hordered.append sites ⟨rfl, hcause, hepc, ?_⟩, hfails⟩
    exact ⟨fun hone => absurd hone (by decide), fun htwo => absurd htwo (by decide)⟩

theorem step_inv {a : Action} {s' : State} (h : Inv sites s) (hstep : step sites hw s a = some s') :
    Inv sites s' := by
  cases a with
  | drop =>
      unfold step at hstep
      dsimp only at hstep
      split at hstep
      · next p hloc =>
        obtain rfl := Option.some.inj hstep
        exact h.drop hloc
      · nomatch hstep
  | stmt =>
      unfold step at hstep
      dsimp only at hstep
      split at hstep
      · next p k hloc =>
        obtain ⟨c, hc, rfl⟩ := Option.map_eq_some_iff.mp hstep
        exact h.stmt hloc hc
      · nomatch hstep
  | sTrap f =>
      unfold step at hstep
      dsimp only at hstep
      split at hstep
      · nomatch hstep
      · next hpossible =>
        push Not at hpossible
        obtain rfl := Option.some.inj hstep
        exact h.sTrap hpossible.1 hpossible.2
  | mTrap mcause mepc =>
      unfold step at hstep
      dsimp only at hstep
      split at hstep
      · nomatch hstep
      · next hloc =>
        obtain rfl := Option.some.inj hstep
        exact h.mTrap hloc mcause mepc

/-- `main` leaves the invariant behind its five checks. -/
theorem main_inv (sites : Sites) (hw : Warl) (mcounteren scounteren medeleg : Word) :
    Inv sites (main hw mcounteren scounteren medeleg) := by
  have hreport : Report.Behind 5 ⟨0, [], Checksum.TRUNCATED_BASIS, false⟩
      (main hw mcounteren scounteren medeleg).report := by
    unfold main
    exact ((((((((((Report.Behind.refl _).check _ _).feed _).check _ _).feed _).check _
      _).feedOk).check _ _).feed _).check _ _).feedOk
  have hordered : Ordered sites 0 [] := ⟨rfl, fun i h hi => nomatch hi⟩
  refine ⟨fun _ => ⟨hordered, rfl, ?_, ?_, Nat.zero_le _⟩, fun hwritten => absurd rfl hwritten,
    fun i hi => absurd hi List.not_mem_nil, hreport.counted rfl, rfl, hreport.fails_le,
    fun p k hk => nomatch hk⟩
  · show gateOk 0 (main hw mcounteren scounteren medeleg).mcounteren
    exact ⟨fun hone => absurd hone (by decide), fun htwo => absurd htwo (by decide)⟩
  · rintro p (hp | hp)
    · obtain rfl : Phase.a = p := Loc.driver.inj hp
      rfl
    · nomatch hp

end Steps

/-! ## Whole runs -/

theorem Ordered.eq_three {sites : Sites} {handled : List Handled} (h : Ordered sites 3 handled) :
    ∃ mc₀ mc₁ mc₂, handled =
        [⟨0, 9, sites.sEcallSite, mc₀⟩, ⟨1, 9, sites.sEcallSite, mc₁⟩, ⟨2, 9, sites.sEcallSite, mc₂⟩] ∧
      mc₀ &&& MCOUNTEREN_TM = 0 ∧ mc₁ &&& MCOUNTEREN_TM ≠ 0 := by
  obtain ⟨⟨n₀, c₀, e₀, mc₀⟩, ⟨n₁, c₁, e₁, mc₁⟩, ⟨n₂, c₂, e₂, mc₂⟩, rfl⟩ :=
    List.length_eq_three.mp h.length
  obtain ⟨rfl, rfl, rfl, hgate₀⟩ := h.expected 0 _ rfl
  obtain ⟨rfl, rfl, rfl, hgate₁⟩ := h.expected 1 _ rfl
  obtain ⟨rfl, rfl, rfl, -⟩ := h.expected 2 _ rfl
  exact ⟨mc₀, mc₁, mc₂, rfl, hgate₀.1 rfl, hgate₁.2 rfl⟩

/-- From every boot, after every sequence of statements and traps: the finisher word has
been written only if the M-mode handler has run exactly three times, in the phases 0, 1
and 2, each time for an `ecall` from S-mode at its site, the first run has left
`mcounteren.TM` clear and the second has left it set, and no check has failed.  The
payload of phase B always runs with TM clear and that of phase C with TM set, every
write into `mtmu_hist` is to one of its rows, and `fails` does not overflow. -/
theorem verdict_sound (sites : Sites) (hw : Warl) (mcounteren scounteren medeleg : Word)
    {actions : List Action} {s : State}
    (hrun : runAll (step sites hw) (main hw mcounteren scounteren medeleg) actions = some s) :
    (s.finisher = some FINISHER_PASS →
      (∃ mc₀ mc₁ mc₂, s.handled =
          [⟨0, 9, sites.sEcallSite, mc₀⟩, ⟨1, 9, sites.sEcallSite, mc₁⟩,
            ⟨2, 9, sites.sEcallSite, mc₂⟩] ∧
        mc₀ &&& MCOUNTEREN_TM = 0 ∧ mc₁ &&& MCOUNTEREN_TM ≠ 0) ∧
      s.report.fails = 0 ∧ s.report.failed = []) ∧
    (s.loc = .payload .b → s.mcounteren &&& MCOUNTEREN_TM = 0) ∧
    (s.loc = .payload .c → s.mcounteren &&& MCOUNTEREN_TM ≠ 0) ∧
    (∀ i ∈ s.histWrites, i < MTMU_HIST_N) ∧
    s.report.fails < 2 ^ 31 := by
  have hinv : Inv sites s :=
    runAll_invariant (fun hinv hstep => step_inv hinv hstep)
      (main_inv sites hw mcounteren scounteren medeleg) hrun
  have hpayload : ∀ p, s.loc = .payload p → gateOk p.index s.mcounteren := by
    intro p hp
    have hrunning := hinv.running (by rw [hp]; exact Loc.noConfusion)
    rw [← hrunning.payload p (.inr hp)]
    exact hrunning.gate
  refine ⟨fun hpass => ?_, fun hb => (hpayload .b hb).1 rfl, fun hc => (hpayload .c hc).2 rfl,
    hinv.writes, ?_⟩
  · obtain ⟨hordered, hfails⟩ := hinv.passed (by rw [hpass]; exact Option.some_ne_none _)
    have hcounted : s.report.failed.length = s.report.fails := hinv.counted
    exact ⟨hordered.eq_three, hfails, List.length_eq_zero_iff.mp (hcounted.trans hfails)⟩
  · have hfails := hinv.fails
    by_cases hloc : s.loc = .stopped
    · rw [hloc, Loc.spent] at hfails
      omega
    · have hle := hinv.fails_le hloc
      omega

/-- Addresses, and registers that take every write to their three low bits. -/
def sampleSites : Sites :=
  ⟨0x80000200, 0x80000300, 0x80000308, 0x80000400, 0x80000100,
    fun p => 0x80001000 + 0x100 * BitVec.ofNat 64 p.index, 0x80002000⟩

def sampleWarl : Warl :=
  ⟨fun _ v => v &&& 7, fun _ v => v &&& 7, fun _ v => v⟩

/-- The run the lab is about. -/
def sampleRun : List Action :=
  List.flatten
    [[.drop, .sTrap ⟨8, 0, 0x80000200, 100, MTMU_SIG_A, 101, 0⟩],
     List.replicate 13 .stmt,
     [.mTrap 9 0x80000100, .drop, .sTrap ⟨2, 0, 0x80000300, SENTINEL, 0, 0, 0⟩,
      .sTrap ⟨8, 0, 0x80000308, SENTINEL, MTMU_SIG_B, 0, 0⟩],
     List.replicate 14 .stmt,
     [.mTrap 9 0x80000100, .drop, .sTrap ⟨8, 0, 0x80000400, 200, MTMU_SIG_C, 202, 0⟩],
     List.replicate 13 .stmt,
     [.mTrap 9 0x80000100]]

theorem sample_run_passes :
    ∃ s, runAll (step sampleSites sampleWarl) (main sampleWarl 0 0 0) sampleRun = some s ∧
      s.finisher = some FINISHER_PASS ∧ s.handled.length = 3 ∧ s.report.failed = [] := by
  have hpass : (runAll (step sampleSites sampleWarl) (main sampleWarl 0 0 0) sampleRun).map
      State.finisher = some (some FINISHER_PASS) := by
    decide +kernel
  obtain ⟨s, hs, hfinisher⟩ := Option.map_eq_some_iff.mp hpass
  obtain ⟨⟨mc₀, mc₁, mc₂, hhandled, -⟩, -, hfailed⟩ :=
    (verdict_sound sampleSites sampleWarl 0 0 0 hs).1 hfinisher
  exact ⟨s, hs, hfinisher, by rw [hhandled]; rfl, hfailed⟩

end McounterenTmUGate
end BareMetal
