import BareMetal.Shell.Editor

/-!
# Sessions of the UART shell

`shell_run` and `run_command` of `src/shell/cmds.c`: prompt, read a line, run it,
for as long as there is input.  `run_command` reads the buffer as a C string, and
the bytes behind its NUL are those of earlier lines; `runCommand_eq` says that
they never matter.

What a session prints besides text comes from outside: `uptime` reads `mtime`,
and `regs` prints what its `ecall` has left in `trap_bank` (see `Shell.Trap`),
unless the trap does not come back.  Both are given for each executed command.

A stream is split into lines by CR and LF alike, so CR LF ends a line and then an
empty one.  `line_endings_padded` says that this is all that happens when one
convention is replaced by the other.
-/

namespace BareMetal
namespace Shell

open Machine Uart

/-! ## C strings -/

/-- `streq` on the buffer from `i` on and a literal. -/
def streq (a : Nat → UInt8) : Nat → List UInt8 → Bool
  | i, [] => a i = 0
  | i, b :: bs => if a i ≠ 0 ∧ a i = b then streq a (i + 1) bs else a i = b

/-- Comparisons with the bytes of a literal, up to the first that fails. -/
def hasPrefix (a : Nat → UInt8) : Nat → List UInt8 → Bool
  | _, [] => true
  | i, b :: bs => a i = b && hasPrefix a (i + 1) bs

/-- The bytes of `line` from `i` on. -/
def bytesFrom (a : Nat → UInt8) (i : Nat) : List UInt8 :=
  (List.range (LINE_MAX - i)).map fun k => a (i + k)

/-- `is_echo`. -/
def isEcho (s : Nat → UInt8) : Bool :=
  streq s 0 (ascii "echo") || hasPrefix s 0 (ascii "echo ")

/-! ## The commands -/

def cmdHelp : List Op :=
  uartPuts (ascii "commands:\n") ++
  uartPuts (ascii "  help    list commands\n") ++
  uartPuts (ascii "  echo    print text back byte-for-byte\n") ++
  uartPuts (ascii "  regs    dump registers saved by the trap handler\n") ++
  uartPuts (ascii "  uptime  print mtime ticks since reset\n")

/-- `cmd_echo` on the buffer from `i` on. -/
def cmdEcho (s : Nat → UInt8) (i : Nat) : List Op :=
  uartPuts (bytesFrom s (if s i = 0x20 then i + 1 else i)) ++ uartPutc LF

def regNames : List (List UInt8) :=
  ["ra", "sp", "gp", "tp", "t0", "t1", "t2", "s0", "s1",
   "a0", "a1", "a2", "a3", "a4", "a5", "a6", "a7",
   "s2", "s3", "s4", "s5", "s6", "s7", "s8", "s9", "s10", "s11",
   "t3", "t4", "t5", "t6"].map ascii

/-- `cmd_regs` behind its `ecall`. -/
def cmdRegs (trapBank : Nat → Word) : List Op :=
  (regNames.zipIdx.flatMap fun p =>
    uartPuts p.1 ++ uartPuts (ascii " = ") ++ uartPutHex (trapBank p.2) ++ uartPutc LF) ++
  uartPuts (ascii "mepc    = ") ++ uartPutHex (trapBank 31) ++ uartPutc LF ++
  uartPuts (ascii "mstatus = ") ++ uartPutHex (trapBank 32) ++ uartPutc LF ++
  uartPuts (ascii "mcause  = ") ++ uartPutHex (trapBank 33) ++ uartPutc LF

def cmdUptime (t : Word) : List Op :=
  uartPuts (ascii "mtime = ") ++ uartPutDec t ++ uartPuts (ascii " ticks\n")

/-- What the `n`-th executed command of a session finds: `trap_bank` behind the
`ecall` of `regs`, if that comes back, and the counter. -/
structure Env where
  bank : Nat → Option (Nat → Word)
  mtime : Nat → Word

/-- `run_command`; `none` if it does not come back. -/
def runCommand (env : Env) (n : Nat) (line : Nat → UInt8) (lineLen : Nat) : Option (List Op) :=
  if lineLen = 0 then some []
  else if streq line 0 (ascii "help") then some cmdHelp
  else if isEcho line then some (cmdEcho line 4)
  else if streq line 0 (ascii "regs") then (env.bank n).map cmdRegs
  else if streq line 0 (ascii "uptime") then some (cmdUptime (env.mtime n))
  else some (uartPuts (ascii "unknown command: ") ++ uartPuts (bytesFrom line 0) ++ uartPutc LF)

/-! ## The session -/

/-- One turn of `shell_run`: the line read, what was sent while reading it, and
what the command has sent. -/
structure Turn where
  text : List UInt8
  shown : List Op
  output : Option (List Op)

/-- The turns of a session, and what has been sent of the one that still waits
for input. -/
structure Session where
  turns : List Turn
  pending : List Op

/-- The loop of `shell_run`, for at most `fuel` turns; `n` commands have been
executed so far. -/
def shellLoop (env : Env) : Nat → Nat → Editor → List UInt8 → Session
  | 0, _, _, _ => ⟨[], []⟩
  | fuel + 1, n, e, cs =>
      match readLine e cs with
      | none => ⟨[], uartPuts PROMPT ++ (editAll { e with lineLen := 0 } cs).2⟩
      | some r =>
          let output := runCommand env n r.editor.line r.editor.lineLen
          let turn : Turn :=
            ⟨(List.range r.editor.lineLen).map r.editor.line, uartPuts PROMPT ++ r.ops, output⟩
          match output with
          | none => ⟨[turn], []⟩
          | some _ =>
              let rest := shellLoop env fuel (if r.editor.lineLen = 0 then n else n + 1)
                r.editor r.rest
              ⟨turn :: rest.turns, rest.pending⟩

/-- `shell_run` behind its banner.  A turn takes a byte at least. -/
def shellRun (env : Env) (cs : List UInt8) : Session :=
  shellLoop env (cs.length + 1) 0 ⟨fun _ => 0, 0, []⟩ cs

/-! ## Commands see the line only -/

/-- The buffer from `i` on is the C string `text`. -/
structure CString (a : Nat → UInt8) (i : Nat) (text : List UInt8) : Prop where
  bytes : ∀ j < text.length, a (i + j) = text.getD j 0
  nul : a (i + text.length) = 0
  noNul : ∀ c ∈ text, c ≠ 0

section CString

variable {a : Nat → UInt8} {i : Nat} {text : List UInt8}

theorem CString.head {c : UInt8} (h : CString a i (c :: text)) : a i = c :=
  h.bytes 0 (by simp)

theorem CString.tail {c : UInt8} (h : CString a i (c :: text)) : CString a (i + 1) text := by
  refine ⟨fun j hj => ?_, ?_, fun d hd => h.noNul d (by simp [hd])⟩
  · have hbyte := h.bytes (j + 1) (by simpa using hj)
    rw [Nat.add_assoc, Nat.add_comm 1 j, hbyte, List.getD_cons_succ]
  · have hnul := h.nul
    rw [List.length_cons] at hnul
    rw [Nat.add_assoc, Nat.add_comm 1, hnul]

theorem CString.drop (h : CString a i text) {k : Nat} (hk : k ≤ text.length) :
    CString a (i + k) (text.drop k) := by
  induction k generalizing i text with
  | zero => exact h
  | succ k ih =>
      cases text with
      | nil => simp at hk
      | cons c text =>
          have hrest := ih h.tail (by simpa using hk)
          rwa [Nat.add_assoc, Nat.add_comm 1 k] at hrest

theorem streq_eq (h : CString a i text) {lit : List UInt8} (hlit : ∀ b ∈ lit, b ≠ 0) :
    streq a i lit = decide (text = lit) := by
  induction lit generalizing i text with
  | nil =>
      cases text with
      | nil => simpa [streq] using h.nul
      | cons c text =>
          have hc : c ≠ 0 := h.noNul c (by simp)
          simp [streq, h.head, hc]
  | cons b lit ih =>
      have hb : b ≠ 0 := hlit b (by simp)
      cases text with
      | nil =>
          have hnul : a i = 0 := h.nul
          simp [streq, hnul, Ne.symm hb]
      | cons c text =>
          have hc : c ≠ 0 := h.noNul c (by simp)
          by_cases hcb : c = b
          · simp [streq, h.head, hcb, hb, ih h.tail (fun d hd => hlit d (by simp [hd]))]
          · simp [streq, h.head, hcb]

theorem hasPrefix_eq (h : CString a i text) {lit : List UInt8} (hlit : ∀ b ∈ lit, b ≠ 0) :
    hasPrefix a i lit = decide (lit <+: text) := by
  induction lit generalizing i text with
  | nil => simp [hasPrefix]
  | cons b lit ih =>
      have hb : b ≠ 0 := hlit b (by simp)
      cases text with
      | nil =>
          have hnul : a i = 0 := h.nul
          simp [hasPrefix, hnul, Ne.symm hb]
      | cons c text =>
          simp [hasPrefix, h.head, ih h.tail (fun d hd => hlit d (by simp [hd])),
            List.cons_prefix_cons, eq_comm]

theorem bytesFrom_eq_cons (a : Nat → UInt8) {i : Nat} (hi : i < LINE_MAX) :
    bytesFrom a i = a i :: bytesFrom a (i + 1) := by
  obtain ⟨k, hk⟩ : ∃ k, LINE_MAX - i = k + 1 := ⟨LINE_MAX - i - 1, by omega⟩
  have hrest : LINE_MAX - (i + 1) = k := by omega
  rw [bytesFrom, bytesFrom, hk, hrest, List.range_succ_eq_map, List.map_cons, List.map_map,
    Nat.add_zero]
  congr 1
  apply List.map_congr_left
  intro j _
  show a (i + (j + 1)) = a (i + 1 + j)
  rw [Nat.add_assoc, Nat.add_comm 1 j]

/-- Printing the buffer prints the C string in it. -/
theorem uartPuts_bytesFrom (h : CString a i text) (hroom : i + text.length < LINE_MAX) :
    uartPuts (bytesFrom a i) = text.flatMap uartPutc := by
  induction text generalizing i with
  | nil =>
      have hnul : a i = 0 := h.nul
      rw [bytesFrom_eq_cons a (by simpa using hroom), hnul]
      rfl
  | cons c text ih =>
      have hc : c ≠ 0 := h.noNul c (by simp)
      rw [List.length_cons] at hroom
      rw [bytesFrom_eq_cons a (by omega), h.head, uartPuts, if_neg hc, ih h.tail (by omega),
        List.flatMap_cons]

end CString

/-- The text of a line behind the word `echo`, without one blank. -/
def echoed (text : List UInt8) : List UInt8 :=
  if text.head? = some 0x20 then text.drop 1 else text

/-- What a line prints, as a function of the line. -/
def commandOutput (env : Env) (n : Nat) (text : List UInt8) : Option (List Op) :=
  if text = [] then some []
  else if text = ascii "help" then some cmdHelp
  else if text = ascii "echo" ∨ ascii "echo " <+: text then
    some ((echoed (text.drop 4)).flatMap uartPutc ++ uartPutc LF)
  else if text = ascii "regs" then (env.bank n).map cmdRegs
  else if text = ascii "uptime" then some (cmdUptime (env.mtime n))
  else some (uartPuts (ascii "unknown command: ") ++ text.flatMap uartPutc ++ uartPutc LF)

theorem cmdEcho_eq {a : Nat → UInt8} {i : Nat} {text : List UInt8} (h : CString a i text)
    (hroom : i + text.length < LINE_MAX) :
    cmdEcho a i = (echoed text).flatMap uartPutc ++ uartPutc LF := by
  unfold cmdEcho echoed
  cases text with
  | nil =>
      have hnul : a i = 0 := h.nul
      rw [hnul, if_neg (by decide), uartPuts_bytesFrom h hroom]
      simp
  | cons c text =>
      rw [h.head, List.head?_cons]
      by_cases hblank : c = 0x20
      · rw [List.length_cons] at hroom
        rw [if_pos hblank, if_pos (by rw [hblank]), uartPuts_bytesFrom h.tail (by omega)]
        rfl
      · rw [if_neg hblank, if_neg (by simpa using hblank), uartPuts_bytesFrom h hroom]

/-- The words lines are compared with. -/
def commandWords : List String :=
  ["help", "echo", "echo ", "regs", "uptime"]

theorem commandWords_ne_zero : ∀ w ∈ commandWords, ∀ b ∈ ascii w, b ≠ 0 := by
  decide +kernel

section Words

variable {a : Nat → UInt8} {text : List UInt8}

theorem streq_word (h : CString a 0 text) {w : String} (hw : w ∈ commandWords) :
    streq a 0 (ascii w) = decide (text = ascii w) :=
  streq_eq h (commandWords_ne_zero w hw)

theorem isEcho_eq (h : CString a 0 text) :
    isEcho a = decide (text = ascii "echo" ∨ ascii "echo " <+: text) := by
  have hblank : ∀ b ∈ ascii "echo ", b ≠ 0 :=
    commandWords_ne_zero _ (by simp [commandWords])
  rw [isEcho, streq_word h (by simp [commandWords]), hasPrefix_eq h hblank, Bool.decide_or]

/-- An `echo` line has the word in it. -/
theorem four_le_length (htext : text = ascii "echo" ∨ ascii "echo " <+: text) :
    4 ≤ text.length := by
  rcases htext with rfl | hprefix
  · decide +kernel
  · have hle := hprefix.length_le
    have hfive : (ascii "echo ").length = 5 := by decide +kernel
    omega

end Words

/-- A command sees the line only: what earlier lines have left in the buffer does
not reach it. -/
theorem runCommand_eq (env : Env) (n : Nat) {a : Nat → UInt8} {text : List UInt8}
    (h : CString a 0 text) (hroom : text.length < LINE_MAX) :
    runCommand env n a text.length = commandOutput env n text := by
  have hempty : text.length = 0 ↔ text = [] := List.length_eq_zero_iff
  have hhelp := streq_word h (w := "help") (by simp [commandWords])
  have hregs := streq_word h (w := "regs") (by simp [commandWords])
  have huptime := streq_word h (w := "uptime") (by simp [commandWords])
  have hecho := isEcho_eq h
  have hall : uartPuts (bytesFrom a 0) = text.flatMap uartPutc :=
    uartPuts_bytesFrom h (by omega)
  unfold runCommand commandOutput
  simp only [hempty, hhelp, hregs, huptime, hecho, hall, decide_eq_true_eq]
  split
  · rfl
  · split
    · rfl
    · split
      next hword =>
        have hlength := four_le_length hword
        have hdrop := h.drop hlength
        rw [Nat.zero_add] at hdrop
        rw [cmdEcho_eq hdrop (by rw [List.length_drop]; omega)]
      next => rfl

/-! ## Lines -/

/-- A line of the input: its bytes and the one that ends it. -/
structure Line where
  bytes : List UInt8
  eol : UInt8

structure Line.Ok (l : Line) : Prop where
  bytes : ∀ c ∈ l.bytes, isEnd c = false
  eol : isEnd l.eol = true

/-- The stream of some lines. -/
def joinLines (ls : List Line) : List UInt8 :=
  ls.flatMap fun l => l.bytes ++ [l.eol]

/-- Every stream is some lines and the beginning of one more. -/
theorem exists_lines (cs : List UInt8) :
    ∃ ls tail, cs = joinLines ls ++ tail ∧ (∀ l ∈ ls, l.Ok) ∧ ∀ c ∈ tail, isEnd c = false := by
  induction cs with
  | nil => exact ⟨[], [], rfl, by simp, by simp⟩
  | cons c cs ih =>
      obtain ⟨ls, tail, rfl, hls, htail⟩ := ih
      by_cases hc : isEnd c = true
      · refine ⟨⟨[], c⟩ :: ls, tail, rfl, ?_, htail⟩
        intro l hl
        rcases List.mem_cons.mp hl with rfl | hl
        · exact ⟨by simp, hc⟩
        · exact hls l hl
      · have hc : isEnd c = false := by simpa using hc
        cases ls with
        | nil =>
            refine ⟨[], c :: tail, rfl, by simp, ?_⟩
            intro d hd
            rcases List.mem_cons.mp hd with rfl | hd
            · exact hc
            · exact htail d hd
        | cons l ls =>
            have hl : l.Ok := hls l (by simp)
            refine ⟨⟨c :: l.bytes, l.eol⟩ :: ls, tail, rfl, ?_, htail⟩
            intro k hk
            rcases List.mem_cons.mp hk with rfl | hk
            · refine ⟨fun d hd => ?_, hl.eol⟩
              rcases List.mem_cons.mp hd with rfl | hd
              · exact hc
              · exact hl.bytes d hd
            · exact hls k (by simp [hk])

/-- The echo of a line, from any buffer. -/
def echoOf (bs : List UInt8) : List Op :=
  (editAll ⟨fun _ => 0, 0, []⟩ bs).2

/-- The turn a line gives rise to. -/
def turnOf (env : Env) (n : Nat) (bs : List UInt8) : Turn :=
  ⟨kept bs, uartPuts PROMPT ++ (echoOf bs ++ uartPutc LF), commandOutput env n (kept bs)⟩

/-- The session of some lines, as a function of what is kept of them. -/
def sessionOf (env : Env) : Nat → List Line → List UInt8 → Session
  | _, [], tail => ⟨[], uartPuts PROMPT ++ echoOf tail⟩
  | n, l :: ls, tail =>
      match commandOutput env n (kept l.bytes) with
      | none => ⟨[turnOf env n l.bytes], []⟩
      | some _ =>
          let rest := sessionOf env (if kept l.bytes = [] then n else n + 1) ls tail
          ⟨turnOf env n l.bytes :: rest.turns, rest.pending⟩

/-- The echo depends on the buffer through its length only. -/
theorem edit_ops_congr {e e' : Editor} (h : e.lineLen = e'.lineLen) (c : UInt8) :
    (e.edit c).2 = (e'.edit c).2 ∧ (e.edit c).1.lineLen = (e'.edit c).1.lineLen := by
  unfold Editor.edit
  rw [h]
  split
  · split <;> exact ⟨rfl, by simp [h]⟩
  · split
    · exact ⟨rfl, h⟩
    · split
      · exact ⟨rfl, rfl⟩
      · exact ⟨rfl, h⟩

theorem editAll_ops_congr {e e' : Editor} (h : e.lineLen = e'.lineLen) (bs : List UInt8) :
    (editAll e bs).2 = (editAll e' bs).2 := by
  induction bs generalizing e e' with
  | nil => rfl
  | cons b bs ih =>
      obtain ⟨hops, hlen⟩ := edit_ops_congr h b
      rw [editAll, editAll, hops, ih hlen]

theorem editAll_start_ops (e : Editor) (bs : List UInt8) :
    (editAll { e with lineLen := 0 } bs).2 = echoOf bs := by
  have hlen : ({ e with lineLen := 0 } : Editor).lineLen = (⟨fun _ => 0, 0, []⟩ : Editor).lineLen :=
    rfl
  exact editAll_ops_congr hlen bs

/-- Kept bytes are not control bytes. -/
theorem kept_ne_zero {text : List UInt8} (h : ∀ c ∈ text, c ≠ 0) (bs : List UInt8) :
    ∀ c ∈ bs.foldl keep text, c ≠ 0 := by
  induction bs generalizing text with
  | nil => exact h
  | cons b bs ih =>
      apply ih
      unfold keep
      split
      · exact fun c hc => h c (List.dropLast_subset text hc)
      · split
        · exact h
        · next hprintable =>
          split
          · intro c hc
            rcases List.mem_append.mp hc with hc | hc
            · exact h c hc
            · rw [List.mem_singleton.mp hc]
              rintro rfl
              exact hprintable (by decide)
          · exact h

theorem readLoop_eq_none {e : Editor} {cs : List UInt8} (h : ∀ c ∈ cs, isEnd c = false) :
    readLoop e cs = none := by
  induction cs generalizing e with
  | nil => rfl
  | cons c cs ih =>
      have hc : isEnd c = false := h c (by simp)
      have hcs : ∀ d ∈ cs, isEnd d = false := fun d hd => h d (by simp [hd])
      simp [readLoop, hc, ih hcs]

/-- `read_line` on a line, from any buffer. -/
theorem readLine_line {e : Editor} (he : ∀ i ∈ e.stores, i < LINE_MAX) {l : Line} (hl : l.Ok)
    (rest : List UInt8) :
    ∃ e', readLine e (l.bytes ++ l.eol :: rest) = some ⟨e', echoOf l.bytes ++ uartPutc LF, rest⟩ ∧
      Terminated e' (kept l.bytes) := by
  have hholds := editAll_holds (start_holds he) l.bytes
  refine ⟨_, ?_, store_nul_terminated hholds⟩
  rw [readLine, readLoop_eq hl.bytes hl.eol, editAll_start_ops]

theorem terminated_cString {e : Editor} {text : List UInt8} (h : Terminated e text)
    (hnul : ∀ c ∈ text, c ≠ 0) : CString e.line 0 text :=
  ⟨fun j hj => by rw [Nat.zero_add]; exact h.holds.line j hj,
    by rw [Nat.zero_add]; exact h.nul, hnul⟩

theorem terminated_text {e : Editor} {text : List UInt8} (h : Terminated e text) :
    (List.range e.lineLen).map e.line = text := by
  rw [h.holds.lineLen]
  apply List.ext_getElem (by simp)
  intro i hi hi'
  rw [List.getElem_map, List.getElem_range, h.holds.line i hi', List.getD_eq_getElem _ _ hi']

/-- The loop of `shell_run` is `sessionOf` of the lines it reads. -/
theorem shellLoop_eq (env : Env) {ls : List Line} (hls : ∀ l ∈ ls, l.Ok) {tail : List UInt8}
    (htail : ∀ c ∈ tail, isEnd c = false) {fuel : Nat} (hfuel : ls.length < fuel) (n : Nat)
    {e : Editor} (he : ∀ i ∈ e.stores, i < LINE_MAX) :
    shellLoop env fuel n e (joinLines ls ++ tail) = sessionOf env n ls tail := by
  induction ls generalizing fuel n e with
  | nil =>
      obtain ⟨fuel, rfl⟩ : ∃ k, fuel = k + 1 := ⟨fuel - 1, by simp at hfuel; omega⟩
      have hread : readLine e tail = none := readLoop_eq_none htail
      simp only [joinLines, List.flatMap_nil, List.nil_append, shellLoop, hread, sessionOf,
        editAll_start_ops]
  | cons l ls ih =>
      obtain ⟨fuel, rfl⟩ : ∃ k, fuel = k + 1 := ⟨fuel - 1, by simp at hfuel; omega⟩
      have hfuel' : ls.length < fuel := by simpa using hfuel
      have hstream : joinLines (l :: ls) ++ tail = l.bytes ++ l.eol :: (joinLines ls ++ tail) := by
        simp [joinLines]
      obtain ⟨e', hread, hterm⟩ := readLine_line he (hls l (by simp)) (joinLines ls ++ tail)
      have hnul : ∀ c ∈ kept l.bytes, c ≠ 0 := kept_ne_zero (by simp) l.bytes
      have hcommand : runCommand env n e'.line e'.lineLen = commandOutput env n (kept l.bytes) := by
        have hlength := hterm.holds.length
        rw [hterm.holds.lineLen]
        exact runCommand_eq env n (terminated_cString hterm hnul) (by unfold LINE_MAX; omega)
      have hempty : (e'.lineLen = 0) ↔ kept l.bytes = [] := by
        rw [hterm.holds.lineLen, List.length_eq_zero_iff]
      rw [hstream, shellLoop, hread, sessionOf]
      simp only [hcommand, terminated_text hterm, hempty]
      cases houtput : commandOutput env n (kept l.bytes) with
      | none => simp only [turnOf, houtput]
      | some ops =>
          simp only [turnOf, houtput]
          rw [ih (fun k hk => hls k (by simp [hk])) hfuel' _ hterm.holds.stores]

theorem length_le_joinLines (ls : List Line) : ls.length ≤ (joinLines ls).length := by
  induction ls with
  | nil => simp [joinLines]
  | cons l ls ih =>
      have hcons : joinLines (l :: ls) = l.bytes ++ l.eol :: joinLines ls := by simp [joinLines]
      rw [hcons, List.length_append, List.length_cons, List.length_cons]
      omega

/-- `shell_run` is `sessionOf` of the lines of the stream. -/
theorem shellRun_eq (env : Env) {ls : List Line} (hls : ∀ l ∈ ls, l.Ok) {tail : List UInt8}
    (htail : ∀ c ∈ tail, isEnd c = false) :
    shellRun env (joinLines ls ++ tail) = sessionOf env 0 ls tail := by
  have hlength := length_le_joinLines ls
  apply shellLoop_eq env hls htail _ 0 (by simp)
  rw [List.length_append]
  omega

/-! ## CR LF for one of the two -/

/-- Every `which` becomes CR LF. -/
def toCrlf (which : UInt8) (cs : List UInt8) : List UInt8 :=
  cs.flatMap fun c => if c = which then [CR, LF] else [c]

/-- A line that `which` has ended is followed by an empty one. -/
def withCrlf (which : UInt8) (ls : List Line) : List Line :=
  ls.flatMap fun l => if l.eol = which then [⟨l.bytes, CR⟩, ⟨[], LF⟩] else [l]

theorem toCrlf_eq_self {which : UInt8} (hwhich : isEnd which = true) {bs : List UInt8}
    (hbs : ∀ c ∈ bs, isEnd c = false) : toCrlf which bs = bs := by
  induction bs with
  | nil => rfl
  | cons b bs ih =>
      have hb : isEnd b = false := hbs b (by simp)
      have hne : b ≠ which := by
        rintro rfl
        rw [hwhich] at hb
        exact Bool.noConfusion hb
      have hrest := ih fun c hc => hbs c (by simp [hc])
      unfold toCrlf at hrest
      rw [toCrlf, List.flatMap_cons, if_neg hne, hrest]
      rfl

theorem toCrlf_append (which : UInt8) (bs cs : List UInt8) :
    toCrlf which (bs ++ cs) = toCrlf which bs ++ toCrlf which cs :=
  List.flatMap_append

theorem toCrlf_joinLines {which : UInt8} (hwhich : isEnd which = true) {ls : List Line}
    (hls : ∀ l ∈ ls, l.Ok) : toCrlf which (joinLines ls) = joinLines (withCrlf which ls) := by
  induction ls with
  | nil => rfl
  | cons l ls ih =>
      have hl : l.Ok := hls l (by simp)
      have hcons : joinLines (l :: ls) = l.bytes ++ ([l.eol] ++ joinLines ls) := by
        simp [joinLines]
      rw [hcons, toCrlf_append, toCrlf_append, toCrlf_eq_self hwhich hl.bytes,
        ih fun k hk => hls k (by simp [hk])]
      by_cases heol : l.eol = which
      · simp [toCrlf, withCrlf, joinLines, heol]
      · simp [toCrlf, withCrlf, joinLines, heol]

theorem withCrlf_ok {which : UInt8} {ls : List Line} (hls : ∀ l ∈ ls, l.Ok) :
    ∀ l ∈ withCrlf which ls, l.Ok := by
  intro l hl
  obtain ⟨k, hk, hl⟩ := List.mem_flatMap.mp hl
  have hok : k.Ok := hls k hk
  split at hl
  · rcases List.mem_cons.mp hl with rfl | hl
    · exact ⟨hok.bytes, rfl⟩
    · rw [List.mem_singleton.mp hl]
      exact ⟨by simp, rfl⟩
  · rw [List.mem_singleton.mp hl]
    exact hok

/-- The same line and the same output, but for the counter `uptime` prints. -/
structure Alike (a b : Turn) : Prop where
  text : a.text = b.text
  shown : a.shown = b.shown
  output : a.text ≠ ascii "uptime" → a.output = b.output
  uptime : a.text = ascii "uptime" →
    ∃ t t', a.output = some (cmdUptime t) ∧ b.output = some (cmdUptime t')

/-- The prompt, the end of the line, and no command. -/
def emptyTurn : Turn :=
  ⟨[], uartPuts PROMPT ++ uartPutc LF, some []⟩

/-- The second session is the first one with empty prompt lines added. -/
inductive Padded : List Turn → List Turn → Prop
  | nil : Padded [] []
  | same {a b : Turn} {as bs : List Turn} : Alike a b → Padded as bs → Padded (a :: as) (b :: bs)
  | extra {as bs : List Turn} : Padded as bs → Padded as (emptyTurn :: bs)

/-- The turns that execute something. -/
def executed (turns : List Turn) : List Turn :=
  turns.filter fun t => t.text ≠ []

/-- Added prompt lines execute nothing. -/
theorem Padded.executed {as bs : List Turn} (h : Padded as bs) :
    List.Forall₂ Alike (executed as) (executed bs) := by
  induction h with
  | nil => exact .nil
  | @same a b as bs halike _ ih =>
      unfold Shell.executed at ih ⊢
      by_cases htext : a.text = []
      · have htext' : b.text = [] := halike.text ▸ htext
        rw [List.filter_cons_of_neg (by simp [htext]), List.filter_cons_of_neg (by simp [htext'])]
        exact ih
      · have htext' : b.text ≠ [] := halike.text ▸ htext
        rw [List.filter_cons_of_pos (by simp [htext]), List.filter_cons_of_pos (by simp [htext'])]
        exact .cons halike ih
  | extra _ ih => exact ih

section TwoRuns

variable {env env' : Env}

theorem turnOf_alike (hbank : env.bank = env'.bank) (n : Nat) (bs : List UInt8) :
    Alike (turnOf env n bs) (turnOf env' n bs) := by
  refine ⟨rfl, rfl, fun hother => ?_, fun huptime => ?_⟩
  · have hother : kept bs ≠ ascii "uptime" := hother
    show commandOutput env n (kept bs) = commandOutput env' n (kept bs)
    unfold commandOutput
    rw [if_neg hother, if_neg hother, hbank]
  · have huptime : kept bs = ascii "uptime" := huptime
    refine ⟨env.mtime n, env'.mtime n, ?_, ?_⟩
    · show commandOutput env n (kept bs) = some (cmdUptime (env.mtime n))
      rw [huptime]
      rfl
    · show commandOutput env' n (kept bs) = some (cmdUptime (env'.mtime n))
      rw [huptime]
      rfl

theorem commandOutput_none_iff (hbank : env.bank = env'.bank) (n : Nat) (text : List UInt8) :
    commandOutput env n text = none ↔ commandOutput env' n text = none := by
  unfold commandOutput
  rw [hbank]
  split_ifs <;> simp

/-- Counterparts with the same bytes, in front of counterparts: a command that does
not come back ends both sessions. -/
theorem sessionOf_cons_padded (hbank : env.bank = env'.bank) (n : Nat) (l : Line) (eol : UInt8)
    {ls ks : List Line} {tail : List UInt8}
    (hrest : ∀ m, Padded (sessionOf env m ls tail).turns (sessionOf env' m ks tail).turns ∧
      (sessionOf env m ls tail).pending = (sessionOf env' m ks tail).pending) :
    Padded (sessionOf env n (l :: ls) tail).turns
        (sessionOf env' n (⟨l.bytes, eol⟩ :: ks) tail).turns ∧
      (sessionOf env n (l :: ls) tail).pending =
        (sessionOf env' n (⟨l.bytes, eol⟩ :: ks) tail).pending := by
  have halike := turnOf_alike hbank n l.bytes
  have hnone := commandOutput_none_iff hbank n (kept l.bytes)
  obtain ⟨hturns, hpending⟩ := hrest (if kept l.bytes = [] then n else n + 1)
  rw [sessionOf, sessionOf]
  cases houtput : commandOutput env n (kept l.bytes) with
  | none =>
      rw [hnone.mp houtput]
      exact ⟨.same halike .nil, rfl⟩
  | some ops =>
      cases houtput' : commandOutput env' n (kept l.bytes) with
      | none =>
          rw [hnone.mpr houtput'] at houtput
          nomatch houtput
      | some ops' => exact ⟨.same halike hturns, hpending⟩

/-- By induction on the lines: each turn has its counterpart, and CR LF adds an
empty one behind it. -/
theorem sessionOf_withCrlf (hbank : env.bank = env'.bank) (which : UInt8) (n : Nat)
    (ls : List Line) (tail : List UInt8) :
    Padded (sessionOf env n ls tail).turns (sessionOf env' n (withCrlf which ls) tail).turns ∧
      (sessionOf env n ls tail).pending =
        (sessionOf env' n (withCrlf which ls) tail).pending := by
  induction ls generalizing n with
  | nil => exact ⟨.nil, rfl⟩
  | cons l ls ih =>
      have hstep : withCrlf which (l :: ls) =
          (if l.eol = which then [⟨l.bytes, CR⟩, ⟨[], LF⟩] else [l]) ++ withCrlf which ls := rfl
      rw [hstep]
      split
      · -- the empty line of the LF: nothing is executed, so the count stays
        apply sessionOf_cons_padded hbank n l CR
        intro m
        obtain ⟨hturns, hpending⟩ := ih m
        exact ⟨.extra hturns, hpending⟩
      · exact sessionOf_cons_padded hbank n l l.eol ih

/-- For every stream, CR LF in the place of every LF, or of every CR, adds empty
prompt lines to the session and does nothing else: the lines executed and what
each of them prints are the same, in the same order, and so is the unfinished
line.  The runs may differ in the counter `uptime` reads. -/
theorem line_endings_padded (env : Env) (mtime : Nat → Word) {which : UInt8}
    (hwhich : which = LF ∨ which = CR) (cs : List UInt8) :
    let before := shellRun env cs
    let after := shellRun { env with mtime } (toCrlf which cs)
    Padded before.turns after.turns ∧ before.pending = after.pending ∧
      List.Forall₂ Alike (executed before.turns) (executed after.turns) := by
  have hend : isEnd which = true := by
    rcases hwhich with rfl | rfl <;> decide
  obtain ⟨ls, tail, rfl, hls, htail⟩ := exists_lines cs
  rw [toCrlf_append, toCrlf_joinLines hend hls, toCrlf_eq_self hend htail,
    shellRun_eq env hls htail, shellRun_eq { env with mtime } (withCrlf_ok hls) htail]
  have hbank : env.bank = ({ env with mtime } : Env).bank := rfl
  obtain ⟨hpadded, hpending⟩ := sessionOf_withCrlf hbank which 0 ls tail
  exact ⟨hpadded, hpending, hpadded.executed⟩

/-- `help`, then `uptime`, then the beginning of a third line. -/
def sampleStream : List UInt8 :=
  ascii "help\nuptime\nech"

def sampleEnv : Env :=
  ⟨fun _ => none, fun _ => 7⟩

theorem sample_line_endings :
    (shellRun sampleEnv sampleStream).turns.length = 2 ∧
      (shellRun { sampleEnv with mtime := fun _ => 9 } (toCrlf LF sampleStream)).turns.length = 4 ∧
      List.Forall₂ Alike (executed (shellRun sampleEnv sampleStream).turns)
        (executed (shellRun { sampleEnv with mtime := fun _ => 9 }
          (toCrlf LF sampleStream)).turns) :=
  ⟨by decide +kernel, by decide +kernel,
    (line_endings_padded sampleEnv (fun _ => 9) (.inl rfl) sampleStream).2.2⟩

end TwoRuns

end Shell
end BareMetal
