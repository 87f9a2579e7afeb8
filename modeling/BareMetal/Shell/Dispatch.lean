import BareMetal.Shell.Session

/-!
# Which command a line runs

`run_command` as a choice among the command functions, and the bytes of the line
buffer it looks at on the way.  `streq` stops at the first difference or at the
end of the line and `is_echo` compares byte by byte from the left, so no
comparison gets past the NUL of the line: behind it are bytes of earlier lines.
-/

namespace BareMetal
namespace Shell

open Machine Uart

/-! ## The choice -/

/-- What `run_command` calls. -/
inductive Call
  | nothing | help | echo | regs | uptime | unknown
  deriving DecidableEq, Repr

/-- The conditions of `run_command`, in its order. -/
def called (line : Nat → UInt8) (lineLen : Nat) : Call :=
  if lineLen = 0 then .nothing
  else if streq line 0 (ascii "help") then .help
  else if isEcho line then .echo
  else if streq line 0 (ascii "regs") then .regs
  else if streq line 0 (ascii "uptime") then .uptime
  else .unknown

/-- The branches of `run_command`. -/
def Call.perform (env : Env) (n : Nat) (line : Nat → UInt8) : Call → Option (List Op)
  | .nothing => some []
  | .help => some cmdHelp
  | .echo => some (cmdEcho line 4)
  | .regs => (env.bank n).map cmdRegs
  | .uptime => some (cmdUptime (env.mtime n))
  | .unknown =>
      some (uartPuts (ascii "unknown command: ") ++ uartPuts (bytesFrom line 0) ++ uartPutc LF)

theorem runCommand_eq_perform (env : Env) (n : Nat) (line : Nat → UInt8) (lineLen : Nat) :
    runCommand env n line lineLen = (called line lineLen).perform env n line := by
  unfold runCommand called
  split
  · rfl
  split
  · rfl
  split
  · rfl
  split
  · rfl
  split
  · rfl
  · rfl

/-- The call a line stands for. -/
def callOf (text : List UInt8) : Call :=
  if text = [] then .nothing
  else if text = ascii "help" then .help
  else if text = ascii "echo" ∨ ascii "echo " <+: text then .echo
  else if text = ascii "regs" then .regs
  else if text = ascii "uptime" then .uptime
  else .unknown

section Choice

variable {a : Nat → UInt8} {text : List UInt8}

/-- The comparisons decide by the line alone. -/
theorem called_eq (h : CString a 0 text) : called a text.length = callOf text := by
  have hempty : text.length = 0 ↔ text = [] := List.length_eq_zero_iff
  have hhelp := streq_word h (w := "help") (by simp [commandWords])
  have hregs := streq_word h (w := "regs") (by simp [commandWords])
  have huptime := streq_word h (w := "uptime") (by simp [commandWords])
  unfold called callOf
  simp only [hempty, hhelp, isEcho_eq h, hregs, huptime, decide_eq_true_eq]

/-- The commands are told apart by their words. -/
theorem callOf_iff (text : List UInt8) :
    (callOf text = .nothing ↔ text = []) ∧ (callOf text = .help ↔ text = ascii "help") ∧
      (callOf text = .echo ↔ text = ascii "echo" ∨ ascii "echo " <+: text) ∧
      (callOf text = .regs ↔ text = ascii "regs") ∧
      (callOf text = .uptime ↔ text = ascii "uptime") := by
  by_cases hknown : text = [] ∨ text = ascii "help" ∨ text = ascii "echo" ∨
      text = ascii "regs" ∨ text = ascii "uptime"
  · rcases hknown with rfl | rfl | rfl | rfl | rfl <;> decide +kernel
  · simp only [not_or] at hknown
    obtain ⟨hnil, hhelp, hecho, hregs, huptime⟩ := hknown
    unfold callOf
    rw [if_neg hnil, if_neg hhelp]
    by_cases hprefix : ascii "echo " <+: text
    · rw [if_pos (Or.inr hprefix)]
      simp [hnil, hhelp, hregs, huptime, hprefix]
    · rw [if_neg (not_or.mpr ⟨hecho, hprefix⟩), if_neg hregs, if_neg huptime]
      simp [hnil, hhelp, hecho, hregs, huptime, hprefix]

/-- What `echo` prints: everything behind the first five bytes. -/
theorem echoed_drop (htext : text = ascii "echo" ∨ ascii "echo " <+: text) :
    echoed (text.drop 4) = text.drop 5 := by
  rcases htext with rfl | ⟨rest, rfl⟩
  · decide +kernel
  · rfl

end Choice

/-! ## The bytes that are read -/

/-- The bytes of the line that `streq` reads. -/
def streqReads (a : Nat → UInt8) : Nat → List UInt8 → List Nat
  | i, [] => [i]
  | i, b :: bs => if a i ≠ 0 ∧ a i = b then i :: streqReads a (i + 1) bs else [i]

/-- The bytes a chain of `s[i] == ..` reads: up to the first that differs. -/
def prefixReads (a : Nat → UInt8) : Nat → List UInt8 → List Nat
  | _, [] => []
  | i, b :: bs => i :: if a i = b then prefixReads a (i + 1) bs else []

/-- The bytes that `is_echo` reads. -/
def isEchoReads (s : Nat → UInt8) : List Nat :=
  streqReads s 0 (ascii "echo") ++
    if streq s 0 (ascii "echo") then [] else prefixReads s 0 (ascii "echo ")

/-- The bytes of the buffer that `uart_puts` reads from `i` on, when `k` bytes
are left in it. -/
def putsReads (a : Nat → UInt8) : Nat → Nat → List Nat
  | 0, _ => []
  | k + 1, i => i :: if a i = 0 then [] else putsReads a k (i + 1)

/-- The bytes that `cmd_echo` reads. -/
def cmdEchoReads (s : Nat → UInt8) (i : Nat) : List Nat :=
  let rest := if s i = 0x20 then i + 1 else i
  i :: putsReads s (LINE_MAX - rest) rest

/-- The bytes of the line that `run_command` reads, in order. -/
def runCommandReads (line : Nat → UInt8) (lineLen : Nat) : List Nat :=
  if lineLen = 0 then []
  else streqReads line 0 (ascii "help") ++
    if streq line 0 (ascii "help") then []
    else isEchoReads line ++
      if isEcho line then cmdEchoReads line 4
      else streqReads line 0 (ascii "regs") ++
        if streq line 0 (ascii "regs") then []
        else streqReads line 0 (ascii "uptime") ++
          if streq line 0 (ascii "uptime") then [] else putsReads line LINE_MAX 0

section Reads

variable {a : Nat → UInt8} {i : Nat} {text : List UInt8}

/-- Where a byte is not NUL the string goes on behind it. -/
theorem CString.next (h : CString a i text) (hne : a i ≠ 0) :
    ∃ rest, CString a (i + 1) rest ∧ text.length = rest.length + 1 := by
  cases text with
  | nil => exact absurd h.nul hne
  | cons c rest => exact ⟨rest, h.tail, List.length_cons⟩

theorem streqReads_le (h : CString a i text) (lit : List UInt8) :
    ∀ k ∈ streqReads a i lit, k ≤ i + text.length := by
  induction lit generalizing i text with
  | nil =>
      intro k hk
      rw [streqReads, List.mem_singleton] at hk
      omega
  | cons b lit ih =>
      intro k hk
      rw [streqReads] at hk
      split at hk
      · next hsame =>
        obtain ⟨rest, hrest, hlength⟩ := h.next hsame.1
        rcases List.mem_cons.mp hk with rfl | hmem
        · omega
        · have hbound := ih hrest k hmem
          omega
      · rw [List.mem_singleton] at hk
        omega

theorem prefixReads_le (h : CString a i text) {lit : List UInt8} (hlit : ∀ b ∈ lit, b ≠ 0) :
    ∀ k ∈ prefixReads a i lit, k ≤ i + text.length := by
  induction lit generalizing i text with
  | nil =>
      intro k hk
      cases hk
  | cons b lit ih =>
      intro k hk
      rw [prefixReads] at hk
      rcases List.mem_cons.mp hk with rfl | hmem
      · omega
      · split at hmem
        · next hsame =>
          -- a literal has no NUL in it, so an equal byte is not the end of the line
          have hne : a i ≠ 0 := by
            rw [hsame]
            exact hlit b List.mem_cons_self
          obtain ⟨rest, hrest, hlength⟩ := h.next hne
          have hbound := ih hrest (fun d hd => hlit d (List.mem_cons_of_mem b hd)) k hmem
          omega
        · cases hmem

theorem putsReads_le (h : CString a i text) (room : Nat) :
    ∀ k ∈ putsReads a room i, k ≤ i + text.length := by
  induction room generalizing i text with
  | zero =>
      intro k hk
      cases hk
  | succ room ih =>
      intro k hk
      rw [putsReads] at hk
      rcases List.mem_cons.mp hk with rfl | hmem
      · omega
      · split at hmem
        · cases hmem
        · next hne =>
          obtain ⟨rest, hrest, hlength⟩ := h.next hne
          have hbound := ih hrest k hmem
          omega

theorem cmdEchoReads_le (h : CString a i text) :
    ∀ k ∈ cmdEchoReads a i, k ≤ i + text.length := by
  intro k hk
  rw [cmdEchoReads] at hk
  rcases List.mem_cons.mp hk with rfl | hmem
  · omega
  · by_cases hblank : a i = 0x20
    · have hne : a i ≠ 0 := by
        rw [hblank]
        decide
      obtain ⟨rest, hrest, hlength⟩ := h.next hne
      rw [if_pos hblank] at hmem
      have hbound := putsReads_le hrest _ k hmem
      omega
    · rw [if_neg hblank] at hmem
      exact putsReads_le h _ k hmem

theorem isEchoReads_le (h : CString a 0 text) : ∀ k ∈ isEchoReads a, k ≤ text.length := by
  intro k hk
  have hblank : ∀ b ∈ ascii "echo ", b ≠ 0 :=
    commandWords_ne_zero _ (by simp [commandWords])
  rcases List.mem_append.mp hk with hword | hrest
  · have hbound := streqReads_le h _ k hword
    omega
  · split at hrest
    · cases hrest
    · have hbound := prefixReads_le h hblank k hrest
      omega

/-- `run_command` reads the line up to its NUL and no further. -/
theorem runCommandReads_le (h : CString a 0 text) :
    ∀ k ∈ runCommandReads a text.length, k ≤ text.length := by
  have hstreq : ∀ lit : List UInt8, ∀ k ∈ streqReads a 0 lit, k ≤ text.length := by
    intro lit k hk
    have hbound := streqReads_le h lit k hk
    omega
  intro k hk
  rw [runCommandReads] at hk
  split at hk
  · cases hk
  rcases List.mem_append.mp hk with hword | hk
  · exact hstreq _ k hword
  split at hk
  · cases hk
  rcases List.mem_append.mp hk with hword | hk
  · exact isEchoReads_le h k hword
  split at hk
  · next hecho =>
    rw [isEcho_eq h, decide_eq_true_eq] at hecho
    have hlong := four_le_length hecho
    have hdrop := h.drop hlong
    rw [Nat.zero_add] at hdrop
    have hbound := cmdEchoReads_le hdrop k hk
    rw [List.length_drop] at hbound
    omega
  rcases List.mem_append.mp hk with hword | hk
  · exact hstreq _ k hword
  split at hk
  · cases hk
  rcases List.mem_append.mp hk with hword | hk
  · exact hstreq _ k hword
  split at hk
  · cases hk
  · have hbound := putsReads_le h _ k hk
    omega

end Reads

/-! ## Nothing else is read -/

section Agree

variable {a b : Nat → UInt8} {i : Nat} {lit : List UInt8}

theorem streq_agree (h : ∀ k ∈ streqReads a i lit, b k = a k) : streq b i lit = streq a i lit := by
  induction lit generalizing i with
  | nil => rw [streq, streq, h i (by rw [streqReads]; exact List.mem_singleton_self i)]
  | cons c lit ih =>
      rw [streqReads] at h
      rw [streq, streq]
      split at h
      · next hsame =>
        rw [h i List.mem_cons_self, if_pos hsame, if_pos hsame]
        exact ih fun k hk => h k (List.mem_cons_of_mem i hk)
      · next hdiffer =>
        rw [h i (List.mem_singleton_self i), if_neg hdiffer, if_neg hdiffer]

theorem hasPrefix_agree (h : ∀ k ∈ prefixReads a i lit, b k = a k) :
    hasPrefix b i lit = hasPrefix a i lit := by
  induction lit generalizing i with
  | nil => rfl
  | cons c lit ih =>
      rw [prefixReads] at h
      rw [hasPrefix, hasPrefix, h i List.mem_cons_self]
      by_cases hsame : a i = c
      · rw [if_pos hsame] at h
        rw [ih fun k hk => h k (List.mem_cons_of_mem i hk)]
      · rw [decide_eq_false hsame, Bool.false_and, Bool.false_and]

theorem isEcho_agree (h : ∀ k ∈ isEchoReads a, b k = a k) : isEcho b = isEcho a := by
  have hword : streq b 0 (ascii "echo") = streq a 0 (ascii "echo") :=
    streq_agree fun k hk => h k (List.mem_append_left _ hk)
  rw [isEcho, isEcho, hword]
  cases htest : streq a 0 (ascii "echo") with
  | true => rfl
  | false =>
      rw [Bool.false_or, Bool.false_or]
      apply hasPrefix_agree
      intro k hk
      apply h
      rw [isEchoReads, htest]
      exact List.mem_append_right _ hk

theorem uartPuts_agree {room : Nat} (hroom : LINE_MAX - i = room)
    (h : ∀ k ∈ putsReads a room i, b k = a k) :
    uartPuts (bytesFrom b i) = uartPuts (bytesFrom a i) := by
  induction room generalizing i with
  | zero => rw [bytesFrom, bytesFrom, hroom]; rfl
  | succ room ih =>
      rw [putsReads] at h
      rw [bytesFrom_eq_cons b (by omega), bytesFrom_eq_cons a (by omega), h i List.mem_cons_self,
        uartPuts, uartPuts]
      by_cases hend : a i = 0
      · rw [if_pos hend, if_pos hend]
      · rw [if_neg hend] at h
        rw [if_neg hend, if_neg hend, ih (by omega) fun k hk => h k (List.mem_cons_of_mem i hk)]

theorem cmdEcho_agree (h : ∀ k ∈ cmdEchoReads a i, b k = a k) : cmdEcho b i = cmdEcho a i := by
  rw [cmdEchoReads] at h
  rw [cmdEcho, cmdEcho, h i List.mem_cons_self]
  congr 1
  exact uartPuts_agree rfl fun k hk => h k (List.mem_cons_of_mem i hk)

/-- What `run_command` does depends on the bytes it reads only. -/
theorem runCommand_agree (env : Env) (n : Nat) {lineLen : Nat}
    (h : ∀ k ∈ runCommandReads a lineLen, b k = a k) :
    runCommand env n b lineLen = runCommand env n a lineLen := by
  rw [runCommandReads] at h
  rw [runCommand, runCommand]
  split at h
  · next hzero => rw [if_pos hzero, if_pos hzero]
  next hzero =>
  rw [if_neg hzero, if_neg hzero, streq_agree fun k hk => h k (List.mem_append_left _ hk)]
  split
  · rfl
  next hhelp =>
  rw [if_neg hhelp] at h
  have h := fun k hk => h k (List.mem_append_right _ hk)
  rw [isEcho_agree fun k hk => h k (List.mem_append_left _ hk)]
  split
  · next hecho =>
    rw [if_pos hecho] at h
    rw [cmdEcho_agree fun k hk => h k (List.mem_append_right _ hk)]
  next hecho =>
  rw [if_neg hecho] at h
  have h := fun k hk => h k (List.mem_append_right _ hk)
  rw [streq_agree fun k hk => h k (List.mem_append_left _ hk)]
  split
  · rfl
  next hregs =>
  rw [if_neg hregs] at h
  have h := fun k hk => h k (List.mem_append_right _ hk)
  rw [streq_agree fun k hk => h k (List.mem_append_left _ hk)]
  split
  · rfl
  next huptime =>
  rw [if_neg huptime] at h
  rw [uartPuts_agree (i := 0) rfl fun k hk => h k (List.mem_append_right _ hk)]

end Agree

/-- For every line that fits into the buffer, whatever is behind it there:
`run_command` does what exactly one of the six calls does.  It is the empty one
for the empty line, `help`, `regs` and `uptime` for these words, and `echo` for
`echo` alone or followed by a blank; then everything behind the first five bytes
is printed, and a newline.  Any other line is reported as it is.  No byte behind
the NUL of the line is read, and nothing but the bytes read matters. -/
theorem run_command_dispatch (env : Env) (n : Nat) {a : Nat → UInt8} {text : List UInt8}
    (h : CString a 0 text) (hroom : text.length ≤ 127) :
    let call := called a text.length
    runCommand env n a text.length = call.perform env n a ∧
      (call = .nothing ↔ text = []) ∧ (call = .help ↔ text = ascii "help") ∧
      (call = .echo ↔ text = ascii "echo" ∨ ascii "echo " <+: text) ∧
      (call = .regs ↔ text = ascii "regs") ∧ (call = .uptime ↔ text = ascii "uptime") ∧
      (call = .echo → runCommand env n a text.length =
        some ((text.drop 5).flatMap uartPutc ++ uartPutc LF)) ∧
      (call = .unknown → runCommand env n a text.length =
        some (uartPuts (ascii "unknown command: ") ++ text.flatMap uartPutc ++ uartPutc LF)) ∧
      (∀ k ∈ runCommandReads a text.length, k ≤ text.length) ∧
      ∀ b, (∀ k ∈ runCommandReads a text.length, b k = a k) →
        runCommand env n b text.length = runCommand env n a text.length := by
  have hperform := runCommand_eq_perform env n a text.length
  have hmax : LINE_MAX = 128 := rfl
  have hcalled := called_eq h
  obtain ⟨hnothing, hhelp, hecho, hregs, huptime⟩ := callOf_iff text
  dsimp only
  rw [hperform, hcalled]
  refine ⟨rfl, hnothing, hhelp, hecho, hregs, huptime, ?_, ?_, runCommandReads_le h,
    fun b hb => ?_⟩
  · intro hcall
    have htext := hecho.mp hcall
    have hlong := four_le_length htext
    have hdrop := h.drop hlong
    rw [Nat.zero_add] at hdrop
    rw [hcall, Call.perform, cmdEcho_eq hdrop (by rw [List.length_drop]; omega),
      echoed_drop htext]
  · intro hcall
    rw [hcall, Call.perform, uartPuts_bytesFrom h (by omega)]
  · rw [runCommand_agree env n hb, hperform, hcalled]

/-- The buffer behind the line `echo hi` after a longer one: `hi` is printed. -/
theorem echo_hi_dispatched :
    ∃ a : Nat → UInt8, CString a 0 (ascii "echo hi") ∧ a 8 = 0x78 ∧
      runCommand ⟨fun _ => none, fun _ => 0⟩ 0 a 7 =
        some ((ascii "hi").flatMap uartPutc ++ uartPutc LF) := by
  have hstring : CString (fun k => (ascii "echo hi" ++ [0, 0x78]).getD k 0) 0 (ascii "echo hi") :=
    ⟨by decide +kernel, by decide +kernel, by decide +kernel⟩
  refine ⟨_, hstring, by decide +kernel, ?_⟩
  obtain ⟨-, -, -, hecho, -, -, hprints, -⟩ :=
    run_command_dispatch ⟨fun _ => none, fun _ => 0⟩ 0 hstring (by decide +kernel)
  exact hprints (hecho.mpr (Or.inr (by decide +kernel)))

end Shell
end BareMetal
