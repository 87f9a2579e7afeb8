import BareMetal.Uart
import Mathlib.Data.List.GetD

/-!
# The line editor of the UART shell

`read_line` of `src/shell/cmds.c`.  `char` is unsigned in the RISC-V ABI, so a
received byte is compared as it is.  The buffer is an array that keeps whatever
earlier lines have left behind the terminator; every store into it is recorded.

`editAll_holds` relates the buffer to the fold that says what the editor keeps
(`kept`), and `editAll_shows` the echoed bytes to what a terminal makes of them:
after every byte the user sees the kept line behind the prompt.
-/

namespace BareMetal
namespace Shell

open Uart

def LINE_MAX : Nat := 128

def BS : UInt8 := 0x08
def DEL : UInt8 := 0x7f
def CR : UInt8 := 0x0d
def LF : UInt8 := 0x0a

/-! ## The code -/

/-- The statics of the editor, and the indices of the stores into `line` so far. -/
structure Editor where
  line : Nat → UInt8
  lineLen : Nat
  stores : List Nat

namespace Editor

variable (e : Editor)

/-- `line[i] = c`. -/
def store (i : Nat) (c : UInt8) : Editor :=
  { e with line := Function.update e.line i c, stores := e.stores ++ [i] }

/-- The loop body of `read_line` behind the test for the end of the line: the
editor afterwards, and what has been sent. -/
def edit (c : UInt8) : Editor × List Op :=
  if c = DEL ∨ c = BS then
    if 0 < e.lineLen then
      ({ e with lineLen := e.lineLen - 1 }, uartPuts [BS, 0x20, BS])
    else (e, [])
  else if c < 0x20 then (e, [])
  else if e.lineLen < LINE_MAX - 1 then
    ({ e.store e.lineLen c with lineLen := e.lineLen + 1 }, uartPutc c)
  else (e, [])

end Editor

/-- CR and LF end a line. -/
def isEnd (c : UInt8) : Bool :=
  c = CR || c = LF

/-- The end of `read_line` and the input it leaves for the next one. -/
structure Read where
  editor : Editor
  ops : List Op
  rest : List UInt8

/-- The loop of `read_line` on the bytes `uart_getc` delivers; `none` while it
waits for more. -/
def readLoop (e : Editor) : List UInt8 → Option Read
  | [] => none
  | c :: cs =>
      if isEnd c then some ⟨e.store e.lineLen 0, uartPutc LF, cs⟩
      else
        (readLoop (e.edit c).1 cs).map fun r => { r with ops := (e.edit c).2 ++ r.ops }

/-- `read_line`. -/
def readLine (e : Editor) (cs : List UInt8) : Option Read :=
  readLoop { e with lineLen := 0 } cs

/-- The editor and the echo after some bytes that do not end the line. -/
def editAll (e : Editor) : List UInt8 → Editor × List Op
  | [] => (e, [])
  | c :: cs => ((editAll (e.edit c).1 cs).1, (e.edit c).2 ++ (editAll (e.edit c).1 cs).2)

/-- `read_line` edits up to the first end of line. -/
theorem readLoop_eq {e : Editor} {bs : List UInt8} (hbs : ∀ c ∈ bs, isEnd c = false) {t : UInt8}
    (ht : isEnd t = true) (rest : List UInt8) :
    readLoop e (bs ++ t :: rest) =
      some ⟨(editAll e bs).1.store (editAll e bs).1.lineLen 0, (editAll e bs).2 ++ uartPutc LF,
        rest⟩ := by
  induction bs generalizing e with
  | nil => simp [readLoop, editAll, ht]
  | cons b bs ih =>
      have hb : isEnd b = false := hbs b (by simp)
      have hrest : ∀ c ∈ bs, isEnd c = false := fun c hc => hbs c (by simp [hc])
      simp [readLoop, editAll, hb, ih hrest]

/-! ## What the editor keeps -/

/-- The reference: BS and DEL take the last kept byte away, other control bytes
are ignored, and any other byte is kept while fewer than 127 are held. -/
def keep (text : List UInt8) (c : UInt8) : List UInt8 :=
  if c = BS ∨ c = DEL then text.dropLast
  else if c < 0x20 then text
  else if text.length < 127 then text ++ [c]
  else text

/-- The line that is kept of some bytes. -/
def kept (bs : List UInt8) : List UInt8 :=
  bs.foldl keep []

/-- The buffer holds the text, and nothing outside the array has been stored to. -/
structure Editor.Holds (e : Editor) (text : List UInt8) : Prop where
  lineLen : e.lineLen = text.length
  line : ∀ i < text.length, e.line i = text.getD i 0
  length : text.length ≤ 127
  stores : ∀ i ∈ e.stores, i < LINE_MAX

/-- The three things one byte can do to the editor, along with the reference. -/
theorem edit_cases {e : Editor} {text : List UInt8} (hlen : e.lineLen = text.length) (c : UInt8) :
    (∃ rest x, text = rest ++ [x] ∧ keep text c = rest ∧
      e.edit c = ({ e with lineLen := rest.length }, uartPuts [BS, 0x20, BS])) ∨
    (keep text c = text ∧ e.edit c = (e, [])) ∨
    (¬ c < 0x20 ∧ c ≠ DEL ∧ text.length < 127 ∧ keep text c = text ++ [c] ∧
      e.edit c = ({ e.store text.length c with lineLen := text.length + 1 }, uartPutc c)) := by
  unfold Editor.edit keep
  rw [hlen]
  by_cases herase : c = BS ∨ c = DEL
  · rw [if_pos herase, if_pos (Or.symm herase)]
    cases text using List.reverseRecOn with
    | nil => exact .inr (.inl ⟨rfl, rfl⟩)
    | append_singleton rest x =>
        refine .inl ⟨rest, x, rfl, List.dropLast_concat, ?_⟩
        rw [List.length_append, List.length_singleton, if_pos (Nat.succ_pos _),
          Nat.add_sub_cancel]
  · rw [if_neg herase, if_neg (fun hc => herase (Or.symm hc))]
    by_cases hcontrol : c < 0x20
    · rw [if_pos hcontrol, if_pos hcontrol]
      exact .inr (.inl ⟨rfl, rfl⟩)
    · rw [if_neg hcontrol, if_neg hcontrol]
      by_cases hroom : text.length < 127
      · rw [if_pos hroom, if_pos (show text.length < LINE_MAX - 1 from hroom)]
        exact .inr (.inr ⟨hcontrol, fun hdel => herase (.inr hdel), hroom, rfl, rfl⟩)
      · rw [if_neg hroom, if_neg (show ¬ text.length < LINE_MAX - 1 from hroom)]
        exact .inr (.inl ⟨rfl, rfl⟩)

theorem edit_holds {e : Editor} {text : List UInt8} (h : e.Holds text) (c : UInt8) :
    (e.edit c).1.Holds (keep text c) := by
  rcases edit_cases h.lineLen c with ⟨rest, x, rfl, hkeep, hedit⟩ | ⟨hkeep, hedit⟩ |
      ⟨-, -, hroom, hkeep, hedit⟩
  · rw [hkeep, hedit]
    have hlength := h.length
    rw [List.length_append, List.length_singleton] at hlength
    refine ⟨rfl, fun i hi => ?_, by omega, h.stores⟩
    have hline := h.line i (by simp; omega)
    rw [List.getD_append _ _ _ _ hi] at hline
    exact hline
  · rw [hkeep, hedit]
    exact h
  · rw [hkeep, hedit]
    refine ⟨by simp, fun i hi => ?_, by simp; omega, fun i hi => ?_⟩
    · show Function.update e.line text.length c i = _
      by_cases hlast : i = text.length
      · subst hlast
        simp
      · have hlt : i < text.length := by
          simp only [List.length_append, List.length_singleton] at hi
          omega
        rw [Function.update_of_ne hlast, List.getD_append _ _ _ _ hlt, h.line i hlt]
    · rcases List.mem_append.mp hi with hold | hnew
      · exact h.stores i hold
      · rw [List.mem_singleton.mp hnew]
        unfold LINE_MAX
        omega

theorem editAll_holds {e : Editor} {text : List UInt8} (h : e.Holds text) (bs : List UInt8) :
    (editAll e bs).1.Holds (bs.foldl keep text) := by
  induction bs generalizing e text with
  | nil => exact h
  | cons b bs ih => exact ih (edit_holds h b)

/-! ## What the user sees -/

def BLANK : UInt8 := 0x20

/-- A terminal: the rows that are complete, the current one, and the column of the
cursor in it. -/
structure Terminal where
  done : List (Nat → UInt8)
  row : Nat → UInt8
  col : Nat

namespace Terminal

/-- BS moves left, CR to the start of the row, LF to a new row; any other byte
overwrites the cell under the cursor and moves right. -/
def put (t : Terminal) (c : UInt8) : Terminal :=
  if c = BS then { t with col := t.col - 1 }
  else if c = CR then { t with col := 0 }
  else if c = LF then ⟨t.done ++ [t.row], fun _ => BLANK, t.col⟩
  else { t with row := Function.update t.row t.col c, col := t.col + 1 }

/-- The terminal after it has received some bytes. -/
def feed (t : Terminal) (bs : List UInt8) : Terminal :=
  bs.foldl put t

/-- The cells of a row that shows the text and blanks behind it. -/
def rowOf (text : List UInt8) : Nat → UInt8 :=
  fun i => text.getD i BLANK

/-- The current row shows the text, with the cursor at its end. -/
def showing (done : List (Nat → UInt8)) (text : List UInt8) : Terminal :=
  ⟨done, rowOf text, text.length⟩

variable {done : List (Nat → UInt8)} {text : List UInt8}

theorem feed_append (t : Terminal) (bs cs : List UInt8) :
    t.feed (bs ++ cs) = (t.feed bs).feed cs :=
  List.foldl_append

theorem update_rowOf_append (text : List UInt8) (c : UInt8) :
    Function.update (rowOf text) text.length c = rowOf (text ++ [c]) := by
  ext1 i
  rcases Nat.lt_trichotomy i text.length with hlt | heq | hgt
  · rw [Function.update_of_ne (by omega), rowOf, rowOf, List.getD_append _ _ _ _ hlt]
  · rw [heq, Function.update_self, rowOf]
    simp
  · rw [Function.update_of_ne (by omega), rowOf, rowOf, List.getD_eq_default _ _ hgt.le,
      List.getD_eq_default _ _ (by simp; omega)]

/-- A blank over the last byte is the row without it. -/
theorem update_rowOf_blank (text : List UInt8) (x : UInt8) :
    Function.update (rowOf (text ++ [x])) text.length BLANK = rowOf text := by
  rw [← update_rowOf_append, Function.update_idem]
  ext1 i
  by_cases hi : i = text.length
  · rw [hi, Function.update_self, rowOf, List.getD_eq_default _ _ le_rfl]
  · rw [Function.update_of_ne hi]

/-- A byte that is neither BS, CR nor LF is added to the text. -/
theorem showing_put {c : UInt8} (hbs : c ≠ BS) (hcr : c ≠ CR) (hlf : c ≠ LF) :
    (showing done text).put c = showing done (text ++ [c]) := by
  rw [put, if_neg hbs, if_neg hcr, if_neg hlf]
  simp [showing, update_rowOf_append]

/-- BS, a blank and BS take the last byte of the text away. -/
theorem showing_erase (x : UInt8) :
    (showing done (text ++ [x])).feed [BS, 0x20, BS] = showing done text := by
  have hrow := update_rowOf_blank text x
  unfold BLANK at hrow
  simp [feed, put, showing, BS, CR, LF, hrow]

/-- CR and LF complete the row. -/
theorem showing_newline : (showing done text).feed [CR, LF] = showing (done ++ [rowOf text]) [] := by
  simp [feed, put, showing, BS, CR, LF]
  rfl

end Terminal

theorem sent_uartPutc {c : UInt8} (hc : c ≠ LF) : sent (uartPutc c) = [c] := by
  unfold LF at hc
  rw [uartPutc, if_neg hc]
  rfl

theorem sent_append (ops ops' : List Op) : sent (ops ++ ops') = sent ops ++ sent ops' :=
  List.filterMap_append

section Echo

variable {e : Editor} {text shown : List UInt8} {done : List (Nat → UInt8)}

/-- The echo of one byte keeps the terminal in step with the buffer. -/
theorem edit_shows (hlen : e.lineLen = text.length) (c : UInt8) :
    (Terminal.showing done (shown ++ text)).feed (sent (e.edit c).2) =
      Terminal.showing done (shown ++ keep text c) := by
  rcases edit_cases hlen c with ⟨rest, x, rfl, hkeep, hedit⟩ | ⟨hkeep, hedit⟩ |
      ⟨hprintable, -, -, hkeep, hedit⟩
  · rw [hkeep, hedit, ← List.append_assoc]
    exact Terminal.showing_erase x
  · rw [hkeep, hedit]
    rfl
  · -- a byte that is not a control byte is echoed as it is
    have hne : ∀ {k : UInt8}, k < 0x20 → c ≠ k := by
      rintro k hk rfl
      exact hprintable hk
    rw [hkeep, hedit, sent_uartPutc (hne (by decide)), ← List.append_assoc]
    exact Terminal.showing_put (hne (by decide)) (hne (by decide)) (hne (by decide))

theorem editAll_shows (he : e.Holds text) (bs : List UInt8) :
    (Terminal.showing done (shown ++ text)).feed (sent (editAll e bs).2) =
      Terminal.showing done (shown ++ bs.foldl keep text) := by
  induction bs generalizing e text with
  | nil => rfl
  | cons b bs ih =>
      rw [editAll, sent_append, Terminal.feed_append, edit_shows he.lineLen b]
      exact ih (edit_holds he b)

end Echo

/-! ## The whole call -/

/-- The prompt of `shell_run`. -/
def PROMPT : List UInt8 :=
  ascii "> "

/-- The bytes before the end of the line. -/
def typed (cs : List UInt8) : List UInt8 :=
  cs.takeWhile fun c => !isEnd c

/-- A stream with an end of line, split at the first one. -/
theorem exists_split {cs : List UInt8} (h : ∃ c ∈ cs, isEnd c = true) :
    ∃ t rest, isEnd t = true ∧ cs = typed cs ++ t :: rest ∧ ∀ c ∈ typed cs, isEnd c = false := by
  induction cs with
  | nil => simp at h
  | cons c cs ih =>
      by_cases hc : isEnd c = true
      · refine ⟨c, cs, hc, ?_, ?_⟩
        · simp [typed, hc]
        · simp [typed, hc]
      · have hrest : ∃ d ∈ cs, isEnd d = true := by
          obtain ⟨d, hd, hend⟩ := h
          rcases List.mem_cons.mp hd with rfl | hd
          · exact absurd hend hc
          · exact ⟨d, hd, hend⟩
        obtain ⟨t, rest, ht, hsplit, htyped⟩ := ih hrest
        have hcons : typed (c :: cs) = c :: typed cs := by simp [typed, hc]
        refine ⟨t, rest, ht, ?_, ?_⟩
        · rw [hcons, List.cons_append, ← hsplit]
        · intro d hd
          rw [hcons] at hd
          rcases List.mem_cons.mp hd with rfl | hd
          · exact Bool.not_eq_true _ ▸ hc
          · exact htyped d hd

/-- The editor after the bytes of a line, with the NUL behind them. -/
structure Terminated (e : Editor) (text : List UInt8) : Prop where
  holds : e.Holds text
  nul : e.line text.length = 0

theorem store_nul_terminated {e : Editor} {text : List UInt8} (h : e.Holds text) :
    Terminated (e.store e.lineLen 0) text := by
  have hlength := h.length
  rw [h.lineLen]
  refine ⟨⟨h.lineLen, fun i hi => ?_, h.length, fun i hi => ?_⟩, Function.update_self _ _ _⟩
  · show Function.update e.line text.length 0 i = _
    rw [Function.update_of_ne (by omega), h.line i hi]
  · rcases List.mem_append.mp hi with hold | hnew
    · exact h.stores i hold
    · rw [List.mem_singleton.mp hnew]
      unfold LINE_MAX
      omega

/-- The buffer at the start of a call: whatever it holds is beyond the line. -/
theorem start_holds {e : Editor} (hstores : ∀ i ∈ e.stores, i < LINE_MAX) :
    Editor.Holds { e with lineLen := 0 } [] :=
  ⟨rfl, fun i hi => absurd hi (Nat.not_lt_zero i), Nat.zero_le _, hstores⟩

/-- `read_line`, on every stream with an end of line in it and from any buffer: it
leaves the kept line and a NUL in the buffer, stores nowhere outside the array,
and consumes the stream up to the end of the line.  After every byte of it the
terminal shows the line kept so far behind the prompt; the end of the line
completes that row. -/
theorem read_line_edits (line : Nat → UInt8) (lineLen : Nat) (cs : List UInt8)
    (hend : ∃ c ∈ cs, isEnd c = true) (done : List (Nat → UInt8)) :
    let echo := fun p => (editAll ⟨line, 0, []⟩ p).2
    ∃ r, readLine ⟨line, lineLen, []⟩ cs = some r ∧
      Terminated r.editor (kept (typed cs)) ∧
      (∃ t, isEnd t = true ∧ cs = typed cs ++ t :: r.rest) ∧
      r.ops = echo (typed cs) ++ uartPutc LF ∧
      (∀ p, p <+: typed cs →
        (Terminal.showing done []).feed (sent (uartPuts PROMPT ++ echo p)) =
          Terminal.showing done (PROMPT ++ kept p)) ∧
      (Terminal.showing done []).feed (sent (uartPuts PROMPT ++ r.ops)) =
        Terminal.showing (done ++ [Terminal.rowOf (PROMPT ++ kept (typed cs))]) [] := by
  intro echo
  have hstart : Editor.Holds ⟨line, 0, []⟩ [] :=
    start_holds (e := ⟨line, lineLen, []⟩) (fun i hi => absurd hi (List.not_mem_nil))
  have hprompt : (Terminal.showing done []).feed (sent (uartPuts PROMPT)) =
      Terminal.showing done (PROMPT ++ []) := by
    have hsent : sent (uartPuts PROMPT) = [0x3e, 0x20] := by decide
    rw [hsent, Terminal.feed, List.foldl_cons, List.foldl_cons, List.foldl_nil,
      Terminal.showing_put (by decide) (by decide) (by decide),
      Terminal.showing_put (by decide) (by decide) (by decide)]
    rfl
  have hshows : ∀ p, (Terminal.showing done []).feed (sent (uartPuts PROMPT ++ echo p)) =
      Terminal.showing done (PROMPT ++ kept p) := by
    intro p
    rw [sent_append, Terminal.feed_append, hprompt, editAll_shows hstart p]
    rfl
  obtain ⟨t, rest, ht, hsplit, htyped⟩ := exists_split hend
  have hread : readLine ⟨line, lineLen, []⟩ cs =
      some ⟨(editAll ⟨line, 0, []⟩ (typed cs)).1.store (editAll ⟨line, 0, []⟩ (typed cs)).1.lineLen 0,
        echo (typed cs) ++ uartPutc LF, rest⟩ := by
    rw [readLine]
    conv_lhs => rw [hsplit]
    exact readLoop_eq htyped ht rest
  refine ⟨_, hread, ?_, ⟨t, ht, hsplit⟩, rfl, fun p _ => hshows p, ?_⟩
  · exact store_nul_terminated (editAll_holds hstart (typed cs))
  · rw [← List.append_assoc, sent_append, Terminal.feed_append, hshows]
    exact Terminal.showing_newline

/-- A line with a byte taken back and one above 0x7f, a BEL, and input behind it. -/
theorem read_line_sample :
    ∃ r, readLine ⟨fun _ => 0x58, 5, []⟩ [0x61, 0x62, BS, 0xe9, 0x07, LF, 0x7a] = some r ∧
      r.editor.lineLen = 2 ∧ r.editor.line 0 = 0x61 ∧ r.editor.line 1 = 0xe9 ∧
      r.editor.line 2 = 0 ∧ r.rest = [0x7a] := by
  have hkept : kept (typed [0x61, 0x62, BS, 0xe9, 0x07, LF, 0x7a]) = [0x61, 0xe9] := by decide
  have htyped : typed [0x61, 0x62, BS, 0xe9, 0x07, LF, 0x7a] = [0x61, 0x62, BS, 0xe9, 0x07] := by
    decide
  obtain ⟨r, hread, hterm, ⟨t, -, hsplit⟩, -⟩ := read_line_edits (fun _ => 0x58) 5
    [0x61, 0x62, BS, 0xe9, 0x07, LF, 0x7a] ⟨LF, by decide, by decide⟩ []
  rw [hkept] at hterm
  refine ⟨r, hread, hterm.holds.lineLen, hterm.holds.line 0 (by decide),
    hterm.holds.line 1 (by decide), hterm.nul, ?_⟩
  rw [htyped] at hsplit
  have hrest : t = LF ∧ r.rest = [0x7a] := by simpa using hsplit.symm
  exact hrest.2

end Shell
end BareMetal
