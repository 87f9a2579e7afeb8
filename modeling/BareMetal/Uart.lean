import BareMetal.Machine.Hart

/-!
# The UART driver

`src/uart.c` sends by polling: `uart_putc` waits until the transmitter holding
register is empty and then writes the byte to it.  A driver function is the
list of the accesses it makes to the device, in program order.
-/

namespace BareMetal
namespace Uart

open Machine

/-- One access of the transmit path.  `waitThre` is the whole poll of the line
status register. -/
inductive Op
  | waitThre
  | thr (c : UInt8)
  deriving DecidableEq, Repr

/-- The bytes of a string literal. -/
def ascii (s : String) : List UInt8 :=
  s.toList.map fun c => UInt8.ofNat c.toNat

/-- The part of `uart_putc` after the test for a newline. -/
def putRaw (c : UInt8) : List Op :=
  [.waitThre, .thr c]

/-- `uart_putc`: a newline is sent as CR LF. -/
def uartPutc (c : UInt8) : List Op :=
  if c = 0x0a then putRaw 0x0d ++ putRaw c else putRaw c

/-- `uart_puts`: everything up to the first NUL. -/
def uartPuts : List UInt8 → List Op
  | [] => []
  | c :: s => if c = 0 then [] else uartPutc c ++ uartPuts s

/-- The loop of `uart_put_uint` that fills `buf`.  The last digit stored is the
first of the list, as the second loop goes through `buf` from the top. -/
def digitLoop (base : Nat) (hbase : 2 ≤ base) (digits : List UInt8) (v : Nat)
    (buf : List UInt8) : List UInt8 :=
  if _hv : v = 0 then buf
  else digitLoop base hbase digits (v / base) (digits.getD (v % base) 0 :: buf)
termination_by v
decreasing_by exact Nat.div_lt_self (Nat.pos_of_ne_zero _hv) hbase

/-- `uart_put_uint`. -/
def uartPutUint (v : Word) (base : Nat) (hbase : 2 ≤ base) (digits : List UInt8) : List Op :=
  if v = 0 then uartPutc 0x30
  else (digitLoop base hbase digits v.toNat []).flatMap uartPutc

def uartPutHex (v : Word) : List Op :=
  uartPuts (ascii "0x") ++ uartPutUint v 16 (by decide) (ascii "0123456789abcdef")

def uartPutDec (v : Word) : List Op :=
  uartPutUint v 10 (by decide) (ascii "0123456789")

/-- The bytes that a list of accesses sends. -/
def sent (ops : List Op) : List UInt8 :=
  ops.filterMap fun
    | .waitThre => none
    | .thr c => some c

@[simp] theorem sent_nil : sent [] = [] := rfl

@[simp] theorem sent_waitThre (ops : List Op) : sent (.waitThre :: ops) = sent ops := rfl

@[simp] theorem sent_thr (c : UInt8) (ops : List Op) : sent (.thr c :: ops) = c :: sent ops := rfl

end Uart
end BareMetal
