import BareMetal.VirtioBlk.Request
import BareMetal.Uart

/-!
# Bringing the device up

`virtio_init` of `src/virtio-blk/virtio.c`, against a device that may answer
every register read with any value.  The accesses to the registers are recorded
in order; `bringUp_spec` writes the record down as a function of the
answers, and the order of the accesses is read off it.

The layout of the queue satisfies both interfaces: the addresses that a 1.x
device is told are those that a legacy device computes from `QueuePFN` and
`QueueAlign`.
-/

namespace BareMetal
namespace VirtioBlk

open Machine Uart

/-! ## Registers -/

def MMIO_BASE : Nat := 0x10001000
def MMIO_STRIDE : Nat := 0x1000
def MMIO_SLOTS : Nat := 32

/-- The registers of a slot that the driver uses. -/
inductive Register
  | magic | version | deviceId | deviceFeat | deviceFeatSel | driverFeat | driverFeatSel
  | guestPageSize | queueSel | queueMax | queueNum | queueAlign | queuePfn | queueReady | status
  | qdescLo | qdescHi | qdrvLo | qdrvHi | qdevLo | qdevHi
  deriving DecidableEq, Repr

/-- The offsets of `virtio.h` and `virtio.c`. -/
def Register.offset : Register → Nat
  | .magic => 0x000
  | .version => 0x004
  | .deviceId => 0x008
  | .deviceFeat => 0x010
  | .deviceFeatSel => 0x014
  | .driverFeat => 0x020
  | .driverFeatSel => 0x024
  | .guestPageSize => 0x028
  | .queueSel => 0x030
  | .queueMax => 0x034
  | .queueNum => 0x038
  | .queueAlign => 0x03c
  | .queuePfn => 0x040
  | .queueReady => 0x044
  | .status => 0x070
  | .qdescLo => 0x080
  | .qdescHi => 0x084
  | .qdrvLo => 0x090
  | .qdrvHi => 0x094
  | .qdevLo => 0x0a0
  | .qdevHi => 0x0a4

/-- Different registers are at different addresses. -/
theorem Register.offset_injective : Function.Injective Register.offset := by
  intro r r' h
  cases r <;> cases r' <;> first | rfl | exact absurd h (by decide)

def VIRTIO_MAGIC_VALUE : BitVec 32 := 0x74726976
def VIRTIO_ID_BLOCK : BitVec 32 := 2

def STATUS_ACK : BitVec 32 := 1
def STATUS_DRIVER : BitVec 32 := 2
def STATUS_DRIVER_OK : BitVec 32 := 4
def STATUS_FEAT_OK : BitVec 32 := 8
def STATUS_FAILED : BitVec 32 := 128

/-- `1u << (VIRTIO_F_VERSION_1 - 32)`. -/
def VERSION_1_HI : BitVec 32 := 1

/-- An access to a register of the device at `base`. -/
inductive Access
  | read (base : Nat) (reg : Register) (v : BitVec 32)
  | write (base : Nat) (reg : Register) (v : BitVec 32)
  deriving DecidableEq, Repr

/-- The bus and the console.  `reads` counts the reads so far. -/
structure Bus where
  reads : Nat
  trace : List Access
  console : List UInt8

def Bus.start : Bus := ⟨0, [], []⟩

abbrev Mmio := StateM Bus

@[simp] theorem mmio_pure {α : Type} (x : α) (b : Bus) : (pure x : Mmio α) b = (x, b) := rfl

@[simp] theorem mmio_bind {α β : Type} (x : Mmio α) (f : α → Mmio β) (b : Bus) :
    (x >>= f) b = f (x b).1 (x b).2 := rfl

@[simp] theorem mmio_map {α β : Type} (f : α → β) (x : Mmio α) (b : Bus) :
    (f <$> x) b = (f (x b).1, (x b).2) := rfl

/-! ## The driver -/

section Driver

variable (answers : Nat → BitVec 32)

def regRead (base : Nat) (reg : Register) : Mmio (BitVec 32) := fun b =>
  (answers b.reads,
    { b with reads := b.reads + 1, trace := b.trace ++ [.read base reg (answers b.reads)] })

def regWrite (base : Nat) (reg : Register) (v : BitVec 32) : Mmio Unit := fun b =>
  ((), { b with trace := b.trace ++ [.write base reg v] })

/-- Print. -/
def say (ops : List Op) : Mmio Unit := fun b =>
  ((), { b with console := b.console ++ sent ops })

def puts (s : String) : Mmio Unit :=
  say (uartPuts (ascii s))

def slotBase (i : Nat) : Nat :=
  MMIO_BASE + i * MMIO_STRIDE

/-- What `find_block_device` prints about a slot. -/
def reportSlot (i : Nat) (devid ver : BitVec 32) : Mmio Unit := do
  puts "virtio: mmio slot "
  say (uartPutDec (BitVec.ofNat 64 i))
  puts " ("
  say (uartPutHex (BitVec.ofNat 64 (slotBase i)))
  puts "): device id "
  say (uartPutDec (devid.setWidth 64))
  puts ", version "
  say (uartPutDec (ver.setWidth 64))
  puts "\n"

/-- The loop of `find_block_device`, with `left` slots to go. -/
def scan : Nat → Nat → Mmio Nat
  | 0, _ => pure 0
  | left + 1, i => do
      let base := slotBase i
      let magic ← regRead answers base .magic
      if magic ≠ VIRTIO_MAGIC_VALUE then scan left (i + 1)
      else
        let devid ← regRead answers base .deviceId
        let ver ← regRead answers base .version
        reportSlot i devid ver
        if devid = VIRTIO_ID_BLOCK then pure base else scan left (i + 1)

def findBlockDevice : Mmio Nat :=
  scan answers MMIO_SLOTS 0

def fail (base : Nat) (msg : String) : Mmio Unit := do
  puts "virtio: "
  puts msg
  puts "\n"
  regWrite base .status STATUS_FAILED

/-- The part of `virtio_init` up to the driver's features; says whether the 1.x
interface was chosen. -/
def negotiate (base : Nat) : Mmio Bool := do
  regWrite base .status 0
  regWrite base .status STATUS_ACK
  regWrite base .status (STATUS_ACK ||| STATUS_DRIVER)
  regWrite base .deviceFeatSel 0
  let featLo ← regRead answers base .deviceFeat
  regWrite base .deviceFeatSel 1
  let featHi ← regRead answers base .deviceFeat
  puts "virtio: device features lo="
  say (uartPutHex (featLo.setWidth 64))
  puts " hi="
  say (uartPutHex (featHi.setWidth 64))
  puts "\n"
  let modern := featHi &&& VERSION_1_HI ≠ 0
  puts "virtio: interface selected: "
  puts (if modern then "1.x (VIRTIO_F_VERSION_1)" else "legacy")
  puts "\n"
  regWrite base .driverFeatSel 0
  regWrite base .driverFeat 0
  regWrite base .driverFeatSel 1
  regWrite base .driverFeat (if modern then VERSION_1_HI else 0)
  pure modern

/-- The report of the queue that `virtio_init` prints. -/
def reportQueue (Q : Layout) (qmax : BitVec 32) : Mmio Unit := do
  puts "virtio: queue max size "
  say (uartPutDec (qmax.setWidth 64))
  puts ", using "
  say (uartPutDec (BitVec.ofNat 64 Q.vqSize))
  puts "\n"
  puts "virtio: desc table at "
  say (uartPutHex (BitVec.ofNat 64 (Q.qdesc 0)))
  puts " (16-byte aligned: "
  puts (if Q.qdesc 0 % 16 = 0 then "yes" else "NO")
  puts "), avail at "
  say (uartPutHex (BitVec.ofNat 64 Q.qavail))
  puts ", used at "
  say (uartPutHex (BitVec.ofNat 64 Q.qused))
  puts " ("
  say (uartPutDec (BitVec.ofNat 64 VQ_ALIGN))
  puts "-byte aligned: "
  puts (if Q.qused % VQ_ALIGN = 0 then "yes" else "NO")
  puts ")\n"

def lo32 (a : Nat) : BitVec 32 := BitVec.ofNat 32 a
def hi32 (a : Nat) : BitVec 32 := BitVec.ofNat 32 (a / 2 ^ 32)

/-- The registers of the queue, on the interface that was chosen. -/
def setQueue (base : Nat) (modern : Bool) (Q : Layout) : Mmio Unit := do
  regWrite base .queueNum (BitVec.ofNat 32 Q.vqSize)
  if modern then
    regWrite base .qdescLo (lo32 (Q.qdesc 0))
    regWrite base .qdescHi (hi32 (Q.qdesc 0))
    regWrite base .qdrvLo (lo32 Q.qavail)
    regWrite base .qdrvHi (hi32 Q.qavail)
    regWrite base .qdevLo (lo32 Q.qused)
    regWrite base .qdevHi (hi32 Q.qused)
    regWrite base .queueReady 1
  else
    regWrite base .guestPageSize (BitVec.ofNat 32 VQ_ALIGN)
    regWrite base .queueAlign (BitVec.ofNat 32 VQ_ALIGN)
    regWrite base .queuePfn (BitVec.ofNat 32 (Q.qmem / 2 ^ 12))

/-- The status that the driver confirms its features with. -/
def STATUS_NEGOTIATED : BitVec 32 := STATUS_ACK ||| STATUS_DRIVER ||| STATUS_FEAT_OK

/-- The last part of `virtio_init`.  The layout of the queue is that of the
statics with the size that the device offers. -/
def enableQueue (L : Layout) (base : Nat) (modern : Bool) (qmax : BitVec 32) :
    Mmio (BitVec 32) := do
  let Q := { L with qmax := qmax.toNat }
  reportQueue Q qmax
  setQueue base modern Q
  regWrite base .status (STATUS_NEGOTIATED ||| STATUS_DRIVER_OK)
  puts "virtio: device status now "
  let final ← regRead answers base .status
  say (uartPutHex (final.setWidth 64))
  puts " (DRIVER_OK set)\n"
  pure (BitVec.ofNat 32 Q.vqSize)

/-- The part of `virtio_init` after the device has been found. -/
def bringUp (L : Layout) (base : Nat) : Mmio (BitVec 32) := do
  let modern ← negotiate answers base
  regWrite base .status STATUS_NEGOTIATED
  let readBack ← regRead answers base .status
  if readBack &&& STATUS_FEAT_OK = 0 then
    fail base "device rejected the negotiated features"
    pure 0
  else
    puts "virtio: features accepted by device\n"
    regWrite base .queueSel 0
    let qmax ← regRead answers base .queueMax
    if qmax = 0 then
      fail base "queue 0 reports size 0"
      pure 0
    else enableQueue answers L base modern qmax

/-- `virtio_init`: the queue size in use, or 0. -/
def virtioInit (L : Layout) : Mmio (BitVec 32) := do
  let base ← findBlockDevice answers
  if base = 0 then
    puts "virtio: no block device on the mmio bus\n"
    pure 0
  else bringUp answers L base

end Driver

/-! ## The record of the accesses -/

/-- The accesses of `negotiate`. -/
def negotiation (base : Nat) (lo hi : BitVec 32) : List Access :=
  [.write base .status 0, .write base .status STATUS_ACK,
   .write base .status (STATUS_ACK ||| STATUS_DRIVER), .write base .deviceFeatSel 0,
   .read base .deviceFeat lo, .write base .deviceFeatSel 1, .read base .deviceFeat hi,
   .write base .driverFeatSel 0, .write base .driverFeat 0, .write base .driverFeatSel 1,
   .write base .driverFeat (if hi &&& VERSION_1_HI ≠ 0 then VERSION_1_HI else 0)]

/-- The writes to the queue registers: `QueueNum` and then the three addresses
and `QueueReady`, or the page size, the alignment and the page frame number. -/
def queueWrites (base : Nat) (modern : Bool) (Q : Layout) : List Access :=
  .write base .queueNum (BitVec.ofNat 32 Q.vqSize) ::
    if modern then
      [.write base .qdescLo (lo32 (Q.qdesc 0)), .write base .qdescHi (hi32 (Q.qdesc 0)),
       .write base .qdrvLo (lo32 Q.qavail), .write base .qdrvHi (hi32 Q.qavail),
       .write base .qdevLo (lo32 Q.qused), .write base .qdevHi (hi32 Q.qused),
       .write base .queueReady 1]
    else
      [.write base .guestPageSize (BitVec.ofNat 32 VQ_ALIGN),
       .write base .queueAlign (BitVec.ofNat 32 VQ_ALIGN),
       .write base .queuePfn (BitVec.ofNat 32 (Q.qmem / 2 ^ 12))]

section Trace

variable (answers : Nat → BitVec 32)

theorem negotiate_spec (base : Nat) (b : Bus) :
    let lo := answers b.reads
    let hi := answers (b.reads + 1)
    (negotiate answers base b).1 = decide (hi &&& VERSION_1_HI ≠ 0) ∧
      (negotiate answers base b).2.reads = b.reads + 2 ∧
      (negotiate answers base b).2.trace = b.trace ++ negotiation base lo hi := by
  refine ⟨rfl, rfl, ?_⟩
  simp only [negotiate, mmio_bind, mmio_pure, regRead, regWrite, puts, say,
    negotiation, List.append_assoc, List.cons_append, List.nil_append]

theorem setQueue_spec (base : Nat) (modern : Bool) (Q : Layout) (b : Bus) :
    (setQueue base modern Q b).2.reads = b.reads ∧
      (setQueue base modern Q b).2.trace = b.trace ++ queueWrites base modern Q := by
  cases modern with
  | true => exact ⟨rfl, by simp [setQueue, queueWrites, regWrite]⟩
  | false => exact ⟨rfl, by simp [setQueue, queueWrites, regWrite]⟩

theorem reportQueue_spec (Q : Layout) (qmax : BitVec 32) (b : Bus) :
    (reportQueue Q qmax b).2.reads = b.reads ∧ (reportQueue Q qmax b).2.trace = b.trace := by
  simp only [reportQueue, mmio_bind, puts, say, and_self]

theorem enableQueue_spec (L : Layout) (base : Nat) (modern : Bool) (qmax : BitVec 32) (b : Bus) :
    (enableQueue answers L base modern qmax b).1 =
        BitVec.ofNat 32 { L with qmax := qmax.toNat }.vqSize ∧
      (enableQueue answers L base modern qmax b).2.trace = b.trace ++
        queueWrites base modern { L with qmax := qmax.toNat } ++
          [.write base .status (STATUS_NEGOTIATED ||| STATUS_DRIVER_OK),
           .read base .status (answers b.reads)] := by
  simp [enableQueue, regWrite, regRead, puts, say, setQueue_spec, reportQueue_spec]

/-- The accesses of `bringUp`, as a function of the answers to its reads. -/
def bringUpTrace (L : Layout) (base : Nat) (lo hi readBack qmax final : BitVec 32) : List Access :=
  negotiation base lo hi ++
    [.write base .status STATUS_NEGOTIATED, .read base .status readBack] ++
    if readBack &&& STATUS_FEAT_OK = 0 then [.write base .status STATUS_FAILED]
    else
      [.write base .queueSel 0, .read base .queueMax qmax] ++
      if qmax = 0 then [.write base .status STATUS_FAILED]
      else
        queueWrites base (hi &&& VERSION_1_HI ≠ 0) { L with qmax := qmax.toNat } ++
          [.write base .status (STATUS_NEGOTIATED ||| STATUS_DRIVER_OK),
           .read base .status final]

theorem bringUp_spec (L : Layout) (base : Nat) (b : Bus) :
    let readBack := answers (b.reads + 2)
    let qmax := answers (b.reads + 3)
    (bringUp answers L base b).1 =
        (if readBack &&& STATUS_FEAT_OK = 0 ∨ qmax = 0 then 0
          else BitVec.ofNat 32 { L with qmax := qmax.toNat }.vqSize) ∧
      (bringUp answers L base b).2.trace = b.trace ++ bringUpTrace L base (answers b.reads)
        (answers (b.reads + 1)) readBack qmax (answers (b.reads + 4)) := by
  obtain ⟨hmodern, hreads, htrace⟩ := negotiate_spec answers base b
  dsimp only at hmodern hreads htrace ⊢
  by_cases hrejected : answers (b.reads + 2) &&& STATUS_FEAT_OK = 0#32
  · simp [bringUp, regWrite, regRead, hreads, hrejected, fail, puts, say, htrace, bringUpTrace]
  · by_cases hempty : answers (b.reads + 3) = 0#32
    · simp [bringUp, regWrite, regRead, hreads, hrejected, hempty, fail, puts, say, htrace,
        bringUpTrace]
    · simp [bringUp, regWrite, regRead, hreads, hrejected, hempty, puts, say, htrace, bringUpTrace,
        enableQueue_spec, hmodern]

/-! ## The scan of the slots -/

def Access.isRead : Access → Bool
  | .read .. => true
  | .write .. => false

/-- Slot `i` has answered with another magic value or another device. -/
def Missing (trace : List Access) (i : Nat) : Prop :=
  ∃ magic, .read (slotBase i) .magic magic ∈ trace ∧ (magic ≠ VIRTIO_MAGIC_VALUE ∨
    ∃ id, .read (slotBase i) .deviceId id ∈ trace ∧ id ≠ VIRTIO_ID_BLOCK)

/-- Slot `i` has answered as a block device. -/
def Present (trace : List Access) (i : Nat) : Prop :=
  .read (slotBase i) .magic VIRTIO_MAGIC_VALUE ∈ trace ∧
    .read (slotBase i) .deviceId VIRTIO_ID_BLOCK ∈ trace

/-- What a scan of `left` slots from slot `i` on has done. -/
structure Scanned (b : Bus) (left i : Nat) (out : Nat × Bus) : Prop where
  reads : ∃ more, out.2.trace = b.trace ++ more ∧ ∀ a ∈ more, a.isRead = true
  missing : out.1 = 0 → ∀ j, i ≤ j → j < i + left → Missing out.2.trace j
  present : out.1 ≠ 0 → ∃ j, i ≤ j ∧ j < i + left ∧ out.1 = slotBase j ∧ Present out.2.trace j

theorem slotBase_ne_zero (i : Nat) : slotBase i ≠ 0 :=
  Nat.ne_of_gt (Nat.add_pos_left (by decide) _)

/-- A slot that is not a block device. -/
theorem Scanned.skip {b b' : Bus} {left i : Nat} {out : Nat × Bus} {slot : List Access}
    (htrace : b'.trace = b.trace ++ slot) (hslot : ∀ a ∈ slot, a.isRead = true)
    (hmissing : Missing slot i) (h : Scanned b' left (i + 1) out) : Scanned b (left + 1) i out := by
  obtain ⟨⟨more, hmore, hreads⟩, hmissing', hpresent⟩ := h
  rw [htrace, List.append_assoc] at hmore
  refine ⟨⟨slot ++ more, hmore, ?_⟩, fun hzero j hlow hhigh => ?_, fun hne => ?_⟩
  · intro a ha
    rcases List.mem_append.mp ha with ha | ha
    · exact hslot a ha
    · exact hreads a ha
  · rcases Nat.eq_or_lt_of_le hlow with rfl | hlater
    · obtain ⟨magic, hmagic, hother⟩ := hmissing
      have hsub : ∀ a ∈ slot, a ∈ out.2.trace := by
        intro a ha
        rw [hmore]
        exact List.mem_append_right _ (List.mem_append_left _ ha)
      refine ⟨magic, hsub _ hmagic, hother.imp_right ?_⟩
      rintro ⟨id, hid, hne⟩
      exact ⟨id, hsub _ hid, hne⟩
    · exact hmissing' hzero j hlater (by omega)
  · obtain ⟨j, hlow, hhigh, hj⟩ := hpresent hne
    exact ⟨j, by omega, by omega, hj⟩

/-- The reads of a slot whose magic value is right. -/
def probe (i : Nat) (b : Bus) : List Access :=
  [.read (slotBase i) .magic (answers b.reads),
   .read (slotBase i) .deviceId (answers (b.reads + 1)),
   .read (slotBase i) .version (answers (b.reads + 2))]

theorem reportSlot_spec (i : Nat) (devid ver : BitVec 32) (b : Bus) :
    (reportSlot i devid ver b).2.reads = b.reads ∧
      (reportSlot i devid ver b).2.trace = b.trace := by
  simp only [reportSlot, mmio_bind, puts, say, and_self]

theorem scan_bad_magic (left i : Nat) {b : Bus} (hmagic : answers b.reads ≠ VIRTIO_MAGIC_VALUE) :
    ∃ b' : Bus, b'.trace = b.trace ++ [.read (slotBase i) .magic (answers b.reads)] ∧
      scan answers (left + 1) i b = scan answers left (i + 1) b' := by
  refine ⟨(regRead answers (slotBase i) .magic b).2, rfl, ?_⟩
  rw [scan, mmio_bind]
  exact congrFun (if_pos hmagic) _

theorem scan_magic (left i : Nat) {b : Bus} (hmagic : answers b.reads = VIRTIO_MAGIC_VALUE) :
    ∃ b' : Bus, b'.trace = b.trace ++ probe answers i b ∧
      scan answers (left + 1) i b =
        if answers (b.reads + 1) = VIRTIO_ID_BLOCK then (slotBase i, b')
        else scan answers left (i + 1) b' := by
  let asked : Bus := ⟨b.reads + 3, b.trace ++ probe answers i b, b.console⟩
  obtain ⟨-, htrace⟩ := reportSlot_spec i (answers (b.reads + 1)) (answers (b.reads + 2)) asked
  refine ⟨_, htrace, ?_⟩
  by_cases hid : answers (b.reads + 1) = VIRTIO_ID_BLOCK
  · simp [scan, regRead, hmagic, hid, probe, asked]
  · simp [scan, regRead, hmagic, hid, probe, asked]

theorem scan_scanned (left i : Nat) (b : Bus) : Scanned b left i (scan answers left i b) := by
  induction left generalizing i b with
  | zero =>
      refine ⟨⟨[], (List.append_nil _).symm, by simp⟩, fun _ j hlow hhigh => ?_, fun hne => ?_⟩
      · omega
      · exact absurd rfl hne
  | succ left ih =>
      by_cases hmagic : answers b.reads = VIRTIO_MAGIC_VALUE
      · obtain ⟨b', htrace, hscan⟩ := scan_magic answers left i hmagic
        rw [hscan]
        split
        case isTrue hid =>
          refine ⟨⟨_, htrace, by simp [probe, Access.isRead]⟩,
            fun hzero => absurd hzero (slotBase_ne_zero i), fun _ => ?_⟩
          refine ⟨i, le_rfl, by omega, rfl, ?_, ?_⟩
          · simp [htrace, probe, hmagic]
          · simp [htrace, probe, hid]
        case isFalse hid =>
          refine Scanned.skip htrace (by simp [probe, Access.isRead]) ?_ (ih (i + 1) b')
          exact ⟨_, List.mem_cons_self, Or.inr ⟨_, by simp [probe], hid⟩⟩
      · obtain ⟨b', htrace, hscan⟩ := scan_bad_magic answers left i hmagic
        rw [hscan]
        refine Scanned.skip htrace (by simp [Access.isRead]) ?_ (ih (i + 1) b')
        exact ⟨_, List.mem_cons_self, Or.inl hmagic⟩

/-! ## The order of the accesses -/

/-- A write to the status register that sets `DRIVER_OK`. -/
def Access.setsDriverOk : Access → Bool
  | .write _ .status v => v &&& STATUS_DRIVER_OK ≠ 0
  | _ => false

/-- The values written to the status register, in order. -/
def statusWrites (trace : List Access) : List (BitVec 32) :=
  trace.filterMap fun
    | .write _ .status v => some v
    | _ => none

/-- The accesses before the queue is set up: the features are confirmed and the
size of queue 0 is asked for. -/
def confirmation (base : Nat) (lo hi readBack qmax : BitVec 32) : List Access :=
  negotiation base lo hi ++
    [.write base .status STATUS_NEGOTIATED, .read base .status readBack,
     .write base .queueSel 0, .read base .queueMax qmax]

/-- None of the accesses sets `DRIVER_OK`. -/
def Silent (trace : List Access) : Prop :=
  ∀ a ∈ trace, a.setsDriverOk = false

theorem Silent.append {l l' : List Access} (h : Silent l) (h' : Silent l') : Silent (l ++ l') :=
  List.forall_mem_append.mpr ⟨h, h'⟩

theorem Silent.notMem {l : List Access} (h : Silent l) {a : Access} (ha : a.setsDriverOk = true) :
    a ∉ l := by
  intro hmem
  rw [h a hmem] at ha
  exact Bool.false_ne_true ha

theorem silent_of_reads {l : List Access} (h : ∀ a ∈ l, a.isRead = true) : Silent l := by
  intro a ha
  cases a with
  | read => rfl
  | write => exact absurd (h _ ha) Bool.false_ne_true

theorem negotiation_silent (base : Nat) (lo hi : BitVec 32) : Silent (negotiation base lo hi) := by
  simp [Silent, negotiation, Access.setsDriverOk, STATUS_ACK, STATUS_DRIVER, STATUS_DRIVER_OK]

theorem status_silent (base : Nat) (readBack : BitVec 32) :
    Silent [.write base .status STATUS_NEGOTIATED, .read base .status readBack] := by
  simp [Silent, Access.setsDriverOk, STATUS_NEGOTIATED, STATUS_ACK, STATUS_DRIVER, STATUS_FEAT_OK,
    STATUS_DRIVER_OK]

theorem failed_silent (base : Nat) : Silent [.write base .status STATUS_FAILED] := by
  simp [Silent, Access.setsDriverOk, STATUS_FAILED, STATUS_DRIVER_OK]

theorem confirmation_silent (base : Nat) (lo hi readBack qmax : BitVec 32) :
    Silent (confirmation base lo hi readBack qmax) := by
  have hselect : Silent [.write base .queueSel 0, .read base .queueMax qmax] := by
    simp [Silent, Access.setsDriverOk]
  exact (negotiation_silent base lo hi).append ((status_silent base readBack).append hselect)

theorem queueWrites_silent (base : Nat) (modern : Bool) (Q : Layout) :
    Silent (queueWrites base modern Q) := by
  cases modern <;> simp [Silent, queueWrites, Access.setsDriverOk]

/-- The three ways in which `bringUp` ends. -/
theorem bringUpTrace_cases (L : Layout) (base : Nat) (lo hi readBack qmax final : BitVec 32) :
    (readBack &&& STATUS_FEAT_OK = 0 ∧
      bringUpTrace L base lo hi readBack qmax final = negotiation base lo hi ++
        [.write base .status STATUS_NEGOTIATED, .read base .status readBack] ++
        [.write base .status STATUS_FAILED]) ∨
    (readBack &&& STATUS_FEAT_OK ≠ 0 ∧ qmax = 0 ∧
      bringUpTrace L base lo hi readBack qmax final =
        confirmation base lo hi readBack qmax ++ [.write base .status STATUS_FAILED]) ∨
    (readBack &&& STATUS_FEAT_OK ≠ 0 ∧ qmax ≠ 0 ∧
      bringUpTrace L base lo hi readBack qmax final =
        confirmation base lo hi readBack qmax ++
          queueWrites base (hi &&& VERSION_1_HI ≠ 0) { L with qmax := qmax.toNat } ++
          .write base .status (STATUS_NEGOTIATED ||| STATUS_DRIVER_OK) ::
            [.read base .status final]) := by
  by_cases hrejected : readBack &&& STATUS_FEAT_OK = 0
  · refine Or.inl ⟨hrejected, ?_⟩
    rw [bringUpTrace, if_pos hrejected]
  · by_cases hempty : qmax = 0
    · refine Or.inr (Or.inl ⟨hrejected, hempty, ?_⟩)
      rw [bringUpTrace, if_neg hrejected, if_pos hempty, confirmation]
      simp
    · refine Or.inr (Or.inr ⟨hrejected, hempty, ?_⟩)
      rw [bringUpTrace, if_neg hrejected, if_neg hempty, confirmation]
      simp

/-- `DRIVER_OK` is set at most once by `bringUp`, after the features have been
accepted and the queue has been set up. -/
theorem bringUpTrace_driverOk {L : Layout} {base : Nat} {lo hi readBack qmax final : BitVec 32}
    {scanned pre post : List Access} {a : Access} (hscan : Silent scanned)
    (h : scanned ++ bringUpTrace L base lo hi readBack qmax final = pre ++ a :: post)
    (ha : a.setsDriverOk = true) :
    a = .write base .status (STATUS_NEGOTIATED ||| STATUS_DRIVER_OK) ∧
      readBack &&& STATUS_FEAT_OK ≠ 0 ∧ qmax ≠ 0 ∧
      pre = scanned ++ confirmation base lo hi readBack qmax ++
        queueWrites base (hi &&& VERSION_1_HI ≠ 0) { L with qmax := qmax.toNat } := by
  have hmem : a ∈ scanned ++ bringUpTrace L base lo hi readBack qmax final := by
    rw [h]
    exact List.mem_append_right _ List.mem_cons_self
  rcases bringUpTrace_cases L base lo hi readBack qmax final with
    ⟨-, htrace⟩ | ⟨-, -, htrace⟩ | ⟨haccepted, hoffered, htrace⟩
  · have hsilent := hscan.append (((negotiation_silent base lo hi).append
      (status_silent base readBack)).append (failed_silent base))
    rw [htrace] at hmem
    exact absurd hmem (hsilent.notMem ha)
  · have hsilent := hscan.append ((confirmation_silent base lo hi readBack qmax).append
      (failed_silent base))
    rw [htrace] at hmem
    exact absurd hmem (hsilent.notMem ha)
  · have hbefore := (hscan.append (confirmation_silent base lo hi readBack qmax)).append
      (queueWrites_silent base (hi &&& VERSION_1_HI ≠ 0) { L with qmax := qmax.toNat })
    have hafter : Silent [.read base .status final] := silent_of_reads (by simp [Access.isRead])
    rw [htrace, ← List.append_assoc, ← List.append_assoc] at h
    obtain ⟨hpre, hwrite, -⟩ := (List.append_cons_inj_of_notMem (hbefore.notMem ha)
      (hafter.notMem ha)).mp h
    exact ⟨hwrite.symm, haccepted, hoffered, hpre.symm⟩

/-- A failure is the last thing the device is told. -/
theorem bringUpTrace_failed {L : Layout} {base : Nat} {lo hi readBack qmax final : BitVec 32}
    (hfailed : readBack &&& STATUS_FEAT_OK = 0 ∨ qmax = 0) (scanned : List Access) :
    (statusWrites (scanned ++ bringUpTrace L base lo hi readBack qmax final)).getLast? =
      some STATUS_FAILED := by
  have hlast : ∀ before : List Access,
      (statusWrites (before ++ [.write base .status STATUS_FAILED])).getLast? =
        some STATUS_FAILED := by
    intro before
    simp [statusWrites]
  rcases bringUpTrace_cases L base lo hi readBack qmax final with
    ⟨-, htrace⟩ | ⟨-, -, htrace⟩ | ⟨haccepted, hoffered, -⟩
  · rw [htrace, ← List.append_assoc]
    exact hlast _
  · rw [htrace, ← List.append_assoc]
    exact hlast _
  · rcases hfailed with hrejected | hempty
    · exact absurd hrejected haccepted
    · exact absurd hempty hoffered

end Trace

/-! ## The layout of the queue -/

/-- Where `qmem` can be: its alignment is an attribute of the declaration, and
`link.ld` puts the image into the RAM at `0x80000000`, below the `2 ^ 44` bytes
that a page frame number reaches. -/
structure Layout.Placed (L : Layout) : Prop where
  aligned : L.qmem % VQ_ALIGN = 0
  reached : L.qmem < 2 ^ 44

/-- An address that a 1.x device is told in two halves. -/
def joined (lo hi : BitVec 32) : Nat := hi.toNat * 2 ^ 32 + lo.toNat

def alignUp (a align : Nat) : Nat := (a + align - 1) / align * align

/-- The descriptor table, the available ring and the used ring of a legacy
device, from the values of its queue registers. -/
def legacyRings (queueNum pageSize queueAlign pfn : BitVec 32) : Nat × Nat × Nat :=
  let desc := pfn.toNat * pageSize.toNat
  let avail := desc + 16 * queueNum.toNat
  (desc, avail, alignUp (avail + (6 + 2 * queueNum.toNat)) queueAlign.toNat)

/-- What the queue needs of its memory, on both interfaces. -/
structure Laid (Q : Layout) : Prop where
  desc_inside : Q.qmem ≤ Q.qdesc 0 ∧ Q.qdesc 0 + 16 * Q.vqSize ≤ Q.qmem + QMEM_SIZE
  avail_inside : Q.qmem ≤ Q.qavail ∧ Q.qavail + (6 + 2 * Q.vqSize) ≤ Q.qmem + QMEM_SIZE
  used_inside : Q.qmem ≤ Q.qused ∧ Q.qused + (6 + 8 * Q.vqSize) ≤ Q.qmem + QMEM_SIZE
  desc_avail : Apart (Q.qdesc 0) (16 * Q.vqSize) Q.qavail (6 + 2 * Q.vqSize)
  desc_used : Apart (Q.qdesc 0) (16 * Q.vqSize) Q.qused (6 + 8 * Q.vqSize)
  avail_used : Apart Q.qavail (6 + 2 * Q.vqSize) Q.qused (6 + 8 * Q.vqSize)
  aligned : Q.qdesc 0 % 16 = 0 ∧ Q.qavail % 2 = 0 ∧ Q.qused % 4096 = 0
  modern : joined (lo32 (Q.qdesc 0)) (hi32 (Q.qdesc 0)) = Q.qdesc 0 ∧
    joined (lo32 Q.qavail) (hi32 Q.qavail) = Q.qavail ∧
    joined (lo32 Q.qused) (hi32 Q.qused) = Q.qused
  legacy : legacyRings (BitVec.ofNat 32 Q.vqSize) (BitVec.ofNat 32 VQ_ALIGN)
    (BitVec.ofNat 32 VQ_ALIGN) (BitVec.ofNat 32 (Q.qmem / 2 ^ 12)) =
      (Q.qdesc 0, Q.qavail, Q.qused)

theorem joined_halves {a : Nat} (h : a < 2 ^ 64) : joined (lo32 a) (hi32 a) = a := by
  have hhi : a / 2 ^ 32 < 2 ^ 32 := Nat.div_lt_of_lt_mul (by omega)
  rw [joined, lo32, hi32, BitVec.toNat_ofNat, BitVec.toNat_ofNat, Nat.mod_eq_of_lt hhi]
  exact Nat.div_add_mod' a (2 ^ 32)

/-- Up to a page behind a page boundary, rounded up. -/
theorem alignUp_next {a n : Nat} (ha : a % 4096 = 0) (hpos : 0 < n) (hle : n ≤ 4096) :
    alignUp (a + n) 4096 = a + 4096 := by
  obtain ⟨k, rfl⟩ := Nat.dvd_of_mod_eq_zero ha
  have hquot : (4096 * k + n + 4096 - 1) / 4096 = k + 1 := by omega
  rw [alignUp, hquot]
  ring

/-- The rule for a legacy device gives the addresses of the driver. -/
theorem legacyRings_eq {Q : Layout} (hQ : Q.Placed) :
    legacyRings (BitVec.ofNat 32 Q.vqSize) (BitVec.ofNat 32 VQ_ALIGN) (BitVec.ofNat 32 VQ_ALIGN)
      (BitVec.ofNat 32 (Q.qmem / 2 ^ 12)) = (Q.qdesc 0, Q.qavail, Q.qused) := by
  obtain ⟨haligned, hreached⟩ := hQ
  have hle : Q.vqSize ≤ 128 := vqSize_le
  have hnum : (BitVec.ofNat 32 Q.vqSize).toNat = Q.vqSize := by
    rw [BitVec.toNat_ofNat, Nat.mod_eq_of_lt (by omega)]
  have hpfn : (BitVec.ofNat 32 (Q.qmem / 2 ^ 12)).toNat = Q.qmem / 2 ^ 12 := by
    rw [BitVec.toNat_ofNat, Nat.mod_eq_of_lt (by omega)]
  have hoff : Q.usedOff = 4096 := usedOff_eq
  unfold VQ_ALIGN at haligned
  have hdesc : Q.qmem / 2 ^ 12 * 4096 = Q.qmem := by omega
  have hused : alignUp (Q.qmem + 16 * Q.vqSize + (6 + 2 * Q.vqSize)) 4096 = Q.qmem + 4096 := by
    rw [Nat.add_assoc]
    exact alignUp_next haligned (by omega) (by omega)
  have hpage : (BitVec.ofNat 32 VQ_ALIGN).toNat = 4096 := rfl
  rw [Layout.qdesc, Layout.qavail, Layout.qused, hoff, ← hused]
  simp only [legacyRings, hnum, hpfn, hpage, hdesc, Nat.mul_zero, Nat.add_zero]

/-- The queue is laid out well for every size. -/
theorem Layout.Placed.laid {Q : Layout} (hQ : Q.Placed) : Laid Q := by
  have hlegacy := legacyRings_eq hQ
  obtain ⟨haligned, hreached⟩ := hQ
  have hle : Q.vqSize ≤ 128 := vqSize_le
  have hoff : Q.usedOff = 4096 := usedOff_eq
  have hqmem : QMEM_SIZE = 5128 := rfl
  have hdesc : Q.qdesc 0 = Q.qmem := rfl
  have havail : Q.qavail = Q.qmem + 16 * Q.vqSize := rfl
  have hused : Q.qused = Q.qmem + 4096 := by rw [Layout.qused, hoff]
  unfold VQ_ALIGN at haligned
  exact {
    desc_inside := by omega
    avail_inside := by omega
    used_inside := by omega
    desc_avail := Or.inl (by omega)
    desc_used := Or.inl (by omega)
    avail_used := Or.inl (by omega)
    aligned := by omega
    modern := ⟨joined_halves (by omega), joined_halves (by omega), joined_halves (by omega)⟩
    legacy := hlegacy
  }

/-! ## The contract of `virtio_init` -/

section Contract

variable (answers : Nat → BitVec 32) (L : Layout)

theorem virtioInit_absent {b : Bus} (h : (findBlockDevice answers b).1 = 0) :
    (virtioInit answers L b).1 = 0 ∧
      (virtioInit answers L b).2.trace = (findBlockDevice answers b).2.trace := by
  generalize hfound : findBlockDevice answers b = found at h
  obtain ⟨base, b₁⟩ := found
  dsimp only at h
  subst h
  simp [virtioInit, hfound, puts, say]

theorem virtioInit_present {b : Bus} (h : (findBlockDevice answers b).1 ≠ 0) :
    virtioInit answers L b =
      bringUp answers L (findBlockDevice answers b).1 (findBlockDevice answers b).2 := by
  generalize hfound : findBlockDevice answers b = found at h ⊢
  obtain ⟨base, b₁⟩ := found
  simp only [virtioInit, mmio_bind, hfound, if_neg h]

/-- What `virtio_init` has done when it returns `out.1`.  `found` is the result of
`find_block_device`, and the other values are the answers to the reads after it:
the two halves of the features, the status, `QueueNumMax` and the status again. -/
structure InitContract (found : Nat × Bus) (lo hi readBack qmax final : BitVec 32)
    (out : BitVec 32 × Bus) : Prop where
  scan : ∀ a ∈ found.2.trace, a.isRead = true
  absent : found.1 = 0 → out.2.trace = found.2.trace ∧ ∀ i < MMIO_SLOTS, Missing out.2.trace i
  present : found.1 ≠ 0 →
    out.2.trace = found.2.trace ++ bringUpTrace L found.1 lo hi readBack qmax final ∧
      ∃ i < MMIO_SLOTS, found.1 = slotBase i ∧ Present out.2.trace i
  /-- What precedes `DRIVER_OK`. -/
  driverOk : ∀ pre a post, out.2.trace = pre ++ a :: post → a.setsDriverOk = true →
    a = .write found.1 .status (STATUS_NEGOTIATED ||| STATUS_DRIVER_OK) ∧
      readBack &&& STATUS_FEAT_OK ≠ 0 ∧ qmax ≠ 0 ∧
      pre = found.2.trace ++ confirmation found.1 lo hi readBack qmax ++
        queueWrites found.1 (hi &&& VERSION_1_HI ≠ 0) { L with qmax := qmax.toNat }
  zero : out.1 = 0 ↔ found.1 = 0 ∨ readBack &&& STATUS_FEAT_OK = 0 ∨ qmax = 0
  failed : found.1 ≠ 0 → readBack &&& STATUS_FEAT_OK = 0 ∨ qmax = 0 →
    (statusWrites out.2.trace).getLast? = some STATUS_FAILED
  success : out.1 ≠ 0 → out.1.toNat = min qmax.toNat 128 ∧ 1 ≤ out.1.toNat ∧
    out.1.toNat = { L with qmax := qmax.toNat }.vqSize ∧ Laid { L with qmax := qmax.toNat }

theorem found_scanned :
    Scanned Bus.start MMIO_SLOTS 0 (findBlockDevice answers Bus.start) :=
  scan_scanned answers MMIO_SLOTS 0 Bus.start

theorem found_reads : ∀ a ∈ (findBlockDevice answers Bus.start).2.trace, a.isRead = true := by
  obtain ⟨more, hmore, hreads⟩ := (found_scanned answers).reads
  rw [hmore]
  exact hreads

theorem ofNat_vqSize_toNat (Q : Layout) : (BitVec.ofNat 32 Q.vqSize).toNat = Q.vqSize := by
  have hle : Q.vqSize ≤ 128 := vqSize_le
  rw [BitVec.toNat_ofNat, Nat.mod_eq_of_lt (by omega)]

theorem vqSize_eq_min (Q : Layout) : Q.vqSize = min Q.qmax 128 := by
  unfold Layout.vqSize VQ_NUM
  split <;> omega

/-- A queue size that is offered is not 0. -/
theorem ofNat_vqSize_ne_zero {qmax : BitVec 32} (h : qmax ≠ 0) :
    BitVec.ofNat 32 { L with qmax := qmax.toNat }.vqSize ≠ 0 := by
  intro hzero
  have hsize := ofNat_vqSize_toNat { L with qmax := qmax.toNat }
  have hpos : 0 < qmax.toNat := Nat.pos_of_ne_zero fun hq => h (BitVec.eq_of_toNat_eq hq)
  rw [hzero, vqSize_eq_min] at hsize
  have hmin : min qmax.toNat 128 = 0 := hsize.symm
  omega

theorem bringUp_eq_zero_iff (base : Nat) (b : Bus) :
    (bringUp answers L base b).1 = 0 ↔
      answers (b.reads + 2) &&& STATUS_FEAT_OK = 0 ∨ answers (b.reads + 3) = 0 := by
  rw [(bringUp_spec answers L base b).1]
  split
  case isTrue hfailed => exact iff_of_true rfl hfailed
  case isFalse hok => exact iff_of_false (ofNat_vqSize_ne_zero L (not_or.mp hok).2) hok

theorem bringUp_success {base : Nat} {b : Bus} (h : (bringUp answers L base b).1 ≠ 0) :
    (bringUp answers L base b).1.toNat =
      { L with qmax := (answers (b.reads + 3)).toNat }.vqSize := by
  have hok := mt (bringUp_eq_zero_iff answers L base b).mpr h
  rw [(bringUp_spec answers L base b).1, if_neg hok]
  exact ofNat_vqSize_toNat _

/-- `virtio_init` keeps its contract, whatever the device answers. -/
theorem virtioInit_contract (hL : L.Placed) :
    let found := findBlockDevice answers Bus.start
    InitContract L found (answers found.2.reads) (answers (found.2.reads + 1))
      (answers (found.2.reads + 2)) (answers (found.2.reads + 3)) (answers (found.2.reads + 4))
      (virtioInit answers L Bus.start) := by
  intro found
  have hscan := found_scanned answers
  have hreads := found_reads answers
  have hsilent := silent_of_reads hreads
  by_cases habsent : found.1 = 0
  · obtain ⟨hzero, htrace⟩ := virtioInit_absent answers L habsent
    exact {
      scan := hreads
      absent := fun _ => ⟨htrace, fun i hi => by
        rw [htrace]
        exact hscan.missing habsent i (Nat.zero_le i) (by omega)⟩
      present := fun hne => absurd habsent hne
      driverOk := fun pre a post hsplit ha => by
        rw [htrace] at hsplit
        exact absurd (hsplit ▸ List.mem_append_right pre List.mem_cons_self) (hsilent.notMem ha)
      zero := iff_of_true hzero (Or.inl habsent)
      failed := fun hne => absurd habsent hne
      success := fun hne => absurd hzero hne
    }
  · have htrace := (bringUp_spec answers L found.1 found.2).2
    have hplaced : { L with qmax := (answers (found.2.reads + 3)).toNat }.Placed :=
      ⟨hL.aligned, hL.reached⟩
    rw [virtioInit_present answers L habsent]
    exact {
      scan := hreads
      absent := fun h => absurd h habsent
      present := fun _ => ⟨htrace, by
        obtain ⟨i, -, hi, hbase, hmagic, hid⟩ := hscan.present habsent
        rw [htrace]
        exact ⟨i, by omega, hbase, List.mem_append_left _ hmagic, List.mem_append_left _ hid⟩⟩
      driverOk := fun pre a post hsplit ha =>
        bringUpTrace_driverOk hsilent (htrace.symm.trans hsplit) ha
      zero := by
        rw [bringUp_eq_zero_iff, or_iff_right habsent]
      failed := fun _ hfailed => by
        rw [htrace]
        exact bringUpTrace_failed hfailed found.2.trace
      success := fun hne => by
        have hsize := bringUp_success answers L hne
        have hpos := Nat.pos_of_ne_zero fun h => hne (BitVec.eq_of_toNat_eq h)
        exact ⟨hsize.trans (vqSize_eq_min _), hpos, hsize, hplaced.laid⟩
    }

/-- A 1.x block device in slot 0 that offers 1024 descriptors. -/
def sampleDevice (n : Nat) : BitVec 32 :=
  [VIRTIO_MAGIC_VALUE, VIRTIO_ID_BLOCK, 2, 0, VERSION_1_HI, STATUS_NEGOTIATED, 1024,
    STATUS_NEGOTIATED ||| STATUS_DRIVER_OK].getD n 0

/-- The statics, before `vq_size` is known. -/
def initLayout : Layout := ⟨0x80010000, 0x80020000, 0x80020010, 0⟩

/-- The sample device is brought up with the largest queue. -/
theorem sampleDevice_broughtUp :
    (virtioInit sampleDevice initLayout Bus.start).1 = 128 ∧
      Laid { initLayout with qmax := 1024 } := by
  have hreturn : (virtioInit sampleDevice initLayout Bus.start).1 = 128 := by
    decide +kernel
  have hcontract := virtioInit_contract sampleDevice initLayout ⟨by decide, by decide⟩
  have hne : (virtioInit sampleDevice initLayout Bus.start).1 ≠ 0 := by
    rw [hreturn]
    decide
  exact ⟨hreturn, (hcontract.success hne).2.2.2⟩

end Contract

end VirtioBlk
end BareMetal
