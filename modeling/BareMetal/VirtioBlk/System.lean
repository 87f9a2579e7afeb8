import BareMetal.Machine.Bytes
import BareMetal.Machine.Runs

/-!
# The virtio block driver and its device

`src/virtio-blk/blk.c` and the ring half of `src/virtio-blk/virtio.c`, with the
device on the other side of the rings.  Driver and device share a byte memory
and take turns in any order.  The driver moves by one load or store of its own;
the device takes an entry of the available ring (reading the chain and the
header as they are at that moment), does the transfer and writes the status, and
publishes a used element, each of them whenever it likes.  `fence` has no step:
memory is sequentially consistent here.

The system keeps a record that neither side reads: how many entries the driver
has published, for which of them the device has fetched a request (`Req.seq`),
which request each used element was written for (`usedBy`), and what the calls
have returned (`returns`).
-/

namespace BareMetal
namespace VirtioBlk

open Machine

def VQ_NUM : Nat := 128
def VQ_ALIGN : Nat := 4096
def QMEM_SIZE : Nat := VQ_ALIGN + 8 * VQ_NUM + 8

def VIRTQ_DESC_F_NEXT : Nat := 1
def VIRTQ_DESC_F_WRITE : Nat := 2

def BLK_T_IN : Nat := 0
def BLK_T_OUT : Nat := 1
def BLK_S_OK : Nat := 0
def BLK_SECTOR_SIZE : Nat := 512

/-- `sizeof(struct blk_req)`. -/
def BLK_REQ_SIZE : Nat := 16

/-- The polling budget of `virtio_kick_wait`. -/
def KICK_TIMEOUT : Nat := 100000000

/-! ## The queue in memory -/

/-- Where the linker put the statics, and the queue size the device offered. -/
structure Layout where
  qmem : Nat
  req : Nat
  statusByte : Nat
  qmax : Nat

namespace Layout

variable (L : Layout)

def vqSize : Nat := if L.qmax < VQ_NUM then L.qmax else VQ_NUM

/-- `&qdesc[i]`. -/
def qdesc (i : Nat) : Nat := L.qmem + 16 * i

def qavail : Nat := L.qmem + 16 * L.vqSize
def availIdx : Nat := L.qavail + 2
def availRing (i : Nat) : Nat := L.qavail + 4 + 2 * i

/-- The mask with `~(VQ_ALIGN - 1)` is a division: `VQ_ALIGN` is a power of two. -/
def usedOff : Nat := (16 * L.vqSize + 6 + 2 * L.vqSize + VQ_ALIGN - 1) / VQ_ALIGN * VQ_ALIGN

def qused : Nat := L.qmem + L.usedOff
def usedIdx : Nat := L.qused + 2
def usedElem (i : Nat) : Nat := L.qused + 4 + 8 * i

/-- The statics are three objects in the 64-bit address space. -/
structure Separate : Prop where
  qmem_req : Apart L.qmem QMEM_SIZE L.req BLK_REQ_SIZE
  qmem_status : Apart L.qmem QMEM_SIZE L.statusByte 1
  req_status : Apart L.req BLK_REQ_SIZE L.statusByte 1
  req_lt : L.req + BLK_REQ_SIZE ≤ 2 ^ 64
  status_lt : L.statusByte < 2 ^ 64

/-- The bytes from `a` on are not part of a static of the driver. -/
structure Foreign (a n : Nat) : Prop where
  qmem : Apart L.qmem QMEM_SIZE a n
  req : Apart L.req BLK_REQ_SIZE a n
  status : Apart L.statusByte 1 a n

end Layout

/-! ## The driver's request -/

/-- The arguments of `blk_op`. -/
structure Call where
  sector : BitVec 64
  data : BitVec 64
  write : Bool
  deriving DecidableEq, Repr

/-- The buffer of a call is an object of its caller. -/
def Call.Ok (L : Layout) (c : Call) : Prop :=
  L.Foreign c.data.toNat BLK_SECTOR_SIZE

/-- `virtio_desc_set`. -/
def virtioDescSet (L : Layout) (i addr len flags next : Nat) : List Store :=
  [⟨L.qdesc i, 8, addr⟩, ⟨L.qdesc i + 8, 4, len⟩, ⟨L.qdesc i + 12, 2, flags⟩,
   ⟨L.qdesc i + 14, 2, next⟩]

/-- The stores of `blk_op` before it calls `virtio_kick_wait`. -/
def blkSetup (L : Layout) (c : Call) : List Store :=
  [⟨L.req, 4, if c.write then BLK_T_OUT else BLK_T_IN⟩, ⟨L.req + 4, 4, 0⟩,
   ⟨L.req + 8, 8, c.sector.toNat⟩, ⟨L.statusByte, 1, 0xff⟩] ++
    virtioDescSet L 0 L.req BLK_REQ_SIZE VIRTQ_DESC_F_NEXT 1 ++
    virtioDescSet L 1 c.data.toNat BLK_SECTOR_SIZE
      (VIRTQ_DESC_F_NEXT ||| if c.write then 0 else VIRTQ_DESC_F_WRITE) 2 ++
    virtioDescSet L 2 L.statusByte 1 VIRTQ_DESC_F_WRITE 0

/-- The head of every chain of `blk_op`. -/
def HEAD : Nat := 0

/-- What `virtio_kick_wait` returns for a used element: the length goes through
a signed `int`. -/
def kickResult (head id len : Nat) : Int :=
  if id ≠ head then -2 else if len < 2 ^ 31 then len else len - 2 ^ 32

/-! ## The device's request -/

structure Desc where
  addr : Nat
  len : Nat
  flags : Nat
  next : Nat
  deriving DecidableEq, Repr

def readDesc (L : Layout) (m : ByteMem) (i : Nat) : Desc :=
  ⟨loadLE m (L.qdesc i) 8, loadLE m (L.qdesc i + 8) 4, loadLE m (L.qdesc i + 12) 2,
   loadLE m (L.qdesc i + 14) 2⟩

/-- The chain from descriptor `i` on.  The device here follows `next` also out
of the table; one that refuses to just never takes such an entry. -/
def readChain (L : Layout) (m : ByteMem) : Nat → Nat → List Desc
  | 0, _ => []
  | fuel + 1, i =>
      let d := readDesc L m i
      if d.flags &&& VIRTQ_DESC_F_NEXT ≠ 0 then d :: readChain L m fuel d.next else [d]

/-- A block request as the device has read it, with the number of the available
entry it was read for. -/
structure Req where
  seq : Nat
  head : Nat
  type : Nat
  sector : Nat
  data : Nat
  len : Nat
  writable : Bool
  status : Nat
  deriving DecidableEq, Repr

/-- A block request is a chain of header, data and status. -/
def fetch (L : Layout) (m : ByteMem) (seq head : Nat) : Option Req :=
  match readChain L m VQ_NUM head with
  | [hdr, data, status] =>
      some
        { seq := seq
          head := head
          type := loadLE m hdr.addr 4
          sector := loadLE m (hdr.addr + 8) 8
          data := data.addr
          len := data.len
          writable := data.flags &&& VIRTQ_DESC_F_WRITE ≠ 0
          status := status.addr }
  | _ => none

inductive Dir
  | fromDisk
  | toDisk
  deriving DecidableEq, Repr

/-- A data transfer between the disk and a buffer. -/
structure Transfer where
  dir : Dir
  sector : Nat
  data : Nat
  len : Nat
  deriving DecidableEq, Repr

/-- A request the device is done with, and the transfer it has made for it. -/
structure Used where
  req : Req
  made : Option Transfer
  deriving DecidableEq, Repr

/-! ## The system -/

/-- Where the driver is.  The call's arguments are in `Sys.call`. -/
inductive Pc
  | idle
  | setup (rest : List Store)
  | storeRing (idx : Nat)
  | storeIdx (idx : Nat)
  | notify
  | poll (timeout : Nat)
  | loadId
  | loadLen (id : Nat)
  | loadStatus (used : Option Used)
  deriving DecidableEq, Repr

/-- A call that has returned: its arguments, the number of the available entry
it published, whether it gave up, its result, and the request the used element
it consumed was written for. -/
structure Return where
  call : Call
  seq : Nat
  timedOut : Bool
  result : Int
  used : Option Used
  deriving DecidableEq, Repr

structure Sys where
  mem : ByteMem
  -- the driver: `used_seen`, and the entries it has published so far
  pc : Pc
  call : Call
  usedSeen : Nat
  published : Nat
  -- the device: entries taken and used elements published so far, the requests
  -- in between, the disk
  taken : Nat
  completed : Nat
  fetched : List Req
  finished : List Used
  disk : Nat → UInt8
  -- the record
  usedBy : Nat → Option Used
  returns : List Return

/-- The system when `virtio_init` has returned: `qmem` is a zeroed static. -/
def Sys.start (L : Layout) (m : ByteMem) (disk : Nat → UInt8) : Sys where
  mem := writeBytes m L.qmem QMEM_SIZE fun _ => 0
  pc := .idle
  call := ⟨0, 0, false⟩
  usedSeen := 0
  published := 0
  taken := 0
  completed := 0
  fetched := []
  finished := []
  disk := disk
  usedBy := fun _ => none
  returns := []

/-- `blk_op` returns. -/
def Sys.ret (s : Sys) (timedOut : Bool) (result : Int) (used : Option Used) : Sys :=
  { s with
    pc := .idle
    returns := s.returns ++ [⟨s.call, s.published - 1, timedOut, result, used⟩] }

/-- One step of `blk_op`, `virtio_kick_wait` included. -/
def driverStep (L : Layout) (s : Sys) : Option Sys :=
  match s.pc with
  | .idle => none
  | .setup (st :: rest) => some { s with mem := st.run s.mem, pc := .setup rest }
  | .setup [] => some { s with pc := .storeRing (loadLE s.mem L.availIdx 2) }
  | .storeRing idx =>
      some { s with
        mem := storeLE s.mem (L.availRing (idx % L.vqSize)) 2 HEAD
        pc := .storeIdx idx }
  | .storeIdx idx =>
      some { s with
        mem := storeLE s.mem L.availIdx 2 ((idx + 1) % 2 ^ 16)
        published := s.published + 1
        pc := .notify }
  | .notify => some { s with pc := .poll KICK_TIMEOUT }
  | .poll timeout =>
      if loadLE s.mem L.usedIdx 2 = s.usedSeen then
        if timeout - 1 = 0 then some (s.ret true (-1) none)
        else some { s with pc := .poll (timeout - 1) }
      else some { s with pc := .loadId }
  | .loadId =>
      some { s with pc := .loadLen (loadLE s.mem (L.usedElem (s.usedSeen % L.vqSize)) 4) }
  | .loadLen id =>
      let slot := s.usedSeen % L.vqSize
      let r := kickResult HEAD id (loadLE s.mem (L.usedElem slot + 4) 4)
      let s := { s with usedSeen := (s.usedSeen + 1) % 2 ^ 16 }
      if r < 0 then some (s.ret false r (s.usedBy slot))
      else some { s with pc := .loadStatus (s.usedBy slot) }
  | .loadStatus used =>
      let status := loadLE s.mem L.statusByte 1
      some (s.ret false (if status ≠ BLK_S_OK then 100 + status else 0) used)

/-- The device takes the next entry of the available ring. -/
def take (L : Layout) (s : Sys) : Option Sys :=
  let idx := s.taken % 2 ^ 16
  if loadLE s.mem L.availIdx 2 = idx then none
  else
    (fetch L s.mem s.taken (loadLE s.mem (L.availRing (idx % L.vqSize)) 2)).map fun r =>
      { s with taken := s.taken + 1, fetched := s.fetched ++ [r] }

/-- The data part of a request; `none` if type and buffer do not fit. -/
def moveData (r : Req) (s : Sys) : Option (Sys × Transfer) :=
  if r.type = BLK_T_IN ∧ r.writable then
    some ({ s with
        mem := writeBytes s.mem r.data r.len fun i => s.disk (BLK_SECTOR_SIZE * r.sector + i) },
      ⟨.fromDisk, r.sector, r.data, r.len⟩)
  else if r.type = BLK_T_OUT ∧ ¬ r.writable then
    some ({ s with
        disk := writeBytes s.disk (BLK_SECTOR_SIZE * r.sector) r.len fun i => s.mem (r.data + i) },
      ⟨.toDisk, r.sector, r.data, r.len⟩)
  else none

/-- The device writes the status of request `j` of those it has fetched and is
done with it. -/
def Sys.finish (s : Sys) (j : Nat) (r : Req) (status : UInt8) (made : Option Transfer) : Sys :=
  { s with
    mem := storeLE s.mem r.status 1 status.toNat
    fetched := s.fetched.eraseIdx j
    finished := s.finished ++ [⟨r, made⟩] }

/-- The device works on request `j` of those it has fetched.  With the status
`OK` it has made the transfer, with any other it has not. -/
def transfer (s : Sys) (j : Nat) (status : UInt8) : Option Sys :=
  s.fetched[j]?.bind fun r =>
    if status.toNat = BLK_S_OK then
      (moveData r s).map fun p => p.1.finish j r status (some p.2)
    else some (s.finish j r status none)

/-- The device appends the used element of request `j` of those it is done with. -/
def publish (L : Layout) (s : Sys) (j : Nat) (len : BitVec 32) : Option Sys :=
  s.finished[j]?.map fun u =>
    let slot := s.completed % 2 ^ 16 % L.vqSize
    let m := storeLE s.mem (L.usedElem slot) 4 u.req.head
    let m := storeLE m (L.usedElem slot + 4) 4 len.toNat
    { s with
      mem := storeLE m L.usedIdx 2 ((s.completed + 1) % 2 ^ 16)
      completed := s.completed + 1
      finished := s.finished.eraseIdx j
      usedBy := Function.update s.usedBy slot (some u) }

inductive Action
  | call (c : Call)
  | client (a : Nat) (v : UInt8)
  | driver
  | take
  | transfer (j : Nat) (status : UInt8)
  | publish (j : Nat) (len : BitVec 32)
  deriving DecidableEq, Repr

/-- One step of the whole system; `none` if the action is not possible. -/
def step (L : Layout) (s : Sys) : Action → Option Sys
  | .call c =>
      match s.pc with
      | .idle => some { s with call := c, pc := .setup (blkSetup L c) }
      | _ => none
  | .client a v =>
      match s.pc with
      | .idle => some { s with mem := writeBytes s.mem a 1 fun _ => v }
      | _ => none
  | .driver => driverStep L s
  | .take => take L s
  | .transfer j status => transfer s j status
  | .publish j len => publish L s j len

/-- Callers pass buffers of their own and write to memory of their own. -/
def Action.Ok (L : Layout) : Action → Prop
  | .call c => c.Ok L
  | .client a _ => L.Foreign a 1
  | _ => True

end VirtioBlk
end BareMetal
