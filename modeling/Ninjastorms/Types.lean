import Mathlib.Data.BitVec

/-!
# Types and constants shared by the whole kernel

The fixed-width integers of `libc/include/sys/types.h`, the error numbers of
`libc/include/errno.h`, the two boards the kernel is configured for and the
memory layout of `kernel/memory.h`.
-/

namespace Ninjastorms

/-- `uint8_t`. -/
abbrev Byte := BitVec 8

/-- `uint16_t`. -/
abbrev HalfWord := BitVec 16

/-- `uint32_t`, `size_t`, `unsigned int` and every pointer. -/
abbrev Word := BitVec 32

/-- `uint64_t` and `clock_t`. -/
abbrev DoubleWord := BitVec 64

/-- `enum SYMBOLIC_ERRNO`. -/
inductive SymbolicErrno where
  | EPERMISSION
  | ETOOMANYTASKS
  | ENOTIMPLEMENTED
  | EINVALIDSYSCALLNO
  | ENOMEM
  deriving DecidableEq, Repr

/-- The value that is stored in `errno`. -/
def SymbolicErrno.val : SymbolicErrno → Int
  | EPERMISSION => 1
  | ETOOMANYTASKS => 2
  | ENOTIMPLEMENTED => 3
  | EINVALIDSYSCALLNO => 4
  | ENOMEM => 12

/-- The board chosen at configuration time (`BOARD_VERSATILEPB`, `BOARD_EV3`). -/
inductive Board where
  | versatilepb
  | ev3
  deriving DecidableEq, Repr

/-- `STACK_SIZE`. -/
def STACK_SIZE : Word := 0x10000

/-- `IRQ_STACK_ADDRESS`. -/
def irqStackAddress : Board → Word
  | .versatilepb => 0x4000000
  | .ev3 => 0xC5000000

/-- `SVC_STACK_ADDRESS`. -/
def svcStackAddress (board : Board) : Word :=
  irqStackAddress board - STACK_SIZE

/-- `TASK_STACK_BASE_ADDRESS`. -/
def taskStackBaseAddress (board : Board) : Word :=
  svcStackAddress board - STACK_SIZE

/-- `HEAP_SIZE`. -/
def HEAP_SIZE : Word := 0x1000000

/-- `HEAP_START`. -/
def HEAP_START : Word := 0x5000000

/-! ### The processor mode -/

/-- `CPSR_MODE_USER`. -/
def CPSR_MODE_USER : Word := 0x10

/-- `CPSR_MODE_SVC`. -/
def CPSR_MODE_SVC : Word := 0x13

/-- `get_operating_mode`, on the value the `mrs` instruction reads from `cpsr`. -/
def getOperatingMode (cpsr : Word) : Word :=
  cpsr &&& 0x1f

/-- `is_privileged`: any mode but user mode. -/
def isPrivileged (cpsr : Word) : Bool :=
  getOperatingMode cpsr != 0b10000

end Ninjastorms
