import Trtp.Lib.Crc

/-! The process around the protocol code: the build (macros.h), zlib, and the
answers of the operating system to the writes of one process. -/
namespace Trtp.Process

/-- How a process ends inside a call: `exit(EXIT_FAILURE)` of a failed
assertion, a NULL pointer that is followed, or undefined behaviour. -/
inductive Halt where
  | exit | segv | undefined
  deriving DecidableEq, Repr

/-- What write(2) answers on the output file: everything written, EAGAIN, fewer
bytes than asked for, or another error. -/
inductive WriteResult where
  | complete | again | error
  | short (count : Nat)
  deriving DecidableEq, Repr

/-- `debug` is the _DEBUG build. The writes of a process are numbered: `sendOk n`
tells whether its `n`-th write to the socket takes the whole datagram, `write n`
how its `n`-th write to the output file ends. -/
structure Host where
  debug : Bool
  crc32 : List UInt8 → UInt32
  sendOk : Nat → Bool
  write : Nat → WriteResult

/-- A debug build on a host where every write succeeds. -/
def steadyHost : Host where
  debug := true
  crc32 := Lib.Crc.crc32
  sendOk _ := true
  write _ := .complete

def assertAlways (x : Bool) : Except Halt Unit := if x then .ok () else .error .exit

def assert (h : Host) (x : Bool) : Except Halt Unit := if h.debug then assertAlways x else .ok ()

theorem assertAlways_true {x : Bool} (holds : x = true) : assertAlways x = .ok () := if_pos holds

theorem assert_true (h : Host) {x : Bool} (holds : x = true) : assert h x = .ok () := by
  rw [assert,assertAlways_true holds]
  exact ite_self _

end Trtp.Process
