/-!
# ngpt — return codes

The values the modelled functions return: `0` or an error number.
-/

namespace Ngpt

inductive Errno where
  | ok
  | eperm
  | esrch
  | eintr
  | eagain
  | enomem
  | ebusy
  | einval
  | edeadlk
  | einprogress
  | eownerdead
  | enotrecoverable
  deriving DecidableEq, Repr

/-- The error numbers of Linux on the i386; the last two are those of `pth.h`. -/
def Errno.code : Errno → Int
  | .ok => 0
  | .eperm => 1
  | .esrch => 3
  | .eintr => 4
  | .eagain => 11
  | .enomem => 12
  | .ebusy => 16
  | .einval => 22
  | .edeadlk => 35
  | .einprogress => 115
  | .eownerdead => 131
  | .enotrecoverable => 132

end Ngpt
