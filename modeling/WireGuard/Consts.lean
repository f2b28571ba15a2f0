import Mathlib.Algebra.Group.Nat.Defs

/-!
# Protocol constants

Durations are nanoseconds. `u64Max` is the ceiling of the saturating
arithmetic on instants, counters and statistics.
-/

set_option autoImplicit false

namespace WireGuard

def u64Max : ℕ := 18446744073709551615

def isizeMax : ℕ := 9223372036854775807

def second : ℕ := 1000000000

def rekeyAfterMessages : ℕ := 2^60
def rejectAfterMessages : ℕ := u64Max-2^13
def rekeyAfterTime : ℕ := 120*second
def rejectAfterTime : ℕ := 180*second
def rekeyAttemptTime : ℕ := 90*second
def rekeyTimeout : ℕ := 5*second
def keepaliveTimeout : ℕ := 10*second
def rekeyTimeoutJitterMax : ℕ := 333000000
def cookieLifetime : ℕ := 120*second
def sessionDiscardTime : ℕ := rejectAfterTime*3
def rekeyAfterTimeRecv : ℕ := rejectAfterTime-keepaliveTimeout-rekeyTimeout
def deadPeerTimeout : ℕ := keepaliveTimeout+rekeyTimeout

def handshakeInitiationLen : ℕ := 148
def handshakeResponseLen : ℕ := 92
def cookieReplyLen : ℕ := 64
def transportOverhead : ℕ := 32
def paddingMultiple : ℕ := 16

def satAdd (a b : ℕ) : ℕ := min (a+b) u64Max

end WireGuard
