import Mathlib.Algebra.Group.Nat.Defs
import Mathlib.Data.List.Basic

/-!
# Bytes and Strings

The vocabulary the rest of the model is written in. A C++ `std::string` or
`std::vector<char>` is a list of characters, one for each byte. A program
that passes such a string on as a C string passes the part before its first
NUL, which is `cStr`.

Two things can go wrong in a step that the source takes for granted. Reading
past the end of a string is undefined, and a loop can fail to stop; both are
a `Fault`, and a function that can do either returns `Except Fault`. Index
arithmetic is done on unsigned integers, so it wraps.

## Main definitions

* `Bytes`: A string or a buffer.
* `cStr`: The C string a `std::string` is passed on as.
* `Fault`: What ends a request without a result.
* `charAt`: Reading one character.
* `sizeSub`, `toUnsigned`: `size_t` subtraction and narrowing.
-/

namespace HttpFileSharing

/-- A `std::string` or a buffer of `char`, one `Char` for each byte. -/
abbrev Bytes := List Char

instance : LawfulBEq Bytes := inferInstanceAs (LawfulBEq (List Char))

/-- `CHAR_CR` followed by `CHAR_LF`. -/
def crlf : Bytes := ['\r', '\n']

/-- What `c_str()` hands to a C function: everything before the first NUL. -/
def cStr (s : Bytes) : Bytes := s.takeWhile (· ≠ '\x00')

/-- What ends a request without a result: an index out of range, a failed
    `assert`, `fclose` on a null stream, or a loop that is still running when
    the observation ends. -/
inductive Fault where
  | outOfRange
  | assertion
  | nullStream
  | running
  deriving DecidableEq, Repr

/-- `s[i]`, which is undefined out of range. No index of the source is that of
    the terminator. -/
def charAt (s : Bytes) (i : Nat) : Except Fault Char :=
  match s[i]? with
  | some c => .ok c
  | none => .error .outOfRange

/-- `n - k` in `size_t`. -/
def sizeSub (n k : Nat) : Nat := (n + 2 ^ 64 - k) % 2 ^ 64

/-- The conversion from `size_t` to `unsigned int`. -/
def toUnsigned (n : Nat) : Nat := n % 2 ^ 32

end HttpFileSharing
