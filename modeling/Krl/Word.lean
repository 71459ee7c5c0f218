/-!
# Words

Offsets, line numbers, and counts that are reported are words of 64 bits. Inside
the library they are natural numbers, and the limit appears only where a word is
read or reported.
-/

namespace Krl

/-- The number of words, one more than the largest of them. -/
def wordLimit : Nat := 0x10000000000000000

end Krl
