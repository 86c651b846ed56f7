/-!
# Lower case

Type names and flags are recognised in any case.  Their words have ASCII letters only, and no other
character becomes an ASCII letter of one of them in lower case, so mapping those letters is enough.

* `lowered s`   the text with its ASCII letters in lower case.
-/

namespace Abacus

def lowered (s : String) : String := String.ofList (s.toList.map Char.toLower)

end Abacus
