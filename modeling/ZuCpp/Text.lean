import Mathlib.Data.List.Basic

/-!
# `std::string`

A `std::string` and a `std::string_view` are their bytes.  Nothing in the header
decodes them, apart from the one walk over UTF-8 in `Error::report`.
-/

namespace ZuCpp

/-- The bytes of a `std::string` or of the text a `std::string_view` shows. -/
abbrev Str := List UInt8

/-- A string literal of the source, all of which are ASCII. -/
def ascii (s : String) : Str := s.toList.map Char.toUInt8

end ZuCpp
