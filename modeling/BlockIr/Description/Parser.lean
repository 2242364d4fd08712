import BlockIr.Description.Linked

/-!
# Parsed sources

The format of a source is the business of a parser. It collects syntax errors as it reads, and the
contents of a source without any are put together when they are asked for, which may go wrong in
ways of its own: then the parser throws.

* `ParsedSource`: what is known of a source once it is parsed.
* `Parser`: any way to parse sources.
-/

namespace BlockIr.Description

/-- A source after parsing, where `θ` is what a parser may throw. -/
structure ParsedSource (θ : Type) where
  /-- The messages of the syntax errors, in the order in which they were met. -/
  syntaxErrors : List String
  /-- The contents, or what is thrown in their place. -/
  contents : Except θ LinkedDoc

abbrev Parser (θ : Type) := String → ParsedSource θ

end BlockIr.Description
