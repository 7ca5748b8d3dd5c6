import GrokPi.Shared.Text

set_option autoImplicit false

namespace Glob

structure MatchOptions where
  caseSensitive : Bool
  requireLiteralSeparator : Bool
  requireLiteralLeadingDot : Bool
  deriving DecidableEq

structure Crate (Pattern : Type) where
  new : Text → Option Pattern
  matchesWith : Pattern → MatchOptions → Text → Bool

def isMeta (c : Char) : Bool := c == '*' || c == '?' || c == '['

def sameText (options : MatchOptions) (a b : Text) : Bool :=
  if options.caseSensitive then a == b else Text.eqIgnoreAsciiCase a b

structure Crate.Lawful {Pattern : Type} (crate : Crate Pattern) : Prop where
  literal : ∀ source : Text, source.any isMeta = false → ∃ pattern, crate.new source = some pattern ∧
    ∀ options text, crate.matchesWith pattern options text = sameText options text source
  firstBlank : ∀ (c : Char) (source text : Text) (pattern : Pattern) (options : MatchOptions),
    Text.isWhitespace c = true → crate.new (c :: source) = some pattern → options.caseSensitive = true →
    crate.matchesWith pattern options text = true → text.head? = some c
  lastBlank : ∀ (c : Char) (source text : Text) (pattern : Pattern) (options : MatchOptions),
    Text.isWhitespace c = true → crate.new (source ++ [c]) = some pattern →
    options.caseSensitive = true → crate.matchesWith pattern options text = true →
    text.getLast? = some c
  -- A negated class may match fewer characters when the case is ignored.
  ignoringCase : ∀ (source text : Text) (pattern : Pattern) (options : MatchOptions),
    ¬ ['[', '!'] <:+: source → crate.new source = some pattern →
    crate.matchesWith pattern { options with caseSensitive := true } text = true →
    crate.matchesWith pattern { options with caseSensitive := false } text = true

section Wildcards

inductive Token where
  | char (c : Char)
  | anyChar
  | anySequence
  deriving DecidableEq

def token (c : Char) : Token :=
  if c = '*' then .anySequence else if c = '?' then .anyChar else .char c

def sameChar (options : MatchOptions) (a b : Char) : Bool :=
  if options.caseSensitive then a == b else a.toLower == b.toLower

def matchTokens (options : MatchOptions) : List Token → Text → Bool
  | [], text => text.isEmpty
  | .char c :: tokens, text =>
      match text with
      | [] => false
      | d :: rest => sameChar options d c && matchTokens options tokens rest
  | .anyChar :: tokens, text =>
      match text with
      | [] => false
      | d :: rest => !(options.requireLiteralSeparator && d == '/') && matchTokens options tokens rest
  | .anySequence :: tokens, text =>
      (List.range (text.length + 1)).any fun count =>
        !(options.requireLiteralSeparator && (text.take count).contains '/') &&
          matchTokens options tokens (text.drop count)

def wildcards : Crate (List Token) :=
  { new := fun source => if source.contains '[' then none else some (source.map token)
    matchesWith := fun pattern options text => matchTokens options pattern text }

end Wildcards

end Glob
