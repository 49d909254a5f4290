import ProtoSchema.Derive.Token

/-!
# Errors of the grammar

Why tokens cannot be read as what should stand there. Most often something else is expected; the
text then also tells when the tokens end too early. The other errors refuse what could be read but
may not stand where it stands.
-/

set_option autoImplicit false

namespace ProtoSchema.Derive

inductive GrammarError where
  /-- Something is missing, possibly because the tokens end. -/
  | expected (what : String) (ended : Bool)
  | expectedMark (marks : String)
  /-- Nothing that could stand here was looked for. -/
  | unexpected (ended : Bool)
  | reservedName (word : String)
  /-- A group goes on behind what it should hold. -/
  | strayToken (bracket : Bracket)
  | missingSemicolon
  | chainedComparison
  | castFollowed (next : String)
  | attributedRange
  | unparenthesizedRange
  | unparenthesizedLabel
  | suffixedIndex
  | tooLarge
  | negative
  | objectWithoutTrait
  | boundWithoutTrait
  | misplacedCapture
  | misplacedConstant (conditional : Bool)
  | secondReceiver
  | lateReceiver
  | negativeImplementation
  | nestedAttribute
  deriving DecidableEq, Repr

namespace GrammarError

def message : GrammarError → String
  | expected what ended =>
    (if ended then "unexpected end of input, " else "") ++ "expected " ++ what
  | expectedMark marks => s!"expected `{marks}`"
  | unexpected ended => if ended then "unexpected end of input" else "unexpected token"
  | reservedName word => s!"expected identifier, found keyword `{word}`"
  | strayToken bracket =>
    "unexpected token, expected `" ++ bracket.closing.toString ++ "`"
  | missingSemicolon => "unexpected token, expected `;`"
  | chainedComparison => "comparison operators cannot be chained"
  | castFollowed next => s!"casts cannot be followed by {next}"
  | attributedRange => "attributes are not allowed on range expressions starting with `..`"
  | unparenthesizedRange =>
    "range pattern is not allowed unparenthesized inside a slice pattern"
  | unparenthesizedLabel => "parentheses required"
  | suffixedIndex => "expected unsuffixed integer"
  | tooLarge => "number too large to fit in target type"
  | negative => "invalid digit found in string"
  | objectWithoutTrait => "at least one trait is required for an object type"
  | boundWithoutTrait => "at least one trait must be specified"
  | misplacedCapture => "`use<...>` precise capturing syntax is not allowed here"
  | misplacedConstant conditional =>
    if conditional then "`[const]` is not allowed here" else "`const` is not allowed here"
  | secondReceiver => "unexpected second method receiver"
  | lateReceiver => "unexpected method receiver"
  | negativeImplementation => "inherent impls cannot be negative"
  | nestedAttribute => "unexpected attribute inside of attribute"

end GrammarError

end ProtoSchema.Derive
