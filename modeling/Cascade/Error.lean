set_option autoImplicit false

/-! What can go wrong, by cause, and the one wording of each cause. -/

namespace Cascade

/-- Why a text is no selector. Offsets count the bytes of the text in UTF-8. -/
inductive SelectorError where
  | empty
  | missingName (offset : Nat)
  | emptyVariant (offset : Nat)
deriving DecidableEq

inductive ConfigError where
  /-- In the words of the reader: the text is malformed, or a value is of the wrong kind. -/
  | reported (reason : String)
  | zero (setting : String)
deriving DecidableEq

inductive StyleError where
  | selector (text : String) (cause : SelectorError)
  | context (path : String) (cause : SelectorError)
  /-- The names under expansion, and last the name that one of them repeats. -/
  | cyclicMixin (chain : List String)
  | mixinDepthExceeded (name : String) (limit : Nat)
  | config (cause : ConfigError)
deriving DecidableEq

namespace SelectorError

def offset? : SelectorError → Option Nat
  | .empty => none
  | .missingName offset => some offset
  | .emptyVariant offset => some offset

def message : SelectorError → String
  | .empty => "selector is empty"
  | .missingName offset => "missing name at offset " ++ toString offset
  | .emptyVariant offset => "empty variant qualifier at offset " ++ toString offset

end SelectorError

namespace ConfigError

def message : ConfigError → String
  | .reported reason => reason
  | .zero setting => setting ++ " must be at least 1"

end ConfigError

namespace StyleError

def message : StyleError → String
  | .selector text cause => "invalid selector `" ++ text ++ "`: " ++ cause.message
  | .context path cause => "invalid context path `" ++ path ++ "`: " ++ cause.message
  | .cyclicMixin chain => "cyclic mixin reference: " ++ " -> ".intercalate chain
  | .mixinDepthExceeded name limit =>
      "mixin expansion exceeded depth " ++ toString limit ++ " at `" ++ name ++ "`"
  | .config cause => "invalid configuration: " ++ cause.message

end StyleError

end Cascade
