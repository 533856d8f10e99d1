import Cascade.Document
import Cascade.Error
set_option autoImplicit false

/-! Configuration of the engine. In a document it is an object that names its settings, or an array
that gives them in order; a setting that is not given has its default. What is read from a text is
checked. -/

namespace Cascade

structure EngineConfig where
  cacheEnabled : Bool := true
  /-- How many entries a table of the cache holds before it is emptied. -/
  maxCacheEntries : Nat := 4096
  /-- How long a chain of mixins that refer to mixins may be. -/
  maxMixinDepth : Nat := 32
deriving DecidableEq

namespace EngineConfig

def uncached : EngineConfig := { cacheEnabled := false }

def cacheEnabledKey : String := "cache_enabled"

def maxCacheEntriesKey : String := "max_cache_entries"

def maxMixinDepthKey : String := "max_mixin_depth"

/-- Both limits must be positive; the one on the cache is checked first. -/
def validate (config : EngineConfig) : Except StyleError Unit :=
  if config.maxCacheEntries = 0 then .error (.config (.zero maxCacheEntriesKey))
  else if config.maxMixinDepth = 0 then .error (.config (.zero maxMixinDepthKey))
  else .ok ()

/-! ### Documents -/

def members (config : EngineConfig) : List (String × Document) :=
  [(cacheEnabledKey, .bool config.cacheEnabled),
    (maxCacheEntriesKey, .integer config.maxCacheEntries),
    (maxMixinDepthKey, .integer config.maxMixinDepth)]

def encode (config : EngineConfig) : Document := .object config.members

def flag? : Document → Option Bool
  | .bool truth => some truth
  | _ => none

/-- Limits are words of 64 bits. -/
def limit? : Document → Option Nat
  | .integer number => if 0 ≤ number ∧ number < 0x10000000000000000 then some number.toNat else none
  | _ => none

/-- A setting may be given once at most. -/
def setting? {α : Type} (decode : Document → Option α) (default : α) : List Document → Option α
  | [] => some default
  | [given] => decode given
  | _ => none

def ofSettings? (enabled entries depth : List Document) : Option EngineConfig := do
  let defaults : EngineConfig := {}
  return {
    cacheEnabled := ← setting? flag? defaults.cacheEnabled enabled
    maxCacheEntries := ← setting? limit? defaults.maxCacheEntries entries
    maxMixinDepth := ← setting? limit? defaults.maxMixinDepth depth }

def named (members : List (String × Document)) (key : String) : List Document :=
  (members.filter fun member => member.1 = key).map Prod.snd

/-- Other members of an object are passed over. An array may end early, but not go on after the last
setting. -/
def decode : Document → Option EngineConfig
  | .object members =>
      ofSettings? (named members cacheEnabledKey) (named members maxCacheEntriesKey)
        (named members maxMixinDepthKey)
  | .array items =>
      if items.length ≤ 3 then
        ofSettings? (items.take 1) ((items.drop 1).take 1) ((items.drop 2).take 1)
      else none
  | _ => none

/-! ### Texts -/

def toText (format : Format) (config : EngineConfig) : Except String String :=
  format.write config.encode

def ofText (format : Format) (text : String) : Except StyleError EngineConfig :=
  match format.load decode text with
  | .error problem => .error (.config (.reported problem))
  | .ok config => config.validate.map fun _ => config

end EngineConfig

end Cascade
